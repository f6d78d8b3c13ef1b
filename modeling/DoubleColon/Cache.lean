import DoubleColon.Cache.Slot
import DoubleColon.Site

/-!
# The cache

The cache finds the slot of a site through an index. A slot that was taken out of the index lives
on for the computations that have claimed it; what they store in it is not found any more.
-/

set_option autoImplicit false

namespace DoubleColon

structure SlotId where
  index : Nat
  deriving DecidableEq, Repr

structure Cache (α : Type) where
  entries : List (SiteId × SlotId) := []
  /-- All slots that were ever made, by their identities. -/
  slots : List (Slot α) := []
  deriving Repr

namespace Cache

variable {α : Type}

def slotOf? (c : Cache α) (site : SiteId) : Option SlotId :=
  (c.entries.find? fun e => e.1 = site).map (·.2)

def slotFor (c : Cache α) (site : SiteId) : Cache α × SlotId :=
  match c.slotOf? site with
  | some id => (c, id)
  | none =>
      let id : SlotId := ⟨c.slots.length⟩
      (⟨c.entries ++ [(site, id)], c.slots ++ [{}]⟩, id)

def state (c : Cache α) (id : SlotId) (lenient : Bool) : Cell α :=
  match c.slots[id.index]? with
  | some s => s.state lenient
  | none => .vacant

def updateSlot (c : Cache α) (id : SlotId) (f : Slot α → Slot α) : Cache α :=
  { c with slots := c.slots.modify id.index f }

def update (c : Cache α) (id : SlotId) (lenient : Bool)
    (f : Cell α → Cell α) : Cache α :=
  c.updateSlot id fun s => s.update lenient f

def get? (c : Cache α) (site : SiteId) (version : Nat) (lenient : Bool) : Option α :=
  (c.slotOf? site).bind fun id => (c.state id lenient).get? version

def invalidate (c : Cache α) (site : SiteId) : Cache α :=
  match c.slotOf? site with
  | none => c
  | some id => c.updateSlot id fun s => ⟨s.complete.invalidate, s.incomplete.invalidate⟩

def remove (c : Cache α) (site : SiteId) : Cache α :=
  { c with entries := c.entries.filter fun e => e.1 != site }

def clear (c : Cache α) : Cache α := { c with entries := [] }

def size (c : Cache α) : Nat :=
  c.entries.foldr (fun e n => n + match c.slots[e.2.index]? with
    | some s => s.size
    | none => 0) 0

end Cache

end DoubleColon
