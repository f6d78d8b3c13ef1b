import DoubleColon.Proofs.Frames

/-!
# Sites that tell whether they have a target

A class without constructors has an implicit one, which a function type with a parameter does not
suit. So a reference to it resolves if no type is expected, and is empty if the expected type is
a functional interface with one parameter. In this environment sites are switches, and a cycle of
them is a circuit.
-/

set_option autoImplicit false

namespace DoubleColon

namespace Toggle

def env : Env where
  classes := [
    { name := "Box" },
    { name := "Sink", kind := .interface
      methods := [{ name := "accept", params := [.prim .int], isAbstract := true }] }]
  typeParams := []
  names := []
  wellKnown := ⟨⟨2⟩, ⟨2⟩, ⟨2⟩, ⟨2⟩, ⟨2⟩⟩
  searchLimit := 4

def sink : Ty := .cls ⟨1⟩ []

def site (id : SiteId) : Site := { id, qualifier := .type (.cls ⟨0⟩ []), name := .new }

def context : Context := ⟨env, false, ⟨0⟩, ⟨0⟩⟩

def world : World Unit := ⟨{}, [{}], 0, ()⟩

def isOn : Resolution → Bool
  | .empty => false
  | _ => true

/-- Two sites, each of which is expected to be a `Sink` if the other resolves. -/
def pair : Resolver Unit where
  provider s := .resolve (site ⟨1 - s.id.index⟩) fun x =>
    .pure (if x.any fun x => isOn x.resolution then some sink else none)

theorem pure_pair (s : Site) : (pair.provider s).IsPure := fun _ => trivial

def state (on : Bool) : Except Interrupt Resolution :=
  pair.value env (site ⟨0⟩) (if on then none else some sink)

theorem state_ok (on : Bool) : ∃ x, state on = .ok x ∧ isOn x = on := by
  cases on with
  | false => exact ⟨_, rfl, rfl⟩
  | true => exact ⟨_, rfl, rfl⟩

theorem state_ne : state false ≠ state true := by
  intro h
  obtain ⟨x, hx, hon⟩ := state_ok true
  obtain ⟨y, hy, hoff⟩ := state_ok false
  rw [hx, hy] at h
  rw [Except.ok.inj h, hon] at hoff
  cases hoff

def target (id : SiteId) : Option Ty := if id.index = 0 then some sink else none

def fixed : Resolver Unit where
  provider s := .pure (target s.id)

end Toggle

end DoubleColon
