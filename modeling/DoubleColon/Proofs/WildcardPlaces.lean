import DoubleColon.Conversion
import DoubleColon.Proofs.FunctionOrder
import DoubleColon.Proofs.NearestSupertypes
import DoubleColon.Proofs.Overriding
import DoubleColon.Proofs.ViewsAreSupertypes

/-!
# Where wildcards stand

A wildcard may stand for a type argument, and nowhere else: not as a type of its own, nor as the
element type of an array, a part of an intersection or the bound of another wildcard. Type arguments
that are wildcards keep to this as long as the type variables that they are put in for stand as type
arguments themselves. If those of the declared supertypes do, all views of types that keep to it do
so too.
-/

set_option autoImplicit false

namespace DoubleColon

namespace Ty

mutual

/-- Wildcards stand as type arguments only, not even in the bounds of each other; and so do type
variables, unless they are free to stand anywhere. The type itself stands as a type argument or
not. -/
def isPlaced (free asArg : Bool) : Ty → Bool
  | .var _ => free || asArg
  | .wild => asArg
  | .wildUpper b | .wildLower b => asArg && isPlaced free false b
  | .cls _ args => arePlaced free true args
  | .array elem => isPlaced free false elem
  | .inter parts => arePlaced free false parts
  | _ => true

def arePlaced (free asArg : Bool) : List Ty → Bool
  | [] => true
  | t :: rest => isPlaced free asArg t && arePlaced free asArg rest

end

def isTidy (t : Ty) : Bool := t.isPlaced true false

def isTidyArg (t : Ty) : Bool := t.isPlaced true true

def passesOn (t : Ty) : Bool := t.isPlaced false false

variable {free asArg : Bool} {t : Ty}

theorem arePlaced_iff {l : List Ty} :
    arePlaced free asArg l = true ↔ ∀ t ∈ l, t.isPlaced free asArg = true := by
  induction l with
  | nil => simp [arePlaced]
  | cons t rest ih => simp [arePlaced, ih]

theorem isTidy_cls {id : ClassId} {args : List Ty} :
    (Ty.cls id args).isTidy = true ↔ ∀ a ∈ args, a.isTidyArg = true := arePlaced_iff

theorem isTidy_inter {parts : List Ty} :
    (Ty.inter parts).isTidy = true ↔ ∀ p ∈ parts, p.isTidy = true := arePlaced_iff

theorem isPlaced_arg (h : t.isPlaced free false = true) : t.isPlaced free asArg = true := by
  cases t <;> simp_all [isPlaced]

theorem isTidyArg_of_tidy (h : t.isTidy = true) : t.isTidyArg = true := isPlaced_arg h

theorem insideWildcard_of_tidyArg (h : t.isTidyArg = true) :
    t.insideWildcard = .wild ∨ t.insideWildcard.isTidy = true := by
  cases t <;> simp_all [isTidyArg, isTidy, isPlaced, insideWildcard]

theorem isPlaced_apply {s : Substitution} (hs : ∀ v u, s.get? v = some u → u.isTidyArg = true)
    (h : t.isPlaced false asArg = true) : (s.apply t).isPlaced true asArg = true := by
  induction t using inductionOn generalizing asArg with
  | var v =>
    obtain rfl : asArg = true := h
    cases hv : s.get? v with
    | none => rw [Substitution.apply_var_of_none hv]; rfl
    | some u => rw [Substitution.apply_var_of_some hv]; exact hs v u hv
  | cls id args ih | inter args ih =>
    simp only [isPlaced, arePlaced_iff, Substitution.apply, Substitution.applyAll_eq_map,
      List.forall_mem_map] at h ⊢
    exact fun a ha => ih a ha (h a ha)
  | array elem ih => exact ih h
  | wildUpper b ih | wildLower b ih =>
    simp only [isPlaced, Substitution.apply, Bool.and_eq_true] at h ⊢
    exact ⟨h.1, ih h.2⟩
  | _ => exact h

end Ty

namespace Env

open Hierarchy

variable {env : Env} {t : Ty} {c : ClassType} {target : ClassId}

theorem isPlaced_canonical {free asArg : Bool} (h : t.isPlaced free asArg = true) :
    (env.canonical t).isPlaced free asArg = true := by
  cases t with
  | named n =>
    cases hn : env.lookup n <;> simp [canonical, hn, Ty.isPlaced, Ty.arePlaced]
  | _ => exact h

/-- The declared supertypes place wildcards and type variables as type arguments, and the upper
bounds of type variables wildcards. -/
structure PlacesWildcards (env : Env) : Prop where
  supertypes : ∀ d ∈ env.classes, ∀ t ∈ d.supertypes, t.passesOn = true
  bounds : ∀ p ∈ env.typeParams, ∀ b ∈ p.upperBounds, b.isTidy = true

/-! ## Views of class types -/

theorem mem_of_get?_ofArgs {d : ClassDecl} {args : List Ty} {v : TypeVar} {u : Ty}
    (h : (Substitution.ofArgs d args).get? v = some u) : u ∈ args := by
  unfold Substitution.ofArgs at h
  split at h
  · have hmem := (Substitution.mem_of_get?_insertAll h).resolve_right nofun
    exact (List.of_mem_zip hmem).2
  · cases h

theorem PlacesWildcards.extends (h : env.PlacesWildcards) (hc : c.toTy.isTidy = true)
    {b : ClassType} (hb : env.Extends c b) : b.toTy.isTidy = true := by
  cases hb with
  | @declared d t id args hd ht _ hsuper =>
    have hput : ∀ v u, (Substitution.ofArgs d c.args).get? v = some u → u.isTidyArg = true :=
      fun v u hu => Ty.isTidy_cls.mp hc u (mem_of_get?_ofArgs hu)
    have hplaced := Ty.isPlaced_apply hput (h.supertypes d (List.mem_of_getElem? hd) t ht)
    have hcanonical := @isPlaced_canonical env _ true false hplaced
    rwa [hsuper] at hcanonical
  | raw | root => rfl

theorem PlacesWildcards.view (h : env.PlacesWildcards) (hc : c.toTy.isTidy = true)
    {b : ClassType} (hb : env.view c target = some b) : b.toTy.isTidy = true := by
  have htells := env.tells_view c target
  have hview : (env.search c target).toOption = some b := hb
  cases hs : env.search c target with
  | found a =>
    rw [hs] at htells hview
    obtain rfl := Option.some.inj hview
    obtain ⟨-, n, hn, -⟩ := htells
    clear hs hview hb
    induction hn with
    | start => exact hc
    | step _ hl ih => exact h.extends ih hl
  | absent | exhausted =>
    rw [hs] at hview
    cases hview

theorem PlacesWildcards.viewLeaf (h : env.PlacesWildcards) (ht : t.isTidy = true) {v : Ty}
    (hv : env.viewLeaf target t = some v) : v.isTidy = true := by
  rcases viewLeaf_cases hv with ⟨elem, -, -, rfl⟩ | ⟨c, b, hc, hb, rfl⟩
  · rfl
  · exact h.view (hc ▸ isPlaced_canonical ht) hb

/-! ## Views through parts and bounds -/

section

variable {α : Type} {merge : α → α → Option α} {leaf : Ty → Option α} {a : α}

theorem exists_leaf_of_throughParts (hmerge : ∀ a b c, merge a b = some c → c = a ∨ c = b)
    {ofVar : TypeVar → Option α} (h : throughParts merge leaf ofVar t = some a) :
    (∃ s, env.PartOf s t ∧ leaf s = some a) ∨
      ∃ v, env.PartOf (.var v) t ∧ ofVar v = some a := by
  induction t using Ty.inductionOn with
  | inter parts ih =>
    simp only [throughParts, throughAll_eq_map] at h
    have hmem := (mem_of_combine hmerge h).resolve_left (Option.some_ne_none a).symm
    obtain ⟨p, hp, hpa⟩ := List.mem_map.mp hmem
    rcases ih p hp hpa with ⟨s, hs, hsa⟩ | ⟨v, hv, hva⟩
    · exact .inl ⟨s, .inter hp hs, hsa⟩
    · exact .inr ⟨v, .inter hp hv, hva⟩
  | var v => exact .inr ⟨v, .refl, h⟩
  | _ => exact .inl ⟨_, .refl, h⟩

theorem exists_leaf_of_throughBounds (hmerge : ∀ a b c, merge a b = some c → c = a ∨ c = b)
    {n : Nat} {seen : List TypeVar} {v : TypeVar}
    (h : env.throughBounds merge leaf n seen v = some a) :
    ∃ s, env.PartOf s (.var v) ∧ leaf s = some a := by
  induction n generalizing seen v with
  | zero => cases h
  | succ n ih =>
    simp only [throughBounds] at h
    split at h
    · cases h
    · cases hp : env.typeParam? v with
      | none => simp [hp] at h
      | some p =>
        simp only [hp] at h
        have hmem := (mem_of_combine hmerge h).resolve_left (Option.some_ne_none a).symm
        obtain ⟨b, hb, hba⟩ := List.mem_map.mp hmem
        rcases exists_leaf_of_throughParts hmerge hba with ⟨s, hs, hsa⟩ | ⟨w, hw, hwa⟩
        · exact ⟨s, .bound hp hb hs, hsa⟩
        · obtain ⟨s, hs, hsa⟩ := ih hwa
          exact ⟨s, hs.trans (.bound hp hb hw), hsa⟩

/-- What is read of a type is read of one of those that it is read through, if of two results one is
kept. -/
theorem exists_leaf_of_overParts (hmerge : ∀ a b c, merge a b = some c → c = a ∨ c = b)
    (h : env.overParts merge leaf t = some a) : ∃ s, env.PartOf s t ∧ leaf s = some a := by
  rcases exists_leaf_of_throughParts hmerge h with hleaf | ⟨v, hv, hva⟩
  · exact hleaf
  · obtain ⟨s, hs, hsa⟩ := exists_leaf_of_throughBounds hmerge hva
    exact ⟨s, hs.trans hv, hsa⟩

end

theorem PlacesWildcards.partOf (h : env.PlacesWildcards) {s : Ty} (hs : env.PartOf s t)
    (ht : t.isTidy = true) : s.isTidy = true := by
  induction hs with
  | refl => exact ht
  | inter hmem _ ih => exact ih (Ty.isTidy_inter.mp ht _ hmem)
  | bound hp hmem _ ih => exact ih (h.bounds _ (List.mem_of_getElem? hp) _ hmem)

theorem PlacesWildcards.asSuper (h : env.PlacesWildcards) (ht : t.isTidy = true) {v : Ty}
    (hv : env.asSuper t target = some v) : v.isTidy = true := by
  obtain ⟨s, hs, hsv⟩ := exists_leaf_of_overParts (fun _ _ _ => mergeViews_cases) hv
  exact h.viewLeaf (h.partOf hs ht) hsv

theorem isTidy_withoutWildcards (ht : t.isTidyArg = true) :
    (env.withoutWildcards t).isTidy = true := by
  have hbound : ∀ a : Ty, a.isTidyArg = true → (env.argBound a).isTidy = true := by
    intro a ha
    cases a <;> simp_all [argBound, Ty.isTidyArg, Ty.isTidy, Ty.isPlaced, objectTy, Ty.arePlaced]
  cases t with
  | cls id args =>
    refine Ty.isTidy_cls.mpr (List.forall_mem_map.mpr fun a ha => ?_)
    have hargs : ∀ a ∈ args, a.isTidyArg = true := (@Ty.isTidy_cls id args).mp ht
    exact Ty.isTidyArg_of_tidy (hbound a (hargs a ha))
  | _ => exact hbound _ ht

end Env

end DoubleColon
