import DoubleColon.Proofs.NearestSupertypes
import DoubleColon.Proofs.SubtypeRules

/-!
# Subtyping of classes

A class type without type arguments is a subtype of another one exactly if the class of the latter
is the root class or is reached in the graph of classes, generic or not. The search for a view goes
from class type to class type, and some of them have type arguments; which classes come next does
not depend on these. So the relation is transitive, where the root class has no supertypes.
-/

set_option autoImplicit false

namespace DoubleColon

namespace Hierarchy

variable {α κ : Type}

theorem ReachedIn.trans {edge : κ → κ → Prop} {j k l : κ} {m n : Nat} (h : ReachedIn edge j m k)
    (h' : ReachedIn edge k n l) : ReachedIn edge j (m + n) l := by
  induction h' with
  | start => exact h
  | step _ hl ih => exact .step ih hl

/-- Where the keys of what comes next depend on the key, a key is reached from a key if a node with
the one is reached from a node with the other. -/
theorem reachedIn_key {key : α → κ} {next : α → List α} {edge : κ → κ → Prop}
    (hf : Follows key next edge) {a : α} {n : Nat} {k : κ} :
    ReachedIn edge (key a) n k ↔ ∃ b, key b = k ∧ ReachedIn (Leads next) a n b := by
  constructor
  · intro h
    induction h with
    | start => exact ⟨a, rfl, .start⟩
    | step _ hl ih =>
      obtain ⟨b, rfl, hb⟩ := ih
      obtain ⟨c, hc, rfl⟩ := List.mem_map.mp ((hf b _).mpr hl)
      exact ⟨c, rfl, .step hb hc⟩
  · rintro ⟨b, rfl, hb⟩
    induction hb with
    | start => exact .start
    | step _ hl ih => exact .step ih ((hf _ _).mp (List.mem_map_of_mem hl))

end Hierarchy

namespace Env

open Hierarchy

variable {env : Env} {c d e : ClassId}

theorem follows_directSupertypes (hn : env.NamesSupertypes) :
    Follows ClassType.id env.directSupertypes env.LeadsTo := by
  intro b k
  rw [List.mem_map]
  constructor
  · rintro ⟨a, ha, rfl⟩
    cases hd : env.class? b.id with
    | none => simp [directSupertypes, hd] at ha
    | some d =>
      rcases (directSupertypes_known hd).mp ha with ⟨t, ht, args, hsuper, -⟩ | ⟨hkind, rfl⟩
      · refine ⟨d, hd, .inl ⟨t, ht, classNamed?_eq_some.mp ?_⟩⟩
        rw [← classNamed?_apply hn hd ht (.ofArgs d b.args)]
        exact classNamed?_eq_some.mpr ⟨args, hsuper⟩
      · exact ⟨d, hd, .inr ⟨hkind, rfl⟩⟩
  · rintro ⟨d, hd, ⟨t, ht, args, hsuper⟩ | ⟨hkind, rfl⟩⟩
    · have hnamed := classNamed?_apply hn hd ht (.ofArgs d b.args)
      rw [classNamed?_eq_some.mpr ⟨args, hsuper⟩, classNamed?_eq_some] at hnamed
      obtain ⟨bs, hbs⟩ := hnamed
      exact ⟨⟨k, _⟩, (directSupertypes_known hd).mpr (.inl ⟨t, ht, bs, hbs, rfl⟩), rfl⟩
    · exact ⟨⟨env.wellKnown.object, []⟩, (directSupertypes_known hd).mpr (.inr ⟨hkind, rfl⟩), rfl⟩

theorem view_isSome_iff (hn : env.NamesSupertypes) {b : ClassType}
    (hend : env.search b d ≠ .exhausted) :
    (env.view b d).isSome ↔ ∃ n, ReachedIn env.LeadsTo b.id n d := by
  have htells := tells_search (fun a : ClassType => decide (a.id = d)) env.directSupertypes b
    env.searchLimit
  have hview : env.view b d = (env.search b d).toOption := rfl
  have hreached := fun n => @reachedIn_key _ _ _ _ _ (follows_directSupertypes hn) b n d
  simp only [hreached]
  change Tells _ _ _ (env.search b d) at htells
  cases hs : env.search b d with
  | found a =>
    rw [hs] at htells
    obtain ⟨ha, n, hn, -⟩ := htells
    rw [hview, hs]
    exact iff_of_true rfl ⟨n, a, of_decide_eq_true ha, hn⟩
  | absent =>
    rw [hs] at htells
    obtain ⟨known, hknown, hall⟩ := htells
    rw [hview, hs]
    refine iff_of_false Bool.false_ne_true ?_
    rintro ⟨n, a, ha, hn⟩
    exact of_decide_eq_false (hknown a (hall n a hn)) ha
  | exhausted => exact absurd hs hend

theorem isSubtype_cls_iff_view : env.isSubtype (.cls c []) (.cls d []) = true ↔
    c = d ∨ d = env.wellKnown.object ∨ (env.view ⟨c, []⟩ d).isSome := by
  have hstep : env.classStep (env.isSubtypeWithin 32) ⟨c, []⟩ ⟨d, []⟩ = true ↔
      d = env.wellKnown.object ∨ (env.view ⟨c, []⟩ d).isSome := by
    unfold classStep
    cases env.view ⟨c, []⟩ d <;> simp
  rw [← hstep, isSubtype, subtypeLevels, isSubtypeWithin_succ]
  constructor
  · rintro (h | h | h | h)
    · exact .inl (Ty.cls.inj h).1
    · cases h
    · cases h
    · cases h with
      | classes h => exact .inr h
  · rintro (rfl | h)
    · exact .inl rfl
    · exact .inr (.inr (.inr (.classes h)))

theorem isSubtype_cls_iff (hn : env.NamesSupertypes) (hend : env.search ⟨c, []⟩ d ≠ .exhausted) :
    env.isSubtype (.cls c []) (.cls d []) = true ↔
      c = d ∨ d = env.wellKnown.object ∨ ∃ n, ReachedIn env.LeadsTo c n d := by
  rw [isSubtype_cls_iff_view, view_isSome_iff hn hend]

/-- What is found to be a subtype is reached, whether other searches end or not. -/
theorem reached_of_isSubtype (hn : env.NamesSupertypes)
    (h : env.isSubtype (.cls c []) (.cls d []) = true) :
    c = d ∨ d = env.wellKnown.object ∨ ∃ n, ReachedIn env.LeadsTo c n d := by
  refine (isSubtype_cls_iff_view.mp h).imp_right (Or.imp_right fun hview => ?_)
  have hend : env.search ⟨c, []⟩ d ≠ .exhausted := by
    intro hs
    simp [view, hs, Search.toOption] at hview
  exact (view_isSome_iff hn hend).mp hview

theorem eq_object_of_reached
    (hroot : ∀ k, env.class? env.wellKnown.object = some k → k.supertypes = []) {n : Nat}
    (h : ReachedIn env.LeadsTo env.wellKnown.object n d) : d = env.wellKnown.object := by
  induction h with
  | start => rfl
  | step _ hl ih =>
    subst ih
    obtain ⟨k, hk, ⟨t, ht, -⟩ | ⟨-, rfl⟩⟩ := hl
    · rw [hroot k hk] at ht
      cases ht
    · rfl

/-- A class type without type arguments is a subtype of another one, as far as the search for the
latter's class ends, exactly if the two are one, the latter's class is the root class, or it is
reached from the former's. The relation is transitive. -/
theorem subclasses_are_reached (hn : env.NamesSupertypes)
    (hroot : ∀ k, env.class? env.wellKnown.object = some k → k.supertypes = []) :
    (∀ c d, env.search ⟨c, []⟩ d ≠ .exhausted →
      (env.isSubtype (.cls c []) (.cls d []) = true ↔
        c = d ∨ d = env.wellKnown.object ∨ ∃ n, ReachedIn env.LeadsTo c n d)) ∧
    ∀ c d e, env.search ⟨c, []⟩ e ≠ .exhausted →
      env.isSubtype (.cls c []) (.cls d []) = true → env.isSubtype (.cls d []) (.cls e []) = true →
      env.isSubtype (.cls c []) (.cls e []) = true := by
  refine ⟨fun c d => isSubtype_cls_iff hn, fun c d e hend hcd hde => ?_⟩
  rw [isSubtype_cls_iff hn hend]
  rcases reached_of_isSubtype hn hde with rfl | he | ⟨n, hn'⟩
  · exact reached_of_isSubtype hn hcd
  · exact .inr (.inl he)
  · rcases reached_of_isSubtype hn hcd with rfl | rfl | ⟨m, hm⟩
    · exact .inr (.inr ⟨n, hn'⟩)
    · exact .inr (.inl (eq_object_of_reached hroot hn'))
    · exact .inr (.inr ⟨m + n, hm.trans hn'⟩)

end Env

namespace Rings

open Env Hierarchy

/-- Of the two classes that extend each other one implements an interface, which is so a supertype
of both. Neither of them is a string. -/
theorem subclasses_are_reached_rings :
    (env.isSubtype (.cls ⟨27⟩ []) (.cls ⟨15⟩ []) = true ↔
      (⟨27⟩ : ClassId) = ⟨15⟩ ∨ (⟨15⟩ : ClassId) = env.wellKnown.object ∨
        ∃ n, ReachedIn env.LeadsTo ⟨27⟩ n ⟨15⟩) ∧
    (env.isSubtype (.cls ⟨26⟩ []) (.cls Standard.string []) = true ↔
      (⟨26⟩ : ClassId) = Standard.string ∨ Standard.string = env.wellKnown.object ∨
        ∃ n, ReachedIn env.LeadsTo ⟨26⟩ n Standard.string) ∧
    env.isSubtype (.cls ⟨27⟩ []) (.cls ⟨26⟩ []) = true ∧
    env.isSubtype (.cls ⟨26⟩ []) (.cls ⟨15⟩ []) = true ∧
    env.isSubtype (.cls ⟨27⟩ []) (.cls ⟨15⟩ []) = true := by
  have hn : env.NamesSupertypes := namesSupertypes_of_all (by decide +kernel)
  have hroot : ∀ k, env.class? env.wellKnown.object = some k → k.supertypes = [] := by
    intro k hk
    obtain rfl : Standard.objectDecl = k := Option.some.inj hk
    rfl
  have hall := subclasses_are_reached hn hroot
  have hlink : env.isSubtype (.cls ⟨27⟩ []) (.cls ⟨26⟩ []) = true := by decide +kernel
  have hring : env.isSubtype (.cls ⟨26⟩ []) (.cls ⟨15⟩ []) = true := by decide +kernel
  exact ⟨hall.1 _ _ (by decide +kernel), hall.1 _ _ (by decide +kernel), hlink, hring,
    hall.2 ⟨27⟩ ⟨26⟩ ⟨15⟩ (by decide +kernel) hlink hring⟩

end Rings

end DoubleColon
