import DoubleColon.Conversion
import DoubleColon.Env.Standard
import DoubleColon.Proofs.IntersectionParts

/-!
# The root class above all references

Every reference type is a subtype of the root class, and so an argument for a parameter of that
type, unless the test cannot tell what it is: it has no rule for a name that the environment does
not know, and so none for an intersection of such names. One part that is known is enough.
-/

set_option autoImplicit false

namespace DoubleColon

inductive Ty.IsReferenceThroughout : Ty → Prop
  | leaf {t : Ty} (ht : t.isReference = true) (hi : t.isInter = false) : IsReferenceThroughout t
  | inter {parts : List Ty} (h : ∀ p ∈ parts, IsReferenceThroughout p) :
      IsReferenceThroughout (.inter parts)

theorem Ty.IsReferenceThroughout.isReference {t : Ty} (h : t.IsReferenceThroughout) :
    t.isReference = true := by
  cases h with
  | leaf ht => exact ht
  | inter => rfl

namespace Env

inductive Unresolved (env : Env) : Ty → Prop
  | named {name : String} (h : env.lookup name = none) : Unresolved env (.named name)
  | inter {parts : List Ty} (h : ∀ p ∈ parts, Unresolved env p) : Unresolved env (.inter parts)

variable {env : Env} {t : Ty} {n : Nat}

theorem unresolved_named {name : String} :
    env.Unresolved (.named name) ↔ env.lookup name = none :=
  ⟨fun h => by cases h; assumption, .named⟩

theorem unresolved_inter {parts : List Ty} :
    env.Unresolved (.inter parts) ↔ ∀ p ∈ parts, env.Unresolved p :=
  ⟨fun h => by cases h; assumption, .inter⟩

theorem subtypeRule_object_cls {le : Ty → Ty → Bool} (id : ClassId) (args : List Ty) :
    env.SubtypeRule le (.cls id args) env.objectTy :=
  .classes (by simp [classStep])

theorem isSubtypeWithin_object_named {name : String} :
    env.isSubtypeWithin (n + 1) (.named name) env.objectTy = true ↔ env.lookup name ≠ none := by
  rw [isSubtypeWithin_succ]
  cases h : env.lookup name with
  | none =>
    have hname : env.canonical (.named name) = .named name := by simp [canonical, h]
    rw [hname]
    refine iff_of_false ?_ (not_not_intro rfl)
    rintro (heq | hrec | hrec | hrule)
    · cases heq
    · cases hrec
    · cases hrec
    · cases hrule
  | some id =>
    have hname : env.canonical (.named name) = .cls id [] := by simp [canonical, h]
    rw [hname]
    exact iff_of_true (.inr (.inr (.inr (subtypeRule_object_cls id [])))) (Option.some_ne_none id)

theorem isSubtypeWithin_object_leaf (ht : t.isReference = true) (hi : t.isInter = false) :
    env.isSubtypeWithin (n + 1) t env.objectTy = true ↔ ¬ env.Unresolved t := by
  cases t with
  | cls id args =>
    refine iff_of_true (isSubtypeWithin_of_rule (subtypeRule_object_cls id args)) fun h => ?_
    cases h
  | array elem =>
    have hroot : env.isArraySupertype env.wellKnown.object = true := by simp [isArraySupertype]
    refine iff_of_true (isSubtypeWithin_of_rule (.arrayClass hroot)) fun h => ?_
    cases h
  | var v =>
    have hroot : env.isObject env.objectTy = true := by simp [objectTy, isObject]
    refine iff_of_true (isSubtypeWithin_of_rule (.varRoot hroot)) fun h => ?_
    cases h
  | null =>
    refine iff_of_true (isSubtypeWithin_of_rule (.null rfl)) fun h => ?_
    cases h
  | named name => rw [isSubtypeWithin_object_named, unresolved_named]
  | inter parts => cases hi
  | _ => cases ht

theorem isSubtypeWithin_object_inter {parts : List Ty} :
    env.isSubtypeWithin (n + 1) (.inter parts) env.objectTy = true ↔
      ∃ p ∈ parts, env.isSubtypeWithin n p env.objectTy = true := by
  rw [isSubtypeWithin_succ]
  constructor
  · rintro (heq | hrec | hrec | hrule)
    · cases heq
    · cases hrec
    · cases hrec
    · rcases subtypeRule_inter_left.mp hrule with ⟨qs, hqs, -⟩ | ⟨-, -, hpart⟩
      · cases hqs
      · exact hpart
  · exact fun h => .inr (.inr (.inr (subtypeRule_inter_left.mpr (.inr ⟨rfl, rfl, h⟩))))

/-- The test takes a level for each intersection that it looks into. -/
theorem isSubtypeWithin_object (ht : t.IsReferenceThroughout) (hn : t.interNesting ≤ n) :
    env.isSubtypeWithin (n + 1) t env.objectTy = true ↔ ¬ env.Unresolved t := by
  induction ht generalizing n with
  | leaf href hi => exact isSubtypeWithin_object_leaf href hi
  | @inter parts _ ih =>
    rw [Ty.interNesting] at hn
    obtain ⟨m, rfl⟩ : ∃ m, n = m + 1 := ⟨n - 1, by omega⟩
    have hpart : ∀ p ∈ parts, env.isSubtypeWithin (m + 1) p env.objectTy = true ↔
        ¬ env.Unresolved p := fun p hp =>
      ih p hp (Nat.le_trans (Ty.interNesting_le_of_mem hp) (Nat.le_of_succ_le_succ hn))
    rw [isSubtypeWithin_object_inter, unresolved_inter]
    simp only [not_forall, exists_prop]
    exact exists_congr fun p => and_congr_right (hpart p)

theorem isAssignable_object (ht : t.isReference = true) :
    env.isAssignable env.objectTy t = env.isSubtype t env.objectTy := by
  cases t with
  | cls | array | var | inter | named | null => rfl
  | _ => cases ht

/-- A reference type is a subtype of the root class, and may be passed for it, unless it is a name
that is not known or an intersection of nothing but such names. Intersections may be nested as deep
as the test looks. -/
theorem object_on_top (ht : t.IsReferenceThroughout) (hn : t.interNesting ≤ 32) :
    (env.isSubtype t env.objectTy = true ↔ ¬ env.Unresolved t) ∧
    (env.isAssignable env.objectTy t = true ↔ ¬ env.Unresolved t) := by
  rw [isAssignable_object ht.isReference]
  exact ⟨isSubtypeWithin_object ht hn, isSubtypeWithin_object ht hn⟩

/-- What is an array of integers and something that is not known may be passed for an object. -/
theorem object_on_top_array :
    standard.isSubtype (.inter [.named "Missing", .array Standard.int]) standard.objectTy = true ∧
    standard.isAssignable standard.objectTy (.inter [.named "Missing", .array Standard.int]) =
      true := by
  have hparts : ∀ p ∈ [Ty.named "Missing", .array Standard.int], p.IsReferenceThroughout :=
    List.forall_mem_cons.mpr ⟨.leaf rfl rfl, List.forall_mem_cons.mpr
      ⟨.leaf rfl rfl, List.forall_mem_nil _⟩⟩
  have harray : ¬ standard.Unresolved (.array Standard.int) := fun h => by cases h
  have hknown : ¬ standard.Unresolved (.inter [.named "Missing", .array Standard.int]) := fun h =>
    harray (unresolved_inter.mp h _ (by simp))
  have hall := @object_on_top standard _ (.inter hparts) (by decide)
  exact ⟨hall.1.mpr hknown, hall.2.mpr hknown⟩

/-- A name that is not known, alone or in an intersection, is no object, although it is a reference
type. -/
theorem unknown_name_no_object :
    (Ty.named "Missing").isReference = true ∧
    standard.isSubtype (.named "Missing") standard.objectTy = false ∧
    standard.isAssignable standard.objectTy (.named "Missing") = false ∧
    standard.isSubtype (.inter [.named "Missing"]) standard.objectTy = false := by
  decide +kernel

end Env

end DoubleColon
