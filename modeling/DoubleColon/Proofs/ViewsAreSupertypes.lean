import Mathlib.Data.List.Forall2
import DoubleColon.Env.Standard
import DoubleColon.SupertypeView

/-!
# Views are supertypes

A type is a subtype of its view as an instance of a class. For a class type the subtype test makes
the very search that has found the view, and every type argument contains itself. The view of an
intersection or of a type variable is that of one of its parts or bounds: where several have views
that differ, one of these is kept and none is made up.
-/

set_option autoImplicit false

namespace DoubleColon

/-- What is put together from results is one of them, if putting two together gives one of the
two. -/
theorem mem_of_combine {α : Type} {merge : α → α → Option α}
    (hmerge : ∀ a b c, merge a b = some c → c = a ∨ c = b) {l : List (Option α)} {acc : Option α}
    {c : α} (h : combine merge acc l = some c) : acc = some c ∨ some c ∈ l := by
  induction l generalizing acc with
  | nil =>
    rw [combine_nil] at h
    exact .inl h
  | cons x rest ih =>
    cases x with
    | none =>
      rw [combine_none_cons] at h
      exact (ih h).imp_right (List.mem_cons_of_mem _)
    | some b =>
      cases acc with
      | none =>
        refine (ih h).elim (fun hb => .inr ?_) fun hm => .inr (List.mem_cons_of_mem _ hm)
        rw [hb]
        exact List.mem_cons_self
      | some a =>
        simp only [combine] at h
        cases hm : merge a b with
        | none => simp [hm] at h
        | some m =>
          rw [hm] at h
          rcases ih h with hm' | hm'
          · obtain rfl := Option.some.inj hm'
            rcases hmerge a b _ hm with rfl | rfl
            · exact .inl rfl
            · exact .inr List.mem_cons_self
          · exact .inr (List.mem_cons_of_mem _ hm')

namespace Env

variable {env : Env} {t v : Ty} {target : ClassId}

/-! ## Types with no parts or bounds -/

theorem isSubtypeWithin_refl (env : Env) (n : Nat) (t : Ty) :
    env.isSubtypeWithin (n + 1) t t = true := by
  simp [isSubtypeWithin]

theorem isSubtypeWithin_of_step {n : Nat} {s : Ty}
    (h : env.subtypeStep (env.isSubtypeWithin n) (env.canonical s) (env.canonical t) = true) :
    env.isSubtypeWithin (n + 1) s t = true := by
  simp [isSubtypeWithin, h]

theorem containsArg_self (env : Env) {le : Ty → Ty → Bool} (hle : ∀ t, le t t = true) (a : Ty) :
    env.containsArg le a a = true := by
  cases a <;> simp [containsArg, argUpper, hle]

theorem classStep_of_view {le : Ty → Ty → Bool} (hle : ∀ t, le t t = true) {b c : ClassType}
    (h : env.view c target = some b) : env.classStep le c b = true := by
  have hview : env.view c b.id = some b := by rwa [id_of_view_eq_some h]
  have hargs : ∀ p ∈ b.args.zip b.args, env.containsArg le p.1 p.2 = true := by
    rintro ⟨a, formal⟩ ha
    obtain rfl : a = formal := List.forall₂_zip (List.forall₂_same.mpr fun _ _ => rfl) ha
    exact env.containsArg_self hle a
  unfold classStep
  rw [hview]
  simp only [Bool.or_eq_true]
  exact .inr (.inr (List.all_eq_true.mpr hargs))

theorem viewLeaf_cases (h : env.viewLeaf target t = some v) :
    (∃ elem, env.canonical t = .array elem ∧ env.isArraySupertype target = true ∧
      v = .cls target []) ∨
    ∃ c b, env.canonical t = ClassType.toTy c ∧ env.view c target = some b ∧ v = b.toTy := by
  unfold viewLeaf at h
  split at h
  · rename_i elem hc
    split at h
    · rename_i ht
      exact .inl ⟨elem, hc, ht, (Option.some.inj h).symm⟩
    · cases h
  · rename_i id args hc
    obtain ⟨b, hb, rfl⟩ := Option.map_eq_some_iff.mp h
    exact .inr ⟨⟨id, args⟩, b, hc, hb, rfl⟩
  · cases h

/-- A type with no parts or bounds is a subtype of its view, whatever number of levels the test
has left, but for the last one. -/
theorem isSubtypeWithin_of_viewLeaf (h : env.viewLeaf target t = some v) (n : Nat) :
    env.isSubtypeWithin (n + 2) t v = true := by
  refine isSubtypeWithin_of_step ?_
  rcases viewLeaf_cases h with ⟨elem, hc, ht, rfl⟩ | ⟨c, b, hc, hb, rfl⟩
  · rw [hc]
    exact ht
  · rw [hc]
    exact classStep_of_view (env.isSubtypeWithin_refl n) hb

/-! ## Types with parts or bounds -/

theorem mergeViews_cases {s t v : Ty} (h : env.mergeViews s t = some v) : v = s ∨ v = t := by
  unfold mergeViews narrower at h
  split at h
  · exact .inl (Option.some.inj h).symm
  split at h
  · split at h
    · exact .inl (Option.some.inj h).symm
    · split at h
      · exact .inr (Option.some.inj h).symm
      · cases h
  · split at h
    · exact .inl (Option.some.inj h).symm
    · exact .inr (Option.some.inj h).symm

theorem exists_viewLeaf {ofVar : TypeVar → Option Ty} {parts : List Ty}
    (hparts : ∀ p ∈ parts, p.isCompound = false)
    (h : combine env.mergeViews none
      (parts.map (throughParts env.mergeViews (env.viewLeaf target) ofVar)) = some v) :
    ∃ p ∈ parts, env.viewLeaf target p = some v := by
  have hmem := (mem_of_combine (fun _ _ _ => mergeViews_cases) h).resolve_left nofun
  obtain ⟨p, hp, hv⟩ := List.mem_map.mp hmem
  rw [throughParts_eq_leaf (hparts p hp)] at hv
  exact ⟨p, hp, hv⟩

/-- A type is seen through types that are neither intersections nor type variables: it is such a
type itself, or all its parts or upper bounds are. -/
def SeenThroughLeaves (env : Env) : Ty → Prop
  | .inter parts => ∀ p ∈ parts, p.isCompound = false
  | .var v => ∀ p, env.typeParam? v = some p → ∀ b ∈ p.upperBounds, b.isCompound = false
  | _ => True

theorem exists_bound_of_asSuper {v : TypeVar} {s : Ty} (ht : env.SeenThroughLeaves (.var v))
    (h : env.asSuper (.var v) target = some s) :
    ∃ p, env.typeParam? v = some p ∧ ∃ b ∈ p.upperBounds, env.viewLeaf target b = some s := by
  have hbounds : env.throughBounds env.mergeViews (env.viewLeaf target) env.typeParams.length []
      v = some s := h
  cases hlen : env.typeParams.length with
  | zero => simp [hlen, throughBounds] at hbounds
  | succ n =>
    rw [hlen, throughBounds, if_neg List.not_mem_nil] at hbounds
    cases hp : env.typeParam? v with
    | none => simp [hp] at hbounds
    | some p =>
      simp only [hp] at hbounds
      exact ⟨p, rfl, exists_viewLeaf (ht p hp) hbounds⟩

theorem eq_cls_of_viewLeaf (h : env.viewLeaf target t = some v) : ∃ id args, v = .cls id args := by
  rcases viewLeaf_cases h with ⟨_, _, _, rfl⟩ | ⟨_, b, _, _, rfl⟩
  · exact ⟨target, [], rfl⟩
  · exact ⟨b.id, b.args, rfl⟩

/-- A type is a subtype of its view as an instance of a class. -/
theorem isSubtype_of_view (ht : env.SeenThroughLeaves t) (h : env.asSuper t target = some v) :
    env.isSubtype t v = true := by
  cases t with
  | inter parts =>
    have hparts : combine env.mergeViews none (throughAll env.mergeViews (env.viewLeaf target)
        (env.throughBounds env.mergeViews (env.viewLeaf target) env.typeParams.length []) parts) =
      some v := h
    rw [throughAll_eq_map] at hparts
    obtain ⟨p, hp, hleaf⟩ := exists_viewLeaf ht hparts
    have hle := isSubtypeWithin_of_viewLeaf hleaf 30
    obtain ⟨id, args, rfl⟩ := eq_cls_of_viewLeaf hleaf
    exact isSubtypeWithin_of_step (List.any_eq_true.mpr ⟨p, hp, hle⟩)
  | var w =>
    obtain ⟨p, hp, b, hb, hleaf⟩ := exists_bound_of_asSuper ht h
    have hle := isSubtypeWithin_of_viewLeaf hleaf 30
    obtain ⟨id, args, rfl⟩ := eq_cls_of_viewLeaf hleaf
    refine isSubtypeWithin_of_step ?_
    have hany : p.upperBounds.any (fun b => env.isSubtypeWithin 32 b (.cls id args)) = true :=
      List.any_eq_true.mpr ⟨b, hb, hle⟩
    simp [subtypeStep, canonical, hp, hany]
  | _ =>
    rw [asSuper_eq_viewLeaf rfl] at h
    exact isSubtypeWithin_of_viewLeaf h 31

/-- A `List<?>` is a `Collection<?>` and a string is not a collection, so that what is both is a
`Collection<?>`. -/
theorem isSubtype_of_view_list :
    standard.asSuper (.inter [Standard.stringTy, .cls Standard.list [.wild]]) Standard.collection =
      some (.cls Standard.collection [.wild]) ∧
    standard.isSubtype (.inter [Standard.stringTy, .cls Standard.list [.wild]])
      (.cls Standard.collection [.wild]) = true := by
  have hview : standard.asSuper (.inter [Standard.stringTy, .cls Standard.list [.wild]])
      Standard.collection = some (.cls Standard.collection [.wild]) := by decide +kernel
  have hparts : ∀ p ∈ [Standard.stringTy, .cls Standard.list [.wild]], p.isCompound = false := by
    decide
  exact ⟨hview, isSubtype_of_view hparts hview⟩

end Env

end DoubleColon
