import DoubleColon.Proofs.Settling
import DoubleColon.Proofs.ViewsAreSupertypes

/-!
# The view of an intersection

The views of the parts of an intersection are settled two at a time, from the left: of two that
differ the one with fewer recovery types is kept, otherwise the one that is a subtype of the other,
and if neither is there is no view. What comes out may depend on the order. Of two views that are
subtypes of each other, such as a raw one and one with type arguments, the first is kept; and two
views that do not go together do no harm if another one has been met before the second.

The order does not matter exactly if no order settles the views, or if one of them outranks all
others and no two of them clash.
-/

set_option autoImplicit false

namespace DoubleColon

theorem exists_perm_filterMap {α β : Type} {f : α → Option β} {m : List β} {l : List α}
    (h : m.Perm (l.filterMap f)) : ∃ k : List α, k.Perm l ∧ k.filterMap f = m := by
  induction m generalizing l with
  | nil => exact ⟨l, .refl l, List.nil_perm.mp h⟩
  | cons b m ih =>
    obtain ⟨a, ha, hb⟩ := List.mem_filterMap.mp (h.subset List.mem_cons_self)
    obtain ⟨l₁, l₂, rfl⟩ := List.append_of_mem ha
    have hrest : m.Perm ((l₁ ++ l₂).filterMap f) := by
      refine List.Perm.cons_inv (a := b) (h.trans ?_)
      rw [List.filterMap_append, List.filterMap_cons_some hb, List.filterMap_append]
      exact List.perm_middle
    obtain ⟨k, hk, hkm⟩ := ih hrest
    refine ⟨a :: k, (hk.cons a).trans List.perm_middle.symm, ?_⟩
    rw [List.filterMap_cons_some hb, hkm]

namespace Env

/-- A view is better than another one: it has fewer recovery types, or as many, and is a subtype of
the other but not the other way round. -/
def Outranks (env : Env) (v w : Ty) : Prop :=
  v.placeholders < w.placeholders ∨
    v.placeholders = w.placeholders ∧ env.isSubtype v w = true ∧ env.isSubtype w v = false

/-- Two views disagree: they have as many recovery types and neither is a subtype of the other. -/
def Clash (env : Env) (v w : Ty) : Prop :=
  v.placeholders = w.placeholders ∧ env.isSubtype v w = false ∧ env.isSubtype w v = false

/-- Some of the views can be put in a row, each outranked by the next, such that each of the other
views neither outranks one in the row nor clashes with it. -/
def SettledInSomeOrder (env : Env) (views : List Ty) : Prop :=
  ∃ v vs rest, (v :: vs ++ rest).Perm views ∧
    (v :: vs).IsChain (fun a b => env.Outranks b a) ∧
    ∀ w ∈ rest, ∃ a ∈ v :: vs, ¬ env.Outranks w a ∧ ¬ env.Clash a w

def viewsAs (env : Env) (target : ClassId) (parts : List ClassType) : List Ty :=
  parts.filterMap fun c => (env.view c target).map ClassType.toTy

variable {env : Env} {v w : Ty} {target : ClassId} {parts : List ClassType}

theorem Outranks.not_outranks (h : env.Outranks v w) : ¬ env.Outranks w v := by
  unfold Outranks at *
  grind

theorem not_outranks_self : ¬ env.Outranks v v := fun h => h.not_outranks h

theorem mergeViews_eq_none : env.mergeViews v w = none ↔ env.Clash v w := by
  have hrefl := env.isSubtype_refl v
  unfold mergeViews narrower Clash
  grind

theorem mergeViews_eq_left :
    env.mergeViews v w = some v ↔ ¬ env.Outranks w v ∧ ¬ env.Clash v w := by
  have hrefl := env.isSubtype_refl v
  unfold mergeViews narrower Outranks Clash
  grind

theorem mergeViews_eq_right : env.mergeViews v w = some w ↔ v = w ∨ env.Outranks w v := by
  unfold mergeViews narrower Outranks
  grind

theorem selective_mergeViews (env : Env) : Selective env.mergeViews where
  same v := by simp [mergeViews]
  either := mergeViews_cases

/-- A view prevails if it outranks all others and no two clash. -/
theorem prevails_mergeViews {views : List Ty} : Prevails env.mergeViews views v ↔
    v ∈ views ∧ (∀ w ∈ views, w = v ∨ env.Outranks v w) ∧
      ∀ w ∈ views, ∀ u ∈ views, ¬ env.Clash w u := by
  constructor
  · intro h
    refine ⟨h.mem, fun w hw => mergeViews_eq_right.mp (h.after w hw), fun w hw u hu hclash => ?_⟩
    have hsome := h.together w hw u hu
    rw [mergeViews_eq_none.mpr hclash] at hsome
    cases hsome
  · rintro ⟨hv, hbest, hclash⟩
    refine ⟨hv, fun w hw => ?_, fun w hw => mergeViews_eq_right.mpr (hbest w hw),
      fun w hw u hu => Option.isSome_iff_ne_none.mpr (mt mergeViews_eq_none.mp (hclash w hw u hu))⟩
    refine mergeViews_eq_left.mpr ⟨fun hw' => ?_, hclash v hv w hw⟩
    rcases hbest w hw with rfl | hv'
    · exact not_outranks_self hw'
    · exact hv'.not_outranks hw'

theorem someOrderSettles_mergeViews {views : List Ty} :
    SomeOrderSettles env.mergeViews views ↔ env.SettledInSomeOrder views := by
  have hrow : (fun a b => a ≠ b ∧ env.mergeViews a b = some b) = fun a b => env.Outranks b a := by
    funext a b
    rw [mergeViews_eq_right]
    refine propext ⟨fun h => h.2.resolve_left h.1, fun h => ⟨?_, .inr h⟩⟩
    rintro rfl
    exact not_outranks_self h
  simp only [SomeOrderSettles, SettledInSomeOrder, hrow, mergeViews_eq_left]

theorem asSuper_inter (env : Env) (target : ClassId) (parts : List ClassType) :
    env.asSuper (.inter (parts.map ClassType.toTy)) target =
      settle env.mergeViews (env.viewsAs target parts) := by
  have hleaf : (parts.map ClassType.toTy).map (throughParts env.mergeViews (env.viewLeaf target)
      (env.throughBounds env.mergeViews (env.viewLeaf target) env.typeParams.length [])) =
        parts.map fun c => (env.view c target).map ClassType.toTy := by
    rw [List.map_map]
    rfl
  rw [asSuper, overParts, throughParts, throughAll_eq_map, hleaf, combine_eq_settle,
    List.filterMap_map]
  rfl

/-- The view of an intersection of class types is the same for all orders of its parts exactly if no
order settles the views of the parts, or if one of the views outranks all others and no two
clash. -/
theorem inter_view_order_irrelevant_iff (env : Env) (target : ClassId) (parts : List ClassType) :
    (∀ qs : List ClassType, qs.Perm parts → env.asSuper (.inter (qs.map ClassType.toTy)) target =
        env.asSuper (.inter (parts.map ClassType.toTy)) target) ↔
      (env.SettledInSomeOrder (env.viewsAs target parts) →
        ∃ v ∈ env.viewsAs target parts,
          (∀ w ∈ env.viewsAs target parts, w = v ∨ env.Outranks v w) ∧
            ∀ w ∈ env.viewsAs target parts, ∀ u ∈ env.viewsAs target parts, ¬ env.Clash w u) := by
  have hviews := (selective_mergeViews env).order_irrelevant_iff (l := env.viewsAs target parts)
  simp only [someOrderSettles_mergeViews, prevails_mergeViews] at hviews
  rw [← hviews]
  simp only [asSuper_inter]
  constructor
  · intro h m hm
    obtain ⟨qs, hqs, rfl⟩ := exists_perm_filterMap hm
    exact h qs hqs
  · exact fun h qs hqs => h _ (hqs.filterMap _)

/-- A raw list that is a list of strings as well is viewed as the one of the two that is said first.
A function from strings to strings, from what is unknown to strings and from what is unknown to
integers is viewed as the first of them, unless it is said last. -/
theorem view_by_position :
    standard.asSuper (.inter [.cls Standard.list [], .cls Standard.list [Standard.stringTy]])
      Standard.list = some (.cls Standard.list []) ∧
    standard.asSuper (.inter [.cls Standard.list [Standard.stringTy], .cls Standard.list []])
      Standard.list = some (.cls Standard.list [Standard.stringTy]) ∧
    standard.asSuper (.inter [.cls Standard.function [.unknown, Standard.stringTy],
        .cls Standard.function [Standard.stringTy, Standard.stringTy],
        .cls Standard.function [.unknown, Standard.integerTy]]) Standard.function =
      some (.cls Standard.function [Standard.stringTy, Standard.stringTy]) ∧
    standard.asSuper (.inter [.cls Standard.function [.unknown, Standard.stringTy],
        .cls Standard.function [.unknown, Standard.integerTy],
        .cls Standard.function [Standard.stringTy, Standard.stringTy]]) Standard.function =
      none := by
  decide +kernel

end Env

end DoubleColon
