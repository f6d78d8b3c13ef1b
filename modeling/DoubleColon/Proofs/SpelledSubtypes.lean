import DoubleColon.Proofs.SpelledViews

/-!
# Subtypes of types with names

The subtype test gives one answer for types that are alike. Where it looks a name up, it goes on
with the class as it would with a class from the outset; where it finds two types to be one, and
would not do so had only one of them been spelled by name, it finds their components to be related
further down. That takes more levels, so that the answers are those of a test which has some to
spare.
-/

set_option autoImplicit false

namespace DoubleColon

namespace Ty

theorem isOutward_isWildcard : IsOutward isWildcard := by
  constructor <;> intros <;> rfl

end Ty

namespace Env

inductive ArgRule (env : Env) (le : Ty → Ty → Bool) : Ty → Ty → Prop
  | recoveryArg {a b : Ty} (h : a.isRecovery) : ArgRule env le a b
  | recoveryFormal {a b : Ty} (h : b.isRecovery) : ArgRule env le a b
  | wild {a : Ty} : ArgRule env le a .wild
  | upper {a b : Ty} (h : le (env.argUpper a) b) : ArgRule env le a (.wildUpper b)
  | lowerBounds {a b : Ty} (h : le b a) : ArgRule env le (.wildLower a) (.wildLower b)
  | lower {a b : Ty} (ha : a.isWildcard = false) (h : le b a) : ArgRule env le a (.wildLower b)
  | same {a b : Ty} (hb : b.isWildcard = false) (h : env.canonical a = env.canonical b) :
      ArgRule env le a b

/-- What one test relates, another one relates in types that are alike. -/
def CarriesOver (env : Env) (shown : ClassId → Bool) (n : Nat) (le le' : Ty → Ty → Bool) : Prop :=
  ∀ s s' t t', env.Alike shown n s s' → env.Alike shown n t t' → le s t = true → le' s' t' = true

variable {env : Env} {shown : ClassId → Bool} {le le' : Ty → Ty → Bool} {n : Nat}
  {a a' b b' s s' t t' : Ty}

theorem argRule_iff : env.containsArg le a b = true ↔ env.ArgRule le a b := by
  constructor
  · intro h
    unfold containsArg at h
    rcases Bool.or_eq_true _ _ ▸ h with h | h
    · rcases Bool.or_eq_true _ _ ▸ h with h | h
      · exact .recoveryArg h
      · exact .recoveryFormal h
    · cases b with
      | wild => exact .wild
      | wildUpper b => exact .upper h
      | wildLower b =>
        cases a with
        | wildLower a => exact .lowerBounds h
        | wild | wildUpper => cases h
        | _ => exact .lower rfl h
      | _ => exact .same rfl (of_decide_eq_true h)
  · intro h
    unfold containsArg
    cases h with
    | recoveryArg h | recoveryFormal h => simp [h]
    | wild => simp
    | upper h | lowerBounds h => simp [h]
    | lower ha h => cases a <;> simp_all [Ty.isWildcard]
    | same hb h => cases b <;> simp_all [Ty.isWildcard]

/-! ## Type arguments that are alike -/

theorem AlikeArg.wildUpper (h : env.AlikeArg shown n (.wildUpper s) b) :
    ∃ t, b = .wildUpper t ∧ env.Alike shown n s t := by
  rcases spelledArg_eq_iff.mp h with heq | ⟨s, t, ⟨⟩, rfl, hst⟩ | ⟨s, t, ⟨⟩, rfl, hst⟩
  · exact ⟨s, eq_of_canonical heq.symm nofun, rfl⟩
  · exact ⟨t, rfl, hst⟩

theorem AlikeArg.wildLower (h : env.AlikeArg shown n (.wildLower s) b) :
    ∃ t, b = .wildLower t ∧ env.Alike shown n s t := by
  rcases spelledArg_eq_iff.mp h with heq | ⟨s, t, ⟨⟩, rfl, hst⟩ | ⟨s, t, ⟨⟩, rfl, hst⟩
  · exact ⟨s, eq_of_canonical heq.symm nofun, rfl⟩
  · exact ⟨t, rfl, hst⟩

theorem AlikeArg.wild (h : env.AlikeArg shown n .wild b) : b = .wild := by
  rcases spelledArg_eq_iff.mp h with heq | ⟨s, t, ⟨⟩, rfl, hst⟩ | ⟨s, t, ⟨⟩, rfl, hst⟩
  exact eq_of_canonical heq.symm nofun

theorem AlikeArg.canonical_eq (ha : a.isWildcard = false) (h : env.AlikeArg shown n a b) :
    b.isWildcard = false ∧ env.canonical a = env.canonical b := by
  rcases spelledArg_eq_iff.mp h with h | ⟨s, t, rfl, rfl, h⟩ | ⟨s, t, rfl, rfl, h⟩
  · have hb := Ty.isOutward_isWildcard.canonical env b
    rw [← h, Ty.isOutward_isWildcard.canonical env a] at hb
    exact ⟨hb.symm.trans ha, h⟩
  · cases ha
  · cases ha

theorem AlikeArg.isRecovery (h : env.AlikeArg shown n a b) : a.isRecovery = b.isRecovery := by
  rcases spelledArg_eq_iff.mp h with h | ⟨s, t, rfl, rfl, h⟩ | ⟨s, t, rfl, rfl, h⟩
  · rw [← Ty.isOutward_isRecovery.canonical env a, h, Ty.isOutward_isRecovery.canonical]
  · rfl
  · rfl

theorem argUpper_of_not_wildcard (ha : a.isWildcard = false) : env.argUpper a = a := by
  cases a <;> first | rfl | cases ha

theorem AlikeArg.argUpper (h : env.AlikeArg shown n a b) :
    env.Alike shown n (env.argUpper a) (env.argUpper b) := by
  cases ha : a.isWildcard with
  | false =>
    obtain ⟨hb, hab⟩ := h.canonical_eq ha
    rw [argUpper_of_not_wildcard ha, argUpper_of_not_wildcard hb]
    exact alike_of_canonical_eq hab
  | true =>
    cases a with
    | wild =>
      rw [h.wild]
      rfl
    | wildUpper s =>
      obtain ⟨t, rfl, hst⟩ := h.wildUpper
      exact hst
    | wildLower s =>
      obtain ⟨t, rfl, -⟩ := h.wildLower
      rfl
    | _ => cases ha

theorem ArgRule.alike (hle : env.CarriesOver shown n le le') (ha : env.AlikeArg shown n a a')
    (hb : env.AlikeArg shown n b b') (h : env.ArgRule le a b) : env.ArgRule le' a' b' := by
  cases h with
  | recoveryArg h => exact .recoveryArg (ha.isRecovery ▸ h)
  | recoveryFormal h => exact .recoveryFormal (hb.isRecovery ▸ h)
  | wild =>
    obtain rfl := hb.wild
    exact .wild
  | upper h =>
    obtain ⟨t, rfl, hst⟩ := hb.wildUpper
    exact .upper (hle _ _ _ _ ha.argUpper hst h)
  | lowerBounds h =>
    obtain ⟨t, rfl, hst⟩ := hb.wildLower
    obtain ⟨u, rfl, hau⟩ := ha.wildLower
    exact .lowerBounds (hle _ _ _ _ hst hau h)
  | lower hw h =>
    obtain ⟨t, rfl, hst⟩ := hb.wildLower
    obtain ⟨hw', haa⟩ := ha.canonical_eq hw
    exact .lower hw' (hle _ _ _ _ hst (alike_of_canonical_eq haa) h)
  | same hw h =>
    obtain ⟨hw', hbb⟩ := hb.canonical_eq hw
    have hwa : a.isWildcard = false := by
      rw [← Ty.isOutward_isWildcard.canonical env a, h, Ty.isOutward_isWildcard.canonical, hw]
    exact .same hw' ((ha.canonical_eq hwa).2.symm.trans (h.trans hbb))

theorem argRule_of_alike (hle : ∀ s t, env.Alike shown n s t → le s t = true)
    (h : env.AlikeArg shown n a b) : env.ArgRule le a b := by
  cases hb : b.isWildcard with
  | false => exact .same hb (AlikeArg.canonical_eq hb h.symm).2.symm
  | true =>
    cases b with
    | wild => exact .wild
    | wildUpper t =>
      obtain ⟨s, rfl, hst⟩ := AlikeArg.wildUpper h.symm
      exact .upper (hle s t hst.symm)
    | wildLower t =>
      obtain ⟨s, rfl, hst⟩ := AlikeArg.wildLower h.symm
      exact .lowerBounds (hle t s hst)
    | _ => cases hb

/-! ## Class types that are alike -/

theorem all_zip_of_map_eq {g : Ty → Ty} {f f' : Ty × Ty → Bool}
    (hf : ∀ a a' b b', g a = g a' → g b = g b' → f (a, b) = true → f' (a', b') = true)
    {as as' bs bs' : List Ty} (ha : as.map g = as'.map g) (hb : bs.map g = bs'.map g)
    (h : (as.zip bs).all f = true) : (as'.zip bs').all f' = true := by
  rw [← forall₂_map_eq] at ha hb
  induction ha generalizing bs bs' with
  | nil => rfl
  | cons haa _ ih =>
    cases hb with
    | nil => rfl
    | cons hbb hb =>
      simp only [List.zip_cons_cons, List.all_cons, Bool.and_eq_true] at h ⊢
      exact ⟨hf _ _ _ _ haa hbb h.1, ih hb h.2⟩

theorem map_args_of_spelledClass_eq {b c : ClassType}
    (h : env.spelledClass shown n b = env.spelledClass shown n c) :
    b.args.map (env.spelledArg (env.spelled shown n)) =
      c.args.map (env.spelledArg (env.spelled shown n)) := by
  have hid := id_eq_of_spelledClass_eq h
  cases hb : shown b.id with
  | false =>
    rw [spelledClass_of_not_shown hb, spelledClass_of_not_shown (hid ▸ hb)] at h
    rw [h]
  | true =>
    rw [spelledClass_of_shown hb, spelledClass_of_shown (hid ▸ hb)] at h
    exact congrArg ClassType.args h

theorem classStep_alike (h : env.HandsOn shown) (hle : env.CarriesOver shown n le le')
    {b b' c c' : ClassType}
    (hb : env.spelledClass shown n b = env.spelledClass shown n b')
    (hc : env.spelledClass shown n c = env.spelledClass shown n c')
    (hstep : env.classStep le b c = true) : env.classStep le' b' c' = true := by
  have hid := id_eq_of_spelledClass_eq hc
  have hview := view_spelled_alike h hb c.id
  unfold classStep at hstep ⊢
  rw [← hid]
  rcases Bool.or_eq_true _ _ ▸ hstep with hroot | hstep
  · rw [hroot, Bool.true_or]
  · cases hseen : env.view b c.id with
    | none => simp [hseen] at hstep
    | some seen =>
      rw [hseen] at hstep hview
      obtain ⟨seen', hseen', hsame⟩ := Option.map_eq_some_iff.mp hview.symm
      have hargs := map_args_of_spelledClass_eq hsame.symm
      have hformals := map_args_of_spelledClass_eq hc
      rw [hseen']
      simp only [Bool.or_eq_true, length_eq_of_map_eq hargs, length_eq_of_map_eq hformals,
        isEmpty_eq_of_map_eq hargs, isEmpty_eq_of_map_eq hformals] at hstep ⊢
      refine .inr (hstep.imp_right fun hall => all_zip_of_map_eq ?_ hargs hformals hall)
      exact fun _ _ _ _ ha hf hrule => argRule_iff.mpr ((argRule_iff.mp hrule).alike hle ha hf)

theorem view_self {c : ClassType} (hend : env.search c c.id ≠ .exhausted) :
    env.view c c.id = some c := by
  unfold view search at *
  cases hlim : env.searchLimit with
  | zero => simp [hlim, Hierarchy.search] at hend
  | succ k => simp [Hierarchy.search, Search.toOption]

theorem classStep_of_alike {b c : ClassType} (hend : env.search b b.id ≠ .exhausted)
    (hid : b.id = c.id) (hle : ∀ s t, env.Alike shown n s t → le s t = true)
    (hargs : b.args.map (env.spelledArg (env.spelled shown n)) =
      c.args.map (env.spelledArg (env.spelled shown n))) : env.classStep le b c = true := by
  unfold classStep
  rw [← hid, view_self hend]
  simp only [Bool.or_eq_true]
  refine .inr (.inr (List.all_eq_true.mpr ?_))
  rintro ⟨a, formal⟩ ha
  exact argRule_iff.mpr (argRule_of_alike hle (List.forall₂_zip (forall₂_map_eq.mpr hargs) ha))

/-! ## Elements of arrays -/

theorem elementStep_iff : elementStep le s t = true ↔
    (∃ p, s = .prim p ∧ t = .prim p) ∨
      s.isPrimitive = false ∧ t.isPrimitive = false ∧ le s t = true := by
  constructor
  · intro h
    cases s with
    | prim p =>
      cases t with
      | prim q => exact .inl ⟨p, rfl, congrArg Ty.prim (of_decide_eq_true h).symm⟩
      | _ => cases h
    | _ =>
      cases t with
      | prim q => cases h
      | _ => exact .inr ⟨rfl, rfl, h⟩
  · rintro (⟨p, rfl, rfl⟩ | ⟨hs, ht, h⟩)
    · exact decide_eq_true rfl
    · cases s with
      | prim p => cases hs
      | _ =>
        cases t with
        | prim q => cases ht
        | _ => exact h

theorem Alike.prim {p : Primitive} (h : env.Alike shown n (.prim p) t) : t = .prim p := by
  have hr : env.Respelled shown n (.prim p) (env.canonical t) := h.respelled
  generalize hu : env.canonical t = u at hr
  cases hr
  exact eq_of_canonical hu nofun

theorem elementStep_alike (hle : env.CarriesOver shown n le le') (hs : env.Alike shown n s s')
    (ht : env.Alike shown n t t') (h : elementStep le s t = true) :
    elementStep le' s' t' = true := by
  rw [elementStep_iff] at h ⊢
  rcases h with ⟨p, rfl, rfl⟩ | ⟨hsp, htp, h⟩
  · exact .inl ⟨p, hs.prim, ht.prim⟩
  · rw [hs.outward Ty.isOutward_isPrimitive] at hsp
    rw [ht.outward Ty.isOutward_isPrimitive] at htp
    exact .inr ⟨hsp, htp, hle s s' t t' hs ht h⟩

theorem elementStep_of_alike (hle : ∀ s t, env.Alike shown n s t → le s t = true)
    (h : env.Alike shown n s t) : elementStep le s t = true := by
  rw [elementStep_iff]
  cases hs : s.isPrimitive with
  | true =>
    cases s with
    | prim p => exact .inl ⟨p, rfl, h.prim⟩
    | _ => cases hs
  | false => exact .inr ⟨rfl, (h.outward Ty.isOutward_isPrimitive).symm.trans hs, hle s t h⟩

/-! ## One level of the test -/

theorem Respelled.isObject (h : env.Respelled shown n s t) : env.isObject s = env.isObject t := by
  cases h <;> rfl

theorem Respelled.inter_left {ps : List Ty} (h : env.Respelled shown n (.inter ps) t) :
    ∃ qs, t = .inter qs ∧ ps.map (env.spelled shown n) = qs.map (env.spelled shown n) := by
  cases h with
  | same => exact ⟨ps, rfl, rfl⟩
  | inter _ h => exact ⟨_, rfl, h⟩

theorem Respelled.array_left (h : env.Respelled shown n (.array s) t) :
    ∃ e, t = .array e ∧ env.Alike shown n s e := by
  cases h with
  | same => exact ⟨s, rfl, rfl⟩
  | array h => exact ⟨_, rfl, h⟩

theorem Respelled.cls_left {id : ClassId} {as : List Ty}
    (h : env.Respelled shown n (.cls id as) t) :
    ∃ bs, t = .cls id bs ∧
      env.spelledClass shown n ⟨id, as⟩ = env.spelledClass shown n ⟨id, bs⟩ := by
  cases h with
  | same => exact ⟨as, rfl, rfl⟩
  | @cls _ _ bs hid h =>
    refine ⟨bs, rfl, ?_⟩
    rw [spelledClass_of_shown (c := ⟨id, as⟩) hid, spelledClass_of_shown (c := ⟨id, bs⟩) hid, h]

/-- What a rule relates, it relates if both types are alike, and so does the level below. -/
theorem SubtypeRule.alike (h : env.HandsOn shown) (hle : env.CarriesOver shown n le le')
    (hs : env.Alike shown n s s') (ht : env.Alike shown n t t')
    (hrule : env.SubtypeRule le (env.canonical s) (env.canonical t)) :
    env.SubtypeRule le' (env.canonical s') (env.canonical t') := by
  have hsr := hs.respelled
  have htr := ht.respelled
  -- Rules are about canonical types, which are alike where the types are.
  rw [← alike_canonical] at hs ht
  generalize env.canonical s = s at *
  generalize env.canonical s' = s' at *
  generalize env.canonical t = t at *
  generalize env.canonical t' = t' at *
  cases hrule with
  | null href =>
    cases hsr
    exact .null (ht.outward Ty.isOutward_isReference ▸ href)
  | allParts hc hall =>
    obtain ⟨qs, rfl, hparts⟩ := htr.inter_left
    refine .allParts (hs.outward Ty.isOutward_isComparable ▸ hc) fun q hq => ?_
    obtain ⟨p, hp, hpq⟩ := exists_alike_of_map_eq hparts hq
    exact hle _ _ _ _ hs hpq (hall p hp)
  | somePart hc hi hp hpt =>
    obtain ⟨qs, rfl, hparts⟩ := hsr.inter_left
    obtain ⟨q, hq, hqp⟩ := exists_alike_of_map_eq hparts.symm hp
    exact .somePart (ht.outward Ty.isOutward_isComparable ▸ hc)
      (ht.outward Ty.isOutward_isInter ▸ hi) hq (hle _ _ _ _ hqp.symm ht hpt)
  | varRoot hroot =>
    cases hsr
    exact .varRoot (htr.isObject ▸ hroot)
  | upperBound hc hi hd hb hbt =>
    cases hsr
    exact .upperBound (ht.outward Ty.isOutward_isComparable ▸ hc)
      (ht.outward Ty.isOutward_isInter ▸ hi) hd hb (hle _ _ _ _ rfl ht hbt)
  | lowerBound hc hcomp hd hb hsb =>
    cases htr
    exact .lowerBound (hs.outward Ty.isOutward_isComparable ▸ hc)
      (hs.outward Ty.isOutward_isCompound ▸ hcomp) hd hb (hle _ _ _ _ hs rfl hsb)
  | elements hst =>
    obtain ⟨e, rfl, he⟩ := hsr.array_left
    obtain ⟨f, rfl, hf⟩ := htr.array_left
    exact .elements (elementStep_alike hle he hf hst)
  | arrayClass hid =>
    obtain ⟨e, rfl, -⟩ := hsr.array_left
    obtain ⟨bs, rfl, -⟩ := htr.cls_left
    exact .arrayClass hid
  | classes hstep =>
    obtain ⟨as, rfl, has⟩ := hsr.cls_left
    obtain ⟨bs, rfl, hbs⟩ := htr.cls_left
    exact .classes (classStep_alike h hle has hbs hstep)
  | wildUpper hc hcomp hbt =>
    cases hsr
    exact .wildUpper (ht.outward Ty.isOutward_isComparable ▸ hc)
      (ht.outward Ty.isOutward_isCompound ▸ hcomp) (hle _ _ _ _ rfl ht hbt)
  | wildRoot hroot =>
    cases hsr
    exact .wildRoot (htr.isObject ▸ hroot)
  | wildLowerRoot hroot =>
    cases hsr
    exact .wildLowerRoot (htr.isObject ▸ hroot)

/-! ## Levels -/

theorem isSubtypeWithin_congr {m : Nat} (hs : env.canonical s = env.canonical s')
    (ht : env.canonical t = env.canonical t') :
    env.isSubtypeWithin m s t = env.isSubtypeWithin m s' t' := by
  have hrec := Ty.isOutward_isRecovery.canonical env
  cases m with
  | zero => rfl
  | succ m =>
    rw [Bool.eq_iff_iff, isSubtypeWithin_succ, isSubtypeWithin_succ, hs, ht, ← hrec s, hs, hrec s',
      ← hrec t, ht, hrec t']

/-- A type has all supertypes of another one, intersections apart, if the test is given some levels
more. -/
def SharesSupertypes (env : Env) (j : Nat) (u s : Ty) : Prop :=
  ∀ m t, t.isComparable = true → t.isInter = false → env.isSubtypeWithin m s t = true →
    env.isSubtypeWithin (m + j) u t = true

variable {j m m' : Nat} {u : Ty}

theorem SharesSupertypes.part {parts : List Ty} (h : env.SharesSupertypes j u (.inter parts))
    (ht : t ∈ parts) : env.SharesSupertypes (j + 1) u t := by
  intro m v hc hi hle
  have hstep := h (m + 1) v hc hi
  rw [Nat.add_right_comm] at hstep
  refine hstep (isSubtypeWithin_of_rule (.somePart ?_ ?_ ht ?_))
  · rwa [Ty.isOutward_isComparable.canonical]
  · rwa [Ty.isOutward_isInter.canonical]
  · rwa [isSubtypeWithin_congr rfl (env.canonical_canonical v)]

theorem SharesSupertypes.within_of_alike
    (hbase : ∀ m, 2 * n + 1 ≤ m → env.isSubtypeWithin m s t = true)
    (hus : env.SharesSupertypes j u s) (ht : t.isSolid n = true) (hi : t.isInter = false)
    (hm : 2 * n + 1 + j ≤ m) : env.isSubtypeWithin m u t = true := by
  rw [Ty.isSolid_of_not_inter hi] at ht
  have hle := hus (m - j) t ht hi (hbase (m - j) (by omega))
  rwa [Nat.sub_add_cancel (by omega)] at hle

/-- What is alike to a part of an intersection, or to a part of a part, is a supertype of the
intersection. The induction is on the steps down to where names are replaced, since an intersection
among the supertypes is taken apart before the one among the subtypes. -/
theorem isSubtypeWithin_of_part
    (hbase : ∀ k ≤ n, ∀ s t m, env.Alike shown k s t → 2 * k + 1 ≤ m →
      env.isSubtypeWithin m s t = true)
    (hu : u.isComparable = true) (hus : env.SharesSupertypes j u s) (hst : env.Alike shown n s t)
    (ht : t.isSolid n = true) (hm : 2 * n + 1 + j ≤ m) : env.isSubtypeWithin m u t = true := by
  induction n generalizing s t j m with
  | zero =>
    have hi : t.isInter = false := by simp_all [Ty.isSolid]
    exact hus.within_of_alike (fun m => hbase 0 le_rfl s t m hst) ht hi hm
  | succ n ih =>
    cases hi : t.isInter with
    | false => exact hus.within_of_alike (fun m => hbase (n + 1) le_rfl s t m hst) ht hi hm
    | true =>
      cases t with
      | inter qs =>
        obtain ⟨ps, hps, hparts⟩ := (alike_succ.mp hst.symm).inter_left
        obtain rfl := eq_inter_of_canonical hps
        obtain ⟨m, rfl⟩ := Nat.exists_eq_add_one_of_ne_zero (by omega : m ≠ 0)
        refine isSubtypeWithin_of_rule (.allParts ?_ fun q hq => ?_)
        · rwa [Ty.isOutward_isComparable.canonical]
        · obtain ⟨p, hp, hpq⟩ := exists_alike_of_map_eq hparts.symm hq
          have hsolid : q.isSolid n = true := List.all_eq_true.mp ht q hq
          rw [isSubtypeWithin_congr (env.canonical_canonical u) rfl]
          exact ih (fun k hk => hbase k (by omega)) (hus.part hp) hpq hsolid (by omega)
      | _ => cases hi

/-- Types that are alike are related, given two levels for each step down to where names are
replaced. -/
theorem isSubtypeWithin_of_alike (h : env.HandsOn shown) (hst : env.Alike shown n s t)
    (hm : 2 * n + 1 ≤ m) : env.isSubtypeWithin m s t = true := by
  induction n using Nat.strong_induction_on generalizing s t m with
  | _ n ih =>
    obtain ⟨m, rfl⟩ := Nat.exists_eq_add_one_of_ne_zero (by omega : m ≠ 0)
    rw [isSubtypeWithin_succ]
    cases n with
    | zero => exact .inl (alike_zero.mp hst)
    | succ n =>
      have hle : ∀ s t, env.Alike shown n s t → env.isSubtypeWithin m s t = true :=
        fun s t h => ih n (by omega) h (by omega)
      have hcomponents := alike_succ.mp hst
      generalize env.canonical s = s at hcomponents ⊢
      generalize env.canonical t = t at hcomponents ⊢
      cases hcomponents with
      | same => exact .inl rfl
      | array h => exact .inr (.inr (.inr (.elements (elementStep_of_alike hle h))))
      | @inter ps qs hps h =>
        refine .inr (.inr (.inr (.allParts rfl fun q hq => ?_)))
        obtain ⟨p, hp, hpq⟩ := exists_alike_of_map_eq h hq
        have hsolid : q.isSolid n = true := hpq.isSolid ▸ List.all_eq_true.mp hps p hp
        have hself : env.SharesSupertypes 0 (.inter ps) (.inter ps) := fun _ _ _ _ h => h
        exact isSubtypeWithin_of_part (fun k hk s t m h => ih k (by omega) h) rfl (hself.part hp)
          hpq hsolid (by omega)
      | @cls id as bs hid hargs =>
        exact .inr (.inr (.inr (.classes
          (classStep_of_alike (h.ends ⟨id, as⟩ id hid) rfl hle hargs))))

/-- What is related stays so for types that are alike, given two levels more for each step down to
where names are replaced. -/
theorem isSubtypeWithin_alike (h : env.HandsOn shown) (hs : env.Alike shown n s s')
    (ht : env.Alike shown n t t') (hm : m + 2 * n ≤ m') (hle : env.isSubtypeWithin m s t = true) :
    env.isSubtypeWithin m' s' t' = true := by
  induction m generalizing s s' t t' m' with
  | zero => cases hle
  | succ m ih =>
    rcases isSubtypeWithin_succ.mp hle with heq | hrec | hrec | hrule
    · have hst : env.Alike shown n s' t' := hs.symm.trans ((alike_of_canonical_eq heq).trans ht)
      exact isSubtypeWithin_of_alike h hst (by omega)
    all_goals obtain ⟨m', rfl⟩ := Nat.exists_eq_add_one_of_ne_zero (by omega : m' ≠ 0)
    · have hrec' := hs.outward Ty.isOutward_isRecovery ▸ hrec
      exact isSubtypeWithin_succ.mpr (.inr (.inl hrec'))
    · have hrec' := ht.outward Ty.isOutward_isRecovery ▸ hrec
      exact isSubtypeWithin_succ.mpr (.inr (.inr (.inl hrec')))
    · refine isSubtypeWithin_of_rule (hrule.alike h (fun _ _ _ _ hs ht => ?_) hs ht)
      exact ih hs ht (by omega)

/-- The subtype test answers the same after classes have been put for names, a number of steps down,
if two levels more for each step would change neither answer. -/
theorem isSubtype_spelled (h : env.HandsOn shown) (n : Nat)
    (hst : env.isSubtypeWithin (subtypeLevels + 2 * n) s t = env.isSubtype s t)
    (hspelled : env.isSubtypeWithin (subtypeLevels + 2 * n) (env.spelled shown n s)
        (env.spelled shown n t) =
      env.isSubtype (env.spelled shown n s) (env.spelled shown n t)) :
    env.isSubtype s t = env.isSubtype (env.spelled shown n s) (env.spelled shown n t) := by
  have hs : env.Alike shown n s (env.spelled shown n s) := alike_spelled
  have ht : env.Alike shown n t (env.spelled shown n t) := alike_spelled
  rw [Bool.eq_iff_iff]
  constructor
  · intro hle
    rw [← hspelled]
    exact isSubtypeWithin_alike h hs ht le_rfl hle
  · intro hle
    rw [← hst]
    exact isSubtypeWithin_alike h hs.symm ht.symm le_rfl hle

/-- An array of `ArrayList<String>` is one of `List<? extends CharSequence>`, whether the type
arguments are spelled by name or not. -/
theorem isSubtype_spelled_arrays :
    standard.isSubtype (.array (.cls ⟨25⟩ [.named "java.lang.String"]))
        (.array (.cls Standard.list [.wildUpper (.named "java.lang.CharSequence")])) =
      standard.isSubtype
        (standard.spelled (fun _ => true) 2 (.array (.cls ⟨25⟩ [.named "java.lang.String"])))
        (standard.spelled (fun _ => true) 2
          (.array (.cls Standard.list [.wildUpper (.named "java.lang.CharSequence")]))) ∧
    standard.spelled (fun _ => true) 2 (.array (.cls ⟨25⟩ [.named "java.lang.String"])) =
      .array (.cls ⟨25⟩ [Standard.stringTy]) ∧
    standard.spelled (fun _ => true) 2
        (.array (.cls Standard.list [.wildUpper (.named "java.lang.CharSequence")])) =
      .array (.cls Standard.list [.wildUpper (.cls Standard.charSequence [])]) ∧
    standard.isSubtype (.array (.cls ⟨25⟩ [Standard.stringTy]))
      (.array (.cls Standard.list [.wildUpper (.cls Standard.charSequence [])])) = true := by
  exact ⟨isSubtype_spelled standard_handsOn 2 (by decide +kernel) (by decide +kernel),
    by decide +kernel, by decide +kernel, by decide +kernel⟩

/-! ## Names out of reach -/

mutual

def spellOut (env : Env) : Ty → Ty
  | .cls id args => .cls id (spellOutAll env args)
  | .array elem => .array (spellOut env elem)
  | .wildUpper b => .wildUpper (spellOut env b)
  | .wildLower b => .wildLower (spellOut env b)
  | .inter parts => .inter (spellOutAll env parts)
  | t => env.canonical t

def spellOutAll (env : Env) : List Ty → List Ty
  | [] => []
  | t :: rest => spellOut env t :: spellOutAll env rest

end

def NamesInterchange (env : Env) (s t : Ty) : Prop :=
  env.isSubtype s t = env.isSubtype (env.spellOut s) (env.spellOut t)

instance (env : Env) (s t : Ty) : Decidable (env.NamesInterchange s t) :=
  inferInstanceAs (Decidable (_ = _))

def withBox : Env :=
  ((standard.addTypeParam ⟨"T", [Standard.objectTy], none⟩).1.addClass
    { name := "Box", typeParams := [⟨13⟩], superclass := some Standard.objectTy
      interfaces := [.cls Standard.comparable [.cls ⟨26⟩ [.var ⟨13⟩]]] }).1

/-- A name is out of reach in a type argument of a type argument, whether it stands there or comes
there on the way to a supertype, in a wildcard that is no type argument, in an intersection with the
null type, and deeper than the test looks. -/
theorem names_out_of_reach :
    ¬ standard.NamesInterchange
      (.cls Standard.list [.cls Standard.list [.named "java.lang.String"]])
      (.cls Standard.list [.cls Standard.list [Standard.stringTy]]) ∧
    ¬ withBox.NamesInterchange (.cls ⟨26⟩ [.named "java.lang.String"])
      (.cls Standard.comparable [.cls ⟨26⟩ [Standard.stringTy]]) ∧
    ¬ standard.NamesInterchange (.wildUpper (.named "java.lang.String"))
      (.wildUpper Standard.stringTy) ∧
    ¬ standard.NamesInterchange (.inter [.null, .named "java.lang.String"])
      (.inter [.null, Standard.stringTy]) ∧
    ¬ standard.NamesInterchange (Nat.repeat Ty.array 33 (.named "java.lang.String"))
      (Nat.repeat Ty.array 33 Standard.stringTy) := by
  decide +kernel

end Env

end DoubleColon
