import DoubleColon.Proofs.ViewsAreSupertypes

/-!
# The rules of the subtype test

One level of the subtype test relates two types by one of a few rules, each of which names what it
asks the levels below. All that is said of the test is said rule by rule.
-/

set_option autoImplicit false

namespace DoubleColon

/-- The types that are compared by their parts, bounds and classes. The other ones are related to
themselves and to recovery types only, but for the null type, which is below every reference
type. -/
def Ty.isComparable : Ty → Bool
  | .void | .prim _ | .null => false
  | _ => true

def Ty.isInter : Ty → Bool
  | .inter _ => true
  | _ => false

namespace Ty

variable {t : Ty}

theorem isComparable_of_ne (hv : t ≠ .void) (hp : ∀ p, t ≠ .prim p) (hn : t ≠ .null) :
    t.isComparable = true := by
  cases t <;> simp_all [isComparable]

theorem isInter_of_ne (h : ∀ parts, t ≠ .inter parts) : t.isInter = false := by
  cases t <;> simp_all [isInter]

theorem isCompound_of_ne (hi : ∀ parts, t ≠ .inter parts) (hv : ∀ v, t ≠ .var v) :
    t.isCompound = false := by
  cases t <;> simp_all [isCompound]

end Ty

namespace Env

inductive SubtypeRule (env : Env) (le : Ty → Ty → Bool) : Ty → Ty → Prop
  | null {t : Ty} (ht : t.isReference) : SubtypeRule env le .null t
  | allParts {s : Ty} {parts : List Ty} (hs : s.isComparable) (h : ∀ p ∈ parts, le s p) :
      SubtypeRule env le s (.inter parts)
  | somePart {parts : List Ty} {p t : Ty} (ht : t.isComparable) (hi : t.isInter = false)
      (hp : p ∈ parts) (h : le p t) : SubtypeRule env le (.inter parts) t
  | varRoot {v : TypeVar} {t : Ty} (ht : env.isObject t) : SubtypeRule env le (.var v) t
  | upperBound {v : TypeVar} {d : TypeParam} {b t : Ty} (ht : t.isComparable)
      (hi : t.isInter = false) (hd : env.typeParam? v = some d) (hb : b ∈ d.upperBounds)
      (h : le b t) : SubtypeRule env le (.var v) t
  | lowerBound {s : Ty} {v : TypeVar} {d : TypeParam} {b : Ty} (hs : s.isComparable)
      (hc : s.isCompound = false) (hd : env.typeParam? v = some d) (hb : d.lowerBound = some b)
      (h : le s b) : SubtypeRule env le s (.var v)
  | elements {s t : Ty} (h : elementStep le s t) : SubtypeRule env le (.array s) (.array t)
  | arrayClass {s : Ty} {id : ClassId} {args : List Ty} (h : env.isArraySupertype id) :
      SubtypeRule env le (.array s) (.cls id args)
  | classes {c d : ClassId} {as bs : List Ty} (h : env.classStep le ⟨c, as⟩ ⟨d, bs⟩) :
      SubtypeRule env le (.cls c as) (.cls d bs)
  | wildUpper {b t : Ty} (ht : t.isComparable) (hc : t.isCompound = false) (h : le b t) :
      SubtypeRule env le (.wildUpper b) t
  | wildRoot {t : Ty} (ht : env.isObject t) : SubtypeRule env le .wild t
  | wildLowerRoot {b t : Ty} (ht : env.isObject t) : SubtypeRule env le (.wildLower b) t

variable {env : Env} {le : Ty → Ty → Bool} {s t : Ty}

theorem exists_of_isObject (h : env.isObject t = true) :
    ∃ args, t = .cls env.wellKnown.object args := by
  cases t <;> simp_all [isObject]

theorem SubtypeRule.step (h : env.SubtypeRule le s t) : env.subtypeStep le s t = true := by
  cases h with
  | null ht => cases t <;> simp_all [subtypeStep, Ty.isReference]
  | allParts hs h => cases s <;> simp_all [subtypeStep, Ty.isComparable]
  | somePart ht hi hp h =>
    cases t <;> simp_all [subtypeStep, Ty.isComparable, Ty.isInter] <;> exact ⟨_, hp, h⟩
  | upperBound ht hi hd hb h =>
    cases t <;> simp_all [subtypeStep, Ty.isComparable, Ty.isInter] <;> exact .inr ⟨_, hb, h⟩
  | lowerBound hs hc hd hb h =>
    cases s <;> simp_all [subtypeStep, Ty.isComparable, Ty.isCompound]
  | elements h | arrayClass h | classes h => simpa [subtypeStep] using h
  | wildUpper ht hc h => cases t <;> simp_all [subtypeStep, Ty.isComparable, Ty.isCompound]
  | varRoot ht | wildRoot ht | wildLowerRoot ht =>
    obtain ⟨args, rfl⟩ := exists_of_isObject ht
    simp [subtypeStep, ht]

theorem subtypeRule_of_step (h : env.subtypeStep le s t = true) : env.SubtypeRule le s t := by
  unfold subtypeStep at h
  split at h
  case h_5 => exact .null h
  case h_7 hv hp hn => exact .allParts (Ty.isComparable_of_ne hv hp hn) (by simpa using h)
  case h_8 hv hp hn hi =>
    obtain ⟨p, hmem, hle⟩ := List.any_eq_true.mp h
    exact .somePart (Ty.isComparable_of_ne hv hp hn) (Ty.isInter_of_ne hi) hmem hle
  case h_9 v hv hp hn hi =>
    rcases Bool.or_eq_true _ _ ▸ h with hroot | h
    · exact .varRoot hroot
    · cases hd : env.typeParam? v with
      | none => simp [hd] at h
      | some d =>
        rw [hd] at h
        obtain ⟨b, hb, hle⟩ := List.any_eq_true.mp h
        exact .upperBound (Ty.isComparable_of_ne hv hp hn) (Ty.isInter_of_ne hi) hd hb hle
  case h_10 v hv hp hn hi hvar =>
    cases hd : env.typeParam? v with
    | none => simp [hd] at h
    | some d =>
      simp only [hd, Option.any_eq_true] at h
      obtain ⟨b, hb, hle⟩ := h
      exact .lowerBound (Ty.isComparable_of_ne hv hp hn) (Ty.isCompound_of_ne hi hvar) hd hb hle
  case h_11 => exact .elements h
  case h_12 => exact .arrayClass h
  case h_13 => exact .classes h
  case h_14 hv hp hn hi hvar =>
    exact .wildUpper (Ty.isComparable_of_ne hv hp hn) (Ty.isCompound_of_ne hi hvar) h
  case h_15 => exact .wildRoot h
  case h_16 => exact .wildLowerRoot h
  all_goals cases h

theorem subtypeStep_iff : env.subtypeStep le s t = true ↔ env.SubtypeRule le s t :=
  ⟨subtypeRule_of_step, SubtypeRule.step⟩

/-- Two types are related if they are one canonical type, one of them is a recovery type, or a rule
relates them. -/
theorem isSubtypeWithin_succ {n : Nat} : env.isSubtypeWithin (n + 1) s t = true ↔
    env.canonical s = env.canonical t ∨ s.isRecovery = true ∨ t.isRecovery = true ∨
      env.SubtypeRule (env.isSubtypeWithin n) (env.canonical s) (env.canonical t) := by
  rw [← subtypeStep_iff]
  simp only [isSubtypeWithin, Bool.or_eq_true, decide_eq_true_eq]
  constructor
  · rintro ((((rfl | hs) | ht) | h) | h)
    · exact .inl rfl
    · exact .inr (.inl hs)
    · exact .inr (.inr (.inl ht))
    · exact .inl h
    · exact .inr (.inr (.inr h))
  · rintro (h | hs | ht | h)
    · exact .inl (.inr h)
    · exact .inl (.inl (.inl (.inr hs)))
    · exact .inl (.inl (.inr ht))
    · exact .inr h

theorem isSubtypeWithin_of_rule {n : Nat}
    (h : env.SubtypeRule (env.isSubtypeWithin n) (env.canonical s) (env.canonical t)) :
    env.isSubtypeWithin (n + 1) s t = true :=
  isSubtypeWithin_succ.mpr (.inr (.inr (.inr h)))

/-! ## Intersections -/

theorem eq_inter_of_canonical {parts : List Ty} (h : env.canonical t = .inter parts) :
    t = .inter parts := by
  cases t with
  | named n =>
    unfold canonical at h
    dsimp only at h
    split at h <;> cases h
  | _ => exact h

theorem subtypeRule_inter_right {parts : List Ty} : env.SubtypeRule le s (.inter parts) ↔
    s = .null ∨ s.isComparable = true ∧ ∀ p ∈ parts, le s p = true := by
  constructor
  · intro h
    cases h with
    | null => exact .inl rfl
    | allParts hs h => exact .inr ⟨hs, h⟩
    | somePart _ hi | upperBound _ hi => cases hi
    | wildUpper _ hc => cases hc
    | varRoot ht | wildRoot ht | wildLowerRoot ht => cases ht
  · rintro (rfl | ⟨hs, h⟩)
    · exact .null rfl
    · exact .allParts hs h

theorem subtypeRule_inter_left {parts : List Ty} : env.SubtypeRule le (.inter parts) t ↔
    (∃ qs, t = .inter qs ∧ ∀ q ∈ qs, le (.inter parts) q = true) ∨
      t.isComparable = true ∧ t.isInter = false ∧ ∃ p ∈ parts, le p t = true := by
  constructor
  · intro h
    cases h with
    | allParts hs h => exact .inl ⟨_, rfl, h⟩
    | somePart ht hi hp h => exact .inr ⟨ht, hi, _, hp, h⟩
    | lowerBound _ hc => cases hc
  · rintro (⟨qs, rfl, h⟩ | ⟨ht, hi, p, hp, h⟩)
    · exact .allParts rfl h
    · exact .somePart ht hi hp h

end Env

end DoubleColon
