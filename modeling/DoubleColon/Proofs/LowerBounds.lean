import DoubleColon.Env.Standard
import DoubleColon.Proofs.ClassGraph
import DoubleColon.Proofs.Spelling

/-!
# Lower bounds

What is below the lower bound of a type variable should be below the type variable. The subtype test
opens an intersection and a type variable on the left first: it goes on with a part or an upper
bound, and comes to the lower bound only with what is neither. So it finds a class type or an array
below a type variable exactly if it is below the lower bound, but it misses intersections and type
variables that are below the lower bound for another reason than one of their parts or bounds is.
-/

set_option autoImplicit false

namespace DoubleColon

namespace Hierarchy

theorem reachedIn_succ_iff {κ : Type} {edge : κ → κ → Prop} {j l : κ} {n : Nat} :
    ReachedIn edge j (n + 1) l ↔ ∃ k, edge j k ∧ ReachedIn edge k n l := by
  constructor
  · intro h
    induction n generalizing l with
    | zero =>
      cases h with
      | step hk hl =>
        cases hk
        exact ⟨l, hl, .start⟩
    | succ n ih =>
      cases h with
      | step hk hl =>
        obtain ⟨i, hi, hrest⟩ := ih hk
        exact ⟨i, hi, .step hrest hl⟩
  · rintro ⟨k, hk, hl⟩
    rw [Nat.add_comm]
    exact (ReachedIn.step .start hk).trans hl

end Hierarchy

namespace Env

open Hierarchy

inductive OpensTo (env : Env) : Ty → Ty → Prop
  | part {parts : List Ty} {p : Ty} (hp : p ∈ parts) : OpensTo env (.inter parts) p
  | bound {v : TypeVar} {d : TypeParam} {b : Ty} (hd : env.typeParam? v = some d)
      (hb : b ∈ d.upperBounds) : OpensTo env (.var v) b

/-- A type is found below a type variable without being opened: it is the type variable, or a type
that is below all of them, or it is below the lower bound as the levels below see it. -/
inductive BelowUnopened (env : Env) (u : TypeVar) (lower : Ty) (n : Nat) : Ty → Prop
  | self : BelowUnopened env u lower n (.var u)
  | null : BelowUnopened env u lower n .null
  | recovery {s : Ty} (hs : s.isRecovery) : BelowUnopened env u lower n s
  | lower {s : Ty} (hc : s.isCompound = false) (hs : s.isComparable)
      (h : env.isSubtypeWithin n s lower) : BelowUnopened env u lower n s

variable {env : Env} {u : TypeVar} {d : TypeParam} {lower s t : Ty} {n : Nat}

theorem isSubtypeWithin_canonical_left :
    env.isSubtypeWithin n (env.canonical s) t = env.isSubtypeWithin n s t := by
  cases n with
  | zero => rfl
  | succ n =>
    rw [Bool.eq_iff_iff, isSubtypeWithin_succ, isSubtypeWithin_succ, canonical_canonical,
      Ty.isOutward_isRecovery.canonical]

theorem isSubtypeWithin_canonical_right :
    env.isSubtypeWithin n s (env.canonical t) = env.isSubtypeWithin n s t := by
  cases n with
  | zero => rfl
  | succ n =>
    rw [Bool.eq_iff_iff, isSubtypeWithin_succ, isSubtypeWithin_succ, canonical_canonical,
      Ty.isOutward_isRecovery.canonical]

theorem opensTo_canonical {p : Ty} : env.OpensTo (env.canonical s) p ↔ env.OpensTo s p := by
  constructor
  · generalize hs : env.canonical s = s'
    rintro (hp | ⟨hd, hb⟩)
    · obtain rfl := eq_of_canonical hs nofun
      exact .part hp
    · obtain rfl := eq_of_canonical hs nofun
      exact .bound hd hb
  · rintro (hp | ⟨hd, hb⟩)
    · exact .part hp
    · exact .bound hd hb

/-- The rules that relate a type to a type variable with a lower bound: null, the opening rules, and
for what is not opened the rule of the lower bound. -/
theorem subtypeRule_var_right {le : Ty → Ty → Bool} (hd : env.typeParam? u = some d)
    (hl : d.lowerBound = some lower) : env.SubtypeRule le s (.var u) ↔
      s = .null ∨ (∃ p, env.OpensTo s p ∧ le p (.var u) = true) ∨
        s.isCompound = false ∧ s.isComparable = true ∧ le s lower = true := by
  constructor
  · intro h
    cases h with
    | null => exact .inl rfl
    | somePart _ _ hp hle => exact .inr (.inl ⟨_, .part hp, hle⟩)
    | upperBound _ _ hd' hb hle => exact .inr (.inl ⟨_, .bound hd' hb, hle⟩)
    | lowerBound hs hc hd' hb hle =>
      cases hd.symm.trans hd'
      cases hl.symm.trans hb
      exact .inr (.inr ⟨hc, hs, hle⟩)
    | varRoot hroot | wildRoot hroot | wildLowerRoot hroot => cases hroot
    | wildUpper _ hc => cases hc
  · rintro (rfl | ⟨p, hopen, hle⟩ | ⟨hc, hs, hle⟩)
    · exact .null rfl
    · cases hopen with
      | part hp => exact .somePart rfl rfl hp hle
      | bound hd' hb => exact .upperBound rfl rfl hd' hb hle
    · exact .lowerBound hs hc hd hl hle

theorem isSubtypeWithin_var_succ (hd : env.typeParam? u = some d)
    (hl : d.lowerBound = some lower) : env.isSubtypeWithin (n + 1) s (.var u) = true ↔
      env.BelowUnopened u lower n s ∨
        ∃ p, env.OpensTo s p ∧ env.isSubtypeWithin n p (.var u) = true := by
  have hvar : env.canonical (.var u) = .var u := rfl
  rw [isSubtypeWithin_succ, hvar, subtypeRule_var_right hd hl, isSubtypeWithin_canonical_left,
    Ty.isOutward_isCompound.canonical, Ty.isOutward_isComparable.canonical]
  simp only [opensTo_canonical]
  constructor
  · rintro (heq | hs | hu | hnull | hopen | ⟨hc, hs, hle⟩)
    · obtain rfl := eq_of_canonical heq nofun
      exact .inl .self
    · exact .inl (.recovery hs)
    · cases hu
    · obtain rfl := eq_of_canonical hnull nofun
      exact .inl .null
    · exact .inr hopen
    · exact .inl (.lower hc hs hle)
  · rintro (hbelow | hopen)
    · cases hbelow with
      | self => exact .inl rfl
      | null => exact .inr (.inr (.inr (.inl rfl)))
      | recovery hs => exact .inr (.inl hs)
      | lower hc hs hle => exact .inr (.inr (.inr (.inr (.inr ⟨hc, hs, hle⟩))))
    · exact .inr (.inr (.inr (.inr (.inl hopen))))

/-- The test opens a type as often as it has levels for, and finds it below the type variable if
something that it comes to is found there without being opened. -/
theorem isSubtypeWithin_var_iff (hd : env.typeParam? u = some d)
    (hl : d.lowerBound = some lower) : env.isSubtypeWithin n s (.var u) = true ↔
      ∃ k m, k + m + 1 = n ∧ ∃ b, ReachedIn env.OpensTo s k b ∧ env.BelowUnopened u lower m b := by
  induction n generalizing s with
  | zero => simp [isSubtypeWithin]
  | succ n ih =>
    rw [isSubtypeWithin_var_succ hd hl]
    constructor
    · rintro (hbelow | ⟨p, hopen, hle⟩)
      · exact ⟨0, n, by omega, s, .start, hbelow⟩
      · obtain ⟨k, m, hkm, b, hb, hbelow⟩ := ih.mp hle
        exact ⟨k + 1, m, by omega, b, reachedIn_succ_iff.mpr ⟨p, hopen, hb⟩, hbelow⟩
    · rintro ⟨k, m, hkm, b, hb, hbelow⟩
      cases k with
      | zero =>
        cases hb
        obtain rfl : m = n := by omega
        exact .inl hbelow
      | succ k =>
        obtain ⟨p, hopen, hb⟩ := reachedIn_succ_iff.mp hb
        exact .inr ⟨p, hopen, ih.mpr ⟨k, m, by omega, b, hb, hbelow⟩⟩

/-! ## Plain bounds -/

/-- A type that an intersection or a type variable is below by one of its parts or bounds, or not at
all: neither of these itself, and neither the root class nor a type that is related to all or
none. -/
structure IsPlain (env : Env) (t : Ty) : Prop where
  unopened : t.isCompound = false
  comparable : t.isComparable = true
  known : t.isRecovery = false
  notRoot : env.isObject (env.canonical t) = false

theorem SubtypeRule.opened {le : Ty → Ty → Bool} (h : env.SubtypeRule le s t)
    (hs : s.isCompound = true) (ht : t.isCompound = false) (hroot : env.isObject t = false) :
    ∃ p, env.OpensTo s p ∧ le p t = true := by
  cases h with
  | somePart _ _ hp hle => exact ⟨_, .part hp, hle⟩
  | upperBound _ _ hd hb hle => exact ⟨_, .bound hd hb, hle⟩
  | varRoot hobject => exact absurd (hroot.symm.trans hobject) Bool.false_ne_true
  | allParts => cases ht
  | lowerBound _ hc => exact absurd (hc.symm.trans hs) Bool.false_ne_true
  | _ => cases hs

theorem SubtypeRule.comparable_or_null {le : Ty → Ty → Bool} (h : env.SubtypeRule le s t) :
    s.isComparable = true ∨ s = .null := by
  cases h with
  | null => exact .inr rfl
  | allParts hs | lowerBound hs => exact .inl hs
  | _ => exact .inl rfl

theorem isSubtypeWithin_var_of_plain (hd : env.typeParam? u = some d)
    (hl : d.lowerBound = some lower) (hp : env.IsPlain lower)
    (h : env.isSubtypeWithin n s lower = true) :
    env.isSubtypeWithin (n + 1) s (.var u) = true := by
  have hcompound := Ty.isOutward_isCompound.canonical env
  have hcomparable := Ty.isOutward_isComparable.canonical env
  induction n generalizing s with
  | zero => cases h
  | succ n ih =>
    rw [isSubtypeWithin_var_succ hd hl]
    rcases isSubtypeWithin_succ.mp h with heq | hs | hr | hrule
    · refine .inl (.lower ?_ ?_ h)
      · rw [← hcompound, heq, hcompound, hp.unopened]
      · rw [← hcomparable, heq, hcomparable, hp.comparable]
    · exact .inl (.recovery hs)
    · exact absurd (hp.known.symm.trans hr) Bool.false_ne_true
    · cases hc : s.isCompound with
      | false =>
        rcases hrule.comparable_or_null with hs | hs
        · exact .inl (.lower hc ((hcomparable s).symm.trans hs) h)
        · obtain rfl := eq_of_canonical hs nofun
          exact .inl .null
      | true =>
        obtain ⟨p, hopen, hle⟩ := hrule.opened ((hcompound s).trans hc)
          ((hcompound lower).trans hp.unopened) hp.notRoot
        rw [isSubtypeWithin_canonical_right] at hle
        exact .inr ⟨p, opensTo_canonical.mp hopen, ih hle⟩

/-- What is neither an intersection nor a type variable, such as a class type or an array, is below
a type variable exactly if it is below the lower bound. Below a plain lower bound intersections and
type variables are below the type variable as well. In general these are so exactly if they come
down, in as many steps as there are levels, to something that is found there without being
opened. -/
theorem below_lower_bound (hd : env.typeParam? u = some d) (hl : d.lowerBound = some lower) :
    (∀ s : Ty, s.isCompound = false → s.isComparable = true →
      env.isSubtype s (.var u) = env.isSubtypeWithin 32 s lower) ∧
    (env.IsPlain lower → ∀ s, env.isSubtypeWithin 32 s lower = true →
      env.isSubtype s (.var u) = true) ∧
    ∀ s, env.isSubtype s (.var u) = true ↔ ∃ k m, k + m = 32 ∧ ∃ b,
      ReachedIn env.OpensTo s k b ∧ env.BelowUnopened u lower m b := by
  refine ⟨fun s hc hs => ?_, fun hp s => isSubtypeWithin_var_of_plain hd hl hp, fun s => ?_⟩
  · rw [Bool.eq_iff_iff]
    refine (isSubtypeWithin_var_succ hd hl).trans ⟨?_, fun h => .inl (.lower hc hs h)⟩
    rintro (hbelow | ⟨p, hopen, -⟩)
    · cases hbelow with
      | self => cases hc
      | null => cases hs
      | recovery hr => exact isSubtypeWithin_succ.mpr (.inr (.inl hr))
      | lower _ _ h => exact h
    · cases hopen <;> cases hc
  · have hlevels : ∀ k m, k + m + 1 = 33 ↔ k + m = 32 := fun k m => by omega
    rw [isSubtype, subtypeLevels, isSubtypeWithin_var_iff hd hl]
    simp only [hlevels]

def MissesBound (env : Env) (s : Ty) (u : TypeVar) : Prop :=
  ∃ d lower, env.typeParam? u = some d ∧ d.lowerBound = some lower ∧
    env.isSubtypeWithin 32 s lower = true ∧ env.isSubtype s (.var u) = false

end Env

namespace Captures

open Standard Env

def both : Ty := .inter [.cls cloneable [], .cls serializable []]

def env : Env :=
  { standard with
    typeParams := standard.typeParams ++ [
      ⟨"T", [objectTy], none⟩,
      ⟨"U", [], none⟩,
      ⟨"CaptureOfT", [objectTy], some (.var ⟨13⟩)⟩,
      ⟨"CaptureOfBoth", [objectTy], some both⟩,
      ⟨"CaptureOfObject", [objectTy], some objectTy⟩,
      ⟨"CaptureOfNumber", [objectTy], some (.cls number [])⟩] }

/-- An integer is below the capture of a number, and so is what is both an integer and cloneable. -/
theorem below_lower_bound_number :
    env.isSubtype integerTy (.var ⟨18⟩) = env.isSubtypeWithin 32 integerTy (.cls number []) ∧
    env.isSubtype (.inter [.cls cloneable [], integerTy]) (.var ⟨18⟩) = true ∧
    (env.isSubtype (.inter [.cls cloneable [], integerTy]) (.var ⟨18⟩) = true ↔
      ∃ k m, k + m = 32 ∧ ∃ b,
        Hierarchy.ReachedIn env.OpensTo (.inter [.cls cloneable [], integerTy]) k b ∧
          env.BelowUnopened ⟨18⟩ (.cls number []) m b) := by
  have hall := @below_lower_bound env ⟨18⟩ ⟨"CaptureOfNumber", [objectTy], some (.cls number [])⟩
    (.cls number []) rfl rfl
  have hplain : env.IsPlain (.cls number []) := ⟨rfl, rfl, rfl, rfl⟩
  exact ⟨hall.1 _ rfl rfl, hall.2.1 hplain _ (by decide +kernel), hall.2.2 _⟩

/-- A type variable is missed below its own capture, and below that of the root class if it has no
bound; an intersection is missed below its own capture. -/
theorem bound_missed : env.MissesBound (.var ⟨13⟩) ⟨15⟩ ∧ env.MissesBound both ⟨16⟩ ∧
    env.MissesBound (.var ⟨14⟩) ⟨17⟩ :=
  ⟨⟨_, _, rfl, rfl, by decide +kernel, by decide +kernel⟩,
    ⟨_, _, rfl, rfl, by decide +kernel, by decide +kernel⟩,
    ⟨_, _, rfl, rfl, by decide +kernel, by decide +kernel⟩⟩

end Captures

end DoubleColon
