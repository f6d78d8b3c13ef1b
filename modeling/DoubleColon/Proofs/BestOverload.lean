import Mathlib.Data.Fin.Basic
import Mathlib.Data.List.FinRange
import Mathlib.Data.List.Forall2
import Mathlib.Logic.Equiv.Defs
import DoubleColon.Env.Standard
import DoubleColon.Proofs.OverloadOrder

/-!
# The best overload

An overload is more specific than another one if, for as many arguments as the longer of the two
declares, both take so many, and it takes types that are more specific. Overloads may be more
specific than each other, so that several of a list can be more specific than all the rest. The one
that is picked is one of these, and all others of them are abstract while it is not. Where no
overload is like that, none is picked. So it does not matter in which order overloads are listed.
-/

set_option autoImplicit false

namespace DoubleColon

namespace Overload

/-- The types of so many arguments, if an overload takes so many. The last parameter of an overload
of variable arity stands for the arguments that are left, be it for none. -/
def argTypes (m : Overload) (phase : Phase) (n : Nat) : Option (List Ty) :=
  match m.params.getLast? with
  | some last =>
      if phase = .variableArity && m.isVarargs then
        if m.params.length ≤ n + 1 then
          some (m.params.dropLast ++
            List.replicate (n + 1 - m.params.length) (last.component?.getD last))
        else none
      else if m.params.length = n then some m.params else none
  | none => if n = 0 then some [] else none

end Overload

inductive MoreSpecificType (env : Env) : Ty → Ty → Prop
  | recovery {s t : Ty} (h : s.isRecovery = true ∨ t.isRecovery = true) : MoreSpecificType env s t
  | widening {p q : Primitive} (h : p.widensTo q = true) : MoreSpecificType env (.prim p) (.prim q)
  | subtype {s t : Ty} (h : env.isSubtype s t = true) : MoreSpecificType env s t

theorem only?_eq_some_iff {β : Type} {l : List β} (hl : l.Nodup) {x : β} :
    only? l = some x ↔ x ∈ l ∧ ∀ y ∈ l, y = x := by
  match l with
  | [] => simp [only?]
  | [y] => simp [only?, eq_comm]
  | y :: z :: rest =>
    simp only [only?, reduceCtorEq, false_iff]
    rintro ⟨-, hall⟩
    have hyz : y = z := (hall y (by simp)).trans (hall z (by simp)).symm
    simp [hyz] at hl

/-- What is picked of different things is one of them, and it is so alone, or alone of those that
are not abstract. -/
theorem pick?_eq_some_iff {β : Type} {isAbstract : β → Bool} {l : List β} (hl : l.Nodup) {x : β} :
    pick? isAbstract l = some x ↔
      x ∈ l ∧ ∀ y ∈ l, y ≠ x → isAbstract y = true ∧ isAbstract x = false := by
  have hconcrete := only?_eq_some_iff (hl.filter fun y => !isAbstract y) (x := x)
  simp only [List.mem_filter, Bool.not_eq_true'] at hconcrete
  unfold pick?
  cases ho : only? l with
  | some z =>
    obtain ⟨hz, hall⟩ := (only?_eq_some_iff hl).mp ho
    rw [Option.some_or, Option.some.injEq]
    constructor
    · rintro rfl
      exact ⟨hz, fun y hy hne => absurd (hall y hy) hne⟩
    · exact fun h => (hall x h.1).symm
  | none =>
    rw [Option.none_or, hconcrete]
    constructor
    · rintro ⟨⟨hx, hxc⟩, hall⟩
      refine ⟨hx, fun y hy hne => ⟨?_, hxc⟩⟩
      by_contra hyc
      exact hne (hall y ⟨hy, by simpa using hyc⟩)
    · rintro ⟨hx, hall⟩
      -- It is not the only one, so that another one shows that it is not abstract.
      have hother : ∃ y ∈ l, y ≠ x := by
        by_contra hnone
        push Not at hnone
        rw [(only?_eq_some_iff hl).mpr ⟨hx, hnone⟩] at ho
        cases ho
      obtain ⟨y, hy, hne⟩ := hother
      refine ⟨⟨hx, (hall y hy hne).2⟩, fun z ⟨hz, hzc⟩ => ?_⟩
      by_contra hzx
      rw [(hall z hz hzx).1] at hzc
      cases hzc

namespace Env

def MoreSpecific (env : Env) (phase : Phase) (m k : Overload) : Prop :=
  ∃ ss ts, m.argTypes phase (max m.params.length k.params.length) = some ss ∧
    k.argTypes phase (max m.params.length k.params.length) = some ts ∧
    List.Forall₂ (MoreSpecificType env) ss ts

def Surpasses (env : Env) (phase : Phase) (ms : List Overload) (w : Fin ms.length) : Prop :=
  ∀ v, v ≠ w → env.MoreSpecific phase ms[w] ms[v]

/-- An overload surpasses all others of a list, and alone does so, or alone of those that are not
abstract. -/
structure IsBest (env : Env) (phase : Phase) (ms : List Overload) (w : Fin ms.length) : Prop where
  surpasses : env.Surpasses phase ms w
  alone : ∀ v, v ≠ w → env.Surpasses phase ms v →
    ms[v].isAbstract = true ∧ ms[w].isAbstract = false

variable {env : Env} {phase : Phase}

/-! ## More specific types and overloads -/

theorem isSubtype_prim {p q : Primitive} (h : env.isSubtype (.prim p) (.prim q) = true) :
    p = q := by
  simpa [isSubtype, subtypeLevels, isSubtypeWithin, canonical, subtypeStep, Ty.isRecovery] using h

theorem isMoreSpecificParam_iff {s t : Ty} :
    env.isMoreSpecificParam s t = true ↔ MoreSpecificType env s t := by
  have hprim : (∃ p q, s = .prim p ∧ t = .prim q) ∨ (s.isPrimitive && t.isPrimitive) = false := by
    cases s <;> cases t <;> simp [Ty.isPrimitive]
  rcases hprim with ⟨p, q, rfl, rfl⟩ | hprim
  · have hdef : env.isMoreSpecificParam (.prim p) (.prim q) = p.widensTo q := by
      simp [isMoreSpecificParam, isAssignable, Ty.isRecovery, Ty.isPrimitive]
    rw [hdef]
    constructor
    · exact .widening
    · rintro (⟨h | h⟩ | h | h)
      · cases h
      · cases h
      · exact h
      · rw [isSubtype_prim h, Primitive.widensTo_refl]
  · have hdef : env.isMoreSpecificParam s t =
        (s.isRecovery || t.isRecovery || env.isSubtype s t) := by
      simp [isMoreSpecificParam, hprim]
    rw [hdef, Bool.or_eq_true, Bool.or_eq_true]
    constructor
    · rintro (h | h)
      · exact .recovery h
      · exact .subtype h
    · rintro (h | h | h)
      · exact .inl h
      · cases hprim
      · exact .inr h

def covers (phase : Phase) (n : Nat) (m : Overload) : Bool :=
  m.params.length = n || phase = .variableArity && m.isVarargs

theorem comparedArity_eq (m k : Overload) : comparedArity phase m k =
    if covers phase (max m.params.length k.params.length) m &&
        covers phase (max m.params.length k.params.length) k then
      some (max m.params.length k.params.length)
    else none := by
  cases phase <;> grind [comparedArity, covers]

theorem typeAt_variable {m : Overload} (hva : (phase = .variableArity && m.isVarargs) = true)
    {last : Ty} (hlast : m.params.getLast? = some last) {n i : Nat} (hi : i < n) :
    m.typeAt phase i = (m.params.dropLast ++
      List.replicate (n + 1 - m.params.length) (last.component?.getD last))[i]? := by
  have hne : m.params ≠ [] := fun he => by simp [he] at hlast
  have hpos : 0 < m.params.length := List.length_pos_iff.mpr hne
  unfold Overload.typeAt
  simp only [hva, Bool.true_and, decide_eq_true_eq, hlast, Option.map_some]
  by_cases hlong : m.params.length ≤ i + 1
  · rw [if_pos hlong, List.getElem?_append_right (by simp; omega), List.length_dropLast,
      List.getElem?_replicate, if_pos (by omega)]
  · rw [if_neg hlong, List.getElem?_append_left (by simp; omega), List.getElem?_dropLast,
      if_pos (by omega)]

theorem typeAt_of_argTypes {m : Overload} {n : Nat} (hle : m.params.length ≤ n) {ts : List Ty}
    (h : m.argTypes phase n = some ts) :
    covers phase n m = true ∧ ts.length = n ∧ ∀ i < n, m.typeAt phase i = ts[i]? := by
  unfold Overload.argTypes at h
  cases hlast : m.params.getLast? with
  | none =>
    have hnil : m.params = [] := List.getLast?_eq_none_iff.mp hlast
    simp only [hlast, Option.ite_none_right_eq_some, Option.some.injEq] at h
    obtain ⟨rfl, rfl⟩ := h
    exact ⟨by simp [covers, hnil], rfl, nofun⟩
  | some last =>
    have hpos : 0 < m.params.length :=
      List.length_pos_iff.mpr fun he => by simp [he] at hlast
    by_cases hva : (phase = .variableArity && m.isVarargs) = true
    · simp only [hlast, hva, if_true, if_pos (Nat.le_succ_of_le hle), Option.some.injEq] at h
      subst h
      refine ⟨by simp [covers, hva], by simp; omega, fun i hi => typeAt_variable hva hlast hi⟩
    · simp only [hlast, hva, Bool.false_eq_true, if_false, Option.ite_none_right_eq_some,
        Option.some.injEq] at h
      obtain ⟨hlen, rfl⟩ := h
      exact ⟨by simp [covers, hlen], hlen, fun i _ => by simp [Overload.typeAt, hva]⟩

theorem exists_argTypes {m : Overload} {n : Nat} (hle : m.params.length ≤ n)
    (hc : covers phase n m = true) (h : ∀ i < n, ∃ t, m.typeAt phase i = some t) :
    ∃ ts, m.argTypes phase n = some ts := by
  unfold Overload.argTypes
  split
  · split
    · exact ⟨_, if_pos (Nat.le_succ_of_le hle)⟩
    · rename_i hva
      have hlen : m.params.length = n := by simpa [covers, hva] using hc
      exact ⟨_, if_pos hlen⟩
  · rename_i hnil
    have hn : n = 0 := by
      by_contra hpos
      obtain ⟨t, ht⟩ := h 0 (Nat.pos_of_ne_zero hpos)
      simp [Overload.typeAt, List.getLast?_eq_none_iff.mp hnil] at ht
    exact ⟨_, if_pos hn⟩

theorem isMoreSpecific_iff_forall {m k : Overload} : env.isMoreSpecific phase m k = true ↔
    covers phase (max m.params.length k.params.length) m = true ∧
    covers phase (max m.params.length k.params.length) k = true ∧
    ∀ i < max m.params.length k.params.length, ∃ s t, m.typeAt phase i = some s ∧
      k.typeAt phase i = some t ∧ MoreSpecificType env s t := by
  unfold isMoreSpecific
  rw [comparedArity_eq]
  by_cases hcovers : (covers phase (max m.params.length k.params.length) m &&
      covers phase (max m.params.length k.params.length) k) = true
  · rw [if_pos hcovers]
    rw [Bool.and_eq_true] at hcovers
    simp only [List.all_eq_true, List.mem_range, hcovers, true_and]
    refine forall₂_congr fun i _ => ?_
    cases m.typeAt phase i <;> cases k.typeAt phase i <;> simp [isMoreSpecificParam_iff]
  · rw [if_neg hcovers]
    rw [Bool.and_eq_true] at hcovers
    simp only [Bool.false_eq_true, false_iff]
    exact fun h => hcovers ⟨h.1, h.2.1⟩

theorem isMoreSpecific_iff {m k : Overload} :
    env.isMoreSpecific phase m k = true ↔ env.MoreSpecific phase m k := by
  have hm : m.params.length ≤ max m.params.length k.params.length := Nat.le_max_left _ _
  have hk : k.params.length ≤ max m.params.length k.params.length := Nat.le_max_right _ _
  rw [isMoreSpecific_iff_forall]
  unfold MoreSpecific
  generalize max m.params.length k.params.length = n at hm hk
  constructor
  · rintro ⟨hmc, hkc, hall⟩
    obtain ⟨ss, hss⟩ := exists_argTypes hm hmc fun i hi => (hall i hi).imp fun s ⟨_, hs, _⟩ => hs
    obtain ⟨ts, hts⟩ := exists_argTypes hk hkc fun i hi => by
      obtain ⟨-, t, -, ht, -⟩ := hall i hi
      exact ⟨t, ht⟩
    obtain ⟨-, hslen, hsat⟩ := typeAt_of_argTypes hm hss
    obtain ⟨-, htlen, htat⟩ := typeAt_of_argTypes hk hts
    refine ⟨ss, ts, hss, hts, List.forall₂_iff_get.mpr ⟨by omega, fun i hi hj => ?_⟩⟩
    obtain ⟨s, t, hs, ht, hle⟩ := hall i (by omega)
    rw [hsat i (by omega), List.getElem?_eq_getElem hi] at hs
    rw [htat i (by omega), List.getElem?_eq_getElem hj] at ht
    simpa [Option.some.inj hs, Option.some.inj ht] using hle
  · rintro ⟨ss, ts, hss, hts, hall⟩
    obtain ⟨hmc, hslen, hsat⟩ := typeAt_of_argTypes hm hss
    obtain ⟨hkc, htlen, htat⟩ := typeAt_of_argTypes hk hts
    obtain ⟨-, hall⟩ := List.forall₂_iff_get.mp hall
    refine ⟨hmc, hkc, fun i hi => ⟨_, _, ?_, ?_, hall i (by omega) (by omega)⟩⟩
    · rw [hsat i hi, List.getElem?_eq_getElem (by omega)]
      rfl
    · rw [htat i hi, List.getElem?_eq_getElem (by omega)]
      rfl

/-! ## The pick -/

theorem mem_maxima_iff {n : Nat} {f : Fin n → Overload} {w : Fin n} :
    w ∈ env.maxima phase f (List.finRange n) ↔ ∀ v, v ≠ w → env.MoreSpecific phase (f w) (f v) := by
  simp only [maxima, List.mem_filter, List.mem_finRange, true_and, List.all_eq_true, true_implies,
    isMoreSpecific_iff]
  refine ⟨fun h v _ => h v, fun h v => ?_⟩
  by_cases hv : v = w
  · rw [hv, ← isMoreSpecific_iff]
    exact env.isMoreSpecific_refl phase _
  · exact h v hv

theorem winner?_eq_some_iff {ms : List Overload} {w : Fin ms.length} :
    env.winner? phase (fun i : Fin ms.length => ms[i]) (List.finRange ms.length) = some w ↔
      env.IsBest phase ms w := by
  have hnodup : (env.maxima phase (fun i : Fin ms.length => ms[i])
      (List.finRange ms.length)).Nodup := (List.nodup_finRange _).filter _
  rw [winner?, pick?_eq_some_iff hnodup]
  simp only [mem_maxima_iff]
  exact ⟨fun h => ⟨h.1, fun v hv hs => h.2 v hs hv⟩, fun h => ⟨h.1, fun v hs hv => h.2 v hv hs⟩⟩

theorem lt_length_of_mostSpecific {ms : List Overload} {w : Nat}
    (h : env.mostSpecific ms phase = some w) : w < ms.length := by
  rw [mostSpecific_eq, Option.map_eq_some_iff] at h
  obtain ⟨e, he, rfl⟩ := h
  have hmem := (List.mem_filter.mp (mem_of_pick? he)).1
  exact (List.getElem?_eq_some_iff.mp (List.mem_zipIdx_iff_getElem?.mp hmem)).1

theorem mostSpecific_ofFn {n : Nat} (f : Fin n → Overload) : env.mostSpecific (List.ofFn f) phase =
    (env.winner? phase f (List.finRange n)).map Fin.val := by
  have h := env.getElem?_mostSpecific phase f (List.finRange n)
  rw [← List.ofFn_eq_map] at h
  rw [← h]
  cases hw : env.mostSpecific (List.ofFn f) phase with
  | none => rfl
  | some w =>
    have hlt : w < n := by simpa using lt_length_of_mostSpecific hw
    simp [hlt]

theorem mostSpecific_eq_winner? (ms : List Overload) : env.mostSpecific ms phase =
    (env.winner? phase (fun i : Fin ms.length => ms[i]) (List.finRange ms.length)).map Fin.val := by
  rw [← mostSpecific_ofFn]
  exact congrArg (env.mostSpecific · phase) (List.ofFn_getElem).symm

/-- Overloads in another order have the winner that they had. -/
theorem winner?_comp (env : Env) (phase : Phase) {n : Nat} (f : Fin n → Overload)
    (σ : Equiv.Perm (Fin n)) :
    (env.winner? phase (fun i => f (σ i)) (List.finRange n)).map σ =
      env.winner? phase f (List.finRange n) := by
  rw [← winner?_map]
  exact env.winner?_perm phase f σ.map_finRange_perm

/-- The overload at a position is picked if and only if it is the best one, so that there is no pick
if none is. If the overloads are listed in another order, the same one is picked, at the position
that it has there, or none is in both orders. -/
theorem best_is_picked (env : Env) (phase : Phase) (ms : List Overload) :
    (∀ w, env.mostSpecific ms phase = some w ↔
      ∃ h : w < ms.length, env.IsBest phase ms ⟨w, h⟩) ∧
    ∀ σ : Equiv.Perm (Fin ms.length), let other := List.ofFn fun i => ms[σ i]
      (∀ i : Fin ms.length, env.mostSpecific other phase = some i.val ↔
        env.mostSpecific ms phase = some (σ i).val) ∧
      (env.mostSpecific other phase = none ↔ env.mostSpecific ms phase = none) := by
  constructor
  · intro w
    rw [mostSpecific_eq_winner?, Option.map_eq_some_iff]
    constructor
    · rintro ⟨i, hi, rfl⟩
      exact ⟨i.isLt, winner?_eq_some_iff.mp hi⟩
    · rintro ⟨h, hbest⟩
      exact ⟨⟨w, h⟩, winner?_eq_some_iff.mpr hbest, rfl⟩
  · intro σ other
    have hother : env.mostSpecific other phase = (env.winner? phase (fun i => ms[σ i])
        (List.finRange ms.length)).map Fin.val := mostSpecific_ofFn _
    have hmoved := env.winner?_comp phase (fun i : Fin ms.length => ms[i]) σ
    rw [mostSpecific_eq_winner? ms, hother, ← hmoved]
    refine ⟨fun i => ?_, by simp only [Option.map_eq_none_iff]⟩
    simp only [Option.map_eq_some_iff, Fin.val_inj, exists_eq_right, σ.injective.eq_iff]

/-- Of two overloads that take a string, the one that is not abstract is picked, in either order.
If neither is abstract, none is picked. -/
example :
    let concrete : Overload := ⟨[Standard.stringTy], false, false⟩
    let abstract : Overload := { concrete with isAbstract := true }
    standard.mostSpecific [abstract, concrete] .fixedArity = some 1 ∧
      standard.mostSpecific [concrete, abstract] .fixedArity = some 0 ∧
      standard.mostSpecific [concrete, concrete] .fixedArity = none := by
  decide +kernel

end Env

end DoubleColon
