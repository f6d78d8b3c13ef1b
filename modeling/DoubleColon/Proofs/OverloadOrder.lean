import Mathlib.Data.List.Basic
import DoubleColon.Conflict
import DoubleColon.Resolution

/-!
# The order of overloads

Overloads are compared by positions, and so are the candidates that a choice falls on. What is
chosen does not depend on the positions: `Env.winner` picks it from a list of things that have
overloads, and `Env.verdict` says what candidates come to with the readings they were given. Both
are the same for every order of the list.
-/

set_option autoImplicit false

namespace DoubleColon

/-! ## Lists with a single element -/

def only? {β : Type} : List β → Option β
  | [x] => some x
  | _ => none

theorem only?_map {β γ : Type} (f : β → γ) (l : List β) : only? (l.map f) = (only? l).map f := by
  match l with
  | [] | [_] | _ :: _ :: _ => rfl

theorem mem_of_only? {β : Type} {l : List β} {x : β} (h : only? l = some x) : l = [x] := by
  match l with
  | [] | _ :: _ :: _ => cases h
  | [y] => rw [Option.some.inj h]

theorem only?_perm {β : Type} {l m : List β} (h : l.Perm m) : only? l = only? m := by
  match l with
  | [] => rw [h.nil_eq]
  | [x] => rw [h.singleton_eq]
  | x :: y :: rest =>
    match m with
    | [] => exact absurd h.length_eq (by simp)
    | [z] => exact absurd h.length_eq (by simp)
    | z :: w :: rest' => rfl

def pick? {β : Type} (isAbstract : β → Bool) (l : List β) : Option β :=
  (only? l).or (only? (l.filter fun x => !isAbstract x))

theorem pick?_map {β γ : Type} (isAbstract : γ → Bool) (f : β → γ) (l : List β) :
    pick? isAbstract (l.map f) = (pick? (fun x => isAbstract (f x)) l).map f := by
  unfold pick?
  rw [List.filter_map, only?_map, only?_map]
  cases only? l <;> rfl

theorem mem_of_pick? {β : Type} {isAbstract : β → Bool} {l : List β} {x : β}
    (h : pick? isAbstract l = some x) : x ∈ l := by
  unfold pick? at h
  cases ho : only? l with
  | some y =>
    rw [ho] at h
    obtain rfl : y = x := Option.some.inj h
    simp [mem_of_only? ho]
  | none =>
    rw [ho] at h
    have hf := mem_of_only? h
    exact (List.mem_filter.mp (hf ▸ List.mem_singleton.mpr rfl)).1

theorem pick?_perm {β : Type} (isAbstract : β → Bool) {l m : List β} (h : l.Perm m) :
    pick? isAbstract l = pick? isAbstract m := by
  unfold pick?
  rw [only?_perm h, only?_perm (h.filter _)]

theorem map_fst_filter_zipIdx {β : Type} (p : β → Bool) (l : List β) :
    (l.zipIdx.filter fun e => p e.1).map Prod.fst = l.filter p := by
  have h : (l.zipIdx.map Prod.fst).filter p = l.filter p := by rw [List.zipIdx_map_fst]
  rw [← h, List.filter_map]
  rfl

namespace Env

variable {β γ : Type} (env : Env) (phase : Phase)

/-! ## The most specific overload -/

theorem isAssignable_refl (t : Ty) : env.isAssignable t t = true := by
  unfold isAssignable
  cases t <;> simp [isSubtype_refl, Primitive.widensTo_refl]

theorem isMoreSpecificParam_refl (t : Ty) : env.isMoreSpecificParam t t = true := by
  unfold isMoreSpecificParam
  split <;> simp [isSubtype_refl, isAssignable_refl]

theorem isMoreSpecific_refl (m : Overload) : env.isMoreSpecific phase m m = true := by
  have hn : comparedArity phase m m = some m.params.length := by
    cases phase <;> simp [comparedArity]
  simp only [isMoreSpecific, hn, List.all_eq_true, List.mem_range]
  intro i hi
  have ht : (m.typeAt phase i).isSome := by
    unfold Overload.typeAt
    split
    · have hne : m.params ≠ [] := fun h => by simp [h] at hi
      simp [List.getLast?_eq_some_getLast hne]
    · simp [hi]
  obtain ⟨t, ht⟩ := Option.isSome_iff_exists.mp ht
  simp [ht, isMoreSpecificParam_refl]

def maxima (overload : β → Overload) (xs : List β) : List β :=
  xs.filter fun x => xs.all fun y => env.isMoreSpecific phase (overload x) (overload y)

def winner? (overload : β → Overload) (xs : List β) : Option β :=
  pick? (fun x => (overload x).isAbstract) (env.maxima phase overload xs)

theorem maxima_map (overload : γ → Overload) (f : β → γ) (xs : List β) :
    env.maxima phase overload (xs.map f) =
      (env.maxima phase (fun x => overload (f x)) xs).map f := by
  simp only [maxima, List.filter_map, List.all_map]
  rfl

theorem winner?_map (overload : γ → Overload) (f : β → γ) (xs : List β) :
    env.winner? phase overload (xs.map f) =
      (env.winner? phase (fun x => overload (f x)) xs).map f := by
  unfold winner?
  rw [maxima_map, pick?_map]

theorem winner?_perm (overload : β → Overload) {xs ys : List β} (h : xs.Perm ys) :
    env.winner? phase overload xs = env.winner? phase overload ys := by
  have hall : ∀ x, (xs.all fun y => env.isMoreSpecific phase (overload x) (overload y)) =
      ys.all fun y => env.isMoreSpecific phase (overload x) (overload y) := fun x => h.all_eq
  unfold winner? maxima
  simp only [hall]
  exact pick?_perm _ (h.filter _)

theorem winner?_singleton (overload : β → Overload) (x : β) :
    env.winner? phase overload [x] = some x := by
  simp [winner?, maxima, isMoreSpecific_refl, pick?, only?]

theorem mem_of_winner? {overload : β → Overload} {xs : List β} {x : β}
    (h : env.winner? phase overload xs = some x) : x ∈ xs :=
  (List.mem_filter.mp (mem_of_pick? h)).1

theorem length_eq_of_isMoreSpecific {m k : Overload}
    (h : env.isMoreSpecific .fixedArity m k = true) : m.params.length = k.params.length := by
  by_contra hne
  simp [isMoreSpecific, comparedArity, hne] at h

/-- Overloads of fixed arity with different numbers of parameters leave no winner. -/
theorem winner?_of_length_ne {overload : β → Overload} {xs : List β} {x y : β} (hx : x ∈ xs)
    (hy : y ∈ xs) (hne : (overload x).params.length ≠ (overload y).params.length) :
    env.winner? .fixedArity overload xs = none := by
  have hnil : env.maxima .fixedArity overload xs = [] := by
    refine List.filter_eq_nil_iff.mpr fun z _ hall => hne ?_
    rw [List.all_eq_true] at hall
    rw [← env.length_eq_of_isMoreSpecific (hall x hx),
      ← env.length_eq_of_isMoreSpecific (hall y hy)]
  rw [winner?, hnil]
  rfl

theorem maximalOverloads_eq (overload : β → Overload) (xs : List β) :
    env.maximalOverloads phase (xs.map overload) =
      (xs.zipIdx.filter fun e => xs.all fun y =>
        env.isMoreSpecific phase (overload e.1) (overload y)).map fun e => (overload e.1, e.2) := by
  unfold maximalOverloads
  rw [List.zipIdx_map, List.filter_map]
  refine congrArg (List.map _) (List.filter_congr fun e he => ?_)
  obtain ⟨x, i⟩ := e
  have hi : xs[i]? = some x := by simpa [List.mem_zipIdx_iff_getElem?] using he
  rw [Bool.eq_iff_iff]
  simp only [Function.comp_apply, List.all_map, List.all_eq_true, Prod.map_apply, id_eq,
    Bool.or_eq_true, decide_eq_true_eq]
  constructor
  · intro h y hy
    obtain ⟨j, hj⟩ := List.mem_iff_getElem?.mp hy
    rcases h (y, j) (by simpa [List.mem_zipIdx_iff_getElem?] using hj) with rfl | h
    · obtain rfl : x = y := Option.some.inj (hi.symm.trans hj)
      exact env.isMoreSpecific_refl phase _
    · exact h
  · rintro h ⟨y, j⟩ hy
    have hj : xs[j]? = some y := by simpa [List.mem_zipIdx_iff_getElem?] using hy
    exact .inr (h y (List.mem_of_getElem? hj))

theorem mostSpecific_eq (ms : List Overload) : env.mostSpecific ms phase =
    (pick? (fun e => e.1.isAbstract) (env.maximalOverloads phase ms)).map Prod.snd := by
  unfold mostSpecific pick?
  match env.maximalOverloads phase ms with
  | [] | [e] => rfl
  | (m, i) :: f :: rest =>
    simp only [only?, Option.none_or]
    generalize ((m, i) :: f :: rest).filter (fun x => !x.1.isAbstract) = concrete
    match concrete with
    | [] | [_] | _ :: _ :: _ => rfl

/-- To pick the position of the most specific overload is to pick the thing at that position. -/
theorem getElem?_mostSpecific (overload : β → Overload) (xs : List β) :
    (env.mostSpecific (xs.map overload) phase).bind (xs[·]?) = env.winner? phase overload xs := by
  let best := xs.zipIdx.filter fun e => xs.all fun y =>
    env.isMoreSpecific phase (overload e.1) (overload y)
  have hbest : best.map Prod.fst = env.maxima phase overload xs :=
    map_fst_filter_zipIdx (fun x => xs.all fun y =>
      env.isMoreSpecific phase (overload x) (overload y)) xs
  rw [mostSpecific_eq, maximalOverloads_eq, pick?_map, winner?, ← hbest, pick?_map]
  cases he : pick? (fun e => (overload e.1).isAbstract) best with
  | none => rfl
  | some e =>
    have hget : xs[e.2]? = some e.1 := by
      simpa [List.mem_zipIdx_iff_getElem?] using (List.mem_filter.mp (mem_of_pick? he)).1
    exact hget

/-! ## What candidates come to -/

def overloadOf (p : Candidate × Reading) : Overload :=
  ⟨p.2.params, p.2.isVarargs, p.2.isAbstract⟩

def isApplicable (p : Candidate × Reading) : Bool := p.2.direct || p.2.receiver

def verdict (env : Env) (owning : Substitution) (target : Option FunctionType)
    (found : List (Candidate × Reading)) : Resolution :=
  let phase := if found.any fun p => p.2.isVarargs then .variableArity else .fixedArity
  if found.isEmpty then .empty
  else match env.winner? phase overloadOf found with
    | some p => .unique (env.resolveMember owning target p.1).1
    | none => .ambiguous (found.map Prod.fst)

theorem applicable_eq (ps : List (Candidate × Reading)) :
    applicable (ps.map Prod.snd) =
      (ps.zipIdx.filter fun e => isApplicable e.1).map fun e => (e.1.2, e.2) := by
  unfold applicable
  rw [List.zipIdx_map, List.filter_map]
  rfl

theorem length_applicable_le (rs : List Reading) :
    (applicable rs).length ≤ countDirect rs + countReceiver rs := by
  have hlen : (applicable rs).length = (rs.filter fun r => r.direct || r.receiver).length := by
    rw [← map_fst_filter_zipIdx, List.length_map]
    rfl
  rw [hlen]
  induction rs with
  | nil => simp
  | cons r rest ih =>
    have ih := ih (by rw [← map_fst_filter_zipIdx, List.length_map]; rfl)
    simp only [countDirect, countReceiver, List.countP_cons, List.filter_cons] at ih ⊢
    cases r.direct <;> cases r.receiver <;> simp <;> omega

/-- Candidates that need no comparison are at most one, which wins the comparison. -/
theorem choose_eq (rs : List Reading) : choose env mostSpecific rs =
    if (applicable rs).isEmpty then .none
    else match env.winner? (DoubleColon.phase rs)
        (fun e => ⟨e.1.params, e.1.isVarargs, e.1.isAbstract⟩) (applicable rs) with
      | some e => .unique e.2
      | none => .ambiguous ((applicable rs).map Prod.snd) := by
  have hle := length_applicable_le rs
  unfold choose overloads
  cases happ : applicable rs with
  | nil => rfl
  | cons e rest =>
    simp only [List.isEmpty_cons, Bool.false_eq_true, if_false]
    split
    · rw [← getElem?_mostSpecific]
      cases env.mostSpecific ((e :: rest).map _) (DoubleColon.phase rs) with
      | none => rfl
      | some k =>
        simp only [Option.bind_some, List.getElem?_map]
        cases (e :: rest)[k]? <;> rfl
    · rename_i hone
      have hrest : rest = [] := by
        rw [happ] at hle
        simp only [needsComparison, decide_eq_true_eq, List.length_cons] at hone hle
        exact List.eq_nil_of_length_eq_zero (by omega)
      rw [hrest, winner?_singleton]

theorem choose_of_length_ne {rs : List Reading}
    (hfixed : ∀ e ∈ applicable rs, e.1.isVarargs = false) {a b : Reading × Nat}
    (ha : a ∈ applicable rs) (hb : b ∈ applicable rs)
    (hne : a.1.params.length ≠ b.1.params.length) :
    choose env mostSpecific rs = .ambiguous ((applicable rs).map (·.2)) := by
  have hphase : DoubleColon.phase rs = .fixedArity := by
    unfold DoubleColon.phase
    rw [if_neg]
    simpa using hfixed
  have hempty : (applicable rs).isEmpty = false :=
    List.isEmpty_eq_false_iff.mpr (List.ne_nil_of_mem ha)
  rw [choose_eq, hphase, env.winner?_of_length_ne ha hb hne, hempty]
  rfl

theorem resolutionOf_choose (owning : Substitution) (target : Option FunctionType)
    (ps : List (Candidate × Reading)) :
    (env.resolutionOf owning target (ps.map Prod.fst)
      (choose env mostSpecific (ps.map Prod.snd))).1 =
        env.verdict owning target (ps.filter isApplicable) := by
  let found := ps.zipIdx.filter fun e => isApplicable e.1
  have hfst : ps.filter isApplicable = found.map Prod.fst :=
    (map_fst_filter_zipIdx isApplicable ps).symm
  have hget : ∀ e ∈ found, (ps.map Prod.fst)[e.2]? = some e.1.1 := by
    intro e he
    have hp : ps[e.2]? = some e.1 := by
      simpa [List.mem_zipIdx_iff_getElem?] using (List.mem_filter.mp he).1
    simp [hp]
  have happ : applicable (ps.map Prod.snd) = found.map fun e => (e.1.2, e.2) := applicable_eq ps
  rw [choose_eq]
  unfold verdict DoubleColon.phase
  rw [happ, hfst]
  simp only [winner?_map, List.isEmpty_map, List.any_map, List.map_map]
  cases hempty : found.isEmpty with
  | true => rfl
  | false =>
    let win := env.winner?
      (if found.any fun e => e.1.2.isVarargs then .variableArity else .fixedArity)
      (fun e => overloadOf e.1) found
    change (env.resolutionOf owning target (ps.map Prod.fst)
        (match win.map fun e => (e.1.2, e.2) with
          | some e => .unique e.2
          | none => .ambiguous (found.map Prod.snd))).1 =
      match win.map Prod.fst with
        | some p => .unique (env.resolveMember owning target p.1).1
        | none => .ambiguous (found.map fun e => e.1.1)
    cases hw : win with
    | none =>
      have hcs : (found.map Prod.snd).filterMap (fun i => (ps.map Prod.fst)[i]?) =
          found.map fun e => e.1.1 := by
        rw [List.filterMap_map]
        exact (List.filterMap_congr hget).trans (congrFun List.filterMap_eq_map found)
      exact congrArg Resolution.ambiguous hcs
    | some e =>
      have hi := hget e (mem_of_winner? _ _ hw)
      simp only [Option.map_some, resolutionOf, hi]

end Env

end DoubleColon
