import DoubleColon.Positions
import DoubleColon.Proofs.FaithfulChoices

/-!
# Choices that read lists by position

A choice whose accesses to lists are checked comes to the choice that is made among the readings of
the candidates. One access can be out of range, that to the parameter of an argument, and only if a
candidate of variable arity has no parameter at all.
-/

set_option autoImplicit false

namespace DoubleColon

/-! ## Checked accesses -/

section

variable {α β : Type}

def orMissing : Option α → Except ListRead α
  | some x => .ok x
  | none => .error .param

@[simp] theorem ok_bind (x : α) (f : α → Except ListRead β) : (Except.ok x >>= f) = f x := rfl

theorem readAt_of_some {a : ListRead} {l : List α} {i : Nat} {x : α} (h : l[i]? = some x) :
    readAt a l i = .ok x := by
  simp [readAt, h]

theorem mapM_map_of_forall {γ : Type} {f : γ → Except ListRead β} {k : α → γ} {g : α → β}
    {l : List α} (h : ∀ x ∈ l, f (k x) = .ok (g x)) : (l.map k).mapM f = .ok (l.map g) := by
  induction l with
  | nil => rfl
  | cons x rest ih =>
    rw [List.map_cons, List.mapM_cons, h x List.mem_cons_self,
      ih fun y hy => h y (List.mem_cons_of_mem _ hy)]
    rfl

end

def positionsFrom (i : Nat) (p : Reading → Bool) (rs : List Reading) : List Nat :=
  ((rs.zipIdx i).filter (p ·.1)).map (·.2)

namespace Buckets

def enterAll : Nat → List Reading → Buckets → Buckets
  | _, [], b => b
  | i, r :: rest, b => enterAll (i + 1) rest (b.enter i r.direct r.receiver r.params)

theorem enterAll_eq (i : Nat) (rs : List Reading) (b : Buckets) : enterAll i rs b =
    { direct := b.direct ++ positionsFrom i (·.direct) rs
      receiver := b.receiver ++ positionsFrom i (·.receiver) rs
      declared := b.declared ++ rs.map (·.params) } := by
  induction rs generalizing i b with
  | nil => simp [enterAll, positionsFrom]
  | cons r rest ih =>
    rw [enterAll, ih]
    cases hd : r.direct <;> cases hr : r.receiver <;> simp [enter, positionsFrom, hd, hr]

end Buckets

namespace Env

/-! ## The tests by positions -/

variable {env : Env} {owner : ClassDecl} {m : MatchInput} {c : Candidate}
  {params args : List Ty} {isVarargs : Bool}

theorem receiverByPosition_eq (env : Env) (m : MatchInput) :
    env.receiverByPosition m = .ok (env.hasReceiver m) := by
  unfold receiverByPosition hasReceiver
  cases m.namesType with
  | false => rfl
  | true => cases m.target.params <;> rfl

theorem acceptsAt_eq {count : Nat} (h : params.length = count) (i : Nat) (arg : Ty) :
    env.acceptsAt params count isVarargs i arg =
      orMissing ((paramFor params isVarargs i).map fun e => env.takesArg e.1 arg e.2) := by
  subst h
  unfold acceptsAt paramFor
  split
  · rename_i hlast
    have hpos : params.length - 1 < params.length := by
      simp only [Bool.and_eq_true, decide_eq_true_eq] at hlast
      omega
    rw [List.getLast?_eq_getElem?, readAt_of_some (List.getElem?_eq_getElem hpos),
      List.getElem?_eq_getElem hpos]
    rfl
  · unfold readAt
    cases params[i]? <;> rfl

theorem acceptsFrom_eq {count : Nat} (h : params.length = count) (i : Nat) (args : List Ty) :
    env.acceptsFrom params count isVarargs i args =
      orMissing (env.allAccepted params isVarargs i args) := by
  induction args generalizing i with
  | nil => rfl
  | cons arg rest ih =>
    rw [acceptsFrom, allAccepted, acceptsAt_eq h]
    cases paramFor params isVarargs i with
    | none => rfl
    | some e =>
      show (if env.takesArg e.1 arg e.2 then _ else _) = _
      cases ht : env.takesArg e.1 arg e.2 with
      | true => simpa [ht] using ih (i + 1)
      | false => simp [ht, orMissing]; rfl

theorem directByPosition_eq (env : Env) (owner : ClassDecl) (m : MatchInput) (c : Candidate)
    (isOpen : List TypeVar) (params args : List Ty) :
    env.directByPosition owner m c isOpen params args =
      orMissing (env.readsDirectly owner m c isOpen params args) := by
  unfold directByPosition readsDirectly
  dsimp only
  split
  · exact acceptsFrom_eq (env.length_inferredParams isOpen params args c.isVarargs) 0 args
  · rfl

theorem withReceiverByPosition_eq (env : Env) (owner : ClassDecl) (m : MatchInput) (c : Candidate)
    (isOpen : List TypeVar) (params args : List Ty) :
    env.withReceiverByPosition owner (env.hasReceiver m) c isOpen params args =
      .ok (env.readsWithReceiver owner m c isOpen params args) := by
  unfold withReceiverByPosition readsWithReceiver
  split
  · rename_i hguard
    have hlen : 1 ≤ args.length := by
      simp only [Bool.and_eq_true, decide_eq_true_eq] at hguard
      omega
    have hread : readFrom .following args 1 = .ok args.tail := by
      simp [readFrom, hlen, List.drop_one]
    rw [hread, hguard, Bool.true_and]
    rfl
  · rename_i hguard
    simp only [Bool.not_eq_true] at hguard
    rw [hguard, Bool.false_and]
    rfl

theorem testAt_eq (owner : ClassDecl) (m : MatchInput) (i : Nat) (c : Candidate) (b : Buckets) :
    env.testAt owner m (env.hasReceiver m) i c b =
      orMissing ((env.reading owner m c).map fun r => b.enter i r.direct r.receiver r.params) := by
  unfold testAt reading
  cases env.shapeOf? c.member with
  | none => rfl
  | some shape =>
    dsimp only
    rw [directByPosition_eq, withReceiverByPosition_eq]
    cases env.readsDirectly owner m c _ _ _ <;> rfl

theorem testFrom_eq (owner : ClassDecl) (m : MatchInput) (i : Nat) (cs : List Candidate)
    (b : Buckets) : env.testFrom owner m (env.hasReceiver m) i cs b =
      orMissing ((env.readings owner m cs).map fun rs => b.enterAll i rs) := by
  induction cs generalizing i b with
  | nil => rfl
  | cons c rest ih =>
    rw [testFrom, readings, testAt_eq]
    cases env.reading owner m c with
    | none => rfl
    | some r =>
      show env.testFrom owner m (env.hasReceiver m) (i + 1) rest _ = _
      rw [ih, Option.map_map]
      rfl

/-! ## The decision by positions -/

variable {p q : Reading → Bool} {rs : List Reading}

theorem contains_positions {e : Reading × Nat} (he : e ∈ rs.zipIdx) :
    (positionsFrom 0 p rs).contains e.2 = p e.1 := by
  rw [Bool.eq_iff_iff, List.contains_iff_mem]
  have hget := List.mem_zipIdx_iff_getElem?.mp he
  constructor
  · intro h
    obtain ⟨e', he', hi⟩ := List.mem_map.mp h
    obtain ⟨he', hp⟩ := List.mem_filter.mp he'
    have hget' := List.mem_zipIdx_iff_getElem?.mp he'
    rw [hi, hget] at hget'
    rwa [Option.some.inj hget']
  · intro hp
    exact List.mem_map.mpr ⟨e, List.mem_filter.mpr ⟨he, hp⟩, rfl⟩

theorem narrowed_eq (rs : List Reading) :
    ((List.range rs.length).filter fun i => (positionsFrom 0 (·.direct) rs).contains i ||
      (positionsFrom 0 (·.receiver) rs).contains i) = (applicable rs).map (·.2) := by
  have hall : List.range rs.length = rs.zipIdx.map (·.2) := by
    rw [List.range_eq_range', ← List.zipIdx_map_snd]
  rw [hall, List.filter_map]
  unfold applicable
  congr 1
  refine List.filter_congr fun e he => ?_
  simp only [Function.comp_apply, contains_positions he]

theorem positions_or_of_nil (h : positionsFrom 0 q rs = []) :
    (rs.zipIdx.filter fun e => p e.1 || q e.1).map (·.2) = positionsFrom 0 p rs := by
  unfold positionsFrom
  congr 1
  refine List.filter_congr fun e he => ?_
  have hq : q e.1 = false := by
    rw [← contains_positions (p := q) he, h]
    rfl
  simp [hq]

theorem needsComparison_iff (rs : List Reading) : needsComparison rs = true ↔
    1 < (positionsFrom 0 (·.direct) rs).length + (positionsFrom 0 (·.receiver) rs).length := by
  have hcount : ∀ p : Reading → Bool, rs.countP p = (positionsFrom 0 p rs).length := by
    intro p
    have hfst : rs = rs.zipIdx.map (·.1) := (List.zipIdx_map_fst 0 rs).symm
    rw [positionsFrom, List.length_map, ← List.countP_eq_length_filter]
    conv_lhs => rw [hfst, List.countP_map]
    rfl
  simp [needsComparison, countDirect, countReceiver, hcount]

theorem choose_of_single {pick : Picker} {i : Nat} (h : (applicable rs).map (·.2) = [i])
    (hone : needsComparison rs = false) : choose env pick rs = .unique i := by
  obtain ⟨e, he, rfl⟩ := List.map_eq_singleton_iff.mp h
  simp [choose, he, hone]

theorem choose_of_several {pick : Picker} (h : needsComparison rs = true) :
    choose env pick rs = match (pick env (overloads rs) (DoubleColon.phase rs)).bind
        (((applicable rs).map (·.2))[·]?) with
      | some winner => .unique winner
      | none => .ambiguous ((applicable rs).map (·.2)) := by
  unfold choose
  cases happ : applicable rs with
  | nil =>
    rw [needsComparison_eq, happ] at h
    cases h
  | cons e rest =>
    rw [h]
    rfl

/-- All positions that the comparison reads are positions of candidates. -/
theorem compareByPosition_eq {cs : List Candidate} (hr : env.readings owner m cs = some rs) :
    ((applicable rs).map (·.2)).mapM (isVarargsAt cs) =
        .ok ((applicable rs).map (·.1.isVarargs)) ∧
      ((applicable rs).map (·.2)).mapM
          (env.overloadAt cs ⟨positionsFrom 0 (·.direct) rs, positionsFrom 0 (·.receiver) rs,
            rs.map (·.params)⟩) = .ok (overloads rs) := by
  have hfound : ∀ e ∈ applicable rs, ∃ c, cs[e.2]? = some c ∧ rs[e.2]? = some e.1 ∧
      c.isVarargs = e.1.isVarargs ∧ (env.shapeOf? c.member).any (·.isAbstract) = e.1.isAbstract := by
    rintro ⟨r, i⟩ he
    obtain ⟨hget, happ⟩ := mem_applicable.mp he
    obtain ⟨c, hc, hread⟩ := Option.bind_eq_some_iff.mp ((getElem?_readings hr i).symm.trans hget)
    obtain ⟨shape, hs⟩ := exists_shape hread happ
    have hsaid := isReading_of_reading hs hread
    exact ⟨c, hc, hget, hsaid.isVarargs.symm, by simp [hs, hsaid.isAbstract]⟩
  constructor
  · refine mapM_map_of_forall fun e he => ?_
    obtain ⟨c, hc, -, hv, -⟩ := hfound e he
    rw [isVarargsAt, readAt_of_some hc, ← hv]
    rfl
  · refine mapM_map_of_forall fun e he => ?_
    obtain ⟨c, hc, hget, hv, ha⟩ := hfound e he
    have hp : (rs.map (·.params))[e.2]? = some e.1.params := by simp [hget]
    rw [overloadAt, readAt_of_some hc, readAt_of_some hp, ok_bind, ok_bind, hv, ha]
    rfl

theorem several_of_not_single {p q : List Nat} (hnone : p = [] → q = [] → False)
    (hleft : ∀ i, p = [i] → q = [] → False) (hright : ∀ i, p = [] → q = [i] → False) :
    1 < p.length + q.length := by
  have hp : p.length = 0 → q.length ≠ 0 := fun hp hq =>
    hnone (List.eq_nil_of_length_eq_zero hp) (List.eq_nil_of_length_eq_zero hq)
  have hl : p.length = 1 → q.length ≠ 0 := fun hp hq => by
    obtain ⟨i, hi⟩ := List.length_eq_one_iff.mp hp
    exact hleft i hi (List.eq_nil_of_length_eq_zero hq)
  have hr : p.length = 0 → q.length ≠ 1 := fun hp hq => by
    obtain ⟨i, hi⟩ := List.length_eq_one_iff.mp hq
    exact hright i (List.eq_nil_of_length_eq_zero hp) hi
  omega

theorem decideByPosition_eq {cs : List Candidate} (hr : env.readings owner m cs = some rs)
    (pick : Picker) : env.decideByPosition pick cs (Buckets.enterAll 0 rs {}) =
      .ok (choose env pick rs) := by
  have hlen : cs.length = rs.length := (readings_eq_some_iff.mp hr).length_eq
  rw [Buckets.enterAll_eq]
  simp only [List.nil_append]
  have hneeds := needsComparison_iff rs
  unfold decideByPosition
  dsimp only
  split
  · rename_i hd hv
    have hnone : applicable rs = [] := by
      rw [← List.map_eq_nil_iff (f := (·.2)), ← hd]
      exact positions_or_of_nil hv
    rw [choose_none_iff.mpr hnone]
    rfl
  · rename_i i hd hv
    rw [hd, hv] at hneeds
    have hone : (applicable rs).map (·.2) = [i] := (positions_or_of_nil hv).trans hd
    rw [choose_of_single hone (by simpa using hneeds)]
    rfl
  · rename_i i hd hv
    rw [hd, hv] at hneeds
    have hone : (applicable rs).map (·.2) = [i] := by
      rw [← hv, ← positions_or_of_nil (q := (·.direct)) hd]
      simp only [applicable, Bool.or_comm]
    rw [choose_of_single hone (by simpa using hneeds)]
    rfl
  · rename_i hnil hdirect hreceiver
    have hmany := hneeds.mpr (several_of_not_single hnil hdirect hreceiver)
    -- The picked overload is read among the narrowed candidates, which all are in range.
    obtain ⟨hflags, hover⟩ := compareByPosition_eq hr
    have hphase : (if ((applicable rs).map (·.1.isVarargs)).any id then Phase.variableArity
        else .fixedArity) = phase rs := by
      rw [List.any_map]
      rfl
    rw [hlen, narrowed_eq, hflags, ok_bind, hphase, hover, ok_bind, choose_of_several hmany]
    cases pick env (overloads rs) (phase rs) with
    | none => rfl
    | some k =>
      by_cases hk : k < ((applicable rs).map (·.2)).length
      · have hget := List.getElem?_eq_getElem hk
        simp only [hk, if_true, readAt_of_some hget, Option.bind_some, hget]
        rfl
      · simp only [hk, if_false, Option.bind_some, List.getElem?_eq_none (Nat.le_of_not_lt hk)]
        rfl

/-! ## The one access out of range -/

/-- A candidate of variable arity declares no parameter, and something is passed to it. -/
structure LacksParam (env : Env) (owner : ClassDecl) (m : MatchInput) (c : Candidate) : Prop where
  isVarargs : c.isVarargs = true
  declares : ∃ shape, env.shapeOf? c.member = some shape ∧ shape.params = []
  reachable : m.isBareTypeName = true → c.isStatic = true ∨ IsFree owner c ∨
    (c.member.isConstructor = true ∧ c.inScope = true)
  passed : m.target.params ≠ []

theorem reading_eq_none_iff (owner : ClassDecl) (m : MatchInput) (c : Candidate) :
    env.reading owner m c = none ↔ env.LacksParam owner m c := by
  unfold reading
  cases hs : env.shapeOf? c.member with
  | none =>
    simp only [reduceCtorEq, false_iff]
    intro h
    obtain ⟨shape, hs', -⟩ := h.declares
    simp [hs] at hs'
  | some shape =>
    simp only [Option.map_eq_none_iff]
    constructor
    · intro hnone
      by_cases hlast : env.HasLastParam c
      · obtain ⟨b, hb⟩ := @exists_readsDirectly env owner m c shape hlast hs
        exact absurd (hnone.symm.trans hb) nofun
      · obtain ⟨hv, hp⟩ : c.isVarargs = true ∧ shape.params = [] := by
          unfold HasLastParam at hlast
          grind
        unfold readsDirectly at hnone
        dsimp only at hnone
        split at hnone
        · rename_i hguard
          refine ⟨hv, ⟨shape, hs, hp⟩, isReachable_iff.mp (Bool.and_eq_true_iff.mp hguard).2, ?_⟩
          intro hnil
          simp [hnil, allAccepted] at hnone
        · cases hnone
    · intro h
      obtain ⟨shape', hs', hp⟩ := h.declares
      obtain rfl : shape = shape' := Option.some.inj (hs.symm.trans hs')
      have hreach := isReachable_iff.mpr h.reachable
      obtain ⟨t, rest, ht⟩ := List.exists_cons_of_ne_nil h.passed
      simp [readsDirectly, hp, h.isVarargs, hreach, inferredParams, ht, allAccepted, paramFor]

theorem readings_eq_none_iff (owner : ClassDecl) (m : MatchInput) (cs : List Candidate) :
    env.readings owner m cs = none ↔ ∃ c ∈ cs, env.LacksParam owner m c := by
  rw [← Option.not_isSome_iff_eq_none, readings_isSome]
  simp [← reading_eq_none_iff]

theorem choiceByPosition_eq (owner : ClassDecl) (m : MatchInput) (pick : Picker)
    (cs : List Candidate) : env.choiceByPosition owner m pick cs =
      orMissing ((env.readings owner m cs).map (choose env pick)) := by
  unfold choiceByPosition
  rw [receiverByPosition_eq, ok_bind, testFrom_eq]
  cases hr : env.readings owner m cs with
  | none => rfl
  | some rs => exact decideByPosition_eq hr pick

end Env

namespace Resolver

variable {ω : Type} {r : Resolver ω} {cx : Context} {q : SearchedClass} {owner : ClassDecl}

/-- Whatever the picker answers, a choice that reads lists by position reads none out of range but
the parameters of a candidate of variable arity that declares none, when there is something to
pass to it. Apart from that it is the choice that a request makes. -/
theorem reads_in_range (ho : cx.env.class? q.id = some owner) (subst : Substitution)
    (t : FunctionType) (cs : List Candidate) :
    let m : MatchInput := ⟨q.id, subst, t, q.isBareTypeName, q.namesType⟩
    let choice := cx.env.choiceByPosition owner m r.picker cs
    (∀ a, choice = .error a ↔ a = .param ∧ ∃ c ∈ cs, cx.env.LacksParam owner m c) ∧
      ∀ s, (r.chooseAmong cx q subst (some t) cs s).1 =
        choice.mapError fun _ => Interrupt.outOfRange := by
  intro m choice
  have hchoice : choice = orMissing ((cx.env.readings owner m cs).map
      (choose cx.env r.picker)) := cx.env.choiceByPosition_eq owner m r.picker cs
  rw [← cx.env.readings_eq_none_iff, hchoice]
  cases hr : cx.env.readings owner m cs with
  | none =>
    refine ⟨fun a => ?_, fun s => ?_⟩
    · simp [orMissing, eq_comm]
    · unfold chooseAmong
      rw [ho]
      simp only [m] at hr
      simp only [hr]
      rfl
  | some rs => exact ⟨fun a => by simp [orMissing], chooseAmong_answer ho hr⟩

end Resolver

namespace Nest

def runAbsorbing (n : Nat) : Candidate := { run n with isVarargs := true }

end Nest

namespace Resolver

/-- The choice reads beyond the parameters of the second candidate. -/
theorem reads_in_range_absorbing :
    let cs := [Nest.stop 1, Nest.runAbsorbing 1]
    (Nest.env 1).class? ⟨1⟩ = some (Nest.innermost 1) ∧
    (Nest.env 1).choiceByPosition (Nest.innermost 1) ⟨⟨1⟩, {}, Nest.target, false, true⟩
      Nest.resolver.picker cs = .error .param ∧
    ∀ s, (Nest.resolver.chooseAmong (Nest.context 1) (Nest.searched 1) {} (some Nest.target) cs
      s).1 = .error .outOfRange := by
  intro cs
  obtain ⟨hreads, hanswer⟩ := @reads_in_range Unit Nest.resolver (Nest.context 1)
    (Nest.searched 1) (Nest.innermost 1) rfl {} Nest.target cs
  have hlacks : (Nest.env 1).LacksParam (Nest.innermost 1) ⟨⟨1⟩, {}, Nest.target, false, true⟩
      (Nest.runAbsorbing 1) := ⟨rfl, ⟨⟨[], [], false⟩, rfl, rfl⟩, nofun, nofun⟩
  have hparam := (hreads .param).mpr ⟨rfl, _, by simp [cs], hlacks⟩
  refine ⟨rfl, hparam, fun s => ?_⟩
  rw [hanswer s]
  exact congrArg (Except.mapError fun _ => Interrupt.outOfRange) hparam

end Resolver

end DoubleColon
