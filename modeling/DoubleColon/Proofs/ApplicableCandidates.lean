import DoubleColon.Applicability

/-!
# Which candidates are applicable

The conditions under which a candidate is applicable, said without the tests that decide them: the
numbers of parameters fit, the member is reachable, and each argument is assignable to the
parameter at its position, or to the elements of the last parameter if that may absorb it. Type
parameters that are open in a candidate's parameters stand for what the arguments imply.

A receiver is looked for in the class that is searched and in the classes around it. How far the
search goes is a parameter of the conditions, since the test stops after so many classes.

The tests of a candidate decide these conditions.
-/

set_option autoImplicit false

namespace DoubleColon

namespace Env

/-! ## The conditions -/

/-- An argument may be passed at a position. In a candidate of variable arity the last parameter
takes all further arguments, either as they are or as its elements. -/
def TakesAt (env : Env) (params : List Ty) (isVarargs : Bool) (i : Nat) (arg : Ty) : Prop :=
  if isVarargs = true ∧ params.length ≤ i + 1 then
    ∃ p, params.getLast? = some p ∧
      (env.isAssignable p arg = true ∨ ∃ e, p = .array e ∧ env.isAssignable e arg = true)
  else ∃ p, params[i]? = some p ∧ env.isAssignable p arg = true

def Takes (env : Env) (params : List Ty) (isVarargs : Bool) (args : List Ty) : Prop :=
  ∀ i arg, args[i]? = some arg → env.TakesAt params isVarargs i arg

def outward (env : Env) : Nat → ClassId → Option ClassId
  | 0, c => some c
  | n + 1, c => ((env.class? c).bind (·.outer)).bind (env.outward n)

def AroundWithin (env : Env) (limit : Nat) (owner c : ClassId) : Prop :=
  ∃ n < limit, env.outward n owner = some c

/-- A value of the type may be the receiver of a member of a class: it is an instance of the class
or of one around it that counts, and where both sides have type arguments for the class these are
the same. -/
structure MayReceive (env : Env) (counts : ClassId → Prop) (t : Ty) (owner : ClassId)
    (subst : Substitution) : Prop where
  hasClass : (env.classOf? (env.withoutWildcards t)).isSome
  inherits : ∃ c, counts c ∧ (env.asSuper (env.withoutWildcards t) c).isSome
  agrees : ∀ id args d, env.asSuper (env.withoutWildcards t) owner = some (.cls id args) →
    env.class? owner = some d → args ≠ [] → subst.isEmpty = false →
      Substitution.ofArgs d args = subst

def passedTypes (env : Env) (m : MatchInput) (c : Candidate) : List Ty :=
  m.target.params.map fun t => (m.ownerSubst.updateWith c.subst).apply (env.withoutWildcards t)

def formalTypes (env : Env) (owner : ClassDecl) (m : MatchInput) (c : Candidate)
    (shape : MemberShape) (args : List Ty) : List Ty :=
  let subst := m.ownerSubst.updateWith c.subst
  env.inferredParams (openParams owner c shape subst) (shape.params.map subst.apply) args
    c.isVarargs

def IsFree (owner : ClassDecl) (c : Candidate) : Prop :=
  c.member.isConstructor = true ∧ (owner.outer = none ∨ owner.isStatic = true)

structure AppliesDirectly (env : Env) (owner : ClassDecl) (m : MatchInput) (c : Candidate)
    (shape : MemberShape) : Prop where
  arity : m.target.params.length = shape.params.length ∨
    (c.isVarargs = true ∧ shape.params.length ≤ m.target.params.length + 1)
  reachable : m.isBareTypeName = true → c.isStatic = true ∨ IsFree owner c ∨
    (c.member.isConstructor = true ∧ c.inScope = true)
  takes : env.Takes (env.formalTypes owner m c shape (env.passedTypes m c)) c.isVarargs
    (env.passedTypes m c)

structure AppliesToReceiver (env : Env) (counts : ClassId → Prop) (owner : ClassDecl)
    (m : MatchInput) (c : Candidate) (shape : MemberShape) : Prop where
  namesType : m.namesType = true
  receiver : ∃ t rest, m.target.params = t :: rest ∧ env.MayReceive counts t m.owner m.ownerSubst
  arity : m.target.params.length = shape.params.length + 1
  notStatic : c.isStatic = false
  notFree : ¬IsFree owner c
  takes : env.Takes (env.formalTypes owner m c shape (env.passedTypes m c).tail) c.isVarargs
    (env.passedTypes m c).tail

def IsApplicable (env : Env) (counts : ClassId → Prop) (owner : ClassDecl) (m : MatchInput)
    (c : Candidate) : Prop :=
  ∃ shape, env.shapeOf? c.member = some shape ∧
    (env.AppliesDirectly owner m c shape ∨ env.AppliesToReceiver counts owner m c shape)

def HasLastParam (env : Env) (c : Candidate) : Prop :=
  ∀ shape, env.shapeOf? c.member = some shape → c.isVarargs = true → shape.params ≠ []

/-! ## Passing arguments -/

variable {env : Env} {params args : List Ty} {isVarargs : Bool}

theorem takesArg_iff {p arg : Ty} {absorb : Bool} : env.takesArg p arg absorb = true ↔
    env.isAssignable p arg = true ∨
      (absorb = true ∧ ∃ e, p = .array e ∧ env.isAssignable e arg = true) := by
  unfold takesArg
  cases p <;> simp [Ty.component?]

theorem takesArg_paramFor {i : Nat} {p arg : Ty} {absorb : Bool}
    (h : paramFor params isVarargs i = some (p, absorb)) :
    env.takesArg p arg absorb = true ↔ env.TakesAt params isVarargs i arg := by
  unfold paramFor at h
  unfold TakesAt
  by_cases hlast : isVarargs = true ∧ params.length ≤ i + 1
  · by_cases hne : 0 < params.length
    · simp only [hlast, hne, decide_true, Bool.and_self, if_true, Option.map_eq_some_iff,
        Prod.mk.injEq] at h
      obtain ⟨p', hp, rfl, rfl⟩ := h
      simp [takesArg_iff, hlast, hp]
    · have hnil : params = [] := by simpa using hne
      simp [hnil] at h
  · have hfix : (isVarargs && decide (0 < params.length) && decide (params.length ≤ i + 1)) =
        false := by
      by_cases hv : isVarargs = true
      · have hi : ¬params.length ≤ i + 1 := fun hi => hlast ⟨hv, hi⟩
        simp [hi]
      · simp [hv]
    simp only [hfix, Bool.false_eq_true, if_false, Option.map_eq_some_iff, Prod.mk.injEq] at h
    obtain ⟨p', hp, rfl, rfl⟩ := h
    simp [takesArg_iff, hlast, hp]

theorem paramFor_isSome {i : Nat} (h : (isVarargs = true ∧ params ≠ []) ∨ i < params.length) :
    ∃ e, paramFor params isVarargs i = some e := by
  unfold paramFor
  by_cases hi : i < params.length
  · split
    · have hne : params ≠ [] := List.ne_nil_of_length_pos (by omega)
      exact ⟨_, by rw [List.getLast?_eq_some_getLast hne]; rfl⟩
    · exact ⟨_, by rw [List.getElem?_eq_getElem hi]; rfl⟩
  · obtain ⟨hv, hne⟩ := h.resolve_right hi
    have hpos : 0 < params.length := List.length_pos_iff.mpr hne
    have hle : params.length ≤ i + 1 := by omega
    exact ⟨_, by simp only [hv, hpos, hle, decide_true, Bool.and_self, if_true,
      List.getLast?_eq_some_getLast hne]; rfl⟩

theorem takes_cons {i : Nat} {arg : Ty} {rest : List Ty} :
    (∀ j a, (arg :: rest)[j]? = some a → env.TakesAt params isVarargs (i + j) a) ↔
      env.TakesAt params isVarargs i arg ∧
        ∀ j a, rest[j]? = some a → env.TakesAt params isVarargs (i + 1 + j) a := by
  constructor
  · intro h
    refine ⟨h 0 arg rfl, fun j a ha => ?_⟩
    rw [Nat.add_assoc, Nat.add_comm 1 j]
    exact h (j + 1) a ha
  · rintro ⟨h, hr⟩ j a ha
    cases j with
    | zero =>
      obtain rfl : arg = a := by simpa using ha
      exact h
    | succ j =>
      rw [Nat.add_comm j 1, ← Nat.add_assoc]
      exact hr j a ha

/-- As long as there is a parameter for each argument, the test has an answer. -/
theorem exists_allAccepted {i : Nat}
    (h : (isVarargs = true ∧ params ≠ []) ∨ i + args.length ≤ params.length) :
    ∃ b, env.allAccepted params isVarargs i args = some b := by
  induction args generalizing i with
  | nil => exact ⟨true, rfl⟩
  | cons arg rest ih =>
    have hi : (isVarargs = true ∧ params ≠ []) ∨ i < params.length :=
      h.imp_right fun h => by rw [List.length_cons] at h; omega
    have hrest : (isVarargs = true ∧ params ≠ []) ∨ i + 1 + rest.length ≤ params.length :=
      h.imp_right fun h => by rw [List.length_cons] at h; omega
    obtain ⟨⟨p, absorb⟩, hp⟩ := paramFor_isSome hi
    unfold allAccepted
    simp only [hp]
    split
    · exact ih hrest
    · exact ⟨false, rfl⟩

theorem TakesAt.exists_param {i : Nat} {arg : Ty} (h : env.TakesAt params isVarargs i arg) :
    ∃ e, paramFor params isVarargs i = some e := by
  refine paramFor_isSome ?_
  unfold TakesAt at h
  split at h
  · rename_i hlast
    obtain ⟨p, hp, -⟩ := h
    exact .inl ⟨hlast.1, fun hnil => by simp [hnil] at hp⟩
  · obtain ⟨p, hp, -⟩ := h
    exact .inr (List.getElem?_eq_some_iff.mp hp).1

/-- The test is passed exactly if each argument may be passed at its position. -/
theorem allAccepted_eq_true_iff {i : Nat} : env.allAccepted params isVarargs i args = some true ↔
    ∀ j arg, args[j]? = some arg → env.TakesAt params isVarargs (i + j) arg := by
  induction args generalizing i with
  | nil => simp [allAccepted]
  | cons arg rest ih =>
    rw [takes_cons, ← ih, allAccepted]
    cases hp : paramFor params isVarargs i with
    | none =>
      have hno : ¬env.TakesAt params isVarargs i arg := fun h => by
        obtain ⟨e, he⟩ := h.exists_param
        rw [hp] at he
        cases he
      simp [hno]
    | some e =>
      obtain ⟨p, absorb⟩ := e
      rw [← @takesArg_paramFor env _ _ _ _ arg _ hp]
      cases ht : env.takesArg p arg absorb <;> simp [ht]

theorem restAccepted_iff (h : args.length = params.length) :
    env.restAccepted params isVarargs args = true ↔ env.Takes params isVarargs args := by
  have hget : ∀ {i p arg}, params[i]? = some p → args[i]? = some arg →
      (env.takesArg p arg (isVarargs && decide (i + 1 = params.length)) = true ↔
        env.TakesAt params isVarargs i arg) := by
    intro i p arg hp ha
    obtain ⟨hi, -⟩ := List.getElem?_eq_some_iff.mp hp
    refine takesArg_paramFor ?_
    unfold paramFor
    by_cases hlast : i + 1 = params.length
    · have hpos : 0 < params.length := by omega
      cases isVarargs with
      | false => simp [hp]
      | true =>
        have hl : params.getLast? = some p := by
          rw [List.getLast?_eq_getElem?, ← hp]
          congr 1
          omega
        simp [hlast, hpos, hl]
    · have hle : ¬params.length ≤ i + 1 := by omega
      simp [hlast, hle, hp]
  unfold restAccepted Takes
  simp only [List.all_eq_true, List.mem_zipIdx_iff_getElem?, Prod.forall, List.getElem?_zip_eq_some,
    and_imp]
  constructor
  · intro hall i arg ha
    obtain ⟨hi, -⟩ := List.getElem?_eq_some_iff.mp ha
    have hp : params[i]? = some params[i] := List.getElem?_eq_getElem (by omega)
    exact (hget hp ha).mp (hall _ _ _ hp ha)
  · intro htakes p arg i hp ha
    exact (hget hp ha).mpr (htakes i arg ha)

/-! ## Receivers -/

variable {owner : ClassDecl} {m : MatchInput} {c : Candidate} {shape : MemberShape}

theorem isReceiverWithin_iff {t : Ty} {id : ClassId} (hid : env.asSuper t id = none)
    (subst : Substitution) (n : Nat) (current : ClassId) :
    env.isReceiverWithin t id subst n current = true ↔
      ∃ k < n, ∃ c, env.outward k current = some c ∧ (env.asSuper t c).isSome := by
  induction n generalizing current with
  | zero => simp [isReceiverWithin]
  | succ n ih =>
    unfold isReceiverWithin
    cases hs : env.asSuper t current with
    | some seen =>
      have hne : current ≠ id := fun he => by simp [he, hid] at hs
      have hnear : ∃ k < n + 1, ∃ c, env.outward k current = some c ∧ (env.asSuper t c).isSome :=
        ⟨0, Nat.succ_pos n, current, rfl, by simp [hs]⟩
      simp only [bne_iff_ne.mpr hne, Bool.true_or, hnear]
    | none =>
      constructor
      · intro h
        cases ho : (env.class? current).bind (·.outer) with
        | none => simp [ho] at h
        | some outer =>
          simp only [ho] at h
          obtain ⟨k, hk, c, hc, hseen⟩ := (ih outer).mp h
          refine ⟨k + 1, Nat.succ_lt_succ hk, c, ?_, hseen⟩
          rw [outward, ho]
          exact hc
      · rintro ⟨k, hk, c, hc, hseen⟩
        cases k with
        | zero =>
          obtain rfl : current = c := by simpa [outward] using hc
          simp [hs] at hseen
        | succ k =>
          rw [outward] at hc
          obtain ⟨outer, ho, hc⟩ := Option.bind_eq_some_iff.mp hc
          simp only [ho]
          exact (ih outer).mpr ⟨k, Nat.lt_of_succ_lt_succ hk, c, hc, hseen⟩

theorem isReceiver_iff {t : Ty} {id : ClassId} {subst : Substitution} :
    env.isReceiver t id subst = true ↔
      env.MayReceive (env.AroundWithin receiverLimit id) t id subst := by
  unfold isReceiver
  dsimp only
  rw [Bool.and_eq_true]
  cases hid : env.asSuper (env.withoutWildcards t) id with
  | none =>
    rw [isReceiverWithin_iff hid]
    constructor
    · rintro ⟨hclass, k, hk, c, hc, hseen⟩
      exact ⟨hclass, ⟨c, ⟨k, hk, hc⟩, hseen⟩, fun _ _ _ h => by simp [hid] at h⟩
    · rintro ⟨hclass, ⟨c, ⟨k, hk, hc⟩, hseen⟩, -⟩
      exact ⟨hclass, k, hk, c, hc, hseen⟩
  | some seen =>
    -- The class itself comes first, so that nothing but the type arguments is left to test.
    have htest : env.isReceiverWithin (env.withoutWildcards t) id subst receiverLimit id = true ↔
        ∀ c args d, seen = .cls c args → env.class? id = some d → args ≠ [] →
          subst.isEmpty = false → Substitution.ofArgs d args = subst := by
      unfold receiverLimit isReceiverWithin
      simp only [hid, bne_self_eq_false, Bool.false_or, Bool.or_eq_true]
      cases hsubst : subst.isEmpty with
      | true => simp
      | false =>
        cases seen with
        | cls c args =>
          cases env.class? id with
          | none => simp
          | some d =>
            simp only [Bool.false_eq_true, false_or, Bool.or_eq_true, List.isEmpty_iff,
              decide_eq_true_eq]
            constructor
            · rintro h _ _ _ ⟨⟩ ⟨⟩ hne -
              exact h.resolve_left hne
            · intro h
              by_cases hne : args = []
              · exact .inl hne
              · exact .inr (h c args d rfl rfl hne trivial)
        | _ => simp
    rw [htest]
    constructor
    · rintro ⟨hclass, hagrees⟩
      refine ⟨hclass, ⟨id, ⟨0, by decide, rfl⟩, by simp [hid]⟩, fun c args d h => ?_⟩
      exact hagrees c args d (Option.some.inj (hid.symm.trans h))
    · rintro ⟨hclass, -, hagrees⟩
      exact ⟨hclass, fun c args d h => hagrees c args d (h ▸ hid)⟩

/-! ## The tests decide the conditions -/

theorem length_inferredParams (isOpen : List TypeVar) (params args : List Ty) (isVarargs : Bool) :
    (env.inferredParams isOpen params args isVarargs).length = params.length := by
  unfold inferredParams
  split
  · rfl
  · exact List.length_map _

theorem length_formalTypes (args : List Ty) :
    (env.formalTypes owner m c shape args).length = shape.params.length := by
  unfold formalTypes
  rw [length_inferredParams, List.length_map]

theorem length_passedTypes : (env.passedTypes m c).length = m.target.params.length :=
  List.length_map _

theorem isFreeConstructor_iff : isFreeConstructor owner c = true ↔ IsFree owner c := by
  simp [isFreeConstructor, IsFree]

theorem isReachable_iff : isReachable owner m c = true ↔
    (m.isBareTypeName = true → c.isStatic = true ∨ IsFree owner c ∨
      (c.member.isConstructor = true ∧ c.inScope = true)) := by
  unfold isReachable
  rw [← isFreeConstructor_iff]
  cases m.isBareTypeName <;> simp [or_assoc]

theorem exists_readsDirectly (hc : env.HasLastParam c) (hs : env.shapeOf? c.member = some shape) :
    let subst := m.ownerSubst.updateWith c.subst
    ∃ b, env.readsDirectly owner m c (openParams owner c shape subst)
        (shape.params.map subst.apply) (env.passedTypes m c) = some b := by
  intro subst
  unfold readsDirectly
  simp only [length_passedTypes, List.length_map]
  split
  · rename_i hguard
    simp only [Bool.and_eq_true, Bool.or_eq_true, decide_eq_true_eq] at hguard
    refine exists_allAccepted ?_
    rw [length_inferredParams, List.length_map, length_passedTypes]
    rcases hguard.1 with hlen | ⟨hv, -⟩
    · exact .inr (by omega)
    · refine .inl ⟨hv, fun hnil => hc shape hs hv ?_⟩
      have hlen := env.length_inferredParams (openParams owner c shape subst)
        (shape.params.map subst.apply) (env.passedTypes m c) c.isVarargs
      rw [hnil, List.length_map] at hlen
      exact List.length_eq_zero_iff.mp hlen.symm
  · exact ⟨false, rfl⟩

/-- The test of the direct reading is passed exactly if the candidate is applicable in it. -/
theorem readsDirectly_eq_true_iff :
    let subst := m.ownerSubst.updateWith c.subst
    env.readsDirectly owner m c (openParams owner c shape subst)
        (shape.params.map subst.apply) (env.passedTypes m c) = some true ↔
      env.AppliesDirectly owner m c shape := by
  intro subst
  unfold readsDirectly
  simp only [length_passedTypes, List.length_map]
  constructor
  · intro h
    split at h
    · rename_i hguard
      simp only [Bool.and_eq_true, Bool.or_eq_true, decide_eq_true_eq] at hguard
      exact ⟨hguard.1, isReachable_iff.mp hguard.2,
        fun i arg ha => Nat.zero_add i ▸ allAccepted_eq_true_iff.mp h i arg ha⟩
    · cases h
  · intro h
    rw [if_pos]
    · exact allAccepted_eq_true_iff.mpr fun j arg ha =>
        (Nat.zero_add j).symm ▸ h.takes j arg ha
    · simpa [isReachable_iff.mpr h.reachable] using h.arity

theorem hasReceiver_iff : env.hasReceiver m = true ↔ m.namesType = true ∧
    ∃ t rest, m.target.params = t :: rest ∧
      env.MayReceive (env.AroundWithin receiverLimit m.owner) t m.owner m.ownerSubst := by
  unfold hasReceiver
  rw [Bool.and_eq_true]
  refine and_congr_right fun _ => ?_
  cases m.target.params with
  | nil => simp
  | cons t rest => simp [isReceiver_iff]

theorem readsWithReceiver_iff :
    let subst := m.ownerSubst.updateWith c.subst
    env.readsWithReceiver owner m c (openParams owner c shape subst)
        (shape.params.map subst.apply) (env.passedTypes m c) = true ↔
      env.AppliesToReceiver (env.AroundWithin receiverLimit m.owner) owner m c shape := by
  intro subst
  have htakes : m.target.params.length = shape.params.length + 1 →
      (env.restAccepted (env.formalTypes owner m c shape (env.passedTypes m c).tail) c.isVarargs
          (env.passedTypes m c).tail = true ↔
        env.Takes (env.formalTypes owner m c shape (env.passedTypes m c).tail) c.isVarargs
          (env.passedTypes m c).tail) := by
    intro harity
    apply restAccepted_iff
    rw [length_formalTypes, List.length_tail, length_passedTypes, harity]
    rfl
  unfold readsWithReceiver
  simp only [length_passedTypes, List.length_map, Bool.and_eq_true, hasReceiver_iff,
    decide_eq_true_eq, Bool.not_eq_true', Bool.or_eq_false_iff]
  constructor
  · rintro ⟨⟨⟨⟨hnames, hrec⟩, harity⟩, hstatic, hfree⟩, hall⟩
    have hnot : ¬IsFree owner c := by
      rw [← isFreeConstructor_iff, hfree]
      decide
    exact ⟨hnames, hrec, harity, hstatic, hnot, (htakes harity).mp hall⟩
  · intro h
    have hfree : isFreeConstructor owner c = false := by
      rw [Bool.eq_false_iff]
      exact fun hf => h.notFree (isFreeConstructor_iff.mp hf)
    exact ⟨⟨⟨⟨h.namesType, h.receiver⟩, h.arity⟩, h.notStatic, hfree⟩, (htakes h.arity).mpr h.takes⟩

/-! ## What a reading says -/

variable {rd : Reading}

structure IsReading (env : Env) (owner : ClassDecl) (m : MatchInput) (c : Candidate)
    (shape : MemberShape) (rd : Reading) : Prop where
  direct : rd.direct = true ↔ env.AppliesDirectly owner m c shape
  receiver : rd.receiver = true ↔
    env.AppliesToReceiver (env.AroundWithin receiverLimit m.owner) owner m c shape
  params : rd.params = shape.params.map (m.ownerSubst.updateWith c.subst).apply
  isVarargs : rd.isVarargs = c.isVarargs
  isAbstract : rd.isAbstract = shape.isAbstract

theorem isReading_of_reading (hs : env.shapeOf? c.member = some shape)
    (h : env.reading owner m c = some rd) : env.IsReading owner m c shape rd := by
  unfold reading at h
  simp only [hs] at h
  obtain ⟨direct, hd, rfl⟩ := Option.map_eq_some_iff.mp h
  have hdirect : direct = true ↔ env.AppliesDirectly owner m c shape := by
    refine Iff.trans ?_ readsDirectly_eq_true_iff
    exact ⟨fun h => h ▸ hd, fun h => Option.some.inj (hd.symm.trans h)⟩
  exact ⟨hdirect, readsWithReceiver_iff, rfl, rfl, rfl⟩

theorem reading_iff (owner : ClassDecl) (m : MatchInput) (hc : env.HasLastParam c) :
    ∃ rd, env.reading owner m c = some rd ∧ ((rd.direct = true ∨ rd.receiver = true) ↔
      env.IsApplicable (env.AroundWithin receiverLimit m.owner) owner m c) := by
  cases hs : env.shapeOf? c.member with
  | none =>
    refine ⟨_, by unfold reading; rw [hs], ?_⟩
    simp [IsApplicable, hs]
  | some shape =>
    obtain ⟨b, hb⟩ := @exists_readsDirectly env owner m c shape hc hs
    obtain ⟨rd, hrd⟩ : ∃ rd, env.reading owner m c = some rd :=
      ⟨_, by unfold reading; rw [hs]; exact congrArg (Option.map _) hb⟩
    have hsaid := isReading_of_reading hs hrd
    have happ : env.IsApplicable (env.AroundWithin receiverLimit m.owner) owner m c ↔
        env.AppliesDirectly owner m c shape ∨
          env.AppliesToReceiver (env.AroundWithin receiverLimit m.owner) owner m c shape := by
      simp [IsApplicable, hs]
    exact ⟨rd, hrd, (or_congr hsaid.direct hsaid.receiver).trans happ.symm⟩

theorem exists_shape (h : env.reading owner m c = some rd)
    (happ : rd.direct = true ∨ rd.receiver = true) :
    ∃ shape, env.shapeOf? c.member = some shape := by
  unfold reading at h
  cases hs : env.shapeOf? c.member with
  | some shape => exact ⟨shape, rfl⟩
  | none =>
    simp only [hs, Option.some.injEq] at h
    subst h
    simp at happ

end Env

end DoubleColon
