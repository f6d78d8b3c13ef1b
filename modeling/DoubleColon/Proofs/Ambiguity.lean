import DoubleColon.Proofs.FaithfulChoices
import DoubleColon.Proofs.Narrowing

/-!
# Ambiguous references

An ambiguous resolution lists members that were compared without a winner. They are different
members. There are several of them, except that a single one can be compared with itself: a
candidate of variable arity may be applicable with and without a receiver, and a picker that is
asked about it alone need not name it.

Candidates of fixed arity that are applicable in different readings declare different numbers of
parameters. None of them is more specific than all others, so that a reference with candidates in
both readings is always ambiguous.
-/

set_option autoImplicit false

namespace DoubleColon

/-! ## A candidate that is left alone -/

/-- A candidate may be passed what the function type passes with and without taking the first of it
for the receiver, and the picker does not name it when there is nothing else to name. -/
structure Picker.LeavesAlone (pick : Picker) (env : Env) (owner : ClassDecl) (m : MatchInput)
    (c : Candidate) (shape : MemberShape) : Prop where
  isVarargs : c.isVarargs = true
  direct : env.AppliesDirectly owner m c shape
  receiver : env.AppliesToReceiver (env.AroundWithin Env.receiverLimit m.owner) owner m c shape
  unnamed : pick env [⟨shape.params.map (m.ownerSubst.updateWith c.subst).apply, true,
    shape.isAbstract⟩] .variableArity ≠ some 0

/-- A choice that is left open names several candidates or one that is left alone. -/
theorem several_or_alone {env : Env} {owner : ClassDecl} {m : MatchInput} {pick : Picker}
    {found : List Candidate} {rs : List Reading} {positions : List Nat}
    (hr : env.readings owner m found = some rs)
    (h : choose env pick rs = .ambiguous positions) :
    2 ≤ (positions.filterMap (found[·]?)).length ∨
      ∃ c shape, positions.filterMap (found[·]?) = [c] ∧ env.shapeOf? c.member = some shape ∧
        pick.LeavesAlone env owner m c shape := by
  have hfound : ∀ e ∈ applicable rs, ∃ c, found[e.2]? = some c ∧
      env.reading owner m c = some e.1 := by
    intro e he
    have hget := (mem_applicable.mp he).1
    rwa [getElem?_readings hr, Option.bind_eq_some_iff] at hget
  obtain ⟨hneeds, hnone⟩ := compared_of_ambiguous h
  obtain rfl := positions_of_ambiguous h
  match happ : applicable rs with
  | [] => simp [choose_none_iff.mpr happ] at h
  | a :: b :: rest =>
    obtain ⟨c, hc, -⟩ := hfound a (by simp [happ])
    obtain ⟨d, hd, -⟩ := hfound b (by simp [happ])
    exact .inl (by simp [hc, hd])
  | [e] =>
    obtain ⟨c, hc, hread⟩ := hfound e (by simp [happ])
    obtain ⟨hdirect, hreceiver⟩ := both_of_single happ hneeds
    obtain ⟨shape, hs⟩ := Env.exists_shape hread (.inl hdirect)
    have hreads := Env.isReading_of_reading hs hread
    have hd := hreads.direct.mp hdirect
    have hr := hreads.receiver.mp hreceiver
    -- With and without a receiver, the numbers of arguments differ.
    have hvar : c.isVarargs = true := by
      have hlonger := hr.arity
      rcases hd.arity with hlen | ⟨hv, -⟩
      · omega
      · exact hv
    refine .inr ⟨c, shape, by simp [hc], hs, hvar, hd, hr, fun hpick => ?_⟩
    have hover : overloads rs = [⟨shape.params.map (m.ownerSubst.updateWith c.subst).apply, true,
        shape.isAbstract⟩] := by
      simp [overloads, happ, hreads.params, hreads.isVarargs, hvar, hreads.isAbstract]
    have hphase : phase rs = .variableArity := by
      simp [phase, happ, hreads.isVarargs, hvar]
    rw [hover, hphase, hpick, happ] at hnone
    cases hnone

/-! ## Ambiguous resolutions -/

theorem Env.length_of_settled {env : Env} {site : Site} {q : SearchedClass} {subst : Substitution}
    {target : Option FunctionType} {cs : List Candidate}
    (h : env.gather site q subst target = .ok (.settled cs)) : cs.length ≤ 1 := by
  obtain ⟨d, -, ⟨t, suits, -, -, -, -, hg⟩ | hg | ⟨filter, request, -, -, hg⟩⟩ := gather_cases h
  · cases hg
    cases suits <;> simp
  · cases hg
    exact Nat.zero_le 1
  · cases hg

theorem Env.choice_of_ambiguous {env : Env} {owning : Substitution}
    {target : Option FunctionType} {found cs : List Candidate} {choice : Choice}
    (h : (env.resolutionOf owning target found choice).1 = .ambiguous cs) :
    ∃ positions, choice = .ambiguous positions ∧ cs = positions.filterMap (found[·]?) := by
  cases choice with
  | none => cases h
  | ambiguous positions => exact ⟨positions, rfl, (Resolution.ambiguous.inj h).symm⟩
  | unique i =>
    unfold resolutionOf at h
    cases hi : found[i]? <;> simp [hi] at h

namespace Resolver

variable {ω : Type} {r : Resolver ω} {cx : Context} {site : Site}

/-- An ambiguous value is a choice among different members that is left open. -/
theorem exists_open_choice (hw : r.walker = Env.memberPlan) {env : Env} {t : Option Ty}
    {cs : List Candidate} (h : r.value env site t = .ok (.ambiguous cs)) :
    let target := t.bind env.functionType
    ∃ q found positions, env.classify site.qualifier = some q ∧
      (found.map Candidate.member).Nodup ∧
      r.choiceAmong env q (env.ownerSubst site q target) target found =
        .ok (.ambiguous positions) ∧
      cs = positions.filterMap (found[·]?) := by
  intro target
  obtain ⟨q, hq, hv⟩ := value_classified h nofun
  refine ⟨q, ?_⟩
  unfold valueInClass at hv
  rcases hg : env.gather site q (env.ownerSubst site q target) target with e | ⟨found⟩ | ⟨request⟩
  · simp [target, hg] at hv
  · simp only [target, hg, Except.ok.injEq] at hv
    obtain ⟨positions, hp, -⟩ := Env.choice_of_ambiguous hv
    have hlen := Env.length_of_settled hg
    match hn : found.length, hlen with
    | 0, _ | 1, _ =>
      rw [hn] at hp
      cases hp
  · simp only [target, hg, hw] at hv
    cases hc : r.choiceAmong env q (env.ownerSubst site q target) target
        (env.memberPlan request).reported with
    | error e =>
      rw [hc] at hv
      cases hv
    | ok choice =>
      rw [hc] at hv
      obtain ⟨positions, rfl, hcs⟩ :=
        Env.choice_of_ambiguous (Except.ok.inj (Except.ok.inj hv))
      exact ⟨_, positions, hq, env.reported_nodup request, hc, hcs⟩

def LeavesAlone (r : Resolver ω) (env : Env) (site : Site) (interface : Ty) (c : Candidate) :
    Prop :=
  ∃ target q owner shape, env.functionType interface = some target ∧
    env.classify site.qualifier = some q ∧ env.class? q.id = some owner ∧
    env.shapeOf? c.member = some shape ∧
    r.picker.LeavesAlone env owner ⟨q.id, env.ownerSubst site q (some target), target,
      q.isBareTypeName, q.namesType⟩ c shape

theorem value_ambiguous (hw : r.walker = Env.memberPlan) {env : Env} {t : Option Ty}
    {cs : List Candidate} (h : r.value env site t = .ok (.ambiguous cs)) :
    (cs.map (·.member)).Nodup ∧ (2 ≤ cs.length ∨
      ∃ interface c, t = some interface ∧ cs = [c] ∧ r.LeavesAlone env site interface c) := by
  obtain ⟨q, found, positions, hq, hnodup, hc, rfl⟩ := exists_open_choice hw h
  refine ⟨hnodup.sublist ((sublist_of_ascending found (choiceAmong_ascends hc).1).map _), ?_⟩
  unfold choiceAmong at hc
  cases ht : t.bind env.functionType with
  | none =>
    simp only [ht, Except.ok.injEq] at hc
    match hn : found.length with
    | 0 | 1 =>
      rw [hn] at hc
      cases hc
    | n + 2 =>
      rw [hn] at hc
      obtain rfl := Choice.ambiguous.inj hc
      rw [← hn, filterMap_range_getElem?, hn]
      exact .inl (Nat.le_add_left 2 n)
  | some target =>
    obtain ⟨interface, rfl, hf⟩ := Option.bind_eq_some_iff.mp ht
    cases ho : env.class? q.id with
    | none => simp [ht, ho] at hc
    | some owner =>
      simp only [ht, ho] at hc
      cases hr : env.readings owner ⟨q.id, env.ownerSubst site q (some target), target,
          q.isBareTypeName, q.namesType⟩ found with
      | none => simp [hr] at hc
      | some rs =>
        simp only [hr, Except.ok.injEq] at hc
        refine (several_or_alone hr hc).imp_right ?_
        rintro ⟨c, shape, hc, hs, halone⟩
        exact ⟨interface, c, rfl, hc, target, q, owner, shape, hf, hq, ho, hs, halone⟩

variable {derive : Site → Request ω (Option Ty)} {source : TargetOrigin} {s : Session ω}

/-- Whatever picker there is, an ambiguous resolution lists different members, and at least two of
them unless there is but one that the picker left alone. -/
theorem ambiguous_members (hw : r.walker = Env.memberPlan) {cs : List Candidate}
    (h : (r.resolveOrReport cx derive site source s).1 = .ok (.ambiguous cs)) :
    (cs.map (·.member)).Nodup ∧ (2 ≤ cs.length ∨
      ∃ interface c, (interfaceOf derive site source s).1 = .ok (some interface) ∧ cs = [c] ∧
        r.LeavesAlone cx.env site interface c) := by
  have hplain : ∀ q, (r.walker cx.env q).IsPlain := fun q => hw ▸ cx.env.plain_members q
  obtain ⟨t, hv, htold⟩ := exists_value hplain h
  obtain ⟨hnodup, hlen⟩ := value_ambiguous hw hv
  refine ⟨hnodup, hlen.imp_right ?_⟩
  rintro ⟨interface, c, rfl, hc, halone⟩
  have ha : cx.env.asks site = true := by
    by_contra ha
    rw [value_unasked r (by simpa using ha)] at hv
    cases hv
  exact ⟨interface, c, htold ha, hc, halone⟩

end Resolver

namespace Boxes

open Standard

def ofBoxAndObject : FunctionType :=
  functionOf (.cls ⟨18⟩ [.cls ⟨26⟩ [], objectTy, objectTy]) "apply" [.cls ⟨26⟩ [], objectTy] objectTy

def rawFirst : Candidate := ⟨.method ⟨26⟩ 2, {}, false, true, true, true⟩

def undecided (t : Ty) : Resolver Unit := { expecting t with picker := fun _ _ _ => none }

/-- The function may pass the box as the receiver or among the objects, and the picker has nothing
to compare `first` with. -/
theorem ambiguous_members_first :
    let site := site (.type (.cls ⟨26⟩ [])) "first"
    let interface := ofBoxAndObject.interface
    ((undecided interface).resolveOrReport context (fun _ => pure none) site (.assumed interface)
      (.start world)).1 = .ok (.ambiguous [rawFirst]) ∧
    ([rawFirst].map (·.member)).Nodup ∧ (undecided interface).LeavesAlone env site interface
      rawFirst := by
  intro site interface
  have hx : ((undecided interface).resolveOrReport context (fun _ => pure none) site
      (.assumed interface) (.start world)).1 = .ok (.ambiguous [rawFirst]) := by
    decide +kernel
  obtain ⟨hnodup, hlen | ⟨t, c, ht, hc, halone⟩⟩ := Resolver.ambiguous_members rfl hx
  · cases hlen
    contradiction
  · obtain rfl : interface = t := Option.some.inj (Except.ok.inj ht)
    obtain rfl : rawFirst = c := List.singleton_inj.mp hc
    exact ⟨hx, hnodup, halone⟩

end Boxes

/-! ## Candidates in both readings -/

section Readings

variable {env : Env} {owner : ClassDecl} {m : MatchInput} {cs : List Candidate} {rs : List Reading}

theorem exists_reading_of_applicable (hlast : ∀ c ∈ cs, env.HasLastParam c)
    (hrs : env.readings owner m cs = some rs) {c : Candidate} (hc : c ∈ cs) {shape : MemberShape}
    (hs : env.shapeOf? c.member = some shape)
    (h : env.IsApplicable (env.AroundWithin Env.receiverLimit m.owner) owner m c) :
    ∃ e ∈ applicable rs, e.1.params.length = shape.params.length := by
  obtain ⟨i, hi⟩ := List.mem_iff_getElem?.mp hc
  obtain ⟨rd, hrd, -⟩ := Env.reading_iff owner m (hlast c hc)
  refine ⟨(rd, i), (applicable_iff hlast hrs).mpr ⟨c, hi, hrd, h⟩, ?_⟩
  rw [(Env.isReading_of_reading hs hrd).params, List.length_map]

theorem isVarargs_of_applicable (hlast : ∀ c ∈ cs, env.HasLastParam c)
    (hrs : env.readings owner m cs = some rs) (hfixed : ∀ c ∈ cs, c.isVarargs = false)
    {e : Reading × Nat} (he : e ∈ applicable rs) : e.1.isVarargs = false := by
  obtain ⟨rd, i⟩ := e
  obtain ⟨c, hi, hread, shape, hs, -⟩ := (applicable_iff hlast hrs).mp he
  rw [(Env.isReading_of_reading hs hread).isVarargs, hfixed c (List.mem_of_getElem? hi)]

/-- What is passed to a candidate of fixed arity directly is one argument less than what is passed
to one that takes the first argument for the receiver. -/
theorem length_ne_of_both {counts : ClassId → Prop} {c d : Candidate} {shape shape' : MemberShape}
    (hfixed : c.isVarargs = false) (hdirect : env.AppliesDirectly owner m c shape)
    (hreceiver : env.AppliesToReceiver counts owner m d shape') :
    shape.params.length ≠ shape'.params.length := by
  have hmore := hreceiver.arity
  rcases hdirect.arity with hlen | ⟨hv, -⟩
  · omega
  · rw [hfixed] at hv
    cases hv

end Readings

namespace Resolver

variable {ω : Type} {r : Resolver ω} {cx : Context} {q : SearchedClass} {owner : ClassDecl}

/-- If among candidates of fixed arity there is one that is applicable without a receiver and one
that is applicable with it, the most specific one does not exist, and the choice names all that
are applicable. -/
theorem both_readings_ambiguous (ho : cx.env.class? q.id = some owner)
    (hp : r.picker = Env.mostSpecific) (subst : Substitution) (t : FunctionType)
    {cs : List Candidate} (hfixed : ∀ c ∈ cs, c.isVarargs = false) :
    let m : MatchInput := ⟨q.id, subst, t, q.isBareTypeName, q.namesType⟩
    let counts := cx.env.AroundWithin Env.receiverLimit q.id
    (∃ c ∈ cs, ∃ shape, cx.env.shapeOf? c.member = some shape ∧
      cx.env.AppliesDirectly owner m c shape) →
    (∃ c ∈ cs, ∃ shape, cx.env.shapeOf? c.member = some shape ∧
      cx.env.AppliesToReceiver counts owner m c shape) →
    ∃ positions : List Nat, (∀ s, (r.chooseAmong cx q subst (some t) cs s).1 =
        .ok (.ambiguous positions)) ∧
      positions.Pairwise (· < ·) ∧
      ∀ i, i ∈ positions ↔ ∃ c, cs[i]? = some c ∧ cx.env.IsApplicable counts owner m c := by
  rintro m counts ⟨c, hc, shape, hs, hdirect⟩ ⟨d, hd, shape', hs', hreceiver⟩
  have hlast : ∀ c ∈ cs, cx.env.HasLastParam c := fun c hc _ _ hv => by simp [hfixed c hc] at hv
  obtain ⟨rs, hrs⟩ := readings_total owner m hlast
  obtain ⟨a, ha, halen⟩ := exists_reading_of_applicable hlast hrs hc hs ⟨shape, hs, .inl hdirect⟩
  obtain ⟨b, hb, hblen⟩ :=
    exists_reading_of_applicable hlast hrs hd hs' ⟨shape', hs', .inr hreceiver⟩
  have hne : a.1.params.length ≠ b.1.params.length := by
    rw [halen, hblen]
    exact length_ne_of_both (hfixed c hc) hdirect hreceiver
  refine ⟨(applicable rs).map (·.2), fun s => ?_, positions_ascend rs, position_iff hlast hrs⟩
  rw [chooseAmong_answer ho hrs, hp, Env.choose_of_length_ne cx.env
    (fun e he => isVarargs_of_applicable hlast hrs hfixed he) ha hb hne]

end Resolver

namespace Standard

open Env

def integerTexts : List Candidate :=
  [⟨.method integer 4, {}, true, true, false, true⟩, ⟨.method object 2, {}, false, true, false, true⟩]

def integerToString : FunctionType :=
  ⟨.cls function [integerTy, stringTy], ⟨"apply", [integerTy], stringTy⟩⟩

/-- `Integer::toString` is ambiguous: the integer may be converted or asked. -/
theorem both_readings_ambiguous_integer :
    let q : SearchedClass := ⟨integer, {}, false, false, true⟩
    let m : MatchInput := ⟨integer, {}, integerToString, false, true⟩
    let counts := standard.AroundWithin receiverLimit integer
    (∃ c ∈ integerTexts, ∃ shape, standard.shapeOf? c.member = some shape ∧
      standard.AppliesDirectly integerDecl m c shape) ∧
    (∃ c ∈ integerTexts, ∃ shape, standard.shapeOf? c.member = some shape ∧
      standard.AppliesToReceiver counts integerDecl m c shape) ∧
    ∃ positions : List Nat, (∀ s, ((default : Resolver Unit).chooseAmong
        ⟨standard, false, ⟨0⟩, ⟨0⟩⟩ q {} (some integerToString) integerTexts s).1 =
          .ok (.ambiguous positions)) ∧
      positions.Pairwise (· < ·) ∧ ∀ i, i ∈ positions ↔
        ∃ c, integerTexts[i]? = some c ∧ standard.IsApplicable counts integerDecl m c := by
  intro q m counts
  have hdirect : ∃ c ∈ integerTexts, ∃ shape, standard.shapeOf? c.member = some shape ∧
      standard.AppliesDirectly integerDecl m c shape :=
    ⟨_, List.mem_cons_self, ⟨[], [int], false⟩, rfl,
      readsDirectly_eq_true_iff.mp (by decide +kernel)⟩
  have hreceiver : ∃ c ∈ integerTexts, ∃ shape, standard.shapeOf? c.member = some shape ∧
      standard.AppliesToReceiver counts integerDecl m c shape :=
    ⟨_, List.mem_cons_of_mem _ List.mem_cons_self, ⟨[], [], false⟩, rfl,
      (readsWithReceiver_iff (m := m)).mp (by decide +kernel)⟩
  exact ⟨hdirect, hreceiver, Resolver.both_readings_ambiguous (q := q) rfl rfl {} integerToString
    (by decide) hdirect hreceiver⟩

end Standard

end DoubleColon
