import DoubleColon.Proofs.ChosenPositions
import DoubleColon.Proofs.Interruption
import DoubleColon.Proofs.MethodOrder

/-!
# A target only narrows

The members that a walk reports for the name of a method do not depend on what the reference is
converted to. Without a function type all of them remain; with one, those that a choice falls on,
in the same order. So what a site resolves to under a target is among what it resolves to without
one.
-/

set_option autoImplicit false

namespace DoubleColon

/-! ## Members of a choice -/

def Choice.positions : Choice → List Nat
  | .none => []
  | .unique i => [i]
  | .ambiguous positions => positions

theorem members_resolutionOf (env : Env) (owning : Substitution) (target : Option FunctionType)
    (cs : List Candidate) (choice : Choice) :
    (env.resolutionOf owning target cs choice).1.members =
      (choice.positions.filterMap (cs[·]?)).map (·.member) := by
  cases choice with
  | none => rfl
  | ambiguous positions => rfl
  | unique i =>
    unfold Env.resolutionOf Choice.positions
    cases hi : cs[i]? with
    | none => simp [hi, Resolution.members]
    | some c => simp [hi, Resolution.members, Env.resolveMember]

theorem sublist_of_ascending {β : Type} (l : List β) {positions : List Nat}
    (hp : positions.Pairwise (· < ·)) : (positions.filterMap (l[·]?)).Sublist l := by
  have hfilter : positions.filterMap (l[·]?) =
      (positions.filter (· < l.length)).filterMap (l[·]?) := by
    rw [List.filterMap_filter]
    refine List.filterMap_congr fun i _ => ?_
    by_cases hi : i < l.length <;> simp [hi]
  have hrange : (positions.filter (· < l.length)).Sublist (List.range l.length) := by
    have hasc := hp.sublist (List.filter_sublist (p := (· < l.length)))
    refine List.sublist_of_subperm_of_pairwise ?_ hasc List.pairwise_lt_range
    exact List.subperm_of_subset hasc.nodup fun i hi => by simpa using (List.mem_filter.mp hi).2
  have h := hrange.filterMap (l[·]?)
  rwa [filterMap_range_getElem?, ← hfilter] at h

theorem choose_ascends (env : Env) (pick : Picker) (rs : List Reading) :
    (choose env pick rs).positions.Pairwise (· < ·) := by
  cases h : choose env pick rs with
  | none => exact List.Pairwise.nil
  | unique i => exact List.pairwise_singleton _ i
  | ambiguous positions =>
    rw [positions_of_ambiguous h]
    exact positions_ascend rs

theorem choose_inhabited {env : Env} {pick : Picker} {rs : List Reading}
    (h : choose env pick rs ≠ .none) :
    ∃ i ∈ (choose env pick rs).positions, i < rs.length := by
  have hpos : ∀ i ∈ (applicable rs).map (·.2), i < rs.length := by
    intro i hi
    obtain ⟨r, hr, -⟩ := mem_positions.mp hi
    exact (List.getElem?_eq_some_iff.mp hr).1
  cases hc : choose env pick rs with
  | none => exact absurd hc h
  | unique i =>
    exact ⟨i, List.mem_singleton.mpr rfl, hpos i (mem_positions.mpr (applicable_of_unique hc))⟩
  | ambiguous positions =>
    have hne : (applicable rs).map (·.2) ≠ [] := by
      exact fun hnil => h (choose_none_iff.mpr (List.map_eq_nil_iff.mp hnil))
    obtain ⟨i, rest, hi⟩ := List.exists_cons_of_ne_nil hne
    have hmem : i ∈ (applicable rs).map (·.2) := hi ▸ List.mem_cons_self
    rw [positions_of_ambiguous hc]
    exact ⟨i, hmem, hpos i hmem⟩

namespace Resolver

variable {ω ω' : Type} {r : Resolver ω} {r' : Resolver ω'} {env : Env} {site : Site}
  {text : String}

theorem choiceAmong_ascends {q : SearchedClass} {subst : Substitution}
    {target : Option FunctionType} {cs : List Candidate} {choice : Choice}
    (h : r.choiceAmong env q subst target cs = .ok choice) :
    choice.positions.Pairwise (· < ·) ∧
      (choice ≠ .none → ∃ i ∈ choice.positions, i < cs.length) := by
  unfold choiceAmong at h
  cases target with
  | none =>
    obtain rfl := Except.ok.inj h
    match hn : cs.length with
    | 0 => exact ⟨List.Pairwise.nil, fun h => absurd rfl h⟩
    | 1 => exact ⟨List.pairwise_singleton _ _, fun _ => ⟨0, List.mem_singleton.mpr rfl, by omega⟩⟩
    | n + 2 =>
      exact ⟨List.pairwise_lt_range, fun _ => ⟨0, List.mem_range.mpr (by omega), by omega⟩⟩
  | some t =>
    cases ho : env.class? q.id with
    | none =>
      simp only [ho, Except.ok.injEq] at h
      subst h
      exact ⟨List.Pairwise.nil, fun h => absurd rfl h⟩
    | some owner =>
      simp only [ho] at h
      cases hr : env.readings owner ⟨q.id, subst, t, q.isBareTypeName, q.namesType⟩ cs with
      | none => simp [hr] at h
      | some rs =>
        simp only [hr, Except.ok.injEq] at h
        subst h
        refine ⟨choose_ascends _ _ _, fun hne => ?_⟩
        rw [(Env.readings_eq_some_iff.mp hr).length_eq]
        exact choose_inhabited hne

/-- With the name of a method a site that resolves to something has a list of candidates, which
does not depend on the expected type. -/
theorem exists_candidates (hn : site.name = .ident text) {t : Option Ty} {x : Resolution}
    (h : r.value env site t = .ok x) (hx : x ≠ .empty) :
    ∃ q request choice, env.asks site = true ∧ env.classify site.qualifier = some q ∧
      (env.class? q.id).isSome ∧ env.siteRequest site q q.subst (.methods text) = .ok request ∧
      r.choiceAmong env q q.subst (t.bind env.functionType) (r.walker env request).reported =
        .ok choice ∧
      x = (env.resolutionOf q.subst (t.bind env.functionType) (r.walker env request).reported
        choice).1 := by
  have ha : env.asks site = true := by
    by_contra ha
    rw [value_unasked r (by simpa using ha)] at h
    exact hx (Except.ok.inj h).symm
  obtain ⟨q, hq, hv⟩ := value_classified h hx
  rw [in_class_method hn] at hv
  cases ho : env.class? q.id with
  | none => simp [ho] at hv
  | some owner =>
    simp only [ho] at hv
    cases hreq : env.siteRequest site q q.subst (.methods text) with
    | error e => simp [hreq] at hv
    | ok request =>
      simp only [hreq] at hv
      cases hc : r.choiceAmong env q q.subst (t.bind env.functionType)
          (r.walker env request).reported with
      | error e =>
        rw [hc] at hv
        cases hv
      | ok choice =>
        rw [hc] at hv
        exact ⟨q, request, choice, ha, hq, by simp [ho], hreq, hc,
          (Except.ok.inj (Except.ok.inj hv)).symm⟩

theorem value_untargeted (hn : site.name = .ident text) {q : SearchedClass} {request : WalkRequest}
    (ha : env.asks site = true) (hq : env.classify site.qualifier = some q)
    (ho : (env.class? q.id).isSome)
    (hreq : env.siteRequest site q q.subst (.methods text) = .ok request) :
    let cs := (r.walker env request).reported
    r.value env site none = .ok (env.resolutionOf q.subst none cs (.ofCount cs.length)).1 := by
  intro cs
  obtain ⟨owner, ho⟩ := Option.isSome_iff_exists.mp ho
  unfold value
  rw [ha, hq]
  dsimp only
  rw [in_class_method hn]
  simp only [ho, hreq]
  rfl

theorem positions_ofCount (n : Nat) : (Choice.ofCount n).positions = List.range n := by
  match n with
  | 0 | 1 | n + 2 => rfl

/-- The members under a target are a part of those without one; and there are some, unless nothing
is resolved. -/
theorem value_sublist (hw : r.walker = r'.walker) (hn : site.name = .ident text) {t : Option Ty}
    {x y : Resolution} (hx : r.value env site t = .ok x) (hy : r'.value env site none = .ok y) :
    x.members.Sublist y.members ∧ (x ≠ .empty → x.members ≠ []) := by
  by_cases hempty : x = .empty
  · subst hempty
    exact ⟨List.nil_sublist _, fun h => absurd rfl h⟩
  obtain ⟨q, request, choice, ha, hq, ho, hreq, hc, rfl⟩ := exists_candidates hn hx hempty
  obtain ⟨hasc, hsome⟩ := choiceAmong_ascends hc
  have hall := (value_untargeted hn ha hq ho hreq).symm.trans hy
  obtain rfl := Except.ok.inj hall
  rw [← hw, members_resolutionOf, members_resolutionOf, positions_ofCount, filterMap_range_getElem?]
  refine ⟨(sublist_of_ascending _ hasc).map _, fun _ hnil => ?_⟩
  have hchoice : choice ≠ .none := fun h => hempty (by rw [h]; rfl)
  obtain ⟨i, hi, hlt⟩ := hsome hchoice
  have hmem := List.mem_filterMap.mpr ⟨i, hi, List.getElem?_eq_getElem hlt⟩
  rw [List.map_eq_nil_iff.mp hnil] at hmem
  cases hmem

/-! ## Computations -/

variable {cx : Context} {derive : Site → Request ω (Option Ty)} {source : TargetOrigin}
  {s : Session ω}

/-- A computation that ends with a resolution ends with the value that the site has under the type
it was told to be converted to, if it asks for one. -/
theorem exists_value (hw : ∀ q, (r.walker cx.env q).IsPlain) {x : Resolution}
    (h : (r.resolveOrReport cx derive site source s).1 = .ok x) :
    ∃ t, r.value cx.env site t = .ok x ∧
      (cx.env.asks site = true → (interfaceOf derive site source s).1 = .ok t) := by
  cases ha : cx.env.asks site with
  | false =>
    obtain ⟨host, he⟩ := unasked_apply (r := r) ha derive source s
    rw [he] at h
    exact ⟨none, (value_unasked r ha none).trans h, fun h => by cases h⟩
  | true =>
    rw [asked_apply ha, Request.bind_apply] at h
    rcases hi : interfaceOf derive site source s with ⟨e | t, u⟩
    · rw [hi] at h
      cases h
    · rw [hi] at h
      dsimp only at h
      by_cases hc : u.world.tokens.isCancelled cx.token = true
      · rw [conclusion_cancelled hc] at h
        cases h
      · obtain ⟨host, ts, ⟨he, -⟩ | ⟨he, -⟩⟩ := yields_conclusion hw ha t u (by simpa using hc)
        · rw [he] at h
          exact ⟨t, h, fun _ => rfl⟩
        · rw [he] at h
          cases h

theorem value_of_answered (hw : ∀ q, (r.walker cx.env q).IsPlain) {t : Option Ty}
    (ht : (interfaceOf derive site source s).1 = .ok t) {x : Resolution}
    (h : (r.resolveOrReport cx derive site source s).1 = .ok x) :
    r.value cx.env site t = .ok x := by
  obtain ⟨t', hv, htold⟩ := exists_value hw h
  by_cases ha : cx.env.asks site = true
  · obtain rfl : t' = t := Except.ok.inj ((htold ha).symm.trans ht)
    exact hv
  · have ha : cx.env.asks site = false := by simpa using ha
    rw [value_unasked r ha] at hv ⊢
    exact hv

/-- For a reference with the name of a method, whatever it is converted to, each member it
resolves to is one that it resolves to without a target. If that is a single member, it is the only
one that the reference can resolve to. -/
theorem target_narrows {cx' : Context} (henv : cx'.env = cx.env)
    (hw : r.walker = Env.memberPlan) (hw' : r'.walker = Env.memberPlan)
    (hn : site.name = .ident text) {x y : Resolution}
    (hx : (r.resolveOrReport cx derive site source s).1 = .ok x)
    {derive' : Site → Request ω' (Option Ty)} {source' : TargetOrigin} {s' : Session ω'}
    (hnone : (interfaceOf derive' site source' s').1 = .ok none)
    (hy : (r'.resolveOrReport cx' derive' site source' s').1 = .ok y) :
    (∀ m ∈ x.members, m ∈ y.members) ∧
      ∀ u, y = .unique u → x ≠ .empty → x.members = [u.candidate.member] := by
  have hplain : ∀ q, (r.walker cx.env q).IsPlain := fun q => hw ▸ cx.env.plain_members q
  have hplain' : ∀ q, (r'.walker cx'.env q).IsPlain := fun q => hw' ▸ cx'.env.plain_members q
  obtain ⟨t, hvx, -⟩ := exists_value hplain hx
  have hvy := value_of_answered hplain' hnone hy
  rw [henv] at hvy
  obtain ⟨hsub, hne⟩ := value_sublist (hw.trans hw'.symm) hn hvx hvy
  refine ⟨fun m hm => hsub.subset hm, fun u hu hx => ?_⟩
  subst hu
  rcases List.sublist_singleton.mp hsub with h | h
  · exact absurd h (hne hx)
  · exact h

end Resolver

namespace Boxes

open Standard

def ofInteger : FunctionType :=
  functionOf (.cls ⟨20⟩ [integerTy]) "accept" [integerTy] .void

/-- Of the two methods `add` of a box of integers, one can take an integer. -/
theorem target_narrows_add :
    let site := site (.expr (box integerTy)) "add"
    let found := candidate integerTy 3 false
    let x := (env.resolveMember (holding integerTy) (some ofInteger) found).1
    let y := [found, candidate integerTy 4 false]
    ((expecting ofInteger.interface).resolveOrReport context (fun _ => pure none) site
      (.assumed ofInteger.interface) (.start world)).1 = .ok (.unique x) ∧
    ((default : Resolver Unit).resolveOrReport context (fun _ => pure none) site .untargeted
      (.start world)).1 = .ok (.ambiguous y) ∧
    (∀ m ∈ (Resolution.unique x).members, m ∈ (Resolution.ambiguous y).members) := by
  intro site found x y
  have hx : ((expecting ofInteger.interface).resolveOrReport context (fun _ => pure none) site
      (.assumed ofInteger.interface) (.start world)).1 = .ok (.unique x) := by
    decide +kernel
  have hy : ((default : Resolver Unit).resolveOrReport context (fun _ => pure none) site
      .untargeted (.start world)).1 = .ok (.ambiguous y) := by
    decide +kernel
  exact ⟨hx, hy, (Resolver.target_narrows rfl rfl rfl rfl hx rfl hy).1⟩

end Boxes

end DoubleColon
