import Mathlib.Data.List.Forall2
import DoubleColon.Env.Standard
import DoubleColon.Proofs.FreshRequests
import DoubleColon.Proofs.ReportedMethods

/-!
# What a reference to a method comes to

A site with the name of a method is always resolved by way of a walk. `Resolver.in_class_method`
is its value as a choice among the reported methods; the other lemmas read off what must have
happened if the choice fell on one of them.
-/

set_option autoImplicit false

namespace DoubleColon

/-! ## Choices -/

theorem Env.readings_eq_some_iff {env : Env} {owner : ClassDecl} {m : MatchInput}
    {cs : List Candidate} {rs : List Reading} : env.readings owner m cs = some rs ↔
      List.Forall₂ (fun c r => env.reading owner m c = some r) cs rs := by
  induction cs generalizing rs with
  | nil => cases rs <;> simp [readings]
  | cons c rest ih =>
    cases rs with
    | nil =>
      simp only [readings, List.forall₂_nil_right_iff, reduceCtorEq, iff_false]
      split <;> simp
    | cons r rs =>
      rw [List.forall₂_cons, ← ih]
      simp only [readings]
      split
      · rename_i hr
        simp [hr]
      · rename_i r' hr
        simp [hr, and_comm]

theorem Env.readings_isSome {env : Env} {owner : ClassDecl} {m : MatchInput}
    {cs : List Candidate} : (env.readings owner m cs).isSome ↔
      ∀ c ∈ cs, (env.reading owner m c).isSome := by
  induction cs with
  | nil => simp [readings]
  | cons c rest ih =>
    simp only [readings, List.forall_mem_cons, ← ih]
    cases env.reading owner m c <;> simp

def Env.paired (env : Env) (owner : ClassDecl) (m : MatchInput) (cs : List Candidate) :
    List (Candidate × Reading) :=
  cs.filterMap fun c => (env.reading owner m c).map fun r => (c, r)

theorem Env.paired_of_readings {env : Env} {owner : ClassDecl} {m : MatchInput}
    {cs : List Candidate} {rs : List Reading} (h : env.readings owner m cs = some rs) :
    (env.paired owner m cs).map Prod.fst = cs ∧ (env.paired owner m cs).map Prod.snd = rs := by
  have hall := readings_eq_some_iff.mp h
  clear h
  induction hall with
  | nil => exact ⟨rfl, rfl⟩
  | cons hr _ ih => simpa [paired, hr] using ih

theorem mem_applicable {rs : List Reading} {r : Reading} {i : Nat} :
    (r, i) ∈ applicable rs ↔ rs[i]? = some r ∧ (r.direct = true ∨ r.receiver = true) := by
  simp [applicable, List.mem_zipIdx_iff_getElem?]

theorem applicable_of_unique {env : Env} {pick : Picker} {rs : List Reading} {i : Nat}
    (h : choose env pick rs = .unique i) :
    ∃ r, rs[i]? = some r ∧ (r.direct = true ∨ r.receiver = true) := by
  have hmem : ∀ k ∈ (applicable rs).map (·.2),
      ∃ r, rs[k]? = some r ∧ (r.direct = true ∨ r.receiver = true) := by
    intro k hk
    obtain ⟨⟨r, j⟩, hr, rfl⟩ := List.mem_map.mp hk
    exact ⟨r, mem_applicable.mp hr⟩
  unfold choose at h
  split at h
  · cases h
  · rename_i r k rest happ
    rw [happ] at hmem
    split at h
    · dsimp only at h
      split at h
      · rename_i winner hw
        obtain rfl : winner = i := by simpa using h
        obtain ⟨p, -, hp⟩ := Option.bind_eq_some_iff.mp hw
        exact hmem winner (List.mem_of_getElem? hp)
      · cases h
    · obtain rfl : k = i := by simpa using h
      exact hmem k (by simp)

/-! ## Methods and their types -/

theorem Env.exists_of_method {env : Env} {m : Member} {d : MethodDecl}
    (h : env.methodOf? m = some d) :
    ∃ c i o, m = .method c i ∧ env.class? c = some o ∧ o.methods[i]? = some d := by
  cases m with
  | method c i =>
    obtain ⟨o, ho, hi⟩ := Option.bind_eq_some_iff.mp h
    exact ⟨c, i, o, rfl, ho, hi⟩
  | constructor c i | implicitConstructor c => cases h

theorem Env.shapeOf?_of_method {env : Env} {m : Member} {d : MethodDecl}
    (h : env.methodOf? m = some d) :
    env.shapeOf? m = some ⟨d.typeParams, d.params, d.isAbstract⟩ := by
  obtain ⟨c, i, o, rfl, -, -⟩ := exists_of_method h
  simp [shapeOf?, h]

theorem Env.returnTypeOf?_of_method {env : Env} {m : Member} {d : MethodDecl}
    (h : env.methodOf? m = some d) : env.returnTypeOf? m = some d.returnType := by
  obtain ⟨c, i, o, rfl, -, -⟩ := exists_of_method h
  simp [returnTypeOf?, h]

def ResolvedMember.view (m : ResolvedMember) (owning : Substitution) : Substitution :=
  (owning.updateWith m.candidate.subst).updateWith m.subst

theorem Env.gather_cases {env : Env} {site : Site} {q : SearchedClass} {subst : Substitution}
    {target : Option FunctionType} {g : Gathering} (h : env.gather site q subst target = .ok g) :
    ∃ d, env.class? q.id = some d ∧
      ((∃ t suits, target = some t ∧ site.isConstructor = true ∧ allowsImplicit d = true ∧
          env.suitsImplicit site q.id d subst t = .ok suits ∧ g = .settled (if suits then
            [⟨.implicitConstructor q.id, subst, false, true, false, true⟩] else [])) ∨
        g = .settled [] ∨
        ∃ filter request, siteFilter site d = some filter ∧
          env.siteRequest site q subst filter = .ok request ∧ g = .walk request) := by
  unfold gather at h
  cases hd : env.class? q.id with
  | none => simp [hd] at h
  | some d =>
    simp -zeta only [hd] at h
    extract_lets walk at h
    refine ⟨d, rfl, ?_⟩
    have hwalk : walk = .ok g → g = .settled [] ∨ ∃ filter request,
        siteFilter site d = some filter ∧ env.siteRequest site q subst filter = .ok request ∧
          g = .walk request := by
      intro hw
      unfold walk at hw
      split at hw
      · exact .inl (Except.ok.inj hw).symm
      · rename_i filter hf
        cases hs : env.siteRequest site q subst filter with
        | error e => simp [hs, Except.map] at hw
        | ok request =>
          rw [hs] at hw
          exact .inr ⟨filter, request, hf, hs, (Except.ok.inj hw).symm⟩
    cases target with
    | none => exact .inr (hwalk h)
    | some t =>
      dsimp only at h
      split at h
      · rename_i hrule
        obtain ⟨hnew, hallows⟩ := Bool.and_eq_true_iff.mp hrule
        cases hs : env.suitsImplicit site q.id d subst t with
        | error e => simp [hs, Except.map] at h
        | ok suits =>
          rw [hs] at h
          exact .inl ⟨t, suits, rfl, hnew, hallows, hs, (Except.ok.inj h).symm⟩
      · exact .inr (hwalk h)

/-! ## The value of a site -/

namespace Resolver

variable {ω : Type} {r : Resolver ω} {env : Env} {site : Site} {text : String}

theorem in_class_method (hn : site.name = .ident text) (r : Resolver ω) (env : Env)
    (q : SearchedClass) (target : Option FunctionType) :
    r.valueInClass env site q target = match env.class? q.id with
      | none => .ok (.error (.unknownOwner q.id))
      | some _ => match env.siteRequest site q q.subst (.methods text) with
        | .error e => .ok (.error e)
        | .ok request =>
            r.choiceAmong env q q.subst target (r.walker env request).reported >>= fun c =>
              .ok (.ok (env.resolutionOf q.subst target (r.walker env request).reported c).1) := by
  have hc : site.isConstructor = false := by simp [Site.isConstructor, hn]
  have hs : env.ownerSubst site q target = q.subst := by
    cases target <;> simp [Env.ownerSubst, hc]
  unfold valueInClass
  rw [hs]
  unfold Env.gather Env.siteFilter
  cases env.class? q.id with
  | none => rfl
  | some d =>
    simp only [hn, hc, Bool.false_and, Bool.false_eq_true, if_false]
    cases hreq : env.siteRequest site q q.subst (.methods text) <;> cases target <;> rfl

theorem request_site {q : SearchedClass} {subst : Substitution} {filter : MemberFilter}
    {request : WalkRequest} (h : env.siteRequest site q subst filter = .ok request) :
    request.cls = q.id ∧ request.subst = subst ∧ request.filter = filter := by
  unfold Env.siteRequest at h
  dsimp only at h
  split at h
  · cases hs : env.isStaticContext site q.id with
    | error e => simp [hs, Except.map] at h
    | ok b =>
      rw [hs] at h
      cases h
      exact ⟨rfl, rfl, rfl⟩
  · cases h
    exact ⟨rfl, rfl, rfl⟩

/-- The reference denotes one method, which was found in a class on the walk and passed a test if
there is a function type. -/
structure Denotes (env : Env) (q : SearchedClass) (text : String) (target : Option FunctionType)
    (m : ResolvedMember) (d : MethodDecl) : Prop where
  resolved : m = (env.resolveMember q.subst target m.candidate).1
  declared : env.methodOf? m.candidate.member = some d
  named : d.name = text
  seen : (m.candidate.member.owner, m.candidate.subst) ∈ env.seenClasses (q.id, q.subst)
  isStatic : m.candidate.isStatic = d.isStatic
  isVarargs : m.candidate.isVarargs = d.isVarargs
  tested : ∀ t, target = some t → ∃ owner reading, env.class? q.id = some owner ∧
    env.reading owner ⟨q.id, q.subst, t, q.isBareTypeName, q.namesType⟩ m.candidate =
      some reading ∧ (reading.direct = true ∨ reading.receiver = true)

theorem candidate_resolveMember (env : Env) (owning : Substitution)
    (target : Option FunctionType) (c : Candidate) :
    (env.resolveMember owning target c).1.candidate = c := rfl

section

variable {q : SearchedClass} {target : Option FunctionType} {m : ResolvedMember} {d : MethodDecl}

theorem Denotes.params (h : Denotes env q text target m d) :
    m.params = d.params.map (m.view q.subst).apply := by
  rw [h.resolved]
  simp [Env.resolveMember, Env.shapeOf?_of_method h.declared, ResolvedMember.view]

theorem Denotes.returnType (h : Denotes env q text target m d) :
    m.returnType = (m.view q.subst).apply d.returnType := by
  rw [h.resolved]
  simp [Env.resolveMember, Env.returnTypeOf?_of_method h.declared, ResolvedMember.view]

theorem Denotes.subst {t : FunctionType} (h : Denotes env q text (some t) m d) :
    m.subst = (env.inferMember m.candidate.member (q.subst.updateWith m.candidate.subst) t).1 := by
  obtain ⟨c, i, o, hc, -, -⟩ := Env.exists_of_method h.declared
  conv_lhs => rw [h.resolved]
  simp [Env.resolveMember, hc, Member.isImplicit]

end

/-- What is resolved uniquely is one of the candidates, and has passed a test if there was one. -/
theorem of_choice_unique {q : SearchedClass} {target : Option FunctionType} {cs : List Candidate}
    {choice : Choice} (hc : r.choiceAmong env q q.subst target cs = .ok choice)
    {m : ResolvedMember} (h : (env.resolutionOf q.subst target cs choice).1 = .unique m) :
    m.candidate ∈ cs ∧ m = (env.resolveMember q.subst target m.candidate).1 ∧
      ∀ t, target = some t → ∃ owner reading, env.class? q.id = some owner ∧
        env.reading owner ⟨q.id, q.subst, t, q.isBareTypeName, q.namesType⟩ m.candidate =
          some reading ∧ (reading.direct = true ∨ reading.receiver = true) := by
  cases choice with
  | none => cases h
  | ambiguous ps => cases h
  | unique i =>
    unfold Env.resolutionOf at h
    cases hi : cs[i]? with
    | none => simp [hi] at h
    | some c =>
      simp only [hi, Resolution.unique.injEq] at h
      subst h
      rw [candidate_resolveMember]
      refine ⟨List.mem_of_getElem? hi, rfl, fun t ht => ?_⟩
      subst ht
      unfold choiceAmong at hc
      cases ho : env.class? q.id with
      | none => simp [ho] at hc
      | some owner =>
        simp only [ho] at hc
        cases hr : env.readings owner
            ⟨q.id, q.subst, t, q.isBareTypeName, q.namesType⟩ cs with
        | none => simp [hr] at hc
        | some rs =>
          simp only [hr, Except.ok.injEq] at hc
          obtain ⟨reading, hreading, happ⟩ := applicable_of_unique hc
          refine ⟨owner, reading, rfl, ?_, happ⟩
          have hall := Env.readings_eq_some_iff.mp hr
          obtain ⟨hlen, hget⟩ := List.forall₂_iff_get.mp hall
          obtain ⟨h₁, rfl⟩ := List.getElem?_eq_some_iff.mp hi
          obtain ⟨h₂, rfl⟩ := List.getElem?_eq_some_iff.mp hreading
          exact hget i h₁ h₂

theorem value_classified {t : Option Ty} {x : Resolution} (h : r.value env site t = .ok x)
    (hx : x ≠ .empty) : ∃ q, env.classify site.qualifier = some q ∧
      r.valueInClass env site q (t.bind env.functionType) = .ok (.ok x) := by
  unfold value at h
  split at h
  · rename_i q _ hq
    refine ⟨q, hq, ?_⟩
    cases hv : r.valueInClass env site q (t.bind env.functionType) with
    | error e => simp [hv, Except.map] at h
    | ok v =>
      cases v with
      | error e =>
        rw [hv] at h
        exact absurd (Except.ok.inj h).symm hx
      | ok y =>
        rw [hv] at h
        rw [show y = x from Except.ok.inj h]
  · exact absurd (Except.ok.inj h).symm hx

/-- A site with the name of a method that resolves uniquely denotes a method of that name. -/
theorem denotes_of_value (hw : r.walker = Env.memberPlan) (hn : site.name = .ident text)
    {t : Option Ty} {m : ResolvedMember} (h : r.value env site t = .ok (.unique m)) :
    ∃ q d, env.classify site.qualifier = some q ∧
      Denotes env q text (t.bind env.functionType) m d := by
  obtain ⟨q, hq, hv⟩ := value_classified h nofun
  rw [in_class_method hn] at hv
  cases ho : env.class? q.id with
  | none => simp [ho] at hv
  | some owner =>
    simp only [ho] at hv
    cases hreq : env.siteRequest site q q.subst (.methods text) with
    | error e => simp [hreq] at hv
    | ok request =>
      obtain ⟨hcls, hsubst, hfilter⟩ := request_site hreq
      simp only [hreq, hw] at hv
      cases hc : r.choiceAmong env q q.subst (t.bind env.functionType)
          (env.memberPlan request).reported with
      | error e =>
        rw [hc] at hv
        cases hv
      | ok choice =>
        rw [hc] at hv
        obtain ⟨hmem, hres, htest⟩ := of_choice_unique hc (Except.ok.inj (Except.ok.inj hv))
        obtain ⟨k, hk, s, hs, hcand, hacc⟩ :=
          Env.exists_of_reported (by rw [hfilter]; rfl) hmem
        have hname : s.decl.name = text := by
          rw [hfilter] at hacc
          exact (by simpa [MemberFilter.accepts, MemberFilter.methods] using hacc : text = _).symm
        obtain ⟨hkc, hks, -⟩ := Env.mem_seenMethods.mp hs
        refine ⟨q, s.decl, hq, hres, ?_, hname, ?_, ?_, ?_, htest⟩
        · rw [hcand]
          exact Env.methodOf?_of_seen hs request
        · rw [hcand, ← hcls, ← hsubst]
          change (s.cls, s.subst) ∈ _
          rw [hkc, hks]
          exact hk
        · rw [hcand]
          rfl
        · rw [hcand]
          rfl

/-- A fresh request for a reference with the name of a method is answered, under the function type
of `t`, with a single method. -/
structure SingleAnswer (r : Resolver ω) (cx : Context) (site : Site) (text : String) (t : Ty)
    (w : World ω) (n : Nat) (q : SearchedClass) (target : FunctionType) (m : ResolvedMember)
    (d : MethodDecl) : Prop where
  fresh : r.IsFresh cx site (some t) w
  named : site.name = .ident text
  classified : cx.env.classify site.qualifier = some q
  functional : cx.env.functionType t = some target
  answered : (r.resolve cx (n + 1) site w).1.map (·.resolution) = .ok (.unique m)
  declared : cx.env.methodOf? m.candidate.member = some d

theorem SingleAnswer.denotes {cx : Context} {t : Ty} {w : World ω} {n : Nat} {q : SearchedClass}
    {target : FunctionType} {m : ResolvedMember} {d : MethodDecl}
    (h : r.SingleAnswer cx site text t w n q target m d) :
    Denotes cx.env q text (some target) m d := by
  have hv := (h.fresh.answer n).symm.trans h.answered
  obtain ⟨q', d', hq, hd⟩ := denotes_of_value h.fresh.walker h.named hv
  obtain rfl : q' = q := Option.some.inj (hq.symm.trans h.classified)
  obtain rfl : d' = d := Option.some.inj (hd.declared.symm.trans h.declared)
  have ht : (some t).bind cx.env.functionType = some target := h.functional
  exact ht ▸ hd

end Resolver

/-! ## A class of boxes -/

namespace Boxes

open Standard

def held : Ty := param 13

def own : Ty := param 14

def box (t : Ty) : Ty := .cls ⟨26⟩ [t]

def decl : ClassDecl :=
  { name := "Box"
    typeParams := [⟨13⟩]
    superclass := some objectTy
    methods := [
      { method "put" [held, own] .void with typeParams := [⟨14⟩] },
      { staticMethod "same" [own] own with typeParams := [⟨14⟩] },
      { method "first" [.array objectTy] held with isVarargs := true },
      method "add" [held] .void,
      method "add" [stringTy] .void] }

def env : Env :=
  let p : TypeParam := { name := "T", upperBounds := [objectTy], lowerBound := none }
  (((Env.standard.addTypeParam p).1.addTypeParam p).1.addClass decl).1

def context : Context := ⟨env, false, ⟨0⟩, ⟨0⟩⟩

def world : World Unit := ⟨{}, [{}], 0, ()⟩

def site (q : Qualifier) (text : String) : Site :=
  { id := ⟨0⟩, qualifier := q, name := .ident text }

def expecting (t : Ty) : Resolver Unit := { provider := fun _ => .pure (some t) }

def answer (s : Site) (t : Ty) : Except Interrupt Resolution :=
  ((expecting t).resolve context 1 s world).1.map (·.resolution)

theorem fresh (s : Site) (t : Ty) : (expecting t).IsFresh context s (some t) world where
  walker := rfl
  provider := rfl
  live := by
    intro t ht
    obtain rfl := Option.some.inj ht
    exact ⟨rfl, rfl⟩
  wellFormed := Cache.well_formed_empty
  vacant := rfl

def functionOf (t : Ty) (name : String) (params : List Ty) (returnType : Ty) : FunctionType :=
  ⟨t, ⟨name, params, returnType⟩⟩

def holding (t : Ty) : Substitution := .ofList [(⟨13⟩, t)]

def searched (t : Ty) : SearchedClass := ⟨⟨26⟩, holding t, false, false, false⟩

def candidate (t : Ty) (index : Nat) (isVarargs : Bool) : Candidate :=
  ⟨.method ⟨26⟩ index, holding t, false, true, isVarargs, true⟩

theorem single (qualifier : Qualifier) (text : String) (q : SearchedClass)
    (target : FunctionType) (c : Candidate) (d : MethodDecl) (hq : env.classify qualifier = some q)
    (ht : env.functionType target.interface = some target)
    (hm : answer (site qualifier text) target.interface =
      .ok (.unique (env.resolveMember q.subst (some target) c).1))
    (hd : env.methodOf? c.member = some d) :
    (expecting target.interface).SingleAnswer context (site qualifier text) text target.interface
      world 0 q target (env.resolveMember q.subst (some target) c).1 d :=
  ⟨fresh _ _, rfl, hq, ht, hm, hd⟩

end Boxes

end DoubleColon
