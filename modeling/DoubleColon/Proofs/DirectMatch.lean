import DoubleColon.Proofs.Bindings
import DoubleColon.Proofs.MethodAnswers

/-!
# Types that are passed directly

The types of a function that are passed one by one to a method of fixed arity are tested against
the parameter types under one inference of type arguments; the parameter types that are reported
come of another one, which looks at the return type as well and sees the type arguments of the
qualifier put in beforehand. Where these three do not get in each other's way, what was tested is
what is reported.
-/

set_option autoImplicit false

namespace DoubleColon

namespace Env

variable {env : Env}

/-! ## The test -/

theorem formalAt_fixed {params : List Ty} {i : Nat} {p : Ty} (h : params[i]? = some p)
    (count : Nat) : formalAt params false count i = p := by
  have hi : i < params.length := (List.getElem?_eq_some_iff.mp h).1
  have hmin : min i (params.length - 1) = i := by omega
  simp [formalAt, hmin, h]

theorem inferredParams_eq (isOpen : List TypeVar) (params args : List Ty) (isVarargs : Bool) :
    env.inferredParams isOpen params args isVarargs = params.map (env.inferArguments isOpen
      ((List.range args.length).map (formalAt params isVarargs args.length)) args).apply := by
  unfold inferredParams
  split
  · rename_i hempty
    refine (List.map_id params).symm.trans (List.map_congr_left fun p hp => ?_)
    refine (Substitution.apply_of_unmapped fun v _ => get?_inferArguments ?_ _ _).symm
    rcases (Bool.or_eq_true _ _).mp hempty with ho | hp'
    · simp [List.isEmpty_iff.mp ho]
    · simp [List.isEmpty_iff.mp hp'] at hp
  · rfl

theorem inferredParams_fixed (isOpen : List TypeVar) {params args : List Ty}
    (h : params.length = args.length) : env.inferredParams isOpen params args false =
      params.map (env.inferArguments isOpen params args).apply := by
  have hformals : (List.range args.length).map (formalAt params false args.length) = params := by
    refine List.ext_getElem? fun i => ?_
    rw [List.getElem?_map]
    by_cases hi : i < params.length
    · rw [List.getElem?_range (h ▸ hi), Option.map_some,
        formalAt_fixed (List.getElem?_eq_getElem hi)]
      exact (List.getElem?_eq_getElem hi).symm
    · rw [List.getElem?_eq_none (by simpa [← h] using hi),
        List.getElem?_eq_none (by simpa using hi)]
      rfl
  rw [inferredParams_eq, hformals]

theorem assignable_of_accepted {params : List Ty} {k : Nat} {args : List Ty}
    (h : env.allAccepted params false k args = some true) {i : Nat} {arg : Ty}
    (hi : args[i]? = some arg) :
    ∃ p, params[k + i]? = some p ∧ env.isAssignable p arg = true := by
  induction args generalizing k i with
  | nil => simp at hi
  | cons a rest ih =>
    simp only [allAccepted, paramFor, Bool.false_and, Bool.false_eq_true, if_false] at h
    cases hp : params[k]? with
    | none => simp [hp] at h
    | some p =>
      simp only [hp, Option.map_some] at h
      split at h
      · rename_i ha
        cases i with
        | zero =>
          obtain rfl := Option.some.inj hi
          exact ⟨p, hp, by simpa [takesArg] using ha⟩
        | succ i =>
          obtain ⟨p', hp', ha'⟩ := ih h (i := i) (by simpa using hi)
          exact ⟨p', by rwa [show k + (i + 1) = k + 1 + i by omega], ha'⟩
      · cases h

def argumentsOf (env : Env) (d : MethodDecl) (base : Substitution) (args : List Ty) :
    Substitution :=
  env.inferArguments d.typeParams (d.params.map base.apply) args

/-- A method of fixed arity with a parameter for each type of the function is only applicable if
these may be passed to it. -/
theorem passed_of_reading {owner : ClassDecl} {m : MatchInput} {c : Candidate} {rd : Reading}
    (hr : env.reading owner m c = some rd) (happ : rd.direct = true ∨ rd.receiver = true)
    {d : MethodDecl} (hd : env.methodOf? c.member = some d) (hv : c.isVarargs = false)
    (ha : d.params.length = m.target.arity) {i : Nat} {a : Ty} (hi : m.target.params[i]? = some a) :
    let base := m.ownerSubst.updateWith c.subst
    let args := m.target.params.map fun t => base.apply (env.withoutWildcards t)
    ∃ p, d.params[i]? = some p ∧
      env.isAssignable ((env.argumentsOf d base args).apply (base.apply p))
        (base.apply (env.withoutWildcards a)) = true := by
  intro base args
  have hlen : (d.params.map base.apply).length = args.length := by
    simpa [args, FunctionType.arity, FunctionType.params] using ha
  have hopen : openParams owner c ⟨d.typeParams, d.params, d.isAbstract⟩ base = d.typeParams := by
    obtain ⟨_, _, _, hm, -, -⟩ := exists_of_method hd
    simp [openParams, hm, Member.isConstructor]
  simp only [reading, shapeOf?_of_method hd] at hr
  obtain ⟨direct, hdirect, rfl⟩ := Option.map_eq_some_iff.mp hr
  rw [hopen] at hdirect happ
  -- The receiver reading would leave the method a parameter short.
  have htrue : direct = true := by
    refine happ.resolve_right fun h => ?_
    simp only [readsWithReceiver, Bool.and_eq_true, decide_eq_true_eq] at h
    have hlonger : args.length = (d.params.map base.apply).length + 1 := h.1.1.2
    omega
  subst htrue
  unfold readsDirectly at hdirect
  dsimp only at hdirect
  split at hdirect
  · rw [hv, inferredParams_fixed _ hlen] at hdirect
    have harg : args[i]? = some (base.apply (env.withoutWildcards a)) := by
      simp [args, hi]
    obtain ⟨p, hp, hpa⟩ := assignable_of_accepted hdirect harg
    rw [Nat.zero_add, List.getElem?_map, List.getElem?_map] at hp
    obtain ⟨p', hp', rfl⟩ := Option.map_eq_some_iff.mp hp
    obtain ⟨declared, hdecl, rfl⟩ := Option.map_eq_some_iff.mp hp'
    exact ⟨declared, hdecl, hpa⟩
  · cases hdirect

/-! ## What is reported -/

variable {m : Member} {d : MethodDecl} {base : Substitution} {target : FunctionType}

def toldByParams (env : Env) (owner : ClassDecl) (d : MethodDecl) (base : Substitution)
    (target : FunctionType) : Substitution :=
  env.inferArguments d.typeParams
    (inferenceParams owner base ⟨d.typeParams, d.params, d.isAbstract⟩)
    (target.params.map env.withoutWildcards)

theorem inferenceParams_cases (owner : ClassDecl) (base : Substitution) (shape : MemberShape) :
    inferenceParams owner base shape = shape.params ∨
      inferenceParams owner base shape = shape.params.map base.apply := by
  unfold inferenceParams
  split
  · exact .inl rfl
  · exact .inr rfl

theorem inferMember_of_method (hd : env.methodOf? m = some d) {owner : ClassDecl}
    (ho : env.class? m.owner = some owner) (ha : d.params.length = target.arity) :
    let own := (env.toldByParams owner d base target).under base
    (env.inferMember m base target).1 =
      env.inferFromReturn d.typeParams (own.apply d.returnType) (some target.returnType) own := by
  intro own
  have hlen : (inferenceParams owner base ⟨d.typeParams, d.params, d.isAbstract⟩).length =
      (target.params.map env.withoutWildcards).length := by
    rcases inferenceParams_cases owner base ⟨d.typeParams, d.params, d.isAbstract⟩ with h | h <;>
      simpa [h, FunctionType.arity, FunctionType.params] using ha
  obtain ⟨c, i, _, rfl, -, -⟩ := exists_of_method hd
  simp only [inferMember, shapeOf?_of_method hd, ho]
  rw [if_pos hlen]
  simp only [inferMatching, Member.isConstructor, Bool.false_eq_true, if_false,
    returnTypeOf?_of_method hd, List.append_nil]
  rfl

/-- The inference for the reported types begins as the one of the test does, if the type arguments
of the qualifier are apart from the type parameters of the method, and keeps what it has. -/
theorem get?_inferMember (hd : env.methodOf? m = some d)
    (hs : Apart (fun v => d.typeParams.contains v) base) (ha : d.params.length = target.arity)
    (v : TypeVar) :
    let inferred := (env.inferMember m base target).1
    let told := env.argumentsOf d base (target.params.map env.withoutWildcards)
    (v ∉ d.typeParams → inferred.get? v = base.get? v) ∧
      ∀ u, told.get? v = some u → inferred.get? v = some u := by
  intro inferred told
  obtain ⟨c, i, owner, hm, ho, -⟩ := exists_of_method hd
  have ho' : env.class? m.owner = some owner := hm ▸ ho
  have htold : env.toldByParams owner d base target = told := by
    unfold toldByParams
    rcases inferenceParams_cases owner base ⟨d.typeParams, d.params, d.isAbstract⟩ with h | h <;>
      rw [h]
    · exact (inferArguments_apply hs _ _).symm
    · rfl
  have hinferred : inferred = env.inferFromReturn d.typeParams
      ((told.under base).apply d.returnType) (some target.returnType) (told.under base) := by
    rw [← htold]
    exact inferMember_of_method hd ho' ha
  refine ⟨fun hv => ?_, fun u hu => ?_⟩
  · rw [hinferred, get?_inferFromReturn_of_not_mem hv, Substitution.get?_under,
      show told.get? v = none from get?_inferArguments hv _ _, Option.or_none]
  · have hbase : base.get? v = none := by
      cases hb : base.get? v with
      | none => rfl
      | some t =>
        have hv : v ∉ d.typeParams := by simpa using (hs v t hb).1
        rw [show told.get? v = none from get?_inferArguments hv _ _] at hu
        cases hu
    rw [hinferred]
    exact get?_inferFromReturn_of_some (by rw [Substitution.get?_under, hbase, hu]; rfl) _ _ _

end Env

namespace Resolver

variable {ω : Type} {r : Resolver ω} {cx : Context} {site : Site} {text : String} {t : Ty}
  {w : World ω}

/-- The type arguments of the qualifier, those of the function and the type parameters of the
method do not get in each other's way. -/
structure Undisturbed (base : Substitution) (d : MethodDecl) (args : List Ty) : Prop where
  /-- What is passed mentions nothing that the qualifier has a type argument for. -/
  passed : ∀ a ∈ args, base.apply a = a
  /-- The type arguments of the qualifier neither replace nor mention a type parameter of the
  method. -/
  own : Env.Apart (fun v => d.typeParams.contains v) base

theorem Denotes.passed {env : Env} {q : SearchedClass} {target : FunctionType}
    {m : ResolvedMember} {d : MethodDecl} (h : Denotes env q text (some target) m d)
    (hv : d.isVarargs = false) (ha : d.params.length = target.arity) :
    let base := q.subst.updateWith m.candidate.subst
    let args := target.params.map env.withoutWildcards
    Undisturbed base d args → ∀ (i : Nat) (a : Ty), args[i]? = some a →
      (∀ p : Ty, d.params[i]? = some p → ∀ v ∈ p.vars, v ∈ d.typeParams → m.subst.contains v →
        (env.argumentsOf d base args).contains v) →
      ∃ p, m.params[i]? = some p ∧ env.isAssignable p a = true := by
  intro base args hs i a hi htold
  obtain ⟨arg, harg, rfl⟩ : ∃ arg, target.params[i]? = some arg ∧ env.withoutWildcards arg = a := by
    simpa [args, List.getElem?_map] using hi
  obtain ⟨owner, reading, ho, hreading, happ⟩ := h.tested target rfl
  obtain ⟨p, hp, hpa⟩ :=
    Env.passed_of_reading hreading happ h.declared (h.isVarargs.trans hv) ha harg
  have hargs : (target.params.map fun t => base.apply (env.withoutWildcards t)) = args :=
    List.map_congr_left fun t ht => hs.passed _ (List.mem_map_of_mem ht)
  change env.isAssignable ((env.argumentsOf d base
    (target.params.map fun t => base.apply (env.withoutWildcards t))).apply (base.apply p))
    (base.apply (env.withoutWildcards arg)) = true at hpa
  rw [hargs, hs.passed _ (List.mem_of_getElem? hi)] at hpa
  refine ⟨(m.view q.subst).apply p, by simp [h.params, hp], ?_⟩
  -- What is reported of a variable is what the test made of it.
  have hview : (m.view q.subst).apply p =
      (env.argumentsOf d base args).apply (base.apply p) := by
    refine Substitution.apply_apply fun v hv => ?_
    obtain ⟨hother, hown⟩ := Env.get?_inferMember h.declared hs.own ha v
    rw [← h.subst] at hother hown
    have hget : (m.view q.subst).get? v = (m.subst.get? v).or (base.get? v) :=
      Substitution.get?_updateWith _ _ v
    by_cases hmem : v ∈ d.typeParams
    · have hbase : base.get? v = none := by
        cases hb : base.get? v with
        | none => rfl
        | some u => exact absurd hmem (by simpa using (hs.own v u hb).1)
      rw [Substitution.apply_var_of_none hbase]
      cases hσ : (env.argumentsOf d base args).get? v with
      | some u =>
        rw [Substitution.apply_var_of_some hσ]
        exact Substitution.apply_var_of_some (by rw [hget, hown u hσ]; rfl)
      | none =>
        have hopen : m.subst.get? v = none := by
          cases hu : m.subst.get? v with
          | none => rfl
          | some u =>
            have hc := htold p hp v hv hmem (by simp [Substitution.contains, hu])
            simp [Substitution.contains, hσ] at hc
        rw [Substitution.apply_var_of_none hσ]
        exact Substitution.apply_var_of_none (by rw [hget, hopen, hbase]; rfl)
    · rw [hother hmem, Option.or_self] at hget
      cases hb : base.get? v with
      | some u =>
        rw [Substitution.apply_var_of_some hb, Substitution.apply_var_of_some (hget.trans hb)]
        refine (Substitution.apply_of_unmapped fun z hz => Env.get?_inferArguments ?_ _ _).symm
        simpa using (hs.own v u hb).2 z hz
      | none =>
        have hσ : (env.argumentsOf d base args).get? v = none :=
          Env.get?_inferArguments hmem _ _
        rw [Substitution.apply_var_of_none hb, Substitution.apply_var_of_none (hget.trans hb),
          Substitution.apply_var_of_none hσ]
  rw [hview]
  exact hpa

/-- If a single method of fixed arity is found that declares a parameter for each type of the
function, each of these types may be assigned to the parameter type that is reported for it,
provided that type arguments and type parameters do not get in each other's way and what the
parameter mentions of the method's type parameters is not left to the return type. -/
theorem passed_assignable {cx : Context} {site : Site} {w : World ω} {n : Nat} {q : SearchedClass}
    {target : FunctionType} {m : ResolvedMember} {d : MethodDecl}
    (h : r.SingleAnswer cx site text t w n q target m d) (hv : d.isVarargs = false)
    (ha : d.params.length = target.arity)
    (hs : Undisturbed (q.subst.updateWith m.candidate.subst) d
      (target.params.map cx.env.withoutWildcards)) {i : Nat} {a : Ty}
    (hi : target.params[i]? = some a)
    (htold : ∀ p : Ty, d.params[i]? = some p → ∀ v ∈ p.vars, v ∈ d.typeParams →
      m.subst.contains v → (cx.env.argumentsOf d (q.subst.updateWith m.candidate.subst)
        (target.params.map cx.env.withoutWildcards)).contains v) :
    ∃ p, m.params[i]? = some p ∧ cx.env.isAssignable p (cx.env.withoutWildcards a) = true :=
  h.denotes.passed hv ha hs i _ (by simp [hi]) htold

def PassesUnassignable (r : Resolver ω) (cx : Context) (site : Site) (text : String) (t : Ty)
    (w : World ω) : Prop :=
  ∃ (q : SearchedClass) (target : FunctionType) (m : ResolvedMember) (d : MethodDecl),
    r.SingleAnswer cx site text t w 0 q target m d ∧ d.isVarargs = false ∧
    d.params.length = target.arity ∧ ∃ (i : Nat) (a p : Ty), target.params[i]? = some a ∧
      m.params[i]? = some p ∧ cx.env.isAssignable p (cx.env.withoutWildcards a) = false

end Resolver

namespace Boxes

open Standard

def ofTwo : FunctionType :=
  functionOf (.cls ⟨18⟩ [stringTy, integerTy, objectTy]) "apply" [stringTy, integerTy] objectTy

def ofElements : FunctionType :=
  functionOf (.cls function [param 12, .cls ⟨7⟩ []]) "apply" [param 12] (.cls ⟨7⟩ [])

def ofNull : FunctionType :=
  functionOf (.cls function [.null, .wildUpper stringTy]) "apply" [.null] (.wildUpper stringTy)

def putDecl : MethodDecl := { method "put" [held, own] .void with typeParams := [⟨14⟩] }

/-- The integer is passed to the parameter of the type that is inferred. -/
theorem passed_assignable_put :
    let m := (env.resolveMember (holding stringTy) (some ofTwo) (candidate stringTy 0 false)).1
    answer (site (.expr (box stringTy)) "put") ofTwo.interface = .ok (.unique m) ∧
      ∃ p, m.params[1]? = some p ∧
        env.isAssignable p (env.withoutWildcards integerTy) = true := by
  intro m
  have hm : answer (site (.expr (box stringTy)) "put") ofTwo.interface = .ok (.unique m) := by
    decide +kernel
  have h := single (.expr (box stringTy)) "put" (searched stringTy) ofTwo
    (candidate stringTy 0 false) putDecl (by decide +kernel) (by decide +kernel) hm
    (by decide +kernel)
  refine ⟨hm, Resolver.passed_assignable h rfl rfl ⟨by decide +kernel, ?_⟩ rfl ?_⟩
  · exact Env.apart_of_entries (by decide +kernel)
  · intro p hp
    obtain rfl : own = p := Option.some.inj hp
    decide +kernel

/-- Each of three things may come between what is tested and what is reported: the type argument of
the qualifier replaces a type that is passed; it mentions a type parameter of the method; the
return type settles a type parameter. -/
theorem passes_unassignable :
    (expecting ofElements.interface).PassesUnassignable context
      (site (.expr (.cls ⟨25⟩ [stringTy])) "add") "add" ofElements.interface world ∧
    (expecting ofTwo.interface).PassesUnassignable context
      (site (.expr (box own)) "put") "put" ofTwo.interface world ∧
    (expecting ofNull.interface).PassesUnassignable context
      (site (.type (.cls ⟨26⟩ [])) "same") "same" ofNull.interface world := by
  refine ⟨?_, ?_, ?_⟩
  · let strings : Substitution := .ofList [(⟨12⟩, stringTy)]
    have h := single (.expr (.cls ⟨25⟩ [stringTy])) "add" ⟨⟨25⟩, strings, false, false, false⟩
      ofElements ⟨.method ⟨25⟩ 2, strings, false, true, false, true⟩
      (method "add" [param 12] boolean) (by decide +kernel) (by decide +kernel) (by decide +kernel)
      (by decide +kernel)
    exact ⟨_, _, _, _, h, rfl, rfl, 0, param 12, stringTy, rfl, by decide +kernel,
      by decide +kernel⟩
  · have h := single (.expr (box own)) "put" (searched own) ofTwo (candidate own 0 false) putDecl
      (by decide +kernel) (by decide +kernel) (by decide +kernel) (by decide +kernel)
    exact ⟨_, _, _, _, h, rfl, rfl, 0, stringTy, own, rfl, by decide +kernel, by decide +kernel⟩
  · have h := single (.type (.cls ⟨26⟩ [])) "same" ⟨⟨26⟩, {}, false, false, true⟩ ofNull
      ⟨.method ⟨26⟩ 1, {}, true, true, false, true⟩
      { staticMethod "same" [own] own with typeParams := [⟨14⟩] }
      (by decide +kernel) (by decide +kernel) (by decide +kernel) (by decide +kernel)
    exact ⟨_, _, _, _, h, rfl, rfl, 0, .null, .wildUpper stringTy, rfl, by decide +kernel,
      by decide +kernel⟩

end Boxes

end DoubleColon
