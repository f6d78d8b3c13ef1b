import DoubleColon.Proofs.DirectMatch

/-!
# The type arguments of the qualifier

A method that is declared in the class of the qualifier and has no type parameters of its own
leaves nothing to be inferred: its types are the declared ones with the type arguments of the
qualifier put in. This holds if it declares as many parameters as the function has. Otherwise the
class of the first type in the longer one of the two lists contributes its own type arguments,
which take precedence over those of the qualifier.
-/

set_option autoImplicit false

namespace DoubleColon

namespace Env

variable {env : Env}

def leadingArguments (env : Env) (params args : List Ty) : Substitution :=
  (((if args.length < params.length then params else args).head?.bind env.classOf?).map
    (·.subst)).getD {}

theorem inferMember_of_length_ne {m : Member} {d : MethodDecl} {owner : ClassDecl}
    {base : Substitution} {target : FunctionType} (hd : env.methodOf? m = some d)
    (ho : env.class? m.owner = some owner) (hraw : base.omits owner.typeParams = false)
    (ha : d.params.length ≠ target.arity) : (env.inferMember m base target).1 =
      env.leadingArguments (d.params.map base.apply) (target.params.map env.withoutWildcards) := by
  have hne : (d.params.map base.apply).length ≠
      (target.params.map env.withoutWildcards).length := by
    simpa [FunctionType.arity, FunctionType.params] using ha
  simp only [inferMember, shapeOf?_of_method hd, ho, inferenceParams, hraw, Bool.false_eq_true,
    if_false]
  rw [if_neg hne]
  rfl

end Env

namespace Resolver

variable {ω : Type} {r : Resolver ω} {cx : Context} {site : Site} {text : String} {t : Ty}
  {w : World ω} {n : Nat} {q : SearchedClass} {target : FunctionType} {m : ResolvedMember}
  {d : MethodDecl}

theorem Denotes.subst_of_owner {env : Env} {target : Option FunctionType}
    (h : Denotes env q text target m d) (ho : m.candidate.member.owner = q.id) :
    m.candidate.subst = q.subst :=
  Env.subst_of_seen (c := (q.id, q.subst)) (ho ▸ h.seen)

/-- The types of a method in the class of the qualifier are those that the qualifier gives it
exactly if nothing else was inferred for a variable in them. -/
theorem Denotes.keeps_iff {env : Env} {target : Option FunctionType}
    (h : Denotes env q text target m d) (ho : m.candidate.member.owner = q.id) :
    (m.params = d.params.map q.subst.apply ∧ m.returnType = q.subst.apply d.returnType) ↔
      ∀ u ∈ d.returnType :: d.params, ∀ v ∈ u.vars, ∀ s, m.subst.get? v = some s →
        q.subst.apply (.var v) = s := by
  have hview : ∀ u, (m.view q.subst).apply u = q.subst.apply u ↔
      ∀ v ∈ u.vars, ∀ s, m.subst.get? v = some s → q.subst.apply (.var v) = s := by
    intro u
    rw [Substitution.apply_eq_iff]
    refine forall₂_congr fun v _ => ?_
    have hget : (m.view q.subst).get? v = (m.subst.get? v).or (q.subst.get? v) := by
      simp [ResolvedMember.view, Substitution.get?_updateWith, h.subst_of_owner ho]
    cases hs : m.subst.get? v with
    | none => simp [Substitution.apply, hget, hs]
    | some s => simp [Substitution.apply, hget, hs, eq_comm]
  rw [h.params, h.returnType, List.map_inj_left, List.forall_mem_cons, and_comm]
  exact and_congr (hview _) (forall₂_congr fun u _ => hview u)

/-- The type arguments of the qualifier are kept exactly if the method declares a parameter for each
type of the function, or if the first type in the longer list is not of a class that has another
type argument for a variable in the declared types. -/
theorem qualifier_arguments_iff (h : r.SingleAnswer cx site text t w n q target m d)
    (ho : m.candidate.member.owner = q.id) (hp : d.typeParams = []) {owner : ClassDecl}
    (hc : cx.env.class? q.id = some owner) (hraw : q.subst.omits owner.typeParams = false) :
    (m.params = d.params.map q.subst.apply ∧ m.returnType = q.subst.apply d.returnType) ↔
      d.params.length = target.arity ∨ ∀ u ∈ d.returnType :: d.params, ∀ v ∈ u.vars, ∀ s,
        (cx.env.leadingArguments (d.params.map q.subst.apply)
          (target.params.map cx.env.withoutWildcards)).get? v = some s →
        q.subst.apply (.var v) = s := by
  have hd := h.denotes
  have hbase : q.subst.updateWith m.candidate.subst = q.subst := by
    rw [hd.subst_of_owner ho]
    exact Substitution.ext_get? fun v => by simp [Substitution.get?_updateWith]
  have hsubst := hd.subst
  rw [hbase] at hsubst
  rw [hd.keeps_iff ho]
  by_cases ha : d.params.length = target.arity
  · have hs : Env.Apart (fun v => d.typeParams.contains v) q.subst := by
      simp [Env.Apart, hp]
    refine iff_of_true (fun u _ v _ s hv => ?_) (.inl ha)
    rw [hsubst, (Env.get?_inferMember hd.declared hs ha v).1 (by simp [hp])] at hv
    exact Substitution.apply_var_of_some hv
  · rw [hsubst, Env.inferMember_of_length_ne hd.declared (ho ▸ hc) hraw ha]
    exact (or_iff_right ha).symm

end Resolver

namespace Boxes

open Standard

def ofBox : FunctionType :=
  functionOf (.cls ⟨18⟩ [box integerTy, objectTy, objectTy]) "apply"
    [box integerTy, objectTy] objectTy

def firstDecl : MethodDecl := { method "first" [.array objectTy] held with isVarargs := true }

/-- A box of strings gives an integer, since the function passes a box of integers to it. -/
theorem qualifier_arguments_first :
    let m := (env.resolveMember (holding stringTy) (some ofBox) (candidate stringTy 2 true)).1
    answer (site (.expr (box stringTy)) "first") ofBox.interface = .ok (.unique m) ∧
      m.returnType = integerTy ∧
      ¬ (m.params = [.array objectTy].map (holding stringTy).apply ∧
        m.returnType = (holding stringTy).apply held) := by
  intro m
  have hm : answer (site (.expr (box stringTy)) "first") ofBox.interface = .ok (.unique m) := by
    decide +kernel
  have h := single (.expr (box stringTy)) "first" (searched stringTy) ofBox
    (candidate stringTy 2 true) firstDecl (by decide +kernel) (by decide +kernel) hm
    (by decide +kernel)
  refine ⟨hm, by decide +kernel, fun hkept => ?_⟩
  have hdecl : env.class? ⟨26⟩ = some decl := by decide +kernel
  rcases (Resolver.qualifier_arguments_iff h rfl rfl hdecl (by decide +kernel)).mp hkept with
    hlen | hsame
  · exact absurd hlen (by decide)
  · exact absurd (hsame held List.mem_cons_self ⟨13⟩ (by decide) integerTy (by decide +kernel))
      (by decide +kernel)

end Boxes

end DoubleColon
