import DoubleColon.Env.Standard
import DoubleColon.Proofs.Bindings

/-!
# What inference adds

A return type that flows into an expected type may complete a substitution. All that the
substitution maps stays as it is, and nothing is added but mappings of listed type parameters. What
is added is what would be inferred from nothing for the type parameters that are still open, with
the known ones put into the declared type. It does not matter in which order, or how often, type
parameters are listed, neither here nor where they are inferred from arguments.
-/

set_option autoImplicit false

namespace DoubleColon

namespace Substitution

variable {s t : Substitution}

structure ExtendedBy (s t : Substitution) (params : List TypeVar) : Prop where
  kept : ∀ v u, s.get? v = some u → t.get? v = some u
  listed : ∀ v u, t.get? v = some u → s.get? v = some u ∨ v ∈ params

theorem extendedBy_of_forall {params : List TypeVar}
    (hkept : ∀ v u, s.get? v = some u → t.get? v = some u)
    (hrest : ∀ v, v ∉ params → t.get? v = s.get? v) : s.ExtendedBy t params := by
  refine ⟨hkept, fun v u hv => ?_⟩
  by_cases hmem : v ∈ params
  · exact .inr hmem
  · exact .inl ((hrest v hmem).symm.trans hv)

@[simp] theorem under_empty (s : Substitution) : s.under {} = s :=
  ext_get? fun v => by rw [get?_under, get?_empty, Option.none_or]

@[simp] theorem empty_under (base : Substitution) : under {} base = base :=
  ext_get? fun v => by rw [get?_under, get?_empty, Option.or_none]

end Substitution

namespace Env

/-- Nothing is expected of a return type that could tell anything: there is no expected type, or
none that a value could have, or nothing is returned. -/
def ExpectsNothing (declared : Ty) : Option Ty → Prop
  | none => True
  | some target => declared = .void ∨ target = .void ∨ target.isRecovery = true

def openIn (typeParams : List TypeVar) (subst : Substitution) (v : TypeVar) : Bool :=
  typeParams.contains v && !subst.contains v

variable {env : Env} {typeParams : List TypeVar} {declared : Ty} {expected : Option Ty}
  {subst : Substitution}

theorem inferFromReturn_of_nothing (h : ExpectsNothing declared expected) :
    env.inferFromReturn typeParams declared expected subst = subst := by
  cases expected with
  | none => rfl
  | some target =>
    refine if_pos ?_
    rcases h with h | h | h <;> simp [h]

/-- An expected type tells nothing, or else a match with it is laid under what is known. -/
theorem inferFromReturn_cases (env : Env) (expected : Option Ty) :
    (∀ typeParams declared subst,
      env.inferFromReturn typeParams declared expected subst = subst) ∨
    ∃ target, ∀ typeParams declared subst,
      env.inferFromReturn typeParams declared expected subst =
        (env.unify (openIn typeParams subst) .outOfFormal unifyLevels (subst.apply declared) target
          {}).under subst := by
  cases expected with
  | none => exact .inl fun _ _ _ => rfl
  | some target =>
    by_cases hsilent : target = .void ∨ target.isRecovery = true
    · refine .inl fun _ declared _ => inferFromReturn_of_nothing ?_
      show declared = .void ∨ target = .void ∨ target.isRecovery = true
      exact .inr hsilent
    · obtain ⟨hvoid, hrecovery⟩ := not_or.mp hsilent
      refine .inr ⟨target, fun typeParams declared subst => ?_⟩
      unfold inferFromReturn
      dsimp only
      split
      · -- A match without open variables, or with a type that is no reference type, binds nothing.
        rename_i h
        have hcases : typeParams = [] ∨ declared = .void := by simpa [hvoid, hrecovery] using h
        suffices hnone : env.unify (openIn typeParams subst) .outOfFormal unifyLevels
            (subst.apply declared) target {} = {} by rw [hnone, Substitution.empty_under]
        rcases hcases with rfl | rfl
        · exact Substitution.ext_get? fun v => get?_unify_of_closed rfl _ _ _ _
        · simp [Substitution.apply, unifyLevels, unify]
      · rfl

/-- Inference from a return type is inference from nothing, laid under what is known. -/
theorem inferFromReturn_layered (env : Env) (typeParams : List TypeVar) (declared : Ty)
    (expected : Option Ty) (subst : Substitution) :
    env.inferFromReturn typeParams declared expected subst =
      (env.inferFromReturn (typeParams.filter fun v => !subst.contains v) (subst.apply declared)
        expected {}).under subst := by
  rcases inferFromReturn_cases env expected with h | ⟨target, h⟩
  · rw [h, h, Substitution.empty_under]
  · have hopen : openIn (typeParams.filter fun v => !subst.contains v) {} =
        openIn typeParams subst := by
      funext v
      rw [Bool.eq_iff_iff]
      simp [openIn, Substitution.contains]
    rw [h, h, hopen, Substitution.apply_empty, Substitution.under_empty]

theorem contains_congr {others : List TypeVar} (h : ∀ v, v ∈ others ↔ v ∈ typeParams) :
    (others.contains ·) = (typeParams.contains ·) :=
  funext fun v => by rw [Bool.eq_iff_iff, List.contains_iff_mem, List.contains_iff_mem, h]

theorem inferArguments_congr {others : List TypeVar} (h : ∀ v, v ∈ others ↔ v ∈ typeParams)
    (formals actuals : List Ty) :
    env.inferArguments others formals actuals = env.inferArguments typeParams formals actuals := by
  unfold inferArguments
  rw [contains_congr h]

theorem inferFromReturn_congr {others : List TypeVar} (h : ∀ v, v ∈ others ↔ v ∈ typeParams) :
    env.inferFromReturn others declared expected subst =
      env.inferFromReturn typeParams declared expected subst := by
  have hopen : openIn others subst = openIn typeParams subst :=
    funext fun v => congrArg (· && !subst.contains v) (congrFun (contains_congr h) v)
  rcases inferFromReturn_cases env expected with hcase | ⟨target, hcase⟩
  · rw [hcase, hcase]
  · rw [hcase, hcase, hopen]

/-- A return type that flows into an expected type extends what is known by mappings of listed type
parameters, and by none if nothing is expected or returned; what it adds it tells of the open type
parameters by itself. Arguments tell of listed type parameters only. The order in which type
parameters are listed, and repetitions in the list, make no difference to either. -/
theorem inference_extends (env : Env) (typeParams : List TypeVar) (declared : Ty)
    (expected : Option Ty) (subst : Substitution) (formals actuals : List Ty) :
    let completed := env.inferFromReturn typeParams declared expected subst
    let inferred := env.inferArguments typeParams formals actuals
    subst.ExtendedBy completed typeParams ∧
    (ExpectsNothing declared expected → completed = subst) ∧
    completed = (env.inferFromReturn (typeParams.filter fun v => !subst.contains v)
      (subst.apply declared) expected {}).under subst ∧
    Substitution.ExtendedBy {} inferred typeParams ∧
    ∀ others : List TypeVar, (∀ v, v ∈ others ↔ v ∈ typeParams) →
      env.inferArguments others formals actuals = inferred ∧
        env.inferFromReturn others declared expected subst = completed := by
  intro completed inferred
  have hcompleted : subst.ExtendedBy completed typeParams :=
    Substitution.extendedBy_of_forall
      (fun _ _ h => get?_inferFromReturn_of_some h typeParams declared expected)
      (fun _ h => get?_inferFromReturn_of_not_mem h declared expected subst)
  have hinferred : Substitution.ExtendedBy {} inferred typeParams :=
    Substitution.extendedBy_of_forall nofun fun _ h => get?_inferArguments h formals actuals
  exact ⟨hcompleted, inferFromReturn_of_nothing,
    inferFromReturn_layered env typeParams declared expected subst, hinferred,
    fun others h => ⟨inferArguments_congr h formals actuals, inferFromReturn_congr h⟩⟩

/-- `Function<K, V>` where `Function<Integer, String>` is expected tells of `V` that it is `String`.
It tells nothing of `K`, which is known to be `Number`. -/
example :
    let number : Ty := .cls Standard.number []
    let declared : Ty := .cls Standard.function [.var ⟨13⟩, .var ⟨14⟩]
    let target : Ty := .cls Standard.function [Standard.integerTy, Standard.stringTy]
    standard.inferFromReturn [⟨13⟩, ⟨14⟩] declared (some target) (.ofList [(⟨13⟩, number)]) =
      .ofList [(⟨13⟩, number), (⟨14⟩, Standard.stringTy)] := by
  decide +kernel

end Env

end DoubleColon
