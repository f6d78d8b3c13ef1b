import Mathlib.Data.List.Basic
import DoubleColon.Resolution

/-!
# Editing the methods of a class

Most of what an environment says about types does not depend on the methods that its classes
declare. `Env.withMethods` puts other methods in a class; the lemmas say of one function after the
other that it makes no difference.
-/

set_option autoImplicit false

namespace DoubleColon

def ClassDecl.withMethods (d : ClassDecl) (methods : Option (List MethodDecl)) : ClassDecl :=
  { d with methods := methods.getD d.methods }

namespace Env

def withMethods (env : Env) (c : ClassId) (methods : List MethodDecl) : Env :=
  env.editClass c fun d => d.withMethods (some methods)

variable (env : Env) (c : ClassId) (methods : List MethodDecl)

theorem class?_withMethods (id : ClassId) : (env.withMethods c methods).class? id =
    (env.class? id).map fun d => d.withMethods (if id = c then some methods else none) := by
  unfold withMethods editClass class?
  rw [List.getElem?_modify]
  by_cases h : id = c
  · subst h
    simp
  · have hi : c.index ≠ id.index := fun he => h (by cases id; cases c; simp_all)
    cases hc : env.classes[id.index]? <;> simp [hi, h, ClassDecl.withMethods]

theorem canonical_withMethods : (env.withMethods c methods).canonical = env.canonical := rfl

theorem typeParam?_withMethods : (env.withMethods c methods).typeParam? = env.typeParam? := rfl

/-! ## Types -/

@[simp] theorem directSupertypes_withMethods :
    (env.withMethods c methods).directSupertypes = env.directSupertypes := by
  funext x
  unfold directSupertypes
  rw [class?_withMethods]
  cases env.class? x.id <;> rfl

@[simp] theorem view_withMethods : (env.withMethods c methods).view = env.view := by
  funext x target
  unfold view search
  rw [directSupertypes_withMethods]
  rfl

@[simp] theorem classStep_withMethods (le : Ty → Ty → Bool) :
    (env.withMethods c methods).classStep le = env.classStep le := by
  funext x y
  unfold classStep
  rw [view_withMethods]
  rfl

@[simp] theorem subtypeStep_withMethods (le : Ty → Ty → Bool) :
    (env.withMethods c methods).subtypeStep le = env.subtypeStep le := by
  funext s t
  unfold subtypeStep
  rw [classStep_withMethods]
  rfl

@[simp] theorem isSubtypeWithin_withMethods (n : Nat) :
    (env.withMethods c methods).isSubtypeWithin n = env.isSubtypeWithin n := by
  induction n with
  | zero => rfl
  | succ n ih =>
    funext s t
    simp only [isSubtypeWithin, ih, subtypeStep_withMethods]
    rfl

@[simp] theorem isSubtype_withMethods :
    (env.withMethods c methods).isSubtype = env.isSubtype :=
  isSubtypeWithin_withMethods env c methods subtypeLevels

@[simp] theorem overParts_withMethods {α : Type} (merge : α → α → Option α)
    (leaf : Ty → Option α) :
    (env.withMethods c methods).overParts merge leaf = env.overParts merge leaf := by
  have h : ∀ n seen v, (env.withMethods c methods).throughBounds merge leaf n seen v =
      env.throughBounds merge leaf n seen v := by
    intro n
    induction n with
    | zero => exact fun _ _ => rfl
    | succ n ih =>
      intro seen v
      have hf : ∀ vs, (env.withMethods c methods).throughBounds merge leaf n vs =
          env.throughBounds merge leaf n vs := fun vs => funext (ih vs)
      simp only [throughBounds, typeParam?_withMethods, hf]
  funext t
  exact congrArg (throughParts merge leaf · t) (funext (h _ _))

@[simp] theorem asSuper_withMethods : (env.withMethods c methods).asSuper = env.asSuper := by
  have hm : (env.withMethods c methods).mergeViews = env.mergeViews := by
    funext s t
    unfold mergeViews narrower
    rw [isSubtype_withMethods]
  have hl : (env.withMethods c methods).viewLeaf = env.viewLeaf := by
    funext target t
    unfold viewLeaf
    rw [view_withMethods]
    rfl
  funext t target
  unfold asSuper
  rw [hm, hl, overParts_withMethods]

@[simp] theorem inherits_withMethods :
    (env.withMethods c methods).inherits = env.inherits := by
  funext x y
  unfold inherits
  rw [asSuper_withMethods]

@[simp] theorem isAssignable_withMethods :
    (env.withMethods c methods).isAssignable = env.isAssignable := by
  funext s t
  unfold isAssignable
  rw [isSubtype_withMethods]
  rfl

@[simp] theorem classOf?_withMethods : (env.withMethods c methods).classOf? = env.classOf? := by
  have h : ∀ n, (env.withMethods c methods).classOfWithin n = env.classOfWithin n := by
    intro n
    induction n with
    | zero => rfl
    | succ n ih =>
      funext t
      simp only [classOfWithin, canonical_withMethods, typeParam?_withMethods, ih]
      cases env.canonical t with
      | cls id args =>
        simp only [class?_withMethods, Option.map_map]
        rfl
      | _ => rfl
  exact h 33

@[simp] theorem withoutWildcards_withMethods :
    (env.withMethods c methods).withoutWildcards = env.withoutWildcards := rfl

@[simp] theorem erase_withMethods : (env.withMethods c methods).erase = env.erase := by
  have h : ∀ n t, (env.withMethods c methods).eraseWithin n t = env.eraseWithin n t := by
    intro n
    induction n with
    | zero => exact fun _ => rfl
    | succ n ih =>
      intro t
      simp only [eraseWithin, canonical_withMethods, typeParam?_withMethods, ih]
      rfl
  exact funext (h 17)

/-! ## Inference -/

@[simp] theorem unify_withMethods (isOpen : TypeVar → Bool) (dir : Flow) (n : Nat) :
    (env.withMethods c methods).unify isOpen dir n = env.unify isOpen dir n := by
  have hb : (env.withMethods c methods).bind = env.bind := by
    funext known v t
    unfold bind
    rw [isSubtype_withMethods]
    rfl
  have ha : (env.withMethods c methods).alignedArgs = env.alignedArgs := by
    funext dir formal actual
    unfold alignedArgs
    rw [asSuper_withMethods]
  induction n with
  | zero => rfl
  | succ n ih =>
    funext formal actual known
    simp only [unify, ih, hb, ha]
    rfl

@[simp] theorem inferArguments_withMethods :
    (env.withMethods c methods).inferArguments = env.inferArguments := by
  have h : ∀ isOpen l known, (env.withMethods c methods).unifyAll isOpen l known =
      env.unifyAll isOpen l known := by
    intro isOpen l
    induction l with
    | nil => exact fun _ => rfl
    | cons e rest ih =>
      intro known
      simp only [unifyAll, unify_withMethods, ih]
  funext typeParams formals actuals
  exact h _ _ _

@[simp] theorem inferFromReturn_withMethods :
    (env.withMethods c methods).inferFromReturn = env.inferFromReturn := by
  funext typeParams declared expected subst
  simp only [inferFromReturn, unify_withMethods]

/-! ## Overloads -/

@[simp] theorem isMoreSpecific_withMethods :
    (env.withMethods c methods).isMoreSpecific = env.isMoreSpecific := by
  funext phase m k
  unfold isMoreSpecific isMoreSpecificParam
  rw [isAssignable_withMethods, isSubtype_withMethods]

/-! ## Applicability -/

@[simp] theorem inferredParams_withMethods :
    (env.withMethods c methods).inferredParams = env.inferredParams := by
  funext isOpen params args isVarargs
  simp only [inferredParams, inferArguments_withMethods]

@[simp] theorem takesArg_withMethods :
    (env.withMethods c methods).takesArg = env.takesArg := by
  funext param arg absorb
  simp only [takesArg, isAssignable_withMethods]

@[simp] theorem allAccepted_withMethods :
    (env.withMethods c methods).allAccepted = env.allAccepted := by
  funext params isVarargs i args
  induction args generalizing i with
  | nil => rfl
  | cons arg rest ih => simp only [allAccepted, takesArg_withMethods, ih]

@[simp] theorem restAccepted_withMethods :
    (env.withMethods c methods).restAccepted = env.restAccepted := by
  funext params isVarargs rest
  simp only [restAccepted, takesArg_withMethods]

/-! ## Receivers, access and static contexts -/

@[simp] theorem isReceiver_withMethods :
    (env.withMethods c methods).isReceiver = env.isReceiver := by
  have h : ∀ t owner subst n current,
      (env.withMethods c methods).isReceiverWithin t owner subst n current =
        env.isReceiverWithin t owner subst n current := by
    intro t owner subst n
    induction n with
    | zero => exact fun _ => rfl
    | succ n ih =>
      intro current
      simp only [isReceiverWithin, asSuper_withMethods, class?_withMethods, ih]
      cases env.asSuper t current with
      | none => cases env.class? current <;> rfl
      | some seen => cases env.class? owner <;> cases seen <;> rfl
  funext t owner subst
  simp only [isReceiver, withoutWildcards_withMethods, classOf?_withMethods, h]

@[simp] theorem isAccessible_withMethods :
    (env.withMethods c methods).isAccessible = env.isAccessible := by
  have hchain : (env.withMethods c methods).enclosingChain = env.enclosingChain := by
    funext n id
    induction n generalizing id with
    | zero => rfl
    | succ n ih =>
      simp only [enclosingChain, class?_withMethods]
      cases env.class? id with
      | none => rfl
      | some d =>
        simp only [Option.map_some, Option.bind_some, ih]
        rfl
  have htop : (env.withMethods c methods).topLevel = env.topLevel := by
    funext id
    unfold topLevel
    rw [hchain]
  have hpackage : (env.withMethods c methods).inSamePackage = env.inSamePackage := by
    funext x y
    unfold inSamePackage
    rw [class?_withMethods, class?_withMethods]
    cases env.class? x <;> cases env.class? y <;> rfl
  funext place through declaring visibility isStatic
  unfold isAccessible
  rw [htop, hpackage, hchain, inherits_withMethods]

@[simp] theorem isStaticContext_withMethods :
    (env.withMethods c methods).isStaticContext = env.isStaticContext := by
  have h : ∀ stopAt l, (env.withMethods c methods).meetsStatic stopAt l =
      env.meetsStatic stopAt l := by
    intro stopAt l
    induction l with
    | nil => rfl
    | cons e rest ih =>
      cases e with
      | cls id =>
        simp only [meetsStatic, class?_withMethods, ih]
        cases env.class? id <;> rfl
      | member isStatic =>
        simp only [meetsStatic, ih]
  funext site owner
  unfold isStaticContext
  simp only [h, class?_withMethods]
  cases env.class? owner <;> rfl

@[simp] theorem classify_withMethods :
    (env.withMethods c methods).classify = env.classify := by
  have hv : (env.withMethods c methods).classifyExpr = env.classifyExpr := by
    funext t
    unfold classifyExpr
    rw [classOf?_withMethods]
    rfl
  have ht : (env.withMethods c methods).classifyType = env.classifyType := by
    funext bareName t
    unfold classifyType
    rw [classOf?_withMethods]
  funext q
  unfold classify
  rw [hv, ht]

@[simp] theorem siteRequest_withMethods :
    (env.withMethods c methods).siteRequest = env.siteRequest := by
  funext site q subst filter
  simp only [siteRequest, isStaticContext_withMethods]

/-! ## Walks -/

@[simp] theorem seenClasses_withMethods :
    (env.withMethods c methods).seenClasses = env.seenClasses := by
  have hnext : (env.withMethods c methods).superclasses = env.superclasses := by
    funext x
    unfold superclasses
    rw [class?_withMethods]
    cases env.class? x.1 with
    | none => rfl
    | some d =>
      simp only [Option.map_some, class?_withMethods]
      refine congrArg (· ++ _) (List.filterMap_congr fun t _ => ?_)
      rw [canonical_withMethods]
      cases env.canonical (x.2.apply t) with
      | cls id args =>
        dsimp only
        cases env.class? id <;> rfl
      | _ => rfl
  have hlimit : (env.withMethods c methods).walkLimit = env.walkLimit := by
    have hmap : (env.withMethods c methods).classes.map ClassDecl.supertypes =
        env.classes.map ClassDecl.supertypes := by
      refine List.ext_getElem? fun i => ?_
      have hi := congrArg (Option.map ClassDecl.supertypes) (class?_withMethods env c methods ⟨i⟩)
      rw [Option.map_map] at hi
      rw [List.getElem?_map, List.getElem?_map]
      exact hi
    have hfold : ∀ e : Env, e.walkLimit =
        (e.classes.map ClassDecl.supertypes).foldr (fun l n => l.length + 1 + n) 1 :=
      fun e => by rw [List.foldr_map]; rfl
    rw [hfold, hfold, hmap]
  funext x
  unfold seenClasses
  rw [hnext, hlimit]

@[simp] theorem erasedSignature_withMethods :
    (env.withMethods c methods).erasedSignature = env.erasedSignature := by
  funext m
  unfold erasedSignature
  rw [erase_withMethods]

@[simp] theorem methodCandidate_withMethods :
    (env.withMethods c methods).methodCandidate = env.methodCandidate := by
  funext r m
  unfold methodCandidate
  rw [isAccessible_withMethods]

end Env

end DoubleColon
