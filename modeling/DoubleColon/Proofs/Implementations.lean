import DoubleColon.Proofs.AbstractMembers

/-!
# Implemented methods

An interface may implement a method that it inherits, and so leave nothing of it to be implemented.
The function type of an interface type does not take this into account: it is read off the abstract
methods alone, those that have been implemented on the way included. So it stays the same whatever
methods with a body are added, and an interface whose single method has been implemented is as
functional as before.
-/

set_option autoImplicit false

namespace DoubleColon

def MethodDecl.isLeftOpen (m : MethodDecl) : Bool := m.isAbstract && !m.isStatic

def MethodDecl.isDefault (m : MethodDecl) : Bool := !m.isAbstract && !m.isStatic

namespace Env

open Hierarchy

def HasSignature (env : Env) (d : ClassDecl) (args : List Ty) (j : MethodDecl) (m : Signature) :
    Prop :=
  (env.seenMethod d args j).key = m.key

inductive Implements (env : Env) (c : ClassType) (m : Signature) : Prop
  | declared {d : ClassDecl} {j : MethodDecl} (hd : env.class? c.id = some d)
      (hk : d.kind = .interface) (hj : j ∈ d.methods) (hdefault : j.isDefault = true)
      (hm : env.HasSignature d c.args j m) : Implements env c m

def IsOrExtends (env : Env) (c k : ClassType) : Prop := ∃ n, ReachedIn env.ExtendsInterface c n k

/-- On a way from an interface type to one that declares an abstract method, an interface implements
it. -/
def ImplementedOnTheWay (env : Env) (c : ClassType) (m : Signature) : Prop :=
  ∃ k i, env.IsOrExtends c k ∧ env.IsOrExtends k i ∧ env.DeclaresAbstract i m ∧ env.Implements k m

section
variable {env : Env} {id : ClassId} {d : ClassDecl} {methods : List MethodDecl}

/-! ## Methods with a body have no say -/

theorem abstractMethods_of_open (hd : env.class? id = some d)
    (hopen : methods.filter MethodDecl.isLeftOpen = d.methods.filter MethodDecl.isLeftOpen)
    (i : ClassType) : (env.withMethods id methods).abstractMethods i = env.abstractMethods i := by
  by_cases hi : i.id = id
  · subst hi
    have hfilter : methods.filter (fun m => m.isAbstract && !m.isStatic) =
        d.methods.filter (fun m => m.isAbstract && !m.isStatic) := hopen
    simp only [abstractMethods, class?_withMethods, hd, Option.map_some, if_true,
      ClassDecl.withMethods, Option.getD_some, hfilter]
    rfl
  · exact abstractMethods_of_ne env id methods hi

theorem singleAbstractMethod_of_open (hd : env.class? id = some d)
    (hopen : methods.filter MethodDecl.isLeftOpen = d.methods.filter MethodDecl.isLeftOpen)
    (c : ClassType) :
    (env.withMethods id methods).singleAbstractMethod c = env.singleAbstractMethod c := by
  have hlimit : (env.withMethods id methods).searchLimit = env.searchLimit := rfl
  have hmethods : (env.withMethods id methods).abstractMethods = env.abstractMethods :=
    funext (abstractMethods_of_open hd hopen)
  simp only [singleAbstractMethod, superinterfaces_withMethods, addSignatures_withMethods, hlimit,
    hmethods]

theorem functionSignature_of_open (hd : env.class? id = some d)
    (hopen : methods.filter MethodDecl.isLeftOpen = d.methods.filter MethodDecl.isLeftOpen)
    (t : Ty) : (env.withMethods id methods).functionSignature t = env.functionSignature t := by
  have hleaf : (env.withMethods id methods).signatureLeaf = env.signatureLeaf := by
    funext s
    unfold signatureLeaf
    rw [canonical_withMethods]
    cases env.canonical s with
    | cls k args =>
      simp only [class?_withMethods, singleAbstractMethod_of_open hd hopen]
      cases env.class? k <;> rfl
    | _ => rfl
  unfold functionSignature
  rw [overParts_withMethods, hleaf]

/-! ## Hierarchies with other methods -/

theorem extendsInterface_withMethods :
    (env.withMethods id methods).ExtendsInterface = env.ExtendsInterface := by
  rw [← leads_superinterfaces, ← leads_superinterfaces, superinterfaces_withMethods]

theorem isOrExtends_withMethods {c k : ClassType} :
    (env.withMethods id methods).IsOrExtends c k ↔ env.IsOrExtends c k := by
  unfold IsOrExtends
  rw [extendsInterface_withMethods]

/-- What was left to be implemented still is. -/
theorem DeclaresAbstract.withMethods (hd : env.class? id = some d)
    (hopen : methods.filter MethodDecl.isLeftOpen = d.methods.filter MethodDecl.isLeftOpen)
    {i : ClassType} {m : Signature} (h : env.DeclaresAbstract i m) :
    (env.withMethods id methods).DeclaresAbstract i m := by
  obtain @⟨e, j, he, hk, hj, habstract, hstatic⟩ := h
  have he' := class?_withMethods env id methods i.id
  rw [he, Option.map_some] at he'
  have hmem : j ∈ (e.withMethods (if i.id = id then some methods else none)).methods := by
    by_cases hi : i.id = id
    · obtain rfl : d = e := Option.some.inj (hd.symm.trans (hi ▸ he))
      have hleft : j ∈ methods.filter MethodDecl.isLeftOpen :=
        hopen ▸ List.mem_filter.mpr ⟨hj, by simp [MethodDecl.isLeftOpen, habstract, hstatic]⟩
      simpa [hi, ClassDecl.withMethods] using (List.mem_filter.mp hleft).1
    · simpa [hi, ClassDecl.withMethods] using hj
  exact (DeclaresAbstract.declared he' hk hmem habstract hstatic :)

/-- If a class is given other methods and the same ones are left to be implemented, every type has
the function type that it had before. In particular, if the single abstract method of an interface
type is implemented on the way to where it is declared, it is the single abstract method all the
same. -/
theorem implemented_method_stays (hd : env.class? id = some d)
    (hopen : methods.filter MethodDecl.isLeftOpen = d.methods.filter MethodDecl.isLeftOpen) :
    (∀ t, (env.withMethods id methods).functionSignature t = env.functionSignature t) ∧
    ∀ c k i m, env.functionSignature (ClassType.toTy c) = some m →
      d.kind = .interface → k.id = id → env.IsOrExtends c k → env.IsOrExtends k i →
      env.DeclaresAbstract i m →
      (∃ j ∈ methods, j.isDefault = true ∧ env.HasSignature d k.args j m) →
        (env.withMethods id methods).functionSignature c.toTy = some m ∧
          (env.withMethods id methods).ImplementedOnTheWay c m := by
  have hsame := functionSignature_of_open hd hopen
  refine ⟨hsame, fun c k i m hm hkind hk hck hki hi ⟨j, hj, hdefault, hsig⟩ => ?_⟩
  subst hk
  have hd' := class?_withMethods env k.id methods k.id
  rw [hd, Option.map_some, if_pos rfl] at hd'
  refine ⟨(hsame _).trans hm, k, i, isOrExtends_withMethods.mpr hck,
    isOrExtends_withMethods.mpr hki, hi.withMethods hd hopen, ?_⟩
  exact .declared hd' hkind hj hdefault hsig

end

end Env

namespace Defaults

open Standard Env

def accept : MethodDecl := method "accept" [param 13] .void

def sink : ClassDecl := interface "Sink" [13] [.cls ⟨20⟩ [param 13]] []

def quiet : ClassDecl := interface "Quiet" [] [.cls ⟨15⟩ []] [method "run" [] .void]

def env : Env :=
  { standard with
    classes := standard.classes ++ [sink, quiet]
    typeParams := standard.typeParams ++ [⟨"T", [objectTy], none⟩] }

/-- A `Sink<String>` accepts strings. It does so too if `Sink` is given an `accept` of its own. -/
theorem implemented_method_stays_sink :
    let m : Signature := ⟨"accept", [stringTy], .void⟩
    env.functionSignature (.cls ⟨26⟩ [stringTy]) = some m ∧
    (env.withMethods ⟨26⟩ [accept]).functionSignature (.cls ⟨26⟩ [stringTy]) = some m ∧
    (env.withMethods ⟨26⟩ [accept]).ImplementedOnTheWay ⟨⟨26⟩, [stringTy]⟩ m := by
  intro m
  have hm : env.functionSignature (.cls ⟨26⟩ [stringTy]) = some m := by decide +kernel
  have hself : env.IsOrExtends ⟨⟨26⟩, [stringTy]⟩ ⟨⟨26⟩, [stringTy]⟩ := ⟨0, .start⟩
  have hup : env.IsOrExtends ⟨⟨26⟩, [stringTy]⟩ ⟨⟨20⟩, [stringTy]⟩ :=
    ⟨1, .step .start (mem_superinterfaces.mp (by decide +kernel))⟩
  have hdeclared : env.DeclaresAbstract ⟨⟨20⟩, [stringTy]⟩ m :=
    (mem_abstractMethods.mp (by decide +kernel)).2
  have hall := @implemented_method_stays env ⟨26⟩ sink [accept] rfl rfl
  exact ⟨hm, hall.2 ⟨⟨26⟩, [stringTy]⟩ ⟨⟨26⟩, [stringTy]⟩ ⟨⟨20⟩, [stringTy]⟩ m hm rfl rfl hself
    hup hdeclared ⟨accept, by simp, rfl, by unfold HasSignature; decide +kernel⟩⟩

/-- A `Quiet` has nothing left to be implemented, and yet it is functional. -/
theorem quiet_runs :
    env.functionSignature (.cls ⟨27⟩ []) = some ⟨"run", [], .void⟩ ∧
    env.ImplementedOnTheWay ⟨⟨27⟩, []⟩ ⟨"run", [], .void⟩ := by
  have hup : env.IsOrExtends ⟨⟨27⟩, []⟩ ⟨⟨15⟩, []⟩ :=
    ⟨1, .step .start (mem_superinterfaces.mp (by decide +kernel))⟩
  have hdeclared : env.DeclaresAbstract ⟨⟨15⟩, []⟩ ⟨"run", [], .void⟩ :=
    (mem_abstractMethods.mp (by decide +kernel)).2
  have himplements : env.Implements ⟨⟨27⟩, []⟩ ⟨"run", [], .void⟩ :=
    .declared (d := quiet) (j := method "run" [] .void) rfl rfl List.mem_cons_self rfl rfl
  exact ⟨by decide +kernel, ⟨⟨27⟩, []⟩, ⟨⟨15⟩, []⟩, ⟨0, .start⟩, hup, hdeclared, himplements⟩

end Defaults

end DoubleColon
