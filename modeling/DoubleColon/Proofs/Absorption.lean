import DoubleColon.Env.Standard
import DoubleColon.Proofs.ApplicableCandidates
import DoubleColon.Proofs.DirectMatch

/-!
# Absorbed arguments

The last parameter of a candidate of variable arity absorbs any number of arguments. What is
passed to it is tested in the same way however many there are, but type arguments are inferred
in another way from a single argument: it is matched with the array type of the parameter, several
are matched with the type of its elements. So a candidate that may be passed several arguments may
be passed the first of them alone, unless that makes a difference to a type parameter in the last
parameter type.
-/

set_option autoImplicit false

namespace DoubleColon

def MatchInput.passing (m : MatchInput) (params : List Ty) : MatchInput :=
  { m with target := { m.target with method := { m.target.method with params } } }

namespace Env

variable {env : Env} {owner : ClassDecl} {m : MatchInput} {c : Candidate} {shape : MemberShape}

def passesDirectly (env : Env) (owner : ClassDecl) (m : MatchInput) (c : Candidate) : Bool :=
  (env.reading owner m c).any (·.direct)

theorem passesDirectly_iff (hs : env.shapeOf? c.member = some shape) :
    env.passesDirectly owner m c = true ↔ env.AppliesDirectly owner m c shape := by
  refine Iff.trans ?_ readsDirectly_eq_true_iff
  unfold passesDirectly reading
  rw [hs]
  change ((env.readsDirectly owner m c _ _ (env.passedTypes m c)).map _).any _ = true ↔ _
  cases env.readsDirectly owner m c _ _ (env.passedTypes m c) <;> simp

theorem length_passing (ts : List Ty) : (env.passedTypes (m.passing ts) c).length = ts.length :=
  List.length_map _

theorem passedTypes_append (before rest : List Ty) :
    env.passedTypes (m.passing (before ++ rest)) c =
      env.passedTypes (m.passing before) c ++ env.passedTypes (m.passing rest) c :=
  List.map_append

/-! ## What is inferred -/

def implied (env : Env) (owner : ClassDecl) (m : MatchInput) (c : Candidate)
    (shape : MemberShape) : Substitution :=
  let subst := m.ownerSubst.updateWith c.subst
  let args := env.passedTypes m c
  env.inferArguments (openParams owner c shape subst)
    ((List.range args.length).map
      (formalAt (shape.params.map subst.apply) c.isVarargs args.length)) args

theorem formalTypes_eq : env.formalTypes owner m c shape (env.passedTypes m c) =
    (shape.params.map (m.ownerSubst.updateWith c.subst).apply).map
      (env.implied owner m c shape).apply :=
  inferredParams_eq ..

def elementOf (last : Ty) : Ty := last.component?.getD last

theorem vars_elementOf (last : Ty) : (elementOf last).vars = last.vars := by
  cases last <;> rfl

def absorbing (last : Ty) (k : Nat) : Ty := if k = 1 then last else elementOf last

theorem vars_absorbing (last : Ty) (k : Nat) : (absorbing last k).vars = last.vars := by
  unfold absorbing
  split
  · rfl
  · exact vars_elementOf last

/-- The arguments before the last parameter are matched one by one, and all others with the last
parameter. -/
theorem formals_absorbing (init : List Ty) (last : Ty) (k : Nat) :
    (List.range (init.length + k)).map (formalAt (init ++ [last]) true (init.length + k)) =
      init ++ List.replicate k (absorbing last k) := by
  rw [List.range_add, List.map_append, List.map_map]
  congr 1
  · refine List.ext_getElem (by simp) fun i _ hi => ?_
    have hmin : min i init.length = i := by omega
    have hle : ¬init.length ≤ i := by omega
    simp [formalAt, hmin, hle, List.getElem?_append_left hi, List.getElem?_eq_getElem hi]
  · refine List.eq_replicate_iff.mpr ⟨by simp, fun t ht => ?_⟩
    obtain ⟨i, -, rfl⟩ := List.mem_map.mp ht
    by_cases hk : k = 1 <;> simp [formalAt, hk, absorbing, elementOf]

/-! ## Inference from absorbed arguments -/

structure Absorbs (m : MatchInput) (c : Candidate) (shape : MemberShape) (before init : List Ty)
    (last : Ty) : Prop where
  isVarargs : c.isVarargs = true
  params : shape.params.map (m.ownerSubst.updateWith c.subst).apply = init ++ [last]
  length : before.length = init.length

theorem exists_absorbs (hv : c.isVarargs = true) {last : Ty}
    (hlast : shape.params.getLast? = some last) {before : List Ty}
    (hlen : before.length + 1 = shape.params.length) :
    ∃ init, Absorbs m c shape before init ((m.ownerSubst.updateWith c.subst).apply last) := by
  obtain ⟨init, hinit⟩ := List.getLast?_eq_some_iff.mp hlast
  refine ⟨init.map (m.ownerSubst.updateWith c.subst).apply, hv, by simp [hinit], ?_⟩
  rw [hinit, List.length_append] at hlen
  rw [List.length_map]
  exact Nat.succ.inj hlen

section Absorbing

variable {before init : List Ty} {last : Ty}

theorem implied_eq (h : Absorbs m c shape before init last) (rest : List Ty) :
    let isOpen := openParams owner c shape (m.ownerSubst.updateWith c.subst)
    env.implied owner (m.passing (before ++ rest)) c shape = env.unifyAll isOpen.contains
      ((List.replicate rest.length (absorbing last rest.length)).zip
        (env.passedTypes (m.passing rest) c))
      (env.inferArguments isOpen init (env.passedTypes (m.passing before) c)) := by
  intro isOpen
  have hfit : init.length = (env.passedTypes (m.passing before) c).length := by
    rw [length_passing, h.length]
  change env.inferArguments isOpen
    ((List.range (env.passedTypes (m.passing (before ++ rest)) c).length).map
      (formalAt (shape.params.map (m.ownerSubst.updateWith c.subst).apply) c.isVarargs
        (env.passedTypes (m.passing (before ++ rest)) c).length)) _ = _
  rw [length_passing, List.length_append, h.length, h.isVarargs, h.params, formals_absorbing,
    passedTypes_append, inferArguments, List.zip_append hfit, unifyAll_append]
  rfl

theorem implied_append (h : Absorbs m c shape before init last) (rest : List Ty) :
    let isOpen := openParams owner c shape (m.ownerSubst.updateWith c.subst)
    env.implied owner (m.passing (before ++ rest)) c shape = env.unifyAll isOpen.contains
      ((List.replicate rest.length (absorbing last rest.length)).zip
        (env.passedTypes (m.passing rest) c))
      (env.implied owner (m.passing before) c shape) := by
  intro isOpen
  have hbefore := @implied_eq env owner m c shape before init last h []
  rw [List.append_nil] at hbefore
  rw [implied_eq h, hbefore]
  rfl

/-- What is absorbed tells something about the type parameters in the last parameter type only. -/
theorem get?_implied_append (h : Absorbs m c shape before init last) {v : TypeVar}
    (hlast : v ∉ last.vars) (rest : List Ty) :
    (env.implied owner (m.passing (before ++ rest)) c shape).get? v =
      (env.implied owner (m.passing before) c shape).get? v := by
  rw [implied_append h]
  refine get?_unifyAll_of_not_mem (fun e he => ?_) _
  rw [List.eq_of_mem_replicate (List.of_mem_zip he).1, vars_absorbing]
  exact hlast

theorem implied_single {elem : Ty} (h : Absorbs m c shape before init (.array elem)) {s : Ty}
    (hs : ∀ t, (m.ownerSubst.updateWith c.subst).apply (env.withoutWildcards s) ≠ .array t) :
    env.implied owner (m.passing (before ++ [s])) c shape =
      env.implied owner (m.passing before) c shape := by
  rw [implied_append h]
  exact unify_array_of_ne unifyLevels elem hs _

end Absorbing

/-! ## One absorbed argument and several -/

/-- A type parameter that is open in the last parameter type comes out differently of a single
absorbed argument than of several. Of a single one that is no array, nothing comes out for the
elements of an array. -/
structure ToldOtherwise (env : Env) (owner : ClassDecl) (m : MatchInput) (c : Candidate)
    (shape : MemberShape) (last : Ty) (before : List Ty) (s : Ty) (more : List Ty)
    (v : TypeVar) : Prop where
  isOpen : v ∈ openParams owner c shape (m.ownerSubst.updateWith c.subst)
  occurs : v ∈ ((m.ownerSubst.updateWith c.subst).apply last).vars
  differs : (env.implied owner (m.passing (before ++ [s])) c shape).get? v ≠
    (env.implied owner (m.passing (before ++ s :: more)) c shape).get? v
  untold : (∃ elem, last = .array elem) →
    (∀ t, (m.ownerSubst.updateWith c.subst).apply (env.withoutWildcards s) ≠ .array t) →
      (env.implied owner (m.passing (before ++ [s])) c shape).get? v =
        (env.implied owner (m.passing before) c shape).get? v

theorem Takes.of_append {params args rest : List Ty} {isVarargs : Bool}
    (h : env.Takes params isVarargs (args ++ rest)) : env.Takes params isVarargs args :=
  fun i arg ha => by
    obtain ⟨hi, -⟩ := List.getElem?_eq_some_iff.mp ha
    exact h i arg (by rwa [List.getElem?_append_left hi])

/-- If several absorbed arguments imply what the first of them does, it may be passed alone. -/
theorem AppliesDirectly.of_implied {before more : List Ty} {s : Ty}
    (hlen : before.length + 1 = shape.params.length)
    (himp : env.implied owner (m.passing (before ++ [s])) c shape =
      env.implied owner (m.passing (before ++ s :: more)) c shape)
    (h : env.AppliesDirectly owner (m.passing (before ++ s :: more)) c shape) :
    env.AppliesDirectly owner (m.passing (before ++ [s])) c shape where
  arity := .inl (by rw [← hlen]; exact List.length_append)
  reachable := h.reachable
  takes := by
    have htakes := h.takes
    rw [formalTypes_eq, ← himp, List.append_cons before s more, passedTypes_append] at htakes
    rw [formalTypes_eq]
    exact htakes.of_append

/-- A candidate of variable arity that several absorbed arguments may be passed to may be passed the
first of them alone, unless that tells something else about an open type parameter. -/
theorem absorbs_one (hs : env.shapeOf? c.member = some shape) (hv : c.isVarargs = true)
    {last : Ty} (hlast : shape.params.getLast? = some last) {before more : List Ty} {s : Ty}
    (hlen : before.length + 1 = shape.params.length)
    (h : env.passesDirectly owner (m.passing (before ++ s :: more)) c = true) :
    env.passesDirectly owner (m.passing (before ++ [s])) c = true ∨
      ∃ v, env.ToldOtherwise owner m c shape last before s more v := by
  obtain ⟨init, habs⟩ := exists_absorbs (m := m) hv hlast hlen
  by_cases himp : env.implied owner (m.passing (before ++ [s])) c shape =
      env.implied owner (m.passing (before ++ s :: more)) c shape
  · left
    rw [passesDirectly_iff hs] at h ⊢
    exact h.of_implied hlen himp
  · right
    obtain ⟨v, hdiff⟩ := not_forall.mp fun hall => himp (Substitution.ext_get? hall)
    refine ⟨v, ?_, ?_, hdiff, ?_⟩
    · by_contra hclosed
      exact hdiff <|
        (get?_inferArguments hclosed _ _).trans (get?_inferArguments hclosed _ _).symm
    · by_contra hfree
      exact hdiff <|
        (get?_implied_append habs hfree _).trans (get?_implied_append habs hfree _).symm
    · rintro ⟨elem, rfl⟩ hne
      rw [implied_single habs hne]

end Env

/-! ## A generic method of variable arity -/

namespace Util

open Standard

def decl : ClassDecl :=
  { name := "Util"
    superclass := some objectTy
    methods := [
      { staticMethod "first" [.array (param 13)] (param 13) with
        typeParams := [⟨13⟩], isVarargs := true }] }

def env : Env :=
  let p : TypeParam := { name := "T", upperBounds := [objectTy], lowerBound := none }
  ((Env.standard.addTypeParam p).1.addClass decl).1

def first : Candidate := ⟨.method ⟨26⟩ 0, {}, true, true, true, true⟩

def firstShape : MemberShape := ⟨[⟨13⟩], [.array (param 13)], false⟩

def passing (params : List Ty) : MatchInput :=
  ⟨⟨26⟩, {}, ⟨.cls function [stringTy, objectTy], ⟨"apply", params, objectTy⟩⟩, true, true⟩

/-- Two strings may be passed to `first`, but one may not, since it tells nothing about `T`. -/
theorem absorbs_one_string :
    env.passesDirectly decl (passing [stringTy, stringTy]) first = true ∧
    env.passesDirectly decl (passing [stringTy]) first = false ∧
    env.ToldOtherwise decl (passing []) first firstShape (.array (param 13)) [] stringTy
      [stringTy] ⟨13⟩ := by
  have hshape : env.shapeOf? first.member = some firstShape := by decide +kernel
  have htwo : env.passesDirectly decl ((passing []).passing ([] ++ stringTy :: [stringTy])) first =
      true := by decide +kernel
  have hone : env.passesDirectly decl ((passing []).passing ([] ++ [stringTy])) first = false := by
    decide +kernel
  obtain h | ⟨v, hv⟩ := Env.absorbs_one hshape rfl rfl rfl htwo
  · rw [hone] at h
    cases h
  · obtain rfl : v = ⟨13⟩ := List.mem_singleton.mp hv.isOpen
    exact ⟨htwo, hone, hv⟩

end Util

end DoubleColon
