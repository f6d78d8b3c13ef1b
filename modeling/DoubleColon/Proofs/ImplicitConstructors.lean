import DoubleColon.Proofs.Narrowing

/-!
# Implicit constructors

A class that declares no constructor has one nevertheless, if it is a class in the strict sense and
not abstract. There are two rules for this. A walk of the class follows it to the letter. The rule
that settles a reference under a function type leaves out enums and what is marked abstract, which
an interface need not be. So a reference to the constructor of such an interface denotes an implicit
constructor, if the function type has no parameters; any other implicit constructor that a reference
denotes is one of a class that can be instantiated.
-/

set_option autoImplicit false

namespace DoubleColon

/-! ## The two rules -/

structure ClassDecl.Instantiable (d : ClassDecl) : Prop where
  isClass : d.kind = .cls
  concrete : d.isAbstract = false
  undeclared : d.constructors = []

structure ClassDecl.UnmarkedInterface (d : ClassDecl) : Prop where
  isInterface : d.kind = .interface
  unmarked : d.isAbstract = false
  undeclared : d.constructors = []

theorem ClassDecl.UnmarkedInterface.not_instantiable {d : ClassDecl} (h : d.UnmarkedInterface) :
    ¬d.Instantiable := by
  intro hd
  have hkind := h.isInterface.symm.trans hd.isClass
  cases hkind

namespace Env

theorem hasImplicitConstructor_iff {d : ClassDecl} :
    hasImplicitConstructor d = true ↔ d.Instantiable := by
  simp only [hasImplicitConstructor, Bool.and_eq_true, List.isEmpty_iff, decide_eq_true_eq,
    Bool.not_eq_true']
  exact ⟨fun ⟨⟨hc, hk⟩, ha⟩ => ⟨hk, ha, hc⟩, fun h => ⟨⟨h.undeclared, h.isClass⟩, h.concrete⟩⟩

/-- The two rules differ on interfaces only. -/
theorem allowsImplicit_iff {d : ClassDecl} :
    allowsImplicit d = true ↔ d.Instantiable ∨ d.UnmarkedInterface := by
  simp only [allowsImplicit, Bool.and_eq_true, List.isEmpty_iff, bne_iff_ne, ne_eq,
    Bool.not_eq_true']
  constructor
  · rintro ⟨⟨hc, hk⟩, ha⟩
    cases hkind : d.kind with
    | cls => exact .inl ⟨hkind, ha, hc⟩
    | interface => exact .inr ⟨hkind, ha, hc⟩
    | enum => exact absurd hkind hk
  · rintro (h | h)
    · exact ⟨⟨h.undeclared, by simp [h.isClass]⟩, h.concrete⟩
    · exact ⟨⟨h.undeclared, by simp [h.isInterface]⟩, h.unmarked⟩

variable {env : Env} {site : Site} {q : SearchedClass} {subst : Substitution}
  {target : Option FunctionType} {d : ClassDecl}

theorem suitsImplicit_of_unmarked (h : d.UnmarkedInterface) (env : Env) (site : Site)
    (owner : ClassId) (subst : Substitution) (t : FunctionType) :
    env.suitsImplicit site owner d subst t = .ok (decide (t.arity = 0)) := by
  have hinner : d.isInner = false := by simp [ClassDecl.isInner, h.isInterface]
  unfold suitsImplicit
  simp only [hinner, Bool.false_and, Bool.or_false, Bool.false_eq_true, if_false]
  cases d.outer <;> rfl

/-! ## What a site leads to -/

theorem implicit_of_settled {cs : List Candidate} {c : Candidate}
    (h : env.gather site q subst target = .ok (.settled cs)) (hc : c ∈ cs) :
    ∃ d t, env.class? q.id = some d ∧ target = some t ∧ site.isConstructor = true ∧
      allowsImplicit d = true ∧ env.suitsImplicit site q.id d subst t = .ok true ∧
      c.member = .implicitConstructor q.id := by
  obtain ⟨d, hd, ⟨t, suits, ht, hnew, hallows, hs, hg⟩ | hg | ⟨filter, request, -, -, hg⟩⟩ :=
    gather_cases h
  · cases hg
    cases suits with
    | false => cases hc
    | true =>
      obtain rfl := List.mem_singleton.mp hc
      exact ⟨d, t, hd, ht, hnew, hallows, hs, rfl⟩
  · cases hg
    cases hc
  · cases hg

/-- An implicit constructor that a walk reports is that of the class it walks. -/
theorem implicit_of_reported {request : WalkRequest} {c : Candidate} {k : ClassId}
    (hc : c ∈ (env.memberPlan request).reported) (hk : c.member = .implicitConstructor k) :
    k = request.cls ∧ ∃ d, env.class? k = some d ∧ d.Instantiable := by
  cases hf : request.filter.constructors with
  | false =>
    obtain ⟨-, -, m, -, rfl, -⟩ := exists_of_reported hf hc
    cases hk
  | true =>
    unfold memberPlan at hc
    rw [WalkPlan.reported_declarations, declarations] at hc
    cases hd : env.class? request.cls with
    | none => simp [hd] at hc
    | some d =>
      simp only [hd, hf, if_true] at hc
      split at hc
      · rw [List.filterMap_map, Function.id_comp, List.filterMap_some] at hc
        unfold constructorCandidates at hc
        dsimp only at hc
        split at hc
        · rename_i himplicit
          rw [List.mem_singleton.mp hc] at hk
          obtain rfl : request.cls = k := Member.implicitConstructor.inj hk
          exact ⟨rfl, d, hd, hasImplicitConstructor_iff.mp himplicit⟩
        · obtain ⟨e, -, rfl⟩ := List.mem_map.mp hc
          cases hk
      · simp at hc

/-- A reference to the constructor of an interface that is not marked abstract, converted to a
function without parameters. -/
structure SuppliesInterface (env : Env) (site : Site) (interface : Ty) (c : ClassId) : Prop where
  attached : site.attached = true
  isConstructor : site.isConstructor = true
  searched : ∃ q, env.classify site.qualifier = some q ∧ q.id = c
  declared : ∃ d, env.class? c = some d ∧ d.UnmarkedInterface
  target : ∃ t, env.functionType interface = some t ∧ t.params = []

theorem instantiable_or_supplied_of_settled (hq : env.classify site.qualifier = some q)
    (ha : site.attached = true) {t : Option Ty} {cs : List Candidate} {c : Candidate} {k : ClassId}
    (h : env.gather site q subst (t.bind env.functionType) = .ok (.settled cs)) (hc : c ∈ cs)
    (hk : c.member = .implicitConstructor k) :
    (∃ d, env.class? k = some d ∧ d.Instantiable) ∨
      ∃ interface, t = some interface ∧ env.SuppliesInterface site interface k := by
  obtain ⟨d, f, hd, hf, hnew, hallows, hsuits, hcls⟩ := implicit_of_settled h hc
  obtain rfl : q.id = k := Member.implicitConstructor.inj (hcls.symm.trans hk)
  refine (allowsImplicit_iff.mp hallows).imp (fun hi => ⟨d, hd, hi⟩) fun hi => ?_
  obtain ⟨interface, rfl, hfun⟩ := Option.bind_eq_some_iff.mp hf
  rw [suitsImplicit_of_unmarked hi] at hsuits
  have harity : f.arity = 0 := by simpa using hsuits
  have hparams : f.params = [] := List.length_eq_zero_iff.mp harity
  exact ⟨interface, rfl, ha, hnew, ⟨q, hq, rfl⟩, ⟨d, hd, hi⟩, ⟨f, hfun, hparams⟩⟩

end Env

theorem exists_of_mem_members {env : Env} {owning : Substitution} {target : Option FunctionType}
    {cs : List Candidate} {choice : Choice} {m : Member}
    (h : m ∈ (env.resolutionOf owning target cs choice).1.members) : ∃ c ∈ cs, c.member = m := by
  rw [members_resolutionOf] at h
  obtain ⟨c, hc, rfl⟩ := List.mem_map.mp h
  obtain ⟨i, -, hi⟩ := List.mem_filterMap.mp hc
  exact ⟨c, List.mem_of_getElem? hi, rfl⟩

namespace Resolver

variable {ω : Type} {r : Resolver ω} {env : Env} {site : Site}

theorem instantiable_or_supplied (hw : r.walker = Env.memberPlan) {t : Option Ty} {x : Resolution}
    (h : r.value env site t = .ok x) {c : ClassId} (hc : .implicitConstructor c ∈ x.members) :
    (∃ d, env.class? c = some d ∧ d.Instantiable) ∨
      ∃ interface, t = some interface ∧ env.SuppliesInterface site interface c := by
  have hasks : env.asks site = true := by
    by_contra ha
    rw [value_unasked r (by simpa using ha)] at h
    cases h
    cases hc
  have hne : x ≠ .empty := by
    rintro rfl
    cases hc
  obtain ⟨q, hq, hv⟩ := value_classified h hne
  let target := t.bind env.functionType
  unfold valueInClass at hv
  rcases hg : env.gather site q (env.ownerSubst site q target) target with e | ⟨found⟩ | ⟨request⟩
  · simp [target, hg] at hv
  · simp only [target, hg, Except.ok.injEq] at hv
    subst hv
    obtain ⟨e, he, hmem⟩ := exists_of_mem_members hc
    have hattached : site.attached = true := by
      simp only [Env.asks, Bool.and_eq_true] at hasks
      exact hasks.1.1
    exact Env.instantiable_or_supplied_of_settled hq hattached hg he hmem
  · simp only [target, hg, hw] at hv
    cases hchoice : r.choiceAmong env q (env.ownerSubst site q target) target
        (env.memberPlan request).reported with
    | error e =>
      rw [hchoice] at hv
      cases hv
    | ok choice =>
      rw [hchoice] at hv
      obtain rfl := Except.ok.inj (Except.ok.inj hv)
      obtain ⟨e, he, hmem⟩ := exists_of_mem_members hc
      exact .inl (Env.implicit_of_reported he hmem).2

theorem value_supplied {interface : Ty} {c : ClassId} (h : env.SuppliesInterface site interface c)
    {x : Resolution} (hx : r.value env site (some interface) = .ok x) :
    .implicitConstructor c ∈ x.members := by
  obtain ⟨q, hq, rfl⟩ := h.searched
  obtain ⟨d, hd, hi⟩ := h.declared
  obtain ⟨f, hf, hparams⟩ := h.target
  have hname : site.name = .new := by simpa [Site.isConstructor] using h.isConstructor
  have hasks : env.asks site = true := by simp [Env.asks, h.attached, hq, hname]
  have harity : f.arity = 0 := List.length_eq_zero_iff.mpr hparams
  have hsuits := Env.suitsImplicit_of_unmarked hi env site q.id (env.ownerSubst site q (some f)) f
  have hgather : env.gather site q (env.ownerSubst site q (some f)) (some f) =
      .ok (.settled [⟨.implicitConstructor q.id, env.ownerSubst site q (some f), false, true,
        false, true⟩]) := by
    unfold Env.gather
    simp only [hd, h.isConstructor, Env.allowsImplicit_iff.mpr (.inr hi), Bool.and_self, if_true,
      hsuits, harity]
    rfl
  unfold value at hx
  simp only [hasks, hq, Option.bind_some, hf, valueInClass, hgather] at hx
  obtain rfl := Except.ok.inj hx
  exact List.mem_singleton.mpr rfl

variable {cx : Context} {derive : Site → Request ω (Option Ty)} {source : TargetOrigin}
  {s : Session ω}

/-- An implicit constructor that a reference denotes is one of a class that is neither an interface
nor an enum, is not abstract and declares no constructor, unless the reference supplies instances
of an interface that is not marked abstract. Such a reference always denotes an implicit
constructor. -/
theorem implicit_constructors (hw : r.walker = Env.memberPlan) {x : Resolution}
    (h : (r.resolveOrReport cx derive site source s).1 = .ok x) (c : ClassId) :
    let supplied := ∃ interface, (interfaceOf derive site source s).1 = .ok (some interface) ∧
      cx.env.SuppliesInterface site interface c
    (.implicitConstructor c ∈ x.members →
      (∃ d, cx.env.class? c = some d ∧ d.Instantiable) ∨ supplied) ∧
    (supplied → .implicitConstructor c ∈ x.members) := by
  have hplain : ∀ q, (r.walker cx.env q).IsPlain := fun q => hw ▸ cx.env.plain_members q
  constructor
  · intro hc
    obtain ⟨t, hv, htold⟩ := exists_value hplain h
    refine (instantiable_or_supplied hw hv hc).imp_right ?_
    rintro ⟨interface, rfl, hs⟩
    have hasks : cx.env.asks site = true := by
      obtain ⟨q, hq, -⟩ := hs.searched
      have hname : site.name = .new := by simpa [Site.isConstructor] using hs.isConstructor
      simp [Env.asks, hs.attached, hq, hname]
    exact ⟨interface, htold hasks, hs⟩
  · rintro ⟨interface, ht, hs⟩
    exact value_supplied hs (value_of_answered hplain ht h)

end Resolver

/-! ## An interface that is not marked abstract -/

namespace Shapes

open Standard

def env : Env := (Env.standard.addClass
  { name := "Shape", kind := .interface, superclass := some objectTy }).1

def context : Context := ⟨env, false, ⟨0⟩, ⟨0⟩⟩

def site : Site := { id := ⟨0⟩, qualifier := .type (.cls ⟨26⟩ []), name := .new }

def supplier : Ty := .cls ⟨19⟩ [.cls ⟨26⟩ []]

/-- `Shape::new` supplies shapes, though a shape cannot be created. -/
theorem implicit_constructors_shape :
    let x := (env.resolveMember {} (env.functionType supplier)
      ⟨.implicitConstructor ⟨26⟩, {}, false, true, false, true⟩).1
    ((default : Resolver Unit).resolveOrReport context (fun _ => pure none) site
      (.assumed supplier) (.start ⟨{}, [{}], 0, ()⟩)).1 = .ok (.unique x) ∧
    env.SuppliesInterface site supplier ⟨26⟩ ∧
    .implicitConstructor ⟨26⟩ ∈ (Resolution.unique x).members ∧
    ¬∃ d, env.class? ⟨26⟩ = some d ∧ d.Instantiable := by
  intro x
  have hx : ((default : Resolver Unit).resolveOrReport context (fun _ => pure none) site
      (.assumed supplier) (.start ⟨{}, [{}], 0, ()⟩)).1 = .ok (.unique x) := by
    decide +kernel
  have hunmarked : ∃ d, env.class? ⟨26⟩ = some d ∧ d.UnmarkedInterface := ⟨_, rfl, rfl, rfl, rfl⟩
  have hs : env.SuppliesInterface site supplier ⟨26⟩ :=
    ⟨rfl, rfl, ⟨_, rfl, rfl⟩, hunmarked, ⟨_, rfl, rfl⟩⟩
  refine ⟨hx, hs, (Resolver.implicit_constructors rfl hx ⟨26⟩).2 ⟨supplier, rfl, hs⟩, ?_⟩
  rintro ⟨d, hd, hi⟩
  obtain ⟨d', hd', hu⟩ := hunmarked
  obtain rfl : d' = d := Option.some.inj (hd'.symm.trans hd)
  exact hu.not_instantiable hi

end Shapes

end DoubleColon
