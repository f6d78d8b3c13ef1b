import DoubleColon.Proofs.DirectMatch
import DoubleColon.Proofs.WildcardPlaces
import DoubleColon.Proofs.Widening

/-!
# Wildcards as inferred type arguments

What a type parameter is inferred to be is a type that a value may have, or else a wildcard with a
bound. The types that a function passes have their wildcards replaced before they are matched, the
type that it returns has not: if that is a wildcard and the method returns its type parameter, the
wildcard becomes its type argument. Where wildcards are in their places there is no other way.
-/

set_option autoImplicit false

namespace DoubleColon

namespace Ty

def isProper : Ty → Bool
  | .cls _ _ | .array _ | .var _ | .inter _ | .named _ => true
  | _ => false

def isBounded : Ty → Bool
  | .wildUpper _ | .wildLower _ => true
  | _ => false

def unwrapped : Nat → Ty → Ty
  | n + 1, .wildUpper b | n + 1, .wildLower b => unwrapped n b
  | _, t => t

theorem isProper_of_tidy {t : Ty} (ht : t.isTidy = true)
    (h : t.isProper = true ∨ t.isBounded = true) : t.isProper = true := by
  cases t <;> simp_all [isTidy, isPlaced, isProper, isBounded]

theorem isProper_of_bounded {t : Ty} (h : t.isBounded = true) : t.isProper = false := by
  cases t <;> simp_all [isProper, isBounded]

theorem isBounded_of_tidyArg {t : Ty} (h : t.isTidyArg = true) :
    t = .wild ∨ t.isTidy = true ∨ t.isBounded = true := by
  cases t <;> simp_all [isTidyArg, isTidy, isPlaced, isBounded]

end Ty

def Substitution.Gives (s : Substitution) (P : Ty → Prop) : Prop := ∀ v t, s.get? v = some t → P t

theorem Substitution.gives_empty (P : Ty → Prop) : Substitution.Gives {} P := nofun

namespace Env

variable {env : Env} {isOpen : TypeVar → Bool} {dir : Flow} {P : Ty → Prop} {known : Substitution}

/-! ## What is met -/

theorem wider_cases (s t : Ty) :
    env.wider s t = s ∨ env.wider s t = t ∨ env.wider s t = env.objectTy := by
  unfold wider
  grind

theorem gives_bind (hroot : P env.objectTy) {actual : Ty}
    (hmet : ∀ t, env.takenFrom actual = some t → P t) (hk : known.Gives P) (v : TypeVar) :
    (env.bind known v actual).Gives P := by
  cases ht : env.takenFrom actual with
  | none => rwa [bind_of_none ht]
  | some t =>
    intro w u hu
    by_cases hvw : v = w
    · subst hvw
      rw [get?_bind_self ht] at hu
      obtain rfl := Option.some.inj hu
      cases hs : known.get? v with
      | none => exact hmet t ht
      | some s =>
        rcases env.wider_cases s t with h | h | h <;> rw [Option.elim_some, h]
        · exact hk v s hs
        · exact hmet t ht
        · exact hroot
    · rw [get?_bind_of_ne known hvw] at hu
      exact hk w u hu

/-- A kind of actual types that a match does not leave. -/
structure Encloses (env : Env) (dir : Flow) (Q : Ty → Prop) : Prop where
  elem : ∀ e, Q (.array e) → Q e
  args : ∀ actual formal formals actuals, Q actual →
    (env.classActual actual).bind (env.alignedArgs dir formal) = some (formals, actuals) →
      ∀ a ∈ actuals, Q a.insideWildcard

/-- If all that type variables may take of the actual types of a kind, and the root class, is of
one kind, then so is all that is inferred from them. -/
theorem gives_unify {Q : Ty → Prop} (hQ : env.Encloses dir Q) (hroot : P env.objectTy)
    (hmet : ∀ actual t, Q actual → actual.isRecovery = false → env.takenFrom actual = some t → P t)
    (n : Nat) (formal : Ty) {actual : Ty} (ha : Q actual) (hk : known.Gives P) :
    (env.unify isOpen dir n formal actual known).Gives P := by
  induction n generalizing formal actual known with
  | zero => exact hk
  | succ n ih =>
    cases hr : actual.isRecovery with
    | true => simpa [unify, hr] using hk
    | false =>
      rcases env.unify_cases isOpen dir n formal actual known with
        h | ⟨v, -, -, h⟩ | ⟨b, -, h⟩ | ⟨elem, e, -, rfl, h⟩ |
        ⟨id, args, formals, actuals, -, haligned, h⟩ <;> rw [h]
      · exact hk
      · exact gives_bind hroot (fun t => hmet actual t ha hr) hk v
      · exact ih b ha hk
      · exact ih elem (hQ.elem e ha) hk
      · refine matchArgs_keeps (p := fun k => k.Gives P) (fun x hx k hk => ?_) hk
        exact ih x.1 (hQ.args _ _ _ _ ha haligned x.2 (List.of_mem_zip hx).2) hk

theorem gives_unifyAll {Q : Ty → Prop} (hQ : env.Encloses .intoFormal Q) (hroot : P env.objectTy)
    (hmet : ∀ actual t, Q actual → actual.isRecovery = false → env.takenFrom actual = some t → P t)
    {l : List (Ty × Ty)} (hl : ∀ e ∈ l, Q e.2) (hk : known.Gives P) :
    (env.unifyAll isOpen l known).Gives P := by
  induction l generalizing known with
  | nil => exact hk
  | cons e rest ih =>
    obtain ⟨he, hrest⟩ := List.forall_mem_cons.mp hl
    exact ih hrest (gives_unify hQ hroot hmet unifyLevels e.1 he hk)

theorem gives_inferArguments {Q : Ty → Prop} (hQ : env.Encloses .intoFormal Q)
    (hroot : P env.objectTy)
    (hmet : ∀ actual t, Q actual → actual.isRecovery = false → env.takenFrom actual = some t → P t)
    (typeParams : List TypeVar) (formals : List Ty) {actuals : List Ty} (ha : ∀ a ∈ actuals, Q a) :
    (env.inferArguments typeParams formals actuals).Gives P :=
  gives_unifyAll hQ hroot hmet (fun _ he => ha _ (List.of_mem_zip he).2)
    (Substitution.gives_empty P)

/-! ## Any actual types -/

theorem encloses_all (env : Env) (dir : Flow) : env.Encloses dir fun _ => True :=
  ⟨fun _ _ => trivial, fun _ _ _ _ _ _ _ _ => trivial⟩

theorem proper_or_bounded_of_taken (actual t : Ty) (hr : actual.isRecovery = false)
    (h : env.takenFrom actual = some t) : t.isProper = true ∨ t.isBounded = true := by
  cases actual with
  | null | void | wild => cases h
  | unknown | error => cases hr
  | prim p =>
    obtain ⟨id, -, rfl⟩ := Option.map_eq_some_iff.mp h
    exact .inl rfl
  | named n =>
    obtain rfl := Option.some.inj h
    unfold canonical
    dsimp only
    split <;> exact .inl rfl
  | _ =>
    obtain rfl := Option.some.inj h
    simp [canonical, Ty.isProper, Ty.isBounded]

/-! ## Actual types with wildcards in their places -/

def IsInside (t : Ty) : Prop := t = .wild ∨ t.isTidy = true

theorem isTidy_of_taken (actual t : Ty) (ha : IsInside actual)
    (h : env.takenFrom actual = some t) : t.isTidy = true := by
  rcases ha with rfl | ha
  · cases h
  · cases actual with
    | null | void | wild => cases h
    | prim p =>
      obtain ⟨id, -, rfl⟩ := Option.map_eq_some_iff.mp h
      rfl
    | _ =>
      obtain rfl := Option.some.inj h
      exact isPlaced_canonical ha

theorem isInside_of_classActual {actual a : Ty} (ha : actual.isTidyArg = true)
    (h : env.classActual actual = some a) : IsInside a := by
  cases actual with
  | prim p =>
    obtain ⟨id, -, rfl⟩ := Option.map_eq_some_iff.mp h
    exact .inr rfl
  | wild =>
    obtain rfl := Option.some.inj h
    exact .inl rfl
  | wildUpper b | wildLower b =>
    obtain rfl := Option.some.inj h
    exact .inr ha
  | var v =>
    obtain rfl := Option.some.inj h
    exact .inr rfl
  | _ =>
    obtain rfl := Option.some.inj h
    exact .inr (isPlaced_canonical ha)

theorem isTidyArg_of_aligned (henv : dir = .intoFormal → env.PlacesWildcards) {formal : ClassType}
    {actual : Ty} (ha : actual.isTidyArg = true) {formals actuals : List Ty}
    (h : (env.classActual actual).bind (env.alignedArgs dir formal) = some (formals, actuals)) :
    ∀ a ∈ actuals, a.isTidyArg = true := by
  obtain ⟨a, hactual, haligned⟩ := Option.bind_eq_some_iff.mp h
  have hinside := isInside_of_classActual ha hactual
  unfold alignedArgs at haligned
  cases dir with
  | intoFormal =>
    dsimp only at haligned
    split at haligned
    · rename_i id args hseen
      cases haligned
      -- The lower type is the actual one here, and it is a view of it that is matched.
      rcases hinside with rfl | htidy
      · cases hseen
      · exact Ty.isTidy_cls.mp ((henv rfl).asSuper htidy hseen)
    · cases haligned
  | outOfFormal =>
    dsimp only at haligned
    split at haligned
    · split at haligned
      · cases haligned
        exact Ty.isTidy_cls.mp (hinside.resolve_left nofun)
      · cases haligned
    · cases haligned

theorem encloses_inside (henv : dir = .intoFormal → env.PlacesWildcards) :
    env.Encloses dir IsInside where
  elem := fun _ he => .inr (he.resolve_left nofun)
  args := by
    intro actual formal formals actuals ha h a hmem
    have harg : actual.isTidyArg = true := by
      rcases ha with rfl | htidy
      · rfl
      · exact Ty.isTidyArg_of_tidy htidy
    exact Ty.insideWildcard_of_tidyArg (isTidyArg_of_aligned henv harg h a hmem)

theorem gives_tidy (henv : dir = .intoFormal → env.PlacesWildcards) (n : Nat) (formal : Ty)
    {actual : Ty} (ha : IsInside actual) (hk : known.Gives (·.isTidy = true)) :
    (env.unify isOpen dir n formal actual known).Gives (·.isTidy = true) :=
  gives_unify (P := (·.isTidy = true)) (encloses_inside henv) rfl
    (fun a t ha _ => isTidy_of_taken a t ha) n formal ha hk

/-! ## The type that is returned -/

theorem takenFrom_bounded {actual : Ty} (ha : actual.isBounded = true) :
    env.takenFrom actual = some actual := by
  cases actual with
  | wildUpper | wildLower => rfl
  | _ => cases ha

/-- One level of a match with an expected wildcard: a type variable takes it, a wildcard passes it
on to its bound, and anything else is matched with what is inside of it. -/
theorem taken_step {actual : Ty} (ha : actual.isTidyArg = true) (hb : actual.isBounded = true)
    {v : TypeVar} {t : Ty} {n : Nat} {formal : Ty}
    (h : (env.unify isOpen .outOfFormal (n + 1) formal actual {}).get? v = some t) :
    t.isTidy = true ∨ (formal = .var v ∧ t = actual) ∨
      ∃ b, (formal = .wildUpper b ∨ formal = .wildLower b) ∧
        (env.unify isOpen .outOfFormal n b actual {}).get? v = some t := by
  have henv : Flow.outOfFormal = .intoFormal → env.PlacesWildcards := nofun
  rcases env.unify_cases isOpen .outOfFormal n formal actual {} with
    hu | ⟨w, rfl, -, hu⟩ | ⟨b, hformal, hu⟩ | ⟨elem, e, -, rfl, -⟩ |
    ⟨id, args, formals, actuals, -, haligned, hu⟩
  · rw [hu] at h
    cases h
  · rw [hu] at h
    by_cases hvw : w = v
    · subst hvw
      rw [get?_bind_self (takenFrom_bounded hb)] at h
      exact .inr (.inl ⟨rfl, (Option.some.inj h).symm⟩)
    · rw [get?_bind_of_ne _ hvw] at h
      cases h
  · exact .inr (.inr ⟨b, hformal, hu ▸ h⟩)
  · cases hb
  · have hgives : (matchArgs (env.unify isOpen .outOfFormal n) (formals.zip actuals) {}).Gives
        (·.isTidy = true) := by
      refine matchArgs_keeps (p := fun k => k.Gives (·.isTidy = true)) (fun x hx k hk => ?_)
        (Substitution.gives_empty _)
      have harg := isTidyArg_of_aligned henv ha haligned x.2 (List.of_mem_zip hx).2
      exact gives_tidy henv n x.1 (Ty.insideWildcard_of_tidyArg harg) hk
    exact .inl (hgives v t (hu ▸ h))

/-- A wildcard that is expected is taken as a whole by a type variable that is expected to be below
it, wildcards around the variable left aside, or else only what is inside of it is matched. -/
theorem tidy_or_taken {actual : Ty} (ha : actual.isTidyArg = true) {v : TypeVar} {t : Ty} {n : Nat}
    {formal : Ty} (h : (env.unify isOpen .outOfFormal (n + 1) formal actual {}).get? v = some t) :
    t.isTidy = true ∨ actual.isBounded = true ∧ formal.unwrapped n = .var v ∧ t = actual := by
  have henv : Flow.outOfFormal = .intoFormal → env.PlacesWildcards := nofun
  have hinside : IsInside actual → t.isTidy = true := fun hi =>
    gives_tidy henv (n + 1) formal hi (Substitution.gives_empty _) v t h
  rcases Ty.isBounded_of_tidyArg ha with rfl | htidy | hb
  · exact .inl (hinside (.inl rfl))
  · exact .inl (hinside (.inr htidy))
  clear hinside
  -- The match goes through the wildcards around the formal type, a level for each.
  induction n generalizing formal with
  | zero =>
    rcases taken_step ha hb h with htidy | ⟨rfl, rfl⟩ | ⟨b, -, hbound⟩
    · exact .inl htidy
    · exact .inr ⟨hb, rfl, rfl⟩
    · cases hbound
  | succ n ih =>
    rcases taken_step ha hb h with htidy | ⟨rfl, rfl⟩ | ⟨b, rfl | rfl, hbound⟩
    · exact .inl htidy
    · exact .inr ⟨hb, rfl, rfl⟩
    · exact ih hbound
    · exact ih hbound

theorem get?_unify_unwrapped {actual : Ty} (hb : actual.isBounded = true) {v : TypeVar}
    (hv : isOpen v = true) {n : Nat} {formal : Ty} (h : formal.unwrapped n = .var v) :
    (env.unify isOpen dir (n + 1) formal actual {}).get? v = some actual := by
  have hr : actual.isRecovery = false := by
    cases actual with
    | wildUpper | wildLower => rfl
    | _ => cases hb
  have hvar : ∀ k, (env.unify isOpen dir (k + 1) (.var v) actual {}).get? v = some actual := by
    intro k
    simp only [unify, hr, hv, Bool.false_eq_true, if_false, if_true]
    exact get?_bind_self (takenFrom_bounded hb) {} v
  induction n generalizing formal with
  | zero =>
    obtain rfl : formal = .var v := by cases formal <;> exact h
    exact hvar 0
  | succ n ih =>
    cases formal with
    | wildUpper b | wildLower b =>
      rw [unify, hr]
      exact ih h
    | var w =>
      obtain rfl : w = v := Ty.var.inj h
      exact hvar (n + 1)
    | _ => cases h

/-- What is inferred from an expected type with wildcards in their places is a wildcard exactly if
it is the expected type itself, which the type variable has taken as a whole. -/
theorem improper_iff_taken {actual : Ty} (ha : actual.isTidyArg = true) {v : TypeVar}
    (hv : isOpen v = true) {n : Nat} {formal t : Ty}
    (h : (env.unify isOpen .outOfFormal (n + 1) formal actual {}).get? v = some t)
    (hkind : t.isProper = true ∨ t.isBounded = true) :
    (t.isProper = false ↔ actual.isBounded = true ∧ formal.unwrapped n = .var v) ∧
      (t.isProper = false → t = actual) := by
  rcases tidy_or_taken ha h with htidy | ⟨hb, hvar, rfl⟩
  · have hproper := Ty.isProper_of_tidy htidy hkind
    refine ⟨iff_of_false (by simp [hproper]) fun ⟨hb, hvar⟩ => ?_, fun himproper => ?_⟩
    · rw [get?_unify_unwrapped hb hv hvar] at h
      obtain rfl := Option.some.inj h
      exact Bool.false_ne_true ((Ty.isProper_of_bounded hb).symm.trans hproper)
    · exact absurd (himproper.symm.trans hproper) Bool.false_ne_true
  · exact ⟨iff_of_true (Ty.isProper_of_bounded hb) ⟨hb, hvar⟩, fun _ => rfl⟩

/-! ## What is inferred for a method -/

def returned (env : Env) (owner : ClassDecl) (d : MethodDecl) (base : Substitution)
    (target : FunctionType) : Ty :=
  let own := (env.toldByParams owner d base target).under base
  own.apply (own.apply d.returnType)

section

variable {m : Member} {owner : ClassDecl} {d : MethodDecl} {base : Substitution}
  {target : FunctionType} {v : TypeVar} {u : Ty}

theorem told_kind (h : (env.toldByParams owner d base target).get? v = some u) :
    u.isProper = true ∨ u.isBounded = true :=
  gives_inferArguments (P := fun t => t.isProper = true ∨ t.isBounded = true)
    (env.encloses_all _) (.inl rfl) (fun a t _ => proper_or_bounded_of_taken a t) _ _
    (fun _ _ => trivial) v u h

theorem returned_kind {isOpen : TypeVar → Bool} {n : Nat} {formal actual : Ty}
    (h : (env.unify isOpen .outOfFormal n formal actual {}).get? v = some u) :
    u.isProper = true ∨ u.isBounded = true :=
  gives_unify (P := fun t => t.isProper = true ∨ t.isBounded = true)
    (env.encloses_all _) (.inl rfl) (fun a t _ => proper_or_bounded_of_taken a t) n formal trivial
    (Substitution.gives_empty _) v u h

theorem told_proper (henv : env.PlacesWildcards) (hparams : ∀ a ∈ target.params, a.isTidyArg = true)
    (h : (env.toldByParams owner d base target).get? v = some u) : u.isProper = true := by
  have hargs : ∀ a ∈ target.params.map env.withoutWildcards, IsInside a :=
    List.forall_mem_map.mpr fun a ha => .inr (isTidy_withoutWildcards (hparams a ha))
  have hgives : (env.toldByParams owner d base target).Gives (·.isTidy = true) :=
    gives_inferArguments (P := (·.isTidy = true)) (encloses_inside fun _ => henv) rfl
      (fun a t ha _ => isTidy_of_taken a t ha) d.typeParams _ hargs
  exact Ty.isProper_of_tidy (hgives v u h) (told_kind h)

/-- What is inferred of a type parameter that the qualifier has no type argument for comes from the
parameters, or, if these tell nothing of it, from the return type. -/
theorem inferred_cases (hd : env.methodOf? m = some d) (ho : env.class? m.owner = some owner)
    (ha : d.params.length = target.arity) (hv : v ∈ d.typeParams) (hb : base.get? v = none)
    (hu : (env.inferMember m base target).1.get? v = some u) :
    (env.toldByParams owner d base target).get? v = some u ∨
      (env.toldByParams owner d base target).get? v = none ∧ ∃ isOpen, isOpen v = true ∧
        (env.unify isOpen .outOfFormal unifyLevels (env.returned owner d base target)
          target.returnType {}).get? v = some u := by
  let own := (env.toldByParams owner d base target).under base
  have hown : own.get? v = (env.toldByParams owner d base target).get? v := by
    rw [Substitution.get?_under, hb]
    rfl
  rw [inferMember_of_method hd ho ha] at hu
  cases htold : (env.toldByParams owner d base target).get? v with
  | some t =>
    rw [get?_inferFromReturn_of_some (hown.trans htold)] at hu
    exact .inl hu
  | none =>
    let isOpen : TypeVar → Bool := fun w => d.typeParams.contains w && !own.contains w
    have hopen : isOpen v = true := by simp [isOpen, Substitution.contains, hown, htold, hv]
    refine .inr ⟨rfl, isOpen, hopen, ?_⟩
    unfold inferFromReturn at hu
    dsimp only at hu
    split at hu
    · rw [hown, htold] at hu
      cases hu
    · rwa [Substitution.get?_under, hown, htold, Option.none_or] at hu

end

end Env

namespace Resolver

open Env

variable {ω : Type} {r : Resolver ω} {cx : Context} {site : Site} {text : String} {t : Ty}
  {w : World ω} {n : Nat} {q : SearchedClass} {target : FunctionType} {m : ResolvedMember}
  {d : MethodDecl}

/-- If a single method is found that declares a parameter for each type of the function, what is
inferred of one of its type parameters, for which the qualifier has no type argument, is a proper
type or a wildcard with a bound. Where all wildcards are in their places, it is a wildcard exactly
if the parameters tell nothing of the type parameter, the method returns it, and the function
returns a wildcard with a bound, which is then what is inferred. -/
theorem proper_arguments_iff (h : r.SingleAnswer cx site text t w n q target m d)
    (ha : d.params.length = target.arity) {owner : ClassDecl}
    (ho : cx.env.class? m.candidate.member.owner = some owner) {v : TypeVar}
    (hv : v ∈ d.typeParams) (hb : (q.subst.updateWith m.candidate.subst).get? v = none) {u : Ty}
    (hu : m.subst.get? v = some u) :
    let base := q.subst.updateWith m.candidate.subst
    (u.isProper = true ∨ u.isBounded = true) ∧
    (cx.env.PlacesWildcards → (∀ a ∈ target.params, a.isTidyArg = true) →
      target.returnType.isTidyArg = true →
      (u.isProper = false ↔ (cx.env.toldByParams owner d base target).get? v = none ∧
        target.returnType.isBounded = true ∧
        (cx.env.returned owner d base target).unwrapped 16 = .var v) ∧
      (u.isProper = false → u = target.returnType)) := by
  intro base
  rcases inferred_cases h.declared ho ha hv hb (h.denotes.subst ▸ hu) with
    htold | ⟨hnone, isOpen, hopen, hreturned⟩
  · refine ⟨told_kind htold, fun henv hparams _ => ?_⟩
    have hproper := told_proper henv hparams htold
    refine ⟨iff_of_false (by simp [hproper]) fun himproper => ?_, fun himproper => ?_⟩
    · exact Option.some_ne_none u (htold.symm.trans himproper.1)
    · exact absurd (himproper.symm.trans hproper) Bool.false_ne_true
  · have hkind := returned_kind hreturned
    refine ⟨hkind, fun _ _ hreturn => ?_⟩
    have hiff := improper_iff_taken hreturn hopen hreturned hkind
    exact ⟨⟨fun himproper => ⟨hnone, hiff.1.mp himproper⟩, fun hall => hiff.1.mpr hall.2⟩, hiff.2⟩

end Resolver

namespace Factories

open Standard Boxes Env

def generic (m : MethodDecl) : MethodDecl := { m with isStatic := true, typeParams := [⟨14⟩] }

def makeDecl : MethodDecl := generic (method "make" [] own)

def sameDecl : MethodDecl := generic (method "same" [own] own)

def lists (t : Ty) : Ty := .cls list [t]

def util : ClassDecl :=
  { name := "Util"
    superclass := some objectTy
    methods := [makeDecl, sameDecl,
      generic (method "clear" [lists (.wildUpper (lists (.wildUpper own)))] .void)] }

def sink : ClassDecl :=
  interface "Sink" [13] [] [abstractMethod "drain" [lists (lists (.wildUpper held))] .void]

def env : Env :=
  { standard with
    classes := standard.classes ++ [util, sink]
    typeParams := standard.typeParams ++ List.replicate 2 ⟨"T", [objectTy], none⟩ }

def context : Context := ⟨env, false, ⟨0⟩, ⟨0⟩⟩

def site (text : String) : Site := Boxes.site (.type (.cls ⟨26⟩ [])) text

def answer (text : String) (t : Ty) : Except Interrupt Resolution :=
  ((expecting t).resolve context 1 (site text) world).1.map (·.resolution)

def inferred (text : String) (t : Ty) : Option Ty :=
  match answer text t with
  | .ok (.unique m) => m.subst.get? ⟨14⟩
  | _ => none

theorem fresh (text : String) (t : Ty) :
    (expecting t).IsFresh context (site text) (some t) world where
  walker := rfl
  provider := rfl
  live := by
    intro t ht
    obtain rfl := Option.some.inj ht
    exact ⟨rfl, rfl⟩
  wellFormed := Cache.well_formed_empty
  vacant := rfl

def searched : SearchedClass := ⟨⟨26⟩, {}, false, false, true⟩

def candidate (index : Nat) : Candidate := ⟨.method ⟨26⟩ index, {}, true, true, false, true⟩

theorem single (text : String) (target : FunctionType) (index : Nat) (d : MethodDecl)
    (ht : env.functionType target.interface = some target)
    (hm : answer text target.interface =
      .ok (.unique (env.resolveMember {} (some target) (candidate index)).1))
    (hd : env.methodOf? (.method ⟨26⟩ index) = some d) :
    (expecting target.interface).SingleAnswer context (site text) text target.interface world 0
      searched target (env.resolveMember {} (some target) (candidate index)).1 d :=
  ⟨fresh _ _, rfl, rfl, ht, hm, hd⟩

def ofSupplier : FunctionType :=
  functionOf (.cls ⟨19⟩ [.wildUpper stringTy]) "get" [] (.wildUpper stringTy)

def ofLists : FunctionType :=
  functionOf (.cls function [lists (.wildUpper stringTy), .wildUpper objectTy]) "apply"
    [lists (.wildUpper stringTy)] (.wildUpper objectTy)

/-- The type that `same` returns is passed to it, the one that `make` returns is not. So the first
is inferred to be a list of strings, and the other some kind of string. -/
theorem proper_arguments_iff_lists :
    let made := (env.resolveMember {} (some ofSupplier) (candidate 0)).1
    let same := (env.resolveMember {} (some ofLists) (candidate 1)).1
    answer "make" ofSupplier.interface = .ok (.unique made) ∧
    made.subst.get? ⟨14⟩ = some (.wildUpper stringTy) ∧
    ((env.toldByParams util makeDecl {} ofSupplier).get? ⟨14⟩ = none ∧
      (env.returned util makeDecl {} ofSupplier).unwrapped 16 = own) ∧
    answer "same" ofLists.interface = .ok (.unique same) ∧
    same.subst.get? ⟨14⟩ = some (lists stringTy) ∧
    ¬ ((env.toldByParams util sameDecl {} ofLists).get? ⟨14⟩ = none ∧
      (env.returned util sameDecl {} ofLists).unwrapped 16 = own) := by
  intro made same
  have henv : env.PlacesWildcards := ⟨by decide +kernel, by decide +kernel⟩
  have hmade : answer "make" ofSupplier.interface = .ok (.unique made) := by decide +kernel
  have hsame : answer "same" ofLists.interface = .ok (.unique same) := by decide +kernel
  have hstring : made.subst.get? ⟨14⟩ = some (.wildUpper stringTy) := by decide +kernel
  have hlist : same.subst.get? ⟨14⟩ = some (lists stringTy) := by decide +kernel
  have howner : env.class? ⟨26⟩ = some util := rfl
  have hmake := Resolver.proper_arguments_iff
    (single "make" ofSupplier 0 makeDecl (by decide +kernel) hmade rfl) rfl howner (v := ⟨14⟩)
    (by decide) rfl hstring
  have hkeep := Resolver.proper_arguments_iff
    (single "same" ofLists 1 sameDecl (by decide +kernel) hsame rfl) rfl howner (v := ⟨14⟩)
    (by decide) rfl hlist
  have hopen := (hmake.2 henv (by decide +kernel) (by decide +kernel)).1.mp rfl
  have hclosed := (hkeep.2 henv (by decide +kernel) (by decide +kernel)).1
  refine ⟨hmade, hstring, ⟨hopen.1, hopen.2.2⟩, hsame, hlist, fun ⟨hnone, hvar⟩ => ?_⟩
  exact nomatch hclosed.mpr ⟨hnone, rfl, hvar⟩

/-- The wildcard that a supplier returns is inferred as it stands. So is one that is passed inside
of another, where it stands since the type argument of `Sink` was put in. -/
theorem wildcards_inferred :
    inferred "make" (.cls ⟨19⟩ [.wildUpper stringTy]) = some (.wildUpper stringTy) ∧
    inferred "clear" (.cls ⟨27⟩ [.wildLower stringTy]) = some (.wildLower stringTy) := by
  decide +kernel

end Factories

end DoubleColon
