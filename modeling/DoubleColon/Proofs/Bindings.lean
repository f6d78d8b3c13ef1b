import DoubleColon.Inference
import DoubleColon.Proofs.TypeVariables

/-!
# What inference binds

A match of types binds type variables that are open to inference and leaves all other mappings
alone. What it binds an open variable to does not depend on what the other variables of the formal
types stand for: type arguments may be put in before the match or after it.

`Env.unify_cases` says all that one level of a match can do.
-/

set_option autoImplicit false

namespace DoubleColon

namespace Env

variable {env : Env} {isOpen : TypeVar → Bool} {dir : Flow}

/-! ## One level of a match -/

theorem matchArgs_cons (step : Ty → Ty → Substitution → Substitution) (formal actual : Ty)
    (rest : List (Ty × Ty)) (known : Substitution) :
    matchArgs step ((formal, actual) :: rest) known = matchArgs step rest
      (if actual = .wild then known else step formal actual.insideWildcard known) := by
  cases actual <;> simp [matchArgs]

theorem matchArgs_keeps {p : Substitution → Prop} {step : Ty → Ty → Substitution → Substitution}
    {l : List (Ty × Ty)} (h : ∀ e ∈ l, ∀ k, p k → p (step e.1 e.2.insideWildcard k))
    {known : Substitution} (hk : p known) : p (matchArgs step l known) := by
  induction l generalizing known with
  | nil => exact hk
  | cons e rest ih =>
    obtain ⟨formal, actual⟩ := e
    rw [matchArgs_cons]
    refine ih (fun e he => h e (List.mem_cons_of_mem _ he)) ?_
    split
    · exact hk
    · exact h _ List.mem_cons_self known hk

theorem unify_cases (env : Env) (isOpen : TypeVar → Bool) (dir : Flow) (n : Nat)
    (formal actual : Ty) (known : Substitution) :
    let out := env.unify isOpen dir (n + 1) formal actual known
    out = known ∨
    (∃ v, formal = .var v ∧ isOpen v = true ∧ out = env.bind known v actual) ∨
    (∃ b, (formal = .wildUpper b ∨ formal = .wildLower b) ∧
      out = env.unify isOpen dir n b actual known) ∨
    (∃ elem e, formal = .array elem ∧ actual = .array e ∧
      out = env.unify isOpen dir n elem e known) ∨
    (∃ id args formals actuals, formal = .cls id args ∧
      (env.classActual actual).bind (env.alignedArgs dir ⟨id, args⟩) = some (formals, actuals) ∧
      out = matchArgs (env.unify isOpen dir n) (formals.zip actuals) known) := by
  intro out
  by_cases hr : actual.isRecovery = true
  · exact .inl (by simp only [out, unify, if_pos hr])
  · cases formal with
    | var v =>
      by_cases ho : isOpen v = true
      · exact .inr (.inl ⟨v, rfl, ho, by simp only [out, unify, if_neg hr, if_pos ho]⟩)
      · exact .inl (by simp only [out, unify, if_neg hr, if_neg ho])
    | wildUpper b =>
      exact .inr (.inr (.inl ⟨b, .inl rfl, by simp only [out, unify, if_neg hr]⟩))
    | wildLower b =>
      exact .inr (.inr (.inl ⟨b, .inr rfl, by simp only [out, unify, if_neg hr]⟩))
    | array elem =>
      by_cases ha : ∃ e, actual = .array e ∧ ∀ p, e ≠ .prim p
      · obtain ⟨e, rfl, hp⟩ := ha
        refine .inr (.inr (.inr (.inl ⟨elem, e, rfl, rfl, ?_⟩)))
        cases e <;> first | rfl | exact absurd rfl (hp _)
      · refine .inl ?_
        simp only [out, unify, if_neg hr]
        split
        · rfl
        · rename_i e _
          exact absurd ⟨_, rfl, by assumption⟩ ha
        · rfl
    | cls id args =>
      by_cases he : args.isEmpty = true
      · exact .inl (by simp only [out, unify, if_neg hr, if_pos he])
      · cases hb : (env.classActual actual).bind (env.alignedArgs dir ⟨id, args⟩) with
        | none => exact .inl (by simp only [out, unify, if_neg hr, if_neg he, hb])
        | some p =>
          by_cases hl : p.1.length = p.2.length
          · refine .inr (.inr (.inr (.inr ⟨id, args, p.1, p.2, rfl, hb, ?_⟩)))
            simp only [out, unify, if_neg hr, if_neg he, hb, if_pos hl]
          · exact .inl (by simp only [out, unify, if_neg hr, if_neg he, hb, if_neg hl])
    | _ => exact .inl (by simp only [out, unify, if_neg hr])

/-! ## Only open variables are bound -/

theorem get?_bind_of_ne (known : Substitution) {v w : TypeVar} (h : v ≠ w) (actual : Ty) :
    (env.bind known v actual).get? w = known.get? w := by
  unfold bind
  dsimp only
  split
  · rfl
  · simp [h]
  · split
    · rfl
    · split
      · simp [h]
      · split
        · rfl
        · simp [h]

theorem get?_unify_of_closed {v : TypeVar} (hv : isOpen v = false) (n : Nat) (formal actual : Ty)
    (known : Substitution) :
    (env.unify isOpen dir n formal actual known).get? v = known.get? v := by
  induction n generalizing formal actual known with
  | zero => rfl
  | succ n ih =>
    rcases env.unify_cases isOpen dir n formal actual known with
      h | ⟨w, -, hw, h⟩ | ⟨b, -, h⟩ | ⟨elem, e, -, -, h⟩ | ⟨_, _, formals, actuals, -, -, h⟩ <;>
      rw [h]
    · refine get?_bind_of_ne known ?_ actual
      rintro rfl
      rw [hw] at hv
      cases hv
    · exact ih b actual known
    · exact ih elem e known
    · exact matchArgs_keeps (p := fun k => k.get? v = known.get? v)
        (fun e _ k hk => (ih e.1 e.2.insideWildcard k).trans hk) rfl

theorem get?_unifyAll_of_closed {v : TypeVar} (hv : isOpen v = false) (l : List (Ty × Ty))
    (known : Substitution) : (env.unifyAll isOpen l known).get? v = known.get? v := by
  induction l generalizing known with
  | nil => rfl
  | cons e rest ih => exact (ih _).trans (get?_unify_of_closed hv _ _ _ _)

theorem get?_inferArguments {typeParams : List TypeVar} {v : TypeVar} (hv : v ∉ typeParams)
    (formals actuals : List Ty) : (env.inferArguments typeParams formals actuals).get? v = none :=
  get?_unifyAll_of_closed (by simpa using hv) _ _

theorem get?_inferFromReturn_of_some {subst : Substitution} {v : TypeVar} {t : Ty}
    (h : subst.get? v = some t) (typeParams : List TypeVar) (declared : Ty)
    (expected : Option Ty) :
    (env.inferFromReturn typeParams declared expected subst).get? v = some t := by
  unfold inferFromReturn
  cases expected with
  | none => exact h
  | some target =>
    dsimp only
    split
    · exact h
    · rw [Substitution.get?_under, h]
      rfl

theorem get?_inferFromReturn_of_not_mem {typeParams : List TypeVar} {v : TypeVar}
    (hv : v ∉ typeParams) (declared : Ty) (expected : Option Ty) (subst : Substitution) :
    (env.inferFromReturn typeParams declared expected subst).get? v = subst.get? v := by
  unfold inferFromReturn
  cases expected with
  | none => rfl
  | some target =>
    dsimp only
    split
    · rfl
    · rw [Substitution.get?_under, get?_unify_of_closed (by simp [hv])]
      cases subst.get? v <;> rfl

/-! ## Formal types with type arguments put in -/

theorem formals_eq_of_aligned {id : ClassId} {args : List Ty} {actual : Ty}
    {formals actuals : List Ty} (h : (env.classActual actual).bind
      (env.alignedArgs .intoFormal ⟨id, args⟩) = some (formals, actuals)) : formals = args := by
  obtain ⟨a, -, ha⟩ := Option.bind_eq_some_iff.mp h
  unfold alignedArgs at ha
  dsimp only at ha
  split at ha
  · exact (congrArg Prod.fst (Option.some.inj ha)).symm
  · cases ha

theorem unify_of_closed (n : Nat) {formal : Ty} (hf : ∀ v ∈ formal.vars, isOpen v = false)
    (actual : Ty) (known : Substitution) :
    env.unify isOpen .intoFormal n formal actual known = known := by
  induction n generalizing formal actual known with
  | zero => rfl
  | succ n ih =>
    rcases env.unify_cases isOpen .intoFormal n formal actual known with
      h | ⟨w, rfl, hw, -⟩ | ⟨b, hb, h⟩ | ⟨elem, e, rfl, -, h⟩ |
      ⟨id, args, formals, actuals, rfl, ha, h⟩
    · exact h
    · rw [hf w (by simp [Ty.vars])] at hw
      cases hw
    · rw [h]
      rcases hb with rfl | rfl <;> exact ih (by simpa [Ty.vars] using hf) actual known
    · rw [h]
      exact ih (by simpa [Ty.vars] using hf) e known
    · rw [h]
      obtain rfl := formals_eq_of_aligned ha
      refine matchArgs_keeps (p := (· = known)) (fun e he k hk => ?_) rfl
      have hm : e.1 ∈ formals := (List.of_mem_zip he).1
      rw [ih (fun v hv => hf v (by simpa [Ty.vars] using ⟨e.1, hm, hv⟩)), hk]

/-- A match binds only variables that occur in the formal type. -/
theorem get?_unify_of_not_mem {v : TypeVar} (n : Nat) {formal : Ty} (hv : v ∉ formal.vars)
    (actual : Ty) (known : Substitution) :
    (env.unify isOpen .intoFormal n formal actual known).get? v = known.get? v := by
  induction n generalizing formal actual known with
  | zero => rfl
  | succ n ih =>
    rcases env.unify_cases isOpen .intoFormal n formal actual known with
      h | ⟨w, rfl, -, h⟩ | ⟨b, hb, h⟩ | ⟨elem, e, rfl, -, h⟩ |
      ⟨id, args, formals, actuals, rfl, ha, h⟩ <;> rw [h]
    · exact get?_bind_of_ne known (by simpa [Ty.vars, eq_comm] using hv) actual
    · rcases hb with rfl | rfl <;> exact ih (by simpa [Ty.vars] using hv) actual known
    · exact ih (by simpa [Ty.vars] using hv) e known
    · obtain rfl := formals_eq_of_aligned ha
      refine matchArgs_keeps (p := fun k => k.get? v = known.get? v) (fun e he k hk => ?_) rfl
      have hm : e.1 ∈ formals := (List.of_mem_zip he).1
      refine (ih (fun h => hv ?_) e.2.insideWildcard k).trans hk
      simpa [Ty.vars] using ⟨e.1, hm, h⟩

theorem get?_unifyAll_of_not_mem {v : TypeVar} {l : List (Ty × Ty)}
    (hv : ∀ e ∈ l, v ∉ e.1.vars) (known : Substitution) :
    (env.unifyAll isOpen l known).get? v = known.get? v := by
  induction l generalizing known with
  | nil => rfl
  | cons e rest ih =>
    obtain ⟨he, hrest⟩ := List.forall_mem_cons.mp hv
    exact (ih hrest _).trans (get?_unify_of_not_mem _ he _ _)

theorem unifyAll_append (l rest : List (Ty × Ty)) (known : Substitution) :
    env.unifyAll isOpen (l ++ rest) known =
      env.unifyAll isOpen rest (env.unifyAll isOpen l known) := by
  induction l generalizing known with
  | nil => rfl
  | cons e l ih => exact ih _

theorem unify_array_of_ne {isOpen : TypeVar → Bool} {dir : Flow} (n : Nat) (elem : Ty)
    {actual : Ty} (h : ∀ t, actual ≠ .array t) (known : Substitution) :
    env.unify isOpen dir n (.array elem) actual known = known := by
  cases n with
  | zero => rfl
  | succ n =>
    unfold unify
    split
    · rfl
    · dsimp only
      split
      · rfl
      · exact absurd rfl (h _)
      · rfl

theorem matchArgs_congr {step : Ty → Ty → Substitution → Substitution} {f : Ty → Ty}
    {l : List (Ty × Ty)}
    (h : ∀ e ∈ l, ∀ actual known, step (f e.1) actual known = step e.1 actual known)
    (known : Substitution) :
    matchArgs step (l.map fun e => (f e.1, e.2)) known = matchArgs step l known := by
  induction l generalizing known with
  | nil => rfl
  | cons e rest ih =>
    obtain ⟨formal, actual⟩ := e
    rw [List.map_cons, matchArgs_cons, matchArgs_cons, h _ List.mem_cons_self]
    exact ih (fun e he => h e (List.mem_cons_of_mem _ he)) _

theorem alignedArgs_apply (s : Substitution) (id : ClassId) (args : List Ty) (actual : Ty) :
    env.alignedArgs .intoFormal ⟨id, args.map s.apply⟩ actual =
      (env.alignedArgs .intoFormal ⟨id, args⟩ actual).map fun p => (p.1.map s.apply, p.2) := by
  simp only [alignedArgs]
  split <;> rfl

/-- A substitution is apart from the open variables if it neither maps nor mentions one. -/
def Apart (isOpen : TypeVar → Bool) (s : Substitution) : Prop :=
  ∀ v t, s.get? v = some t → isOpen v = false ∧ ∀ w ∈ t.vars, isOpen w = false

theorem apart_of_entries {s : Substitution} (h : ∀ e ∈ s.entries,
    isOpen e.1 = false ∧ ∀ w ∈ e.2.vars, isOpen w = false) : Apart isOpen s :=
  fun v t ht => h (v, t) (Substitution.mem_of_find?_eq_some ht)

/-- Type arguments may be put into the formal type before the match. -/
theorem unify_apply {s : Substitution} (hs : Apart isOpen s) (n : Nat) (formal actual : Ty)
    (known : Substitution) : env.unify isOpen .intoFormal n (s.apply formal) actual known =
      env.unify isOpen .intoFormal n formal actual known := by
  induction n generalizing formal actual known with
  | zero => rfl
  | succ n ih =>
    cases formal with
    | var v =>
      cases hv : s.get? v with
      | none => rw [Substitution.apply_var_of_none hv]
      | some t =>
        -- Nothing is bound on either side: what is put for a variable is closed, as it is itself.
        obtain ⟨hopen, ht⟩ := hs v t hv
        rw [Substitution.apply_var_of_some hv, unify_of_closed _ ht,
          unify_of_closed _ (by simpa [Ty.vars] using hopen)]
    | wildUpper b | wildLower b =>
      simp only [Substitution.apply, unify]
      split
      · rfl
      · exact ih b actual known
    | array elem =>
      simp only [Substitution.apply, unify]
      split
      · rfl
      · split
        · rfl
        · exact ih elem _ known
        · rfl
    | cls id args =>
      simp only [Substitution.apply, Substitution.applyAll_eq_map, unify, List.isEmpty_map]
      split
      · rfl
      · split
        · rfl
        · cases hc : env.classActual actual with
          | none => rfl
          | some a =>
            rw [Option.bind_some, Option.bind_some, alignedArgs_apply]
            cases env.alignedArgs .intoFormal ⟨id, args⟩ a with
            | none => rfl
            | some p =>
              simp only [Option.map_some, List.length_map]
              split
              · rw [List.zip_map_left]
                exact matchArgs_congr (fun e _ => ih e.1) known
              · rfl
    | _ => rfl

theorem unifyAll_apply {s : Substitution} (hs : Apart isOpen s) (formals actuals : List Ty)
    (known : Substitution) : env.unifyAll isOpen ((formals.map s.apply).zip actuals) known =
      env.unifyAll isOpen (formals.zip actuals) known := by
  induction formals generalizing actuals known with
  | nil => rfl
  | cons f rest ih =>
    cases actuals with
    | nil => rfl
    | cons a as =>
      simp only [List.map_cons, List.zip_cons_cons, unifyAll]
      rw [unify_apply hs]
      exact ih as _

/-- Type arguments that are apart from the type parameters may be put in before inference. -/
theorem inferArguments_apply {typeParams : List TypeVar} {s : Substitution}
    (hs : Apart (fun v => typeParams.contains v) s) (formals actuals : List Ty) :
    env.inferArguments typeParams (formals.map s.apply) actuals =
      env.inferArguments typeParams formals actuals :=
  unifyAll_apply hs formals actuals {}

end Env

end DoubleColon
