import Mathlib.Data.List.Basic
import DoubleColon.Proofs.Bindings
import DoubleColon.Proofs.OwnReceivers

/-!
# Matching an instance

A formal type whose variables have been replaced is an instance of it. If the formal type is matched
against its instance, every open variable that occurs in it is bound to what has replaced it, and
nothing else is bound. A variable that occurs several times meets the same type each time. The match
goes through a bounded number of type constructors and does not see what lies deeper.
-/

set_option autoImplicit false

namespace DoubleColon

namespace Ty

/-! ## Formal types -/

mutual

def occurrences : Ty → List (TypeVar × Nat)
  | .var v => [(v, 0)]
  | .cls _ args => occurrencesBelow args
  | .array elem => (occurrences elem).map fun p => (p.1, p.2 + 1)
  | .wildUpper b | .wildLower b => (occurrences b).map fun p => (p.1, p.2 + 1)
  | .inter parts => occurrencesBelow parts
  | _ => []

def occurrencesBelow : List Ty → List (TypeVar × Nat)
  | [] => []
  | t :: rest => (occurrences t).map (fun p => (p.1, p.2 + 1)) ++ occurrencesBelow rest

end

/-- Types that are built from type variables by arrays and by class types, whose arguments may be
wildcards over such types. Where no variable occurs, any type may stand. -/
inductive IsFormal : Ty → Prop
  | var (v : TypeVar) : IsFormal (.var v)
  | array {elem : Ty} (h : IsFormal elem) : IsFormal (.array elem)
  | cls {id : ClassId} {args : List Ty} (h : ∀ a ∈ args, IsFormal a.insideWildcard) :
      IsFormal (.cls id args)
  | constant {t : Ty} (h : t.vars = []) : IsFormal t

def isTakenAsIs : Ty → Bool
  | .cls _ _ | .array _ | .var _ | .inter _ => true
  | _ => false

theorem occurrencesBelow_eq_flatMap (l : List Ty) : occurrencesBelow l =
    l.flatMap fun t => t.occurrences.map fun p => (p.1, p.2 + 1) := by
  induction l with
  | nil => rfl
  | cons t rest ih => rw [occurrencesBelow, ih, List.flatMap_cons]

theorem varsAll_eq_flatMap (l : List Ty) : varsAll l = l.flatMap vars := by
  induction l with
  | nil => rfl
  | cons t rest ih => rw [varsAll, ih, List.flatMap_cons]

theorem vars_eq_map (t : Ty) : t.vars = t.occurrences.map Prod.fst := by
  have hbelow : ∀ l : List Ty, (∀ t ∈ l, t.vars = t.occurrences.map Prod.fst) →
      varsAll l = (occurrencesBelow l).map Prod.fst := by
    intro l h
    rw [varsAll_eq_flatMap, occurrencesBelow_eq_flatMap, List.map_flatMap]
    refine List.flatMap_congr fun t ht => ?_
    rw [h t ht, List.map_map]
    rfl
  induction t using inductionOn with
  | cls id args ih => exact hbelow args ih
  | inter parts ih => exact hbelow parts ih
  | array elem ih | wildUpper elem ih | wildLower elem ih =>
    rw [vars, occurrences, ih, List.map_map]
    rfl
  | _ => rfl

theorem exists_level {t : Ty} {n : Nat} (hv : t.vars ≠ []) (h : ∀ p ∈ t.occurrences, p.2 < n) :
    ∃ m, n = m + 1 := by
  rw [vars_eq_map, Ne, List.map_eq_nil_iff] at hv
  obtain ⟨p, hp⟩ := List.exists_mem_of_ne_nil _ hv
  exact Nat.exists_eq_add_one.mpr (Nat.zero_lt_of_lt (h p hp))

theorem occurrences_below {l : List (TypeVar × Nat)} {n : Nat}
    (h : ∀ p ∈ l.map (fun p => (p.1, p.2 + 1)), p.2 < n + 1) : ∀ p ∈ l, p.2 < n :=
  fun p hp => Nat.lt_of_succ_lt_succ (h (p.1, p.2 + 1) (List.mem_map_of_mem hp))

theorem occurrences_arg {id : ClassId} {args : List Ty} {n : Nat}
    (h : ∀ p ∈ (Ty.cls id args).occurrences, p.2 < n + 1) {a : Ty} (ha : a ∈ args) :
    ∀ p ∈ a.occurrences, p.2 < n := by
  rw [occurrences, occurrencesBelow_eq_flatMap] at h
  exact occurrences_below fun p hp => h p (List.mem_flatMap.mpr ⟨a, ha, hp⟩)

theorem insideWildcard_of_taken {t : Ty} (h : t.isTakenAsIs = true) :
    t ≠ .wild ∧ t.insideWildcard = t := by
  cases t <;> simp_all [isTakenAsIs, insideWildcard]

theorem isRecovery_of_taken {t : Ty} (h : t.isTakenAsIs = true) : t.isRecovery = false := by
  cases t <;> simp_all [isTakenAsIs, isRecovery]

end Ty

namespace Substitution

variable {s : Substitution} {isOpen : TypeVar → Bool}

/-- Every variable is replaced by a type that is taken as it is. -/
def TakenAsIs (s : Substitution) : Prop := ∀ v t, s.get? v = some t → t.isTakenAsIs = true

theorem TakenAsIs.var (hs : s.TakenAsIs) (v : TypeVar) : (s.apply (.var v)).isTakenAsIs = true := by
  cases hv : s.get? v with
  | none => simp [apply_var_of_none hv, Ty.isTakenAsIs]
  | some t => rw [apply_var_of_some hv, hs v t hv]

theorem TakenAsIs.apply (hs : s.TakenAsIs) {f : Ty} (hf : f.IsFormal) (hv : f.vars ≠ []) :
    (s.apply f).isTakenAsIs = true := by
  cases hf with
  | var v => exact hs.var v
  | array h => rfl
  | cls h => rfl
  | constant h => exact absurd h hv

def learn (s : Substitution) (isOpen : TypeVar → Bool) :
    List TypeVar → Substitution → Substitution
  | [], known => known
  | v :: rest, known =>
      learn s isOpen rest (if isOpen v then known.insert v (s.apply (.var v)) else known)

theorem learn_append (l rest : List TypeVar) (known : Substitution) :
    s.learn isOpen (l ++ rest) known = s.learn isOpen rest (s.learn isOpen l known) := by
  induction l generalizing known with
  | nil => rfl
  | cons v l ih => exact ih _

theorem get?_learn (l : List TypeVar) (known : Substitution) (v : TypeVar) :
    (s.learn isOpen l known).get? v =
      if isOpen v = true ∧ v ∈ l then some (s.apply (.var v)) else known.get? v := by
  induction l generalizing known with
  | nil => simp [learn]
  | cons w rest ih =>
    rw [learn, ih]
    by_cases hw : w = v
    · subst hw
      by_cases ho : isOpen w = true <;> simp [ho]
    · have hkept : (if isOpen w = true then known.insert w (s.apply (.var w)) else known).get? v =
          known.get? v := by
        split <;> simp [hw]
      simp [hkept, Ne.symm hw]

def Agrees (s known : Substitution) : Prop := ∀ v t, known.get? v = some t → t = s.apply (.var v)

theorem Agrees.learn {known : Substitution} (h : s.Agrees known) (l : List TypeVar) :
    s.Agrees (s.learn isOpen l known) := by
  intro v t ht
  rw [get?_learn] at ht
  split at ht
  · exact (Option.some.inj ht).symm
  · exact h v t ht

end Substitution

namespace Env

open Substitution

variable {env : Env} {s known : Substitution} {isOpen : TypeVar → Bool}

/-! ## The match -/

/-- A variable that meets what has replaced it is bound to that, if it was not bound to it
already. -/
theorem bind_instance (hs : s.TakenAsIs) (hk : s.Agrees known) (v : TypeVar) :
    env.bind known v (s.apply (.var v)) = known.insert v (s.apply (.var v)) := by
  have htaken := hs.var v
  have hsame : ∀ t, known.get? v = some t → t = s.apply (.var v) := hk v
  generalize s.apply (.var v) = u at htaken hsame
  have hkept : ∀ t, known.get? v = some t → known = known.insert v u := by
    intro t ht
    refine ext_get? fun w => ?_
    rw [get?_insert]
    split
    · rename_i hw
      rw [← hw, ht, hsame t ht]
    · rfl
  unfold bind
  cases u with
  | cls | array | var | inter =>
    dsimp only [canonical]
    split
    · contradiction
    · rename_i hc hnone
      rw [Option.some.inj hc]
    · rename_i t r hc ht
      obtain rfl := Option.some.inj hc
      rw [if_pos (hsame r ht)]
      exact hkept r ht
  | _ => cases htaken

theorem unify_cls (hlim : 0 < env.searchLimit) (n : Nat) (id : ClassId) (args : List Ty)
    (known : Substitution) :
    env.unify isOpen .intoFormal (n + 1) (.cls id args) (s.apply (.cls id args)) known =
      matchArgs (env.unify isOpen .intoFormal n) (args.map fun a => (a, s.apply a)) known := by
  have hself := env.asSuper_self hlim id (args.map s.apply)
  have hzip : args.map (fun a => (a, s.apply a)) = args.zip (args.map s.apply) :=
    List.map_prod_left_eq_zip
  cases args with
  | nil => rfl
  | cons a rest =>
    simp only [unify, apply, applyAll_eq_map, Ty.isRecovery, List.isEmpty_cons, classActual,
      canonical, Option.bind_some, alignedArgs, hself, List.length_map, if_true,
      Bool.false_eq_true, if_false, hzip]

theorem matchArgs_instance {step : Ty → Ty → Substitution → Substitution} {args : List Ty}
    (h : ∀ a ∈ args, ∀ k, s.Agrees k → (if s.apply a = .wild then k else
      step a (s.apply a).insideWildcard k) = s.learn isOpen a.vars k)
    (hk : s.Agrees known) : matchArgs step (args.map fun a => (a, s.apply a)) known =
      s.learn isOpen (args.flatMap Ty.vars) known := by
  induction args generalizing known with
  | nil => rfl
  | cons a rest ih =>
    obtain ⟨ha, hrest⟩ := List.forall_mem_cons.mp h
    rw [List.map_cons, matchArgs_cons, ha known hk, ih hrest (hk.learn _), List.flatMap_cons,
      learn_append]

theorem unify_arg (hs : s.TakenAsIs) {a : Ty} (ha : a.insideWildcard.IsFormal) {n : Nat}
    (hdeep : ∀ p ∈ a.occurrences, p.2 < n) (hk : s.Agrees known)
    (ih : ∀ {n : Nat} {known : Substitution}, (∀ p ∈ a.insideWildcard.occurrences, p.2 < n) →
      s.Agrees known → env.unify isOpen .intoFormal n a.insideWildcard
        (s.apply a.insideWildcard) known = s.learn isOpen a.insideWildcard.vars known) :
    (if s.apply a = .wild then known else
      env.unify isOpen .intoFormal n a (s.apply a).insideWildcard known) =
        s.learn isOpen a.vars known := by
  by_cases hv : a.vars = []
  · rw [unify_of_closed n (by simp [hv]), ite_self, hv]
    rfl
  cases a with
  | wildUpper b | wildLower b =>
    obtain ⟨n, rfl⟩ := Ty.exists_level hv hdeep
    have hr := Ty.isRecovery_of_taken (hs.apply ha hv)
    simp only [apply, reduceCtorEq, if_false, Ty.insideWildcard] at hr ⊢
    rw [unify, hr]
    exact ih (Ty.occurrences_below hdeep) hk
  | _ =>
    obtain ⟨hne, hinside⟩ := Ty.insideWildcard_of_taken (hs.apply ha hv)
    exact (if_neg hne).trans ((congrArg (env.unify isOpen .intoFormal n _ · known) hinside).trans
      (ih hdeep hk))

/-- A formal type that is matched with its instance, with as many levels as its variables lie deep,
has its open variables bound to what has replaced them. -/
theorem unify_instance (hlim : 0 < env.searchLimit) (hs : s.TakenAsIs) {f : Ty} (hf : f.IsFormal)
    {n : Nat} (hdeep : ∀ p ∈ f.occurrences, p.2 < n) (hk : s.Agrees known) :
    env.unify isOpen .intoFormal n f (s.apply f) known = s.learn isOpen f.vars known := by
  induction hf generalizing n known with
  | constant h =>
    rw [unify_of_closed n (by simp [h]), h]
    rfl
  | var v =>
    obtain ⟨n, rfl⟩ := Nat.exists_eq_add_one.mpr (hdeep (v, 0) (by simp [Ty.occurrences]))
    rw [unify, Ty.isRecovery_of_taken (hs.var v), bind_instance hs hk]
    rfl
  | @array elem hf ih =>
    by_cases hv : elem.vars = []
    · rw [unify_of_closed n (by simp [Ty.vars, hv]), Ty.vars, hv]
      rfl
    obtain ⟨n, rfl⟩ := Ty.exists_level (t := .array elem) hv hdeep
    have htaken := hs.apply hf hv
    rw [Ty.vars, ← ih (Ty.occurrences_below hdeep) hk]
    simp only [unify, apply, Ty.isRecovery, Bool.false_eq_true, if_false]
    split
    · rename_i hprim
      rw [Ty.array.inj hprim] at htaken
      cases htaken
    · rename_i e _ he
      rw [Ty.array.inj he]
    · rename_i hne
      exact absurd rfl (hne _)
  | @cls id args hargs ih =>
    by_cases hv : (Ty.cls id args).vars = []
    · rw [unify_of_closed n (by simp [hv]), hv]
      rfl
    obtain ⟨n, rfl⟩ := Ty.exists_level hv hdeep
    rw [unify_cls hlim, Ty.vars, Ty.varsAll_eq_flatMap]
    refine matchArgs_instance (fun a ha k hk => ?_) hk
    exact unify_arg hs (hargs a ha) (Ty.occurrences_arg hdeep ha) hk (ih a ha)

theorem unifyAll_instance (hlim : 0 < env.searchLimit) (hs : s.TakenAsIs) {formals : List Ty}
    (hf : ∀ f ∈ formals, f.IsFormal) (hdeep : ∀ f ∈ formals, ∀ p ∈ f.occurrences, p.2 ≤ 16)
    (hk : s.Agrees known) : env.unifyAll isOpen (formals.map fun f => (f, s.apply f)) known =
      s.learn isOpen (formals.flatMap Ty.vars) known := by
  induction formals generalizing known with
  | nil => rfl
  | cons f rest ih =>
    obtain ⟨hf, hrest⟩ := List.forall_mem_cons.mp hf
    obtain ⟨hdeep, hdeeper⟩ := List.forall_mem_cons.mp hdeep
    have hlevels : ∀ p ∈ f.occurrences, p.2 < unifyLevels := fun p hp =>
      Nat.lt_succ_of_le (hdeep p hp)
    rw [List.map_cons, unifyAll, unify_instance hlim hs hf hlevels hk,
      ih hrest hdeeper (hk.learn _), List.flatMap_cons, learn_append]

/-- From formal types and their instance under a substitution inference recovers the substitution:
it maps the listed type parameters that occur in the formal types, each as the substitution does,
and nothing else. For this no variable may lie deeper than sixteen type constructors, and every
variable must be replaced by a class type, an array, a type variable or an intersection. -/
theorem recovers_arguments (hlim : 0 < env.searchLimit) {formals : List Ty}
    (hf : ∀ f ∈ formals, f.IsFormal) (hdeep : ∀ f ∈ formals, ∀ p ∈ f.occurrences, p.2 ≤ 16)
    (hs : s.TakenAsIs) (typeParams : List TypeVar) (v : TypeVar) :
    (env.inferArguments typeParams formals (formals.map s.apply)).get? v =
      if v ∈ typeParams ∧ ∃ f ∈ formals, v ∈ f.vars then some (s.apply (.var v)) else none := by
  have hagree : s.Agrees {} := nofun
  have hzip : formals.map (fun f => (f, s.apply f)) = formals.zip (formals.map s.apply) :=
    List.map_prod_left_eq_zip
  rw [inferArguments, ← hzip, unifyAll_instance hlim hs hf hdeep hagree, get?_learn]
  simp only [List.contains_iff_mem, List.mem_flatMap, get?_empty]

/-- Of `Collection<? extends T>`, `Function<T, U[]>` and `U` and what they are for an `ArrayList` of
strings in place of `T` and an intersection in place of `U`, inference makes this of `T` and `U`,
and nothing of a type parameter that does not occur. -/
theorem recovers_arguments_lists :
    let strings : Ty := .cls ⟨25⟩ [Standard.stringTy]
    let both : Ty := .inter [.cls Standard.charSequence [], .cls Standard.serializable []]
    let s : Substitution := .ofList [(⟨13⟩, strings), (⟨14⟩, both)]
    let formals : List Ty := [.cls Standard.collection [.wildUpper (.var ⟨13⟩)],
      .cls Standard.function [.var ⟨13⟩, .array (.var ⟨14⟩)], .var ⟨14⟩]
    let inferred := standard.inferArguments [⟨13⟩, ⟨14⟩, ⟨15⟩] formals (formals.map s.apply)
    formals.map s.apply = [.cls Standard.collection [.wildUpper strings],
      .cls Standard.function [strings, .array both], both] ∧
    inferred.get? ⟨13⟩ = some strings ∧ inferred.get? ⟨14⟩ = some both ∧
      inferred.get? ⟨15⟩ = none := by
  intro strings both s formals inferred
  have hf : ∀ f ∈ formals, f.IsFormal := by
    simp only [formals, List.forall_mem_cons]
    refine ⟨.cls ?_, .cls ?_, .var _, List.forall_mem_nil _⟩
    · exact List.forall_mem_singleton.mpr (.var _)
    · simp only [List.forall_mem_cons]
      exact ⟨.var _, .array (.var _), List.forall_mem_nil _⟩
  have hdeep : ∀ f ∈ formals, ∀ p ∈ f.occurrences, p.2 ≤ 16 := by decide
  have hs : s.TakenAsIs := by
    intro v t ht
    have hall : ∀ e ∈ s.entries, e.2.isTakenAsIs = true := by decide
    exact hall _ (Substitution.mem_of_find?_eq_some ht)
  have hall := @recovers_arguments standard s (by decide) formals hf hdeep hs [⟨13⟩, ⟨14⟩, ⟨15⟩]
  refine ⟨rfl, (hall ⟨13⟩).trans ?_, (hall ⟨14⟩).trans ?_, (hall ⟨15⟩).trans ?_⟩ <;> decide

end Env

end DoubleColon
