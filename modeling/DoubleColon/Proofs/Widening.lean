import Mathlib.Data.Set.Basic
import Mathlib.Logic.Relation
import DoubleColon.Proofs.Bindings
import DoubleColon.Proofs.ClassGraph
import DoubleColon.Proofs.RootClass

/-!
# Widening

A type variable that meets several class types is bound to what they widen to, two at a time: to the
one that is the supertype, or to the root class. Each step leads upwards, so all of the class types
lead up to the binding. They are subtypes of it for certain only where subtyping is transitive, and
it is not: a raw type is a subtype of each instance of its class, and each instance is a subtype of
the raw type. Class types without type arguments are safe.
-/

set_option autoImplicit false

namespace DoubleColon

namespace Env

variable {env : Env}

/-! ## One step -/

def takenFrom (env : Env) : Ty → Option Ty
  | .null | .void | .wild => none
  | .prim p => env.box p
  | t => some (env.canonical t)

def wider (env : Env) (s t : Ty) : Ty :=
  if s = t then s
  else if env.isSubtype s t then t
  else if env.isSubtype t s then s
  else env.objectTy

theorem bind_eq (known : Substitution) (v : TypeVar) (actual : Ty) : env.bind known v actual =
    match env.takenFrom actual, known.get? v with
    | none, _ => known
    | some t, none => known.insert v t
    | some t, some s =>
        if s = t then known
        else if env.isSubtype s t then known.insert v t
        else if env.isSubtype t s then known
        else known.insert v env.objectTy := by
  cases actual <;> rfl

theorem bind_of_none {actual : Ty} (h : env.takenFrom actual = none) (known : Substitution)
    (v : TypeVar) : env.bind known v actual = known := by
  rw [bind_eq, h]

theorem get?_bind_self {actual t : Ty} (h : env.takenFrom actual = some t) (known : Substitution)
    (v : TypeVar) : (env.bind known v actual).get? v =
      some ((known.get? v).elim t fun s => env.wider s t) := by
  rw [bind_eq, h]
  cases hk : known.get? v with
  | none => simp
  | some s =>
    simp only [Option.elim_some, wider]
    split
    · exact hk
    · split
      · simp
      · split
        · exact hk
        · simp

def root (env : Env) : ClassType := ⟨env.wellKnown.object, []⟩

theorem isSubtype_root (c : ClassType) : env.isSubtype c.toTy env.root.toTy = true :=
  isSubtypeWithin_of_rule (subtypeRule_object_cls c.id c.args)

theorem exists_wider (c d : ClassType) : ∃ b, env.wider c.toTy d.toTy = b.toTy ∧
    (b = c ∨ b = d ∨ b = env.root) ∧
      env.isSubtype c.toTy b.toTy = true ∧ env.isSubtype d.toTy b.toTy = true := by
  unfold wider
  split
  · rename_i heq
    exact ⟨c, rfl, .inl rfl, isSubtype_refl _ _, heq ▸ isSubtype_refl _ _⟩
  · split
    · rename_i hle
      exact ⟨d, rfl, .inr (.inl rfl), hle, isSubtype_refl _ _⟩
    · split
      · rename_i hge
        exact ⟨c, rfl, .inl rfl, isSubtype_refl _ _, hge⟩
      · exact ⟨env.root, rfl, .inr (.inr rfl), isSubtype_root c, isSubtype_root d⟩

/-! ## The run -/

def inferredFrom (env : Env) (typeParams : List TypeVar) (v : TypeVar) (actuals : List ClassType) :
    Option Ty :=
  (env.inferArguments typeParams (List.replicate actuals.length (.var v))
    (actuals.map ClassType.toTy)).get? v

def widest (env : Env) (first : ClassType) (rest : List ClassType) : Ty :=
  rest.foldl (fun s c => env.wider s c.toTy) first.toTy

theorem get?_unify_var {isOpen : TypeVar → Bool} {v : TypeVar} (hv : isOpen v = true)
    (c : ClassType) (known : Substitution) :
    (env.unify isOpen .intoFormal unifyLevels (.var v) c.toTy known).get? v =
      some ((known.get? v).elim c.toTy fun s => env.wider s c.toTy) := by
  have hunify : env.unify isOpen .intoFormal unifyLevels (.var v) c.toTy known =
      env.bind known v c.toTy := by
    simp only [unifyLevels, unify, hv, ClassType.toTy, Ty.isRecovery, Bool.false_eq_true, if_false,
      if_true]
  rw [hunify]
  exact get?_bind_self rfl known v

theorem get?_unifyAll_var {isOpen : TypeVar → Bool} {v : TypeVar} (hv : isOpen v = true) {s : Ty}
    (rest : List ClassType) {known : Substitution} (hk : known.get? v = some s) :
    (env.unifyAll isOpen ((List.replicate rest.length (.var v)).zip (rest.map ClassType.toTy))
      known).get? v = some (rest.foldl (fun s c => env.wider s c.toTy) s) := by
  induction rest generalizing s known with
  | nil => exact hk
  | cons c rest ih => exact ih ((get?_unify_var hv c known).trans (by rw [hk]; rfl))

theorem inferredFrom_cons {typeParams : List TypeVar} {v : TypeVar} (hv : v ∈ typeParams)
    (first : ClassType) (rest : List ClassType) :
    env.inferredFrom typeParams v (first :: rest) = some (env.widest first rest) := by
  have hopen : typeParams.contains v = true := List.contains_iff_mem.mpr hv
  have hstart := @get?_unify_var env (fun v => typeParams.contains v) v hopen first {}
  exact @get?_unifyAll_var env (fun v => typeParams.contains v) v hopen _ rest _ hstart

/-- Whatever relation goes through all steps relates the class types to what they widen to. -/
theorem exists_widest {R : ClassType → ClassType → Prop} {S : Set ClassType} (hroot : env.root ∈ S)
    (htrans : ∀ c ∈ S, ∀ d ∈ S, ∀ e ∈ S, R c d → R d e → R c e)
    (hsub : ∀ c ∈ S, ∀ d ∈ S, env.isSubtype c.toTy d.toTy = true → R c d) (first : ClassType)
    (rest : List ClassType) (hS : ∀ c ∈ first :: rest, c ∈ S) :
    ∃ b, env.widest first rest = b.toTy ∧ (b ∈ first :: rest ∨ b = env.root) ∧
      ∀ c ∈ first :: rest, R c b := by
  induction rest generalizing first with
  | nil =>
    have hfirst := hS first List.mem_cons_self
    refine ⟨first, rfl, .inl List.mem_cons_self, List.forall_mem_singleton.mpr ?_⟩
    exact hsub first hfirst first hfirst (isSubtype_refl _ _)
  | cons d rest ih =>
    -- What the first two widen to takes the place of the first.
    obtain ⟨hfirst, hS⟩ := List.forall_mem_cons.mp hS
    obtain ⟨hd, hrest⟩ := List.forall_mem_cons.mp hS
    obtain ⟨w, hw, hone, hcw, hdw⟩ := env.exists_wider first d
    have hwS : w ∈ S := by
      rcases hone with rfl | rfl | rfl
      · exact hfirst
      · exact hd
      · exact hroot
    have hnext : ∀ c ∈ w :: rest, c ∈ S := List.forall_mem_cons.mpr ⟨hwS, hrest⟩
    obtain ⟨b, hb, hfrom, hall⟩ := ih w hnext
    obtain ⟨hwb, hrestb⟩ := List.forall_mem_cons.mp hall
    have hbS : b ∈ S := by
      rcases hfrom with hmem | rfl
      · exact hnext b hmem
      · exact hroot
    have hthrough : ∀ c ∈ S, env.isSubtype c.toTy w.toTy = true → R c b := fun c hc hcw =>
      htrans c hc w hwS b hbS (hsub c hc w hwS hcw) hwb
    refine ⟨b, ?_, ?_, List.forall_mem_cons.mpr ⟨hthrough first hfirst hcw,
      List.forall_mem_cons.mpr ⟨hthrough d hd hdw, hrestb⟩⟩⟩
    · rw [← hb, widest, List.foldl_cons, hw]
      rfl
    · simp only [List.mem_cons] at hfrom ⊢
      rcases hfrom with (rfl | hmem) | hroot
      · tauto
      · exact .inl (.inr (.inr hmem))
      · exact .inr hroot

/-! ## What covers all that is met -/

def IsBelow (env : Env) (c d : ClassType) : Prop := env.isSubtype c.toTy d.toTy = true

/-- Whenever a type parameter meets class types of a set, all of them are subtypes of what it is
bound to. -/
def CoversAll (env : Env) (typeParams : List TypeVar) (v : TypeVar) (S : Set ClassType) : Prop :=
  ∀ first rest, (∀ c ∈ first :: rest, c ∈ S) →
    ∃ b, env.inferredFrom typeParams v (first :: rest) = some b ∧
      ∀ c ∈ first :: rest, env.isSubtype c.toTy b = true

def TransitiveOn (env : Env) (S : Set ClassType) : Prop :=
  ∀ c ∈ S, ∀ d ∈ S, ∀ e ∈ S, env.IsBelow c d → env.IsBelow d e → env.IsBelow c e

theorem coversAll_of_transitive {typeParams : List TypeVar} {v : TypeVar} (hv : v ∈ typeParams)
    {S : Set ClassType} (hroot : env.root ∈ S) (htrans : env.TransitiveOn S) :
    env.CoversAll typeParams v S := by
  intro first rest hS
  obtain ⟨b, hb, -, hall⟩ := exists_widest hroot htrans (fun _ _ _ _ h => h) first rest hS
  exact ⟨b.toTy, by rw [inferredFrom_cons hv, hb], hall⟩

/-- Three class types of which each is a subtype of the next widen to the last of them. -/
theorem widest_chain {c d e : ClassType} (hcd : env.IsBelow c d) (hde : env.IsBelow d e) :
    env.widest c [d, e] = e.toTy := by
  have hwider : ∀ s t, env.isSubtype s t = true → env.wider s t = t := by
    intro s t h
    unfold wider
    split
    · assumption
    · rfl
  simp only [widest, List.foldl_cons, List.foldl_nil, hwider _ _ hcd, hwider _ _ hde]

theorem transitive_of_coversAll {typeParams : List TypeVar} {v : TypeVar} (hv : v ∈ typeParams)
    {S : Set ClassType} (h : env.CoversAll typeParams v S) : env.TransitiveOn S := by
  intro c hc d hd e he hcd hde
  obtain ⟨b, hb, hall⟩ := h c [d, e] (by simp [hc, hd, he])
  rw [inferredFrom_cons hv, widest_chain hcd hde] at hb
  obtain rfl := Option.some.inj hb
  exact hall c List.mem_cons_self

/-- Without type arguments, what is above is the root class or reached in the graph of classes. -/
theorem transitiveOn_of_plain (hn : env.NamesSupertypes)
    (hroot : ∀ k, env.class? env.wellKnown.object = some k → k.supertypes = [])
    {S : Set ClassType} (hplain : ∀ c ∈ S, c.args = [])
    (hend : ∀ c ∈ S, ∀ d ∈ S, env.search c d.id ≠ .exhausted) : env.TransitiveOn S := by
  rintro ⟨c, as⟩ hc ⟨d, bs⟩ hd ⟨e, cs⟩ he hcd hde
  obtain rfl : as = [] := hplain _ hc
  obtain rfl : bs = [] := hplain _ hd
  obtain rfl : cs = [] := hplain _ he
  refine (isSubtype_cls_iff hn (hend _ hc _ he)).mpr ?_
  rcases reached_of_isSubtype hn hde with rfl | hobject | ⟨n, hdn⟩
  · exact reached_of_isSubtype hn hcd
  · exact .inr (.inl hobject)
  · rcases reached_of_isSubtype hn hcd with rfl | rfl | ⟨m, hcm⟩
    · exact .inr (.inr ⟨n, hdn⟩)
    · exact .inr (.inl (eq_object_of_reached hroot hdn))
    · exact .inr (.inr ⟨m + n, hcm.trans hdn⟩)

/-- A type parameter that meets class types is bound to one of them or to the root class, to which
all of them lead by steps from subtype to supertype. All class types of a set are always subtypes
of what they are widened to exactly if subtyping is transitive among them and the root class. Class
types without type arguments are, as far as the searches for their supertypes end. -/
theorem widening_covers_iff {typeParams : List TypeVar} {v : TypeVar} (hv : v ∈ typeParams) :
    (∀ first rest, ∃ b : ClassType,
      env.inferredFrom typeParams v (first :: rest) = some b.toTy ∧
        (b ∈ first :: rest ∨ b = env.root) ∧ ∀ c ∈ first :: rest,
          Relation.ReflTransGen env.IsBelow c b) ∧
    ∀ S : Set ClassType, env.root ∈ S →
      (env.CoversAll typeParams v S ↔ env.TransitiveOn S) ∧
      (env.NamesSupertypes →
        (∀ k, env.class? env.wellKnown.object = some k → k.supertypes = []) →
        (∀ c ∈ S, c.args = []) → (∀ c ∈ S, ∀ d ∈ S, env.search c d.id ≠ .exhausted) →
        env.CoversAll typeParams v S) := by
  refine ⟨fun first rest => ?_, fun S hroot => ⟨⟨transitive_of_coversAll hv,
    coversAll_of_transitive hv hroot⟩, fun hn hobject hplain hend => ?_⟩⟩
  · obtain ⟨b, hb, hfrom, hall⟩ := exists_widest (R := Relation.ReflTransGen env.IsBelow)
      (Set.mem_univ env.root) (fun _ _ _ _ _ _ => Relation.ReflTransGen.trans)
      (fun _ _ _ _ h => Relation.ReflTransGen.single h) first rest (fun c _ => Set.mem_univ c)
    exact ⟨b, by rw [inferredFrom_cons hv, hb], hfrom, hall⟩
  · exact coversAll_of_transitive hv hroot (transitiveOn_of_plain hn hobject hplain hend)

/-- Integers, numbers, character sequences and objects are always subtypes of what they widen to: an
integer and a number of a number, and together with a character sequence of the root class. -/
theorem widening_covers_iff_numbers :
    let plain (id : ClassId) : ClassType := ⟨id, []⟩
    let known := [standard.root, plain Standard.integer, plain Standard.number,
      plain Standard.charSequence]
    standard.CoversAll [⟨0⟩] ⟨0⟩ {c | c ∈ known} ∧ standard.TransitiveOn {c | c ∈ known} ∧
    standard.inferredFrom [⟨0⟩] ⟨0⟩ [plain Standard.integer, plain Standard.number] =
      some (.cls Standard.number []) ∧
    standard.inferredFrom [⟨0⟩] ⟨0⟩ [plain Standard.integer, plain Standard.charSequence,
      plain Standard.number] = some standard.objectTy := by
  intro plain known
  have hn : standard.NamesSupertypes := namesSupertypes_of_all (by decide +kernel)
  have hobject : ∀ k, standard.class? standard.wellKnown.object = some k → k.supertypes = [] := by
    intro k hk
    obtain rfl : Standard.objectDecl = k := Option.some.inj hk
    rfl
  have hplain : ∀ c ∈ known, c.args = [] := by decide +kernel
  have hend : ∀ c ∈ known, ∀ d ∈ known, standard.search c d.id ≠ .exhausted := by decide +kernel
  have hall := (@widening_covers_iff standard [⟨0⟩] ⟨0⟩ List.mem_cons_self).2 {c | c ∈ known}
    List.mem_cons_self
  have hcovers := hall.2 hn hobject hplain hend
  exact ⟨hcovers, hall.1.mp hcovers, by decide +kernel, by decide +kernel⟩

/-- The raw list forgets what it has been widened from: a list of strings, a raw list and a list of
integers widen to the list of integers, of which the first is no subtype. -/
theorem raw_list_forgets :
    let lists (args : List Ty) : ClassType := ⟨Standard.list, args⟩
    let strings := lists [Standard.stringTy]
    let integers := lists [Standard.integerTy]
    standard.inferredFrom [⟨0⟩] ⟨0⟩ [strings, lists [], integers] = some integers.toTy ∧
    standard.isSubtype strings.toTy (lists []).toTy = true ∧
    standard.isSubtype (lists []).toTy integers.toTy = true ∧
    standard.isSubtype strings.toTy integers.toTy = false ∧
    ¬ standard.CoversAll [⟨0⟩] ⟨0⟩ Set.univ := by
  intro lists strings integers
  have hinferred : standard.inferredFrom [⟨0⟩] ⟨0⟩ [strings, lists [], integers] =
      some integers.toTy := by decide +kernel
  have hnot : standard.isSubtype strings.toTy integers.toTy = false := by decide +kernel
  refine ⟨hinferred, by decide +kernel, by decide +kernel, hnot, fun hcovers => ?_⟩
  obtain ⟨b, hb, hall⟩ := hcovers strings [lists [], integers] fun c _ => Set.mem_univ c
  rw [hinferred] at hb
  obtain rfl := Option.some.inj hb
  exact Bool.false_ne_true (hnot.symm.trans (hall strings List.mem_cons_self))

end Env

end DoubleColon
