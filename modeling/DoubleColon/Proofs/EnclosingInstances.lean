import DoubleColon.Env.Standard
import DoubleColon.StaticContext

/-!
# Enclosing instances

An instance of an inner class needs one of the class around it. Two walks outwards ask for it: one
looks for the class before any static declaration, the other for a static declaration before the
class. Both stop at the same declaration, the first one that is the class, or static, or unknown,
and what they find there they report as opposite answers or as the same error. Only where the class
is not around the site at all need they not differ: there is no instance, and there need not be a
static declaration either.
-/

set_option autoImplicit false

namespace DoubleColon

namespace Env

/-- A walk outwards to a class goes on past a declaration: past a class that is another one, known
and not static, and past a member that is not static. -/
inductive GoesPast (env : Env) (outer : ClassId) : Enclosing → Prop
  | cls {id : ClassId} {d : ClassDecl} (hid : id ≠ outer) (hd : env.class? id = some d)
      (hs : d.isStatic = false) : GoesPast env outer (.cls id)
  | member : GoesPast env outer (.member false)

def instanceAt (env : Env) (outer : ClassId) : Enclosing → Except InvalidSite Bool
  | .cls id =>
      if id = outer then .ok true
      else match env.class? id with
        | none => .error (.unknownEnclosing id)
        | some _ => .ok false
  | .member _ => .ok false

variable {env : Env} {site : Site} {owner outer : ClassId} {d : ClassDecl}
  {inner around chain : List Enclosing} {item : Enclosing}

/-! ## One declaration -/

theorem reachesInstance_past (h : env.GoesPast outer item) :
    env.reachesInstance outer (item :: around) = env.reachesInstance outer around := by
  cases h with
  | cls hid hd hs => simp [reachesInstance, hid, hd, hs]
  | member => rfl

theorem meetsStatic_past (h : env.GoesPast outer item) :
    env.meetsStatic (some outer) (item :: around) = env.meetsStatic (some outer) around := by
  cases h with
  | cls hid hd hs => simp [meetsStatic, hid, hd, hs]
  | member => rfl

/-- A declaration at which a walk stops is the class, or an unknown class, or static. -/
theorem stop_cases (h : ¬env.GoesPast outer item) :
    item = .cls outer ∨ (∃ id, item = .cls id ∧ id ≠ outer ∧ env.class? id = none) ∨
      (∃ id d, item = .cls id ∧ id ≠ outer ∧ env.class? id = some d ∧ d.isStatic = true) ∨
      item = .member true := by
  cases item with
  | cls id =>
    by_cases hid : id = outer
    · exact .inl (congrArg Enclosing.cls hid)
    · cases hd : env.class? id with
      | none => exact .inr (.inl ⟨id, rfl, hid, hd⟩)
      | some d =>
        cases hs : d.isStatic with
        | false => exact absurd (.cls hid hd hs) h
        | true => exact .inr (.inr (.inl ⟨id, d, rfl, hid, hd, hs⟩))
  | member isStatic =>
    cases isStatic with
    | false => exact absurd .member h
    | true => exact .inr (.inr (.inr rfl))

theorem reachesInstance_stop (h : ¬env.GoesPast outer item) :
    env.reachesInstance outer (item :: around) = env.instanceAt outer item := by
  rcases stop_cases h with rfl | ⟨id, rfl, hid, hd⟩ | ⟨id, d, rfl, hid, hd, hs⟩ | rfl
  · simp [reachesInstance, instanceAt]
  · simp [reachesInstance, instanceAt, hid, hd]
  · simp [reachesInstance, instanceAt, hid, hd, hs]
  · rfl

theorem meetsStatic_stop (h : ¬env.GoesPast outer item) :
    env.meetsStatic (some outer) (item :: around) = (env.instanceAt outer item).map (!·) := by
  rcases stop_cases h with rfl | ⟨id, rfl, hid, hd⟩ | ⟨id, d, rfl, hid, hd, hs⟩ | rfl
  · simp [meetsStatic, instanceAt, Except.map]
  · simp [meetsStatic, instanceAt, hid, hd, Except.map]
  · simp [meetsStatic, instanceAt, hid, hd, hs, Except.map]
  · rfl

/-! ## A chain of declarations -/

/-- What goes past a declaration in front goes past all declarations in front. -/
theorem append_past {α : Type} {walk : List Enclosing → α}
    (hwalk : ∀ i around, env.GoesPast outer i → walk (i :: around) = walk around)
    (hpast : ∀ i ∈ inner, env.GoesPast outer i) : walk (inner ++ chain) = walk chain := by
  induction inner with
  | nil => rfl
  | cons first rest ih =>
    rw [List.cons_append, hwalk first _ (hpast first List.mem_cons_self)]
    exact ih fun i hi => hpast i (List.mem_cons_of_mem _ hi)

theorem reachesInstance_at (hpast : ∀ i ∈ inner, env.GoesPast outer i)
    (hstop : ¬env.GoesPast outer item) :
    env.reachesInstance outer (inner ++ item :: around) = env.instanceAt outer item :=
  (append_past (fun _ _ => reachesInstance_past) hpast).trans (reachesInstance_stop hstop)

theorem meetsStatic_at (hpast : ∀ i ∈ inner, env.GoesPast outer i)
    (hstop : ¬env.GoesPast outer item) :
    env.meetsStatic (some outer) (inner ++ item :: around) =
      (env.instanceAt outer item).map (!·) :=
  (append_past (fun _ _ => meetsStatic_past) hpast).trans (meetsStatic_stop hstop)

open Classical in
theorem exists_stop (env : Env) (h : .cls outer ∈ chain) :
    ∃ inner item around, chain = inner ++ item :: around ∧
      (∀ i ∈ inner, env.GoesPast outer i) ∧ ¬env.GoesPast outer item := by
  have houter : ¬env.GoesPast outer (.cls outer) := fun hpast => by
    cases hpast with
    | cls hid => exact hid rfl
  have hfound : (chain.find? fun i => ¬env.GoesPast outer i).isSome :=
    List.find?_isSome.mpr ⟨_, h, decide_eq_true houter⟩
  obtain ⟨item, hitem⟩ := Option.isSome_iff_exists.mp hfound
  obtain ⟨hstop, inner, around, rfl, hinner⟩ := List.find?_eq_some_iff_append.mp hitem
  refine ⟨inner, item, around, rfl, fun i hi => ?_, of_decide_eq_true hstop⟩
  simpa using hinner i hi

/-- A site inside the enclosing class of an inner class has an instance of it at hand if and only if
it is not in a static context relative to the inner class, and the two questions fail alike. -/
theorem instance_iff_not_static (hd : env.class? owner = some d) (houter : d.outer = some outer)
    (hinner : d.isStatic = false) (hin : .cls outer ∈ site.enclosing) :
    (∀ b, env.hasInstanceOf site outer = .ok b ↔ env.isStaticContext site owner = .ok (!b)) ∧
    ∀ e, env.hasInstanceOf site outer = .error e ↔ env.isStaticContext site owner = .error e := by
  have hinside : site.isInside outer = true := List.contains_iff_mem.mpr hin
  obtain ⟨inner, item, around, hchain, hpast, hstop⟩ := exists_stop env hin
  have hhas : env.hasInstanceOf site outer = env.instanceAt outer item := by
    rw [hasInstanceOf, if_pos hinside, hchain]
    exact reachesInstance_at hpast hstop
  have hstatic : env.isStaticContext site owner = (env.instanceAt outer item).map (!·) := by
    simp only [isStaticContext, hd, houter, hinner, Bool.and_false, Bool.false_eq_true, if_false,
      Option.getD_some, hinside, if_true, hchain]
    exact meetsStatic_at hpast hstop
  rw [hhas, hstatic]
  cases env.instanceAt outer item with
  | error e => simp [Except.map]
  | ok b => simp [Except.map]

end Env

/-! ## An inner class -/

namespace Nested

def env : Env :=
  ((Env.standard.addClass { name := "com.example.Outer" }).1.addClass
    { name := "com.example.Outer$Inner", outer := some ⟨26⟩ }).1

def site (enclosing : List Enclosing) : Site :=
  { id := ⟨1⟩, qualifier := .name "Inner" .unknown (some (.cls ⟨27⟩ [])), name := .new, enclosing }

/-- In an inner class there is an instance of the outer one, unless a static method or a class that
is unknown stands between them. -/
theorem instance_iff_not_static_nested :
    let inner := [.member false, .cls ⟨27⟩, .member false, .cls ⟨26⟩]
    let walled := [.member false, .cls ⟨27⟩, .member true, .cls ⟨26⟩]
    let broken := [.member false, .cls ⟨27⟩, .cls ⟨99⟩, .member true, .cls ⟨26⟩]
    (env.hasInstanceOf (site inner) ⟨26⟩ = .ok true ∧
      env.isStaticContext (site inner) ⟨27⟩ = .ok false) ∧
    (env.hasInstanceOf (site walled) ⟨26⟩ = .ok false ∧
      env.isStaticContext (site walled) ⟨27⟩ = .ok true) ∧
    (env.hasInstanceOf (site broken) ⟨26⟩ = .error (.unknownEnclosing ⟨99⟩) ∧
      env.isStaticContext (site broken) ⟨27⟩ = .error (.unknownEnclosing ⟨99⟩)) := by
  intro inner walled broken
  have hiff (chain : List Enclosing) (hin : .cls ⟨26⟩ ∈ chain) :=
    @Env.instance_iff_not_static env (site chain) ⟨27⟩ ⟨26⟩ _ rfl rfl rfl hin
  have hinner : env.hasInstanceOf (site inner) ⟨26⟩ = .ok true := rfl
  have hwalled : env.hasInstanceOf (site walled) ⟨26⟩ = .ok false := rfl
  have hbroken : env.hasInstanceOf (site broken) ⟨26⟩ = .error (.unknownEnclosing ⟨99⟩) := rfl
  exact ⟨⟨hinner, ((hiff inner (by decide)).1 true).mp hinner⟩,
    ⟨hwalled, ((hiff walled (by decide)).1 false).mp hwalled⟩,
    hbroken, ((hiff broken (by decide)).2 _).mp hbroken⟩

/-- Outside of the outer class there is no instance of it, though the context is not static. -/
example :
    env.hasInstanceOf (site [.member false, .cls ⟨3⟩]) ⟨26⟩ = .ok false ∧
      env.isStaticContext (site [.member false, .cls ⟨3⟩]) ⟨27⟩ = .ok false := ⟨rfl, rfl⟩

end Nested

end DoubleColon
