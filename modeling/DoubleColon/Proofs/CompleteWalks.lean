import DoubleColon.Proofs.WalkViews

/-!
# What a walk for methods comes to

The classes that a walk meets are those that are reached from the searched class by way of
superclasses, interfaces and the root class of interfaces, whatever circles the declarations form.
Each is met once, and none before a class that is fewer steps away: the queue of the walk holds the
rest of one level, and then the next one.

Of the methods of these classes a walk examines each, and reports those of the name asked for, one
for each signature: a method that gives nothing shares its signature with one that was met before.
-/

set_option autoImplicit false

namespace DoubleColon

namespace Hierarchy

variable {α κ : Type}

def Follows (key : α → κ) (next : α → List α) (edge : κ → κ → Prop) : Prop :=
  ∀ a k, k ∈ (next a).map key ↔ edge (key a) k

inductive ReachedIn (edge : κ → κ → Prop) (start : κ) : Nat → κ → Prop
  | start : ReachedIn edge start 0 start
  | step {n : Nat} {k l : κ} (hk : ReachedIn edge start n k) (hl : edge k l) :
      ReachedIn edge start (n + 1) l

def Nearer (edge : κ → κ → Prop) (start k l : κ) : Prop :=
  ∀ n, ReachedIn edge start n l → ∃ m ≤ n, ReachedIn edge start m k

/-- A walk amid its levels: its queue is the rest of a level, and what is known by now of the next
one. -/
structure Levels (key : α → κ) (edge : κ → κ → Prop) (start : κ) (n : Nat) (seen : List κ)
    (near far : List α) : Prop where
  near_at : ∀ a ∈ near, ReachedIn edge start n (key a)
  far_at : ∀ a ∈ far, ReachedIn edge start (n + 1) (key a)
  below : ∀ m < n, ∀ k, ReachedIn edge start m k → k ∈ seen
  level : ∀ k, ReachedIn edge start n k → k ∈ seen ∨ k ∈ near.map key
  closed : ∀ k ∈ seen, ∀ l, edge k l → l ∈ seen ∨ l ∈ (near ++ far).map key

section

variable {key : α → κ} {next : α → List α} {edge : κ → κ → Prop} {start : κ} {n : Nat}
  {seen : List κ} {near far : List α} {a : α}

theorem Levels.first (key : α → κ) (edge : κ → κ → Prop) (a : α) :
    Levels key edge (key a) 0 [] [a] [] where
  near_at b hb := by
    rw [List.mem_singleton.mp hb]
    exact .start
  far_at b hb := nomatch hb
  below m hm := nomatch hm
  level k hk := by
    cases hk
    exact .inr List.mem_cons_self
  closed k hk := nomatch hk

theorem Levels.turn (h : Levels key edge start n seen [] far) :
    Levels key edge start (n + 1) seen far [] where
  near_at := h.far_at
  far_at b hb := nomatch hb
  below m hm k hk := by
    rcases Nat.lt_succ_iff_lt_or_eq.mp hm with hm | rfl
    · exact h.below m hm k hk
    · exact (h.level k hk).resolve_right List.not_mem_nil
  level k hk := by
    cases hk with
    | step hj hk =>
      have hj := (h.level _ hj).resolve_right List.not_mem_nil
      exact h.closed _ hj k hk
  closed k hk l hl := by
    rw [List.append_nil]
    exact h.closed k hk l hl

theorem Levels.skip (h : Levels key edge start n seen (a :: near) far) (ha : key a ∈ seen) :
    Levels key edge start n seen near far where
  near_at b hb := h.near_at b (List.mem_cons_of_mem _ hb)
  far_at := h.far_at
  below := h.below
  level k hk := by
    rcases h.level k hk with hk | hk
    · exact .inl hk
    · exact (List.mem_cons.mp hk).imp_left fun (he : k = key a) => he ▸ ha
  closed k hk l hl := by
    rcases h.closed k hk l hl with hl | hl
    · exact .inl hl
    · exact (List.mem_cons.mp hl).imp_left fun (he : l = key a) => he ▸ ha

theorem Levels.advance (hf : Follows key next edge)
    (h : Levels key edge start n seen (a :: near) far) :
    Levels key edge start n (key a :: seen) near (far ++ next a) where
  near_at b hb := h.near_at b (List.mem_cons_of_mem _ hb)
  far_at b hb := by
    rcases List.mem_append.mp hb with hb | hb
    · exact h.far_at b hb
    · exact .step (h.near_at a List.mem_cons_self)
        ((hf a (key b)).mp (List.mem_map_of_mem hb))
  below m hm k hk := List.mem_cons_of_mem _ (h.below m hm k hk)
  level k hk := by
    rcases h.level k hk with hk | hk
    · exact .inl (List.mem_cons_of_mem _ hk)
    · exact (List.mem_cons.mp hk).imp_left fun he => List.mem_cons.mpr (.inl he)
  closed k hk l hl := by
    rw [← List.append_assoc, List.map_append, List.mem_append]
    rcases List.mem_cons.mp hk with rfl | hk
    · exact .inr (.inr ((hf a l).mpr hl))
    · rcases h.closed k hk l hl with hl | hl
      · exact .inl (List.mem_cons_of_mem _ hl)
      · rcases List.mem_cons.mp hl with hl | hl
        · exact .inl (List.mem_cons.mpr (.inl hl))
        · exact .inr (.inl hl)

/-- The next node of a queue is on the level that the walk is at, or comes to now. -/
theorem Levels.exists_near (h : Levels key edge start n seen near far) {queue : List α}
    (hq : near ++ far = a :: queue) : ∃ n near far,
      near ++ far = queue ∧ Levels key edge start n seen (a :: near) far := by
  cases near with
  | cons b near =>
    obtain ⟨rfl, rfl⟩ := List.cons.inj hq
    exact ⟨n, near, far, rfl, h⟩
  | nil =>
    obtain rfl : far = a :: queue := hq
    exact ⟨n + 1, queue, [], List.append_nil queue, h.turn⟩

/-- When the queue is empty, all that can be reached has been seen. -/
theorem Levels.seen_of_reached (h : Levels key edge start n seen [] []) {m : Nat} {k : κ}
    (hk : ReachedIn edge start m k) : k ∈ seen := by
  induction hk with
  | start =>
    cases n with
    | zero => exact (h.level start .start).resolve_right List.not_mem_nil
    | succ n => exact h.below 0 (Nat.succ_pos n) start .start
  | step _ hl ih => exact (h.closed _ ih _ hl).resolve_right List.not_mem_nil

structure MeetsAll (edge : κ → κ → Prop) (start : κ) (seen met : List κ) : Prop where
  reached : ∀ k ∈ met, ∃ n, ReachedIn edge start n k
  complete : ∀ n k, ReachedIn edge start n k → k ∈ seen ∨ k ∈ met
  nearest_first : met.Pairwise (Nearer edge start)

theorem Levels.meets_nothing (h : Levels key edge start n seen near far) (hq : near ++ far = []) :
    MeetsAll edge start seen [] := by
  obtain ⟨rfl, rfl⟩ := List.append_eq_nil_iff.mp hq
  exact ⟨List.forall_mem_nil _, fun m k hk => .inl (h.seen_of_reached hk), .nil⟩

theorem Levels.meets_first {keys : List κ} (h : Levels key edge start n seen (a :: near) far)
    (hrest : MeetsAll edge start (key a :: seen) keys) (hnew : ∀ k ∈ keys, k ∉ seen) :
    MeetsAll edge start seen (key a :: keys) where
  reached := List.forall_mem_cons.mpr ⟨⟨n, h.near_at a List.mem_cons_self⟩, hrest.reached⟩
  complete m k hk := by
    rcases hrest.complete m k hk with hk | hk
    · rcases List.mem_cons.mp hk with rfl | hk
      · exact .inr List.mem_cons_self
      · exact .inl hk
    · exact .inr (List.mem_cons_of_mem _ hk)
  nearest_first := by
    -- What is still to be met is on this level or beyond, all below it has been seen.
    refine List.pairwise_cons.mpr ⟨fun l hl m hm => ?_, hrest.nearest_first⟩
    refine ⟨n, Nat.le_of_not_lt fun hlt => ?_, h.near_at a List.mem_cons_self⟩
    exact hnew l hl (h.below m hlt l hm)

theorem meetsAll_of_visits [DecidableEq κ] (hf : Follows key next edge) {c : Nat}
    {out : List α} (h : Levels key edge start n seen near far)
    (hv : visits key next c seen (near ++ far) = some out) :
    MeetsAll edge start seen (out.map key) := by
  induction c generalizing n seen near far out with
  | zero =>
    cases hq : near ++ far with
    | cons a queue => simp [hq, visits] at hv
    | nil =>
      rw [hq] at hv
      cases hv
      exact h.meets_nothing hq
  | succ c ih =>
    cases hq : near ++ far with
    | nil =>
      rw [hq] at hv
      cases hv
      exact h.meets_nothing hq
    | cons a queue =>
      obtain ⟨n, near, far, rfl, h⟩ := h.exists_near hq
      rw [hq, visits] at hv
      split at hv
      · rename_i ha
        exact ih (h.skip ha) hv
      · obtain ⟨rest, hrest, rfl⟩ := Option.map_eq_some_iff.mp hv
        have hnew : ∀ k ∈ rest.map key, k ∉ seen := by
          intro k hk hs
          obtain ⟨b, hb, rfl⟩ := List.mem_map.mp hk
          exact (keys_visits hrest).2 b hb (List.mem_cons_of_mem _ hs)
        rw [List.append_assoc] at hrest
        exact h.meets_first (ih (h.advance hf) hrest) hnew

end

end Hierarchy

namespace Env

open Hierarchy

variable {env : Env} {r : WalkRequest}

/-! ## The classes of a walk -/

/-- A class leads to those that its declaration names as its superclass or an interface, an
interface also to the root class. -/
def LeadsTo (env : Env) (c k : ClassId) : Prop :=
  ∃ d, env.class? c = some d ∧
    ((∃ t ∈ d.supertypes, ∃ args, env.canonical t = .cls k args) ∨
      (d.kind = .interface ∧ k = env.wellKnown.object))

/-- Declared supertypes are class types, or names, known or not. -/
def NamesSupertypes (env : Env) : Prop :=
  ∀ id d t, env.class? id = some d → t ∈ d.supertypes →
    (∃ super args, t = .cls super args) ∨ ∃ n, t = .named n

def classNamed? (env : Env) (t : Ty) : Option ClassId :=
  match env.canonical t with
  | .cls id _ => some id
  | _ => none

theorem classNamed?_eq_some {t : Ty} {k : ClassId} :
    env.classNamed? t = some k ↔ ∃ args, env.canonical t = .cls k args := by
  unfold classNamed?
  cases env.canonical t <;> simp

theorem classNamed?_apply (hn : env.NamesSupertypes) {id : ClassId} {d : ClassDecl} {t : Ty}
    (hd : env.class? id = some d) (ht : t ∈ d.supertypes) (s : Substitution) :
    env.classNamed? (s.apply t) = env.classNamed? t := by
  rcases hn id d t hd ht with ⟨super, args, rfl⟩ | ⟨n, rfl⟩
  · rw [Substitution.apply]
    rfl
  · rw [Substitution.apply]

theorem ids_superclasses (hn : env.NamesSupertypes) {c : SeenClass} {d : ClassDecl}
    (hd : env.class? c.1 = some d) : (env.superclasses c).map Prod.fst =
      d.supertypes.filterMap env.classNamed? ++
        if d.kind = .interface then [env.wellKnown.object] else [] := by
  unfold superclasses
  simp only [hd, List.map_append]
  congr 1
  · rw [List.map_filterMap]
    refine List.filterMap_congr fun t ht => ?_
    rw [← classNamed?_apply hn hd ht c.2, classNamed?]
    generalize env.canonical (c.2.apply t) = u
    cases u with
    | cls id args =>
      dsimp only
      cases env.class? id <;> rfl
    | _ => rfl
  · split <;> rfl

theorem namesSupertypes_of_all (h : env.classes.all fun d => d.supertypes.all fun t =>
    match t with
    | .cls _ _ | .named _ => true
    | _ => false) : env.NamesSupertypes := by
  intro id d t hd ht
  have hmem : d ∈ env.classes := List.mem_of_getElem? hd
  have hnames := List.all_eq_true.mp (List.all_eq_true.mp h d hmem) t ht
  split at hnames
  · exact .inl ⟨_, _, rfl⟩
  · exact .inr ⟨_, rfl⟩
  · cases hnames

theorem follows_superclasses (hn : env.NamesSupertypes) :
    Follows Prod.fst env.superclasses env.LeadsTo := by
  intro c k
  unfold LeadsTo
  cases hd : env.class? c.1 with
  | none => simp [superclasses, hd]
  | some d =>
    rw [ids_superclasses hn hd, List.mem_append, List.mem_filterMap]
    simp only [classNamed?_eq_some, Option.some.injEq, exists_eq_left']
    refine or_congr_right ?_
    split <;> simp_all

def metClasses (env : Env) (r : WalkRequest) : List ClassId :=
  (env.seenClasses (r.cls, r.subst)).map Prod.fst

theorem metClasses_meetsAll (hn : env.NamesSupertypes) (r : WalkRequest) :
    MeetsAll env.LeadsTo r.cls [] (env.metClasses r) :=
  meetsAll_of_visits (follows_superclasses hn) (.first Prod.fst env.LeadsTo (r.cls, r.subst))
    (env.visits_seenClasses _)

theorem mem_metClasses (hn : env.NamesSupertypes) {k : ClassId} :
    k ∈ env.metClasses r ↔ ∃ n, ReachedIn env.LeadsTo r.cls n k := by
  have hmeets := metClasses_meetsAll hn r
  constructor
  · exact hmeets.reached k
  · rintro ⟨n, hk⟩
    exact (hmeets.complete n k hk).resolve_left List.not_mem_nil

/-! ## The methods of a walk -/

def metMethods (env : Env) (r : WalkRequest) : List SeenMethod :=
  (env.seenClasses (r.cls, r.subst)).flatMap env.seenMethods

def candidateSignature? (env : Env) (c : Candidate) : Option (String × List Ty) :=
  (env.methodOf? c.member).map fun d => (d.name, d.params.map fun t => env.erase (c.subst.apply t))

theorem candidateSignature?_of_seen {c : SeenClass} {m : SeenMethod} (h : m ∈ env.seenMethods c)
    (r : WalkRequest) :
    env.candidateSignature? (env.methodCandidate r m) = some (env.erasedSignature m) := by
  rw [candidateSignature?, methodOf?_of_seen h r]
  rfl

theorem declarations_metMethods (hf : r.filter.constructors = false) :
    env.declarations r = env.methodCandidates r [] (env.metMethods r) := by
  unfold declarations metMethods
  cases hd : env.class? r.cls with
  | some d => simp only [hf, Bool.false_eq_true, if_false]
  | none =>
    -- The walk meets no other class than the searched one.
    have hv := env.visits_seenClasses (r.cls, r.subst)
    cases hl : env.walkLimit with
    | zero => simp [hl, visits] at hv
    | succ n =>
      simp only [hl, visits, List.not_mem_nil, if_false, superclasses, hd, List.append_nil,
        visits_nil, Option.map_some, Option.some.injEq] at hv
      rw [← hv, List.flatMap_singleton, seenMethods, hd]
      rfl

theorem reported_metMethods (hf : r.filter.constructors = false) :
    (env.memberPlan r).reported =
      (env.kept r.filter.accepts [] (env.metMethods r)).map (env.methodCandidate r) := by
  rw [memberPlan, WalkPlan.reported_declarations, declarations_metMethods hf,
    methodCandidates_eq_kept]

theorem length_methodCandidates (r : WalkRequest) (known : List (String × List Ty))
    (ms : List SeenMethod) : (env.methodCandidates r known ms).length = ms.length := by
  induction ms generalizing known with
  | nil => rfl
  | cons m rest ih =>
    simp only [methodCandidates]
    split
    · exact congrArg Nat.succ (ih known)
    · exact congrArg Nat.succ (ih _)

/-- A method of a name that is asked for is kept, or its signature is known, be it beforehand or
from a method that is kept and stands before it. -/
theorem exists_kept {accepts : String → Bool} {known : List (String × List Ty)}
    {ms : List SeenMethod} {i : Nat} {m : SeenMethod} (hi : ms[i]? = some m)
    (ha : accepts m.decl.name = true) : env.erasedSignature m ∈ known ∨
      ∃ j ≤ i, ∃ m', ms[j]? = some m' ∧ m' ∈ env.kept accepts known ms ∧
        env.erasedSignature m' = env.erasedSignature m := by
  induction ms generalizing known i with
  | nil => simp at hi
  | cons n rest ih =>
    cases i with
    | zero =>
      obtain rfl : n = m := Option.some.inj hi
      by_cases hk : env.erasedSignature n ∈ known
      · exact .inl hk
      · refine .inr ⟨0, Nat.le_refl 0, n, rfl, ?_, rfl⟩
        simp [kept, ha, hk]
    | succ i =>
      have hrest : rest[i]? = some m := hi
      simp only [kept]
      split
      · rcases @ih known i hrest with hk | ⟨j, hj, m', hm', hkept, he⟩
        · exact .inl hk
        · exact .inr ⟨j + 1, Nat.succ_le_succ hj, m', hm', hkept, he⟩
      · rcases @ih (env.erasedSignature n :: known) i hrest with
          hk | ⟨j, hj, m', hm', hkept, he⟩
        · rcases List.mem_cons.mp hk with he | hk
          · exact .inr ⟨0, Nat.zero_le _, n, rfl, List.mem_cons_self, he.symm⟩
          · exact .inl hk
        · exact .inr ⟨j + 1, Nat.succ_le_succ hj, m', hm', List.mem_cons_of_mem _ hkept, he⟩

end Env

theorem WalkPlan.count_examine (ds : List (Option Candidate)) :
    (ofDeclarations ds).count .examine = ds.length := by
  induction ds with
  | nil => rfl
  | cons d rest ih =>
    rw [ofDeclarations, List.flatMap_cons, List.count_append, List.length_cons,
      ← ih, ofDeclarations, Nat.add_comm]
    cases d <;> rfl

namespace Env

open Hierarchy

variable {env : Env} {r : WalkRequest}

/-- The candidates are what a walk for methods comes to: it met what can be reached, once each and
nearest first, examined the methods there, and reported each signature asked for once, with the
first method that has it. -/
structure WalksThrough (env : Env) (r : WalkRequest) (cs : List Candidate) : Prop where
  met_once : (env.metClasses r).Nodup
  met_iff : ∀ k, k ∈ env.metClasses r ↔ ∃ n, ReachedIn env.LeadsTo r.cls n k
  nearest_first : (env.metClasses r).Pairwise (Nearer env.LeadsTo r.cls)
  examined_once : (env.memberPlan r).count .examine = (env.metMethods r).length
  in_order : cs.Sublist ((env.metMethods r).map (env.methodCandidate r))
  members_differ : (cs.map (·.member)).Nodup
  signatures_differ : (cs.map env.candidateSignature?).Nodup
  covered : ∀ (i : Nat) (m : SeenMethod), (env.metMethods r)[i]? = some m →
    r.filter.accepts m.decl.name = true → ∃ j ≤ i, ∃ m', (env.metMethods r)[j]? = some m' ∧
      env.methodCandidate r m' ∈ cs ∧ env.erasedSignature m' = env.erasedSignature m

/-- What a walk for methods reports, unless it was abandoned, is all that it should report. -/
theorem walks_through (hn : env.NamesSupertypes) (hf : r.filter.constructors = false)
    {token : TokenId} {counter : PollCounter} {ts : Tokens}
    (h : ((env.memberPlan r).run token counter ts).isCancelled = false) :
    env.WalksThrough r ((env.memberPlan r).run token counter ts).candidates := by
  rw [WalkOutcome.candidates, (WalkPlan.carriedOut_run _ _ _ _).2.mp h, reported_metMethods hf]
  have hkept : (env.kept r.filter.accepts [] (env.metMethods r)).Sublist (env.metMethods r) :=
    kept_sublist _ _ _
  refine ⟨env.keys_seenClasses _, fun k => mem_metClasses hn,
    (metClasses_meetsAll hn r).nearest_first, ?_, hkept.map _, ?_, ?_, ?_⟩
  · rw [memberPlan, WalkPlan.count_examine, declarations_metMethods hf, length_methodCandidates]
  · rw [List.map_map]
    exact (members_nodup (r.cls, r.subst)).sublist (hkept.map _)
  · have hsame : (env.kept r.filter.accepts [] (env.metMethods r)).map
        (env.candidateSignature? ∘ env.methodCandidate r) =
          ((env.kept r.filter.accepts [] (env.metMethods r)).map env.erasedSignature).map some := by
      rw [List.map_map]
      refine List.map_congr_left fun m hm => ?_
      obtain ⟨c, -, hc⟩ := List.mem_flatMap.mp (mem_of_kept hm)
      exact candidateSignature?_of_seen hc r
    rw [List.map_map, hsame]
    exact (signatures_nodup _ _ _).1.map fun _ _ => Option.some.inj
  · intro i m hi ha
    obtain hk | ⟨j, hj, m', hm', hkept, he⟩ := @exists_kept env _ [] _ i m hi ha
    · cases hk
    · exact ⟨j, hj, m', hm', List.mem_map_of_mem hkept, he⟩

end Env

/-! ## A circle of classes -/

namespace Rings

open Standard

def env : Env :=
  ((Env.standard.addClass
    { name := "Ring", superclass := some (.named "Link"), interfaces := [.cls ⟨15⟩ []]
      methods := [method "run" [] .void] }).1.addClass
    { name := "Link", superclass := some (.cls ⟨26⟩ []), interfaces := [.named "Loop"]
      methods := [method "run" [] .void, method "run" [int] .void] }).1

def request : WalkRequest := ⟨⟨26⟩, {}, .methods "run", none, none, false⟩

theorem walks_through_rings :
    ((env.memberPlan request).run ⟨0⟩ (.ofInterval 1) [{}]).isCancelled = false ∧
    env.WalksThrough request
      ((env.memberPlan request).run ⟨0⟩ (.ofInterval 1) [{}]).candidates ∧
    ((env.memberPlan request).run ⟨0⟩ (.ofInterval 1) [{}]).candidates.map (·.member) =
      [.method ⟨26⟩ 0, .method ⟨27⟩ 1] := by
  have hrun : ((env.memberPlan request).run ⟨0⟩ (.ofInterval 1) [{}]).isCancelled = false := by
    decide +kernel
  refine ⟨hrun, ?_, by decide +kernel⟩
  exact Env.walks_through (Env.namesSupertypes_of_all (by decide +kernel)) rfl hrun

end Rings

end DoubleColon
