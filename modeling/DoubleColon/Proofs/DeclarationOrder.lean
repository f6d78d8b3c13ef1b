import DoubleColon.Proofs.AbstractMembers

/-!
# Declarations in another order

Two environments may differ in the order of the interfaces and of the methods of their classes only.
Then class types have the same supertypes, in another order. A walk of the hierarchy takes as long
in the one as in the other and comes to the same class types. A search may find another one, if
there are several on a level; so the subtype test gives the same answers where no class type has two
supertypes of one class.
-/

set_option autoImplicit false

namespace DoubleColon

namespace Hierarchy

variable {α : Type} [DecidableEq α] {next next' : α → List α} {n : Nat} {seen queue out : List α}

/-- How many steps a walk takes from a queue if it comes to these nodes: one for each node of the
queue and for each successor of a node that it comes to. -/
def steps (next : α → List α) (queue out : List α) : Nat :=
  queue.length + (out.flatMap next).length

theorem steps_le_of_visits (h : visits id next n seen queue = some out) :
    steps next queue out ≤ n := by
  induction n generalizing seen queue out with
  | zero => cases queue <;> simp_all [visits, steps]
  | succ n ih =>
    cases queue with
    | nil => simp_all [visits, steps]
    | cons a queue =>
      simp only [visits, id] at h
      split at h
      · have hrest := ih h
        simp only [steps, List.length_cons] at hrest ⊢
        omega
      · obtain ⟨rest, hrest, rfl⟩ := Option.map_eq_some_iff.mp h
        have hcost := ih hrest
        simp only [steps, List.length_append, List.length_cons, List.flatMap_cons] at hcost ⊢
        omega

theorem visits_of_steps_le {m : Nat} (h : visits id next m seen queue = some out)
    (hn : steps next queue out ≤ n) : visits id next n seen queue = some out := by
  induction m generalizing n seen queue out with
  | zero => cases queue <;> simp_all [visits]
  | succ m ih =>
    cases queue with
    | nil => simpa [visits] using h
    | cons a queue =>
      obtain ⟨n, rfl⟩ : ∃ k, n = k + 1 := by
        rw [steps, List.length_cons] at hn
        exact ⟨n - 1, by omega⟩
      simp only [visits, id] at h ⊢
      split
      · rename_i hs
        rw [if_pos hs] at h
        refine ih h ?_
        simp only [steps, List.length_cons] at hn ⊢
        omega
      · rename_i hs
        rw [if_neg hs] at h
        obtain ⟨rest, hrest, rfl⟩ := Option.map_eq_some_iff.mp h
        rw [ih hrest ?_, Option.map_some]
        simp only [steps, List.length_append, List.length_cons, List.flatMap_cons] at hn ⊢
        omega

omit [DecidableEq α] in
theorem leads_of_perm (hnext : ∀ a, (next' a).Perm (next a)) : Leads next' = Leads next := by
  funext a b
  exact propext (hnext a).mem_iff

/-- With the successors of each node in another order a walk comes to the same nodes, in as many
steps. -/
theorem visits_perm {start : α} (hnext : ∀ a, (next' a).Perm (next a))
    (h : visits id next n [] [start] = some out) :
    ∃ out', visits id next' n [] [start] = some out' ∧ out'.Perm out := by
  have hreached : reached next' start = reached next start := by
    unfold reached
    rw [leads_of_perm hnext]
  have hfinite : (reached next' start).Finite := by
    rw [hreached]
    exact (visits_ends_iff next start).mp ⟨n, Option.isSome_of_eq_some h⟩
  obtain ⟨m, out', hout⟩ := exists_visits_of_finite hfinite
  have hperm : out'.Perm out := by
    have hnodup := (keys_visits h).1
    have hnodup' := (keys_visits hout).1
    rw [List.map_id] at hnodup hnodup'
    refine (List.perm_ext_iff_of_nodup hnodup' hnodup).mpr fun a => ?_
    rw [mem_of_visits h, mem_of_visits hout, hreached]
  refine ⟨out', visits_of_steps_le hout ?_, hperm⟩
  have hsteps : steps next' [start] out' = steps next [start] out := by
    rw [steps, steps, (hperm.flatMap fun a _ => hnext a).length_eq]
  exact hsteps ▸ steps_le_of_visits h

/-! ## What is found -/

section

variable {wanted : α → Bool} {edge : α → α → Prop} {start a : α} {s s' : Search α}

omit [DecidableEq α] in
theorem Tells.not_absent (h : Tells wanted edge start (.found a)) :
    ¬ Tells wanted edge start .absent := by
  rintro ⟨known, hknown, hall⟩
  obtain ⟨ha, n, hn, -⟩ := h
  exact Bool.false_ne_true ((hknown a (hall n a hn)).symm.trans ha)

omit [DecidableEq α] in
/-- Where there is no more than one node to be found, all searches that end have one result. -/
theorem Tells.unique (h : Tells wanted edge start s) (h' : Tells wanted edge start s')
    (hs : s ≠ .exhausted) (hs' : s' ≠ .exhausted)
    (hone : ∀ m n a b, ReachedIn edge start m a → ReachedIn edge start n b →
      wanted a = true → wanted b = true → a = b) : s' = s := by
  cases s with
  | exhausted => exact absurd rfl hs
  | found a =>
    cases s' with
    | exhausted => exact absurd rfl hs'
    | absent => exact absurd h' h.not_absent
    | found b =>
      obtain ⟨ha, m, hm, -⟩ := h
      obtain ⟨hb, n, hn, -⟩ := h'
      rw [hone n m b a hn hm hb ha]
  | absent =>
    cases s' with
    | exhausted => exact absurd rfl hs'
    | absent => rfl
    | found b => exact absurd h h'.not_absent

end

end Hierarchy

inductive ClassDecl.Reorders (d : ClassDecl) : ClassDecl → Prop
  | mk {interfaces : List Ty} {methods : List MethodDecl} (hi : interfaces.Perm d.interfaces)
      (hm : methods.Perm d.methods) :
      Reorders d { d with interfaces := interfaces, methods := methods }

theorem ClassDecl.Reorders.refl (d : ClassDecl) : d.Reorders d := .mk (.refl _) (.refl _)

namespace Env

open Hierarchy

structure Reorders (env env' : Env) : Prop where
  classes : List.Forall₂ ClassDecl.Reorders env.classes env'.classes
  typeParams : env'.typeParams = env.typeParams
  names : env'.names = env.names
  wellKnown : env'.wellKnown = env.wellKnown
  searchLimit : env'.searchLimit = env.searchLimit

variable {env env' : Env}

theorem reorders_of_classes {classes : List ClassDecl}
    (h : List.Forall₂ ClassDecl.Reorders env.classes classes) :
    env.Reorders { env with classes := classes } :=
  ⟨h, rfl, rfl, rfl, rfl⟩

theorem Reorders.refl (env : Env) : env.Reorders env :=
  reorders_of_classes (List.forall₂_same.mpr fun d _ => .refl d)

theorem reorders_withMethods {id : ClassId} {d : ClassDecl} {methods : List MethodDecl}
    (hd : env.class? id = some d) (hp : methods.Perm d.methods) :
    env.Reorders (env.withMethods id methods) := by
  have hmodify : ∀ (l : List ClassDecl) (i : Nat), l[i]? = some d →
      List.Forall₂ ClassDecl.Reorders l (l.modify i fun d => d.withMethods (some methods)) := by
    intro l
    induction l with
    | nil => exact fun i h => by simp at h
    | cons e rest ih =>
      intro i h
      cases i with
      | zero =>
        obtain rfl : e = d := by simpa using h
        exact .cons (.mk (.refl _) hp) (List.forall₂_same.mpr fun _ _ => .refl _)
      | succ i => exact .cons (.refl _) (ih i (by simpa using h))
  exact reorders_of_classes (hmodify env.classes id.index hd)

namespace Reorders

variable (h : env.Reorders env')
include h

theorem class?_cases (id : ClassId) : (env.class? id = none ∧ env'.class? id = none) ∨
    ∃ d d', env.class? id = some d ∧ env'.class? id = some d' ∧ d.Reorders d' := by
  have hrel : ∀ {l l' : List ClassDecl}, List.Forall₂ ClassDecl.Reorders l l' → ∀ i : Nat,
      (l[i]? = none ∧ l'[i]? = none) ∨
        ∃ d d', l[i]? = some d ∧ l'[i]? = some d' ∧ d.Reorders d' := by
    intro l l' hl
    induction hl with
    | nil => exact fun i => .inl ⟨rfl, rfl⟩
    | cons hd _ ih =>
      intro i
      cases i with
      | zero => exact .inr ⟨_, _, rfl, rfl, hd⟩
      | succ i => simpa using ih i
  exact hrel h.classes id.index

theorem canonical : env'.canonical = env.canonical := by
  funext t
  cases t with
  | named n => simp only [Env.canonical, lookup, h.names]
  | _ => rfl

theorem objectTy : env'.objectTy = env.objectTy := by
  simp only [Env.objectTy, h.wellKnown]

theorem typeParam? : env'.typeParam? = env.typeParam? := by
  funext v
  simp only [Env.typeParam?, h.typeParams]

theorem repeatsObjectMethod : env'.repeatsObjectMethod = env.repeatsObjectMethod := by
  funext m
  simp only [Env.repeatsObjectMethod, h.objectTy, stringTy, h.wellKnown]
  rfl

theorem superinterfaces_perm (c : ClassType) :
    (env'.superinterfaces c).Perm (env.superinterfaces c) := by
  unfold superinterfaces
  rcases h.class?_cases c.id with ⟨hd, hd'⟩ | ⟨d, d', hd, hd', ⟨hi, -⟩⟩
  · rw [hd, hd']
  · rw [hd, hd', h.canonical]
    dsimp only
    split
    · exact hi.filterMap _
    · exact .refl _

theorem abstractMethods_perm (c : ClassType) :
    (env'.abstractMethods c).Perm (env.abstractMethods c) := by
  unfold abstractMethods
  rcases h.class?_cases c.id with ⟨hd, hd'⟩ | ⟨d, d', hd, hd', ⟨-, hm⟩⟩
  · rw [hd, hd']
  · rw [hd, hd', h.canonical, h.repeatsObjectMethod]
    dsimp only
    split
    · exact ((hm.filter _).map _).filter _
    · exact .refl _

theorem directSupertypes_perm (c : ClassType) :
    (env'.directSupertypes c).Perm (env.directSupertypes c) := by
  unfold directSupertypes
  rcases h.class?_cases c.id with ⟨hd, hd'⟩ | ⟨d, d', hd, hd', ⟨hi, -⟩⟩
  · rw [hd, hd']
  · rw [hd, hd', h.canonical, h.wellKnown]
    exact ((hi.append_left d.superclass.toList).filterMap _).append_right _

end Reorders

/-! ## Views and subtypes -/

/-- No class type has two supertypes of one class. -/
def SingleViews (env : Env) : Prop :=
  ∀ c, ∀ a ∈ env.supertypesOf c, ∀ b ∈ env.supertypesOf c, a.id = b.id → a = b

theorem view_reordered (h : env.Reorders env') (hviews : env.SingleViews)
    (hends : env.EndingWalks) : env'.view = env.view := by
  funext c target
  obtain ⟨out, hout⟩ := Option.isSome_iff_exists.mp (hends c)
  obtain ⟨out', hout', -⟩ := visits_perm h.directSupertypes_perm hout
  have htells := tells_search (fun d : ClassType => decide (d.id = target)) env.directSupertypes c
    env.searchLimit
  have htells' := tells_search (fun d : ClassType => decide (d.id = target)) env'.directSupertypes
    c env.searchLimit
  rw [leads_of_perm h.directSupertypes_perm] at htells'
  refine congrArg Search.toOption ?_
  rw [search, h.searchLimit]
  refine htells.unique htells' (search_ends_of_visits hout) (search_ends_of_visits hout') ?_
  intro m n a b ha hb hwa hwb
  rw [leads_directSupertypes] at ha hb
  exact hviews c a ⟨m, ha⟩ b ⟨n, hb⟩ ((of_decide_eq_true hwa).trans (of_decide_eq_true hwb).symm)

theorem isSubtype_reordered (h : env.Reorders env') (hview : env'.view = env.view) :
    env'.isSubtype = env.isSubtype := by
  have hobject : env'.isObject = env.isObject := by
    funext t
    cases t with
    | cls id args => simp only [isObject, h.wellKnown]
    | _ => rfl
  have harray : env'.isArraySupertype = env.isArraySupertype := by
    funext id
    simp only [isArraySupertype, h.wellKnown]
  have hupper : env'.argUpper = env.argUpper := by
    funext t
    cases t <;> simp only [argUpper, h.objectTy]
  have hcontains : env'.containsArg = env.containsArg := by
    funext le a b
    unfold containsArg
    rw [hupper, h.canonical]
  have hclass : env'.classStep = env.classStep := by
    funext le b c
    unfold classStep
    rw [hview, hcontains, h.wellKnown]
  have hstep : env'.subtypeStep = env.subtypeStep := by
    funext le s t
    unfold subtypeStep
    rw [hclass, hobject, harray, h.typeParam?]
  have hwithin : ∀ n, env'.isSubtypeWithin n = env.isSubtypeWithin n := by
    intro n
    induction n with
    | zero => rfl
    | succ n ih =>
      funext s t
      simp only [isSubtypeWithin, ih, hstep, h.canonical]
  exact hwithin subtypeLevels

end Env

end DoubleColon
