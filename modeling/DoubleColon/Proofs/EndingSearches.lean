import Mathlib.Data.Set.Finite.Lattice
import DoubleColon.Proofs.GatheredMethods
import DoubleColon.Proofs.NearestSupertypes

/-!
# Searches that end

Declarations may be such that a class type has infinitely many supertypes: a class `Feed<T>` that
extends `Feed<List<T>>` is seen with ever longer type arguments. A search of the supertypes ends
exactly if it comes to what it looks for, or if there are only finitely many supertypes to look at.
The walk that gathers the abstract methods of an interface ends exactly if it comes to declarations
that do not go together, or if there are only finitely many superinterfaces.
-/

set_option autoImplicit false

namespace DoubleColon

namespace Hierarchy

variable {α : Type} [DecidableEq α] {wanted : α → Bool} {next : α → List α}

/-! ## Enough steps -/

theorem search_ends_of_visits {n : Nat} {seen queue out : List α}
    (h : visits id next n seen queue = some out) :
    search wanted next n seen queue ≠ .exhausted := by
  induction n generalizing seen queue out with
  | zero => cases queue <;> simp [visits, search] at h ⊢
  | succ n ih =>
    cases queue with
    | nil => simp [search]
    | cons a queue =>
      simp only [visits, id] at h
      rw [search]
      split
      · rename_i hs
        rw [if_pos hs] at h
        exact ih h
      · rename_i hs
        rw [if_neg hs] at h
        obtain ⟨rest, hrest, -⟩ := Option.map_eq_some_iff.mp h
        split
        · simp
        · exact ih hrest

theorem exists_search_ends_cons {seen queue : List α} {a : α}
    (hskip : a ∈ seen → ∃ c, search wanted next c seen queue ≠ .exhausted)
    (hadvance : wanted a = false →
      ∃ c, search wanted next c (a :: seen) (queue ++ next a) ≠ .exhausted) :
    ∃ c, search wanted next c seen (a :: queue) ≠ .exhausted := by
  by_cases hs : a ∈ seen
  · obtain ⟨c, hc⟩ := hskip hs
    exact ⟨c + 1, by rwa [search, if_pos hs]⟩
  cases hw : wanted a with
  | true => exact ⟨1, by simp [search, hs, hw]⟩
  | false =>
    obtain ⟨c, hc⟩ := hadvance hw
    exact ⟨c + 1, by simpa [search, hs, hw] using hc⟩

/-- A search amid its levels ends if what it looks for is on a level that it has not gone
through. -/
theorem Levels.exists_search_ends {start b : α} (hw : wanted b = true) : (k : Nat) →
    (near : List α) → {n : Nat} → {seen far : List α} →
    Levels id (Leads next) start n seen near far → (∀ a ∈ seen, wanted a = false) →
    ReachedIn (Leads next) start (n + k) b →
    ∃ c, search wanted next c seen (near ++ far) ≠ .exhausted
  | 0, [], n, seen, far, h, hseen, hb => by
    have hknown : b ∈ seen := (h.level b hb).resolve_right List.not_mem_nil
    exact absurd ((hseen b hknown).symm.trans hw) Bool.false_ne_true
  | k + 1, [], n, seen, far, h, hseen, hb => by
    rw [← Nat.add_assoc, Nat.add_right_comm] at hb
    have hturn := exists_search_ends hw k far h.turn hseen hb
    rwa [List.append_nil] at hturn
  | k, a :: near, n, seen, far, h, hseen, hb => by
    refine exists_search_ends_cons (fun hs => ?_) fun ha => ?_
    · exact exists_search_ends hw k near (h.skip hs) hseen hb
    · have hqueue : near.append far ++ next a = near ++ (far ++ next a) := List.append_assoc ..
      rw [hqueue]
      exact exists_search_ends hw k near (h.advance (follows_leads next))
        (List.forall_mem_cons.mpr ⟨ha, hseen⟩) hb
termination_by k near => (k, near.length)

/-! ## Exactly when a search ends -/

def reached (next : α → List α) (start : α) : Set α := {a | ∃ n, ReachedIn (Leads next) start n a}

omit [DecidableEq α] in
theorem reached_closed {start a b : α} (ha : a ∈ reached next start) (hb : b ∈ next a) :
    b ∈ reached next start := by
  obtain ⟨n, hn⟩ := ha
  exact ⟨n + 1, .step hn hb⟩

theorem exists_visits_of_finite {start : α} (h : (reached next start).Finite) :
    ∃ n out, visits id next n [] [start] = some out := by
  let degree : α → Nat := fun a => (next a).length
  have hnext : ∀ a, a ∈ reached next start → (next a).length ≤ degree (id a) := fun _ _ =>
    Nat.le_refl _
  have hkeys : ∀ a, a ∈ reached next start → id a ∉ h.toFinset.toList → next a = [] :=
    fun a ha hkey => absurd (by simpa using ha) hkey
  have hstart : ∀ a ∈ [start], a ∈ reached next start := fun a ha =>
    ⟨0, List.mem_singleton.mp ha ▸ .start⟩
  exact ⟨_, exists_visits_inside (fun a ha b => reached_closed ha) hnext hkeys hstart
    (Nat.le_refl _)⟩

theorem visits_ends_iff (next : α → List α) (start : α) :
    (∃ n, (visits id next n [] [start]).isSome) ↔ (reached next start).Finite := by
  constructor
  · rintro ⟨n, hn⟩
    obtain ⟨out, hout⟩ := Option.isSome_iff_exists.mp hn
    have hmeets := meetsAll_of_visits (follows_leads next)
      (Levels.first id (Leads next) start) hout
    refine (out.map id).finite_toSet.subset fun a ⟨m, hm⟩ => ?_
    exact (hmeets.complete m a hm).resolve_left List.not_mem_nil
  · intro h
    obtain ⟨n, out, hout⟩ := exists_visits_of_finite h
    exact ⟨n, Option.isSome_of_eq_some hout⟩

/-- A search ends exactly if there is something to be found, or it has finitely many nodes to look
at. -/
theorem search_ends_iff (wanted : α → Bool) (next : α → List α) (start : α) :
    (∃ n, search wanted next n [] [start] ≠ .exhausted) ↔
      (∃ a ∈ reached next start, wanted a = true) ∨ (reached next start).Finite := by
  constructor
  · rintro ⟨n, hn⟩
    have htells := tells_search wanted next start n
    cases hs : search wanted next n [] [start] with
    | found b =>
      rw [hs] at htells
      obtain ⟨hb, m, hm, -⟩ := htells
      exact .inl ⟨b, ⟨m, hm⟩, hb⟩
    | absent =>
      rw [hs] at htells
      obtain ⟨known, -, hall⟩ := htells
      exact .inr (known.finite_toSet.subset fun a ⟨m, hm⟩ => hall m a hm)
    | exhausted => exact absurd hs hn
  · rintro (⟨b, ⟨m, hm⟩, hw⟩ | h)
    · rw [← Nat.zero_add m] at hm
      exact Levels.exists_search_ends hw m [start] (.first id (Leads next) start)
        (List.forall_mem_nil _) hm
    · obtain ⟨n, out, hout⟩ := exists_visits_of_finite h
      exact ⟨n, search_ends_of_visits hout⟩

end Hierarchy

namespace Env

open Hierarchy

variable {env : Env}

def withSearchLimit (env : Env) (n : Nat) : Env := { env with searchLimit := n }

def supertypesOf (env : Env) (c : ClassType) : Set ClassType :=
  {b | ∃ n, ReachedIn env.Extends c n b}

def EndingWalks (env : Env) : Prop :=
  ∀ c, (visits id env.directSupertypes env.searchLimit [] [c]).isSome

theorem reached_directSupertypes (env : Env) (c : ClassType) :
    reached env.directSupertypes c = env.supertypesOf c := by
  rw [reached, leads_directSupertypes]
  rfl

/-- Some of the first interfaces that a walk of the superinterfaces comes to have declarations of
one method whose return types do not go together. -/
def Clashes (env : Env) (c : ClassType) : Prop :=
  ∃ n, env.addSignatures []
    ((firstVisits env.superinterfaces n [] [c]).flatMap env.abstractMethods) = none

theorem gatherSignatures_ends_iff (env : Env) (c : ClassType) :
    (∃ n, env.gatherSignatures n [] [c] [] ≠ .exhausted) ↔
      env.Clashes c ∨ (reached env.superinterfaces c).Finite := by
  rw [← visits_ends_iff]
  constructor
  · rintro ⟨n, hn⟩
    rw [gatherSignatures_eq] at hn
    split at hn
    · rename_i hclash
      exact .inl ⟨n, hclash⟩
    · split at hn
      · rename_i hvisits
        exact .inr ⟨n, hvisits⟩
      · exact absurd rfl hn
  · rintro (⟨n, hclash⟩ | ⟨n, hvisits⟩)
    · exact ⟨n, by simp [gatherSignatures_eq, hclash]⟩
    · refine ⟨n, ?_⟩
      rw [gatherSignatures_eq]
      split
      · simp
      · simp [hvisits]

/-- If it is given as many steps as it takes, the search for a view of a class type ends exactly if
there is one or the class type has finitely many supertypes; and the walk that gathers the abstract
methods of an interface type ends exactly if it comes to declarations that do not go together or
there are finitely many superinterfaces. -/
theorem searches_end_iff (env : Env) (c : ClassType) (target : ClassId) :
    ((∃ n, (env.withSearchLimit n).search c target ≠ .exhausted) ↔
      (∃ b ∈ env.supertypesOf c, b.id = target) ∨ (env.supertypesOf c).Finite) ∧
    ((∃ n, env.gatherSignatures n [] [c] [] ≠ .exhausted) ↔
      env.Clashes c ∨ (reached env.superinterfaces c).Finite) := by
  constructor
  · have hiff := search_ends_iff (fun b => decide (b.id = target)) env.directSupertypes c
    simp only [decide_eq_true_eq, reached_directSupertypes] at hiff
    exact hiff
  · exact gatherSignatures_ends_iff env c

end Env

/-! ## A hierarchy without end -/

namespace Feeds

open Standard Env Hierarchy

def decl : ClassDecl :=
  { name := "Feed", kind := .interface, typeParams := [⟨13⟩]
    interfaces := [.cls ⟨26⟩ [.cls list [param 13]]]
    methods := [abstractMethod "put" [param 13] .void], isAbstract := true }

def env : Env :=
  ((Env.standard.addTypeParam
    { name := "T", upperBounds := [objectTy], lowerBound := none }).1.addClass decl).1

def nested : Nat → Ty
  | 0 => stringTy
  | n + 1 => .cls list [nested n]

def feed (n : Nat) : ClassType := ⟨⟨26⟩, [nested n]⟩

theorem directSupertypes_feed (n : Nat) :
    env.directSupertypes (feed n) = [feed (n + 1), ⟨object, []⟩] := rfl

theorem superinterfaces_feed (n : Nat) : env.superinterfaces (feed n) = [feed (n + 1)] := rfl

theorem abstractMethods_feed (n : Nat) :
    env.abstractMethods (feed n) = [⟨"put", [nested n], .void⟩] := by
  cases n <;> rfl

theorem nested_injective : Function.Injective nested := by
  intro m n h
  induction m generalizing n with
  | zero =>
    cases n with
    | zero => rfl
    | succ n => cases h
  | succ m ih =>
    cases n with
    | zero => cases h
    | succ n =>
      simp only [nested, Ty.cls.injEq, List.cons.injEq, true_and, and_true] at h
      rw [ih h]

theorem feed_injective : Function.Injective feed := by
  intro m n h
  simp only [feed, ClassType.mk.injEq, List.cons.injEq, true_and, and_true] at h
  exact nested_injective h

theorem infinite_supertypes : ¬ (reached env.directSupertypes (feed 0)).Finite := by
  refine Set.infinite_of_injective_forall_mem feed_injective fun n => ⟨n, ?_⟩
  induction n with
  | zero => exact .start
  | succ n ih =>
    refine .step ih ?_
    rw [Leads, directSupertypes_feed]
    exact List.mem_cons_self

theorem supertypes_feed {b : ClassType} (hb : b ∈ reached env.directSupertypes (feed 0)) :
    (∃ n, b = feed n) ∨ b = ⟨object, []⟩ := by
  obtain ⟨n, hn⟩ := hb
  induction hn with
  | start => exact .inl ⟨0, rfl⟩
  | step _ hl ih =>
    rcases ih with ⟨m, rfl⟩ | rfl
    · rw [Leads, directSupertypes_feed] at hl
      simp only [List.mem_cons, List.not_mem_nil, or_false] at hl
      exact hl.imp_left fun h => ⟨m + 1, h⟩
    · cases hl

/-- Each feed has a method that differs from those of the feeds before, and leads to the next
feed. -/
theorem gatherSignatures_feed (n k : Nat) (seen : List ClassType) (known : List Signature)
    (hseen : ∀ b ∈ seen, ∃ i < k, b = feed i)
    (hknown : ∀ m ∈ known, ∃ i < k, m.params = [nested i]) :
    env.gatherSignatures n seen [feed k] known = .exhausted := by
  induction n generalizing k seen known with
  | zero => rfl
  | succ n ih =>
    have hfresh : feed k ∉ seen := by
      intro hk
      obtain ⟨i, hi, heq⟩ := hseen _ hk
      exact hi.ne' (feed_injective heq)
    have hnew : ∀ m ∈ known, m.params ≠ [nested k] := by
      intro m hm heq
      obtain ⟨i, hi, hparams⟩ := hknown m hm
      exact hi.ne (nested_injective (List.singleton_injective (hparams.symm.trans heq)))
    have hadd : env.addSignatures known (env.abstractMethods (feed k)) =
        some (known ++ [⟨"put", [nested k], .void⟩]) := by
      rw [abstractMethods_feed, addSignatures, addSignature_of_new hnew]
      rfl
    rw [gatherSignatures, if_neg hfresh, hadd, superinterfaces_feed]
    refine ih (k + 1) _ _ (List.forall_mem_cons.mpr ⟨⟨k, k.lt_succ_self, rfl⟩, ?_⟩) ?_
    · exact fun b hb => (hseen b hb).imp fun i hi => ⟨hi.1.trans k.lt_succ_self, hi.2⟩
    · intro m hm
      rcases List.mem_append.mp hm with hm | hm
      · exact (hknown m hm).imp fun i hi => ⟨hi.1.trans k.lt_succ_self, hi.2⟩
      · rw [List.mem_singleton.mp hm]
        exact ⟨k, k.lt_succ_self, rfl⟩

/-- However many steps are allowed, the search for strings among the supertypes of a feed of strings
does not end, nor does the walk that gathers its abstract methods. -/
theorem endless : (∀ n, (env.withSearchLimit n).search (feed 0) string = .exhausted) ∧
    ∀ n, env.gatherSignatures n [] [feed 0] [] = .exhausted := by
  constructor
  · have hsearch := (search_ends_iff (fun b => decide (b.id = string)) env.directSupertypes
      (feed 0)).not
    simp only [not_exists, not_not] at hsearch
    refine hsearch.mpr (not_or_intro ?_ infinite_supertypes)
    rintro ⟨b, hb, hstring⟩
    have hfeed : (⟨26⟩ : ClassId) ≠ string := by decide
    have hroot : object ≠ string := by decide
    rcases supertypes_feed hb with ⟨n, rfl⟩ | rfl
    · exact hfeed (of_decide_eq_true hstring)
    · exact hroot (of_decide_eq_true hstring)
  · exact fun n => gatherSignatures_feed n 0 [] [] (List.forall_mem_nil _) (List.forall_mem_nil _)

end Feeds

end DoubleColon
