import DoubleColon.Env.Standard
import DoubleColon.Proofs.CompleteWalks

/-!
# The nearest supertype of a class

The view of a class type as an instance of a class is found by a search of its supertypes. What the
search finds is reached by a chain of direct supertypes, and no shorter chain leads to any instance
of the class; if it ends without finding one, there is none to be reached.

The search goes level by level, as walks do. When it comes to a node, all nodes on the levels below
have been looked at, and none of them was wanted.
-/

set_option autoImplicit false

namespace DoubleColon

namespace Hierarchy

variable {α : Type} {wanted : α → Bool} {next : α → List α} {start : α}

def Leads (next : α → List α) (a b : α) : Prop := b ∈ next a

theorem follows_leads (next : α → List α) : Follows id next (Leads next) := by
  intro a b
  rw [List.map_id]
  exact Iff.rfl

def Tells (wanted : α → Bool) (edge : α → α → Prop) (start : α) : Search α → Prop
  | .found b => wanted b = true ∧ ∃ n, ReachedIn edge start n b ∧
      ∀ m c, ReachedIn edge start m c → wanted c = true → n ≤ m
  | .absent => ∃ known : List α, (∀ b ∈ known, wanted b = false) ∧
      ∀ n b, ReachedIn edge start n b → b ∈ known
  | .exhausted => True

variable {n : Nat} {seen near far : List α}

theorem Levels.tells_found {a : α} (h : Levels id (Leads next) start n seen (a :: near) far)
    (hseen : ∀ b ∈ seen, wanted b = false) (ha : wanted a = true) :
    Tells wanted (Leads next) start (.found a) := by
  refine ⟨ha, n, h.near_at a List.mem_cons_self, fun m c hc hw => ?_⟩
  by_contra hlt
  have hknown : c ∈ seen := h.below m (Nat.lt_of_not_le hlt) c hc
  exact Bool.false_ne_true ((hseen c hknown).symm.trans hw)

theorem Levels.tells_absent (h : Levels id (Leads next) start n seen near far)
    (hseen : ∀ b ∈ seen, wanted b = false) (hq : near ++ far = []) :
    Tells wanted (Leads next) start .absent := by
  obtain ⟨rfl, rfl⟩ := List.append_eq_nil_iff.mp hq
  exact ⟨seen, hseen, fun m b hb => h.seen_of_reached hb⟩

/-- A search amid its levels tells what there is to be found, if it has found nothing so far. -/
theorem Levels.tells_search [DecidableEq α] (h : Levels id (Leads next) start n seen near far)
    (hseen : ∀ b ∈ seen, wanted b = false) (c : Nat) :
    Tells wanted (Leads next) start (search wanted next c seen (near ++ far)) := by
  induction c generalizing n seen near far with
  | zero =>
    cases hq : near ++ far with
    | nil => exact h.tells_absent hseen hq
    | cons a queue => trivial
  | succ c ih =>
    cases hq : near ++ far with
    | nil => exact h.tells_absent hseen hq
    | cons a queue =>
      obtain ⟨n, near, far, rfl, h⟩ := h.exists_near hq
      rw [search]
      split
      · rename_i ha
        exact ih (h.skip ha) hseen
      · split
        · rename_i hw
          exact h.tells_found hseen hw
        · rename_i hw
          rw [List.append_assoc]
          have ha : wanted a = false := Bool.eq_false_iff.mpr hw
          exact ih (h.advance (follows_leads next)) (List.forall_mem_cons.mpr ⟨ha, hseen⟩)

theorem tells_search [DecidableEq α] (wanted : α → Bool) (next : α → List α) (start : α) (c : Nat) :
    Tells wanted (Leads next) start (search wanted next c [] [start]) :=
  (Levels.first id (Leads next) start).tells_search (List.forall_mem_nil _) c

end Hierarchy

namespace Env

open Hierarchy

variable {env : Env} {c : ClassType} {target : ClassId}

/-! ## Direct supertypes -/

/-- A class type has the supertypes that its class declares, with its type arguments put in. Those
of a raw class type are raw themselves. Every interface has the root class for a supertype. -/
inductive Extends (env : Env) (c : ClassType) : ClassType → Prop
  | declared {d : ClassDecl} {t : Ty} {id : ClassId} {args : List Ty}
      (hd : env.class? c.id = some d) (ht : t ∈ d.supertypes)
      (hraw : c.args ≠ [] ∨ d.typeParams = [])
      (hsuper : env.canonical ((Substitution.ofArgs d c.args).apply t) = .cls id args) :
      Extends env c ⟨id, args⟩
  | raw {d : ClassDecl} {t : Ty} {id : ClassId} {args : List Ty}
      (hd : env.class? c.id = some d) (ht : t ∈ d.supertypes)
      (hargs : c.args = []) (hparams : d.typeParams ≠ [])
      (hsuper : env.canonical ((Substitution.ofArgs d c.args).apply t) = .cls id args) :
      Extends env c ⟨id, []⟩
  | root {d : ClassDecl} (hd : env.class? c.id = some d) (hkind : d.kind = .interface) :
      Extends env c ⟨env.wellKnown.object, []⟩

theorem directSupertypes_known {d : ClassDecl} (hd : env.class? c.id = some d) {b : ClassType} :
    b ∈ env.directSupertypes c ↔
      (∃ t ∈ d.supertypes, ∃ args,
        env.canonical ((Substitution.ofArgs d c.args).apply t) = .cls b.id args ∧
          b.args = if c.args = [] ∧ d.typeParams ≠ [] then [] else args) ∨
      d.kind = .interface ∧ b = ⟨env.wellKnown.object, []⟩ := by
  unfold directSupertypes
  simp only [hd, List.mem_append, List.mem_filterMap]
  refine or_congr (exists_congr fun t => and_congr_right fun _ => ?_) ?_
  · cases hc : env.canonical ((Substitution.ofArgs d c.args).apply t) with
    | cls id args =>
      obtain ⟨bid, bargs⟩ := b
      simp only [Option.some.injEq, ClassType.mk.injEq, Ty.cls.injEq, Bool.and_eq_true,
        List.isEmpty_iff, Bool.not_eq_true', List.isEmpty_eq_false_iff]
      constructor
      · rintro ⟨rfl, rfl⟩
        exact ⟨args, ⟨rfl, rfl⟩, rfl⟩
      · rintro ⟨_, ⟨rfl, rfl⟩, rfl⟩
        exact ⟨rfl, rfl⟩
    | _ => simp
  · split <;> simp_all

theorem mem_directSupertypes {b : ClassType} :
    b ∈ env.directSupertypes c ↔ env.Extends c b := by
  cases hd : env.class? c.id with
  | none =>
    have hnone : env.directSupertypes c = [] := by simp [directSupertypes, hd]
    rw [hnone]
    refine iff_of_false List.not_mem_nil fun h => ?_
    cases h <;> simp_all
  | some d =>
    rw [directSupertypes_known hd]
    obtain ⟨id, bargs⟩ := b
    constructor
    · rintro (⟨t, ht, args, hsuper, hargs⟩ | ⟨hkind, hb⟩)
      · obtain rfl : bargs = _ := hargs
        split
        · rename_i hraw
          exact .raw hd ht hraw.1 hraw.2 hsuper
        · rename_i hraw
          exact .declared hd ht (by tauto) hsuper
      · rw [hb]
        exact .root hd hkind
    · intro h
      cases h with
      | declared hd' ht hraw hsuper =>
        obtain rfl := Option.some.inj (hd.symm.trans hd')
        exact .inl ⟨_, ht, bargs, hsuper, (if_neg (by tauto)).symm⟩
      | raw hd' ht hargs hparams hsuper =>
        obtain rfl := Option.some.inj (hd.symm.trans hd')
        exact .inl ⟨_, ht, _, hsuper, (if_pos ⟨hargs, hparams⟩).symm⟩
      | root hd' hkind =>
        obtain rfl := Option.some.inj (hd.symm.trans hd')
        exact .inr ⟨hkind, rfl⟩

theorem leads_directSupertypes (env : Env) : Leads env.directSupertypes = env.Extends := by
  funext c b
  exact propext mem_directSupertypes

/-! ## Chains of direct supertypes -/

/-- What the search for an instance of a class says about the supertypes of a class type. -/
theorem tells_view (env : Env) (c : ClassType) (target : ClassId) :
    Tells (fun b => decide (b.id = target)) env.Extends c (env.search c target) := by
  rw [← leads_directSupertypes]
  exact tells_search _ _ _ _

theorem asSuper_eq_search {t : Ty} (ht : env.canonical t = c.toTy) :
    env.asSuper t target = (env.search c target).toOption.map ClassType.toTy := by
  have hsimple : t.isCompound = false := by
    cases t with
    | inter parts | var v => cases ht
    | _ => rfl
  rw [asSuper_eq_viewLeaf hsimple, viewLeaf, ht]
  rfl

/-- The view of a class type as an instance of a class, if its search ends, is reached by a chain
of direct supertypes, and by no shorter chain is any instance of the class. If there is no view, no
chain leads to an instance of the class. -/
theorem nearest_view {t : Ty} (ht : env.canonical t = c.toTy)
    (hend : env.search c target ≠ .exhausted) :
    (∀ v, env.asSuper t target = some v → ∃ b n, v = b.toTy ∧ b.id = target ∧
      ReachedIn env.Extends c n b ∧
      ∀ m e, ReachedIn env.Extends c m e → e.id = target → n ≤ m) ∧
    (env.asSuper t target = none → ∀ n b, ReachedIn env.Extends c n b → b.id ≠ target) := by
  have htells := env.tells_view c target
  rw [asSuper_eq_search ht]
  cases hs : env.search c target with
  | found b =>
    rw [hs] at htells
    obtain ⟨hb, n, hn, hnearest⟩ := htells
    refine ⟨fun v hv => ⟨b, n, (Option.some.inj hv).symm, of_decide_eq_true hb, hn, ?_⟩, nofun⟩
    exact fun m e he htarget => hnearest m e he (decide_eq_true htarget)
  | absent =>
    rw [hs] at htells
    obtain ⟨known, hknown, hall⟩ := htells
    exact ⟨nofun, fun _ n b hb => of_decide_eq_false (hknown b (hall n b hb))⟩
  | exhausted => exact absurd hs hend

/-- An `ArrayList<String>` is a `Collection<String>`, by way of `List<String>`, and is not
comparable. -/
theorem nearest_view_arrayList :
    (∃ b n, Ty.cls Standard.collection [Standard.stringTy] = b.toTy ∧ b.id = Standard.collection ∧
      ReachedIn standard.Extends ⟨⟨25⟩, [Standard.stringTy]⟩ n b ∧
      ∀ m e, ReachedIn standard.Extends ⟨⟨25⟩, [Standard.stringTy]⟩ m e →
        e.id = Standard.collection → n ≤ m) ∧
    ∀ n b, ReachedIn standard.Extends ⟨⟨25⟩, [Standard.stringTy]⟩ n b →
      b.id ≠ Standard.comparable := by
  have ht : standard.canonical (.cls ⟨25⟩ [Standard.stringTy]) =
      ClassType.toTy ⟨⟨25⟩, [Standard.stringTy]⟩ := rfl
  constructor
  · exact (nearest_view ht (by decide +kernel)).1 _ (by decide +kernel)
  · exact (nearest_view ht (by decide +kernel)).2 (by decide +kernel)

end Env

end DoubleColon
