import DoubleColon.Proofs.AcyclicHierarchies
import DoubleColon.Proofs.Spelling
import DoubleColon.Proofs.SubstitutedViews

/-!
# Views of types with names

A class type whose type arguments are names is seen as an instance of another class as if they were
classes. For this the supertypes on the way must hand type arguments on as they are: if a `Box<T>`
were a `Comparable<Box<T>>`, the name in a box would be out of reach in the comparable.

The searches for the two views need not look at the same nodes, since a class type with a name and
one with the class may be met on one of them, and be one on the other.
-/

set_option autoImplicit false

namespace DoubleColon

def Ty.IsPassedOn (t : Ty) : Prop := ∀ v ∈ t.vars, t = .var v

instance (t : Ty) : Decidable t.IsPassedOn := inferInstanceAs (Decidable (∀ v ∈ t.vars, _))

namespace Env

open Hierarchy Substitution

/-- The declared supertypes of some classes are names, or class types of these classes that are
given type arguments which are passed on as they are. All searches of their supertypes end. -/
structure HandsOn (env : Env) (shown : ClassId → Bool) : Prop where
  declared : ∀ id d t, shown id → env.class? id = some d → t ∈ d.supertypes →
    (∃ m, t = .named m) ∨
      ∃ super args, t = .cls super args ∧ shown super ∧ ∀ a ∈ args, a.IsPassedOn
  ends : ∀ c target, shown c.id → env.search c target ≠ .exhausted

def spelledClass (env : Env) (shown : ClassId → Bool) (n : Nat) (c : ClassType) : ClassType :=
  ⟨c.id, if shown c.id then c.args.map (env.spelledArg (env.spelled shown n)) else c.args⟩

variable {env : Env} {shown : ClassId → Bool} {n : Nat} {b c : ClassType} {d : ClassDecl}

theorem spelledClass_of_shown (h : shown c.id = true) : env.spelledClass shown n c =
    ⟨c.id, c.args.map (env.spelledArg (env.spelled shown n))⟩ := by
  rw [spelledClass, if_pos h]

theorem spelledClass_of_not_shown (h : shown c.id = false) : env.spelledClass shown n c = c := by
  rw [spelledClass, if_neg (by simp [h])]

theorem id_eq_of_spelledClass_eq
    (h : env.spelledClass shown n b = env.spelledClass shown n c) : b.id = c.id :=
  ClassType.noConfusion h fun hid _ => hid

theorem spelledClass_spelledClass :
    env.spelledClass shown n (env.spelledClass shown n c) = env.spelledClass shown n c := by
  have h := @spelled_spelled env shown (n + 1) c.toTy
  exact congrArg (ClassType.mk c.id) (Ty.cls.inj h).2

theorem apply_ofArgs_passed_on {g : Ty → Ty} {as bs : List Ty} (h : as.map g = bs.map g) {a : Ty}
    (ha : a.IsPassedOn) : g ((ofArgs d as).apply a) = g ((ofArgs d bs).apply a) := by
  cases hvars : a.vars with
  | nil =>
    rw [apply_of_unmapped (by simp [hvars]), apply_of_unmapped (by simp [hvars])]
  | cons v rest =>
    obtain rfl : a = .var v := ha v (hvars ▸ List.mem_cons_self)
    have hget := (get?_ofArgs_map d as g v).symm.trans (h ▸ get?_ofArgs_map d bs g v)
    rw [apply, apply]
    cases has : (ofArgs d as).get? v <;> cases hbs : (ofArgs d bs).get? v <;>
      simp_all

theorem spelledClass_directSupertypes (h : env.HandsOn shown)
    (hbc : env.spelledClass shown n b = env.spelledClass shown n c) :
    (env.directSupertypes b).map (env.spelledClass shown n) =
      (env.directSupertypes c).map (env.spelledClass shown n) := by
  have hid := id_eq_of_spelledClass_eq hbc
  cases hb : shown b.id with
  | false => rw [← spelledClass_of_not_shown hb, hbc, spelledClass_of_not_shown (hid ▸ hb)]
  | true =>
    rw [spelledClass_of_shown hb, spelledClass_of_shown (hid ▸ hb)] at hbc
    have hargs := congrArg ClassType.args hbc
    have hempty : b.args.isEmpty = c.args.isEmpty := isEmpty_eq_of_map_eq hargs
    unfold directSupertypes
    rw [← hid]
    cases hd : env.class? b.id with
    | none => rfl
    | some d =>
      dsimp only
      rw [List.map_append, List.map_append, List.map_filterMap, List.map_filterMap, hempty]
      refine congrArg (· ++ _) (List.filterMap_congr fun t ht => ?_)
      rcases h.declared b.id d t hb hd ht with ⟨m, rfl⟩ | ⟨super, args, rfl, hsuper, hpassed⟩
      · rfl
      · let g := env.spelledArg (env.spelled shown n)
        have hgiven : (args.map (ofArgs d b.args).apply).map g =
            (args.map (ofArgs d c.args).apply).map g := by
          rw [List.map_map, List.map_map]
          exact List.map_congr_left fun a ha => apply_ofArgs_passed_on hargs (hpassed a ha)
        simp only [Substitution.apply, applyAll_eq_map, canonical, Option.map_some]
        split
        · rfl
        · rw [spelledClass_of_shown (c := ⟨super, _⟩) hsuper,
            spelledClass_of_shown (c := ⟨super, _⟩) hsuper, hgiven]

/-! ## Two searches -/

/-- A class type stands for all class types that are spelled alike. -/
theorem spelledClass_corresponds (h : env.HandsOn shown) (n : Nat) :
    Corresponds id (fun a => (env.directSupertypes a).map (env.spelledClass shown n))
      (env.spelledClass shown n) env.directSupertypes
      fun a b => a = env.spelledClass shown n b where
  key_eq h := h
  next_same {a b} hab := by
    rw [hab, spelledClass_directSupertypes h spelledClass_spelledClass, List.forall₂_map_left_iff]
    exact List.forall₂_same.mpr fun _ _ => rfl
  keys_next hbc := spelledClass_directSupertypes h hbc

theorem toOption_of_agree {α β : Type} {f : β → α} {sa : Search α} {sb : Search β}
    (h : Search.Agree (fun a b => a = f b) sa sb) : sa.toOption = sb.toOption.map f := by
  cases h with
  | found h => exact congrArg some h
  | absent => rfl

/-- The view of a class type is spelled as what the search between class types with classes put for
names finds. -/
theorem view_map_spelledClass (h : env.HandsOn shown) (hc : shown c.id = true)
    (target : ClassId) :
    (Hierarchy.search (fun a : ClassType => a.id = target)
        (fun a => (env.directSupertypes a).map (env.spelledClass shown n)) env.searchLimit []
        [env.spelledClass shown n c]).toOption =
      (env.view c target).map (env.spelledClass shown n) := by
  have hstep : InStep (env.spelledClass shown n) env.directSupertypes
      (fun a b => a = env.spelledClass shown n b) [] [env.spelledClass shown n c] [] [c] :=
    ⟨.both rfl (.nil _), fun _ hb => (nomatch hb), fun _ hb => (nomatch hb)⟩
  exact toOption_of_agree (search_agrees (fun a : ClassType => decide (a.id = target))
    (spelledClass_corresponds h n) (Nat.le_refl env.searchLimit) hstep (List.forall_mem_nil _)
    (h.ends c target hc))

theorem view_spelled_alike (h : env.HandsOn shown)
    (hbc : env.spelledClass shown n b = env.spelledClass shown n c) (target : ClassId) :
    (env.view b target).map (env.spelledClass shown n) =
      (env.view c target).map (env.spelledClass shown n) := by
  have hid := id_eq_of_spelledClass_eq hbc
  cases hb : shown b.id with
  | false => rw [← spelledClass_of_not_shown hb, hbc, spelledClass_of_not_shown (hid ▸ hb)]
  | true =>
    rw [← view_map_spelledClass h hb, ← view_map_spelledClass h (hid ▸ hb), hbc]

end Env

/-! ## Type arguments that are handed on -/

namespace Env

variable {env : Env}

def superArgs (env : Env) : List Ty :=
  env.classes.flatMap fun d => d.supertypes.flatMap fun t => match env.canonical t with
    | .cls _ args => args
    | _ => []

theorem mem_superArgs {id k : ClassId} {d : ClassDecl} {t a : Ty} {args : List Ty}
    (hd : env.class? id = some d) (ht : t ∈ d.supertypes) (h : env.canonical t = .cls k args)
    (ha : a ∈ args) : a ∈ env.superArgs := by
  refine List.mem_flatMap.mpr ⟨d, List.mem_of_getElem? hd, List.mem_flatMap.mpr ⟨t, ht, ?_⟩⟩
  rwa [h]

/-- If no declared supertype wraps a type parameter into another type and all searches end, all
classes hand type arguments on. -/
theorem handsOn_of_passed_on (hn : env.NamesSupertypes) (h : ∀ a ∈ env.superArgs, a.IsPassedOn)
    (hend : ∀ c target, env.search c target ≠ .exhausted) : env.HandsOn fun _ => true where
  declared id d t _ hd ht := by
    rcases hn id d t hd ht with ⟨super, args, rfl⟩ | hm
    · exact .inr ⟨super, args, rfl, rfl, fun a ha => h a (mem_superArgs hd ht rfl ha)⟩
    · exact .inl hm
  ends c target _ := hend c target

theorem standard_handsOn : standard.HandsOn fun _ => true :=
  handsOn_of_passed_on (namesSupertypes_of_all (by decide +kernel)) (by decide +kernel)
    standard_endingWalks.search_ends

end Env

end DoubleColon
