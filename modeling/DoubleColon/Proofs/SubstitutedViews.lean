import DoubleColon.Proofs.NearestSupertypes
import DoubleColon.Proofs.Overriding

/-!
# Views under a substitution

A class type seen as an instance of another class is seen the same way after a substitution has been
put into its type arguments, with the substitution put into the view. For this the supertypes that
classes declare must mention their own type parameters only, and have no type arguments or as many
as their class has parameters.

The two searches do not look at the same nodes. A substitution may make one class type of two, and
then one search passes over what the other one follows. What is reached from there has been reached
before, up to the substitution.
-/

set_option autoImplicit false

namespace DoubleColon

/-! ## Two searches side by side -/

inductive Search.Agree {α β : Type} (same : α → β → Prop) : Search α → Search β → Prop
  | found {a : α} {b : β} (h : same a b) : Agree same (.found a) (.found b)
  | absent : Agree same .absent .absent

namespace Hierarchy

variable {α β : Type} [DecidableEq α] [DecidableEq β] {next : α → List α} {key' : β → α}
  {next' : β → List β} {same : α → β → Prop}

theorem search_nil (wanted : α → Bool) (next : α → List α) (n : Nat) (seen : List α) :
    search wanted next n seen [] = .absent := by
  cases n <;> rfl

/-- Two searches in step agree, if the one that looks at more nodes ends. The other one takes no
more steps. -/
theorem search_agrees (wanted : α → Bool) (hcor : Corresponds id next key' next' same) {n m : Nat}
    (hnm : m ≤ n) {seen as : List α} {seen' bs : List β}
    (hstep : InStep key' next' same seen as seen' bs)
    (hseen : ∀ a ∈ seen, wanted a = false)
    (hend : search (fun b => wanted (key' b)) next' m seen' bs ≠ .exhausted) :
    Search.Agree same (search wanted next n seen as)
      (search (fun b => wanted (key' b)) next' m seen' bs) := by
  induction m generalizing n seen as seen' bs with
  | zero =>
    cases hstep.queues with
    | nil =>
      rw [search_nil, search_nil]
      exact .absent
    | both h hq => exact absurd rfl hend
    | extra h hq => exact absurd rfl hend
  | succ m ih =>
    obtain ⟨n, rfl⟩ := Nat.exists_eq_add_one_of_ne_zero (by omega : n ≠ 0)
    have hqueues := hstep.queues
    cases hqueues with
    | nil =>
      rw [search_nil, search_nil]
      exact .absent
    | @extra _ b as bs hb hq =>
      rw [search_unwanted (fun b => wanted (key' b)) (hseen _ hb)] at hend ⊢
      exact ih (by omega) (hstep.pass hq hb) hseen hend
    | @both _ a b as bs hab hq =>
      obtain rfl : a = key' b := hcor.key_eq hab
      by_cases ha : key' b ∈ seen
      · -- The first search has been at this node, to which the second one comes in addition.
        have hrest : Shadows key' same seen as bs := hq.mono fun k hk =>
          (List.mem_cons.mp hk).elim (fun he => he ▸ ha) id
        have hextra : InStep key' next' same seen as seen' (b :: bs) :=
          ⟨.extra ha hrest, hstep.visited, hstep.closed⟩
        rw [search_unwanted (fun b => wanted (key' b)) (hseen _ ha)] at hend ⊢
        rw [search, if_pos ha]
        exact ih (by omega) (hextra.pass hrest ha) hseen hend
      · have hb : b ∉ seen' := fun hm => ha (hstep.visited b hm)
        cases hw : wanted (key' b) with
        | true =>
          have hfound : search wanted next (n + 1) seen (key' b :: as) = .found (key' b) := by
            rw [search, if_neg ha, if_pos hw]
          rw [hfound, search, if_neg hb, if_pos hw]
          exact .found hab
        | false =>
          rw [search_unwanted (fun b => wanted (key' b)) hw, passed, if_neg hb] at hend ⊢
          rw [search_unwanted wanted hw, passed, if_neg ha]
          exact ih (by omega) (hstep.advance hcor hab hq)
            (List.forall_mem_cons.mpr ⟨hw, hseen⟩) hend

end Hierarchy

/-! ## Type arguments under a substitution -/

def ClassType.put (s : Substitution) (c : ClassType) : ClassType := ⟨c.id, c.args.map s.apply⟩

theorem ClassType.toTy_put (s : Substitution) (c : ClassType) :
    (c.put s).toTy = s.apply c.toTy := by
  rw [toTy, toTy, Substitution.apply, Substitution.applyAll_eq_map]
  rfl

/-- Putting type arguments for the type parameters of a class and then putting a substitution into
the result is to put it into the type arguments first. -/
theorem Substitution.apply_ofArgs_map {d : ClassDecl} {args : List Ty}
    (hlen : args.length = d.typeParams.length) (s : Substitution) {t : Ty}
    (ht : ∀ v ∈ t.vars, v ∈ d.typeParams) :
    (ofArgs d (args.map s.apply)).apply t = s.apply ((ofArgs d args).apply t) := by
  refine apply_apply fun v hv => ?_
  obtain ⟨u, hu⟩ := Option.isSome_iff_exists.mp (contains_ofArgs.mpr ⟨hlen, ht v hv⟩)
  have hmap := get?_ofArgs_map d args s.apply v
  rw [hu] at hmap
  rw [apply_var_of_some hmap, apply_var_of_some hu]

namespace Env

open Hierarchy Substitution

variable {env : Env} {s : Substitution} {b c : ClassType} {d : ClassDecl}

def givenArgs (c : ClassType) (d : ClassDecl) (args : List Ty) : List Ty :=
  if c.args.isEmpty && !d.typeParams.isEmpty then [] else args.map (ofArgs d c.args).apply

theorem directSupertypes_related (hs : env.DeclaresClassTypes) {R : ClassType → ClassType → Prop}
    (hid : b.id = c.id) (hd : env.class? b.id = some d)
    (hdeclared : ∀ t ∈ d.supertypes, ∀ super args, env.canonical t = .cls super args →
      R ⟨super, givenArgs b d args⟩ ⟨super, givenArgs c d args⟩)
    (hobject : R ⟨env.wellKnown.object, []⟩ ⟨env.wellKnown.object, []⟩) :
    List.Forall₂ R (env.directSupertypes b) (env.directSupertypes c) := by
  unfold directSupertypes
  rw [← hid, hd]
  dsimp only
  refine List.rel_append ?_ ?_
  · have hsame : List.Forall₂ (fun t u => t = u ∧ t ∈ d.supertypes) d.supertypes d.supertypes :=
      List.forall₂_same.mpr fun t ht => ⟨rfl, ht⟩
    refine List.rel_filterMap ?_ hsame
    rintro t _ ⟨rfl, ht⟩
    obtain ⟨super, args, hc, -⟩ := hs b.id d t hd ht
    simp only [canonical_apply _ hc]
    exact .some (hdeclared t ht super args hc)
  · split
    · exact .cons hobject .nil
    · exact .nil

/-- Declared supertypes mention no type variables but the type parameters of the class. -/
def KeepsToOwnParams (env : Env) : Prop :=
  ∀ id d t, env.class? id = some d → t ∈ d.supertypes → ∀ v ∈ t.vars, v ∈ d.typeParams

theorem KeepsToOwnParams.args (hown : env.KeepsToOwnParams) {id super : ClassId} {t : Ty}
    {args : List Ty} (hd : env.class? id = some d) (ht : t ∈ d.supertypes)
    (hsuper : env.canonical t = .cls super args) : ∀ a ∈ args, ∀ v ∈ a.vars, v ∈ d.typeParams :=
  fun _ ha v hv => hown id d t hd ht v (mem_vars_of_canonical hsuper ha hv)

def SuitsClass (env : Env) (c : ClassType) : Prop := ∀ d, env.class? c.id = some d → d.Suits c.args

theorem givenArgs_put (hlen : c.args.length = d.typeParams.length) {args : List Ty}
    (hargs : ∀ a ∈ args, ∀ v ∈ a.vars, v ∈ d.typeParams) :
    givenArgs (c.put s) d args = (givenArgs c d args).map s.apply := by
  unfold givenArgs ClassType.put
  rw [List.isEmpty_map]
  split
  · rfl
  · rw [List.map_map]
    exact List.map_congr_left fun a ha => apply_ofArgs_map hlen s (hargs a ha)

theorem givenArgs_nil (hargs : c.args = []) (hparams : d.typeParams ≠ []) (args : List Ty) :
    givenArgs c d args = [] := by
  simp [givenArgs, hargs, hparams]

theorem givenArgs_put_of_suits (hc : d.Suits c.args) {args : List Ty}
    (hargs : ∀ a ∈ args, ∀ v ∈ a.vars, v ∈ d.typeParams) :
    givenArgs (c.put s) d args = (givenArgs c d args).map s.apply := by
  by_cases hlen : c.args.length = d.typeParams.length
  · exact givenArgs_put hlen hargs
  · have hnil : c.args = [] := hc.resolve_right hlen
    have hput : (c.put s).args = [] := by rw [ClassType.put, hnil, List.map_nil]
    have hparams : d.typeParams ≠ [] := fun h => hlen (by rw [hnil, h]; rfl)
    rw [givenArgs_nil hput hparams, givenArgs_nil hnil hparams, List.map_nil]

theorem givenArgs_congr (h : b.put s = c.put s) {args : List Ty}
    (hargs : ∀ a ∈ args, ∀ v ∈ a.vars, v ∈ d.typeParams) :
    (givenArgs b d args).map s.apply = (givenArgs c d args).map s.apply := by
  have hlen : b.args.length = c.args.length := by
    simpa [ClassType.put] using congrArg (fun c => c.args.length) h
  by_cases hb : b.args.length = d.typeParams.length
  · rw [← givenArgs_put hb hargs, ← givenArgs_put (hlen ▸ hb) hargs, h]
  · -- Type arguments that do not fit are not put for anything.
    have hempty : b.args.isEmpty = c.args.isEmpty := by
      rw [Bool.eq_iff_iff, List.isEmpty_iff_length_eq_zero, List.isEmpty_iff_length_eq_zero, hlen]
    unfold givenArgs
    rw [ofArgs_of_length_ne hb, ofArgs_of_length_ne (hlen ▸ hb), hempty]

theorem suitsClass_given {super : ClassId} {args : List Ty}
    (h : ∀ e, env.class? super = some e → e.Suits args) :
    env.SuitsClass ⟨super, givenArgs c d args⟩ := by
  intro e he
  unfold givenArgs
  dsimp only
  split
  · exact .nil e
  · exact (h e he).map _

/-! ## Views under a substitution -/

theorem put_corresponds (hs : env.DeclaresClassTypes) (hown : env.KeepsToOwnParams)
    (s : Substitution) : Corresponds id env.directSupertypes (ClassType.put s)
      env.directSupertypes fun a c => a = c.put s ∧ env.SuitsClass c where
  key_eq h := h.1
  next_same {a c} h := by
    obtain ⟨rfl, hc⟩ := h
    cases hd : env.class? c.id with
    | none =>
      have hput : env.class? (c.put s).id = none := hd
      rw [directSupertypes, directSupertypes, hput, hd]
      exact .nil
    | some d =>
      refine directSupertypes_related hs rfl hd (fun t ht super args hsuper => ⟨?_, ?_⟩) ⟨rfl, ?_⟩
      · rw [givenArgs_put_of_suits (hc d hd) (hown.args hd ht hsuper)]
        rfl
      · obtain ⟨k, as, hk, has⟩ := hs c.id d t hd ht
        obtain ⟨rfl, rfl⟩ := Ty.cls.inj (hk.symm.trans hsuper)
        exact suitsClass_given has
      · exact fun e _ => .nil e
  keys_next {b c} h := by
    have hid : (b.put s).id = (c.put s).id := congrArg ClassType.id h
    replace hid : b.id = c.id := hid
    cases hd : env.class? b.id with
    | none => rw [directSupertypes, directSupertypes, ← hid, hd]
    | some d =>
      have hrel : List.Forall₂ (fun x y => x.put s = y.put s) (env.directSupertypes b)
          (env.directSupertypes c) := by
        refine directSupertypes_related hs hid hd (fun t ht super args hsuper => ?_) rfl
        exact congrArg (ClassType.mk super) (givenArgs_congr h (hown.args hd ht hsuper))
      rw [← List.forall₂_eq_eq_eq, List.forall₂_map_left_iff, List.forall₂_map_right_iff]
      exact hrel

/-- The search for an instance of a class after a substitution finds what the search before it
finds, with the substitution put in. -/
theorem search_put (hs : env.DeclaresClassTypes) (hown : env.KeepsToOwnParams)
    (hc : env.SuitsClass c) (s : Substitution) {target : ClassId}
    (hend : env.search c target ≠ .exhausted) :
    Search.Agree (fun a b => a = b.put s ∧ env.SuitsClass b) (env.search (c.put s) target)
      (env.search c target) := by
  have hstep : InStep (ClassType.put s) env.directSupertypes
      (fun a b => a = b.put s ∧ env.SuitsClass b) [] [c.put s] [] [c] :=
    ⟨.both ⟨rfl, hc⟩ (.nil _), fun _ hb => (nomatch hb), fun _ hb => (nomatch hb)⟩
  exact search_agrees (fun b : ClassType => decide (b.id = target)) (put_corresponds hs hown s)
    (Nat.le_refl env.searchLimit) hstep (List.forall_mem_nil _) hend

/-- The view of a class type as an instance of a class after a substitution is its view before, with
the substitution put in. -/
theorem asSuper_apply (hs : env.DeclaresClassTypes) (hown : env.KeepsToOwnParams) {id : ClassId}
    {args : List Ty} (hargs : ∀ d, env.class? id = some d → d.Suits args) (s : Substitution)
    {target : ClassId} (hend : env.search ⟨id, args⟩ target ≠ .exhausted) :
    env.asSuper (s.apply (.cls id args)) target =
      (env.asSuper (.cls id args) target).map s.apply := by
  have hput : env.canonical (s.apply (.cls id args)) = (ClassType.put s ⟨id, args⟩).toTy := by
    rw [ClassType.toTy_put]
    rfl
  have hclass : env.canonical (.cls id args) = ClassType.toTy ⟨id, args⟩ := rfl
  rw [asSuper_eq_search hput, asSuper_eq_search hclass]
  have hsuits : env.SuitsClass ⟨id, args⟩ := hargs
  have hagree := search_put hs hown hsuits s hend
  generalize env.search (ClassType.put s ⟨id, args⟩) target = after at hagree
  generalize env.search ⟨id, args⟩ target = before at hagree
  cases hagree with
  | found h =>
    rw [h.1]
    exact congrArg some (ClassType.toTy_put s _)
  | absent => rfl

theorem keepsToOwnParams_of_all
    (h : ∀ d ∈ env.classes, ∀ t ∈ d.supertypes, ∀ v ∈ t.vars, v ∈ d.typeParams) :
    env.KeepsToOwnParams :=
  fun _ d t hd ht => h d (List.mem_of_getElem? hd) t ht

/-- Whatever is put for `E` in `ArrayList<E>` is put for it in its view as a collection. -/
theorem asSuper_apply_arrayList :
    standard.asSuper ((Substitution.ofList [(⟨12⟩, Standard.stringTy)]).apply
        (.cls ⟨25⟩ [Standard.param 12])) Standard.collection =
      (standard.asSuper (.cls ⟨25⟩ [Standard.param 12]) Standard.collection).map
        (Substitution.ofList [(⟨12⟩, Standard.stringTy)]).apply ∧
    standard.asSuper (.cls ⟨25⟩ [Standard.param 12]) Standard.collection =
      some (.cls Standard.collection [Standard.param 12]) := by
  have hs : standard.DeclaresClassTypes := declaresClassTypes_of_all (by decide +kernel)
  have hown : standard.KeepsToOwnParams := keepsToOwnParams_of_all (by decide +kernel)
  have hargs : ∀ d, standard.class? ⟨25⟩ = some d → d.Suits [Standard.param 12] := by
    intro d hd
    obtain rfl : Standard.arrayListDecl = d := Option.some.inj hd
    exact .inr rfl
  exact ⟨asSuper_apply hs hown hargs _ (by decide +kernel), by decide +kernel⟩

end Env

end DoubleColon
