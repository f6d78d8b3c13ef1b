import DoubleColon.Proofs.CompleteWalks
import DoubleColon.Proofs.OwnReceivers
import DoubleColon.Proofs.TypeVariables

/-!
# Methods that are overridden

A method of a class overrides one of an ancestor if both have one name and, with the ancestor seen
from the class itself, the same parameter types. A walk goes by the erased parameter types, with
the type arguments put in that it has for either class. If it was asked for with type arguments,
those of the ancestor are what is seen from the class itself, with the former put in, and what
overrides comes out with the same erasure as what it overrides. If it was asked for with a raw
class, ancestors may be raw as well; then a parameter is erased to its own bound, whatever the
class declares in its place.
-/

set_option autoImplicit false

namespace DoubleColon

/-! ## Two walks side by side -/

namespace Hierarchy

variable {α β κ : Type} [DecidableEq κ] {key : α → κ} {next : α → List α} {key' : β → κ}
  {next' : β → List β} {same : α → β → Prop}

/-- Of two walks over nodes that stand for each other, what is met on one is met on the other. -/
theorem exists_visited {as out : List α} {bs out' : List β} (hq : List.Forall₂ same as bs)
    (hkey : ∀ a b, same a b → key a = key' b)
    (hnext : ∀ a b, same a b → List.Forall₂ same (next a) (next' b)) {n : Nat} {seen : List κ}
    (hv : visits key next n seen as = some out) (hv' : visits key' next' n seen bs = some out')
    {b : β} (hb : b ∈ out') : ∃ a ∈ out, same a b := by
  induction n generalizing seen as bs out out' with
  | zero =>
    cases hq with
    | nil =>
      cases hv'
      cases hb
    | cons h hq => simp [visits] at hv
  | succ n ih =>
    cases hq with
    | nil =>
      cases hv'
      cases hb
    | @cons a c as bs h hq =>
      simp only [visits, ← hkey a c h] at hv hv'
      split at hv
      · rename_i hs
        rw [if_pos hs] at hv'
        exact ih hq hv hv' hb
      · rename_i hs
        rw [if_neg hs] at hv'
        obtain ⟨rest, hrest, rfl⟩ := Option.map_eq_some_iff.mp hv
        obtain ⟨rest', hrest', rfl⟩ := Option.map_eq_some_iff.mp hv'
        rcases List.mem_cons.mp hb with rfl | hb
        · exact ⟨a, List.mem_cons_self, h⟩
        · obtain ⟨a', ha', hsame⟩ := ih (List.rel_append hq (hnext a c h)) hrest hrest' hb
          exact ⟨a', List.mem_cons_of_mem _ ha', hsame⟩

end Hierarchy

def ClassDecl.Mentions (d : ClassDecl) (v : TypeVar) : Prop :=
  (∃ t ∈ d.supertypes, v ∈ t.vars) ∨ ∃ m ∈ d.methods, ∃ p ∈ m.params, v ∈ p.vars

instance (d : ClassDecl) (v : TypeVar) : Decidable (d.Mentions v) :=
  inferInstanceAs (Decidable (_ ∨ _))

/-! ## Type arguments -/

namespace Substitution

theorem contains_ofArgs {d : ClassDecl} {args : List Ty} {v : TypeVar} :
    (ofArgs d args).contains v = true ↔ args.length = d.typeParams.length ∧ v ∈ d.typeParams := by
  unfold ofArgs
  split
  · rename_i hlen
    rw [ofList, contains_insertAll, List.map_fst_zip (Nat.le_of_eq hlen.symm)]
    exact ⟨fun h => ⟨hlen, h.resolve_left Bool.false_ne_true⟩, fun h => .inr h.2⟩
  · rename_i hlen
    exact ⟨fun h => absurd h Bool.false_ne_true, fun h => absurd h.1 hlen⟩

theorem mem_of_get?_insertAll {s : Substitution} {l : List (TypeVar × Ty)} {v : TypeVar} {t : Ty}
    (h : (s.insertAll l).get? v = some t) : (v, t) ∈ l ∨ s.get? v = some t := by
  induction l generalizing s with
  | nil => exact .inr h
  | cons e rest ih =>
    rcases ih h with hm | hs
    · exact .inl (List.mem_cons_of_mem _ hm)
    · rw [get?_insert] at hs
      split at hs
      · rename_i he
        cases hs
        exact .inl (he ▸ List.mem_cons_self)
      · exact .inr hs

theorem ofArgs_of_length_ne {d : ClassDecl} {args : List Ty}
    (h : args.length ≠ d.typeParams.length) : ofArgs d args = {} := if_neg h

theorem omits_empty {params : List TypeVar} {v : TypeVar} (h : v ∈ params) :
    omits {} params = true := by
  cases params with
  | nil => cases h
  | cons p ps => simp [omits, contains]

theorem get?_ofArgs_of_not_mem {d : ClassDecl} {args : List Ty} {v : TypeVar}
    (h : v ∉ d.typeParams) : (ofArgs d args).get? v = none := by
  cases hg : (ofArgs d args).get? v with
  | none => rfl
  | some t => exact absurd (contains_ofArgs.mp (Option.isSome_of_eq_some hg)).2 h

theorem eq_var_of_get?_ofArgs {d : ClassDecl} {v : TypeVar} {t : Ty}
    (h : (ofArgs d (d.typeParams.map .var)).get? v = some t) : t = .var v := by
  have hself : List.Forall₂ (fun v t => t = Ty.var v) d.typeParams (d.typeParams.map .var) :=
    List.forall₂_map_right_iff.mpr (List.forall₂_same.mpr fun _ _ => rfl)
  rw [ofArgs, if_pos (List.length_map _)] at h
  have hmem := (mem_of_get?_insertAll h).resolve_right fun he => Option.some_ne_none t he.symm
  exact List.forall₂_zip hself hmem

end Substitution

namespace Env

open Hierarchy Substitution

variable {env : Env}

def superSubst (env : Env) (c : SeenClass) (d : ClassDecl) (super : ClassId) (args : List Ty) :
    Substitution :=
  match env.class? super with
  | some e => if c.2.omits d.typeParams then {} else .ofArgs e (args.map c.2.apply)
  | none => {}

theorem superclasses_related (hs : env.SuitsSupertypes) {R : SeenClass → SeenClass → Prop}
    {j k : SeenClass} {d : ClassDecl} (hcls : j.1 = k.1) (hd : env.class? j.1 = some d)
    (hdeclared : ∀ t ∈ d.supertypes, ∀ super args, env.canonical t = .cls super args →
      R (super, env.superSubst j d super args) (super, env.superSubst k d super args))
    (hobject : d.kind = .interface → R (env.wellKnown.object, {}) (env.wellKnown.object, {})) :
    List.Forall₂ R (env.superclasses j) (env.superclasses k) := by
  unfold superclasses
  rw [← hcls, hd]
  dsimp only
  refine List.rel_append ?_ ?_
  · have hsame : List.Forall₂ (fun t u => t = u ∧ t ∈ d.supertypes) d.supertypes d.supertypes :=
      List.forall₂_same.mpr fun t ht => ⟨rfl, ht⟩
    refine List.rel_filterMap ?_ hsame
    rintro t _ ⟨rfl, ht⟩
    obtain ⟨super, args, hc, -⟩ | ⟨n, rfl, hn⟩ := hs j.1 d t hd ht
    · have hR := hdeclared t ht super args hc
      unfold superSubst at hR
      simp only [canonical_apply _ hc]
      cases he : env.class? super <;> simp only [he] at hR <;> exact .some hR
    · simp only [canonical_apply_unknown _ hn]
      exact .none
  · split
    · rename_i hk
      exact .cons (hobject hk) .nil
    · exact .nil

theorem exists_args_superSubst (c : SeenClass) (d : ClassDecl) (args : List Ty) {super : ClassId}
    {e : ClassDecl} (he : env.class? super = some e) :
    ∃ bs, env.superSubst c d super args = .ofArgs e bs := by
  simp only [superSubst, he]
  split
  · exact ⟨[], (ofArgs_nil e).symm⟩
  · exact ⟨_, rfl⟩

/-! ## A class type and its class -/

def KeepsParams (env : Env) (c : ClassId) (d : ClassDecl) : Prop :=
  ∀ n k e, ReachedIn env.LeadsTo c n k → k ≠ c → env.class? k = some e →
    ∀ v ∈ d.typeParams, ¬ e.Mentions v

/-- A class is seen from an instance of a class `c` as it is seen from `c`, with the type arguments
of the instance put in. -/
structure InstanceOf (env : Env) (c : ClassId) (σ : Substitution) (j k : SeenClass) : Prop where
  cls : j.1 = k.1
  reached : ∃ n, ReachedIn env.LeadsTo c n j.1
  fromArgs : ∀ e, env.class? j.1 = some e → ∃ bs, j.2 = .ofArgs e bs
  args : ∀ v, k.2.get? v = (j.2.get? v).map σ.apply

section

variable {c : ClassId} {d : ClassDecl} {σ : Substitution} {j k : SeenClass}

theorem InstanceOf.apply_eq (h : env.InstanceOf c σ j k) {t : Ty}
    (ht : ∀ v ∈ t.vars, j.2.contains v = true ∨ σ.get? v = none) :
    k.2.apply t = σ.apply (j.2.apply t) := by
  refine apply_apply fun v hv => ?_
  have hk := h.args v
  cases hj : j.2.get? v with
  | some u =>
    rw [hj] at hk
    rw [apply_var_of_some hk, apply_var_of_some hj]
  | none =>
    rw [hj] at hk
    have hσ := (ht v hv).resolve_left (by simp [contains, hj])
    rw [apply_var_of_none hk, apply_var_of_none hj, apply_var_of_none hσ]

theorem InstanceOf.omits_eq (h : env.InstanceOf c σ j k) (params : List TypeVar) :
    k.2.omits params = j.2.omits params := by
  simp [omits, contains, h.args]

theorem mem_vars_of_canonical {t a : Ty} {id : ClassId} {args : List Ty} {v : TypeVar}
    (h : env.canonical t = .cls id args) (ha : a ∈ args) (hv : v ∈ a.vars) : v ∈ t.vars := by
  cases t with
  | cls id' args' =>
    obtain ⟨-, rfl⟩ := Ty.cls.inj h
    exact Ty.mem_varsAll.mpr ⟨a, ha, hv⟩
  | named n =>
    unfold canonical at h
    dsimp only at h
    split at h <;> cases h
    cases ha
  | _ => cases h

theorem InstanceOf.apply_arg (ha : env.KeepsParams c d) (hc : env.class? c = some d) {as : List Ty}
    (h : env.InstanceOf c (.ofArgs d as) j k) {e : ClassDecl} (he : env.class? j.1 = some e)
    (hraw : j.2.omits e.typeParams = false) {t : Ty} (ht : t ∈ e.supertypes) {super : ClassId}
    {args : List Ty} (hsuper : env.canonical t = .cls super args) {a : Ty} (harg : a ∈ args) :
    k.2.apply a = (ofArgs d as).apply (j.2.apply a) := by
  refine h.apply_eq fun v hv => ?_
  by_cases hp : v ∈ d.typeParams
  · left
    have hvt : v ∈ t.vars := mem_vars_of_canonical hsuper harg hv
    obtain ⟨n, hn⟩ := h.reached
    have hj : j.1 = c := by
      by_contra hne
      exact ha n j.1 e hn hne he v hp (.inl ⟨t, ht, hvt⟩)
    obtain rfl : d = e := by
      rw [hj, hc] at he
      exact Option.some.inj he
    obtain ⟨bs, hbs⟩ := h.fromArgs d he
    rw [hbs] at hraw ⊢
    rw [contains_ofArgs]
    refine ⟨?_, hp⟩
    by_contra hlen
    rw [ofArgs_of_length_ne hlen, omits_empty hp] at hraw
    cases hraw
  · exact .inr (get?_ofArgs_of_not_mem hp)

theorem InstanceOf.next (hs : env.SuitsSupertypes) (ha : env.KeepsParams c d)
    (hc : env.class? c = some d) {as : List Ty} (h : env.InstanceOf c (.ofArgs d as) j k) :
    List.Forall₂ (env.InstanceOf c (.ofArgs d as)) (env.superclasses j) (env.superclasses k) := by
  cases he : env.class? j.1 with
  | none =>
    have hk : env.class? k.1 = none := h.cls ▸ he
    simp [superclasses, he, hk]
  | some e =>
    obtain ⟨n, hn⟩ := h.reached
    refine superclasses_related hs h.cls he (fun t ht super args hsuper => ?_) fun hkind => ?_
    · refine ⟨rfl, ⟨n + 1, .step hn ⟨e, he, .inl ⟨t, ht, args, hsuper⟩⟩⟩,
        fun f hf => exists_args_superSubst j e args hf, fun v => ?_⟩
      unfold superSubst
      dsimp only
      cases hf : env.class? super with
      | none => rfl
      | some f =>
        dsimp only
        rw [h.omits_eq]
        cases hraw : j.2.omits e.typeParams with
        | true => rfl
        | false =>
          have hargs : args.map k.2.apply = (args.map j.2.apply).map (ofArgs d as).apply := by
            rw [List.map_map]
            exact List.map_congr_left fun a harg => h.apply_arg ha hc he hraw ht hsuper harg
          simp only [Bool.false_eq_true, if_false, hargs]
          exact get?_ofArgs_map f _ _ v
    · exact ⟨rfl, ⟨n + 1, .step hn ⟨e, he, .inr ⟨hkind, rfl⟩⟩⟩,
        fun f _ => ⟨[], (ofArgs_nil f).symm⟩, fun v => rfl⟩

theorem InstanceOf.start (hc : env.class? c = some d) {as : List Ty}
    (hlen : as.length = d.typeParams.length) :
    env.InstanceOf c (.ofArgs d as) (c, .ofArgs d (d.typeParams.map .var))
      (c, .ofArgs d as) where
  cls := rfl
  reached := ⟨0, .start⟩
  fromArgs e he := by
    obtain rfl : d = e := Option.some.inj (hc.symm.trans he)
    exact ⟨_, rfl⟩
  args v := by
    by_cases hv : v ∈ d.typeParams
    · obtain ⟨t, ht⟩ := Option.isSome_iff_exists.mp (contains_ofArgs.mpr ⟨hlen, hv⟩)
      obtain ⟨u, hu⟩ := Option.isSome_iff_exists.mp
        (contains_ofArgs.mpr ⟨List.length_map Ty.var, hv⟩)
      obtain rfl := eq_var_of_get?_ofArgs hu
      rw [hu, Option.map_some, apply_var_of_some ht, ht]
    · rw [get?_ofArgs_of_not_mem hv, get?_ofArgs_of_not_mem hv]
      rfl

/-! ## A raw class type and its class -/

/-- A class is seen from a raw class type as it is seen from the class, or it is seen raw. -/
structure RawOf (env : Env) (j k : SeenClass) : Prop where
  cls : j.1 = k.1
  fromArgs : ∀ e, env.class? j.1 = some e → ∃ bs, j.2 = .ofArgs e bs
  raw : k.2 = {} ∨ k.2 = j.2

theorem RawOf.superSubst (h : env.RawOf j k) {e : ClassDecl} (he : env.class? j.1 = some e)
    (super : ClassId) (args : List Ty) : env.superSubst k e super args = {} ∨
      env.superSubst k e super args = env.superSubst j e super args := by
  have hsame : k.2 = j.2 → env.superSubst k e super args = env.superSubst j e super args :=
    fun heq => by simp only [Env.superSubst, heq]
  rcases h.raw with hraw | heq
  · cases hp : e.typeParams with
    | nil =>
      -- A class without type parameters is not raw, but there is nothing to put for them.
      obtain ⟨bs, hbs⟩ := h.fromArgs e he
      refine .inr (hsame (hraw.trans (ext_get? fun v => ?_)))
      rw [hbs, get?_ofArgs_of_not_mem (by simp [hp])]
      rfl
    | cons p ps =>
      have homits : omits {} e.typeParams = true := omits_empty (hp ▸ List.mem_cons_self)
      left
      unfold Env.superSubst
      rw [hraw, homits]
      cases env.class? super <;> rfl
  · exact .inr (hsame heq)

theorem RawOf.next (hs : env.SuitsSupertypes) (h : env.RawOf j k) :
    List.Forall₂ env.RawOf (env.superclasses j) (env.superclasses k) := by
  cases he : env.class? j.1 with
  | none =>
    have hk : env.class? k.1 = none := h.cls ▸ he
    simp [superclasses, he, hk]
  | some e =>
    refine superclasses_related hs h.cls he (fun t _ super args _ => ?_) fun _ => ?_
    · exact ⟨rfl, fun f hf => exists_args_superSubst j e args hf, h.superSubst he super args⟩
    · exact ⟨rfl, fun f _ => ⟨[], (ofArgs_nil f).symm⟩, .inl rfl⟩

theorem RawOf.start (hc : env.class? c = some d) :
    env.RawOf (c, .ofArgs d (d.typeParams.map .var)) (c, {}) where
  cls := rfl
  fromArgs e he := by
    obtain rfl : d = e := Option.some.inj (hc.symm.trans he)
    exact ⟨_, rfl⟩
  raw := .inl rfl

end

/-! ## What is seen from the class itself -/

def SeenFromSelf (env : Env) (c : ClassId) (d : ClassDecl) (k : ClassId) (τ : Substitution) :
    Prop :=
  ∃ e bs, env.class? k = some e ∧ env.asSuper (d.thisType c) k = some (.cls k bs) ∧
    τ = .ofArgs e bs

theorem search_of_asSuper {c k : ClassId} {args bs : List Ty}
    (h : env.asSuper (.cls c args) k = some (.cls k bs)) :
    env.search ⟨c, args⟩ k = .found ⟨k, bs⟩ := by
  have hview : (env.view ⟨c, args⟩ k).map ClassType.toTy = some (.cls k bs) := h
  unfold view at hview
  cases hs : env.search ⟨c, args⟩ k with
  | found b =>
    rw [hs] at hview
    obtain ⟨rfl, rfl⟩ := Ty.cls.inj (Option.some.inj hview)
    rfl
  | absent | exhausted =>
    rw [hs] at hview
    cases hview

theorem SeenFromSelf.related (hs : env.SuitsSupertypes) {R : SeenClass → SeenClass → Prop}
    (hcls : ∀ i j, R i j → i.1 = j.1)
    (hnext : ∀ i j, R i j → List.Forall₂ R (env.superclasses i) (env.superclasses j))
    {c k : ClassId} {d : ClassDecl} (hc : env.class? c = some d) {σ τ ω : Substitution}
    (hstart : R (c, .ofArgs d (d.typeParams.map .var)) (c, σ))
    (hview : env.SeenFromSelf c d k τ) (hseen : (k, ω) ∈ env.seenClasses (c, σ)) :
    R (k, τ) (k, ω) := by
  obtain ⟨e, bs, he, hsuper, rfl⟩ := hview
  obtain ⟨⟨k', τ'⟩, hself, hR⟩ := exists_visited (.cons hstart .nil) hcls hnext
    (env.visits_seenClasses _) (env.visits_seenClasses _) hseen
  obtain rfl : k' = k := hcls _ _ hR
  have hsame : env.SeenAs (c, .ofArgs d (d.typeParams.map .var)) ⟨c, d.typeParams.map .var⟩ := by
    refine ⟨rfl, fun d' hd' => ?_⟩
    obtain rfl : d = d' := Option.some.inj (hc.symm.trans hd')
    exact ⟨rfl, .inr (List.length_map _)⟩
  have hsearch := search_of_asSuper hsuper
  obtain ⟨b, hb, hbs⟩ := found_of_met hs hsame hself (by rw [hsearch]; nofun)
  obtain rfl : (⟨k', bs⟩ : ClassType) = b := Search.found.inj (hsearch.symm.trans hb)
  rw [← (hbs.args e he).1]
  exact hR

/-! ## Overriding and reporting -/

theorem exists_seenClasses (env : Env) (c : SeenClass) :
    ∃ rest, env.seenClasses c = c :: rest := by
  have hv := env.visits_seenClasses c
  cases hl : env.walkLimit with
  | zero => simp [hl, visits] at hv
  | succ n =>
    simp only [hl, visits, List.not_mem_nil, if_false, Option.map_eq_some_iff] at hv
    obtain ⟨rest, -, hrest⟩ := hv
    exact ⟨rest, hrest.symm⟩

variable {r : WalkRequest} {d : ClassDecl}

/-- A reported method of an ancestor differs in its erased signature from all methods of the searched
class. -/
theorem erased_apart (hd : env.class? r.cls = some d) (hf : r.filter.constructors = false)
    {m₁ : MethodDecl} (hm₁ : m₁ ∈ d.methods) (ha : r.filter.accepts m₁.name = true)
    {c : Candidate} (hc : c ∈ (env.memberPlan r).reported) (hk : c.member.owner ≠ r.cls)
    {m₂ : MethodDecl} (hm₂ : env.methodOf? c.member = some m₂) (hn : m₂.name = m₁.name) :
    (m₂.params.map fun t => env.erase (c.subst.apply t)) ≠
      m₁.params.map fun t => env.erase (r.subst.apply t) := by
  rw [reported_metMethods hf, metMethods] at hc
  obtain ⟨rest, hrest⟩ := env.exists_seenClasses (r.cls, r.subst)
  rw [hrest, List.flatMap_cons, kept_append, List.map_append, List.mem_append] at hc
  rcases hc with hc | hc
  · obtain ⟨m, hm, rfl⟩ := List.mem_map.mp hc
    exact absurd (mem_seenMethods.mp (mem_of_kept hm)).1 hk
  · obtain ⟨m, hm, rfl⟩ := List.mem_map.mp hc
    obtain ⟨k, -, hmk⟩ := List.mem_flatMap.mp (mem_of_kept hm)
    obtain rfl : m.decl = m₂ := Option.some.inj ((methodOf?_of_seen hmk r).symm.trans hm₂)
    obtain ⟨i, hi⟩ := List.getElem?_of_mem hm₁
    let own : SeenMethod := ⟨r.cls, i, r.subst, m₁⟩
    have hown : own ∈ env.seenMethods (r.cls, r.subst) :=
      mem_seenMethods.mpr ⟨rfl, rfl, d, hd, hi⟩
    intro he
    refine (signatures_nodup _ _ _).2 m hm (List.mem_append_left _ (List.mem_map.mpr
      ⟨own, List.mem_filter.mpr ⟨hown, ha⟩, ?_⟩))
    exact Prod.ext hn.symm he.symm

/-- A method of a class overrides one of a proper ancestor, which is seen from the class itself with
the type arguments `τ`. -/
structure Overrides (env : Env) (c : ClassId) (d : ClassDecl) (m₁ : MethodDecl) (k : ClassId)
    (τ : Substitution) (j : Nat) (m₂ : MethodDecl) : Prop where
  cls : env.class? c = some d
  own : m₁ ∈ d.methods
  proper : k ≠ c
  declared : env.methodOf? (.method k j) = some m₂
  seen : env.SeenFromSelf c d k τ
  name : m₂.name = m₁.name
  params : m₂.params.map τ.apply = m₁.params

section

variable {c k : ClassId} {m₁ m₂ : MethodDecl} {τ ω : Substitution} {j : Nat}

/-- Seen from a class type with type arguments, both have the same erased parameter types. -/
theorem Overrides.erasures_agree (hs : env.SuitsSupertypes)
    (ho : env.Overrides c d m₁ k τ j m₂) (ha : env.KeepsParams c d) {as : List Ty}
    (hlen : as.length = d.typeParams.length)
    (hseen : (k, ω) ∈ env.seenClasses (c, .ofArgs d as)) :
    (m₂.params.map fun t => env.erase (ω.apply t)) =
      m₁.params.map fun t => env.erase ((ofArgs d as).apply t) := by
  have hinst := ho.seen.related hs (fun _ _ => InstanceOf.cls)
    (fun _ _ => InstanceOf.next hs ha ho.cls) ho.cls (.start ho.cls hlen) hseen
  obtain ⟨n, hn⟩ := hinst.reached
  obtain ⟨e, he, hm₂⟩ := Option.bind_eq_some_iff.mp ho.declared
  rw [← ho.params, List.map_map]
  refine List.map_congr_left fun p hp => congrArg env.erase (hinst.apply_eq fun v hv => .inr ?_)
  refine get?_ofArgs_of_not_mem fun hvd => ?_
  exact ha n k e hn ho.proper he v hvd (.inr ⟨m₂, List.mem_of_getElem? hm₂, p, hp, hv⟩)

/-- Seen from the raw class type they have, unless the ancestor is seen raw and a parameter type has
another erasure by itself than as it is seen from the class. -/
theorem Overrides.raw_of_apart (hs : env.SuitsSupertypes)
    (ho : env.Overrides c d m₁ k τ j m₂) (hseen : (k, ω) ∈ env.seenClasses (c, {}))
    (hapart : (m₂.params.map fun t => env.erase (ω.apply t)) ≠
      m₁.params.map fun t => env.erase (apply {} t)) :
    ω = {} ∧ ∃ p ∈ m₂.params, env.erase p ≠ env.erase (τ.apply p) := by
  have hview := ho.seen.related hs (fun _ _ => RawOf.cls) (fun _ _ => RawOf.next hs) ho.cls
    (.start ho.cls) hseen
  simp only [apply_empty, ← ho.params, List.map_map] at hapart
  rcases hview.raw with hempty | hsame
  · obtain rfl : ω = {} := hempty
    simp only [apply_empty] at hapart
    refine ⟨rfl, ?_⟩
    by_contra hnone
    refine hapart (List.map_congr_left fun p hp => ?_)
    by_contra hne
    exact hnone ⟨p, hp, hne⟩
  · obtain rfl : ω = τ := hsame
    exact absurd rfl hapart

end

theorem seen_of_reported (hf : r.filter.constructors = false) {c : Candidate}
    (hc : c ∈ (env.memberPlan r).reported) :
    (c.member.owner, c.subst) ∈ env.seenClasses (r.cls, r.subst) := by
  obtain ⟨k, hk, m, hm, rfl, -⟩ := exists_of_reported hf hc
  obtain ⟨hcls, hsubst, -⟩ := mem_seenMethods.mp hm
  change (m.cls, m.subst) ∈ _
  rw [hcls, hsubst]
  exact hk

/-- A walk reports a method beside one that overrides it only if it was asked for with a raw class
type of a generic class, sees the ancestor raw, and a parameter type has another erasure there than
it has as it is seen from the class. -/
theorem reported_beside_override (hs : env.SuitsSupertypes) {m₁ m₂ : MethodDecl} {k : ClassId}
    {τ : Substitution} {j : Nat} (ho : env.Overrides r.cls d m₁ k τ j m₂)
    (hk : env.KeepsParams r.cls d) (hf : r.filter.constructors = false)
    (ha : r.filter.accepts m₁.name = true) {as : List Ty} (hr : r.subst = .ofArgs d as)
    {c : Candidate} (hc : c ∈ (env.memberPlan r).reported) (hm : c.member = .method k j) :
    as.length ≠ d.typeParams.length ∧ c.subst = {} ∧
      ∃ p ∈ m₂.params, env.erase p ≠ env.erase (τ.apply p) := by
  have hseen : (k, c.subst) ∈ env.seenClasses (r.cls, r.subst) := by
    have hown := seen_of_reported hf hc
    rwa [hm] at hown
  have hapart := erased_apart ho.cls hf ho.own ha hc (by rw [hm]; exact ho.proper)
    (hm ▸ ho.declared) ho.name
  rw [hr] at hseen hapart
  have hraw : as.length ≠ d.typeParams.length := fun hlen =>
    hapart (ho.erasures_agree hs hk hlen hseen)
  rw [ofArgs_of_length_ne hraw] at hseen hapart
  exact ⟨hraw, ho.raw_of_apart hs hseen hapart⟩

end Env

/-! ## A generic class that is comparable to strings -/

namespace Names

open Standard Env

def decl : ClassDecl :=
  { name := "Names", typeParams := [⟨13⟩], superclass := some objectTy
    interfaces := [.cls comparable [stringTy]]
    methods := [method "compareTo" [stringTy] int] }

def env : Env :=
  ((Env.standard.addTypeParam
    { name := "T", upperBounds := [objectTy], lowerBound := none }).1.addClass decl).1

def request (args : List Ty) : WalkRequest :=
  ⟨⟨26⟩, .ofArgs decl args, .methods "compareTo", none, none, false⟩

def inherited : Candidate where
  member := .method comparable 0
  subst := {}
  isStatic := false
  isAccessible := true
  isVarargs := false
  inScope := true

theorem overrides_compareTo :
    env.Overrides ⟨26⟩ decl (method "compareTo" [stringTy] int) comparable
      (.ofList [(⟨0⟩, stringTy)]) 0 (abstractMethod "compareTo" [param 0] int) where
  cls := rfl
  own := List.mem_cons_self
  proper := by decide
  declared := rfl
  seen := ⟨_, [stringTy], rfl, by decide +kernel, rfl⟩
  name := rfl
  params := by decide +kernel

theorem keepsParams : env.KeepsParams ⟨26⟩ decl := by
  have hnone : ∀ e ∈ env.classes, ∀ v ∈ decl.typeParams, ¬ e.Mentions v := by decide +kernel
  exact fun _ _ e _ _ he => hnone e (List.mem_of_getElem? he)

/-- Of the raw class both methods are reported, of `Names<Integer>` only its own one. -/
theorem reported_beside_override_names :
    (env.memberPlan (request [integerTy])).reported.map (·.member) = [.method ⟨26⟩ 0] ∧
    (env.memberPlan (request [])).reported.map (·.member) =
      [.method ⟨26⟩ 0, inherited.member] ∧
    inherited ∈ (env.memberPlan (request [])).reported ∧
    ([] : List Ty).length ≠ decl.typeParams.length ∧ inherited.subst = {} ∧
      ∃ p ∈ [param 0],
        env.erase p ≠ env.erase (Substitution.apply (.ofList [(⟨0⟩, stringTy)]) p) := by
  have hs : env.SuitsSupertypes := (declaresClassTypes_of_all (by decide +kernel)).suits
  have hc : inherited ∈ (env.memberPlan (request [])).reported := by decide +kernel
  have hr : (request []).subst = .ofArgs decl [] := rfl
  refine ⟨by decide +kernel, by decide +kernel, hc, ?_⟩
  exact reported_beside_override hs overrides_compareTo keepsParams rfl rfl hr hc rfl

end Names

end DoubleColon
