import Mathlib.Data.List.Basic
import DoubleColon.Conversion
import DoubleColon.Env.Standard

/-!
# Identities of declarations

Classes and type parameters are known by their positions, and an index leads from names to classes.
A class that is added under a known name replaces the one that the name leads to. Declarations are
edited behind the index, so that the name in a declaration need not be the one that leads to it. In
whatever order this happens, what has an identity keeps it, and the index is one to one between
names and classes. So each primitive type always has its wrapper class, from which it is unboxed.
-/

set_option autoImplicit false

namespace DoubleColon

theorem ClassId.eq_iff_index {id k : ClassId} : id = k ↔ id.index = k.index := by
  cases id
  cases k
  simp

theorem Primitive.wrapperName_injective {p q : Primitive} (h : p.wrapperName = q.wrapperName) :
    p = q := by
  cases p <;> cases q <;> first | rfl | simp [wrapperName] at h

inductive EnvEdit where
  | addClass (d : ClassDecl)
  | addTypeParam (p : TypeParam)
  | editClass (id : ClassId) (f : ClassDecl → ClassDecl)
  | editTypeParam (id : TypeVar) (f : TypeParam → TypeParam)

def EnvEdit.apply (env : Env) : EnvEdit → Env
  | addClass d => (env.addClass d).1
  | addTypeParam p => (env.addTypeParam p).1
  | editClass id f => env.editClass id f
  | editTypeParam id f => env.editTypeParam id f

namespace Env

def edited (env : Env) : List EnvEdit → Env
  | [] => env
  | e :: rest => (e.apply env).edited rest

def HasClass (env : Env) (id : ClassId) : Prop := ∃ d, env.class? id = some d

def HasTypeParam (env : Env) (v : TypeVar) : Prop := ∃ p, env.typeParam? v = some p

def nextClass (env : Env) : ClassId := ⟨env.classes.length⟩

/-- The index leads from different names to different classes, and it leads to the classes that
there are and to no others. -/
structure Indexed (env : Env) : Prop where
  injective : ∀ m n id, env.lookup m = some id → env.lookup n = some id → m = n
  inRange : ∀ n id, env.lookup n = some id → env.HasClass id
  named : ∀ id, env.HasClass id → ∃ n, env.lookup n = some id

structure KeptBy (env later : Env) : Prop where
  names : ∀ n id, env.lookup n = some id → later.lookup n = some id
  classes : ∀ id, env.HasClass id → later.HasClass id
  typeParams : ∀ v, env.HasTypeParam v → later.HasTypeParam v

/-- A class has been added at an identity: it is there, its name leads there, and no class of
another identity is touched. -/
structure AddedAt (env : Env) (d : ClassDecl) (later : Env) (id : ClassId) : Prop where
  there : later.class? id = some d
  named : later.lookup d.name = some id
  elsewhere : ∀ k, k ≠ id → later.class? k = env.class? k

variable {env : Env}

/-! ## One change -/

theorem hasClass_iff {id : ClassId} : env.HasClass id ↔ id.index < env.classes.length := by
  simp [HasClass, class?, List.getElem?_eq_some_iff]

theorem hasTypeParam_iff {v : TypeVar} :
    env.HasTypeParam v ↔ v.index < env.typeParams.length := by
  simp [HasTypeParam, typeParam?, List.getElem?_eq_some_iff]

theorem not_hasClass_next (env : Env) : ¬ env.HasClass env.nextClass :=
  fun h => Nat.lt_irrefl _ (hasClass_iff.mp h)

theorem hasClass_of_length_eq {later : Env} (h : later.classes.length = env.classes.length)
    (id : ClassId) : later.HasClass id ↔ env.HasClass id := by
  rw [hasClass_iff, hasClass_iff, h]

theorem addClass_known {d : ClassDecl} {id : ClassId} (h : env.lookup d.name = some id) :
    env.addClass d = ({ env with classes := env.classes.set id.index d }, id) := by
  simp only [addClass, h]

theorem addClass_new {d : ClassDecl} (h : env.lookup d.name = none) :
    env.addClass d = ({ env with
      classes := env.classes ++ [d]
      names := env.names ++ [(d.name, env.nextClass)] }, env.nextClass) := by
  simp only [addClass, h, nextClass]

theorem lookup_addClass (env : Env) (d : ClassDecl) (n : String) :
    (env.addClass d).1.lookup n = if n = d.name then some (env.addClass d).2 else env.lookup n := by
  cases h : env.lookup d.name with
  | some id =>
    rw [addClass_known h]
    split
    · rename_i hn
      rw [hn]
      exact h
    · rfl
  | none =>
    have hnone : env.names.find? (fun e => e.1 = d.name) = none := by simpa [lookup] using h
    rw [addClass_new h]
    by_cases hn : n = d.name
    · subst hn
      simp [lookup, List.find?_append, hnone]
    · simp [lookup, List.find?_append, hn, Ne.symm hn]

/-- What a change does to the index: nothing, or a new name leads to a new class. -/
theorem index_cases (env : Env) (e : EnvEdit) :
    ((e.apply env).lookup = env.lookup ∧ ∀ id, (e.apply env).HasClass id ↔ env.HasClass id) ∨
    ∃ name, env.lookup name = none ∧
      (∀ n, (e.apply env).lookup n = if n = name then some env.nextClass else env.lookup n) ∧
      ∀ id, (e.apply env).HasClass id ↔ env.HasClass id ∨ id = env.nextClass := by
  cases e with
  | addClass d =>
    have hlookup := lookup_addClass env d
    simp only [EnvEdit.apply]
    cases h : env.lookup d.name with
    | some id =>
      refine .inl ⟨?_, hasClass_of_length_eq ?_⟩
      · rw [addClass_known h]
        rfl
      · rw [addClass_known h]
        exact List.length_set
    | none =>
      rw [addClass_new h] at hlookup ⊢
      refine .inr ⟨d.name, h, hlookup, fun id => ?_⟩
      simp only [hasClass_iff, ClassId.eq_iff_index, List.length_append, List.length_singleton]
      exact Nat.lt_succ_iff_lt_or_eq
  | editClass id f => exact .inl ⟨rfl, hasClass_of_length_eq (List.length_modify _ _ _)⟩
  | addTypeParam _ | editTypeParam _ _ => exact .inl ⟨rfl, fun _ => Iff.rfl⟩

theorem hasTypeParam_apply {v : TypeVar} (h : env.HasTypeParam v) (e : EnvEdit) :
    (e.apply env).HasTypeParam v := by
  rw [hasTypeParam_iff] at h ⊢
  cases e with
  | addClass d =>
    simp only [EnvEdit.apply, addClass]
    cases env.lookup d.name <;> exact h
  | addTypeParam p =>
    simp only [EnvEdit.apply, addTypeParam, List.length_append]
    exact Nat.lt_add_right _ h
  | editClass id f => exact h
  | editTypeParam w f => simpa only [EnvEdit.apply, editTypeParam, List.length_modify] using h

theorem Indexed.apply (h : env.Indexed) (e : EnvEdit) : (e.apply env).Indexed := by
  rcases index_cases env e with ⟨hl, hc⟩ | ⟨name, hnew, hl, hc⟩
  · refine ⟨?_, ?_, ?_⟩ <;> simp only [hl, hc]
    · exact h.injective
    · exact h.inRange
    · exact h.named
  · -- The new identity was out of range, so no other name leads to it.
    have hlast : ∀ n, (e.apply env).lookup n = some env.nextClass → n = name := by
      intro n hn
      by_contra hne
      rw [hl, if_neg hne] at hn
      exact env.not_hasClass_next (h.inRange n _ hn)
    have hold : ∀ n id, id ≠ env.nextClass → (e.apply env).lookup n = some id →
        env.lookup n = some id := by
      intro n id hid hn
      rw [hl] at hn
      split at hn
      · exact absurd (Option.some.inj hn).symm hid
      · exact hn
    refine ⟨fun m n id hm hn => ?_, fun n id hn => (hc id).mpr ?_, fun id hid => ?_⟩
    · by_cases hid : id = env.nextClass
      · subst hid
        rw [hlast m hm, hlast n hn]
      · exact h.injective m n id (hold m id hid hm) (hold n id hid hn)
    · by_cases hid : id = env.nextClass
      · exact .inr hid
      · exact .inl (h.inRange n id (hold n id hid hn))
    · rcases (hc id).mp hid with hold | rfl
      · obtain ⟨n, hn⟩ := h.named id hold
        refine ⟨n, ?_⟩
        rw [hl, if_neg (by rintro rfl; simp [hnew] at hn), hn]
      · exact ⟨name, by rw [hl, if_pos rfl]⟩

theorem KeptBy.refl (env : Env) : env.KeptBy env :=
  ⟨fun _ _ h => h, fun _ h => h, fun _ h => h⟩

theorem KeptBy.trans {next later : Env} (h : env.KeptBy next) (h' : next.KeptBy later) :
    env.KeptBy later :=
  ⟨fun n id hn => h'.names n id (h.names n id hn), fun id hi => h'.classes id (h.classes id hi),
    fun v hv => h'.typeParams v (h.typeParams v hv)⟩

theorem keptBy_apply (env : Env) (e : EnvEdit) : env.KeptBy (e.apply env) := by
  refine ⟨fun n id hn => ?_, fun id hi => ?_, fun v hv => hasTypeParam_apply hv e⟩
  · rcases index_cases env e with ⟨hl, -⟩ | ⟨name, hnew, hl, -⟩
    · rw [hl, hn]
    · rw [hl, if_neg (by rintro rfl; simp [hnew] at hn), hn]
  · rcases index_cases env e with ⟨-, hc⟩ | ⟨-, -, -, hc⟩
    · exact (hc id).mpr hi
    · exact (hc id).mpr (.inl hi)

/-- A class is added at the identity that is returned, under a known name or a new one. -/
theorem addedAt_addClass (h : env.Indexed) (d : ClassDecl) :
    env.AddedAt d (env.addClass d).1 (env.addClass d).2 := by
  have hnamed : (env.addClass d).1.lookup d.name = some (env.addClass d).2 := by
    rw [lookup_addClass, if_pos rfl]
  suffices hslot : ∀ k, (env.addClass d).1.class? k =
      if k = (env.addClass d).2 then some d else env.class? k from
    ⟨by rw [hslot, if_pos rfl], hnamed, fun k hk => by rw [hslot, if_neg hk]⟩
  intro k
  cases hd : env.lookup d.name with
  | some id =>
    have hid : id.index < env.classes.length := hasClass_iff.mp (h.inRange d.name id hd)
    rw [addClass_known hd]
    simp only [class?, List.getElem?_set, ClassId.eq_iff_index, eq_comm (a := k.index), hid,
      if_true]
  | none =>
    rw [addClass_new hd]
    simp only [class?, ClassId.eq_iff_index, nextClass, List.getElem?_append]
    grind

/-! ## Many changes -/

theorem Indexed.edited (h : env.Indexed) (es : List EnvEdit) : (env.edited es).Indexed := by
  induction es generalizing env with
  | nil => exact h
  | cons e rest ih => exact ih (h.apply e)

theorem keptBy_edited (env : Env) (es : List EnvEdit) : env.KeptBy (env.edited es) := by
  induction es generalizing env with
  | nil => exact KeptBy.refl env
  | cons e rest ih => exact (keptBy_apply env e).trans (ih (e.apply env))

/-! ## The standard environment -/

theorem name_of_standard_lookup {n : String} {id : ClassId} (h : standard.lookup n = some id) :
    ∃ d, standard.class? id = some d ∧ d.name = n := by
  obtain ⟨e, he, rfl⟩ := Option.map_eq_some_iff.mp h
  obtain ⟨⟨d, i⟩, hd, rfl⟩ := List.mem_map.mp (List.mem_of_find?_eq_some he)
  refine ⟨d, ?_, by simpa using List.find?_some he⟩
  simpa [class?, standard, List.mem_zipIdx_iff_getElem?] using hd

theorem standard_indexed : standard.Indexed := by
  have hindex : ∀ e ∈ standard.classes.zipIdx, standard.lookup e.1.name = some ⟨e.2⟩ := by
    decide +kernel
  refine ⟨fun m n id hm hn => ?_, fun n id h => ?_, fun id ⟨d, hd⟩ => ⟨d.name, ?_⟩⟩
  · obtain ⟨d, hd, rfl⟩ := name_of_standard_lookup hm
    obtain ⟨d', hd', rfl⟩ := name_of_standard_lookup hn
    rw [Option.some.inj (hd.symm.trans hd')]
  · obtain ⟨d, hd, -⟩ := name_of_standard_lookup h
    exact ⟨d, hd⟩
  · exact hindex (d, id.index) (List.mem_zipIdx_iff_getElem?.mpr hd)

theorem standard_wrapper (p : Primitive) : ∃ id, standard.lookup p.wrapperName = some id := by
  cases p <;> exact ⟨_, rfl⟩

/-! ## Wrapper classes -/

theorem unbox_wrapper (h : env.Indexed) {p : Primitive} {id : ClassId}
    (hp : env.lookup p.wrapperName = some id) (args : List Ty) :
    env.unbox (.cls id args) = some p := by
  have hfound : (Primitive.all.find? fun q => env.lookup q.wrapperName = some id).isSome := by
    rw [List.find?_isSome]
    exact ⟨p, p.mem_all, by simpa using hp⟩
  obtain ⟨q, hq⟩ := Option.isSome_iff_exists.mp hfound
  have hname : env.lookup q.wrapperName = some id := by simpa using List.find?_some hq
  rw [Primitive.wrapperName_injective (h.injective _ _ id hp hname)]
  exact hq

/-- After any changes of the standard environment, and through any further ones: the index is one to
one between names and classes, and all identities are kept; a class is added at the identity that
is returned for it, a type parameter likewise, and these identities stay valid; and each primitive
type is boxed to a class type that is unboxed to it. -/
theorem identities_stable (before after : List EnvEdit) :
    let env := standard.edited before
    env.Indexed ∧ env.KeptBy (env.edited after) ∧
    (∀ d, let (next, id) := env.addClass d
      env.AddedAt d next id ∧ (next.edited after).HasClass id) ∧
    (∀ p, let (next, v) := env.addTypeParam p
      next.typeParam? v = some p ∧ (next.edited after).HasTypeParam v) ∧
    ∀ p, ∃ id, env.box p = some (.cls id []) ∧ env.unbox (.cls id []) = some p := by
  intro env
  have hindexed : env.Indexed := standard_indexed.edited before
  refine ⟨hindexed, keptBy_edited env after, fun d => ?_, fun p => ?_, fun p => ?_⟩
  · have hadded := addedAt_addClass hindexed d
    exact ⟨hadded, (keptBy_edited _ after).classes _ ⟨d, hadded.there⟩⟩
  · have hthere : (env.addTypeParam p).1.typeParam? (env.addTypeParam p).2 = some p := by
      simp [addTypeParam, typeParam?]
    exact ⟨hthere, (keptBy_edited _ after).typeParams _ ⟨p, hthere⟩⟩
  · obtain ⟨id, hid⟩ := standard_wrapper p
    have hwrapper : env.lookup p.wrapperName = some id :=
      (keptBy_edited standard before).names _ id hid
    exact ⟨id, by simp [box, hwrapper], unbox_wrapper hindexed hwrapper []⟩

/-- Once the class `String` calls itself `Text`, the name `Text` still leads nowhere, and a class of
that name is another one. -/
example :
    let env := standard.edited [.editClass Standard.string fun d => { d with name := "Text" }]
    env.lookup "java.lang.String" = some Standard.string ∧ env.lookup "Text" = none ∧
      (env.addClass { name := "Text" }).2 = ⟨26⟩ := by
  decide +kernel

end Env

end DoubleColon
