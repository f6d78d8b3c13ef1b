import DoubleColon.Proofs.EndingSearches
import DoubleColon.Proofs.FunctionOrder

/-!
# The single abstract method

The abstract members of an interface type are the abstract methods that it declares and those of the
interfaces that it extends, directly or by way of others, each seen with the type arguments that its
interface has on the way there; without those that repeat a method of the root class. Its function
type is that of one of them, if all have one name and the same parameter types. If all are the same
there is no doubt which one; and there is no function type if some differ in name or parameter
types, or if there are none.
-/

set_option autoImplicit false

namespace DoubleColon

namespace Hierarchy

variable {α : Type} [DecidableEq α] {next : α → List α}

theorem firstVisits_reached {start : α} {n : Nat} {seen queue : List α}
    (hq : ∀ a ∈ queue, a ∈ reached next start) :
    ∀ a ∈ firstVisits next n seen queue, a ∈ reached next start := by
  induction n generalizing seen queue with
  | zero => cases queue <;> exact List.forall_mem_nil _
  | succ n ih =>
    cases queue with
    | nil => exact List.forall_mem_nil _
    | cons a queue =>
      obtain ⟨ha, hrest⟩ := List.forall_mem_cons.mp hq
      rw [firstVisits]
      split
      · exact ih hrest
      · refine List.forall_mem_cons.mpr ⟨ha, ih fun b hb => ?_⟩
        exact (List.mem_append.mp hb).elim (hrest b) (reached_closed ha)

theorem mem_of_visits {start : α} {n : Nat} {out : List α}
    (h : visits id next n [] [start] = some out) (a : α) : a ∈ out ↔ a ∈ reached next start := by
  have hmeets := meetsAll_of_visits (follows_leads next) (Levels.first id (Leads next) start) h
  rw [List.map_id] at hmeets
  refine ⟨hmeets.reached a, fun ⟨m, hm⟩ => ?_⟩
  exact (hmeets.complete m a hm).resolve_left List.not_mem_nil

end Hierarchy

namespace Env

open Hierarchy

variable {env : Env} {c : ClassType} {m : Signature} {known ms out : List Signature}

/-! ## Abstract members -/

def seenType (env : Env) (d : ClassDecl) (args : List Ty) (t : Ty) : Ty :=
  env.canonical ((Substitution.ofArgs d args).apply t)

def seenMethod (env : Env) (d : ClassDecl) (args : List Ty) (m : MethodDecl) : Signature where
  name := m.name
  params := m.params.map (env.seenType d args)
  returnType := env.seenType d args m.returnType

inductive ExtendsInterface (env : Env) (c : ClassType) : ClassType → Prop
  | declared {d : ClassDecl} {t : Ty} {id : ClassId} {args : List Ty}
      (hd : env.class? c.id = some d) (hk : d.kind = .interface) (ht : t ∈ d.interfaces)
      (hsuper : env.seenType d c.args t = .cls id args) : ExtendsInterface env c ⟨id, args⟩

inductive DeclaresAbstract (env : Env) (c : ClassType) : Signature → Prop
  | declared {d : ClassDecl} {m : MethodDecl} (hd : env.class? c.id = some d)
      (hk : d.kind = .interface) (hm : m ∈ d.methods) (habstract : m.isAbstract = true)
      (hstatic : m.isStatic = false) : DeclaresAbstract env c (env.seenMethod d c.args m)

/-- An abstract method of an interface type or of what it extends, other than those of the root
class. -/
def AbstractMember (env : Env) (c : ClassType) (m : Signature) : Prop :=
  env.repeatsObjectMethod m = false ∧
    ∃ n i, ReachedIn env.ExtendsInterface c n i ∧ env.DeclaresAbstract i m

theorem mem_superinterfaces {b : ClassType} :
    b ∈ env.superinterfaces c ↔ env.ExtendsInterface c b := by
  unfold superinterfaces
  constructor
  · intro h
    split at h
    · cases h
    · split at h
      · rename_i d hd hk
        obtain ⟨t, ht, hb⟩ := List.mem_filterMap.mp h
        split at hb
        · rename_i id args hsuper
          cases hb
          exact .declared hd hk ht hsuper
        · cases hb
      · cases h
  · rintro ⟨hd, hk, ht, hsuper⟩
    simp only [hd, hk, if_true, List.mem_filterMap]
    exact ⟨_, ht, by rw [← seenType, hsuper]⟩

theorem leads_superinterfaces (env : Env) : Leads env.superinterfaces = env.ExtendsInterface := by
  funext b a
  exact propext mem_superinterfaces

theorem mem_abstractMethods : m ∈ env.abstractMethods c ↔
    env.repeatsObjectMethod m = false ∧ env.DeclaresAbstract c m := by
  unfold abstractMethods
  constructor
  · intro h
    split at h
    · cases h
    · split at h
      · rename_i d hd hk
        obtain ⟨h, hroot⟩ := List.mem_filter.mp h
        obtain ⟨k, hk', rfl⟩ := List.mem_map.mp h
        obtain ⟨hmem, hflags⟩ := List.mem_filter.mp hk'
        simp only [Bool.and_eq_true, Bool.not_eq_true'] at hflags hroot
        exact ⟨hroot, .declared hd hk hmem hflags.1 hflags.2⟩
      · cases h
  · rintro ⟨hroot, ⟨hd, hk, hmem, habstract, hstatic⟩⟩
    simp only [hd, hk, if_true]
    refine List.mem_filter.mpr ⟨List.mem_map.mpr ⟨_, List.mem_filter.mpr ⟨hmem, ?_⟩, rfl⟩, ?_⟩
    · simp [habstract, hstatic]
    · exact Bool.not_eq_true' _ ▸ hroot

theorem abstractMember_iff : env.AbstractMember c m ↔
    ∃ i ∈ reached env.superinterfaces c, m ∈ env.abstractMethods i := by
  have hreached : ∀ i, i ∈ reached env.superinterfaces c ↔
      ∃ n, ReachedIn env.ExtendsInterface c n i := fun i => by
    rw [← leads_superinterfaces]
    exact Iff.rfl
  simp only [AbstractMember, mem_abstractMethods, hreached]
  exact ⟨fun ⟨hroot, n, i, hi, hm⟩ => ⟨i, ⟨n, hi⟩, hroot, hm⟩,
    fun ⟨i, ⟨n, hi⟩, hroot, hm⟩ => ⟨hroot, n, i, hi, hm⟩⟩

theorem mem_flatMap_of_visits {n : Nat} {interfaces : List ClassType}
    (h : visits id env.superinterfaces n [] [c] = some interfaces) (m : Signature) :
    m ∈ interfaces.flatMap env.abstractMethods ↔ env.AbstractMember c m := by
  simp only [List.mem_flatMap, mem_of_visits h, abstractMember_iff]

/-! ## Signatures that are put together -/

theorem mergeReturns_cases {s t u : Ty} (h : env.mergeReturns s t = some u) : u = s ∨ u = t := by
  unfold mergeReturns narrower at h
  grind

/-- What is known after a declaration was added was known before, or is that declaration. -/
theorem mem_addSignature (h : env.addSignature m known = some out) : out ⊆ m :: known := by
  induction known generalizing out with
  | nil =>
    cases h
    exact List.Subset.refl _
  | cons k rest ih =>
    simp only [addSignature] at h
    split at h
    next hsame =>
      obtain ⟨t, ht, rfl⟩ := Option.map_eq_some_iff.mp h
      refine List.cons_subset.mpr ⟨?_, fun x hx => by simp [hx]⟩
      rcases mergeReturns_cases ht with rfl | rfl
      · simp
      · obtain ⟨kname, kparams, kreturn⟩ := k
        obtain ⟨rfl, rfl⟩ := hsame
        exact List.mem_cons_self
    next =>
      obtain ⟨out, ho, rfl⟩ := Option.map_eq_some_iff.mp h
      refine List.cons_subset.mpr ⟨by simp, fun x hx => ?_⟩
      exact (List.mem_cons.mp (ih ho hx)).elim (fun he => by simp [he]) fun hx => by simp [hx]

theorem mem_addSignatures (h : env.addSignatures known ms = some out) : out ⊆ known ++ ms := by
  induction ms generalizing known with
  | nil =>
    cases h
    simp
  | cons m rest ih =>
    obtain ⟨next, hn, h⟩ := Option.bind_eq_some_iff.mp h
    intro x hx
    rcases List.mem_append.mp (ih h hx) with hx | hx
    · exact (List.mem_cons.mp (mem_addSignature hn hx)).elim (fun he => by simp [he])
        fun hx => by simp [hx]
    · simp [hx]

theorem addSignatures_replicate (m : Signature) (n : Nat) :
    env.addSignatures [m] (List.replicate n m) = some [m] := by
  have hsame : env.addSignature m [m] = some [m] := by simp [addSignature, mergeReturns]
  induction n with
  | zero => rfl
  | succ n ih => rw [List.replicate_succ, addSignatures, hsame, Option.bind_some, ih]

theorem addSignatures_of_all_eq (h : ∀ k ∈ ms, k = m) :
    env.addSignatures [] ms = some (if ms = [] then [] else [m]) := by
  cases ms with
  | nil => rfl
  | cons k rest =>
    rw [List.eq_replicate_of_mem h, List.length_cons, List.replicate_succ]
    exact addSignatures_replicate m rest.length

/-! ## The function type of an interface -/

theorem singleAbstractMethod_of_none (hnext : env.superinterfaces c = [])
    (hnone : env.abstractMethods c = []) : env.singleAbstractMethod c = none := by
  unfold singleAbstractMethod
  cases env.searchLimit with
  | zero => rfl
  | succ n => cases n <;> simp [visits, hnext, hnone, addSignatures]

theorem functionSignature_cls (env : Env) (c : ClassType) :
    env.functionSignature c.toTy = env.singleAbstractMethod c := by
  have hleaf : env.functionSignature c.toTy = env.signatureLeaf c.toTy := rfl
  rw [hleaf, ClassType.toTy, signatureLeaf]
  cases hd : env.class? c.id with
  | none =>
    rw [singleAbstractMethod_of_none] <;> simp [canonical, superinterfaces, abstractMethods, hd]
  | some d =>
    by_cases hk : d.kind = .interface
    · simp [canonical, hd, hk]
    · rw [singleAbstractMethod_of_none] <;>
        simp [canonical, superinterfaces, abstractMethods, hd, hk]

theorem singleAbstractMethod_eq_some (h : env.singleAbstractMethod c = some m) :
    env.AbstractMember c m ∧
      ∀ k, env.AbstractMember c k → k.name = m.name ∧ k.params = m.params := by
  unfold singleAbstractMethod at h
  split at h
  · cases h
  rename_i interfaces hvisits
  split at h
  · rename_i m' hadd
    cases h
    have hmem := mem_flatMap_of_visits hvisits
    refine ⟨(hmem m).mp (mem_addSignatures hadd List.mem_cons_self), fun k hk => ?_⟩
    have hkey := keys_addSignatures hadd (List.mem_map_of_mem ((hmem k).mpr hk))
    exact Prod.ext_iff.mp (List.mem_singleton.mp hkey)
  · cases h

/-- The walk that gathers the abstract methods, if these are all the same, ends only when it is
over. -/
theorem exists_visits_of_same
    (hend : env.gatherSignatures env.searchLimit [] [c] [] ≠ .exhausted)
    (hall : ∀ k, env.AbstractMember c k → k = m) :
    ∃ interfaces, visits id env.superinterfaces env.searchLimit [] [c] = some interfaces := by
  have hstart : ∀ b ∈ [c], b ∈ reached env.superinterfaces c := fun b hb =>
    ⟨0, List.mem_singleton.mp hb ▸ .start⟩
  have hsame : ∀ k ∈ (firstVisits env.superinterfaces env.searchLimit [] [c]).flatMap
      env.abstractMethods, k = m := by
    intro k hk
    obtain ⟨i, hi, hk⟩ := List.mem_flatMap.mp hk
    exact hall k (abstractMember_iff.mpr ⟨i, firstVisits_reached hstart i hi, hk⟩)
  rw [gatherSignatures_eq, addSignatures_of_all_eq hsame] at hend
  refine Option.isSome_iff_exists.mp ?_
  by_contra hnone
  exact hend (if_neg hnone)

theorem singleAbstractMethod_of_same
    (hend : env.gatherSignatures env.searchLimit [] [c] [] ≠ .exhausted)
    (hm : env.AbstractMember c m) (hall : ∀ k, env.AbstractMember c k → k = m) :
    env.singleAbstractMethod c = some m := by
  obtain ⟨interfaces, hvisits⟩ := exists_visits_of_same hend hall
  have hmem := mem_flatMap_of_visits hvisits
  have hne : interfaces.flatMap env.abstractMethods ≠ [] := List.ne_nil_of_mem ((hmem m).mpr hm)
  rw [singleAbstractMethod, hvisits]
  dsimp only
  rw [addSignatures_of_all_eq fun k hk => hall k ((hmem k).mp hk), if_neg hne]

/-- The function type of an interface type whose walk ends is that of an abstract member, and all
abstract members have its name and parameter types. If there are abstract members and all are the
same, that is the function type. There is none if there are no abstract members or if two of them
differ in name or parameter types. -/
theorem single_abstract_member
    (hend : env.gatherSignatures env.searchLimit [] [c] [] ≠ .exhausted) :
    (∀ m, env.functionSignature c.toTy = some m →
      env.AbstractMember c m ∧
        ∀ k, env.AbstractMember c k → k.name = m.name ∧ k.params = m.params) ∧
    (∀ m, env.AbstractMember c m → (∀ k, env.AbstractMember c k → k = m) →
      env.functionSignature c.toTy = some m) ∧
    ((∀ m, ¬ env.AbstractMember c m) ∨
        (∃ k m, env.AbstractMember c k ∧ env.AbstractMember c m ∧
          (k.name ≠ m.name ∨ k.params ≠ m.params)) →
      env.functionSignature c.toTy = none) := by
  rw [functionSignature_cls]
  refine ⟨fun m => singleAbstractMethod_eq_some, fun m => singleAbstractMethod_of_same hend,
    fun h => ?_⟩
  refine Option.eq_none_iff_forall_ne_some.mpr fun sig hsig => ?_
  obtain ⟨hsome, hall⟩ := singleAbstractMethod_eq_some hsig
  rcases h with hnone | ⟨k, m, hk, hm, hdiffer⟩
  · exact hnone sig hsome
  · obtain ⟨hkn, hkp⟩ := hall k hk
    obtain ⟨hmn, hmp⟩ := hall m hm
    exact hdiffer.elim (fun h => h (hkn.trans hmn.symm)) fun h => h (hkp.trans hmp.symm)

end Env

namespace Diamonds

open Standard Env

def base : ClassDecl :=
  interface "Base" [13] [] [abstractMethod "get" [] (param 13),
    abstractMethod "equals" [objectTy] boolean]

def left : ClassDecl := interface "Left" [14] [.cls ⟨26⟩ [param 14]] []

def right : ClassDecl :=
  interface "Right" [15] [.cls ⟨26⟩ [param 15]] [abstractMethod "get" [] (param 15)]

def both : ClassDecl :=
  interface "Both" [16] [.cls ⟨27⟩ [param 16], .cls ⟨28⟩ [param 16]] []

def env : Env :=
  { standard with
    classes := standard.classes ++ [base, left, right, both]
    typeParams := standard.typeParams ++ List.replicate 4 ⟨"T", [objectTy], none⟩ }

/-- A `Both<String>` has one method, of which it gets a string, although it has it by two ways. A
`Collection<String>` has several that differ. -/
theorem single_abstract_member_both :
    env.functionSignature (.cls ⟨29⟩ [stringTy]) = some ⟨"get", [], stringTy⟩ ∧
    env.functionSignature (.cls collection [stringTy]) = none := by
  have hget : ∀ k, env.AbstractMember ⟨⟨29⟩, [stringTy]⟩ k ↔
      k ∈ [⟨"get", [], stringTy⟩, ⟨"get", [], stringTy⟩] := by
    have hvisits : Hierarchy.visits id env.superinterfaces env.searchLimit []
        [⟨⟨29⟩, [stringTy]⟩] = some (([29, 27, 28, 26].map ClassId.mk).map (⟨·, [stringTy]⟩)) := by
      decide +kernel
    exact fun k => (mem_flatMap_of_visits hvisits k).symm
  have hcollection : Hierarchy.visits id env.superinterfaces env.searchLimit []
      [⟨collection, [stringTy]⟩] = some [⟨collection, [stringTy]⟩] := by decide +kernel
  have hsize : env.AbstractMember ⟨collection, [stringTy]⟩ ⟨"size", [], int⟩ :=
    (mem_flatMap_of_visits hcollection _).mp (by decide)
  have hempty : env.AbstractMember ⟨collection, [stringTy]⟩ ⟨"isEmpty", [], boolean⟩ :=
    (mem_flatMap_of_visits hcollection _).mp (by decide)
  constructor
  · have hall := @single_abstract_member env ⟨⟨29⟩, [stringTy]⟩ (by decide +kernel)
    exact hall.2.1 _ ((hget _).mpr (by simp)) fun k hk => by simpa using (hget k).mp hk
  · have hall := @single_abstract_member env ⟨collection, [stringTy]⟩ (by decide +kernel)
    exact hall.2.2 (.inr ⟨_, _, hsize, hempty, .inl (by decide)⟩)

end Diamonds

end DoubleColon
