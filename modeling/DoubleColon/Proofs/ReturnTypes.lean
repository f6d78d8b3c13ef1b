import Mathlib.Tactic.IntervalCases
import DoubleColon.Proofs.DeclarationOrder
import DoubleColon.Proofs.SettledViews

/-!
# Return types of one method

Where the abstract methods of an interface are declarations of one method, their return types are
settled two at a time, in the order in which they are met. As with views the order can matter: of
two types that are subtypes of each other the first is kept, and two that do not go together do no
harm if a subtype of both has been met before the second.

The function type of an interface type is the same for all orders of declarations if no order
settles the return types, or if one of them is sharper than all others and no two of them disagree;
provided that the subtype test tells the same of them. For an interface that extends no other one
this is exact.
-/

set_option autoImplicit false

namespace DoubleColon

namespace Env

variable {env env' : Env} {s t : Ty} {c : ClassType} {m : Signature} {ms : List Signature}

/-! ## Two return types -/

/-- A return type is sharper than another one: it is no recovery type, and the other one is, or is a
supertype of it but not a subtype. -/
def Sharper (env : Env) (s t : Ty) : Prop :=
  s.isRecovery = false ∧ env.isSubtype s t = true ∧
    (t.isRecovery = true ∨ env.isSubtype t s = false)

def Disagree (env : Env) (s t : Ty) : Prop :=
  env.isSubtype s t = false ∧ env.isSubtype t s = false

instance : Decidable (env.Sharper s t) := inferInstanceAs (Decidable (_ ∧ _ ∧ _))

instance : Decidable (env.Disagree s t) := inferInstanceAs (Decidable (_ ∧ _))

theorem isSubtype_of_recovery (h : s.isRecovery = true ∨ t.isRecovery = true) :
    env.isSubtype s t = true := by
  rcases h with h | h <;> simp [isSubtype, subtypeLevels, isSubtypeWithin, h]

theorem mergeReturns_eq_none : env.mergeReturns s t = none ↔ env.Disagree s t := by
  have hrefl := env.isSubtype_refl s
  have hrecovery := @isSubtype_of_recovery env s t
  unfold mergeReturns narrower Disagree
  grind

theorem mergeReturns_eq_left : env.mergeReturns s t = some s ↔
    s = t ∨ s.isRecovery = false ∧ env.isSubtype s t = true := by
  have hrecovery := @isSubtype_of_recovery env s t
  unfold mergeReturns narrower
  grind

theorem mergeReturns_eq_right : env.mergeReturns s t = some t ↔
    s = t ∨ s.isRecovery = true ∨ env.Sharper t s := by
  have hrecovery := @isSubtype_of_recovery env s t
  unfold mergeReturns narrower Sharper
  grind

theorem selective_mergeReturns (env : Env) : Selective env.mergeReturns where
  same s := by simp [mergeReturns]
  either := mergeReturns_cases

theorem mergeReturns_congr (hst : env'.isSubtype s t = env.isSubtype s t)
    (hts : env'.isSubtype t s = env.isSubtype t s) :
    env'.mergeReturns s t = env.mergeReturns s t := by
  simp only [mergeReturns, narrower, hst, hts]

/-! ## Any number of return types -/

/-- Of some return types one is the sharpest: it is sharper than all others, and no two of them
disagree. -/
def Sharpest (env : Env) (ts : List Ty) (t : Ty) : Prop :=
  t ∈ ts ∧ (∀ s ∈ ts, s = t ∨ env.Sharper t s) ∧ ∀ s ∈ ts, ∀ u ∈ ts, ¬ env.Disagree s u

instance {ts : List Ty} : Decidable (env.Sharpest ts t) := inferInstanceAs (Decidable (_ ∧ _ ∧ _))

/-- Some of the return types can be put in a row, each sharper than the one before or behind a
recovery type, such that each of the others is a supertype of one in the row that is no recovery
type, or the same as one in the row. -/
def AgreeInSomeOrder (env : Env) (ts : List Ty) : Prop :=
  ∃ t row rest, (t :: row ++ rest).Perm ts ∧
    (t :: row).IsChain (fun a b => a ≠ b ∧ (a.isRecovery = true ∨ env.Sharper b a)) ∧
    ∀ s ∈ rest, ∃ a ∈ t :: row, a = s ∨ a.isRecovery = false ∧ env.isSubtype a s = true

theorem prevails_mergeReturns {ts : List Ty} :
    Prevails env.mergeReturns ts t ↔ env.Sharpest ts t := by
  constructor
  · intro h
    refine ⟨h.mem, fun s hs => ?_, fun s hs u hu hdisagree => ?_⟩
    · by_cases hst : s = t
      · exact .inl hst
      · obtain ⟨hkept, hsub⟩ := (mergeReturns_eq_left.mp (h.before s hs)).resolve_left (Ne.symm hst)
        rcases (mergeReturns_eq_right.mp (h.after s hs)).resolve_left hst with hrec | hsharper
        · exact .inr ⟨hkept, hsub, .inl hrec⟩
        · exact .inr hsharper
    · have hsome := h.together s hs u hu
      rw [mergeReturns_eq_none.mpr hdisagree] at hsome
      cases hsome
  · rintro ⟨ht, hbest, hagree⟩
    refine ⟨ht, fun s hs => ?_, fun s hs => ?_, fun s hs u hu => ?_⟩
    · exact mergeReturns_eq_left.mpr ((hbest s hs).imp Eq.symm fun h => ⟨h.1, h.2.1⟩)
    · exact mergeReturns_eq_right.mpr ((hbest s hs).imp_right .inr)
    · exact Option.isSome_iff_ne_none.mpr (mt mergeReturns_eq_none.mp (hagree s hs u hu))

theorem someOrderSettles_mergeReturns {ts : List Ty} :
    SomeOrderSettles env.mergeReturns ts ↔ env.AgreeInSomeOrder ts := by
  have hrow : (fun a b => a ≠ b ∧ env.mergeReturns a b = some b) =
      fun a b => a ≠ b ∧ (a.isRecovery = true ∨ env.Sharper b a) := by
    funext a b
    rw [mergeReturns_eq_right]
    exact propext (and_congr_right fun hne => or_iff_right hne)
  simp only [SomeOrderSettles, AgreeInSomeOrder, hrow, mergeReturns_eq_left]

/-! ## Declarations of one method -/

def oneSignature (env : Env) (ms : List Signature) : Option Signature :=
  match env.addSignatures [] ms with
  | some [m] => some m
  | _ => none

theorem addSignatures_shared (h : ∀ k ∈ ms, k.key = m.key) :
    env.addSignatures [m] ms = ((ms.map Signature.returnType).foldlM env.mergeReturns
      m.returnType).map fun t => [{ m with returnType := t }] := by
  induction ms generalizing m with
  | nil => rfl
  | cons k rest ih =>
    obtain ⟨hk, hrest⟩ := List.forall_mem_cons.mp h
    have hsame : m.name = k.name ∧ m.params = k.params := Prod.ext_iff.mp hk.symm
    rw [addSignatures, addSignature, if_pos hsame, List.map_cons, List.foldlM_cons]
    cases env.mergeReturns m.returnType k.returnType with
    | none => rfl
    | some t => exact ih hrest

/-- What declarations of one method come down to is that method with the return type that theirs
are settled on. -/
theorem oneSignature_of_shared (h : ∀ k ∈ ms, k.key = m.key) :
    env.oneSignature ms = (settle env.mergeReturns (ms.map Signature.returnType)).map
      fun t => { m with returnType := t } := by
  cases ms with
  | nil => rfl
  | cons k rest =>
    obtain ⟨hk, hrest⟩ := List.forall_mem_cons.mp h
    obtain ⟨hname, hparams⟩ := Prod.ext_iff.mp hk
    have hshared := @addSignatures_shared env k rest fun j hj => (hrest j hj).trans hk.symm
    have hfirst : env.addSignatures [] (k :: rest) = env.addSignatures [k] rest := rfl
    rw [oneSignature, hfirst, hshared, List.map_cons, settle]
    cases (rest.map Signature.returnType).foldlM env.mergeReturns k.returnType with
    | none => rfl
    | some t => exact congrArg some (Signature.mk.injEq .. ▸ ⟨hname, hparams, rfl⟩)

theorem oneSignature_of_differ {j k : Signature} (hj : j ∈ ms) (hk : k ∈ ms) (hne : j.key ≠ k.key) :
    env.oneSignature ms = none := by
  have hsub : [j, k] ⊆ ms := List.cons_subset.mpr ⟨hj, List.cons_subset.mpr ⟨hk, List.nil_subset _⟩⟩
  have hnone := @addSignatures_ne_singleton env ms [j, k] hsub (by simpa using hne) (by simp)
  unfold oneSignature
  split
  · rename_i m hm
    exact absurd hm (hnone m)
  · rfl

theorem shared_or_differ (ms : List Signature) : (∃ m : Signature, ∀ k ∈ ms, k.key = m.key) ∨
    ∃ j ∈ ms, ∃ k ∈ ms, j.key ≠ k.key := by
  cases ms with
  | nil => exact .inl ⟨⟨"", [], .void⟩, List.forall_mem_nil _⟩
  | cons m rest =>
    by_cases hm : ∀ k ∈ m :: rest, k.key = m.key
    · exact .inl ⟨m, hm⟩
    · push Not at hm
      obtain ⟨k, hk, hne⟩ := hm
      exact .inr ⟨k, hk, m, List.mem_cons_self, hne⟩

def OrderFree (env : Env) (ms : List Signature) : Prop :=
  (∀ j ∈ ms, ∀ k ∈ ms, j.key = k.key) → env.AgreeInSomeOrder (ms.map Signature.returnType) →
    ∃ t, env.Sharpest (ms.map Signature.returnType) t

theorem exists_perm_map {α β : Type} {f : α → β} {l : List α} {m : List β}
    (h : m.Perm (l.map f)) : ∃ k : List α, k.Perm l ∧ k.map f = m := by
  rw [← List.filterMap_eq_map] at h
  obtain ⟨k, hk, hkm⟩ := exists_perm_filterMap h
  exact ⟨k, hk, by rwa [List.filterMap_eq_map] at hkm⟩

/-- Declarations come down to the same for all their orders exactly if they are free of order. -/
theorem oneSignature_perm_iff : (∀ ks : List Signature, ks.Perm ms →
    env.oneSignature ks = env.oneSignature ms) ↔ env.OrderFree ms := by
  rcases shared_or_differ ms with ⟨m, hm⟩ | ⟨j, hj, k, hk, hne⟩
  · have hkeys : ∀ j ∈ ms, ∀ k ∈ ms, j.key = k.key := fun j hj k hk =>
      (hm j hj).trans (hm k hk).symm
    have hinj : Function.Injective fun t => { m with returnType := t } := fun s t h =>
      (Signature.mk.inj h).2.2
    have hsettle := (selective_mergeReturns env).order_irrelevant_iff
      (l := ms.map Signature.returnType)
    simp only [someOrderSettles_mergeReturns, prevails_mergeReturns] at hsettle
    rw [OrderFree, imp_iff_right hkeys, ← hsettle]
    have hone : ∀ ks : List Signature, ks.Perm ms → env.oneSignature ks =
        (settle env.mergeReturns (ks.map Signature.returnType)).map
          fun t => { m with returnType := t } := fun ks hks =>
      oneSignature_of_shared fun k hk => hm k (hks.mem_iff.mp hk)
    constructor
    · intro h ts hts
      obtain ⟨ks, hks, rfl⟩ := exists_perm_map hts
      have hsame := h ks hks
      rw [hone ks hks, hone ms (.refl ms)] at hsame
      exact Option.map_injective hinj hsame
    · intro h ks hks
      rw [hone ks hks, hone ms (.refl ms), h _ (hks.map _)]
  · refine iff_of_true (fun ks hks => ?_) fun h => absurd (h j hj k hk) hne
    rw [oneSignature_of_differ hj hk hne,
      oneSignature_of_differ (hks.mem_iff.mpr hj) (hks.mem_iff.mpr hk) hne]

theorem oneSignature_congr (h : ∀ j ∈ ms, ∀ k ∈ ms,
      env'.isSubtype j.returnType k.returnType = env.isSubtype j.returnType k.returnType) :
    env'.oneSignature ms = env.oneSignature ms := by
  rcases shared_or_differ ms with ⟨m, hm⟩ | ⟨j, hj, k, hk, hne⟩
  · rw [oneSignature_of_shared hm, oneSignature_of_shared hm,
      (selective_mergeReturns env).settle_congr]
    simp only [List.forall_mem_map]
    exact fun j hj k hk => mergeReturns_congr (h j hj k hk) (h k hk j hj)
  · rw [oneSignature_of_differ hj hk hne, oneSignature_of_differ hj hk hne]

/-! ## The function type of an interface -/

open Hierarchy

def gathered (env : Env) (c : ClassType) : Option (List Signature) :=
  (visits id env.superinterfaces env.searchLimit [] [c]).map (·.flatMap env.abstractMethods)

def GathersOrderFree (env : Env) (c : ClassType) : Prop :=
  ∀ ms, env.gathered c = some ms → env.OrderFree ms

theorem functionSignature_eq_bind :
    env.functionSignature c.toTy = (env.gathered c).bind env.oneSignature := by
  rw [functionSignature_cls, singleAbstractMethod, gathered]
  cases visits id env.superinterfaces env.searchLimit [] [c] <;> rfl

/-- Where declarations stand in another order, the same abstract methods are gathered in another
order. -/
theorem gathered_reordered (h : env.Reorders env') (hms : env.gathered c = some ms) :
    ∃ ks, env'.gathered c = some ks ∧ ks.Perm ms := by
  obtain ⟨out, hout, rfl⟩ := Option.map_eq_some_iff.mp hms
  obtain ⟨out', hout', hperm⟩ := visits_perm h.superinterfaces_perm hout
  rw [gathered, h.searchLimit, hout']
  exact ⟨_, rfl, hperm.flatMap fun i _ => h.abstractMethods_perm i⟩

theorem gathered_reordered_none (h : env.Reorders env') (hnone : env.gathered c = none) :
    env'.gathered c = none := by
  rw [gathered, Option.map_eq_none_iff] at hnone ⊢
  rw [h.searchLimit]
  by_contra hsome
  obtain ⟨out', hout'⟩ := Option.ne_none_iff_exists'.mp hsome
  obtain ⟨out, hout, -⟩ := visits_perm (fun a => (h.superinterfaces_perm a).symm) hout'
  exact Option.some_ne_none out (hout.symm.trans hnone)

theorem functionSignature_of_orderFree (h : env.Reorders env') (hfree : env.GathersOrderFree c)
    (hsame : ∀ ms, env.gathered c = some ms → ∀ j ∈ ms, ∀ k ∈ ms,
      env'.isSubtype j.returnType k.returnType = env.isSubtype j.returnType k.returnType) :
    env'.functionSignature c.toTy = env.functionSignature c.toTy := by
  rw [functionSignature_eq_bind, functionSignature_eq_bind]
  cases hms : env.gathered c with
  | none =>
    rw [gathered_reordered_none h hms]
    rfl
  | some ms =>
    obtain ⟨ks, hks, hperm⟩ := gathered_reordered h hms
    rw [hks, Option.bind_some, Option.bind_some, oneSignature_congr,
      oneSignature_perm_iff.mpr (hfree ms hms) ks hperm]
    exact fun j hj k hk => hsame ms hms j (hperm.mem_iff.mp hj) k (hperm.mem_iff.mp hk)

/-! ## An interface that extends no other one -/

def contributed (env : Env) (d : ClassDecl) (args : List Ty) (m : MethodDecl) : Option Signature :=
  if m.isAbstract && !m.isStatic && !env.repeatsObjectMethod (env.seenMethod d args m) then
    some (env.seenMethod d args m)
  else none

theorem abstractMethods_eq_filterMap {d : ClassDecl} (hd : env.class? c.id = some d)
    (hk : d.kind = .interface) :
    env.abstractMethods c = d.methods.filterMap (env.contributed d c.args) := by
  have hput : ∀ l : List MethodDecl,
      ((l.filter fun m => m.isAbstract && !m.isStatic).map (env.seenMethod d c.args)).filter
        (fun m => !env.repeatsObjectMethod m) = l.filterMap (env.contributed d c.args) := by
    intro l
    induction l with
    | nil => rfl
    | cons m rest ih =>
      cases habstract : m.isAbstract && !m.isStatic <;>
        cases hroot : env.repeatsObjectMethod (env.seenMethod d c.args m) <;>
          simp [contributed, habstract, hroot, ih]
  simp only [abstractMethods, hd, hk, if_true]
  exact hput d.methods

/-- Any order of the abstract methods of an interface type comes about by an order of methods. -/
theorem exists_reordered_methods {ks : List Signature} (h : ks.Perm (env.abstractMethods c)) :
    ∃ env' : Env, env.Reorders env' ∧ env'.isSubtype = env.isSubtype ∧
      env'.superinterfaces = env.superinterfaces ∧ env'.abstractMethods c = ks := by
  by_cases hdecl : ∃ d, env.class? c.id = some d ∧ d.kind = .interface
  · obtain ⟨d, hd, hk⟩ := hdecl
    rw [abstractMethods_eq_filterMap hd hk] at h
    obtain ⟨methods, hp, rfl⟩ := exists_perm_filterMap h
    have hd' : (env.withMethods c.id methods).class? c.id =
        some (d.withMethods (some methods)) := by
      rw [class?_withMethods, hd, if_pos rfl]
      rfl
    exact ⟨env.withMethods c.id methods, reorders_withMethods hd hp, isSubtype_withMethods ..,
      superinterfaces_withMethods .., abstractMethods_eq_filterMap hd' hk⟩
  · have hnone : env.abstractMethods c = [] := by
      unfold abstractMethods
      split
      · rfl
      · rename_i d hd
        exact if_neg fun hk => hdecl ⟨d, hd, hk⟩
    rw [hnone] at h
    exact ⟨env, .refl env, rfl, rfl, hnone.trans h.eq_nil.symm⟩

theorem gathered_alone (hnext : env.superinterfaces c = []) :
    env.gathered c = if env.searchLimit = 0 then none else some (env.abstractMethods c) := by
  unfold gathered
  cases env.searchLimit with
  | zero => rfl
  | succ n => cases n <;> simp [visits, hnext]

theorem gathersOrderFree_of_reordered (hnext : env.superinterfaces c = [])
    (h : ∀ env' : Env, env.Reorders env' → env'.isSubtype = env.isSubtype →
      env'.functionSignature c.toTy = env.functionSignature c.toTy) : env.GathersOrderFree c := by
  intro ms hms
  obtain ⟨hlimit, rfl⟩ : env.searchLimit ≠ 0 ∧ env.abstractMethods c = ms := by
    simpa [gathered_alone hnext] using hms
  refine oneSignature_perm_iff.mp fun ks hks => ?_
  obtain ⟨env', hre, hsub, hsuper, rfl⟩ := exists_reordered_methods hks
  have hsame := h env' hre hsub
  rw [functionSignature_eq_bind, functionSignature_eq_bind, hms,
    gathered_alone (congrFun hsuper c ▸ hnext), hre.searchLimit, if_neg hlimit, Option.bind_some,
    Option.bind_some] at hsame
  rw [← hsame]
  exact oneSignature_congr fun j _ k _ => by rw [hsub]

theorem gathersOrderFree_of_sharpest (hms : env.gathered c = some ms)
    (h : env.Sharpest (ms.map Signature.returnType) t) : env.GathersOrderFree c := by
  intro ks hks
  obtain rfl := Option.some.inj (hms.symm.trans hks)
  exact fun _ _ => ⟨t, h⟩

/-- If what is gathered from an interface type is free of order, its function type is the same for
all orders of interfaces and methods for which the subtype test tells the same of return types; that
is for all orders if no class type has two supertypes of one class. For an interface that extends no
other one the converse holds as well. -/
theorem functionSignature_reordered (env : Env) (c : ClassType) :
    (env.GathersOrderFree c → ∀ env', env.Reorders env' →
      (∀ ms, env.gathered c = some ms → ∀ j ∈ ms, ∀ k ∈ ms,
        env'.isSubtype j.returnType k.returnType = env.isSubtype j.returnType k.returnType) →
      env'.functionSignature c.toTy = env.functionSignature c.toTy) ∧
    (env.GathersOrderFree c → env.SingleViews → env.EndingWalks → ∀ env', env.Reorders env' →
      env'.functionSignature c.toTy = env.functionSignature c.toTy) ∧
    (env.superinterfaces c = [] →
      ((∀ env', env.Reorders env' → env'.isSubtype = env.isSubtype →
        env'.functionSignature c.toTy = env.functionSignature c.toTy) ↔
      env.GathersOrderFree c)) := by
  refine ⟨fun hfree env' h hsame => functionSignature_of_orderFree h hfree hsame,
    fun hfree hviews hends env' h => ?_, fun hnext => ⟨gathersOrderFree_of_reordered hnext, ?_⟩⟩
  · have hsub := isSubtype_reordered h (view_reordered h hviews hends)
    exact functionSignature_of_orderFree h hfree fun ms _ j _ k _ => by rw [hsub]
  · intro hfree env' h hsub
    exact functionSignature_of_orderFree h hfree fun ms _ j _ k _ => by rw [hsub]

end Env

namespace Makers

open Standard Env Hierarchy

def maker (name : String) (interfaces : List Ty) (returnTypes : List Ty) : ClassDecl :=
  interface name [] interfaces (returnTypes.map fun t => abstractMethod "make" [] t)

def env (decls : List ClassDecl) : Env :=
  { standard with classes := standard.classes ++ decls }

theorem reorders_env {decls decls' : List ClassDecl}
    (h : List.Forall₂ ClassDecl.Reorders decls decls') : (env decls).Reorders (env decls') :=
  reorders_of_classes (List.rel_append (List.forall₂_same.mpr fun d _ => .refl d) h)

def charSequenceTy : Ty := .cls charSequence []

def makers (interfaces : List ClassId) : List ClassDecl :=
  [maker "CharsMaker" [] [charSequenceTy], maker "StringMaker" [] [stringTy],
    maker "SerialMaker" [] [.cls serializable []],
    maker "Maker" (interfaces.map fun id => .cls id []) []]

def chars : ClassId := ⟨26⟩

def strings : ClassId := ⟨27⟩

def serials : ClassId := ⟨28⟩

def ownMaker (returnTypes : List Ty) : List ClassDecl := [maker "Maker" [] returnTypes]

theorem distinct_supertypes (c : ClassType) :
    ((visits id (env (makers [chars, strings])).directSupertypes standard.searchLimit [] [c]).map
      fun out => decide (out.map ClassType.id).Nodup) = some true := by
  obtain ⟨⟨i⟩, args⟩ := c
  by_cases hi : i < 30
  · interval_cases i <;> cases args <;> rfl
  · have hnone : (env (makers [chars, strings])).class? ⟨i⟩ = none :=
      List.getElem?_eq_none (Nat.le_of_not_lt hi)
    have hnext : (env (makers [chars, strings])).directSupertypes ⟨⟨i⟩, args⟩ = [] := by
      simp [directSupertypes, hnone]
    have hlimit : standard.searchLimit = 65534 + 2 := rfl
    simp [hlimit, visits, hnext]

theorem endingWalks : (env (makers [chars, strings])).EndingWalks := by
  intro c
  obtain ⟨out, hout, -⟩ := Option.map_eq_some_iff.mp (distinct_supertypes c)
  exact Option.isSome_of_eq_some hout

theorem singleViews : (env (makers [chars, strings])).SingleViews := by
  intro c a ha b hb hid
  obtain ⟨out, hout, hnodup⟩ := Option.map_eq_some_iff.mp (distinct_supertypes c)
  rw [← reached_directSupertypes, ← mem_of_visits hout] at ha hb
  exact List.inj_on_of_nodup_map (of_decide_eq_true hnodup) ha hb hid

/-- A `Maker` makes strings if it extends the interface that makes characters and the one that makes
strings, whichever it names first, and if it has methods for both, in whichever order. -/
theorem functionSignature_reordered_maker :
    (env (makers [strings, chars])).functionSignature (.cls ⟨29⟩ []) =
      some ⟨"make", [], stringTy⟩ ∧
    (env (ownMaker [stringTy, charSequenceTy])).functionSignature (.cls ⟨26⟩ []) =
      some ⟨"make", [], stringTy⟩ ∧
    ∀ env' : Env, (env (ownMaker [charSequenceTy, stringTy])).Reorders env' →
      env'.isSubtype = (env (ownMaker [charSequenceTy, stringTy])).isSubtype →
      env'.functionSignature (.cls ⟨26⟩ []) = some ⟨"make", [], stringTy⟩ := by
  have hmakers : (env (makers [chars, strings])).gathered ⟨⟨29⟩, []⟩ =
      some [⟨"make", [], charSequenceTy⟩, ⟨"make", [], stringTy⟩] := by decide +kernel
  have hown : (env (ownMaker [charSequenceTy, stringTy])).gathered ⟨⟨26⟩, []⟩ =
      some [⟨"make", [], charSequenceTy⟩, ⟨"make", [], stringTy⟩] := by decide +kernel
  have hmakersFree := @gathersOrderFree_of_sharpest _ stringTy _ _ hmakers (by decide +kernel)
  have hownFree := @gathersOrderFree_of_sharpest _ stringTy _ _ hown (by decide +kernel)
  obtain ⟨-, hextended, -⟩ := functionSignature_reordered (env (makers [chars, strings])) ⟨⟨29⟩, []⟩
  obtain ⟨hsame, -, halone⟩ :=
    functionSignature_reordered (env (ownMaker [charSequenceTy, stringTy])) ⟨⟨26⟩, []⟩
  have hmake : (env (ownMaker [charSequenceTy, stringTy])).functionSignature (.cls ⟨26⟩ []) =
      some ⟨"make", [], stringTy⟩ := by decide +kernel
  refine ⟨?_, ?_, fun env' h hsub => ?_⟩
  · have hswap : (env (makers [chars, strings])).Reorders (env (makers [strings, chars])) :=
      reorders_env (.cons (.refl _) (.cons (.refl _) (.cons (.refl _)
        (.cons (.mk (.swap ..) (.refl _)) .nil))))
    refine (hextended hmakersFree singleViews endingWalks _ hswap).trans ?_
    decide +kernel
  · refine (hsame hownFree _ (reorders_env (.cons (.mk (.refl _) (.swap ..)) .nil)) ?_).trans hmake
    intro ms hms
    obtain rfl := Option.some.inj (hown.symm.trans hms)
    decide +kernel
  · exact ((halone rfl).mpr hownFree env' h hsub).trans hmake

def Swayed (decls decls' : List ClassDecl) (id : ClassId) : Prop :=
  (env decls).Reorders (env decls') ∧
    (env decls').functionSignature (.cls id []) ≠ (env decls).functionSignature (.cls id [])

def twiceMaker (interfaces : List Ty) : List ClassDecl :=
  [interface "Twice" [] interfaces [],
    maker "Maker" [] [.cls ⟨26⟩ [], .cls comparable [integerTy]]]

/-- Of a raw list and a list of strings the first is kept. What makes strings settles what makes
characters with what makes serializable things, unless it comes last. And what is comparable in two
ways is a subtype of the one that it names first. -/
theorem order_matters :
    Swayed (ownMaker [.cls list [], .cls list [stringTy]])
      (ownMaker [.cls list [stringTy], .cls list []]) ⟨26⟩ ∧
    Swayed (makers [chars, strings, serials]) (makers [chars, serials, strings]) ⟨29⟩ ∧
    Swayed (twiceMaker [.cls comparable [stringTy], .cls comparable [integerTy]])
      (twiceMaker [.cls comparable [integerTy], .cls comparable [stringTy]]) ⟨27⟩ := by
  refine ⟨⟨reorders_env ?_, by decide +kernel⟩, ⟨reorders_env ?_, by decide +kernel⟩,
    ⟨reorders_env ?_, by decide +kernel⟩⟩
  · exact .cons (.mk (.refl _) (.swap ..)) .nil
  · exact .cons (.refl _) (.cons (.refl _) (.cons (.refl _)
      (.cons (.mk (.cons _ (.swap ..)) (.refl _)) .nil)))
  · exact .cons (.mk (.swap ..) (.refl _)) (.cons (.refl _) .nil)

end Makers

end DoubleColon
