import DoubleColon.Proofs.MethodEdits

/-!
# Function types and the order of methods

A function type is read off the interfaces that a type comes down to through its parts and bounds.
The abstract methods of these must all have one name and the same parameters. So a class with two
abstract methods that differ gives no function type, and with a single one there is no order: a
function type can depend on the order of the methods of a class only if two abstract methods of it
have the same name and, with the type arguments put in, the same parameters.
-/

set_option autoImplicit false

namespace DoubleColon

def Signature.key (m : Signature) : String × List Ty := (m.name, m.params)

namespace Env

/-! ## What a type is read through -/

section
variable {env : Env} {α : Type} {merge : α → α → Option α} {leaf leaf' : Ty → Option α}

/-- A type, its parts and its bounds, and what these are read through. -/
inductive PartOf (env : Env) (s : Ty) : Ty → Prop
  | refl : PartOf env s s
  | inter {t : Ty} {parts : List Ty} : t ∈ parts → PartOf env s t → PartOf env s (.inter parts)
  | bound {t : Ty} {v : TypeVar} {p : TypeParam} : env.typeParam? v = some p →
      t ∈ p.upperBounds → PartOf env s t → PartOf env s (.var v)

theorem PartOf.trans {s t u : Ty} (hs : env.PartOf s t) (ht : env.PartOf t u) :
    env.PartOf s u := by
  induction ht with
  | refl => exact hs
  | inter hmem _ ih => exact .inter hmem ih
  | bound hp hmem _ ih => exact .bound hp hmem ih

theorem throughParts_congr {ofVar ofVar' : TypeVar → Option α} {t : Ty}
    (hleaf : ∀ s, env.PartOf s t → leaf s = leaf' s)
    (hvar : ∀ v, env.PartOf (.var v) t → ofVar v = ofVar' v) :
    throughParts merge leaf ofVar t = throughParts merge leaf' ofVar' t := by
  induction t using Ty.inductionOn with
  | inter parts ih =>
    simp only [throughParts, throughAll_eq_map]
    refine congrArg _ (List.map_congr_left fun a ha => ih a ha ?_ ?_)
    · exact fun s hs => hleaf s (.inter ha hs)
    · exact fun v hv => hvar v (.inter ha hv)
  | var v => exact hvar v .refl
  | _ => exact hleaf _ .refl

theorem throughBounds_congr (n : Nat) (seen : List TypeVar) {v : TypeVar}
    (h : ∀ s, env.PartOf s (.var v) → leaf s = leaf' s) :
    env.throughBounds merge leaf n seen v = env.throughBounds merge leaf' n seen v := by
  induction n generalizing seen v with
  | zero => rfl
  | succ n ih =>
    simp only [throughBounds]
    split
    · rfl
    · cases hp : env.typeParam? v with
      | none => rfl
      | some p =>
        refine congrArg _ (List.map_congr_left fun b hb => ?_)
        have hleaf : ∀ s, env.PartOf s b → leaf s = leaf' s := fun s hs => h s (.bound hp hb hs)
        exact throughParts_congr hleaf fun x hx => ih _ fun s hs => hleaf s (hs.trans hx)

/-- How types are read is of importance only for those that a type is read through. -/
theorem overParts_congr {t : Ty} (h : ∀ s, env.PartOf s t → leaf s = leaf' s) :
    env.overParts merge leaf t = env.overParts merge leaf' t :=
  throughParts_congr h fun _ hv => throughBounds_congr _ _ fun s hs => h s (hs.trans hv)

end

/-! ## Signatures that are put together -/

section
variable {env : Env}

theorem keys_addSignature {m : Signature} {known out : List Signature}
    (h : env.addSignature m known = some out) :
    m.key :: known.map Signature.key ⊆ out.map Signature.key := by
  induction known generalizing out with
  | nil =>
    cases h
    exact List.Subset.refl _
  | cons k rest ih =>
    simp only [addSignature] at h
    split at h
    next hk =>
      obtain ⟨t, -, rfl⟩ := Option.map_eq_some_iff.mp h
      have hkey : k.key = m.key := Prod.ext hk.1 hk.2
      intro x hx
      simp only [List.map_cons, List.mem_cons] at hx ⊢
      rcases hx with rfl | hx
      · exact .inl hkey.symm
      · exact hx
    next =>
      obtain ⟨out, ho, rfl⟩ := Option.map_eq_some_iff.mp h
      have := ih ho
      intro x hx
      simp only [List.map_cons, List.mem_cons] at hx ⊢
      rcases hx with rfl | rfl | hx
      · exact .inr (this List.mem_cons_self)
      · exact .inl rfl
      · exact .inr (this (List.mem_cons_of_mem _ hx))

theorem keys_addSignatures {known ms out : List Signature}
    (h : env.addSignatures known ms = some out) :
    (known ++ ms).map Signature.key ⊆ out.map Signature.key := by
  induction ms generalizing known with
  | nil =>
    cases h
    simp
  | cons m rest ih =>
    obtain ⟨next, hn, h⟩ := Option.bind_eq_some_iff.mp h
    have hkeys := keys_addSignature hn
    intro x hx
    refine ih h ?_
    simp only [List.map_append, List.map_cons, List.mem_append, List.mem_cons] at hx ⊢
    rcases hx with hx | rfl | hx
    · exact .inl (hkeys (List.mem_cons_of_mem _ hx))
    · exact .inl (hkeys List.mem_cons_self)
    · exact .inr hx

theorem addSignatures_ne_singleton {ms l : List Signature} (hsub : l ⊆ ms)
    (hl : (l.map Signature.key).Nodup) (hlen : 1 < l.length) (m : Signature) :
    env.addSignatures [] ms ≠ some [m] := by
  intro h
  have hkey : ∀ k ∈ l, k.key = m.key := fun k hk => by
    simpa using keys_addSignatures h (List.mem_map_of_mem (hsub hk))
  match l with
  | a :: b :: rest =>
    have hab : a.key ≠ b.key := by
      simp only [List.map_cons, List.nodup_cons, List.mem_cons, not_or] at hl
      exact hl.1.1
    exact hab ((hkey a (by simp)).trans (hkey b (by simp)).symm)

end

/-! ## Another order of methods -/

section
variable (env : Env) (c : ClassId) (methods : List MethodDecl)

@[simp] theorem superinterfaces_withMethods :
    (env.withMethods c methods).superinterfaces = env.superinterfaces := by
  funext i
  unfold superinterfaces
  rw [class?_withMethods]
  cases env.class? i.id <;> rfl

@[simp] theorem addSignatures_withMethods :
    (env.withMethods c methods).addSignatures = env.addSignatures := by
  have hmerge : (env.withMethods c methods).mergeReturns = env.mergeReturns := by
    funext s t
    simp only [mergeReturns, narrower, isSubtype_withMethods]
  have hadd : ∀ m known, (env.withMethods c methods).addSignature m known =
      env.addSignature m known := by
    intro m known
    induction known with
    | nil => rfl
    | cons k rest ih => simp only [addSignature, hmerge, ih]
  funext known ms
  induction ms generalizing known with
  | nil => rfl
  | cons m rest ih => simp only [addSignatures, hadd, ih]

theorem abstractMethods_of_ne {i : ClassType} (h : i.id ≠ c) :
    (env.withMethods c methods).abstractMethods i = env.abstractMethods i := by
  unfold abstractMethods
  rw [class?_withMethods, if_neg h]
  cases env.class? i.id <;> rfl

theorem abstractMethods_of_not_interface {i : ClassType} {d : ClassDecl}
    (hd : env.class? i.id = some d) (hk : d.kind ≠ .interface) : env.abstractMethods i = [] := by
  simp [abstractMethods, hd, hk]

variable {env c methods} {d : ClassDecl}

theorem abstractMethods_perm (hd : env.class? c = some d) (hp : methods.Perm d.methods)
    (i : ClassType) :
    ((env.withMethods c methods).abstractMethods i).Perm (env.abstractMethods i) := by
  by_cases hi : i.id = c
  · subst hi
    simp only [abstractMethods, class?_withMethods, hd, Option.map_some, if_true]
    by_cases hk : d.kind = .interface
    · simp only [ClassDecl.withMethods, hk, if_true]
      exact ((hp.filter _).map _).filter _
    · simp [ClassDecl.withMethods, hk]
  · rw [abstractMethods_of_ne env c methods hi]

def Contributes (env : Env) (t : Ty) (i : ClassType) : Prop :=
  ∃ s k args interfaces, env.PartOf s t ∧ env.canonical s = .cls k args ∧
    Hierarchy.visits id env.superinterfaces env.searchLimit [] [⟨k, args⟩] = some interfaces ∧
    i ∈ interfaces

/-- The abstract methods of a class that count towards the function type of a type differ in name
or parameters. -/
def AbstractDiffer (env : Env) (c : ClassId) (t : Ty) : Prop :=
  ∀ i, env.Contributes t i → i.id = c → ((env.abstractMethods i).map Signature.key).Nodup

theorem singleAbstractMethod_perm (hd : env.class? c = some d)
    (hp : methods.Perm d.methods) {k : ClassType}
    (h : ∀ interfaces,
      Hierarchy.visits id env.superinterfaces env.searchLimit [] [k] = some interfaces →
      ∀ i ∈ interfaces, i.id = c → ((env.abstractMethods i).map Signature.key).Nodup) :
    (env.withMethods c methods).singleAbstractMethod k = env.singleAbstractMethod k := by
  have hlimit : (env.withMethods c methods).searchLimit = env.searchLimit := rfl
  simp only [singleAbstractMethod, superinterfaces_withMethods, addSignatures_withMethods, hlimit]
  cases hv : Hierarchy.visits id env.superinterfaces env.searchLimit [] [k] with
  | none => rfl
  | some interfaces =>
    have hperm := abstractMethods_perm hd hp
    by_cases hone : ∀ i ∈ interfaces, i.id = c → (env.abstractMethods i).length ≤ 1
    · -- One method at most has only one order.
      have hsame : ∀ i ∈ interfaces,
          (env.withMethods c methods).abstractMethods i = env.abstractMethods i := by
        intro i hi
        by_cases hc : i.id = c
        · match hl : env.abstractMethods i, hone i hi hc with
          | [], _ => exact (hl ▸ hperm i).eq_nil
          | [m], _ => exact (hl ▸ hperm i).eq_singleton
        · exact abstractMethods_of_ne env c methods hc
      simp only [List.flatMap_congr hsame]
    · -- Two that differ are not put together in either order.
      obtain ⟨i, hi, hc, hlen⟩ : ∃ i ∈ interfaces, i.id = c ∧
          1 < (env.abstractMethods i).length := by
        simpa using hone
      have hnone : ∀ gather : ClassType → List Signature, env.abstractMethods i ⊆ gather i → ∀ m,
          env.addSignatures [] (interfaces.flatMap gather) ≠ some [m] := fun gather hsub m =>
        addSignatures_ne_singleton
          (fun s hs => List.mem_flatMap.mpr ⟨i, hi, hsub hs⟩) (h interfaces hv i hi hc) hlen m
      have hbefore := hnone _ (List.Subset.refl _)
      have hafter := hnone _ (hperm i).symm.subset
      dsimp only
      split
      next hm => exact absurd hm (hafter _)
      next => rfl

/-- A function type does not depend on the order of the methods of a class whose abstract methods
differ. -/
theorem functionType_perm (hd : env.class? c = some d) (hp : methods.Perm d.methods)
    {t : Ty} (h : env.AbstractDiffer c t) :
    (env.withMethods c methods).functionType t = env.functionType t := by
  have hleaf : ∀ s, env.PartOf s t →
      (env.withMethods c methods).signatureLeaf s = env.signatureLeaf s := by
    intro s hs
    unfold signatureLeaf
    rw [canonical_withMethods]
    cases hk : env.canonical s with
    | cls id args =>
      have hsingle := singleAbstractMethod_perm hd hp fun interfaces hv i hi =>
        h i ⟨s, id, args, interfaces, hs, hk, hv, hi⟩
      simp only [class?_withMethods, hsingle]
      cases env.class? id <;> rfl
    | _ => rfl
  unfold functionType functionSignature
  rw [overParts_withMethods, overParts_congr hleaf]

end

end Env

end DoubleColon
