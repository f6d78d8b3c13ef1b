import DoubleColon.Env.Standard
import DoubleColon.Proofs.ApplicableCandidates

/-!
# Receivers of the qualifier's own type

A reference such as `List<String>::size` leaves its receiver open. A value of the very type that
qualifies the reference may be the receiver, unless one of the type arguments is a wildcard: in the
type of the receiver it is replaced by its bound, and then no longer agrees with what the
qualifier has.
-/

set_option autoImplicit false

namespace DoubleColon

/-! ## Wildcards and their bounds -/

namespace Ty

def isWildcard : Ty → Bool
  | .wild | .wildUpper _ | .wildLower _ => true
  | _ => false

end Ty

theorem Env.argBound_eq_self_iff (env : Env) {t : Ty} :
    env.argBound t = t ↔ t.isWildcard = false := by
  cases t with
  | wildUpper b | wildLower b =>
    refine iff_of_false (fun h => ?_) nofun
    change b = _ at h
    cases h
  | _ => simp [argBound, Ty.isWildcard, objectTy]

/-! ## Type arguments under a function -/

namespace Substitution

theorem get?_insertAll_map (f : Ty → Ty) {s s' : Substitution}
    (h : ∀ v, s'.get? v = (s.get? v).map f) (l : List (TypeVar × Ty)) (v : TypeVar) :
    (s'.insertAll (l.map fun e => (e.1, f e.2))).get? v = ((s.insertAll l).get? v).map f := by
  induction l generalizing s s' with
  | nil => exact h v
  | cons e rest ih =>
    refine ih fun w => ?_
    rw [get?_insert, get?_insert, h w]
    split <;> rfl

theorem get?_ofArgs_map (d : ClassDecl) (args : List Ty) (f : Ty → Ty) (v : TypeVar) :
    (ofArgs d (args.map f)).get? v = ((ofArgs d args).get? v).map f := by
  unfold ofArgs
  rw [List.length_map]
  split
  · rw [List.zip_map_right]
    exact get?_insertAll_map f (fun _ => rfl) _ v
  · rfl

/-- What a function leaves alone in the arguments that count, it leaves alone in what they put for
the type parameters. -/
theorem ofArgs_map_eq_iff {d : ClassDecl} {args : List Ty} {f : Ty → Ty} :
    ofArgs d (args.map f) = ofArgs d args ↔
      ∀ v t, (ofArgs d args).get? v = some t → f t = t := by
  constructor
  · intro h v t ht
    have hget := get?_ofArgs_map d args f v
    rw [h, ht] at hget
    exact (Option.some.inj hget).symm
  · intro h
    refine ext_get? fun v => ?_
    rw [get?_ofArgs_map]
    cases ht : (ofArgs d args).get? v with
    | none => rfl
    | some t => rw [Option.map_some, h v t ht]

end Substitution

/-! ## The receiver -/

namespace Env

variable {env : Env}

theorem asSuper_self (hlim : 0 < env.searchLimit) (id : ClassId) (args : List Ty) :
    env.asSuper (.cls id args) id = some (.cls id args) := by
  obtain ⟨n, hn⟩ := Nat.exists_eq_add_one.mpr hlim
  simp [asSuper, overParts, throughParts, viewLeaf, canonical, view, search, hn, Hierarchy.search,
    Search.toOption, ClassType.toTy]

/-- A value of a class type may be the receiver of a reference that is qualified by this type
exactly if no type argument that counts is a wildcard. -/
theorem receives_own_type_iff (hlim : 0 < env.searchLimit) {id : ClassId} {d : ClassDecl}
    (hd : env.class? id = some d) (args : List Ty) :
    env.isReceiver (.cls id args) id (.ofArgs d args) = true ↔
      ∀ v t, (Substitution.ofArgs d args).get? v = some t → t.isWildcard = false := by
  have hself := env.asSuper_self hlim id (args.map env.argBound)
  have hkept : Substitution.ofArgs d (args.map env.argBound) = Substitution.ofArgs d args ↔
      ∀ v t, (Substitution.ofArgs d args).get? v = some t → t.isWildcard = false := by
    rw [Substitution.ofArgs_map_eq_iff]
    simp only [argBound_eq_self_iff]
  rw [isReceiver_iff, ← hkept]
  constructor
  · intro h
    by_cases hargs : args = []
    · rw [hargs]
      rfl
    cases hempty : (Substitution.ofArgs d args).isEmpty with
    | false => exact h.agrees id _ d hself hd (by simpa using hargs) hempty
    | true =>
      rw [Substitution.ofArgs_map_eq_iff]
      intro v t ht
      simp [Substitution.get?, List.isEmpty_iff.mp hempty, Substitution.find?] at ht
  · intro h
    refine ⟨?_, ⟨id, ⟨0, by decide, rfl⟩, Option.isSome_of_eq_some hself⟩, ?_⟩
    · simp [withoutWildcards, classOf?, classOfWithin, canonical, hd]
    · intro id' args' d' hs hd' _ _
      obtain ⟨-, rfl⟩ := Ty.cls.inj (Option.some.inj (hself.symm.trans hs))
      obtain rfl : d = d' := Option.some.inj (hd.symm.trans hd')
      exact h

end Env

namespace Standard

open Env

def listDecl : ClassDecl :=
  interface "java.util.List" [11] [.cls collection [param 11]]
    [abstractMethod "get" [int] (param 11)]

/-- A list of strings may be the receiver of a member of such lists, a list of anything not. -/
theorem receives_own_type_lists :
    standard.isReceiver (.cls list [stringTy]) list (.ofArgs listDecl [stringTy]) = true ∧
    ¬ standard.isReceiver (.cls list [.wild]) list (.ofArgs listDecl [.wild]) = true := by
  have hlim : 0 < standard.searchLimit := by decide
  have hlist : standard.class? list = some listDecl := by decide +kernel
  rw [receives_own_type_iff hlim hlist, receives_own_type_iff hlim hlist]
  constructor
  · intro v t ht
    change (Substitution.insert {} ⟨11⟩ stringTy).get? v = some t at ht
    rw [Substitution.get?_insert] at ht
    split at ht <;> cases ht
    rfl
  · intro h
    exact absurd (h ⟨11⟩ .wild (by decide)) (by decide)

end Standard

end DoubleColon
