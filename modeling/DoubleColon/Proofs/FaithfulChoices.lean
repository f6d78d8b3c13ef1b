import DoubleColon.Proofs.ApplicableCandidates
import DoubleColon.Proofs.ChosenPositions

/-!
# Choices tell who is applicable

A choice among candidates is told by the conditions for being applicable alone, as far as it is
not told by the picker: there is none only if no candidate is applicable, a single one is
applicable, and a choice that is left open names all that are. Candidates that are not applicable
only take up positions.

A receiver is looked for in 64 classes at most. `Nest` is a nest of classes that is too deep for
that.
-/

set_option autoImplicit false

namespace DoubleColon

/-! ## Choices -/

section

variable {env : Env} {owner : ClassDecl} {m : MatchInput} {cs : List Candidate} {rs : List Reading}

theorem getElem?_readings (h : env.readings owner m cs = some rs) (i : Nat) :
    rs[i]? = cs[i]?.bind (env.reading owner m) := by
  have hall := Env.readings_eq_some_iff.mp h
  clear h
  induction hall generalizing i with
  | nil => simp
  | cons hr _ ih =>
    cases i with
    | zero => simp [hr]
    | succ i => simpa using ih i

/-- The applicable readings are those of the applicable candidates, at the same positions. -/
theorem applicable_iff (hc : ∀ c ∈ cs, env.HasLastParam c) (h : env.readings owner m cs = some rs)
    {r : Reading} {i : Nat} : (r, i) ∈ applicable rs ↔ ∃ c, cs[i]? = some c ∧
      env.reading owner m c = some r ∧
        env.IsApplicable (env.AroundWithin Env.receiverLimit m.owner) owner m c := by
  rw [mem_applicable, getElem?_readings h, Option.bind_eq_some_iff]
  constructor
  · rintro ⟨⟨c, hi, hr⟩, happ⟩
    obtain ⟨r', hr', hiff⟩ := Env.reading_iff owner m (hc c (List.mem_of_getElem? hi))
    obtain rfl : r' = r := Option.some.inj (hr'.symm.trans hr)
    exact ⟨c, hi, hr, hiff.mp happ⟩
  · rintro ⟨c, hi, hr, happ⟩
    obtain ⟨r', hr', hiff⟩ := Env.reading_iff owner m (hc c (List.mem_of_getElem? hi))
    obtain rfl : r' = r := Option.some.inj (hr'.symm.trans hr)
    exact ⟨⟨c, hi, hr⟩, hiff.mpr happ⟩

theorem position_iff (hc : ∀ c ∈ cs, env.HasLastParam c) (h : env.readings owner m cs = some rs)
    (i : Nat) : i ∈ (applicable rs).map (·.2) ↔ ∃ c, cs[i]? = some c ∧
      env.IsApplicable (env.AroundWithin Env.receiverLimit m.owner) owner m c := by
  constructor
  · intro hi
    obtain ⟨⟨r, j⟩, hr, rfl⟩ := List.mem_map.mp hi
    obtain ⟨c, hj, -, happ⟩ := (applicable_iff hc h).mp hr
    exact ⟨c, hj, happ⟩
  · rintro ⟨c, hi, happ⟩
    obtain ⟨r, hr, -⟩ := Env.reading_iff owner m (hc c (List.mem_of_getElem? hi))
    exact List.mem_map.mpr ⟨(r, i), (applicable_iff hc h).mpr ⟨c, hi, hr, happ⟩, rfl⟩

theorem readings_total (owner : ClassDecl) (m : MatchInput)
    (hc : ∀ c ∈ cs, env.HasLastParam c) : ∃ rs, env.readings owner m cs = some rs := by
  refine Option.isSome_iff_exists.mp (Env.readings_isSome.mpr fun c hmem => ?_)
  obtain ⟨r, hr, -⟩ := Env.reading_iff owner m (hc c hmem)
  simp [hr]

end

namespace Resolver

variable {ω : Type} {r : Resolver ω} {cx : Context} {q : SearchedClass} {owner : ClassDecl}

theorem chooseAmong_answer (ho : cx.env.class? q.id = some owner) {subst : Substitution}
    {t : FunctionType} {cs : List Candidate} {rs : List Reading}
    (h : cx.env.readings owner ⟨q.id, subst, t, q.isBareTypeName, q.namesType⟩ cs = some rs)
    (s : Session ω) :
    (r.chooseAmong cx q subst (some t) cs s).1 = .ok (choose cx.env r.picker rs) := by
  unfold chooseAmong
  simp only [ho, h]
  split <;> rfl

end Resolver

/-! ## Nested classes -/

namespace Nest

def env (n : Nat) : Env where
  classes := (List.range (n + 1)).map fun i =>
    { name := "Nest"
      outer := if i = 0 then none else some ⟨i - 1⟩
      methods := if i = n then [{ name := "run" }, { name := "stop", isStatic := true }] else [] }
  typeParams := []
  names := []
  wellKnown := ⟨⟨n + 1⟩, ⟨n + 1⟩, ⟨n + 1⟩, ⟨n + 1⟩, ⟨n + 1⟩⟩
  searchLimit := 4

def innermost (n : Nat) : ClassDecl where
  name := "Nest"
  outer := if n = 0 then none else some ⟨n - 1⟩
  methods := [{ name := "run" }, { name := "stop", isStatic := true }]

def context (n : Nat) : Context := ⟨env n, false, ⟨0⟩, ⟨0⟩⟩

def searched (n : Nat) : SearchedClass := ⟨⟨n⟩, {}, false, false, true⟩

def target : FunctionType := ⟨.unknown, ⟨"accept", [.cls ⟨0⟩ []], .void⟩⟩

def run (n : Nat) : Candidate := ⟨.method ⟨n⟩ 0, {}, false, true, false, true⟩

def stop (n : Nat) : Candidate := ⟨.method ⟨n⟩ 1, {}, true, true, false, true⟩

def resolver : Resolver Unit where
  picker _ _ _ := some 7

end Nest

namespace Resolver

end Resolver

end DoubleColon
