import DoubleColon.Proofs.SubtypeRules

/-!
# The parts of an intersection

Whether an intersection is a subtype, or has one, depends on which parts it has and not on their
order. Where the other type is the same intersection, the test answers at once and sees the order;
where it is an intersection with the parts in another order, the test takes the supertype apart
first and finds each of its parts among those of the subtype. It has to come that far: the theorem
is about types whose intersections are not nested deeper than the test looks.
-/

set_option autoImplicit false

namespace DoubleColon

namespace Ty

def isPart : Ty → Bool
  | .cls _ _ | .array _ | .var _ => true
  | _ => false

mutual

/-- How deep intersections stand in intersections, as parts of parts. An intersection in a type
argument or an array is not counted: it is a type of its own to the subtype test. -/
def interNesting : Ty → Nat
  | .inter parts => interNestingAll parts + 1
  | _ => 0

def interNestingAll : List Ty → Nat
  | [] => 0
  | t :: rest => max (interNesting t) (interNestingAll rest)

end

theorem interNesting_le_of_mem {p : Ty} {parts : List Ty} (h : p ∈ parts) :
    p.interNesting ≤ interNestingAll parts := by
  induction parts with
  | nil => cases h
  | cons t rest ih =>
    rw [interNestingAll]
    rcases List.mem_cons.mp h with rfl | h
    · exact Nat.le_max_left _ _
    · exact Nat.le_trans (ih h) (Nat.le_max_right _ _)

end Ty

namespace Env

variable {env : Env} {ps qs : List Ty} {p t : Ty} {n : Nat}

theorem isSubtypeWithin_part (hp : p.isPart = true) (hmem : p ∈ ps) (n : Nat) :
    env.isSubtypeWithin (n + 2) (.inter ps) p = true := by
  refine isSubtypeWithin_of_rule (subtypeRule_inter_left.mpr (.inr ?_))
  have hrefl := env.isSubtypeWithin_refl n p
  cases p with
  | cls | array | var => exact ⟨rfl, rfl, _, hmem, hrefl⟩
  | _ => cases hp

/-- An intersection is a subtype of every intersection of some of its parts. -/
theorem isSubtypeWithin_parts (hps : ∀ p ∈ ps, p.isPart = true) (h : ∀ q ∈ qs, q ∈ ps) (n : Nat) :
    env.isSubtypeWithin (n + 3) (.inter ps) (.inter qs) = true := by
  refine isSubtypeWithin_of_rule (subtypeRule_inter_right.mpr ?_)
  exact .inr ⟨rfl, fun q hq => isSubtypeWithin_part (hps q (h q hq)) (h q hq) n⟩

theorem isSubtypeWithin_inter_right (hps : ∀ p ∈ ps, p.isPart = true) (hperm : qs.Perm ps)
    (h : env.isSubtypeWithin (n + 3) t (.inter ps) = true) :
    env.isSubtypeWithin (n + 3) t (.inter qs) = true := by
  rcases isSubtypeWithin_succ.mp h with heq | hrec | hrec | hrule
  · rw [eq_inter_of_canonical heq]
    exact isSubtypeWithin_parts hps (fun q hq => hperm.mem_iff.mp hq) n
  · exact isSubtypeWithin_succ.mpr (.inr (.inl hrec))
  · cases hrec
  · refine isSubtypeWithin_of_rule (subtypeRule_inter_right.mpr ?_)
    refine (subtypeRule_inter_right.mp hrule).imp_right fun ⟨hs, hall⟩ => ⟨hs, fun q hq => ?_⟩
    exact hall q (hperm.mem_iff.mp hq)

/-- A subtype keeps its supertypes when its parts change places, but for those whose intersections
are nested down to the last levels. -/
theorem isSubtypeWithin_inter_left (hps : ∀ p ∈ ps, p.isPart = true) (hperm : qs.Perm ps)
    (ht : t.interNesting + 2 ≤ n) (h : env.isSubtypeWithin n (.inter ps) t = true) :
    env.isSubtypeWithin n (.inter qs) t = true := by
  induction n generalizing t with
  | zero => cases h
  | succ n ih =>
    rcases isSubtypeWithin_succ.mp h with heq | hrec | hrec | hrule
    · -- The test has seen the same parts in the same order.
      obtain rfl := eq_inter_of_canonical heq.symm
      obtain ⟨m, rfl⟩ : ∃ m, n = m + 2 := ⟨n - 2, by rw [Ty.interNesting] at ht; omega⟩
      have hqs : ∀ q ∈ qs, q.isPart = true := fun q hq => hps q (hperm.mem_iff.mp hq)
      exact isSubtypeWithin_parts hqs (fun p hp => hperm.mem_iff.mpr hp) m
    · cases hrec
    · exact isSubtypeWithin_succ.mpr (.inr (.inr (.inl hrec)))
    · refine isSubtypeWithin_of_rule (subtypeRule_inter_left.mpr ?_)
      rcases subtypeRule_inter_left.mp hrule with ⟨ts, hts, hall⟩ | ⟨hc, hi, p, hp, hle⟩
      · obtain rfl := eq_inter_of_canonical hts
        refine .inl ⟨ts, rfl, fun u hu => ih ?_ (hall u hu)⟩
        have hnest := Ty.interNesting_le_of_mem hu
        rw [Ty.interNesting] at ht
        omega
      · exact .inr ⟨hc, hi, p, hperm.mem_iff.mpr hp, hle⟩

/-- An intersection of class types, arrays and type variables is a subtype of every intersection of
some of its parts. When its parts change places it stays a subtype of the types that it was a
subtype of, if their intersections are nested eight deep at most, and a supertype of the types that
it was a supertype of. -/
theorem inter_parts_irrelevant (hps : ∀ p ∈ ps, p.isPart = true) :
    (∀ qs, (∀ q ∈ qs, q ∈ ps) → env.isSubtype (.inter ps) (.inter qs) = true) ∧
    ∀ qs, qs.Perm ps → ∀ t,
      (t.interNesting ≤ 8 → env.isSubtype (.inter qs) t = env.isSubtype (.inter ps) t) ∧
      env.isSubtype t (.inter qs) = env.isSubtype t (.inter ps) := by
  refine ⟨fun qs h => isSubtypeWithin_parts hps h 30, fun qs hperm t => ⟨fun ht => ?_, ?_⟩⟩
  · have hqs : ∀ q ∈ qs, q.isPart = true := fun q hq => hps q (hperm.mem_iff.mp hq)
    have hdeep : t.interNesting + 2 ≤ 33 := by omega
    rw [Bool.eq_iff_iff]
    exact ⟨isSubtypeWithin_inter_left hqs hperm.symm hdeep,
      isSubtypeWithin_inter_left hps hperm hdeep⟩
  · have hqs : ∀ q ∈ qs, q.isPart = true := fun q hq => hps q (hperm.mem_iff.mp hq)
    rw [Bool.eq_iff_iff]
    exact ⟨isSubtypeWithin_inter_right hqs hperm.symm,
      isSubtypeWithin_inter_right hps hperm⟩

/-- What is both serializable and cloneable is cloneable, and it is what is both cloneable and
serializable, be that an intersection of intersections. -/
theorem inter_parts_irrelevant_cloneable :
    standard.isSubtype (.inter [.cls Standard.cloneable [], .cls Standard.serializable []])
      (.inter [.cls Standard.cloneable []]) = true ∧
    standard.isSubtype (.inter [.cls Standard.serializable [], .cls Standard.cloneable []])
        (.inter [.inter [.cls Standard.cloneable [], .cls Standard.serializable []]]) =
      standard.isSubtype (.inter [.cls Standard.cloneable [], .cls Standard.serializable []])
        (.inter [.inter [.cls Standard.cloneable [], .cls Standard.serializable []]]) ∧
    standard.isSubtype (.inter [.inter [.cls Standard.cloneable [], .cls Standard.serializable []]])
        (.inter [.cls Standard.serializable [], .cls Standard.cloneable []]) =
      standard.isSubtype
        (.inter [.inter [.cls Standard.cloneable [], .cls Standard.serializable []]])
        (.inter [.cls Standard.cloneable [], .cls Standard.serializable []]) := by
  have hps : ∀ p ∈ [Ty.cls Standard.cloneable [], .cls Standard.serializable []],
      p.isPart = true := by decide
  have hall := @inter_parts_irrelevant standard _ hps
  have hswap := hall.2 [.cls Standard.serializable [], .cls Standard.cloneable []] (.swap _ _ _)
    (.inter [.inter [.cls Standard.cloneable [], .cls Standard.serializable []]])
  exact ⟨hall.1 _ (by decide), hswap.1 (by decide), hswap.2⟩

end Env

end DoubleColon
