import DoubleColon.Proofs.SpelledSubtypes

/-!
# The levels of the subtype test

A rule of the subtype test asks the levels below whether types are related, and it never takes a no
for an answer in its favour. So a test with more levels relates whatever one with fewer levels does.
The limit denies, but it never affirms: what the test relates is related by the rules alone, which
know no limit (`RelatedByRules`). Each rule asks finitely many questions, so that conversely some
number of levels is enough for what the rules relate. No one number is enough for all: each level
relates arrays that are nested one deeper than those which the level below relates.
-/

set_option autoImplicit false

namespace DoubleColon

theorem exists_common_level {α : Type} (holds : Nat → α → Prop)
    (hmono : ∀ m n a, m ≤ n → holds m a → holds n a) {l : List α}
    (h : ∀ a ∈ l, ∃ n, holds n a) : ∃ n, ∀ a ∈ l, holds n a := by
  induction l with
  | nil => exact ⟨0, nofun⟩
  | cons a rest ih =>
    obtain ⟨m, hm⟩ := h a List.mem_cons_self
    obtain ⟨n, hn⟩ := ih fun b hb => h b (List.mem_cons_of_mem _ hb)
    refine ⟨max m n, fun b hb => ?_⟩
    rcases List.mem_cons.mp hb with rfl | hb
    · exact hmono m _ b (Nat.le_max_left _ _) hm
    · exact hmono n _ b (Nat.le_max_right _ _) (hn b hb)

namespace Ty

def arrays (elem : Ty) : Nat → Ty
  | 0 => elem
  | k + 1 => .array (arrays elem k)

theorem arrays_injective {a b : Ty} {k : Nat} (h : a.arrays k = b.arrays k) : a = b := by
  induction k with
  | zero => exact h
  | succ k ih => exact ih (Ty.array.inj h)

theorem isPrimitive_arrays {a : Ty} (h : a.isPrimitive = false) (k : Nat) :
    (a.arrays k).isPrimitive = false := by
  cases k with
  | zero => exact h
  | succ k => rfl

end Ty

namespace Env

/-- The rules relate one type to another, in however many levels. -/
inductive RelatedByRules (env : Env) : Ty → Ty → Prop
  | same {s t : Ty} (h : env.canonical s = env.canonical t) : RelatedByRules env s t
  | recoverySub {s t : Ty} (h : s.isRecovery) : RelatedByRules env s t
  | recoverySup {s t : Ty} (h : t.isRecovery) : RelatedByRules env s t
  /-- A rule whose questions are answered by a test that affirms only what the rules relate. -/
  | rule {s t : Ty} (le : Ty → Ty → Bool) (hle : ∀ a b, le a b = true → RelatedByRules env a b)
      (h : env.SubtypeRule le (env.canonical s) (env.canonical t)) : RelatedByRules env s t

variable {env : Env} {le le' : Ty → Ty → Bool} {s t : Ty} {m n : Nat}

/-! ## What a test asks the levels below -/

theorem ArgRule.mono {a b : Ty} (hle : ∀ s t, le s t = true → le' s t = true)
    (h : env.ArgRule le a b) : env.ArgRule le' a b := by
  cases h with
  | recoveryArg h => exact .recoveryArg h
  | recoveryFormal h => exact .recoveryFormal h
  | wild => exact .wild
  | upper h => exact .upper (hle _ _ h)
  | lowerBounds h => exact .lowerBounds (hle _ _ h)
  | lower ha h => exact .lower ha (hle _ _ h)
  | same hb h => exact .same hb h

theorem containsArg_mono {a b : Ty} (hle : ∀ s t, le s t = true → le' s t = true)
    (h : env.containsArg le a b = true) : env.containsArg le' a b = true :=
  argRule_iff.mpr ((argRule_iff.mp h).mono hle)

theorem classStep_of_args {b c : ClassType} (h : env.classStep le b c = true)
    (hargs : ∀ seen, env.view b c.id = some seen →
      (∀ p ∈ seen.args.zip c.args, env.containsArg le p.1 p.2 = true) →
      ∀ p ∈ seen.args.zip c.args, env.containsArg le' p.1 p.2 = true) :
    env.classStep le' b c = true := by
  unfold classStep at h ⊢
  cases hseen : env.view b c.id with
  | none => simpa [hseen] using h
  | some seen =>
    simp only [hseen, Bool.or_eq_true, List.all_eq_true] at h ⊢
    exact h.imp_right (Or.imp_right (hargs seen hseen))

theorem elementStep_mono (hle : ∀ s t, le s t = true → le' s t = true)
    (h : elementStep le s t = true) : elementStep le' s t = true := by
  rw [elementStep_iff] at h ⊢
  exact h.imp_right fun ⟨hs, ht, h⟩ => ⟨hs, ht, hle s t h⟩

theorem SubtypeRule.mono (hle : ∀ s t, le s t = true → le' s t = true)
    (h : env.SubtypeRule le s t) : env.SubtypeRule le' s t := by
  cases h with
  | null ht => exact .null ht
  | allParts hs h => exact .allParts hs fun p hp => hle _ _ (h p hp)
  | somePart ht hi hp h => exact .somePart ht hi hp (hle _ _ h)
  | varRoot ht => exact .varRoot ht
  | upperBound ht hi hd hb h => exact .upperBound ht hi hd hb (hle _ _ h)
  | lowerBound hs hc hd hb h => exact .lowerBound hs hc hd hb (hle _ _ h)
  | elements h => exact .elements (elementStep_mono hle h)
  | arrayClass h => exact .arrayClass h
  | classes h =>
    exact .classes (classStep_of_args h fun _ _ hall p hp => containsArg_mono hle (hall p hp))
  | wildUpper ht hc h => exact .wildUpper ht hc (hle _ _ h)
  | wildRoot ht => exact .wildRoot ht
  | wildLowerRoot ht => exact .wildLowerRoot ht

/-! ## More levels -/

theorem isSubtypeWithin_mono_succ (n : Nat) (s t : Ty) (h : env.isSubtypeWithin n s t = true) :
    env.isSubtypeWithin (n + 1) s t = true := by
  induction n generalizing s t with
  | zero => cases h
  | succ n ih =>
    rw [isSubtypeWithin_succ] at h ⊢
    exact h.imp_right (Or.imp_right (Or.imp_right (SubtypeRule.mono ih)))

theorem isSubtypeWithin_mono (hmn : m ≤ n) (h : env.isSubtypeWithin m s t = true) :
    env.isSubtypeWithin n s t = true := by
  induction hmn with
  | refl => exact h
  | step _ ih => exact isSubtypeWithin_mono_succ _ s t ih

theorem containsArg_mono_level {a b : Ty} (hmn : m ≤ n)
    (h : env.containsArg (env.isSubtypeWithin m) a b = true) :
    env.containsArg (env.isSubtypeWithin n) a b = true :=
  containsArg_mono (fun _ _ => isSubtypeWithin_mono hmn) h

/-! ## Any number of levels -/

section Finitary

variable (hle : ∀ s t, le s t = true → ∃ n, env.isSubtypeWithin n s t = true)
include hle

theorem ArgRule.exists_level {a b : Ty} (h : env.ArgRule le a b) :
    ∃ n, env.containsArg (env.isSubtypeWithin n) a b = true := by
  simp only [argRule_iff]
  cases h with
  | recoveryArg h => exact ⟨0, .recoveryArg h⟩
  | recoveryFormal h => exact ⟨0, .recoveryFormal h⟩
  | wild => exact ⟨0, .wild⟩
  | upper h => exact (hle _ _ h).imp fun _ => .upper
  | lowerBounds h => exact (hle _ _ h).imp fun _ => .lowerBounds
  | lower ha h => exact (hle _ _ h).imp fun _ => .lower ha
  | same hb h => exact ⟨0, .same hb h⟩

theorem exists_level_classStep {b c : ClassType} (h : env.classStep le b c = true) :
    ∃ n, env.classStep (env.isSubtypeWithin n) b c = true := by
  have hlevel : ∃ n, ∀ seen, env.view b c.id = some seen →
      (∀ p ∈ seen.args.zip c.args, env.containsArg le p.1 p.2 = true) →
      ∀ p ∈ seen.args.zip c.args, env.containsArg (env.isSubtypeWithin n) p.1 p.2 = true := by
    cases env.view b c.id with
    | none => exact ⟨0, nofun⟩
    | some seen =>
      by_cases hall : ∀ p ∈ seen.args.zip c.args, env.containsArg le p.1 p.2 = true
      · obtain ⟨n, hn⟩ := exists_common_level
          (fun n p => env.containsArg (env.isSubtypeWithin n) p.1 p.2 = true)
          (fun _ _ _ => containsArg_mono_level)
          fun p hp => (argRule_iff.mp (hall p hp)).exists_level hle
        refine ⟨n, fun seen' hseen _ => ?_⟩
        obtain rfl := Option.some.inj hseen
        exact hn
      · refine ⟨0, fun seen' hseen hall' => absurd ?_ hall⟩
        obtain rfl := Option.some.inj hseen
        exact hall'
  obtain ⟨n, hn⟩ := hlevel
  exact ⟨n, classStep_of_args h hn⟩

/-- A rule asks finitely many questions, so that one level answers all of them. -/
theorem SubtypeRule.exists_level (h : env.SubtypeRule le s t) :
    ∃ n, env.SubtypeRule (env.isSubtypeWithin n) s t := by
  cases h with
  | null ht => exact ⟨0, .null ht⟩
  | allParts hs h =>
    obtain ⟨n, hn⟩ := exists_common_level (fun n p => env.isSubtypeWithin n s p = true)
      (fun _ _ _ => isSubtypeWithin_mono) fun p hp => hle _ _ (h p hp)
    exact ⟨n, .allParts hs hn⟩
  | somePart ht hi hp h => exact (hle _ _ h).imp fun _ => .somePart ht hi hp
  | varRoot ht => exact ⟨0, .varRoot ht⟩
  | upperBound ht hi hd hb h => exact (hle _ _ h).imp fun _ => .upperBound ht hi hd hb
  | lowerBound hs hc hd hb h => exact (hle _ _ h).imp fun _ => .lowerBound hs hc hd hb
  | elements h =>
    rcases elementStep_iff.mp h with hp | ⟨hs, ht, h⟩
    · exact ⟨0, .elements (elementStep_iff.mpr (.inl hp))⟩
    · exact (hle _ _ h).imp fun _ h => .elements (elementStep_iff.mpr (.inr ⟨hs, ht, h⟩))
  | arrayClass h => exact ⟨0, .arrayClass h⟩
  | classes h => exact (exists_level_classStep hle h).imp fun _ => .classes
  | wildUpper ht hc h => exact (hle _ _ h).imp fun _ => .wildUpper ht hc
  | wildRoot ht => exact ⟨0, .wildRoot ht⟩
  | wildLowerRoot ht => exact ⟨0, .wildLowerRoot ht⟩

end Finitary

theorem relatedByRules_iff : env.RelatedByRules s t ↔ ∃ n, env.isSubtypeWithin n s t = true := by
  constructor
  · intro h
    induction h with
    | same h => exact ⟨1, isSubtypeWithin_succ.mpr (.inl h)⟩
    | recoverySub h => exact ⟨1, isSubtypeWithin_succ.mpr (.inr (.inl h))⟩
    | recoverySup h => exact ⟨1, isSubtypeWithin_succ.mpr (.inr (.inr (.inl h)))⟩
    | rule le _ h ih =>
      obtain ⟨n, hn⟩ := h.exists_level ih
      exact ⟨n + 1, isSubtypeWithin_of_rule hn⟩
  · rintro ⟨n, h⟩
    induction n generalizing s t with
    | zero => cases h
    | succ n ih =>
      rcases isSubtypeWithin_succ.mp h with heq | hs | ht | hrule
      · exact .same heq
      · exact .recoverySub hs
      · exact .recoverySup ht
      · exact .rule (env.isSubtypeWithin n) (fun _ _ => ih) hrule

/-! ## Nested arrays -/

/-- An array is found below the array of the root class that is nested as deep, if there are more
levels than that. -/
theorem isSubtypeWithin_arrays {id : ClassId} (hid : id ≠ env.wellKnown.object) (k n : Nat) :
    env.isSubtypeWithin n (Ty.arrays (.cls id []) k) (env.objectTy.arrays k) = true ↔ k < n := by
  induction n generalizing k with
  | zero => simp [isSubtypeWithin]
  | succ n ih =>
    rw [isSubtypeWithin_succ]
    cases k with
    | zero =>
      refine ⟨fun _ => Nat.succ_pos n, fun _ => .inr (.inr (.inr (.classes ?_)))⟩
      simp [classStep]
    | succ k =>
      have hne : Ty.arrays (.cls id []) k ≠ env.objectTy.arrays k := fun h =>
        hid (Ty.cls.inj (Ty.arrays_injective h)).1
      have hid' : (Ty.arrays (.cls id []) k).isPrimitive = false := Ty.isPrimitive_arrays rfl k
      have hobject : (env.objectTy.arrays k).isPrimitive = false := Ty.isPrimitive_arrays rfl k
      rw [Nat.succ_lt_succ_iff, ← ih k]
      constructor
      · rintro (heq | hrec | hrec | hrule)
        · exact absurd (Ty.array.inj heq) hne
        · cases hrec
        · cases hrec
        · cases hrule with
          | elements h =>
            rcases elementStep_iff.mp h with ⟨p, hp, -⟩ | ⟨-, -, h⟩
            · rw [hp] at hid'
              cases hid'
            · exact h
      · intro h
        exact .inr (.inr (.inr (.elements (elementStep_iff.mpr (.inr ⟨hid', hobject, h⟩)))))

/-- With more levels left, the subtype test and the containment of type arguments affirm whatever
they affirm with fewer: at depth `d` there are `33 - d` left, one more than at depth `d + 1`, or none
at either. So the limit never makes the test affirm what the rules alone do not, and there are types
that the rules relate and the test, for its limit, does not. This is so for every environment, thus
also however many steps its searches of the class hierarchy may take. -/
theorem limit_only_denies (env : Env) :
    (∀ m n, m ≤ n → ∀ s t, env.isSubtypeWithin m s t = true → env.isSubtypeWithin n s t = true) ∧
    (∀ m n, m ≤ n → ∀ arg formal, env.containsArg (env.isSubtypeWithin m) arg formal = true →
      env.containsArg (env.isSubtypeWithin n) arg formal = true) ∧
    (∀ s t, env.isSubtype s t = true → env.RelatedByRules s t) ∧
    ∃ s t, env.RelatedByRules s t ∧ env.isSubtype s t = false := by
  refine ⟨fun m n hmn s t => isSubtypeWithin_mono hmn,
    fun m n hmn arg formal => containsArg_mono_level hmn,
    fun s t h => relatedByRules_iff.mpr ⟨subtypeLevels, h⟩, ?_⟩
  have hid : (⟨env.wellKnown.object.index + 1⟩ : ClassId) ≠ env.wellKnown.object := fun h =>
    Nat.succ_ne_self _ (congrArg ClassId.index h)
  have hlevels := isSubtypeWithin_arrays hid subtypeLevels
  refine ⟨_, _, relatedByRules_iff.mpr ⟨subtypeLevels + 1, (hlevels _).mpr (Nat.lt_succ_self _)⟩, ?_⟩
  exact Bool.eq_false_iff.mpr fun h => Nat.lt_irrefl _ ((hlevels _).mp h)

end Env

end DoubleColon
