import DoubleColon.Proofs.SubtypeRules

/-!
# Names in place of classes

A class may be spelled by its name in a type and be looked up later. The subtype test looks names up
one by one, where it comes to them: a name that is the type itself, an element of an array, a part
of an intersection, a type argument or the bound of a wildcard. It does not look into type arguments
that are no wildcards. `Env.spelled` puts classes for the names that stand where the test comes to
them, a number of steps down, and types are alike if that makes one type of them.

Intersections with a part that is void, primitive or null are left as they are, and so are the type
arguments of classes that are not among given ones.
-/

set_option autoImplicit false

namespace DoubleColon

namespace Ty

/-- A type that is compared by its parts, bounds and classes, and so are its parts, if it is an
intersection, and theirs. Intersections are looked into a number of steps down. -/
def isSolid : Nat → Ty → Bool
  | n + 1, .inter parts => parts.all (isSolid n)
  | _, t => t.isComparable && !t.isInter

structure IsOutward {α : Type} (f : Ty → α) : Prop where
  named : ∀ m id args, f (.named m) = f (.cls id args)
  args : ∀ id as bs, f (.cls id as) = f (.cls id bs)
  array : ∀ s t, f (.array s) = f (.array t)
  inter : ∀ ps qs, f (.inter ps) = f (.inter qs)

theorem isOutward_isComparable : IsOutward isComparable := by
  constructor <;> intros <;> rfl

theorem isOutward_isInter : IsOutward isInter := by
  constructor <;> intros <;> rfl

theorem isOutward_isRecovery : IsOutward isRecovery := by
  constructor <;> intros <;> rfl

theorem isOutward_isPrimitive : IsOutward isPrimitive := by
  constructor <;> intros <;> rfl

theorem isOutward_isReference : IsOutward isReference := by
  constructor <;> intros <;> rfl

theorem isOutward_isCompound : IsOutward isCompound := by
  constructor <;> intros <;> rfl

theorem isSolid_of_not_inter {n : Nat} {t : Ty} (h : t.isInter = false) :
    t.isSolid n = t.isComparable := by
  cases n <;> cases t <;> simp_all [isSolid, isInter]

theorem isSolid_succ {n : Nat} {t : Ty} (h : t.isSolid n = true) : t.isSolid (n + 1) = true := by
  induction n generalizing t with
  | zero =>
    have hi : t.isInter = false := by simp_all [isSolid]
    rwa [isSolid_of_not_inter hi] at h ⊢
  | succ n ih =>
    cases hi : t.isInter with
    | false => rwa [isSolid_of_not_inter hi] at h ⊢
    | true =>
      cases t with
      | inter parts =>
        simp only [isSolid, List.all_eq_true] at h ⊢
        exact fun p hp => ih (h p hp)
      | _ => cases hi

end Ty

namespace Env

def spelledArg (env : Env) (f : Ty → Ty) : Ty → Ty
  | .wildUpper b => .wildUpper (f b)
  | .wildLower b => .wildLower (f b)
  | t => env.canonical t

/-- A type with classes put for names that stand where the subtype test comes to them, a number of
steps down. The classes whose type arguments are looked into are `shown`. -/
def spelled (env : Env) (shown : ClassId → Bool) : Nat → Ty → Ty
  | n + 1, .cls id args =>
      .cls id (if shown id then args.map (env.spelledArg (spelled env shown n)) else args)
  | n + 1, .array elem => .array (spelled env shown n elem)
  | n + 1, .inter parts =>
      .inter (if parts.all (Ty.isSolid n) then parts.map (spelled env shown n) else parts)
  | _, t => env.canonical t

def Alike (env : Env) (shown : ClassId → Bool) (n : Nat) (s t : Ty) : Prop :=
  env.spelled shown n s = env.spelled shown n t

def AlikeArg (env : Env) (shown : ClassId → Bool) (n : Nat) (a b : Ty) : Prop :=
  env.spelledArg (env.spelled shown n) a = env.spelledArg (env.spelled shown n) b

/-- The ways in which canonical types are alike: their components are, a step further down. -/
inductive Respelled (env : Env) (shown : ClassId → Bool) (n : Nat) : Ty → Ty → Prop
  | same (t : Ty) : Respelled env shown n t t
  | array {s t : Ty} (h : env.Alike shown n s t) : Respelled env shown n (.array s) (.array t)
  | inter {ps qs : List Ty} (hps : ps.all (Ty.isSolid n))
      (h : ps.map (env.spelled shown n) = qs.map (env.spelled shown n)) :
      Respelled env shown n (.inter ps) (.inter qs)
  | cls {id : ClassId} {as bs : List Ty} (hid : shown id)
      (h : as.map (env.spelledArg (env.spelled shown n)) =
        bs.map (env.spelledArg (env.spelled shown n))) :
      Respelled env shown n (.cls id as) (.cls id bs)

end Env

/-! ## What is read off from outside -/

namespace Ty.IsOutward

variable {α : Type} {f : Ty → α}

theorem canonical (hf : IsOutward f) (env : Env) (t : Ty) : f (env.canonical t) = f t := by
  cases t with
  | named m =>
    unfold Env.canonical
    dsimp only
    split
    · exact (hf.named m _ _).symm
    · rfl
  | _ => rfl

theorem spelled (hf : IsOutward f) (env : Env) (shown : ClassId → Bool) (n : Nat) (t : Ty) :
    f (env.spelled shown n t) = f t := by
  cases n with
  | zero => cases t <;> exact hf.canonical env _
  | succ n =>
    cases t with
    | cls => exact hf.args _ _ _
    | array => exact hf.array _ _
    | inter => exact hf.inter _ _
    | _ => exact hf.canonical env _

end Ty.IsOutward

namespace Env

variable {env : Env} {shown : ClassId → Bool} {n : Nat} {s t a b : Ty}

theorem eq_of_canonical {u : Ty} (h : env.canonical t = u) (hu : ∀ id, u ≠ .cls id []) : t = u := by
  cases t with
  | named n =>
    unfold canonical at h
    dsimp only at h
    split at h
    · exact absurd h.symm (hu _)
    · exact h
  | _ => exact h

theorem spelled_zero : env.spelled shown 0 t = env.canonical t := by
  cases t <;> rfl

theorem alike_zero : env.Alike shown 0 s t ↔ env.canonical s = env.canonical t := by
  rw [Alike, spelled_zero, spelled_zero]

theorem spelled_canonical : env.spelled shown n (env.canonical t) = env.spelled shown n t := by
  cases n with
  | zero => rw [spelled_zero, spelled_zero, canonical_canonical]
  | succ n =>
    cases t with
    | named m =>
      cases hm : env.lookup m with
      | none => simp [canonical, hm]
      | some id => cases hs : shown id <;> simp [spelled, canonical, hm, hs]
    | _ => rfl

theorem alike_canonical : env.Alike shown n (env.canonical s) (env.canonical t) ↔
    env.Alike shown n s t := by
  rw [Alike, spelled_canonical, spelled_canonical, Alike]

theorem alike_of_canonical_eq (h : env.canonical s = env.canonical t) : env.Alike shown n s t := by
  rw [← alike_canonical, h, Alike]

theorem isSolid_spelled : (env.spelled shown n t).isSolid n = t.isSolid n := by
  have hinter := Ty.isOutward_isInter.spelled env shown
  have hcomparable := Ty.isOutward_isComparable.spelled env shown
  induction n generalizing t with
  | zero => simp only [Ty.isSolid, hcomparable, hinter]
  | succ n ih =>
    cases hi : t.isInter with
    | false =>
      rw [Ty.isSolid_of_not_inter hi, Ty.isSolid_of_not_inter ((hinter _ t).trans hi), hcomparable]
    | true =>
      cases t with
      | inter parts =>
        cases hall : parts.all (Ty.isSolid n) with
        | true => simp [spelled, Ty.isSolid, hall, Function.comp_def, ih]
        | false => simp only [spelled, hall, Ty.isSolid, Bool.false_eq_true, if_false]
      | _ => cases hi

theorem Alike.outward {α : Type} {f : Ty → α} (hf : Ty.IsOutward f) (h : env.Alike shown n s t) :
    f s = f t := by
  rw [← hf.spelled env shown n s, h, hf.spelled]

theorem Alike.isSolid (h : env.Alike shown n s t) : s.isSolid n = t.isSolid n := by
  rw [← @isSolid_spelled env shown n s, h, isSolid_spelled]

/-! ## Spelling twice -/

theorem spelledArg_canonical (f : Ty → Ty) :
    env.spelledArg f (env.canonical a) = env.spelledArg f a := by
  cases a with
  | named m =>
    cases hm : env.lookup m <;> simp [canonical, spelledArg, hm]
  | _ => rfl

theorem spelledArg_spelledArg {f : Ty → Ty} (hf : ∀ t, f (f t) = f t) (a : Ty) :
    env.spelledArg f (env.spelledArg f a) = env.spelledArg f a := by
  cases a with
  | wildUpper b => exact congrArg Ty.wildUpper (hf b)
  | wildLower b => exact congrArg Ty.wildLower (hf b)
  | named m => exact spelledArg_canonical (a := .named m) f
  | _ => rfl

theorem spelled_spelled : env.spelled shown n (env.spelled shown n t) = env.spelled shown n t := by
  induction n generalizing t with
  | zero => rw [spelled_zero, spelled_zero, canonical_canonical]
  | succ n ih =>
    cases t with
    | cls id args =>
      cases hid : shown id with
      | true =>
        have hargs := @spelledArg_spelledArg env (env.spelled shown n) fun _ => ih
        simp [spelled, hid, hargs]
      | false => simp [spelled, hid]
    | array elem => exact congrArg Ty.array ih
    | inter parts =>
      cases hall : parts.all (Ty.isSolid n) with
      | true => simp [spelled, hall, Function.comp_def, isSolid_spelled, ih]
      | false => simp [spelled, hall]
    | named m => exact spelled_canonical
    | _ => rfl

theorem alike_spelled : env.Alike shown n t (env.spelled shown n t) := spelled_spelled.symm

/-! ## Components -/

theorem forall₂_map_eq {g : Ty → Ty} {as bs : List Ty} :
    List.Forall₂ (fun a b => g a = g b) as bs ↔ as.map g = bs.map g := by
  rw [← List.forall₂_eq_eq_eq, List.forall₂_map_left_iff, List.forall₂_map_right_iff]

theorem length_eq_of_map_eq {g : Ty → Ty} {as bs : List Ty} (h : as.map g = bs.map g) :
    as.length = bs.length := by
  simpa using congrArg List.length h

theorem isEmpty_eq_of_map_eq {g : Ty → Ty} {as bs : List Ty} (h : as.map g = bs.map g) :
    as.isEmpty = bs.isEmpty := by
  simpa using congrArg List.isEmpty h

theorem spelledArg_eq_iff {f : Ty → Ty} : env.spelledArg f a = env.spelledArg f b ↔
    env.canonical a = env.canonical b ∨
    (∃ s t, a = .wildUpper s ∧ b = .wildUpper t ∧ f s = f t) ∨
    ∃ s t, a = .wildLower s ∧ b = .wildLower t ∧ f s = f t := by
  constructor
  · intro h
    cases a with
    | wildUpper s =>
      cases b with
      | wildUpper t => exact .inr (.inl ⟨s, t, rfl, rfl, Ty.wildUpper.inj h⟩)
      | named m => exact nomatch eq_of_canonical (t := .named m) h.symm nofun
      | _ => cases h
    | wildLower s =>
      cases b with
      | wildLower t => exact .inr (.inr ⟨s, t, rfl, rfl, Ty.wildLower.inj h⟩)
      | named m => exact nomatch eq_of_canonical (t := .named m) h.symm nofun
      | _ => cases h
    | named m =>
      cases b with
      | wildUpper | wildLower => exact nomatch eq_of_canonical (t := .named m) h nofun
      | _ => exact .inl h
    | _ =>
      cases b with
      | wildUpper | wildLower => cases h
      | _ => exact .inl h
  · rintro (h | ⟨s, t, rfl, rfl, h⟩ | ⟨s, t, rfl, rfl, h⟩)
    · rw [← spelledArg_canonical, h, spelledArg_canonical]
    · exact congrArg Ty.wildUpper h
    · exact congrArg Ty.wildLower h

theorem all_isSolid_of_map_eq {ps qs : List Ty}
    (h : ps.map (env.spelled shown n) = qs.map (env.spelled shown n)) :
    ps.all (Ty.isSolid n) = qs.all (Ty.isSolid n) := by
  have hall : ∀ ts : List Ty,
      (ts.map (env.spelled shown n)).all (Ty.isSolid n) = ts.all (Ty.isSolid n) := by
    simp [Function.comp_def, isSolid_spelled]
  rw [← hall ps, h, hall]

theorem exists_alike_of_map_eq {ps qs : List Ty}
    (h : ps.map (env.spelled shown n) = qs.map (env.spelled shown n)) {q : Ty} (hq : q ∈ qs) :
    ∃ p ∈ ps, env.Alike shown n p q :=
  List.mem_map.mp (h ▸ List.mem_map_of_mem hq)

theorem respelled_cls {id id' : ClassId} {as bs : List Ty}
    (h : env.Alike shown (n + 1) (.cls id as) (.cls id' bs)) :
    env.Respelled shown n (.cls id as) (.cls id' bs) := by
  obtain ⟨rfl, hargs⟩ := Ty.cls.inj h
  cases hid : shown id with
  | true => exact .cls hid (by simpa [hid] using hargs)
  | false =>
    obtain rfl : as = bs := by simpa [hid] using hargs
    exact .same _

theorem respelled_inter {ps qs : List Ty} (h : env.Alike shown (n + 1) (.inter ps) (.inter qs)) :
    env.Respelled shown n (.inter ps) (.inter qs) := by
  have hsolid : ps.all (Ty.isSolid n) = qs.all (Ty.isSolid n) := h.isSolid
  have hparts := Ty.inter.inj h
  rw [← hsolid] at hparts
  cases hps : ps.all (Ty.isSolid n) with
  | true =>
    rw [hps] at hparts
    exact .inter hps hparts
  | false =>
    rw [hps] at hparts
    obtain rfl : ps = qs := hparts
    exact .same _

theorem Respelled.alike (h : env.Respelled shown n s t) : env.Alike shown (n + 1) s t := by
  cases h with
  | same => rfl
  | array h => exact congrArg Ty.array h
  | inter hps h =>
    simp only [Alike, spelled, hps, (all_isSolid_of_map_eq h).symm.trans hps, if_true, h]
  | cls hid h => simp only [Alike, spelled, hid, if_true, h]

/-- Types are alike exactly if their components are, a step further down. -/
theorem alike_succ : env.Alike shown (n + 1) s t ↔
    env.Respelled shown n (env.canonical s) (env.canonical t) := by
  rw [← alike_canonical]
  have hs := env.canonical_canonical s
  have ht := env.canonical_canonical t
  generalize env.canonical s = u at hs ⊢
  generalize env.canonical t = v at ht ⊢
  refine ⟨fun h => ?_, Respelled.alike⟩
  cases u with
  | cls =>
    cases v with
    | cls => exact respelled_cls h
    | _ => simp [Alike, spelled, ht] at h
  | array =>
    cases v with
    | array => exact .array (Ty.array.inj h)
    | _ => simp [Alike, spelled, ht] at h
  | inter =>
    cases v with
    | inter => exact respelled_inter h
    | _ => simp [Alike, spelled, ht] at h
  | _ =>
    -- Such a type is left as it is, and so is what is spelled as it is.
    have hv : env.spelled shown (n + 1) v = v := by
      cases v with
      | cls | array | inter => simp [Alike, spelled, hs] at h
      | _ => exact ht
    rw [Alike, hv] at h
    rw [← hs.symm.trans h]
    exact .same _

/-- Types that are alike stay so if names are replaced further down. -/
theorem Alike.succ (h : env.Alike shown n s t) : env.Alike shown (n + 1) s t := by
  induction n generalizing s t with
  | zero => exact alike_of_canonical_eq (alike_zero.mp h)
  | succ n ih =>
    have hcomponents := alike_succ.mp h
    refine alike_succ.mpr ?_
    generalize env.canonical s = u at hcomponents ⊢
    generalize env.canonical t = v at hcomponents ⊢
    cases hcomponents with
    | same => exact .same _
    | array h => exact .array (ih h)
    | inter hps h =>
      refine .inter ?_ (forall₂_map_eq.mp ((forall₂_map_eq.mpr h).imp fun _ _ => ih))
      exact List.all_eq_true.mpr fun p hp => Ty.isSolid_succ (List.all_eq_true.mp hps p hp)
    | cls hid h =>
      refine .cls hid (forall₂_map_eq.mp ((forall₂_map_eq.mpr h).imp fun a b hab => ?_))
      rw [spelledArg_eq_iff] at hab ⊢
      exact hab.imp_right (Or.imp
        (fun ⟨s, t, ha, hb, hst⟩ => ⟨s, t, ha, hb, ih hst⟩)
        fun ⟨s, t, ha, hb, hst⟩ => ⟨s, t, ha, hb, ih hst⟩)

theorem Alike.respelled (h : env.Alike shown n s t) :
    env.Respelled shown n (env.canonical s) (env.canonical t) :=
  alike_succ.mp h.succ

end Env

end DoubleColon
