import DoubleColon.Ty

/-!
# Substitutions

A substitution maps finitely many type variables to types. It is stored with its variables
strictly ascending, so two substitutions are equal exactly if they map alike
(`Substitution.ext_get?`), and a listing of one is in ascending order.

`updateWith` lets its argument win, `under` the base it is laid under; both are described by what
they map. `apply` replaces all variables at once.
-/

set_option autoImplicit false

namespace DoubleColon

structure Substitution where
  entries : List (TypeVar × Ty)
  ascending : entries.Pairwise fun a b => a.1.index < b.1.index
  deriving DecidableEq

namespace Substitution

def find? (v : TypeVar) : List (TypeVar × Ty) → Option Ty
  | [] => none
  | e :: rest => if e.1 = v then some e.2 else find? v rest

def enter (v : TypeVar) (t : Ty) : List (TypeVar × Ty) → List (TypeVar × Ty)
  | [] => [(v, t)]
  | e :: rest =>
      if v.index < e.1.index then (v, t) :: e :: rest
      else if v = e.1 then (v, t) :: rest
      else e :: enter v t rest

theorem mem_enter {v : TypeVar} {t : Ty} {l : List (TypeVar × Ty)} {e : TypeVar × Ty}
    (h : e ∈ enter v t l) : e = (v, t) ∨ e ∈ l := by
  induction l with
  | nil => simpa [enter] using h
  | cons a rest ih =>
    simp only [enter] at h
    split at h
    · simpa using h
    · split at h
      · rcases List.mem_cons.1 h with h | h
        · exact .inl h
        · exact .inr (List.mem_cons_of_mem _ h)
      · rcases List.mem_cons.1 h with h | h
        · exact .inr (h ▸ List.mem_cons_self)
        · exact (ih h).imp id (List.mem_cons_of_mem _)

theorem enter_ascending (v : TypeVar) (t : Ty) (l : List (TypeVar × Ty))
    (h : l.Pairwise fun a b => a.1.index < b.1.index) :
    (enter v t l).Pairwise fun a b => a.1.index < b.1.index := by
  induction l with
  | nil => simp [enter]
  | cons a rest ih =>
    obtain ⟨ha, hr⟩ := List.pairwise_cons.1 h
    simp only [enter]
    split
    · rename_i hlt
      refine List.pairwise_cons.2 ⟨fun b hb => ?_, h⟩
      rcases List.mem_cons.1 hb with rfl | hb
      · exact hlt
      · exact Nat.lt_trans hlt (ha b hb)
    · split
      · rename_i hva
        exact List.pairwise_cons.2 ⟨fun b hb => by simpa [hva] using ha b hb, hr⟩
      · rename_i hlt hne
        refine List.pairwise_cons.2 ⟨fun b hb => ?_, ih hr⟩
        rcases mem_enter hb with rfl | hb
        · have : v.index ≠ a.1.index := fun he => hne (by cases v; cases ha : a.1; simp_all)
          exact Nat.lt_of_le_of_ne (Nat.le_of_not_lt hlt) this.symm
        · exact ha b hb

theorem find?_enter (v w : TypeVar) (t : Ty) (l : List (TypeVar × Ty)) :
    find? w (enter v t l) = if v = w then some t else find? w l := by
  induction l with
  | nil => simp [enter, find?]
  | cons a rest ih =>
    simp only [enter]
    split
    · simp [find?]
    · split
      · rename_i h
        by_cases hw : v = w <;> simp_all [find?]
      · by_cases hw : v = w <;> by_cases ha : a.1 = w <;> simp_all [find?]

def empty : Substitution := ⟨[], .nil⟩

instance : EmptyCollection Substitution := ⟨empty⟩

instance : Inhabited Substitution := ⟨empty⟩

def get? (s : Substitution) (v : TypeVar) : Option Ty := find? v s.entries

def contains (s : Substitution) (v : TypeVar) : Bool := (s.get? v).isSome

def isEmpty (s : Substitution) : Bool := s.entries.isEmpty

def size (s : Substitution) : Nat := s.entries.length

def insert (s : Substitution) (v : TypeVar) (t : Ty) : Substitution :=
  ⟨enter v t s.entries, enter_ascending v t s.entries s.ascending⟩

def insertAll (s : Substitution) : List (TypeVar × Ty) → Substitution
  | [] => s
  | e :: rest => (s.insert e.1 e.2).insertAll rest

def ofList (l : List (TypeVar × Ty)) : Substitution := empty.insertAll l

/-- All mappings of both, those of `other` where they conflict. -/
def updateWith (s other : Substitution) : Substitution := s.insertAll other.entries

def completeWith (base : Substitution) : List (TypeVar × Ty) → Substitution
  | [] => base
  | e :: rest => completeWith (if base.contains e.1 then base else base.insert e.1 e.2) rest

/-- All mappings of both, those of `base` where they conflict. -/
def under (s base : Substitution) : Substitution := base.completeWith s.entries

def omits (s : Substitution) (params : List TypeVar) : Bool :=
  !params.isEmpty && params.all fun p => !s.contains p

@[simp] theorem get?_empty (v : TypeVar) : get? {} v = none := rfl

@[simp] theorem get?_insert (s : Substitution) (v w : TypeVar) (t : Ty) :
    (s.insert v t).get? w = if v = w then some t else s.get? w :=
  find?_enter v w t s.entries

theorem mem_of_find?_eq_some {l : List (TypeVar × Ty)} {v : TypeVar} {t : Ty}
    (h : find? v l = some t) : (v, t) ∈ l := by
  induction l with
  | nil => simp [find?] at h
  | cons a rest ih =>
    simp only [find?] at h
    split at h
    · rename_i hav
      cases a
      simp_all
    · exact List.mem_cons_of_mem _ (ih h)

theorem get?_insertAll (s : Substitution) (l : List (TypeVar × Ty))
    (h : l.Pairwise fun a b => a.1.index < b.1.index) (v : TypeVar) :
    (s.insertAll l).get? v = (find? v l).or (s.get? v) := by
  induction l generalizing s with
  | nil => simp [insertAll, find?]
  | cons a rest ih =>
    obtain ⟨ha, hr⟩ := List.pairwise_cons.1 h
    rw [insertAll, ih _ hr, get?_insert]
    by_cases hav : a.1 = v
    · have hnone : find? v rest = none := by
        cases hf : find? v rest with
        | none => rfl
        | some t =>
          have := ha _ (mem_of_find?_eq_some hf)
          simp [hav] at this
      simp [find?, hav, hnone]
    · simp [find?, hav]

theorem get?_updateWith (s other : Substitution) (v : TypeVar) :
    (s.updateWith other).get? v = (other.get? v).or (s.get? v) :=
  get?_insertAll s other.entries other.ascending v

theorem get?_completeWith (base : Substitution) (l : List (TypeVar × Ty)) (v : TypeVar) :
    (base.completeWith l).get? v = (base.get? v).or (find? v l) := by
  induction l generalizing base with
  | nil => simp [completeWith, find?]
  | cons a rest ih =>
    rw [completeWith, ih]
    by_cases hc : base.contains a.1 <;> by_cases hav : a.1 = v
    · subst hav
      obtain ⟨t, ht⟩ := Option.isSome_iff_exists.1 hc
      simp [hc, ht]
    · simp [hc, find?, hav]
    · subst hav
      have hn : base.get? a.1 = none := by simpa [contains] using hc
      simp [hc, find?, hn]
    · simp [hc, find?, hav]

theorem get?_under (s base : Substitution) (v : TypeVar) :
    (s.under base).get? v = (base.get? v).or (s.get? v) :=
  get?_completeWith base s.entries v

theorem entries_ext {l m : List (TypeVar × Ty)}
    (hl : l.Pairwise fun a b => a.1.index < b.1.index)
    (hm : m.Pairwise fun a b => a.1.index < b.1.index)
    (h : ∀ v, find? v l = find? v m) : l = m := by
  induction l generalizing m with
  | nil =>
    cases m with
    | nil => rfl
    | cons b m => simpa [find?] using h b.1
  | cons a l ih =>
    obtain ⟨ha, hl'⟩ := List.pairwise_cons.1 hl
    cases m with
    | nil => simpa [find?] using h a.1
    | cons b m =>
      obtain ⟨hb, hm'⟩ := List.pairwise_cons.1 hm
      have hab : a.1 = b.1 := by
        have h1 : (a.1, a.2) ∈ b :: m := mem_of_find?_eq_some (by rw [← h a.1]; simp [find?])
        have h2 : (b.1, b.2) ∈ a :: l := mem_of_find?_eq_some (by rw [h b.1]; simp [find?])
        rcases List.mem_cons.1 h1 with h1 | h1
        · exact congrArg Prod.fst h1
        · rcases List.mem_cons.1 h2 with h2 | h2
          · exact (congrArg Prod.fst h2).symm
          · exact absurd (ha _ h2) (Nat.lt_asymm (hb _ h1))
      have hval : a = b := by
        have := h a.1
        simp only [find?, hab, if_true] at this
        cases a; cases b
        simp_all
      subst hval
      refine congrArg (a :: ·) (ih hl' hm' fun v => ?_)
      by_cases hv : a.1 = v
      · have hn : ∀ (k : List (TypeVar × Ty)), (∀ e ∈ k, a.1.index < e.1.index) →
            find? v k = none := fun k hk => by
          cases hf : find? v k with
          | none => rfl
          | some t =>
            have := hk _ (mem_of_find?_eq_some hf)
            simp [hv] at this
        rw [hn l ha, hn m hb]
      · simpa [find?, hv] using h v

theorem ext_get? {s t : Substitution} (h : ∀ v, s.get? v = t.get? v) : s = t := by
  cases s with
  | mk l hl =>
    cases t with
    | mk m hm =>
      obtain rfl : l = m := entries_ext hl hm h
      rfl

mutual

/-- Replace every variable that is mapped; the images are not looked into again. -/
def apply (s : Substitution) : Ty → Ty
  | .var v => (s.get? v).getD (.var v)
  | .cls id args => .cls id (applyAll s args)
  | .array elem => .array (apply s elem)
  | .wildUpper b => .wildUpper (apply s b)
  | .wildLower b => .wildLower (apply s b)
  | .inter parts => .inter (applyAll s parts)
  | .void => .void
  | .prim p => .prim p
  | .wild => .wild
  | .named n => .named n
  | .null => .null
  | .unknown => .unknown
  | .error => .error

def applyAll (s : Substitution) : List Ty → List Ty
  | [] => []
  | t :: rest => apply s t :: applyAll s rest

end

@[simp] theorem applyAll_eq_map (s : Substitution) (l : List Ty) :
    s.applyAll l = l.map s.apply := by
  induction l with
  | nil => rfl
  | cons t rest ih => simp [applyAll, ih]

theorem apply_empty (t : Ty) : apply {} t = t := by
  induction t using Ty.inductionOn with
  | cls id args ih => simp [apply, List.map_congr_left ih]
  | inter parts ih => simp [apply, List.map_congr_left ih]
  | _ => simp_all [apply]

end Substitution

end DoubleColon
