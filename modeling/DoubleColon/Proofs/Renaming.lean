import DoubleColon.Proofs.EditHistory

/-!
# Renaming back

A rename that changes a site gives it the new name and the next version and leaves all else as it
was. So it is undone by renaming back, if that changes the site again. Whether it does depends on
the name that the site has got: a keyword is never renamed, and yet it is a valid new name. A site
that has been renamed to `this` or `super` keeps that name through all further renames.
-/

set_option autoImplicit false

namespace DoubleColon

namespace Site

variable {s t : Site} {m n : String}

theorem isKeyword_ident : (Selector.ident m).isKeyword = true ↔ m = "this" ∨ m = "super" := by
  simp [Selector.isKeyword]

section

variable [Identifier.XidProperties]

/-- The renames that change a site, and what they make of it. -/
theorem rename_eq_true_iff : s.rename m = .ok (t, true) ↔
    (∃ n, s.name = .ident n ∧ n ≠ m) ∧ s.name.isKeyword = false ∧ Identifier.isValid m = true ∧
      t = s.setName (.ident m) := by
  unfold rename
  cases hname : s.name with
  | missing => simp
  | new => simp [Selector.isKeyword]
  | ident n =>
    cases hk : (Selector.ident n).isKeyword with
    | true => simp
    | false =>
      by_cases hm : n = m
      · simp [hm]
      · by_cases hv : Identifier.isValid m = true
        · simpa [hm, hv] using eq_comm
        · simp [hm, hv]

theorem rename_of_keyword (h : s.name.isKeyword = true) (m : String) :
    s.rename m = .ok (s, false) := by
  have hmissing : s.name ≠ .missing := fun he => by simp [he, Selector.isKeyword] at h
  simp [rename, h, hmissing]

theorem renames_of_keyword (h : s.name.isKeyword = true) (names : List String) :
    (names.map Edit.rename).foldl Edit.apply s = s := by
  induction names with
  | nil => rfl
  | cons m rest ih =>
    have hm : (Edit.rename m).apply s = s := by simp only [Edit.apply, rename_of_keyword h]
    rw [List.map_cons, List.foldl_cons, hm, ih]

/-- If a rename changes a site whose name was valid, renaming back restores the site, two versions
on, if and only if the site has not been renamed to a keyword. If it has, no sequence of renames
changes it any more. -/
theorem rename_back_iff (hname : s.name = .ident n) (hvalid : Identifier.isValid n = true)
    (h : s.rename m = .ok (t, true)) :
    (t.rename n = .ok ({ s with version := s.version + 2 }, true) ↔ m ≠ "this" ∧ m ≠ "super") ∧
    (m = "this" ∨ m = "super" →
      ∀ names : List String, (names.map Edit.rename).foldl Edit.apply t = t) := by
  obtain ⟨⟨n', hn', hne⟩, -, -, rfl⟩ := rename_eq_true_iff.mp h
  obtain rfl : n = n' := Selector.ident.inj (hname.symm.trans hn')
  have hback : { s with version := s.version + 2 } = (s.setName (.ident m)).setName (.ident n) := by
    cases s
    simp_all [setName, touch]
  constructor
  · rw [rename_eq_true_iff, hback, ← not_or, ← isKeyword_ident, Bool.not_eq_true]
    exact ⟨fun h => h.2.1, fun hk => ⟨⟨m, rfl, hne.symm⟩, hk, hvalid, rfl⟩⟩
  · exact fun hk => renames_of_keyword (isKeyword_ident.mpr hk)

end

/-- A detached site in a static member, renamed to an accented name and back. -/
theorem rename_back_detached :
    let s : Site :=
      { id := ⟨1⟩, version := 3, qualifier := .expr (.cls ⟨24⟩ []), name := .ident "size"
        enclosing := [.member true, .cls ⟨25⟩], attached := false }
    let t := s.setName (.ident "größe")
    s.rename "größe" = .ok (t, true) ∧
      t.rename "size" = .ok ({ s with version := 5 }, true) := by
  intro s t
  have hrename : s.rename "größe" = .ok (t, true) :=
    rename_eq_true_iff.mpr ⟨⟨"size", rfl, by decide⟩, rfl, by decide +kernel, rfl⟩
  have hback := rename_back_iff (n := "size") rfl (by decide +kernel) hrename
  exact ⟨hrename, hback.1.mpr (by decide)⟩

/-- A site that refers to `length` is renamed to `super`, and it is not renamed back. -/
theorem renamed_for_good :
    let s : Site := { id := ⟨1⟩, qualifier := .type (.cls ⟨3⟩ []), name := .ident "length" }
    let t := s.setName (.ident "super")
    Identifier.isValid "length" = true ∧ s.rename "super" = .ok (t, true) ∧
      t.rename "length" = .ok (t, false) := by
  intro s t
  have hrename : s.rename "super" = .ok (t, true) :=
    rename_eq_true_iff.mpr ⟨⟨"length", rfl, by decide⟩, rfl, by decide +kernel, rfl⟩
  exact ⟨by decide +kernel, hrename, rename_of_keyword rfl "length"⟩

end Site

end DoubleColon
