import DoubleColon.Env.Standard
import DoubleColon.Proofs.BreadthFirst

/-!
# The type arguments of reported members

There are two ways from a class type to its supertypes. A walk for members goes from class to
class and carries the type arguments of each as a substitution; viewing a class type as an
instance of a class is a search that goes from class type to class type. If declared supertypes
are class types with no type arguments or as many as their class has, both agree: a reported
method has the type arguments with which its class is seen from the class type.
-/

set_option autoImplicit false

namespace DoubleColon

/-! ## Substitutions of type arguments -/

namespace Substitution

theorem contains_insertAll {s : Substitution} {l : List (TypeVar × Ty)} {v : TypeVar} :
    (s.insertAll l).contains v = true ↔ s.contains v = true ∨ v ∈ l.map Prod.fst := by
  induction l generalizing s with
  | nil => simp [insertAll]
  | cons e rest ih =>
    rw [insertAll, ih]
    by_cases h : e.1 = v
    · simp [contains, h]
    · have h' : v ≠ e.1 := fun he => h he.symm
      simp [contains, h, h']

theorem ofArgs_nil (d : ClassDecl) : ofArgs d [] = {} := by
  unfold ofArgs
  rw [List.zip_nil_right]
  exact ite_self _

end Substitution

def ClassDecl.Suits (d : ClassDecl) (args : List Ty) : Prop :=
  args = [] ∨ args.length = d.typeParams.length

theorem ClassDecl.Suits.nil (d : ClassDecl) : d.Suits [] := .inl rfl

theorem ClassDecl.Suits.map {d : ClassDecl} {args : List Ty} (h : d.Suits args) (f : Ty → Ty) :
    d.Suits (args.map f) := by
  rcases h with rfl | h
  · exact .nil d
  · exact .inr ((List.length_map f).trans h)

theorem omits_ofArgs {d : ClassDecl} {args : List Ty} (h : d.Suits args) :
    (Substitution.ofArgs d args).omits d.typeParams = (args.isEmpty && !d.typeParams.isEmpty) := by
  cases args with
  | nil =>
    rw [Substitution.ofArgs_nil]
    cases d.typeParams <;> simp [Substitution.omits, Substitution.contains]
  | cons a args =>
    have hlen : (a :: args).length = d.typeParams.length := h.resolve_left (List.cons_ne_nil a args)
    cases hp : d.typeParams with
    | nil => simp [hp] at hlen
    | cons p ps =>
      have hc : (Substitution.ofArgs d (a :: args)).contains p = true := by
        rw [Substitution.ofArgs, if_pos hlen, Substitution.ofList,
          Substitution.contains_insertAll, hp]
        simp
      simp [Substitution.omits, hc]

namespace Env

variable {env : Env}

/-! ## No walk is cut off -/

def leads (env : Env) (id : ClassId) : Nat :=
  match env.class? id with
  | some d => d.supertypes.length + 1
  | none => 0

theorem length_superclasses_le (env : Env) (k : SeenClass) :
    (env.superclasses k).length ≤ env.leads k.1 := by
  unfold superclasses leads
  cases env.class? k.1 with
  | none => exact Nat.le_refl _
  | some d =>
    dsimp only
    rw [List.length_append]
    refine Nat.add_le_add (List.length_filterMap_le _ _) ?_
    split <;> simp

theorem pending_leads {ds : List ClassDecl} {first : Nat}
    (h : ∀ i d, ds[i]? = some d → env.leads ⟨first + i⟩ = d.supertypes.length + 1) :
    Hierarchy.pending env.leads [] ((List.range' first ds.length).map ClassId.mk) + 1 =
      ds.foldr (fun d n => d.supertypes.length + 1 + n) 1 := by
  induction ds generalizing first with
  | nil => rfl
  | cons d ds ih =>
    have hd : env.leads ⟨first⟩ = d.supertypes.length + 1 := h 0 d rfl
    have ih := @ih (first + 1) fun i e he => by
      have hnext := h (i + 1) e he
      rwa [Nat.add_comm i 1, ← Nat.add_assoc] at hnext
    rw [List.length_cons, List.range'_succ, List.map_cons, Hierarchy.pending, List.foldr_cons, ← ih,
      hd, if_neg List.not_mem_nil]
    omega

theorem visits_seenClasses (env : Env) (k : SeenClass) :
    Hierarchy.visits Prod.fst env.superclasses env.walkLimit [] [k] =
      some (env.seenClasses k) := by
  let ids := (List.range' 0 env.classes.length).map ClassId.mk
  have hlimit : Hierarchy.pending env.leads [] ids + 1 = env.walkLimit := by
    refine pending_leads fun i d hi => ?_
    rw [Nat.zero_add]
    simp [leads, class?, hi]
  have hids : ∀ j : SeenClass, j.1 ∉ ids → env.superclasses j = [] := by
    intro j hj
    have hlen : env.classes.length ≤ j.1.index := by
      by_contra hlt
      refine hj (List.mem_map.mpr ⟨j.1.index, ?_, rfl⟩)
      simp only [List.mem_range'_1]
      omega
    have hn : env.class? j.1 = none := by simp [class?, hlen]
    simp [superclasses, hn]
  have hroom : [k].length + Hierarchy.pending env.leads [] ids ≤ env.walkLimit := by
    rw [List.length_singleton]
    omega
  obtain ⟨out, hout⟩ := Hierarchy.exists_visits (length_superclasses_le env) hids hroom
  rw [hout, seenClasses, hout]
  rfl

/-! ## The walk and the search -/

/-- Declared supertypes are class types, or names of classes that are known, with no type
arguments or as many as the class has parameters. -/
def DeclaresClassTypes (env : Env) : Prop :=
  ∀ id d t, env.class? id = some d → t ∈ d.supertypes → ∃ super args,
    env.canonical t = .cls super args ∧ ∀ e, env.class? super = some e → e.Suits args

def SuitsSupertypes (env : Env) : Prop :=
  ∀ id d t, env.class? id = some d → t ∈ d.supertypes →
    (∃ super args, env.canonical t = .cls super args ∧
      ∀ e, env.class? super = some e → e.Suits args) ∨
    ∃ n, t = .named n ∧ env.lookup n = none

theorem DeclaresClassTypes.suits (h : env.DeclaresClassTypes) : env.SuitsSupertypes :=
  fun id d t hd ht => .inl (h id d t hd ht)

theorem canonical_apply (s : Substitution) {t : Ty} {id : ClassId} {args : List Ty}
    (h : env.canonical t = .cls id args) :
    env.canonical (s.apply t) = .cls id (args.map s.apply) := by
  cases t with
  | cls id' args' =>
    obtain ⟨rfl, rfl⟩ : id' = id ∧ args' = args := by simpa [canonical] using h
    simp [Substitution.apply, canonical]
  | named n =>
    unfold canonical at h
    dsimp only at h
    cases hn : env.lookup n with
    | none => simp [hn] at h
    | some k =>
      obtain ⟨rfl, rfl⟩ : k = id ∧ [] = args := by simpa [hn] using h
      simp [Substitution.apply, canonical, hn]
  | _ => simp [canonical] at h

theorem canonical_apply_unknown (s : Substitution) {n : String} (h : env.lookup n = none) :
    env.canonical (s.apply (.named n)) = .named n := by
  simp [Substitution.apply, canonical, h]

structure SeenAs (env : Env) (k : SeenClass) (c : ClassType) : Prop where
  cls : k.1 = c.id
  args : ∀ d, env.class? c.id = some d → k.2 = .ofArgs d c.args ∧ d.Suits c.args

/-- What follows a class and the class type that it is seen as follows in the same order. -/
theorem SeenAs.next (hd : env.SuitsSupertypes) {k : SeenClass} {c : ClassType}
    (h : env.SeenAs k c) :
    List.Forall₂ env.SeenAs (env.superclasses k) (env.directSupertypes c) := by
  unfold superclasses directSupertypes
  rw [h.cls]
  cases hc : env.class? c.id with
  | none => exact .nil
  | some d =>
    obtain ⟨hk, hsuits⟩ := h.args d hc
    dsimp only
    rw [hk, omits_ofArgs hsuits]
    refine List.rel_append ?_ ?_
    · have hsame : List.Forall₂ (fun t u => t = u ∧ t ∈ d.supertypes) d.supertypes d.supertypes :=
        List.forall₂_same.mpr fun t ht => ⟨rfl, ht⟩
      refine List.rel_filterMap ?_ hsame
      rintro t _ ⟨rfl, ht⟩
      obtain ⟨super, args, ht, hargs⟩ | ⟨n, rfl, hn⟩ := hd c.id d t hc ht
      · simp only [canonical_apply _ ht]
        cases hs : env.class? super with
        | none => exact .some ⟨rfl, fun e he => by simp [hs] at he⟩
        | some e =>
          refine .some ⟨rfl, fun e' he => ?_⟩
          obtain rfl : e = e' := Option.some.inj (hs.symm.trans he)
          by_cases hraw : (c.args.isEmpty && !d.typeParams.isEmpty) = true
          · simp only [hraw, if_true]
            exact ⟨(Substitution.ofArgs_nil e).symm, .nil e⟩
          · simp only [hraw]
            exact ⟨rfl, (hargs e hs).map _⟩
      · simp only [canonical_apply_unknown _ hn]
        exact .none
    · split
      · have hobject : env.SeenAs (env.wellKnown.object, {}) ⟨env.wellKnown.object, []⟩ :=
          ⟨rfl, fun e _ => ⟨(Substitution.ofArgs_nil e).symm, .nil e⟩⟩
        exact .cons hobject .nil
      · exact .nil

theorem ids_directSupertypes (hd : env.SuitsSupertypes) {b c : ClassType} (h : b.id = c.id) :
    (env.directSupertypes b).map ClassType.id = (env.directSupertypes c).map ClassType.id := by
  unfold directSupertypes
  rw [h]
  cases hc : env.class? c.id with
  | none => rfl
  | some d =>
    dsimp only
    rw [List.map_append, List.map_append]
    congr 1
    rw [List.map_filterMap, List.map_filterMap]
    refine List.filterMap_congr fun t ht => ?_
    obtain ⟨super, args, ht, -⟩ | ⟨n, rfl, hn⟩ := hd c.id d t hc ht
    · rw [canonical_apply _ ht, canonical_apply _ ht]
      rfl
    · rw [canonical_apply_unknown _ hn, canonical_apply_unknown _ hn]

theorem walk_corresponds (hd : env.SuitsSupertypes) :
    Hierarchy.Corresponds Prod.fst env.superclasses ClassType.id env.directSupertypes
      env.SeenAs where
  key_eq := SeenAs.cls
  next_same := SeenAs.next hd
  keys_next := ids_directSupertypes hd

/-- A class that is met on a walk is found by the search for it, with the same type arguments. -/
theorem found_of_met (hd : env.SuitsSupertypes) {k : SeenClass} {c : ClassType}
    (h : env.SeenAs k c) {seen : SeenClass} (hs : seen ∈ env.seenClasses k)
    (hend : env.search c seen.1 ≠ .exhausted) :
    ∃ b, env.search c seen.1 = .found b ∧ env.SeenAs seen b := by
  have hstep : Hierarchy.InStep ClassType.id env.directSupertypes env.SeenAs [] [k] [] [c] :=
    ⟨.both h (.nil _), fun _ hb => (nomatch hb), fun _ hb => (nomatch hb)⟩
  exact Hierarchy.found_of_visited (walk_corresponds hd) hstep (env.visits_seenClasses k) hs hend

theorem found_of_seen (hd : env.DeclaresClassTypes) {k : SeenClass} {c : ClassType}
    (h : env.SeenAs k c) {seen : SeenClass} (hs : seen ∈ env.seenClasses k)
    (hend : env.search c seen.1 ≠ .exhausted) :
    ∃ b, env.search c seen.1 = .found b ∧ env.SeenAs seen b :=
  found_of_met hd.suits h hs hend

/-- A method that a walk of a class type reports has the type arguments that its class is seen with
from the class type, as long as the search for that view ends. -/
theorem walk_agrees_with_view (hd : env.DeclaresClassTypes) {r : WalkRequest} {d : ClassDecl}
    {args : List Ty} (hr : env.class? r.cls = some d) (hargs : d.Suits args)
    (hsubst : r.subst = .ofArgs d args) (hf : r.filter.constructors = false) {c : Candidate}
    (hc : c ∈ (env.memberPlan r).reported)
    (hend : env.search ⟨r.cls, args⟩ c.member.owner ≠ .exhausted) :
    ∃ e bs, env.class? c.member.owner = some e ∧
      env.asSuper (.cls r.cls args) c.member.owner = some (.cls c.member.owner bs) ∧
      c.subst = .ofArgs e bs := by
  obtain ⟨k, hk, m, hm, rfl, -⟩ := exists_of_reported hf hc
  obtain ⟨hcls, hsub, e, he, -⟩ := mem_seenMethods.mp hm
  have howner : (env.methodCandidate r m).member.owner = k.1 := hcls
  rw [howner] at hend ⊢
  have hstart : env.SeenAs (r.cls, r.subst) ⟨r.cls, args⟩ := by
    refine ⟨rfl, fun d' hd' => ?_⟩
    obtain rfl : d = d' := Option.some.inj (hr.symm.trans hd')
    exact ⟨hsubst, hargs⟩
  obtain ⟨⟨id, bs⟩, hfound, hseen⟩ := found_of_seen hd hstart hk hend
  obtain rfl : k.1 = id := hseen.cls
  refine ⟨e, bs, he, ?_, hsub.trans (hseen.args e he).1⟩
  have hview : env.view ⟨r.cls, args⟩ k.1 = some ⟨k.1, bs⟩ := by
    rw [view, hfound]
    rfl
  exact congrArg (Option.map ClassType.toTy) hview

/-! ## The standard environment -/

def isClassType (env : Env) (t : Ty) : Bool :=
  match env.canonical t with
  | .cls super args => (env.class? super).all fun e =>
      args.isEmpty || args.length = e.typeParams.length
  | _ => false

theorem declaresClassTypes_of_all
    (h : env.classes.all fun d => d.supertypes.all env.isClassType) : env.DeclaresClassTypes := by
  intro id d t hd ht
  have hmem : d ∈ env.classes := List.mem_of_getElem? hd
  have hclass := List.all_eq_true.mp (List.all_eq_true.mp h d hmem) t ht
  unfold isClassType at hclass
  split at hclass
  · rename_i super args hcanonical
    refine ⟨super, args, hcanonical, fun e he => ?_⟩
    simpa [he, ClassDecl.Suits] using hclass
  · cases hclass

def operatorApply : Candidate where
  member := .method Standard.function 0
  subst := .ofList [(⟨1⟩, Standard.stringTy), (⟨2⟩, Standard.stringTy)]
  isStatic := false
  isAccessible := true
  isVarargs := false
  inScope := true

theorem walk_agrees_with_view_operator : ∃ e bs, standard.class? Standard.function = some e ∧
    standard.asSuper (.cls ⟨17⟩ [Standard.stringTy]) Standard.function =
      some (.cls Standard.function bs) ∧
    operatorApply.subst = .ofArgs e bs := by
  have hd : standard.DeclaresClassTypes := declaresClassTypes_of_all (by decide +kernel)
  have hc : operatorApply ∈ (standard.memberPlan ⟨⟨17⟩, .ofList [(⟨3⟩, Standard.stringTy)],
      .methods "apply", none, none, false⟩).reported := by
    decide +kernel
  exact walk_agrees_with_view hd rfl (.inr rfl) rfl rfl hc (by decide +kernel)

end Env

end DoubleColon
