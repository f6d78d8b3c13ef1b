import Mathlib.Data.List.Nodup
import DoubleColon.Proofs.Conclusions

/-!
# The methods that a walk reports

A walk for methods meets each class once, the searched class first, and reports a method of one of
these classes with the flags of its declaration and the type arguments that its class is seen
with. So a candidate that is declared in the searched class has the type arguments of the request.
-/

set_option autoImplicit false

namespace DoubleColon

theorem WalkPlan.reported_declarations (ds : List (Option Candidate)) :
    (ofDeclarations ds).reported = ds.filterMap id := by
  induction ds with
  | nil => rfl
  | cons d rest ih => cases d <;> simpa [ofDeclarations, ofDeclaration, reported] using ih

theorem Hierarchy.keys_visits {α κ : Type} [DecidableEq κ] {key : α → κ} {next : α → List α}
    {n : Nat} {seen : List κ} {queue out : List α}
    (h : visits key next n seen queue = some out) :
    (out.map key).Nodup ∧ ∀ a ∈ out, key a ∉ seen := by
  induction n generalizing seen queue out with
  | zero =>
    cases queue with
    | nil => simp_all [visits]
    | cons a queue => simp [visits] at h
  | succ n ih =>
    cases queue with
    | nil => simp_all [visits]
    | cons a queue =>
      simp only [visits] at h
      split at h
      · exact ih h
      · rename_i ha
        obtain ⟨rest, hrest, rfl⟩ := Option.map_eq_some_iff.mp h
        obtain ⟨hd, hs⟩ := ih hrest
        refine ⟨?_, ?_⟩
        · refine List.nodup_cons.mpr ⟨fun hm => ?_, hd⟩
          obtain ⟨b, hb, he⟩ := List.mem_map.mp hm
          exact hs b hb (he ▸ List.mem_cons_self)
        · intro b hb
          rcases List.mem_cons.mp hb with rfl | hb
          · exact ha
          · exact fun hk => hs b hb (List.mem_cons_of_mem _ hk)

namespace Env

variable {env : Env}

theorem keys_seenClasses (env : Env) (c : SeenClass) :
    ((env.seenClasses c).map Prod.fst).Nodup := by
  unfold seenClasses
  cases h : Hierarchy.visits Prod.fst env.superclasses env.walkLimit [] [c] with
  | none => exact List.nodup_nil
  | some out => exact (Hierarchy.keys_visits h).1

theorem subst_of_seen {c : SeenClass} {subst : Substitution}
    (h : (c.1, subst) ∈ env.seenClasses c) : subst = c.2 := by
  unfold seenClasses at h
  cases hl : env.walkLimit with
  | zero => simp [hl, Hierarchy.visits] at h
  | succ n =>
    simp only [hl, Hierarchy.visits, List.not_mem_nil, if_false, List.nil_append] at h
    cases hv : Hierarchy.visits Prod.fst env.superclasses n [c.1] (env.superclasses c) with
    | none => simp [hv] at h
    | some rest =>
      simp only [hv, Option.map_some, Option.getD_some] at h
      rcases List.mem_cons.mp h with h | h
      · exact congrArg Prod.snd h
      · exact absurd (List.mem_singleton.mpr rfl) ((Hierarchy.keys_visits hv).2 (c.1, subst) h)

theorem mem_seenMethods {c : SeenClass} {m : SeenMethod} :
    m ∈ env.seenMethods c ↔ m.cls = c.1 ∧ m.subst = c.2 ∧
      ∃ d, env.class? c.1 = some d ∧ d.methods[m.index]? = some m.decl := by
  unfold seenMethods
  cases env.class? c.1 with
  | none => simp
  | some d =>
    obtain ⟨cls, index, subst, decl⟩ := m
    simp only [List.mem_map, Prod.exists, SeenMethod.mk.injEq, Option.some.injEq,
      exists_eq_left', List.mem_zipIdx_iff_getElem?]
    constructor
    · rintro ⟨decl', i, hi, rfl, rfl, rfl, rfl⟩
      exact ⟨rfl, rfl, hi⟩
    · rintro ⟨rfl, rfl, hi⟩
      exact ⟨decl, index, hi, rfl, rfl, rfl, rfl⟩

theorem methodOf?_of_seen {c : SeenClass} {m : SeenMethod} (h : m ∈ env.seenMethods c)
    (r : WalkRequest) : env.methodOf? (env.methodCandidate r m).member = some m.decl := by
  obtain ⟨hc, -, d, hd, hm⟩ := mem_seenMethods.mp h
  simp [methodCandidate, methodOf?, hc, hd, hm]

theorem exists_of_mem_methodCandidates {r : WalkRequest} {known : List (String × List Ty)}
    {ms : List SeenMethod} {c : Candidate} (h : some c ∈ env.methodCandidates r known ms) :
    ∃ m ∈ ms, c = env.methodCandidate r m ∧ r.filter.accepts m.decl.name = true := by
  induction ms generalizing known with
  | nil => simp [methodCandidates] at h
  | cons m rest ih =>
    have hrest : ∀ k, some c ∈ env.methodCandidates r k rest →
        ∃ n ∈ m :: rest, c = env.methodCandidate r n ∧ r.filter.accepts n.decl.name = true :=
      fun k hk => (ih hk).imp fun n hn => ⟨List.mem_cons_of_mem _ hn.1, hn.2⟩
    simp only [methodCandidates] at h
    split at h
    · rcases List.mem_cons.mp h with h | h
      · cases h
      · exact hrest _ h
    · rename_i hk
      rcases List.mem_cons.mp h with h | h
      · have ha : r.filter.accepts m.decl.name = true := by
          cases hacc : r.filter.accepts m.decl.name with
          | true => rfl
          | false => exact absurd (by simp [hacc]) hk
        exact ⟨m, List.mem_cons_self, Option.some.inj h, ha⟩
      · exact hrest _ h

/-! ## Methods that are not overridden -/

/-- The methods of a list that give a candidate: those of a name that is asked for, whose erased
signature is not known beforehand and is not that of a method before it. -/
def kept (env : Env) (accepts : String → Bool) (known : List (String × List Ty)) :
    List SeenMethod → List SeenMethod
  | [] => []
  | m :: rest =>
      if !accepts m.decl.name || known.contains (env.erasedSignature m) then
        env.kept accepts known rest
      else m :: env.kept accepts (env.erasedSignature m :: known) rest

theorem methodCandidates_eq_kept (env : Env) (r : WalkRequest) (known : List (String × List Ty))
    (ms : List SeenMethod) : (env.methodCandidates r known ms).filterMap id =
      (env.kept r.filter.accepts known ms).map (env.methodCandidate r) := by
  induction ms generalizing known with
  | nil => rfl
  | cons m rest ih =>
    simp only [methodCandidates, kept]
    split
    · simpa using ih known
    · simpa using ih _

theorem reported_methods (env : Env) {r : WalkRequest} {d : ClassDecl}
    (hd : env.class? r.cls = some d) (hf : r.filter.constructors = false) :
    (env.memberPlan r).reported = (env.kept r.filter.accepts []
      ((env.seenClasses (r.cls, r.subst)).flatMap env.seenMethods)).map
        (env.methodCandidate r) := by
  unfold memberPlan
  rw [WalkPlan.reported_declarations, declarations, hd]
  simp only [hf, Bool.false_eq_true, if_false]
  exact env.methodCandidates_eq_kept r [] _

variable {accepts : String → Bool} {known : List (String × List Ty)}

theorem kept_sublist (accepts : String → Bool) (known : List (String × List Ty))
    (ms : List SeenMethod) : (env.kept accepts known ms).Sublist ms := by
  induction ms generalizing known with
  | nil => exact List.Sublist.refl _
  | cons m rest ih =>
    simp only [kept]
    split
    · exact (ih known).cons m
    · exact (ih _).cons_cons m

theorem mem_of_kept {ms : List SeenMethod} {m : SeenMethod}
    (h : m ∈ env.kept accepts known ms) : m ∈ ms :=
  (kept_sublist accepts known ms).subset h

/-- Of methods with one name and one erased signature no more than one is kept. -/
theorem signatures_nodup (accepts : String → Bool) (known : List (String × List Ty))
    (ms : List SeenMethod) : ((env.kept accepts known ms).map env.erasedSignature).Nodup ∧
      ∀ m ∈ env.kept accepts known ms, env.erasedSignature m ∉ known := by
  induction ms generalizing known with
  | nil => exact ⟨List.nodup_nil, fun _ hm => nomatch hm⟩
  | cons m rest ih =>
    simp only [kept]
    split
    · exact ih known
    · rename_i hm
      obtain ⟨hd, hk⟩ := ih (env.erasedSignature m :: known)
      refine ⟨List.nodup_cons.mpr ⟨fun h => ?_, hd⟩, List.forall_mem_cons.mpr ⟨?_, ?_⟩⟩
      · obtain ⟨n, hn, he⟩ := List.mem_map.mp h
        exact hk n hn (he ▸ List.mem_cons_self)
      · exact fun h => hm (by simp [h])
      · exact fun n hn h => hk n hn (List.mem_cons_of_mem _ h)

theorem kept_congr {known' : List (String × List Ty)} (h : ∀ s, s ∈ known ↔ s ∈ known')
    (ms : List SeenMethod) : env.kept accepts known ms = env.kept accepts known' ms := by
  induction ms generalizing known known' with
  | nil => rfl
  | cons m rest ih =>
    have hc : known.contains (env.erasedSignature m) =
        known'.contains (env.erasedSignature m) := by
      rw [Bool.eq_iff_iff, List.contains_iff_mem, List.contains_iff_mem, h]
    simp only [kept, hc]
    split
    · exact ih h
    · have hcons : ∀ s, s ∈ env.erasedSignature m :: known ↔
          s ∈ env.erasedSignature m :: known' := fun s => by simp [h s]
      rw [ih hcons]

theorem kept_append (ms ns : List SeenMethod) : env.kept accepts known (ms ++ ns) =
    env.kept accepts known ms ++ env.kept accepts
      (((ms.filter fun m => accepts m.decl.name).map env.erasedSignature) ++ known) ns := by
  induction ms generalizing known with
  | nil => rfl
  | cons m rest ih =>
    simp only [List.cons_append, kept]
    cases ha : accepts m.decl.name with
    | false => simpa [ha] using ih
    | true =>
      cases hk : known.contains (env.erasedSignature m) with
      | true =>
        simp only [Bool.not_true, Bool.or_true, if_true, ih, List.append_cancel_left_eq]
        refine kept_congr (fun s => ?_) ns
        have hm : env.erasedSignature m ∈ known := List.contains_iff_mem.mp hk
        simp only [List.filter_cons, ha, if_true, List.map_cons, List.cons_append, List.mem_cons,
          List.mem_append]
        constructor
        · exact .inr
        · rintro (rfl | h)
          · exact .inr hm
          · exact h
      | false =>
        simp only [Bool.not_true, Bool.or_false, Bool.false_eq_true, if_false, List.cons_append, ih]
        refine congrArg (fun l => m :: (env.kept accepts _ rest ++ l)) (kept_congr (fun s => ?_) ns)
        simp only [List.filter_cons, ha, if_true, List.map_cons, List.cons_append, List.mem_cons,
          List.mem_append]
        exact or_left_comm

theorem kept_of_apart {ms : List SeenMethod}
    (h : ((ms.filter fun m => accepts m.decl.name).map env.erasedSignature).Nodup) :
    env.kept accepts known ms = ms.filter fun m =>
      accepts m.decl.name && !known.contains (env.erasedSignature m) := by
  induction ms generalizing known with
  | nil => rfl
  | cons m rest ih =>
    cases ha : accepts m.decl.name with
    | false =>
      simp only [List.filter_cons, ha, Bool.false_eq_true, if_false] at h
      simp [kept, ha, ih h]
    | true =>
      simp only [List.filter_cons, ha, if_true, List.map_cons, List.nodup_cons] at h
      obtain ⟨hm, h⟩ := h
      cases hk : known.contains (env.erasedSignature m) with
      | true =>
        simp only [kept, ha, hk, List.filter_cons]
        simpa using ih h
      | false =>
        simp only [kept, ha, hk, List.filter_cons]
        simp only [Bool.not_true, Bool.or_false, Bool.false_eq_true, if_false, Bool.not_false,
          Bool.and_self, if_true, ih h, List.cons.injEq, true_and]
        refine List.filter_congr fun n hn => ?_
        cases hacc : accepts n.decl.name with
        | false => simp
        | true =>
          have hne : env.erasedSignature n ≠ env.erasedSignature m := fun he => hm
            (List.mem_map.mpr ⟨n, List.mem_filter.mpr ⟨hn, hacc⟩, he⟩)
          simp [hne]

/-- A reported method is one of a class on the walk. -/
theorem exists_of_reported {r : WalkRequest} (hf : r.filter.constructors = false) {c : Candidate}
    (h : c ∈ (env.memberPlan r).reported) : ∃ k ∈ env.seenClasses (r.cls, r.subst),
      ∃ m ∈ env.seenMethods k, c = env.methodCandidate r m ∧
        r.filter.accepts m.decl.name = true := by
  unfold memberPlan at h
  rw [WalkPlan.reported_declarations] at h
  obtain ⟨d, hd, rfl⟩ := List.mem_filterMap.mp h
  unfold declarations at hd
  split at hd
  · simp at hd
  · simp only [hf, Bool.false_eq_true, if_false] at hd
    obtain ⟨m, hm, hc⟩ := exists_of_mem_methodCandidates hd
    obtain ⟨k, hk, hm⟩ := List.mem_flatMap.mp hm
    exact ⟨k, hk, m, hm, hc⟩

/-! ## Members are reported once -/

theorem nodup_map_zipIdx {β γ : Type} (l : List β) {f : Nat → γ} (hf : Function.Injective f) :
    (l.zipIdx.map fun e => f e.2).Nodup := by
  have hsnd : (l.zipIdx.map Prod.snd).Nodup := by
    rw [List.zipIdx_map_snd]
    exact List.nodup_range'
  have hmap := hsnd.map hf
  rwa [List.map_map] at hmap

def SeenMethod.member (m : SeenMethod) : Member := .method m.cls m.index

theorem seenMethods_nodup (k : SeenClass) :
    ((env.seenMethods k).map SeenMethod.member).Nodup := by
  unfold seenMethods
  cases env.class? k.1 with
  | none => exact List.nodup_nil
  | some d =>
    rw [List.map_map]
    exact nodup_map_zipIdx d.methods fun i j h => (Member.method.inj h).2

theorem members_nodup (c : SeenClass) :
    (((env.seenClasses c).flatMap env.seenMethods).map SeenMethod.member).Nodup := by
  rw [List.map_flatMap, List.nodup_flatMap]
  refine ⟨fun k _ => seenMethods_nodup k, ?_⟩
  refine (List.pairwise_map.mp (env.keys_seenClasses c)).imp fun {k l} hne x hx hy => hne ?_
  obtain ⟨m, hm, rfl⟩ := List.mem_map.mp hx
  obtain ⟨n, hn, he⟩ := List.mem_map.mp hy
  rw [← (mem_seenMethods.mp hm).1, ← (mem_seenMethods.mp hn).1, (Member.method.inj he).1]

theorem constructors_nodup (r : WalkRequest) (d : ClassDecl) :
    ((env.constructorCandidates r d).map (·.member)).Nodup := by
  unfold constructorCandidates
  dsimp only
  split
  · exact List.nodup_singleton _
  · rw [List.map_map]
    exact nodup_map_zipIdx d.constructors fun i j h => (Member.constructor.inj h).2

/-- No member is reported twice. -/
theorem reported_nodup (env : Env) (r : WalkRequest) :
    ((env.memberPlan r).reported.map (·.member)).Nodup := by
  cases hd : env.class? r.cls with
  | none =>
    unfold memberPlan
    rw [WalkPlan.reported_declarations, declarations, hd]
    exact List.nodup_nil
  | some d =>
    cases hf : r.filter.constructors with
    | false =>
      rw [env.reported_methods hd hf, List.map_map]
      exact (members_nodup (r.cls, r.subst)).sublist ((kept_sublist _ _ _).map _)
    | true =>
      unfold memberPlan
      rw [WalkPlan.reported_declarations, declarations, hd]
      simp only [hf, if_true]
      split
      · rw [List.filterMap_map, Function.id_comp, List.filterMap_some]
        exact constructors_nodup r d
      · exact List.nodup_nil

end Env

end DoubleColon
