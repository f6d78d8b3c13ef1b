import Mathlib.Data.List.Nodup
import DoubleColon.Proofs.FunctionOrder
import DoubleColon.Proofs.MethodAnswers
import DoubleColon.Proofs.OverloadOrder

/-!
# The order of the methods of a class

If the methods of a class are put into another order, they are found under other numbers, and in
another order, but nothing else changes as long as the walk reports the same methods and the target
has the same function type. The walk does unless two methods of the class that a reference asks for
have the same erased signature as they are seen from the qualifier: of these it reports the one that
is declared first.
-/

set_option autoImplicit false

namespace DoubleColon

theorem getElem?_filterMap_of_isSome {β γ : Type} {f : β → Option γ} {l : List β}
    (h : ∀ x ∈ l, (f x).isSome) (i : Nat) : (l.filterMap f)[i]? = l[i]?.bind f := by
  induction l generalizing i with
  | nil => rfl
  | cons x rest ih =>
    obtain ⟨y, hy⟩ := Option.isSome_iff_exists.mp (h x List.mem_cons_self)
    rw [List.filterMap_cons_some hy]
    cases i with
    | zero => simp [hy]
    | succ i => simpa using ih (fun z hz => h z (List.mem_cons_of_mem _ hz)) i

theorem filterMap_range_getElem? {β : Type} (l : List β) :
    (List.range l.length).filterMap (l[·]?) = l := by
  refine List.ext_getElem? fun i => ?_
  rw [getElem?_filterMap_of_isSome fun j hj => by simpa using hj]
  by_cases hi : i < l.length <;> simp [hi]

theorem Env.resolutionOf_ofCount (env : Env) (owning : Substitution)
    (target : Option FunctionType) (cs : List Candidate) :
    (env.resolutionOf owning target cs (.ofCount cs.length)).1 = match cs with
      | [] => .empty
      | [c] => .unique (env.resolveMember owning target c).1
      | cs => .ambiguous cs := by
  match cs with
  | [] | [c] => rfl
  | c :: d :: rest =>
    exact congrArg Resolution.ambiguous (filterMap_range_getElem? (c :: d :: rest))

/-- A class of an environment with a new order of its methods: the method that is declared at the
`i`-th place is found in `order` where it is moved to. -/
structure Reordering (env : Env) where
  cls : ClassId
  decl : ClassDecl
  declared : env.class? cls = some decl
  order : List Nat
  perm : order.Perm (List.range decl.methods.length)

namespace Reordering

variable {env : Env} (o : Reordering env)

def methods : List MethodDecl := o.order.filterMap (o.decl.methods[·]?)

def after : Env := env.withMethods o.cls o.methods

def index (c : ClassId) (i : Nat) : Nat := if c = o.cls then o.order.idxOf i else i

def member : Member → Member
  | .method c i => .method c (o.index c i)
  | m => m

def candidate (c : Candidate) : Candidate := { c with member := o.member c.member }

def resolved (m : ResolvedMember) : ResolvedMember :=
  { m with candidate := o.candidate m.candidate }

def seen (m : Env.SeenMethod) : Env.SeenMethod := { m with index := o.index m.cls m.index }

def Relates : Resolution → Resolution → Prop
  | .empty, .empty => True
  | .unique m, .unique k => k = o.resolved m
  | .ambiguous cs, .ambiguous ds => ds.Perm (cs.map o.candidate)
  | _, _ => False

def RelatesAnswers : Except Interrupt Resolution → Except Interrupt Resolution → Prop
  | .ok x, .ok y => o.Relates x y
  | .error e, .error f => e = f
  | _, _ => False

/-! ## Declarations under their new numbers -/

theorem lt_of_mem {i : Nat} (h : i ∈ o.order) : i < o.decl.methods.length :=
  List.mem_range.mp (o.perm.mem_iff.mp h)

theorem nodup : o.order.Nodup := o.perm.nodup_iff.mpr List.nodup_range

theorem getElem?_methods (i : Nat) : o.methods[i]? = o.order[i]?.bind (o.decl.methods[·]?) :=
  getElem?_filterMap_of_isSome (fun j hj => by simpa using o.lt_of_mem hj) i

theorem methods_perm : o.methods.Perm o.decl.methods :=
  (o.perm.filterMap _).trans (.of_eq (filterMap_range_getElem? _))

theorem getElem?_index (i : Nat) : o.methods[o.order.idxOf i]? = o.decl.methods[i]? := by
  rw [getElem?_methods]
  by_cases hi : i ∈ o.order
  · rw [List.getElem?_idxOf hi]
    rfl
  · have hout : o.decl.methods.length ≤ i := by
      by_contra hlt
      exact hi (o.perm.mem_iff.mpr (List.mem_range.mpr (Nat.lt_of_not_le hlt)))
    rw [List.getElem?_eq_none hout,
      List.getElem?_eq_none (Nat.le_of_eq (List.idxOf_eq_length hi).symm)]
    rfl

theorem class?_after (id : ClassId) : o.after.class? id =
    (env.class? id).map fun d => d.withMethods (if id = o.cls then some o.methods else none) :=
  env.class?_withMethods o.cls o.methods id

@[simp] theorem owner_member (m : Member) : (o.member m).owner = m.owner := by
  cases m <;> rfl

@[simp] theorem isConstructor_member (m : Member) :
    (o.member m).isConstructor = m.isConstructor := by
  cases m <;> rfl

@[simp] theorem isImplicit_member (m : Member) : (o.member m).isImplicit = m.isImplicit := by
  cases m <;> rfl

theorem methodOf?_member (m : Member) : o.after.methodOf? (o.member m) = env.methodOf? m := by
  cases m with
  | method c i =>
    simp only [member, index, Env.methodOf?, class?_after]
    by_cases hc : c = o.cls
    · subst hc
      simp [o.declared, ClassDecl.withMethods, o.getElem?_index]
    · cases env.class? c <;> simp [hc, ClassDecl.withMethods]
  | constructor c i | implicitConstructor c => rfl

theorem shapeOf?_member (m : Member) : o.after.shapeOf? (o.member m) = env.shapeOf? m := by
  have hm := o.methodOf?_member m
  cases m with
  | method c i => exact congrArg (Option.map _) hm
  | constructor c i =>
    simp only [member, Env.shapeOf?, Env.constructorOf?, class?_after]
    cases env.class? c <;> rfl
  | implicitConstructor c =>
    simp only [member, Env.shapeOf?, class?_after]
    cases env.class? c <;> rfl

theorem returnTypeOf?_member (m : Member) :
    o.after.returnTypeOf? (o.member m) = env.returnTypeOf? m := by
  have hm := o.methodOf?_member m
  cases m with
  | method c i => exact congrArg (Option.map _) hm
  | constructor c i | implicitConstructor c =>
    simp only [member, Env.returnTypeOf?, class?_after]
    cases env.class? c <;> rfl

/-! ## Candidates under their new numbers -/

theorem reading_candidate (owner : ClassDecl) (methods : Option (List MethodDecl))
    (m : MatchInput) (c : Candidate) :
    o.after.reading (owner.withMethods methods) m (o.candidate c) = env.reading owner m c := by
  have hdirect : ∀ isOpen params args,
      o.after.readsDirectly (owner.withMethods methods) m (o.candidate c) isOpen params args =
        env.readsDirectly owner m c isOpen params args := by
    intro isOpen params args
    simp only [Env.readsDirectly, after, Env.allAccepted_withMethods,
      Env.inferredParams_withMethods, Env.isReachable, Env.isFreeConstructor, candidate,
      isConstructor_member]
    rfl
  have hreceiver : ∀ isOpen params args,
      o.after.readsWithReceiver (owner.withMethods methods) m (o.candidate c) isOpen params args =
        env.readsWithReceiver owner m c isOpen params args := by
    intro isOpen params args
    simp only [Env.readsWithReceiver, after, Env.restAccepted_withMethods,
      Env.inferredParams_withMethods, Env.hasReceiver, Env.isReceiver_withMethods,
      Env.isFreeConstructor, candidate, isConstructor_member]
    rfl
  have hshape : o.after.shapeOf? (o.candidate c).member = env.shapeOf? c.member :=
    o.shapeOf?_member c.member
  have hopen : ∀ shape subst,
      Env.openParams (owner.withMethods methods) (o.candidate c) shape subst =
        Env.openParams owner c shape subst := by
    intro shape subst
    simp only [Env.openParams, candidate, isConstructor_member]
    rfl
  simp only [Env.reading, hshape, hopen, hdirect, hreceiver]
  rfl

theorem resolveMember_candidate (owning : Substitution) (target : Option FunctionType)
    (c : Candidate) : (o.after.resolveMember owning target (o.candidate c)).1 =
      o.resolved (env.resolveMember owning target c).1 := by
  have hshape : o.after.shapeOf? (o.candidate c).member = env.shapeOf? c.member :=
    o.shapeOf?_member c.member
  have hreturn : o.after.returnTypeOf? (o.candidate c).member = env.returnTypeOf? c.member :=
    o.returnTypeOf?_member c.member
  have hinfer : ∀ base t, (o.after.inferMember (o.candidate c).member base t).1 =
      (env.inferMember c.member base t).1 := by
    intro base t
    have hmatch : ∀ (d : ClassDecl) methods shape params args returnType,
        o.after.inferMatching (d.withMethods methods) (o.candidate c).member shape base params args
          returnType = env.inferMatching d c.member shape base params args returnType := by
      intro d methods shape params args returnType
      simp only [Env.inferMatching, hreturn]
      simp only [after, candidate, isConstructor_member, Env.inferArguments_withMethods,
        Env.inferFromReturn_withMethods]
      rfl
    have howner : (o.candidate c).member.owner = c.member.owner := o.owner_member c.member
    simp only [Env.inferMember, hshape, howner, class?_after]
    cases env.shapeOf? c.member with
    | none => rfl
    | some shape =>
      cases env.class? c.member.owner with
      | none => rfl
      | some d =>
        simp only [Option.map_some, hmatch]
        have hparams : ∀ methods, Env.inferenceParams (d.withMethods methods) base shape =
            Env.inferenceParams d base shape := fun _ => rfl
        simp only [after, Env.classOf?_withMethods, Env.withoutWildcards_withMethods, hparams]
        split <;> rfl
  have himplicit : (o.candidate c).member.isImplicit = c.member.isImplicit :=
    o.isImplicit_member c.member
  cases hi : c.member.isImplicit with
  | true =>
    simp only [Env.resolveMember, hshape, hreturn, himplicit, hi]
    rfl
  | false =>
    cases target with
    | none =>
      simp only [Env.resolveMember, hshape, hreturn, himplicit, hi]
      rfl
    | some t =>
      simp only [Env.resolveMember, hshape, hreturn, himplicit, hi, Bool.false_eq_true, if_false,
        hinfer]
      rfl

/-! ## The walk -/

theorem kept_after (accepts : String → Bool) (known : List (String × List Ty))
    (ms : List Env.SeenMethod) : o.after.kept accepts known ms = env.kept accepts known ms := by
  induction ms generalizing known with
  | nil => rfl
  | cons m rest ih =>
    simp only [after] at ih
    simp only [Env.kept, after, Env.erasedSignature_withMethods, ih]

theorem methodCandidate_seen (r : WalkRequest) (m : Env.SeenMethod) :
    o.after.methodCandidate r (o.seen m) = o.candidate (env.methodCandidate r m) := by
  unfold after
  rw [Env.methodCandidate_withMethods]
  rfl

theorem functionType_after {t : Ty} (h : env.AbstractDiffer o.cls t) :
    o.after.functionType t = env.functionType t :=
  Env.functionType_perm o.declared o.methods_perm h

/-- The class has the same methods under their new numbers. -/
theorem seenMethods_perm {k : Env.SeenClass} (hk : k.1 = o.cls) :
    (o.after.seenMethods k).Perm ((env.seenMethods k).map o.seen) := by
  obtain ⟨c, subst⟩ := k
  obtain rfl : c = o.cls := hk
  -- Both lists have the same entries, in the old order and in the new one.
  let entry : Nat → Option Env.SeenMethod := fun i =>
    o.decl.methods[i]?.map fun m => ⟨o.cls, o.order.idxOf i, subst, m⟩
  have hsome : ∀ i, i < o.decl.methods.length → (entry i).isSome := fun i hi => by
    simp [entry, hi]
  have hold : (env.seenMethods (o.cls, subst)).map o.seen =
      (List.range o.decl.methods.length).filterMap entry := by
    refine List.ext_getElem? fun i => ?_
    rw [getElem?_filterMap_of_isSome fun j hj => hsome j (List.mem_range.mp hj)]
    simp only [Env.seenMethods, o.declared, List.map_map, List.getElem?_map, List.getElem?_zipIdx]
    by_cases hi : i < o.decl.methods.length
    · simp [hi, entry, seen, index]
    · simp [hi]
  have hnew : o.after.seenMethods (o.cls, subst) = o.order.filterMap entry := by
    refine List.ext_getElem? fun i => ?_
    rw [getElem?_filterMap_of_isSome fun j hj => hsome j (o.lt_of_mem hj)]
    simp only [Env.seenMethods, class?_after, o.declared, Option.map_some, if_true,
      ClassDecl.withMethods, Option.getD_some, List.getElem?_map, List.getElem?_zipIdx,
      getElem?_methods]
    cases hi : o.order[i]? with
    | none => rfl
    | some j =>
      obtain ⟨hlt, rfl⟩ := List.getElem?_eq_some_iff.mp hi
      simp only [Option.bind_some, entry, List.Nodup.idxOf_getElem o.nodup]
      cases o.decl.methods[o.order[i]]? <;> simp
  rw [hold, hnew]
  exact o.perm.filterMap entry

theorem seenMethods_of_ne {k : Env.SeenClass} (hk : k.1 ≠ o.cls) :
    o.after.seenMethods k = env.seenMethods k := by
  unfold Env.seenMethods
  rw [class?_after, if_neg hk]
  cases env.class? k.1 <;> rfl

theorem seen_of_ne {m : Env.SeenMethod} (hm : m.cls ≠ o.cls) : o.seen m = m := by
  simp [seen, index, hm]

def Differ (accepts : String → Bool) (k : Env.SeenClass) : Prop :=
  k.1 = o.cls →
    (((env.seenMethods k).filter fun m => accepts m.decl.name).map env.erasedSignature).Nodup

theorem kept_perm {accepts : String → Bool} {ks : List Env.SeenClass}
    (hd : ∀ k ∈ ks, o.Differ accepts k) (known : List (String × List Ty)) :
    (env.kept accepts known (ks.flatMap o.after.seenMethods)).Perm
      ((env.kept accepts known (ks.flatMap env.seenMethods)).map o.seen) := by
  induction ks generalizing known with
  | nil => exact .refl _
  | cons k rest ih =>
    have hrest := fun known => ih (fun k hk => hd k (List.mem_cons_of_mem _ hk)) known
    simp only [List.flatMap_cons, Env.kept_append, List.map_append]
    by_cases hk : k.1 = o.cls
    · have hp := o.seenMethods_perm hk
      have hfilter : ∀ p : Env.SeenMethod → Bool, (∀ m, p (o.seen m) = p m) →
          ((o.after.seenMethods k).filter p).Perm (((env.seenMethods k).filter p).map o.seen) := by
        intro p hpm
        refine (hp.filter p).trans (List.Perm.of_eq ?_)
        rw [List.filter_map]
        exact congrArg _ (List.filter_congr fun m _ => hpm m)
      have hsigs := (hfilter (fun m => accepts m.decl.name) fun _ => rfl).map env.erasedSignature
      rw [List.map_map] at hsigs
      have hdiff := hd k List.mem_cons_self hk
      -- For the classes after this one it does not matter in which order its signatures came.
      have hknown : ∀ s, s ∈ ((o.after.seenMethods k).filter fun m => accepts m.decl.name).map
            env.erasedSignature ++ known ↔
          s ∈ ((env.seenMethods k).filter fun m => accepts m.decl.name).map
            env.erasedSignature ++ known := by
        intro s
        rw [List.mem_append, List.mem_append, hsigs.mem_iff]
        rfl
      refine .append ?_ ?_
      · rw [Env.kept_of_apart hdiff, Env.kept_of_apart (hsigs.nodup_iff.mpr hdiff)]
        exact hfilter _ fun m => rfl
      · rw [Env.kept_congr hknown]
        exact hrest _
    · rw [o.seenMethods_of_ne hk]
      refine .append (.of_eq ?_) (hrest _)
      refine (List.map_id _).symm.trans (List.map_congr_left fun m hm => ?_)
      have hcls : m.cls = k.1 := (Env.mem_seenMethods.mp (Env.mem_of_kept hm)).1
      exact (o.seen_of_ne (hcls ▸ hk)).symm

theorem reported_perm {r : WalkRequest} (hf : r.filter.constructors = false)
    (hd : ∀ k ∈ env.seenClasses (r.cls, r.subst), o.Differ r.filter.accepts k) :
    (o.after.memberPlan r).reported.Perm ((env.memberPlan r).reported.map o.candidate) := by
  cases hc : env.class? r.cls with
  | none =>
    simp [Env.memberPlan, Env.declarations, class?_after, hc, WalkPlan.reported_declarations]
  | some d =>
    have hc' := o.class?_after r.cls
    rw [hc] at hc'
    rw [Env.reported_methods _ hc hf, Env.reported_methods _ hc' hf, List.map_map]
    have hp := (o.kept_perm hd []).map (o.after.methodCandidate r)
    rw [List.map_map] at hp
    rw [show o.after.seenClasses = env.seenClasses from Env.seenClasses_withMethods _ _ _,
      o.kept_after]
    refine hp.trans (List.Perm.of_eq (List.map_congr_left fun m _ => ?_))
    exact o.methodCandidate_seen r m

/-! ## The choice -/

/-- What wins among applicable candidates is what did. -/
theorem verdict_relates (owning : Substitution) (target : Option FunctionType)
    {found found' : List (Candidate × Reading)}
    (h : found'.Perm (found.map fun p => (o.candidate p.1, p.2))) :
    o.Relates (env.verdict owning target found) (o.after.verdict owning target found') := by
  have hempty : found'.isEmpty = found.isEmpty := by
    rw [h.isEmpty_eq, List.isEmpty_map]
  have hphase : (found'.any fun p => p.2.isVarargs) = found.any fun p => p.2.isVarargs := by
    rw [h.any_eq, List.any_map]
    rfl
  have hwinner : ∀ phase, o.after.winner? phase Env.overloadOf found' =
      (env.winner? phase Env.overloadOf found).map fun p => (o.candidate p.1, p.2) := by
    intro phase
    have hsame : o.after.winner? phase Env.overloadOf found' =
        env.winner? phase Env.overloadOf found' := by
      simp only [Env.winner?, Env.maxima, after, Env.isMoreSpecific_withMethods]
    rw [hsame, env.winner?_perm phase _ h, Env.winner?_map]
    rfl
  simp only [Env.verdict, hempty, hphase, hwinner]
  split
  · trivial
  · cases env.winner? _ Env.overloadOf found with
    | none =>
      have hp := h.map Prod.fst
      change (found'.map Prod.fst).Perm ((found.map Prod.fst).map o.candidate)
      rw [List.map_map] at hp ⊢
      exact hp
    | some p => exact o.resolveMember_candidate owning target p.1

theorem readings_perm (owner : ClassDecl) (methods : Option (List MethodDecl)) (m : MatchInput)
    {cs cs' : List Candidate} (h : cs'.Perm (cs.map o.candidate)) :
    (o.after.readings (owner.withMethods methods) m cs').isSome = (env.readings owner m cs).isSome ∧
      (o.after.paired (owner.withMethods methods) m cs').Perm
        ((env.paired owner m cs).map fun p => (o.candidate p.1, p.2)) := by
  constructor
  · rw [Bool.eq_iff_iff, Env.readings_isSome, Env.readings_isSome]
    simp only [h.mem_iff, List.forall_mem_map, reading_candidate]
  · refine (h.filterMap _).trans (.of_eq ?_)
    simp only [Env.paired, List.filterMap_map, List.map_filterMap, Function.comp_def,
      reading_candidate, Option.map_map]

theorem answer_relates {ω : Type} {r : Resolver ω} (hp : r.picker = Env.mostSpecific)
    (q : SearchedClass) (target : Option FunctionType) {cs cs' : List Candidate}
    (h : cs'.Perm (cs.map o.candidate)) :
    o.RelatesAnswers
      ((r.choiceAmong env q q.subst target cs).map fun c =>
        (env.resolutionOf q.subst target cs c).1)
      ((r.choiceAmong o.after q q.subst target cs').map fun c =>
        (o.after.resolutionOf q.subst target cs' c).1) := by
  cases target with
  | none =>
    simp only [Resolver.choiceAmong, Except.map, RelatesAnswers, Env.resolutionOf_ofCount]
    match cs with
    | [] =>
      rw [h.eq_nil]
      trivial
    | [c] =>
      rw [h.eq_singleton]
      exact o.resolveMember_candidate q.subst none c
    | c :: d :: rest =>
      match cs' with
      | [] | [_] => exact absurd h.length_eq (by simp)
      | c' :: d' :: rest' => exact h
  | some t =>
    simp only [Resolver.choiceAmong, class?_after, hp]
    cases env.class? q.id with
    | none => trivial
    | some owner =>
      simp only [Option.map_some]
      obtain ⟨hsome, hperm⟩ := o.readings_perm owner
        (if q.id = o.cls then some o.methods else none)
        ⟨q.id, q.subst, t, q.isBareTypeName, q.namesType⟩ h
      cases hr : env.readings owner ⟨q.id, q.subst, t, q.isBareTypeName, q.namesType⟩ cs with
      | none =>
        rw [hr, Option.isSome_none, Option.isSome_eq_false_iff, Option.isNone_iff_eq_none] at hsome
        rw [hsome]
        rfl
      | some rs =>
        rw [hr, Option.isSome_some, Option.isSome_iff_exists] at hsome
        obtain ⟨rs', hr'⟩ := hsome
        rw [hr']
        obtain ⟨hcs, hrs⟩ := Env.paired_of_readings hr
        obtain ⟨hcs', hrs'⟩ := Env.paired_of_readings hr'
        simp only [Except.map, RelatesAnswers]
        rw [← hcs, ← hrs, ← hcs', ← hrs', Env.resolutionOf_choose, Env.resolutionOf_choose]
        refine o.verdict_relates q.subst (some t) ((hperm.filter _).trans (.of_eq ?_))
        rw [List.filter_map]
        rfl

/-! ## The value of a site -/

variable {ω : Type} {r : Resolver ω} {site : Site} {text : String} {t : Option Ty}

/-- Wherever the walk for a site comes to the reordered class, the methods of the name that is asked
for differ in their erased signatures. -/
def Separates (site : Site) (text : String) : Prop :=
  ∀ q, env.classify site.qualifier = some q → ∀ k ∈ env.seenClasses (q.id, q.subst),
    o.Differ (MemberFilter.methods text).accepts k

theorem value_relates (hw : r.walker = Env.memberPlan) (hp : r.picker = Env.mostSpecific)
    (hn : site.name = .ident text) (hd : o.Separates site text)
    (ht : t.bind o.after.functionType = t.bind env.functionType) :
    o.RelatesAnswers (r.value env site t) (r.value o.after site t) := by
  have hclassify : o.after.classify = env.classify := Env.classify_withMethods _ _ _
  have hasks : o.after.asks site = env.asks site := by simp only [Env.asks, hclassify]
  have hrequest : o.after.siteRequest = env.siteRequest := Env.siteRequest_withMethods _ _ _
  unfold Resolver.value
  rw [hasks, hclassify, ht]
  cases hq : env.classify site.qualifier with
  | none => cases env.asks site <;> trivial
  | some q =>
    cases env.asks site with
    | false => trivial
    | true =>
      simp only [Resolver.in_class_method hn, class?_after, hrequest]
      cases env.class? q.id with
      | none => trivial
      | some d =>
        simp only [Option.map_some]
        cases hreq : env.siteRequest site q q.subst (.methods text) with
        | error e => trivial
        | ok request =>
          obtain ⟨hcls, hsubst, hfilter⟩ := Resolver.request_site hreq
          have hperm := o.reported_perm (r := request) (by rw [hfilter]; rfl) fun k hk => by
            rw [hfilter]
            exact hd q hq k (by rwa [hcls, hsubst] at hk)
          have hrel := o.answer_relates hp q (t.bind env.functionType) hperm
          simp only [hw]
          cases hb : r.choiceAmong env q q.subst (t.bind env.functionType)
              (env.memberPlan request).reported <;>
            cases ha : r.choiceAmong o.after q q.subst (t.bind env.functionType)
              (o.after.memberPlan request).reported <;>
            rw [hb, ha] at hrel <;> exact hrel

/-- If the methods of a class are put into another order, a fresh request is answered as it was,
with the methods under their new numbers, provided that in the class no two methods of the name
that is asked for have the same erased signature, and no two abstract methods that the function type
of the target is put together from have the same name and parameters. -/
theorem order_irrelevant {cx : Context} (o : Reordering cx.env) {w : World ω}
    (h : r.IsFresh cx site t w) (hp : r.picker = Env.mostSpecific) (hn : site.name = .ident text)
    (hd : o.Separates site text) (ht : ∀ target ∈ t, cx.env.AbstractDiffer o.cls target)
    (n : Nat) : o.RelatesAnswers ((r.resolve cx (n + 1) site w).1.map (·.resolution))
      ((r.resolve { cx with env := o.after } (n + 1) site w).1.map (·.resolution)) := by
  have h' : r.IsFresh { cx with env := o.after } site t w :=
    ⟨h.walker, h.provider, h.live, h.wellFormed, h.vacant⟩
  have hfunction : t.bind o.after.functionType = t.bind cx.env.functionType :=
    Option.bind_congr fun target hm => o.functionType_after (ht target hm)
  rw [h.answer, h'.answer]
  exact o.value_relates h.walker hp hn hd hfunction

end Reordering

namespace Boxes

open Standard

def reversed : Reordering context.env where
  cls := ⟨26⟩
  decl := decl
  declared := by decide +kernel
  order := [4, 3, 2, 1, 0]
  perm := by decide

def taking (t : Ty) : Ty := .cls ⟨20⟩ [t]

def answerReversed (t : Ty) : Except Interrupt Resolution :=
  ((expecting (taking t)).resolve { context with env := reversed.after } 1
    (site (.expr (box t)) "add") world).1.map (·.resolution)

/-- The two methods `add` of a box of integers differ, so that their order is of no importance. -/
theorem order_irrelevant_integers :
    (answer (site (.expr (box integerTy)) "add") (taking integerTy)).map Resolution.members =
      .ok [.method ⟨26⟩ 3] ∧
    (answerReversed integerTy).map Resolution.members = .ok [.method ⟨26⟩ 1] ∧
    reversed.RelatesAnswers (answer (site (.expr (box integerTy)) "add") (taking integerTy))
      (answerReversed integerTy) := by
  refine ⟨by decide +kernel, by decide +kernel, ?_⟩
  refine reversed.order_irrelevant (fresh _ _) rfl rfl ?_ ?_ 0
  · intro q hq
    have hsearched : env.classify (.expr (box integerTy)) = some (searched integerTy) := by
      decide +kernel
    obtain rfl : searched integerTy = q := Option.some.inj (hsearched.symm.trans hq)
    unfold Reordering.Differ
    decide +kernel
  · rintro target - i - hi
    have hclass : context.env.class? i.id = some decl := hi ▸ reversed.declared
    rw [Env.abstractMethods_of_not_interface _ hclass (by decide +kernel)]
    exact List.nodup_nil

/-- Those of a box of strings do not, and the one that is declared first is found. -/
theorem order_matters_strings :
    (answer (site (.expr (box stringTy)) "add") (taking stringTy)).map Resolution.members =
      .ok [.method ⟨26⟩ 3] ∧
    (answerReversed stringTy).map Resolution.members = .ok [.method ⟨26⟩ 0] ∧
    reversed.member (.method ⟨26⟩ 3) ≠ .method ⟨26⟩ 0 := by
  exact ⟨by decide +kernel, by decide +kernel, by decide +kernel⟩

end Boxes

end DoubleColon
