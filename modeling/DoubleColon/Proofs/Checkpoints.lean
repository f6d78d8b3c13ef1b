import DoubleColon.Proofs.CompleteWalks

/-!
# Checkpoints

A walk counts the declarations that it examines and polls its token whenever the count is a multiple
of its interval. The count is a machine word: where it wraps around, it goes on with zero, which is a
multiple of every interval, so that the distance of two polls there is shorter and never longer than
the interval. So a walk that goes on under a cancelled token comes to a poll before it has examined
as many declarations as the interval says, and ends there.
-/

set_option autoImplicit false

namespace DoubleColon

/-- Of as many consecutive counts as an interval has, one is a multiple of the interval, also if the
counts wrap around. -/
theorem exists_multiple {count interval word : Nat} (hi : 0 < interval) (hc : count < word) :
    ∃ i < interval, (count + i) % word % interval = 0 := by
  by_cases hzero : count % interval = 0
  · exact ⟨0, hi, by rw [Nat.add_zero, Nat.mod_eq_of_lt hc, hzero]⟩
  · have hlt : count % interval < interval := Nat.mod_lt _ hi
    have hsplit := Nat.div_add_mod count interval
    by_cases hfits : count + (interval - count % interval) < word
    · refine ⟨interval - count % interval, by omega, ?_⟩
      have hnext : count + (interval - count % interval) = interval * (count / interval + 1) := by
        rw [Nat.mul_succ]
        omega
      rw [Nat.mod_eq_of_lt hfits, hnext, Nat.mul_mod_right]
    · refine ⟨word - count, by omega, ?_⟩
      rw [Nat.add_sub_of_le (Nat.le_of_lt hc), Nat.mod_self, Nat.zero_mod]

namespace PollCounter

variable {c : PollCounter}

def after (c : PollCounter) : Nat → PollCounter
  | 0 => c
  | n + 1 => (c.after n).advance

@[simp] theorem every_after (c : PollCounter) (n : Nat) : (c.after n).every = c.every := by
  induction n with
  | zero => rfl
  | succ n ih => exact ih

theorem passed_after (c : PollCounter) (n : Nat) :
    (c.after n).passed.toNat = (c.passed.toNat + n) % UInt32.size := by
  induction n with
  | zero => exact (Nat.mod_eq_of_lt c.passed.toNat_lt).symm
  | succ n ih =>
    have hnext : (c.after (n + 1)).passed.toNat =
        ((c.after n).passed.toNat + 1) % UInt32.size := UInt32.toNat_add _ _
    rw [hnext, ih, Nat.mod_add_mod, Nat.add_assoc]

theorem after_advance (c : PollCounter) (n : Nat) : c.advance.after n = c.after (n + 1) := by
  induction n with
  | zero => rfl
  | succ n ih => exact congrArg advance ih

theorem isDue_iff : c.isDue = true ↔ c.passed.toNat % c.every.toNat = 0 := by
  rw [isDue, decide_eq_true_eq, ← UInt32.toNat_inj, UInt32.toNat_mod, UInt32.toNat_zero]

theorem exists_due (h : 0 < c.every.toNat) : ∃ i < c.every.toNat, (c.after i).isDue = true := by
  obtain ⟨i, hi, hmultiple⟩ := exists_multiple h c.passed.toNat_lt
  exact ⟨i, hi, by rw [isDue_iff, passed_after, every_after, hmultiple]⟩

/-- An interval of seven does not divide the number of words. After the poll at `2 ^ 32 - 4` the next
one is not seven checks later but four, at zero. -/
example :
    let c : PollCounter := ⟨7, 4294967292⟩
    c.isDue = true ∧ (c.after 1).isDue = false ∧ (c.after 2).isDue = false ∧
      (c.after 3).isDue = false ∧ (c.after 4).isDue = true := by
  decide

theorem every_ofInterval (interval : UInt32) :
    (ofInterval interval).every.toNat = max interval.toNat 1 := by
  unfold ofInterval
  dsimp only
  split
  · rename_i h
    rw [h]
    rfl
  · rename_i h
    have hpos : interval.toNat ≠ 0 := fun hzero => h (UInt32.toNat_inj.mp hzero)
    omega

end PollCounter

namespace Tokens

variable {ts : Tokens} {token : TokenId}

theorem length_poll (ts : Tokens) (token : TokenId) : (ts.poll token).2.length = ts.length := by
  unfold poll
  split
  · rfl
  · exact List.length_set

theorem length_cancel (ts : Tokens) (t : TokenId) : (ts.cancel t).length = ts.length :=
  List.length_modify _ _ _

theorem cancelled_of_cancel (h : token.index < ts.length) :
    (ts.cancel token).isCancelled token = true := by
  simp [isCancelled, cancel, Token.cancel, h]

theorem cancelled_cancel (h : ts.isCancelled token = true) (t : TokenId) :
    (ts.cancel t).isCancelled token = true := by
  unfold isCancelled at h ⊢
  rw [cancel, List.getElem?_modify]
  cases ht : ts[token.index]? with
  | none => simp [ht] at h
  | some u =>
    have hu : u.isCancelled = true := by simpa [ht] using h
    by_cases hsame : t.index = token.index
    · simp [hsame, Token.cancel]
    · simp [hsame, hu]

end Tokens

namespace WalkPlan

variable {token : TokenId} {k : PollCounter} {ts : Tokens} {plan : WalkPlan}

@[simp] theorem count_report (c : Candidate) (rest : WalkPlan) :
    List.count WalkStep.examine (.report c :: rest) = rest.count .examine :=
  List.count_cons_of_ne (by simp)

@[simp] theorem count_cancel (t : TokenId) (rest : WalkPlan) :
    List.count WalkStep.examine (.cancel t :: rest) = rest.count .examine :=
  List.count_cons_of_ne (by simp)

/-- While the token is live nothing keeps a walk from the steps that examine or report. -/
theorem carriedOut_append (hl : ts.IsLive token) (before after : WalkPlan) (hp : before.IsPlain) :
    ((before ++ after).run token k ts).carriedOut =
      before ++ (after.run token (k.after (before.count .examine)) ts).carriedOut := by
  induction before generalizing k with
  | nil => rfl
  | cons step rest ih =>
    have hr : IsPlain rest := fun st hst => hp st (List.mem_cons_of_mem _ hst)
    cases step with
    | examine =>
      rw [List.count_cons_self, ← PollCounter.after_advance]
      simp [run, Tokens.poll_live hl, ih hr]
    | report c => simp [run, ih hr]
    | cancel t => exact (hp _ List.mem_cons_self).elim
    | abort => exact (hp _ List.mem_cons_self).elim

/-- Under a cancelled token no declaration is examined any more from the next poll on. -/
theorem count_examine_le {i : Nat} (h : ts.isCancelled token = true)
    (hdue : (k.after i).isDue = true) :
    (plan.run token k ts).carriedOut.count .examine ≤ i := by
  induction plan generalizing k ts i with
  | nil => exact Nat.zero_le i
  | cons step rest ih =>
    cases step with
    | examine =>
      by_cases hnow : k.isDue = true
      · simp [run, hnow, Tokens.poll_cancelled h]
      · obtain ⟨j, rfl⟩ : ∃ j, i = j + 1 := by
          cases i with
          | zero => exact absurd hdue hnow
          | succ j => exact ⟨j, rfl⟩
        rw [run, if_neg hnow, WalkOutcome.carriedOut_following, List.count_cons_self]
        exact Nat.succ_le_succ (ih h (by rwa [PollCounter.after_advance]))
    | report c =>
      rw [run, WalkOutcome.carriedOut_following, count_report]
      exact ih h hdue
    | cancel t =>
      rw [run, WalkOutcome.carriedOut_following, count_cancel]
      exact ih (Tokens.cancelled_cancel h t) hdue
    | abort => exact Nat.zero_le i

/-- Once the token is cancelled, fewer declarations are examined than the interval says. -/
theorem count_examine_append_le (hk : 0 < k.every.toNat) (ht : token.index < ts.length)
    (before after : WalkPlan) :
    ((before ++ .cancel token :: after).run token k ts).carriedOut.count .examine ≤
      before.count .examine + (k.every.toNat - 1) := by
  induction before generalizing k ts with
  | nil =>
    obtain ⟨i, hi, hdue⟩ := PollCounter.exists_due hk
    rw [List.nil_append, run, WalkOutcome.carriedOut_following, count_cancel, List.count_nil,
      Nat.zero_add]
    have hcount : (after.run token k (ts.cancel token)).carriedOut.count .examine ≤ i :=
      count_examine_le (Tokens.cancelled_of_cancel ht) hdue
    omega
  | cons step rest ih =>
    rw [List.cons_append]
    cases step with
    | examine =>
      -- A poll changes the tokens, but not how many there are.
      have hrest (us : Tokens) (hu : us.length = ts.length) :
          (run token k.advance us (rest ++ .cancel token :: after)).carriedOut.count .examine ≤
            rest.count .examine + (k.every.toNat - 1) := ih hk (hu ▸ ht)
      simp only [run, List.count_cons_self]
      split
      · split
        · exact Nat.zero_le _
        · have h := hrest (ts.poll token).2 (Tokens.length_poll ts token)
          rw [WalkOutcome.carriedOut_following, List.count_cons_self, Nat.add_right_comm]
          exact Nat.succ_le_succ h
      · have h := hrest ts rfl
        rw [WalkOutcome.carriedOut_following, List.count_cons_self, Nat.add_right_comm]
        exact Nat.succ_le_succ h
    | report c =>
      rw [run, WalkOutcome.carriedOut_following, count_report, count_report]
      exact ih hk ht
    | cancel t =>
      rw [run, WalkOutcome.carriedOut_following, count_cancel, count_cancel]
      exact ih hk (by rwa [Tokens.length_cancel])
    | abort => exact Nat.zero_le _

/-- Of as many consecutive checks as the interval says, one polls the token, however many checks
came before. So a walk in which the token is cancelled at some point examines fewer further
declarations than that, and a walk of the members of a class then ends as cancelled, unless it has
examined all declarations. Until the token is cancelled it leaves none out. -/
theorem cancellation_noticed (interval : UInt32) (passed : Nat) :
    let every := max interval.toNat 1
    let k := (PollCounter.ofInterval interval).after passed
    (∃ i < every, (k.after i).isDue = true) ∧
    ∀ (token : TokenId) (ts : Tokens) (before after : WalkPlan), token.index < ts.length →
      let out := (before ++ .cancel token :: after).run token k ts
      let examined := out.carriedOut.count .examine
      examined ≤ before.count .examine + (every - 1) ∧
      ∀ (env : Env) (r : WalkRequest), env.memberPlan r = before ++ after →
        (ts.IsLive token → before <+: out.carriedOut) ∧
        (out.isCancelled = true ∨ examined = (env.declarations r).length) := by
  intro every k
  have hevery : k.every.toNat = every :=
    (congrArg UInt32.toNat (PollCounter.every_after _ passed)).trans
      (PollCounter.every_ofInterval interval)
  have hpos : 0 < k.every.toNat := hevery ▸ Nat.le_max_right _ _
  refine ⟨hevery ▸ PollCounter.exists_due hpos, fun token ts before after ht => ?_⟩
  intro out examined
  refine ⟨hevery ▸ count_examine_append_le hpos ht before after, fun env r hplan => ⟨?_, ?_⟩⟩
  · intro hl
    have hp : before.IsPlain := fun step hs =>
      env.plain_members r step (hplan ▸ List.mem_append_left after hs)
    exact ⟨_, (carriedOut_append hl before (.cancel token :: after) hp).symm⟩
  · cases hc : out.isCancelled with
    | true => exact .inl rfl
    | false =>
      have hall : out.carriedOut = before ++ .cancel token :: after :=
        (carriedOut_run token k ts _).2.mp hc
      refine .inr ?_
      calc examined
        _ = (before ++ .cancel token :: after).count .examine :=
          congrArg (List.count WalkStep.examine) hall
        _ = (before ++ after).count .examine := by
          rw [List.count_append, List.count_append, count_cancel]
        _ = (env.declarations r).length := by
          rw [← hplan, Env.memberPlan, count_examine]

/-- The root class has three methods, and the token is cancelled when the first one is reported.
With an interval of two one more is examined, and the next check polls the token. -/
theorem cancellation_noticed_root :
    let r : WalkRequest := ⟨Standard.object, {}, .allMethods, none, none, false⟩
    let before : WalkPlan := (Env.standard.memberPlan r).take 2
    let after : WalkPlan := (Env.standard.memberPlan r).drop 2
    let out := (before ++ .cancel ⟨0⟩ :: after).run ⟨0⟩ (.ofInterval 2) [{}]
    out.carriedOut.count .examine ≤ 1 + 1 ∧ before <+: out.carriedOut ∧ out.isCancelled = true ∧
      out.candidates.map (·.member) = [.method Standard.object 0, .method Standard.object 1] := by
  intro r before after out
  have hnoticed := (cancellation_noticed 2 0).2 ⟨0⟩ [{}] before after Nat.one_pos
  have hbefore : before.count .examine = 1 := by decide +kernel
  have hlive : Tokens.IsLive [{}] ⟨0⟩ := fun t ht => Option.some.inj ht ▸ ⟨rfl, rfl⟩
  have hplan : Env.standard.memberPlan r = before ++ after := (List.take_append_drop 2 _).symm
  have hkept := (hnoticed.2 Env.standard r hplan).1 hlive
  exact ⟨hbefore ▸ hnoticed.1, hkept, by decide +kernel, by decide +kernel⟩

end WalkPlan

end DoubleColon
