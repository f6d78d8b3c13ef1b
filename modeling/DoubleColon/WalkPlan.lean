import DoubleColon.Cancellation
import DoubleColon.MemberWalk

/-!
# Plans of a walk

A walk is carried out from a plan, a list of steps: examine a declaration, which may be the
occasion to poll the token; report a candidate; cancel a token; give up. The plan for a list of
declarations examines each one and reports the candidate that it gives. Whoever receives the
candidates may end a walk early or cancel a token, which cuts the plan off or adds a step to it.
-/

set_option autoImplicit false

namespace DoubleColon

inductive WalkStep where
  | examine
  | report (c : Candidate)
  | cancel (t : TokenId)
  | abort
  deriving DecidableEq

abbrev WalkPlan := List WalkStep

namespace WalkPlan

def ofDeclaration : Option Candidate → WalkPlan
  | none => [.examine]
  | some c => [.examine, .report c]

def ofDeclarations (ds : List (Option Candidate)) : WalkPlan := ds.flatMap ofDeclaration

def stopAfter (n : Nat) : WalkPlan → WalkPlan
  | [] => []
  | .report c :: rest => .report c :: if n ≤ 1 then [] else stopAfter (n - 1) rest
  | step :: rest => step :: stopAfter n rest

def cancelBefore (n : Nat) (t : TokenId) : WalkPlan → WalkPlan
  | [] => []
  | .report c :: rest =>
      if n = 1 then .cancel t :: .report c :: rest else .report c :: cancelBefore (n - 1) t rest
  | step :: rest => step :: cancelBefore n t rest

def cancelAfter (n : Nat) (t : TokenId) (plan : WalkPlan) : WalkPlan :=
  if n = 0 then .cancel t :: plan else go n plan
where
  go (n : Nat) : WalkPlan → WalkPlan
    | [] => []
    | .report c :: rest =>
        if n ≤ 1 then .report c :: .cancel t :: rest else .report c :: go (n - 1) rest
    | step :: rest => step :: go n rest

end WalkPlan

/-- What a walk leaves: the steps that were carried out, whether it was abandoned with the next one,
and the tokens. -/
structure WalkOutcome where
  carriedOut : WalkPlan
  isCancelled : Bool
  tokens : Tokens
  deriving DecidableEq

def WalkPlan.reported : WalkPlan → List Candidate
  | [] => []
  | .report c :: rest => c :: reported rest
  | _ :: rest => reported rest

namespace WalkOutcome

def candidates (out : WalkOutcome) : List Candidate := out.carriedOut.reported

def following (step : WalkStep) (out : WalkOutcome) : WalkOutcome :=
  { out with carriedOut := step :: out.carriedOut }

variable (step : WalkStep) (out : WalkOutcome)

@[simp] theorem carriedOut_following :
    (out.following step).carriedOut = step :: out.carriedOut := rfl

@[simp] theorem isCancelled_following : (out.following step).isCancelled = out.isCancelled := rfl

@[simp] theorem tokens_following : (out.following step).tokens = out.tokens := rfl

end WalkOutcome

def WalkPlan.run (token : TokenId) : PollCounter → Tokens → WalkPlan → WalkOutcome
  | _, ts, [] => ⟨[], false, ts⟩
  | k, ts, .examine :: rest =>
      if k.isDue then
        let (cancelled, ts) := ts.poll token
        if cancelled then ⟨[], true, ts⟩ else (run token k.advance ts rest).following .examine
      else (run token k.advance ts rest).following .examine
  | k, ts, .report c :: rest => (run token k ts rest).following (.report c)
  | k, ts, .cancel t :: rest => (run token k (ts.cancel t) rest).following (.cancel t)
  | _, ts, .abort :: _ => ⟨[], true, ts⟩

def Env.memberPlan (env : Env) (r : WalkRequest) : WalkPlan :=
  .ofDeclarations (env.declarations r)

end DoubleColon
