import DoubleColon.Request

/-!
# Scripts

A provider of expected types answers with a script: a tree of the steps that it takes within a
request, ending with its answer. A script may resolve sites, assume a target for a site while
another script runs, look at the request, cancel it, and act on the world outside of it.

`Script.run` carries out a script, given how sites are resolved.
-/

set_option autoImplicit false

namespace DoubleColon

structure RequestView where
  env : Env
  lenient : Bool
  assumed : SiteId → Option Ty
  underway : List SiteId

inductive Script (ω : Type) : Type → Type 1 where
  | pure {α : Type} (a : α) : Script ω α
  | resolve {α : Type} (site : Site) (next : Option Issued → Script ω α) : Script ω α
  | assuming {α β : Type} (site : SiteId) (target : Ty) (body : Script ω β)
      (next : β → Script ω α) : Script ω α
  | inspect {α : Type} (next : RequestView → Script ω α) : Script ω α
  | cancel {α : Type} (next : Script ω α) : Script ω α
  | act {α : Type} (f : World ω → World ω) (next : World ω → Script ω α) : Script ω α

namespace Script

variable {ω : Type}

instance {α : Type} [Inhabited α] : Inhabited (Script ω α) := ⟨.pure default⟩

def bind {α β : Type} (s : Script ω α) (k : α → Script ω β) : Script ω β :=
  match s with
  | .pure a => k a
  | .resolve site next => .resolve site fun r => (next r).bind k
  | .assuming site target body next => .assuming site target body fun b => (next b).bind k
  | .inspect next => .inspect fun v => (next v).bind k
  | .cancel next => .cancel (next.bind k)
  | .act f next => .act f fun w => (next w).bind k

instance : Monad (Script ω) where
  pure := Script.pure
  bind := Script.bind

def onHost (f : ω → ω) : Script ω Unit :=
  .act (fun w => { w with host := f w.host }) fun _ => .pure ()

def host : Script ω ω := .act id fun w => .pure w.host

def run (cx : Context) (ask : Site → Request ω Issued) {α : Type} :
    Script ω α → Request ω α
  | .pure a => Pure.pure a
  | .resolve site next => do
      let result ← (ask site).attempt
      (next result).run cx ask
  | .assuming site target body next => do
      let b ← (body.run cx ask).assuming site target
      (next b).run cx ask
  | .inspect next => do
      let s ← get
      (next ⟨cx.env, cx.lenient, s.assumed, s.underway⟩).run cx ask
  | .cancel next => do
      Request.onWorld fun w => { w with tokens := w.tokens.cancel cx.token }
      next.run cx ask
  | .act f next => do
      Request.onWorld f
      let s ← get
      (next s.world).run cx ask

end Script

end DoubleColon
