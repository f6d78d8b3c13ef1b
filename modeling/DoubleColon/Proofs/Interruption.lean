import DoubleColon.Proofs.Frames

/-!
# Cancelled requests

A token that is cancelled stays so, and only a cancelled token makes a request end as cancelled.
A request under a cancelled token is refused before it has done anything. So a script that hides a
cancellation goes on without doing anything either, and the poll that follows the provider
reports what it hid.
-/

set_option autoImplicit false

namespace DoubleColon

namespace Session

variable {ω : Type}

def IsCancelled (token : TokenId) (s : Session ω) : Prop :=
  s.world.tokens.isCancelled token = true

theorem not_cancelled {token : TokenId} {s : Session ω} :
    ¬ s.IsCancelled token ↔ s.world.tokens.isCancelled token = false :=
  Bool.eq_false_iff.symm

end Session

namespace Request

variable {ω α β : Type} {token : TokenId}

def Tells (token : TokenId) (body : Request ω α) : Prop :=
  ∀ s, (s.IsCancelled token ∨ (body s).1 = .error .cancelled) → (body s).2.IsCancelled token

theorem Tells.bind {body : Request ω α} {f : α → Request ω β} (hb : Tells token body)
    (hf : ∀ a, Tells token (f a)) : Tells token (body >>= f) := by
  intro s
  rw [bind_apply]
  have h := hb s
  generalize body s = out at h ⊢
  rcases out with ⟨e | a, t⟩
  · exact fun hs => h (hs.imp_right fun he => congrArg Except.error (Except.error.inj he))
  · exact fun hs => hf a t (hs.imp_left fun hc => h (.inl hc))

theorem tells_pure (a : α) : Tells token (pure a : Request ω α) :=
  fun _ h => h.elim id fun he => nomatch he

theorem tells_throw {e : Interrupt} (he : e ≠ .cancelled) :
    Tells token (throw e : Request ω α) :=
  fun _ h => h.elim id fun h => absurd (Except.error.inj h) he

theorem tells_get : Tells token (get : Request ω (Session ω)) :=
  fun _ h => h.elim id fun he => nomatch he

theorem tells_modify {f : Session ω → Session ω}
    (hf : ∀ s, s.IsCancelled token → (f s).IsCancelled token) :
    Tells token (modify f : Request ω Unit) :=
  fun s h => h.elim (hf s) fun he => nomatch he

theorem tells_world {f : World ω → World ω} (hf : ∀ w, (f w).tokens = w.tokens) :
    Tells token (onWorld f : Request ω Unit) :=
  tells_modify fun s h => (congrArg (Tokens.isCancelled · token) (hf s.world)).trans h

theorem tells_issue (x : Resolution) : Tells token (issue x : Request ω Issued) :=
  fun _ h => h.elim id fun he => nomatch he

theorem tells_poll : Tells token (poll token : Request ω Unit) := by
  intro s h
  have hp := Tokens.cancelled_poll s.world.tokens token
  rw [poll_apply] at h ⊢
  cases hc : (s.world.tokens.poll token).1 with
  | true => exact hp.trans hc
  | false =>
    rcases h with h | h
    · rw [Session.polled_cancelled h]
      exact h
    · simp [hc] at h

theorem Yields.tells {body : Request ω α} {v : Except Interrupt α} (hb : Yields token body v)
    (hv : v ≠ .error .cancelled)
    (hc : ∀ s, s.IsCancelled token → (body s).2.IsCancelled token) : Tells token body := by
  intro s h
  by_cases hs : s.IsCancelled token
  · exact hc s hs
  · have h := h.resolve_left hs
    obtain ⟨host, ts, ⟨he, -, -⟩ | ⟨he, ht, -⟩⟩ := hb s (Session.not_cancelled.mp hs)
    · rw [he] at h
      exact absurd h hv
    · rw [he]
      exact ht

theorem Tells.attempt {body : Request ω α} (hb : Tells token body) :
    Tells token body.attempt := by
  intro s
  rw [attempt_apply]
  have h := hb s
  generalize body s = out at h ⊢
  rcases out with ⟨e | a, t⟩
  · cases e with
    | cancelled => exact fun _ => h (.inr rfl)
    | _ => exact fun hs => h (hs.imp_right fun he => by cases he)
  · exact fun hs => h (hs.imp_right fun he => by cases he)

theorem Tells.assuming {body : Request ω α} (hb : Tells token body) (site : SiteId)
    (target : Ty) : Tells token (body.assuming site target) :=
  fun s => hb (s.assume site (some target))

theorem Tells.underway {body : Request ω α} (hb : Tells token body) (site : SiteId) :
    Tells token (body.whileUnderway site) := by
  intro s
  unfold whileUnderway
  split
  · exact hb s
  · exact hb { s with underway := site :: s.underway }

theorem Tells.onInterrupt {body : Request ω α} {after : Session ω → Session ω}
    (hb : Tells token body) (ha : ∀ s, s.IsCancelled token → (after s).IsCancelled token) :
    Tells token (body.onInterrupt after) := by
  intro s
  unfold Request.onInterrupt
  have h := hb s
  generalize body s = out at h ⊢
  rcases out with ⟨e | a, t⟩
  · exact fun hs => ha t (h (hs.imp_right fun he => he))
  · exact h

end Request

namespace Resolver

variable {ω : Type} {r : Resolver ω} {cx : Context} {site : Site}

theorem value_ne_cancelled (env : Env) (site : Site) (interface : Option Ty) :
    r.value env site interface ≠ .error .cancelled := by
  have hchoice : ∀ q subst target cs,
      r.choiceAmong env q subst target cs ≠ .error .cancelled := by
    intro q subst target cs
    unfold choiceAmong
    (repeat' split) <;> simp
  unfold value
  split
  · rename_i q _ _
    unfold valueInClass
    dsimp only
    split
    · simp [Except.map]
    · simp [Except.map]
    · rename_i request _
      have hc := hchoice q (env.ownerSubst site q (interface.bind env.functionType))
        (interface.bind env.functionType) (r.walker env request).reported
      generalize r.choiceAmong env q _ _ _ = c at hc ⊢
      cases c with
      | error e => simpa [Except.map, bind, Except.bind] using hc
      | ok c => simp [Except.map, bind, Except.bind]
  · simp

/-- The poll after the provider reports a cancellation that the provider has hidden. -/
theorem conclusion_cancelled {s : Session ω} (h : s.IsCancelled cx.token)
    (interface : Option Ty) :
    r.conclusion cx site interface s = (.error .cancelled, s) := by
  have hp : Request.poll cx.token s = (.error .cancelled, s) := by
    rw [Request.poll_apply, Tokens.poll_cancelled h, Session.polled_cancelled h]
    rfl
  exact Request.bind_error hp

/-- A request under a cancelled token is refused, and changes nothing. -/
theorem with_cancelled {s : Session ω} (h : s.IsCancelled cx.token)
    (derive : Site → Request ω (Option Ty)) :
    r.resolveWith cx derive site s = (.error .cancelled, s) := by
  have hp : Request.poll cx.token s = (.error .cancelled, s) := by
    rw [Request.poll_apply, Tokens.poll_cancelled h, Session.polled_cancelled h]
    rfl
  exact Request.bind_error hp

end Resolver

/-- A script under a cancelled token is refused whatever it asks for, and comes to its end. -/
theorem Script.run_cancelled {ω α : Type} {cx : Context} {ask : Site → Request ω Issued}
    (ha : ∀ site (s : Session ω), s.IsCancelled cx.token →
      ask site s = (.error .cancelled, s))
    {script : Script ω α} (hs : script.IsPure) {s : Session ω} (h : s.IsCancelled cx.token) :
    ∃ a, script.run cx ask s = (.ok a, s) := by
  induction script generalizing s with
  | pure a => exact ⟨a, rfl⟩
  | resolve site next ih =>
    obtain ⟨a, he⟩ := ih none (hs none) h
    refine ⟨a, ?_⟩
    rw [Script.run, Request.bind_apply, Request.attempt_apply, ha site s h]
    exact he
  | assuming site target body next ihb ihn =>
    obtain ⟨b, hb⟩ := ihb hs.1 (s := s.assume site (some target)) h
    obtain ⟨a, he⟩ := ihn b (hs.2 b) h
    refine ⟨a, ?_⟩
    rw [Script.run, Request.bind_apply, Request.assuming_apply, hb]
    dsimp only
    rw [Session.assume_assume]
    exact he
  | inspect next ih => exact ih _ (hs _) h
  | cancel next => exact hs.elim
  | act f next => exact hs.elim

/-! ## Requests tell of a cancellation -/

namespace Resolver

variable {ω : Type} {r : Resolver ω} {cx : Context}

theorem tells_report (hw : ∀ q, (r.walker cx.env q).IsPlain)
    {derive : Site → Request ω (Option Ty)}
    (hd : ∀ site, Request.Tells cx.token (derive site)) (site : Site) (source : TargetOrigin) :
    Request.Tells cx.token (r.resolveOrReport cx derive site source) := by
  intro s
  cases ha : cx.env.asks site with
  | false =>
    obtain ⟨host, he⟩ := unasked_apply (r := r) ha derive source s
    rw [he]
    exact fun h => h.elim id fun h => nomatch h
  | true =>
    rw [asked_apply ha]
    have hi : Request.Tells cx.token (interfaceOf derive site source) := by
      cases source with
      | fromProvider => exact hd site
      | _ => exact Request.tells_pure _
    refine hi.bind (fun interface => ?_) s
    refine (yields_conclusion hw ha interface).tells (value_ne_cancelled _ _ _) fun s h => ?_
    rw [conclusion_cancelled h]
    exact h

theorem tells_keyed (hw : ∀ q, (r.walker cx.env q).IsPlain)
    {derive : Site → Request ω (Option Ty)}
    (hd : ∀ site, Request.Tells cx.token (derive site)) (site : Site) (source : TargetOrigin) :
    Request.Tells cx.token (r.resolveKeyed cx derive site source) := by
  refine Request.tells_get.bind fun s => ?_
  refine (tells_report hw hd site source).bind fun x => ?_
  intro s h
  exact h.elim id fun h => nomatch h

theorem tells_with (hw : ∀ q, (r.walker cx.env q).IsPlain)
    {derive : Site → Request ω (Option Ty)}
    (hd : ∀ site, Request.Tells cx.token (derive site)) (site : Site) :
    Request.Tells cx.token (r.resolveWith cx derive site) := by
  have hnote : Request.Tells cx.token (noteBreak site.id : Request ω Unit) :=
    Request.tells_modify fun _ h => h
  have hissue : ∀ source, Request.Tells cx.token
      (r.resolveOrReport cx derive site source >>= Request.issue) := fun source =>
    (tells_report hw hd site source).bind fun x => Request.tells_issue x
  have hkeyed : ∀ source, Request.Tells cx.token
      (r.resolveKeyed cx derive site source >>= fun x => Request.issue x.1) := fun source =>
    (tells_keyed hw hd site source).bind fun x => Request.tells_issue x.1
  refine Request.tells_poll.bind fun _ => Request.tells_get.bind fun s => ?_
  split
  · exact hnote.bind fun _ => hissue _
  · split
    · exact hnote.bind fun _ => hissue _
    · split
      · refine Request.tells_get.bind fun s => ?_
        dsimp only
        refine Request.Tells.bind (Request.tells_world ?_) fun _ => ?_
        · exact fun _ => rfl
        split
        · exact Request.tells_pure _
        · exact Request.tells_throw (by decide)
        · exact hnote.bind fun _ => hkeyed _
        · exact hkeyed _
        · refine Request.Tells.bind (Request.tells_world ?_) fun _ =>
            Request.Tells.onInterrupt ?_ fun _ h => h
          · exact fun _ => rfl
          · exact (tells_keyed hw hd site .fromProvider).bind fun x =>
              (Request.tells_issue x.1).bind fun y =>
                Request.Tells.bind (Request.tells_modify fun _ h => h) fun _ =>
                  Request.tells_pure y
      · exact hissue _

theorem tells_script {α : Type} {ask : Site → Request ω Issued}
    (ha : ∀ site, Request.Tells cx.token (ask site)) {script : Script ω α}
    (hs : script.IsConfined) : Request.Tells cx.token (script.run cx ask) := by
  induction script with
  | pure a => exact Request.tells_pure a
  | resolve site next ih => exact (ha site).attempt.bind fun x => ih x (hs x)
  | assuming site target body next ihb ihn =>
    exact ((ihb hs.1).assuming site target).bind fun b => ihn b (hs.2 b)
  | inspect next ih => exact Request.tells_get.bind fun s => ih _ (hs _)
  | cancel next => exact hs.elim
  | act f next ih =>
    have hf : ∀ w, (f w).tokens = w.tokens := fun w => by rw [hs.1 w]
    exact (Request.tells_world hf).bind fun _ => Request.tells_get.bind fun s => ih _ (hs.2 _)

/-- A request ends as cancelled only under a cancelled token. -/
theorem tells_within (hw : ∀ q, (r.walker cx.env q).IsPlain)
    (hp : ∀ site, (r.provider site).IsConfined) (n : Nat) (site : Site) :
    Request.Tells cx.token (r.resolveWithin cx n site) := by
  induction n generalizing site with
  | zero =>
    exact tells_with hw (fun _ => Request.tells_throw (by decide)) site
  | succ n ih =>
    exact tells_with hw (fun site => (tells_script ih (hp site)).underway site.id) site

end Resolver

end DoubleColon
