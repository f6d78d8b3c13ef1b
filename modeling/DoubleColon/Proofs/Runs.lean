import DoubleColon.Resolver

/-!
# Running parts of a request

A request is a function of its session. The first lemmas say what the combinators make of it.

Most of a resolution does nothing to a session but poll the token and tell the host of events:
such a part stays outside of what requests depend on. If it polls as it should it has one result,
which it gives unless the token turns out to be cancelled. `Yields` says so, and composes.
-/

set_option autoImplicit false

namespace DoubleColon

/-! ## Tokens -/

namespace Tokens

def isCancelled (ts : Tokens) (id : TokenId) : Bool := ts[id.index]?.any Token.isCancelled

def IsLive (ts : Tokens) (id : TokenId) : Prop :=
  ∀ t, ts[id.index]? = some t → t.isCancelled = false ∧ t.deadline = none

theorem not_cancelled_of_live {ts : Tokens} {id : TokenId} (h : ts.IsLive id) :
    ts.isCancelled id = false := by
  unfold isCancelled
  cases ht : ts[id.index]? with
  | none => rfl
  | some t => exact (h t ht).1

theorem poll_live {ts : Tokens} {id : TokenId} (h : ts.IsLive id) : ts.poll id = (false, ts) := by
  unfold poll
  cases ht : ts[id.index]? with
  | none => rfl
  | some t =>
    obtain ⟨hc, hd⟩ := h t ht
    have hp : t.poll = (false, t) := by simp [Token.poll, hc, hd]
    simp only [hp, Prod.mk.injEq, true_and]
    obtain ⟨hi, rfl⟩ := List.getElem?_eq_some_iff.mp ht
    exact List.set_getElem_self hi

theorem poll_cancelled {ts : Tokens} {id : TokenId} (h : ts.isCancelled id = true) :
    ts.poll id = (true, ts) := by
  unfold isCancelled at h
  unfold poll
  cases ht : ts[id.index]? with
  | none => simp [ht] at h
  | some t =>
    have hp := Token.poll_of_isCancelled (t := t) (by simpa [ht] using h)
    simp only [hp, Prod.mk.injEq, true_and]
    obtain ⟨hi, rfl⟩ := List.getElem?_eq_some_iff.mp ht
    exact List.set_getElem_self hi

theorem cancelled_poll (ts : Tokens) (id : TokenId) :
    (ts.poll id).2.isCancelled id = (ts.poll id).1 := by
  unfold poll isCancelled
  cases ht : ts[id.index]? with
  | none => simp [ht]
  | some t =>
    obtain ⟨hi, -⟩ := List.getElem?_eq_some_iff.mp ht
    have hs : (ts.set id.index t.poll.2)[id.index]? = some t.poll.2 := by simp [hi]
    simp only [hs, Option.any_some]
    unfold Token.poll
    by_cases hc : t.isCancelled = true
    · simp [hc]
    · simp only [Bool.not_eq_true] at hc
      split
      · simp_all
      · split <;> simp_all [Token.cancel]

end Tokens

/-! ## Sessions -/

namespace Session

variable {ω : Type}

def outside (s : Session ω) (host : ω) (tokens : Tokens) : Session ω :=
  { s with world := { s.world with host, tokens } }

def Live (token : TokenId) (s : Session ω) : Prop := s.world.tokens.IsLive token

def polled (token : TokenId) (s : Session ω) : Session ω :=
  s.outside s.world.host (s.world.tokens.poll token).2

@[simp] theorem underway_outside (s : Session ω) (h : ω) (ts : Tokens) :
    (s.outside h ts).underway = s.underway := rfl

@[simp] theorem tokens_outside (s : Session ω) (h : ω) (ts : Tokens) :
    (s.outside h ts).world.tokens = ts := rfl

@[simp] theorem breaks_polled (token : TokenId) (s : Session ω) :
    (s.polled token).breaks = s.breaks := rfl

theorem polled_live {token : TokenId} {s : Session ω} (h : s.Live token) : s.polled token = s := by
  unfold polled
  rw [Tokens.poll_live h]
  rfl

theorem polled_cancelled {token : TokenId} {s : Session ω}
    (h : s.world.tokens.isCancelled token = true) : s.polled token = s := by
  unfold polled
  rw [Tokens.poll_cancelled h]
  rfl

end Session

/-! ## Combinators -/

namespace Request

variable {ω α β : Type}

theorem bind_apply (body : Request ω α) (f : α → Request ω β) (s : Session ω) :
    (body >>= f) s = match body s with
      | (.ok a, t) => f a t
      | (.error e, t) => (.error e, t) := by
  change (match body s with | (a, t) => ExceptT.bindCont f a t) = _
  rcases body s with ⟨a | a, t⟩ <;> rfl

theorem bind_ok {body : Request ω α} {f : α → Request ω β} {s t : Session ω} {a : α}
    (h : body s = (.ok a, t)) : (body >>= f) s = f a t := by
  rw [bind_apply, h]

theorem bind_error {body : Request ω α} {f : α → Request ω β} {s t : Session ω} {e : Interrupt}
    (h : body s = (.error e, t)) : (body >>= f) s = (.error e, t) := by
  rw [bind_apply, h]

@[simp] theorem pure_apply (a : α) (s : Session ω) : (pure a : Request ω α) s = (.ok a, s) := rfl

theorem throw_if_apply (b : Bool) (e : Interrupt) (a : α) (s : Session ω) :
    (if b then throw e else pure a : Request ω α) s = (if b then .error e else .ok a, s) := by
  cases b <;> rfl

theorem map_apply (f : α → β) (body : Request ω α) (s : Session ω) :
    (f <$> body) s = ((body s).1.map f, (body s).2) := by
  rw [map_eq_pure_bind, bind_apply]
  rcases body s with ⟨a | a, t⟩ <;> rfl

theorem modify_bind (f : Session ω → Session ω) (k : Unit → Request ω β) (s : Session ω) :
    ((modify f : Request ω Unit) >>= k) s = k () (f s) := rfl

theorem get_bind (k : Session ω → Request ω β) (s : Session ω) :
    ((get : Request ω (Session ω)) >>= k) s = k s s := rfl

theorem poll_apply (token : TokenId) (s : Session ω) :
    poll token s = (if (s.world.tokens.poll token).1 then .error .cancelled else .ok (),
      s.polled token) := rfl

/-! ## Parts with one result -/

/-- A part of a request that has one result, unless it finds the token cancelled. -/
def Yields (token : TokenId) (body : Request ω α) (v : Except Interrupt α) : Prop :=
  ∀ s : Session ω, s.world.tokens.isCancelled token = false → ∃ host tokens,
    (body s = (v, s.outside host tokens) ∧ tokens.isCancelled token = false ∧
      (s.Live token → tokens = s.world.tokens)) ∨
    (body s = (.error .cancelled, s.outside host tokens) ∧ tokens.isCancelled token = true ∧
      ¬ s.Live token)

variable {token : TokenId}

theorem yields_pure (a : α) : Yields token (pure a : Request ω α) (.ok a) :=
  fun s h => ⟨s.world.host, s.world.tokens, .inl ⟨rfl, h, fun _ => rfl⟩⟩

theorem yields_throw (e : Interrupt) : Yields token (throw e : Request ω α) (.error e) :=
  fun s h => ⟨s.world.host, s.world.tokens, .inl ⟨rfl, h, fun _ => rfl⟩⟩

theorem yields_poll : Yields token (poll token : Request ω Unit) (.ok ()) := by
  intro s h
  refine ⟨s.world.host, (s.world.tokens.poll token).2, ?_⟩
  have hp := Tokens.cancelled_poll s.world.tokens token
  cases hc : (s.world.tokens.poll token).1 with
  | false =>
    refine .inl ⟨by rw [poll_apply, hc]; rfl, by rw [hp, hc], fun hl => ?_⟩
    rw [Tokens.poll_live hl]
  | true =>
    refine .inr ⟨by rw [poll_apply, hc]; rfl, by rw [hp, hc], fun hl => ?_⟩
    rw [Tokens.poll_live hl] at hc
    cases hc

theorem Yields.bind {body : Request ω α} {f : α → Request ω β} {v : Except Interrupt α}
    {g : α → Except Interrupt β} (hb : Yields token body v)
    (hf : ∀ a, v = .ok a → Yields token (f a) (g a)) : Yields token (body >>= f) (v >>= g) := by
  intro s h
  obtain ⟨host, ts, ⟨he, hn, hl⟩ | ⟨he, hc, hl⟩⟩ := hb s h
  · cases v with
    | error e => exact ⟨host, ts, .inl ⟨bind_error he, hn, hl⟩⟩
    | ok a =>
      obtain ⟨host', ts', hcase⟩ := hf a rfl (s.outside host ts) hn
      have hlive : s.Live token → (s.outside host ts).Live token := fun h => by
        rwa [Session.Live, Session.tokens_outside, hl h]
      refine ⟨host', ts', hcase.imp ?_ ?_⟩
      · rintro ⟨he', hn', hl'⟩
        exact ⟨(bind_ok he).trans he', hn', fun h => (hl' (hlive h)).trans (hl h)⟩
      · rintro ⟨he', hc', hl'⟩
        exact ⟨(bind_ok he).trans he', hc', fun h => hl' (hlive h)⟩
  · exact ⟨host, ts, .inr ⟨bind_error he, hc, hl⟩⟩

theorem Yields.map {body : Request ω α} {v : Except Interrupt α} (f : α → β)
    (hb : Yields token body v) : Yields token (f <$> body) (v.map f) := by
  intro s h
  obtain ⟨host, ts, ⟨he, hn, hl⟩ | ⟨he, hc, hl⟩⟩ := hb s h
  · exact ⟨host, ts, .inl ⟨by rw [map_apply, he], hn, hl⟩⟩
  · exact ⟨host, ts, .inr ⟨by rw [map_apply, he]; rfl, hc, hl⟩⟩

/-- Under a live token the result is certain, and the tokens stay as they are. -/
theorem Yields.live {body : Request ω α} {v : Except Interrupt α} (hb : Yields token body v)
    {s : Session ω} (h : s.Live token) :
    ∃ host, body s = (v, s.outside host s.world.tokens) := by
  obtain ⟨host, ts, ⟨he, -, hl⟩ | ⟨-, -, hl⟩⟩ := hb s (Tokens.not_cancelled_of_live h)
  · exact ⟨host, by rw [he, hl h]⟩
  · exact absurd h hl

end Request

end DoubleColon
