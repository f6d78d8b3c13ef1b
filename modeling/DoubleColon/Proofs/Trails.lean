import DoubleColon.Proofs.Interruption

/-!
# Trails

The trail of a request is the tree of the requests within it. A request that breaks a cycle is
bypassed: it computes nothing that others depend on. A keyed request settles the breaks at its
site, and encloses what it asked for on the way; if it had claimed the slot of its site, the
trail also tells what came of the claim. Other requests leave no trace of their own.
-/

set_option autoImplicit false

namespace DoubleColon

structure Claim where
  site : Site
  result : Except Interrupt Issued
  kept : Option Issued

inductive Trail where
  | done
  | bypassed (site : SiteId) (rest : Trail)
  | keyed (site : SiteId) (claim : Option Claim) (inner rest : Trail)

namespace Trail

def append : Trail → Trail → Trail
  | done, u => u
  | bypassed site rest, u => bypassed site (rest.append u)
  | keyed site claim inner rest, u => keyed site claim inner (rest.append u)

/-- The bypassed requests, each with the sites of the keyed requests around it, outermost first. -/
def bypasses : Trail → List (List SiteId × SiteId)
  | done => []
  | bypassed site rest => ([], site) :: rest.bypasses
  | keyed site _ inner rest =>
      inner.bypasses.map (fun p => (site :: p.1, p.2)) ++ rest.bypasses

def unsettled : Trail → List SiteId
  | done => []
  | bypassed site rest => site :: rest.unsettled
  | keyed site _ inner rest => (inner.unsettled.filter fun b => b != site) ++ rest.unsettled

def claims : Trail → List (Claim × Trail)
  | done => []
  | bypassed _ rest => rest.claims
  | keyed _ claim inner rest =>
      (claim.map fun c => (c, inner)).toList ++ inner.claims ++ rest.claims

def Stores (t : Trail) (site : SiteId) (version : Nat) (x : Issued) : Prop :=
  ∃ c ∈ t.claims, c.1.site.id = site ∧ c.1.site.version = version ∧ c.1.kept = some x

@[simp] theorem unsettled_append (t u : Trail) :
    (t.append u).unsettled = t.unsettled ++ u.unsettled := by
  induction t with
  | done => rfl
  | bypassed site rest ih => simp [append, unsettled, ih]
  | keyed site claim inner rest _ ih => simp [append, unsettled, ih]

@[simp] theorem claims_append (t u : Trail) : (t.append u).claims = t.claims ++ u.claims := by
  induction t with
  | done => rfl
  | bypassed site rest ih => exact ih
  | keyed site claim inner rest _ ih => simp [append, claims, ih]

/-- A break is left open by a bypassed request that no keyed request of its site encloses. -/
theorem mem_unsettled {t : Trail} {b : SiteId} :
    b ∈ t.unsettled ↔ ∃ path, (path, b) ∈ t.bypasses ∧ b ∉ path := by
  induction t with
  | done => simp [unsettled, bypasses]
  | bypassed site rest ih =>
    simp only [unsettled, bypasses, List.mem_cons, ih, Prod.mk.injEq]
    constructor
    · rintro (rfl | ⟨path, hp, hb⟩)
      · exact ⟨[], .inl ⟨rfl, rfl⟩, List.not_mem_nil⟩
      · exact ⟨path, .inr hp, hb⟩
    · rintro ⟨path, ⟨-, rfl⟩ | hp, hb⟩
      · exact .inl rfl
      · exact .inr ⟨path, hp, hb⟩
  | keyed site claim inner rest ihi ihr =>
    simp only [unsettled, bypasses, List.mem_append, List.mem_filter, List.mem_map, ihi, ihr,
      Prod.mk.injEq, bne_iff_ne]
    constructor
    · rintro (⟨⟨path, hp, hb⟩, hne⟩ | ⟨path, hp, hb⟩)
      · exact ⟨site :: path, .inl ⟨(path, b), hp, rfl, rfl⟩, by simp [hb, hne]⟩
      · exact ⟨path, .inr hp, hb⟩
    · rintro ⟨_, ⟨p, hp, rfl, rfl⟩ | hp, hb⟩
      · rw [List.mem_cons, not_or] at hb
        exact .inl ⟨⟨p.1, hp, hb.2⟩, hb.1⟩
      · exact .inr ⟨_, hp, hb⟩

end Trail

/-! ## The trail of a run -/

def Script.trail {ω : Type} (cx : Context) (ask : Site → Request ω Issued)
    (look : Site → Session ω → Trail) {α : Type} : Script ω α → Session ω → Trail
  | .pure _, _ => .done
  | .resolve site next, s => match (ask site).attempt s with
    | (.ok x, t) => (look site s).append ((next x).trail cx ask look t)
    | (.error _, _) => look site s
  | .assuming site target body next, s =>
      let inner := body.trail cx ask look (s.assume site (some target))
      match (body.run cx ask).assuming site target s with
      | (.ok b, t) => inner.append ((next b).trail cx ask look t)
      | (.error _, _) => inner
  | .inspect next, s => (next ⟨cx.env, cx.lenient, s.assumed, s.underway⟩).trail cx ask look s
  | .cancel next, s =>
      next.trail cx ask look
        (s.onWorld fun w => { w with tokens := w.tokens.cancel cx.token })
  | .act f next, s => (next (f s.world)).trail cx ask look (s.onWorld f)

namespace Resolver

variable {ω : Type}

def trailWith (r : Resolver ω) (cx : Context) (derive : Site → Request ω (Option Ty))
    (look : Site → Session ω → Trail) (site : Site) (s : Session ω) : Trail :=
  let inner t := if cx.env.asks site then look site t else .done
  match r.route cx site s with
  | .refused | .hit _ | .waiting => .done
  | .bypassed _ | .reentrant => .bypassed site.id .done
  | .uncached => inner (s.polled cx.token)
  | .unstored => .keyed site.id none (inner ((s.polled cx.token).slotted site.id)) .done
  | .claiming =>
      let (result, t) := r.resolveWith cx derive site s
      .keyed site.id
        (some ⟨site, result, t.world.cache.get? site.id site.version cx.lenient⟩)
        (inner ((s.polled cx.token).claiming cx site)) .done

def trail (r : Resolver ω) (cx : Context) : Nat → Site → Session ω → Trail
  | 0 => r.trailWith cx (r.expectedType cx 0) fun _ _ => .done
  | n + 1 => r.trailWith cx (r.expectedType cx (n + 1)) fun site s =>
      (r.provider site).trail cx (r.resolveWithin cx n) (r.trail cx n) (s.entering site.id)

end Resolver

end DoubleColon
