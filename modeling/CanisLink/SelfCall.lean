import CanisLink.BondsKept
import CanisLink.Handling
/-!
# SelfCall — when a dog is connected to itself

`route_invite` refuses the caller as the preferred peer, but not as a candidate: a call that names no peer goes to the
strongest candidate present, and a dog that a bond request names twice is a candidate of itself.  While no call is let
in that way, every open invite and every session is between two dogs.
-/
namespace CanisLink

open Interleave (Prog)

/-- Every open invite and every session is between two dogs. -/
structure World.TwoDogs (w : World) : Prop where
  invites : ∀ {id inv}, w.data.invites.get id = some inv → inv.fromDog ≠ inv.toDog
  sessions : ∀ {id x}, w.data.sessions.get id = some x → x.dogA ≠ x.dogB

theorem twoDogs_empty {w : World} (h : w.data = {}) : w.TwoDogs := by
  constructor
  · intro id inv hinv
    rw [h] at hinv
    cases hinv
  · intro id x hx
    rw [h] at hx
    cases hx

/-- The first of the dog's candidates that is present. -/
def strongestPresent (st : AppState) (w : World) (now : DateTime) (d : DogId) : Option DogId :=
  ((w.data.bonds.candidates st.order d).find?
    (fun c => (w.data.presence.presentDogIds st.order now).contains c.1)).map (·.1)

/-- A call that `create_invite` routes: credentials, policy and rate are in order, the caller is free and present. -/
def letIn (st : AppState) (w : World) (now : DateTime) (h : HeaderMap) (b : CreateInviteBody) : Bool :=
  (verifyDevice st h b.terminalId b.dogId).isOk && (socialAllowed (w.data.policies.current b.dogId) now).isOk &&
    (inviteRateOk (w.data.invites.invitesLastHour b.dogId now).1
      (w.data.policies.current b.dogId).maxInvitesPerHour).isOk &&
    ((w.data.invites.expireDue st.order now).2.forDog b.dogId).isNone && (w.data.sessions.forDog b.dogId).isNone &&
    w.data.presence.isPresent b.dogId now

/-- A call without a preferred peer is let in, and the strongest candidate present is the caller. -/
def callsSelf (st : AppState) (s : Server) (a : Arrival) : Bool :=
  match a.req with
  | .createInvite h b =>
    letIn st s.world (a.clock 0) h b && b.toDog.isNone &&
      decide (strongestPresent st s.world (a.clock 0) b.dogId = some b.dogId)
  | _ => false

def CallsAnother (st : AppState) (s : Server) (a : Arrival) : Prop := callsSelf st s a = false

instance (st : AppState) (s : Server) (a : Arrival) : Decidable (CallsAnother st s a) :=
  inferInstanceAs (Decidable (_ = _))

section

variable {st : AppState} {w : World} {now : DateTime} {h : HeaderMap} {b : CreateInviteBody}

/-- The routing finds the caller only as the strongest candidate present. -/
theorem routeInvite_self {ord : IterOrder} {g : BondGraph} {d : DogId} {preferred : Option DogId} {present : List DogId}
    {callerPresent : Bool} : routeInvite ord d preferred g present callerPresent = .ok d ↔ callerPresent = true ∧
      preferred = none ∧ ((g.candidates ord d).find? (fun c => present.contains c.1)).map (·.1) = some d := by
  unfold routeInvite
  cases callerPresent with
  | false => simp
  | true =>
    cases preferred with
    | some peer =>
      simp only [Bool.not_true, Bool.false_eq_true, if_false, reduceCtorEq, false_and, and_false, iff_false]
      by_cases hpeer : peer = d
      · rw [if_pos hpeer]
        exact nofun
      · rw [if_neg hpeer]
        split
        · exact nofun
        · split
          · exact nofun
          · intro hok
            exact hpeer (Except.ok.inj hok)
    | none =>
      cases hf : (g.candidates ord d).find? (fun c => present.contains c.1) with
      | none => simp
      | some c => simp

/-- **A call gets through to the caller** exactly as `callsSelf` says. -/
theorem callThrough_self : callThrough st w now h b = some b.dogId ↔
    letIn st w now h b = true ∧ b.toDog = none ∧ strongestPresent st w now b.dogId = some b.dogId := by
  have hroute := @routeInvite_self st.order w.data.bonds b.dogId b.toDog
    (w.data.presence.presentDogIds st.order now) (w.data.presence.isPresent b.dogId now)
  unfold callThrough letIn strongestPresent
  simp only [Bool.and_eq_true]
  constructor
  · intro hself
    split at hself
    · rename_i hguard
      obtain ⟨⟨⟨hverified, hallowed⟩, hrate⟩, hfree⟩ := hguard
      split at hself
      · rename_i peer hpeer
        split at hself
        · cases hself
          obtain ⟨hpresent, hnone, hfind⟩ := hroute.1 hpeer
          exact ⟨⟨⟨⟨⟨⟨hverified, hallowed⟩, hrate⟩, hfree.1⟩, hfree.2⟩, hpresent⟩, hnone, hfind⟩
        · cases hself
      · cases hself
    · cases hself
  · rintro ⟨⟨⟨⟨⟨⟨hverified, hallowed⟩, hrate⟩, hinvite⟩, hsession⟩, hpresent⟩, hnone, hfind⟩
    rw [if_pos ⟨⟨⟨hverified, hallowed⟩, hrate⟩, hinvite, hsession⟩, hroute.2 ⟨hpresent, hnone, hfind⟩]
    exact if_pos ⟨hallowed, hinvite, hsession⟩

/-- A dog is found so only over a bond to itself. -/
theorem bonded_of_strongest {d : DogId} (hd : strongestPresent st w now d = some d) :
    w.data.bonds.mutualEligible d d = true := by
  obtain ⟨⟨peer, weight⟩, hfind, rfl⟩ := Option.map_eq_some_iff.1 hd
  obtain ⟨-, -, hmin⟩ := BondGraph.mem_candidates.1 (List.mem_of_find?_eq_some hfind)
  unfold BondGraph.mutualEligible
  rw [decide_eq_true hmin]
  rfl

end

section

variable {st : AppState} {s : Server} {a : Arrival}

theorem twoDogs_step (h : s.world.TwoDogs) (hc : CallsAnother st s a) : (s.serve st a).world.TwoDogs := by
  have hh := Server.serve_handled st s a
  constructor
  · intro id inv hinv
    rcases hh.invite hinv with hold | ⟨hd, b, hreq, through, caller, -⟩
    · exact h.invites hold
    · intro hself
      obtain ⟨hin, hnone, hstrongest⟩ := callThrough_self.1 (through.trans (by rw [← hself, caller]))
      unfold CallsAnother callsSelf at hc
      rw [hreq] at hc
      dsimp only at hc
      rw [hin, hnone, decide_eq_true hstrongest] at hc
      cases hc
  · intro id x hx
    rcases hh.session hx with ⟨y, hy, hl⟩ | ⟨hd, i, b, dog, inv, -, through, begins, -⟩
    · have hdogs : x.dogA = y.dogA ∧ x.dogB = y.dogB := by cases hl <;> exact ⟨rfl, rfl⟩
      rw [hdogs.1, hdogs.2]
      exact h.sessions hy
    · rw [begins.dogA, begins.dogB]
      exact h.invites (acceptThrough_some through).2.1

end

/-- **While no call goes to the caller, no dog is connected to itself**: over every run of requests, every open invite
and every session is between two dogs. -/
theorem two_dogs (st : AppState) (s : Server) (hs : s.world.TwoDogs) (as : List Arrival)
    (hm : s.Meets st (CallsAnother st) as) : (s.serveAll st as).world.TwoDogs :=
  Server.serveAll_inv (I := fun s => s.world.TwoDogs) (fun _ _ h hc => twoDogs_step h hc) as s hs hm

/-- Dog `n` calls whoever is there. -/
def callAny (n : Uuid) : Request :=
  .createInvite (device n) { mode := .portal, toDog := none, dogId := ⟨n⟩, terminalId := ⟨n⟩ }

/-- Dog 1, bonded to itself and more strongly to dog 2, calls whoever is there, and dog 2 accepts. -/
def strongerPeer : List (DateTime × Request) :=
  [.devBootstrapBond ⟨1⟩ ⟨1⟩ (1 / 2), .devBootstrapBond ⟨1⟩ ⟨2⟩ 1, stepOn 1 noon, stepOn 2 noon, callAny 1,
    .acceptInvite (device 2) 0 (jsonBody 2)].map (fun r => (noon, r))

theorem two_dogs_peer : (Server.serveAll bench ⟨fresh, noon⟩ (Server.timed strongerPeer)).world.TwoDogs :=
  two_dogs bench ⟨fresh, noon⟩ (twoDogs_empty rfl) (Server.timed strongerPeer) (by decide +kernel)

/-- Dog 1, bonded to itself, calls whoever is there. -/
def selfCall : List (DateTime × Request) :=
  [.devBootstrapBond ⟨1⟩ ⟨1⟩ 1, stepOn 1 noon, callAny 1].map (fun r => (noon, r))

/-- **A dog calls itself**: its invite rings at its own terminal. -/
theorem called_self : ¬ ∀ (st : AppState) (s : Server) (as : List Arrival), s.world.data = {} →
    (s.serveAll st as).world.TwoDogs := by
  intro h
  have htwo := h bench ⟨fresh, noon⟩ (Server.timed selfCall) rfl
  have hself : ((Server.serveAll bench ⟨fresh, noon⟩ (Server.timed selfCall)).world.data.invites.get ⟨0⟩).any
      (fun inv => decide (inv.fromDog = inv.toDog)) = true := by decide +kernel
  obtain ⟨inv, hinv, heq⟩ := (Option.any_eq_true _ _).1 hself
  exact htwo.invites hinv (of_decide_eq_true heq)

end CanisLink
