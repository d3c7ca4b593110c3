import CanisLink.Broadcast
import CanisLink.HashMap
import CanisLink.Protocol
/-!
# Signaling — the room of a session and the two peers that meet in it

`services/signaling` keeps a broadcast channel for each session.  `peer_loop` subscribes a peer that has connected;
from then on one task passes what the peer sends on to the room and another what the room hands out on to the peer.
The peers follow `canis-media` or the portal: each joins, the offerer makes its offer and waits for nobody, and each
answers what it reads.

The peer connections themselves are outside: the descriptions they make and the candidates they find come with the
peers.  Time is outside too: `canis-media` sleeps 300 ms before it offers, and any other step may come in between.
-/
namespace CanisLink
namespace Signaling

open Broadcast (Channel)

/-! ## Messages -/

/-- An ICE candidate. -/
structure Candidate where
  candidate : String
  sdpMid : Option String
  sdpMlineIndex : Option UInt16
deriving DecidableEq

/-- `SignalMsg`: what the relay accepts. -/
inductive SignalMsg
  | join (sessionId : SessionId) (dogId : DogId) (role : String)
  | ready (sessionId : SessionId) (dogId : DogId)
  | offer (sessionId : SessionId) (sender : DogId) (sdp : String)
  | answer (sessionId : SessionId) (sender : DogId) (sdp : String)
  | ice (sessionId : SessionId) (sender : DogId) (candidate : Candidate)
  | hangup (sessionId : SessionId) (sender : DogId)
  | error (message : String)
deriving DecidableEq

inductive Role
  | offerer
  | answerer
deriving DecidableEq

def Role.text : Role → String
  | offerer => "offerer"
  | answerer => "answerer"

inductive ClientKind
  | canisMedia
  | portal
deriving DecidableEq

/-- What a peer is started with, and what its peer connection will make and find. -/
structure PeerArgs where
  kind : ClientKind
  dog : DogId
  createOffer : String
  createAnswer : String → String
  candidates : List Candidate

/-- Two peers of one session. -/
structure Rendezvous where
  session : SessionId
  args : Role → PeerArgs

variable (call : Rendezvous)

def Rendezvous.joinMsg (r : Role) : SignalMsg := .join call.session (call.args r).dog r.text

/-- The offer that the offerer makes. -/
def Rendezvous.offerMsg : SignalMsg := .offer call.session (call.args .offerer).dog (call.args .offerer).createOffer

/-! ## A peer -/

/-- How far a peer has come by itself. -/
inductive Phase
  | out
  | connected
  | joined
  | offered
deriving DecidableEq

/-- A peer and its socket: `up` is what it has sent and the relay has not read, `down` what the relay has sent and it
has not read.  Candidates are found once a local description is set. -/
structure Peer where
  phase : Phase := .out
  described : Bool := false
  candidates : List Candidate
  heard : List SignalMsg := []
  remote : Option String := none
  up : List SignalMsg := []
  down : List SignalMsg := []

def Peer.send (p : Peer) (m : SignalMsg) : Peer := { p with up := p.up ++ [m] }

/-- Takes the offer of another dog: `setRemoteDescription`, `createAnswer`, `setLocalDescription`, and the answer. -/
def Peer.takeOffer (r : Role) (sdp : String) (p : Peer) : Peer :=
  { p with remote := some sdp, described := true }.send
    (.answer call.session (call.args r).dog ((call.args r).createAnswer sdp))

/-- `handle_signal` of `canis-media`. -/
def handleSignal (r : Role) (p : Peer) : SignalMsg → Peer
  | .offer _ sender sdp => if sender ≠ (call.args r).dog then p.takeOffer call r sdp else p
  | .answer _ sender sdp => if sender ≠ (call.args r).dog then { p with remote := some sdp } else p
  | _ => p

/-- `ws.onmessage` of the portal, which also looks at its own role. -/
def onMessage (r : Role) (p : Peer) : SignalMsg → Peer
  | .offer _ sender sdp => if sender ≠ (call.args r).dog ∧ r ≠ .offerer then p.takeOffer call r sdp else p
  | .answer _ sender sdp => if sender ≠ (call.args r).dog ∧ r = .offerer then { p with remote := some sdp } else p
  | _ => p

def handle (r : Role) (p : Peer) (m : SignalMsg) : Peer :=
  match (call.args r).kind with
  | .canisMedia => handleSignal call r p m
  | .portal => onMessage call r p m

/-- `canis-media` starts its reader when it has said all it says by itself, the portal before it is connected. -/
def reads (kind : ClientKind) (r : Role) (phase : Phase) : Bool :=
  match kind, r with
  | .portal, _ => decide (phase ≠ .out)
  | .canisMedia, .offerer => decide (phase = .offered)
  | .canisMedia, .answerer => decide (phase = .joined)

/-! ## The whole system -/

structure State where
  rooms : HashMap SessionId (Channel Role SignalMsg) := ∅
  peer : Role → Peer

/-- `App::room_tx`: the channel of the session, a new one if there is none. -/
def State.roomTx (s : State) (session : SessionId) : Channel Role SignalMsg := (s.rooms.lookup session).getD .new

def State.setRoom (s : State) (room : Channel Role SignalMsg) : State :=
  { s with rooms := s.rooms.insert call.session room }

def State.setPeer (s : State) (r : Role) (p : Peer) : State := { s with peer := Function.update s.peer r p }

/-- What the room holds for a peer, none until the peer is in it. -/
def State.queue (s : State) (r : Role) : Option (List SignalMsg) := (s.roomTx call.session).queue r

inductive Action
  | connect (r : Role)
  /-- `peer_loop` begins: `room_tx` and `subscribe`. -/
  | subscribe (r : Role)
  | join (r : Role)
  /-- The offerer creates its offer and sets it as its local description. -/
  | describe
  | offer
  /-- The peer connection finds a candidate. -/
  | candidate (r : Role)
  /-- `recv_task` reads from the socket and sends to the room. -/
  | relay (r : Role)
  /-- `send_task` takes from the room and sends to the socket. -/
  | forward (r : Role)
  /-- The peer reads from its socket. -/
  | receive (r : Role)
deriving DecidableEq

def step (s : State) : Action → Option State
  | .connect r =>
    if (s.peer r).phase = .out then some (s.setPeer r { s.peer r with phase := .connected }) else none
  | .subscribe r =>
    if (s.peer r).phase ≠ .out ∧ s.queue call r = none then
      some (s.setRoom call ((s.roomTx call.session).subscribe r))
    else none
  | .join r =>
    if (s.peer r).phase = .connected then
      some (s.setPeer r ({ s.peer r with phase := .joined }.send (call.joinMsg r)))
    else none
  | .describe =>
    if (s.peer .offerer).phase = .joined ∧ (s.peer .offerer).described = false then
      some (s.setPeer .offerer { s.peer .offerer with described := true })
    else none
  | .offer =>
    if (s.peer .offerer).phase = .joined ∧ (s.peer .offerer).described = true then
      some (s.setPeer .offerer ({ s.peer .offerer with phase := .offered }.send call.offerMsg))
    else none
  | .candidate r =>
    match (s.peer r).candidates, (s.peer r).described with
    | c :: rest, true =>
      some (s.setPeer r ({ s.peer r with candidates := rest }.send (.ice call.session (call.args r).dog c)))
    | _, _ => none
  | .relay r =>
    match (s.peer r).up, s.queue call r with
    | m :: rest, some _ =>
      some ((s.setPeer r { s.peer r with up := rest }).setRoom call ((s.roomTx call.session).send m))
    | _, _ => none
  | .forward r =>
    match (s.roomTx call.session).recv r with
    | some (m, room) => some ((s.setPeer r { s.peer r with down := (s.peer r).down ++ [m] }).setRoom call room)
    | none => none
  | .receive r =>
    match (s.peer r).down, reads (call.args r).kind r (s.peer r).phase with
    | m :: rest, true =>
      some (s.setPeer r (handle call r { s.peer r with down := rest, heard := (s.peer r).heard ++ [m] } m))
    | _, _ => none

/-- Nobody has connected. -/
def start : State where
  peer r := { candidates := (call.args r).candidates }

/-! ## What a step does -/

section

variable {call} {s s' : State} {r : Role} {p : Peer} {room : Channel Role SignalMsg}

@[simp] theorem peer_setPeer (j : Role) : (s.setPeer r p).peer j = if j = r then p else s.peer j :=
  Function.update_apply ..
/-- What holds of a peer, holds of it after another is changed. -/
theorem peer_setPeer_of {P : Peer → Prop} {j : Role} (hj : P (s.peer j)) (hp : r = j → P p) :
    P ((s.setPeer r p).peer j) := by
  rw [peer_setPeer]
  split
  · rename_i h
    exact hp h.symm
  · exact hj
@[simp] theorem peer_setRoom : (s.setRoom call room).peer = s.peer := rfl
@[simp] theorem queue_setPeer (j : Role) : (s.setPeer r p).queue call j = s.queue call j := rfl
theorem queue_setRoom (j : Role) : (s.setRoom call room).queue call j = room.queue j := by
  unfold State.queue State.roomTx State.setRoom
  rw [HashMap.lookup_insert, if_pos rfl]
  rfl
@[simp] theorem queue_enter (j : Role) : (s.setRoom call ((s.roomTx call.session).subscribe r)).queue call j =
    if j = r then some [] else s.queue call j := by
  rw [queue_setRoom, Channel.queue_subscribe]
  rfl
@[simp] theorem queue_relay (m : SignalMsg) (j : Role) :
    ((s.setPeer r p).setRoom call ((s.roomTx call.session).send m)).queue call j = (s.queue call j).map (· ++ [m]) :=
  queue_setRoom j

end

/-- What one step does to the peers and to the room. -/
inductive Step (s : State) : Action → State → Prop
  | connect {r} (hphase : (s.peer r).phase = .out) :
      Step s (.connect r) (s.setPeer r { s.peer r with phase := .connected })
  | subscribe {r} (hin : (s.peer r).phase ≠ .out) (hout : s.queue call r = none) :
      Step s (.subscribe r) (s.setRoom call ((s.roomTx call.session).subscribe r))
  | join {r} (hphase : (s.peer r).phase = .connected) :
      Step s (.join r) (s.setPeer r ({ s.peer r with phase := .joined }.send (call.joinMsg r)))
  | describe (hphase : (s.peer .offerer).phase = .joined) (hd : (s.peer .offerer).described = false) :
      Step s .describe (s.setPeer .offerer { s.peer .offerer with described := true })
  | offer (hphase : (s.peer .offerer).phase = .joined) (hd : (s.peer .offerer).described = true) :
      Step s .offer (s.setPeer .offerer ({ s.peer .offerer with phase := .offered }.send call.offerMsg))
  | candidate {r} {c rest} (hc : (s.peer r).candidates = c :: rest) (hd : (s.peer r).described = true) :
      Step s (.candidate r)
        (s.setPeer r ({ s.peer r with candidates := rest }.send (.ice call.session (call.args r).dog c)))
  | relay {r} {m rest q} (hup : (s.peer r).up = m :: rest) (hin : s.queue call r = some q) :
      Step s (.relay r) ((s.setPeer r { s.peer r with up := rest }).setRoom call ((s.roomTx call.session).send m))
  | forward {r} {m rest room} (hq : s.queue call r = some (m :: rest))
      (hroom : ∀ j, room.queue j = if j = r then some rest else s.queue call j) :
      Step s (.forward r) ((s.setPeer r { s.peer r with down := (s.peer r).down ++ [m] }).setRoom call room)
  | receive {r} {m rest} (hdown : (s.peer r).down = m :: rest)
      (hreads : reads (call.args r).kind r (s.peer r).phase = true) :
      Step s (.receive r)
        (s.setPeer r (handle call r { s.peer r with down := rest, heard := (s.peer r).heard ++ [m] } m))

variable {call}

theorem step_cases {s s' : State} {a : Action} (h : step call s a = some s') : Step call s a s' := by
  cases a with
  | connect r =>
    obtain ⟨hphase, hs⟩ := Option.ite_none_right_eq_some.1 h
    cases hs
    exact .connect hphase
  | subscribe r =>
    obtain ⟨hin, hs⟩ := Option.ite_none_right_eq_some.1 h
    cases hs
    exact .subscribe hin.1 hin.2
  | join r =>
    obtain ⟨hphase, hs⟩ := Option.ite_none_right_eq_some.1 h
    cases hs
    exact .join hphase
  | describe =>
    obtain ⟨hphase, hs⟩ := Option.ite_none_right_eq_some.1 h
    cases hs
    exact .describe hphase.1 hphase.2
  | offer =>
    obtain ⟨hphase, hs⟩ := Option.ite_none_right_eq_some.1 h
    cases hs
    exact .offer hphase.1 hphase.2
  | candidate r =>
    simp only [step] at h
    split at h
    · rename_i c rest hc hd
      cases h
      exact .candidate hc hd
    · cases h
  | relay r =>
    simp only [step] at h
    split at h
    · rename_i m rest q hup hin
      cases h
      exact .relay hup hin
    · cases h
  | forward r =>
    simp only [step] at h
    split at h
    · rename_i m room hrecv
      cases h
      obtain ⟨rest, hq, hroom⟩ := Channel.recv_eq_some hrecv
      exact .forward hq hroom
    · cases h
  | receive r =>
    simp only [step] at h
    split at h
    · rename_i m rest hdown hreads
      cases h
      exact .receive hdown hreads
    · cases h

/-! ## A reader -/

/-- **A peer that reads takes an offer, or changes its remote description at most.** -/
theorem handle_cases (r : Role) (p : Peer) (m : SignalMsg) :
    (∃ remote, (p.remote.isSome = true → remote.isSome = true) ∧ handle call r p m = { p with remote }) ∨
    ∃ session sender sdp, m = .offer session sender sdp ∧ handle call r p m = p.takeOffer call r sdp := by
  have hsame : ∃ remote, (p.remote.isSome = true → remote.isSome = true) ∧ p = { p with remote } := ⟨p.remote, id, rfl⟩
  unfold handle
  cases (call.args r).kind with
  | canisMedia =>
    cases m with
    | offer session sender sdp =>
      simp only [handleSignal]
      split
      · exact .inr ⟨session, sender, sdp, rfl, rfl⟩
      · exact .inl hsame
    | answer session sender sdp =>
      simp only [handleSignal]
      split
      · exact .inl ⟨some sdp, fun _ => rfl, rfl⟩
      · exact .inl hsame
    | _ => exact .inl hsame
  | portal =>
    cases m with
    | offer session sender sdp =>
      simp only [onMessage]
      split
      · exact .inr ⟨session, sender, sdp, rfl, rfl⟩
      · exact .inl hsame
    | answer session sender sdp =>
      simp only [onMessage]
      split
      · exact .inl ⟨some sdp, fun _ => rfl, rfl⟩
      · exact .inl hsame
    | _ => exact .inl hsame

/-- The answerer takes the offer of another dog, whichever client it is. -/
theorem handle_offer (hd : (call.args .offerer).dog ≠ (call.args .answerer).dog) (p : Peer) :
    handle call .answerer p call.offerMsg = p.takeOffer call .answerer (call.args .offerer).createOffer := by
  unfold handle Rendezvous.offerMsg
  cases (call.args .answerer).kind with
  | canisMedia => exact if_pos hd
  | portal => exact if_pos ⟨hd, fun h => by cases h⟩

end Signaling
end CanisLink
