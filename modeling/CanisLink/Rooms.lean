import CanisLink.Feed
import CanisLink.HashMap
import CanisLink.Protocol
/-!
# Rooms — the relay of `services/signaling`, with any number of rooms and peers

`peer_loop` subscribes a peer to the channel of its session.  `recv_task` reads from the peer and sends what parses as a
`SignalMsg` to the channel, the peer's own words included; `send_task` passes on what the channel hands out, and ends
when the channel has lost something.  Once one has ended the other is aborted, at some later step.  So a peer that is
still served has missed nothing, and hears nothing of another room.
-/
namespace CanisLink
namespace Rooms

/-- The capacity of a room's channel. -/
def roomCapacity : Nat := 64

/-- A connected peer and what was sent to it, and whether `send_task` and `recv_task` run. -/
structure Peer where
  session : SessionId
  rx : Feed.Receiver String
  written : List String := []
  sending : Bool := true
  reading : Bool := true

/-- `App`: what was sent in each room; and the peers. -/
structure State where
  rooms : HashMap SessionId (List String) := ∅
  peers : List Peer := []

inductive Action
  | connect (session : SessionId)
  /-- `recv_task` reads a text. -/
  | text (n : Nat) (t : String)
  /-- `recv_task` reads a close, an error or the end of the stream. -/
  | leave (n : Nat)
  /-- `send_task` takes from the channel; `ok` is whether the socket accepts what is sent before the task is aborted. -/
  | forward (n : Nat) (ok : Bool)
  /-- `select!` sees that a task has ended, and aborts the other. -/
  | abort (n : Nat)

/-- What was sent in a room. -/
def State.room (s : State) (session : SessionId) : List String := (s.rooms.lookup session).getD []

/-- `room_tx` and `subscribe`. -/
def State.enter (s : State) (session : SessionId) : State where
  rooms := if session ∈ s.rooms then s.rooms else s.rooms.insert session []
  peers := s.peers ++ [{ session, rx := Feed.subscribe (s.room session) }]

def Peer.forward (sent : List String) (ok : Bool) (p : Peer) : Peer :=
  match p.rx.recv roomCapacity sent with
  | (.message m, rx) =>
    if ok then { p with rx, written := p.written ++ [m] } else { p with rx, sending := false }
  | (.lagged _, rx) => { p with rx, sending := false }
  | (.empty, _) => p

def Peer.abort (p : Peer) : Peer :=
  if p.sending && p.reading then p else { p with sending := false, reading := false }

/-- What an action sends, and to which room: a text that parses, of a peer that is read. -/
def State.sends (valid : String → Bool) (s : State) : Action → Option (SessionId × String)
  | .text n t => (s.peers[n]?).bind (fun p => if p.reading && valid t then some (p.session, t) else none)
  | _ => none

def State.send (s : State) : Option (SessionId × String) → State
  | some (session, t) => { s with rooms := s.rooms.insert session (s.room session ++ [t]) }
  | none => s

/-- What of it a room hears. -/
def heardIn (session : SessionId) : Option (SessionId × String) → List String
  | some (room, t) => if room = session then [t] else []
  | none => []

/-- The relay, where `valid` is what parses as a `SignalMsg`. -/
def step (valid : String → Bool) (s : State) : Action → State
  | .connect session => s.enter session
  | .text n t => s.send (s.sends valid (.text n t))
  | .leave n => { s with peers := s.peers.modify n (fun p => { p with reading := false }) }
  | .forward n ok =>
    { s with peers := s.peers.modify n (fun p => if p.sending then p.forward (s.room p.session) ok else p) }
  | .abort n => { s with peers := s.peers.modify n Peer.abort }

def run (valid : String → Bool) (s : State) (as : List Action) : State := as.foldl (step valid) s

/-- The texts that a run sends to a room. -/
def relayed (valid : String → Bool) (session : SessionId) : State → List Action → List String
  | _, [] => []
  | s, a :: as => heardIn session (s.sends valid a) ++ relayed valid session (step valid s a) as

/-! ## Rooms -/

section

variable {valid : String → Bool} {s : State} {session : SessionId}

theorem room_enter (other : SessionId) : (s.enter other).room session = s.room session := by
  unfold State.enter State.room
  split
  · rfl
  · rename_i h
    simp only [HashMap.lookup_insert]
    split
    · rename_i hs
      rw [hs, AList.lookup_eq_none.2 h]
      rfl
    · rfl

theorem room_send (o : Option (SessionId × String)) :
    (s.send o).room session = s.room session ++ heardIn session o := by
  cases o with
  | none => exact (List.append_nil _).symm
  | some said =>
    obtain ⟨room, t⟩ := said
    simp only [State.send, State.room, heardIn, HashMap.lookup_insert]
    by_cases hroom : room = session
    · rw [if_pos hroom.symm, if_pos hroom, hroom]
      rfl
    · rw [if_neg (Ne.symm hroom), if_neg hroom, List.append_nil]

/-- **A step adds to a room what it sends there.** -/
theorem room_step (a : Action) :
    (step valid s a).room session = s.room session ++ heardIn session (s.sends valid a) := by
  cases a with
  | connect other => exact (room_enter other).trans (List.append_nil _).symm
  | text n t => exact room_send _
  | leave n => exact (List.append_nil _).symm
  | forward n ok => exact (List.append_nil _).symm
  | abort n => exact (List.append_nil _).symm

end

/-! ## A peer -/

namespace Peer

/-- A peer that is served has been sent all it has taken, and has missed nothing. -/
def Served (p : Peer) : Prop := p.sending = true → p.written = p.rx.taken ∧ p.rx.missed = 0

/-- **A peer is passed on what it takes, or it is no longer served.** -/
theorem forward_cases {p : Peer} (h : p.Served) (hrun : p.sending = true) (sent : List String) (ok : Bool) :
    (p.forward sent ok).session = p.session ∧ (p.forward sent ok).rx = (p.rx.recv roomCapacity sent).2 ∧
      (p.forward sent ok).Served ∧
      ((p.forward sent ok).written = p.written ∨ (p.forward sent ok).sending = true) := by
  obtain ⟨hall, hmissed⟩ := h hrun
  unfold Peer.forward
  rcases Feed.Receiver.recv_cases roomCapacity sent p.rx with ⟨-, hr⟩ | ⟨m, -, hr⟩ | ⟨-, hr⟩
  · rw [hr]
    exact ⟨rfl, rfl, fun hc => (by cases hc), .inl rfl⟩
  · rw [hr]
    dsimp only
    split
    · exact ⟨rfl, rfl, fun _ => ⟨congrArg (· ++ [m]) hall, hmissed⟩, .inr hrun⟩
    · exact ⟨rfl, rfl, fun hc => (by cases hc), .inl rfl⟩
  · rw [hr]
    exact ⟨rfl, rfl, h, .inl rfl⟩

end Peer

/-! ## A run -/

/-- Peer `n` is in the room of `session`, in which `before` was sent before it came and `told` since. -/
structure InRoom (session : SessionId) (before : List String) (n : Nat) (s : State) (told : List String) (p : Peer) :
    Prop where
  found : s.peers[n]? = some p
  member : p.session = session
  sent : s.room session = before ++ told
  begun : p.rx.start = before.length
  follows : p.rx.Follows roomCapacity (before ++ told)
  served : p.Served
  heard : p.written <+: told

section

variable {valid : String → Bool} {session : SessionId} {before told : List String} {n : Nat} {s : State} {p : Peer}

theorem inRoom_enter (s : State) (session : SessionId) :
    ∃ p, InRoom session (s.room session) s.peers.length (s.enter session) [] p := by
  refine ⟨{ session, rx := Feed.subscribe (s.room session) }, List.getElem?_concat_length, rfl, ?_, rfl, ?_,
    fun _ => ⟨rfl, rfl⟩, List.nil_prefix⟩
  · rw [room_enter, List.append_nil]
  · rw [List.append_nil]
    exact Feed.Receiver.follows_subscribe _ _

/-- A peer that an action leaves as it is. -/
theorem InRoom.stay (h : InRoom session before n s told p) {s' : State} {more : List String}
    (hfound : s'.peers[n]? = some p) (hsent : s'.room session = s.room session ++ more) :
    InRoom session before n s' (told ++ more) p := by
  refine ⟨hfound, h.member, ?_, h.begun, ?_, h.served, h.heard.trans (List.prefix_append _ _)⟩
  · rw [hsent, h.sent, List.append_assoc]
  · rw [← List.append_assoc]
    exact h.follows.append more

/-- Tasks of a peer that end. -/
theorem InRoom.stop (h : InRoom session before n s told p) {m : Nat} {g : Peer → Peer}
    (hg : ∀ p, (g p).session = p.session ∧ (g p).rx = p.rx ∧ (g p).written = p.written ∧
      ((g p).sending = true → p.sending = true)) :
    ∃ p', InRoom session before n { s with peers := s.peers.modify m g } told p' := by
  have hpeer : (s.peers.modify m g)[n]? = some (if m = n then g p else p) := by
    rw [List.getElem?_modify, h.found]
    by_cases hm : m = n
    · simp [hm]
    · simp [hm]
  by_cases hm : m = n
  · rw [if_pos hm] at hpeer
    obtain ⟨hsession, hrx, hwritten, hsending⟩ := hg p
    refine ⟨g p, hpeer, hsession.trans h.member, h.sent, hrx ▸ h.begun, hrx ▸ h.follows, fun hrun => ?_,
      hwritten ▸ h.heard⟩
    rw [hwritten, hrx]
    exact h.served (hsending hrun)
  · rw [if_neg hm] at hpeer
    exact ⟨p, hpeer, h.member, h.sent, h.begun, h.follows, h.served, h.heard⟩

variable (valid) in
/-- **Every action leaves the peer in its room**, told what the action sends there. -/
theorem InRoom.step (h : InRoom session before n s told p) (a : Action) :
    ∃ p', InRoom session before n (step valid s a) (told ++ heardIn session (s.sends valid a)) p' := by
  cases a with
  | connect other =>
    refine ⟨p, h.stay ?_ (room_step _)⟩
    show (s.peers ++ [_])[n]? = some p
    rw [List.getElem?_append_left (List.getElem?_eq_some_iff.1 h.found).1]
    exact h.found
  | text m t =>
    refine ⟨p, h.stay ?_ (room_step _)⟩
    show (s.send (s.sends valid (.text m t))).peers[n]? = some p
    cases s.sends valid (.text m t) with
    | none => exact h.found
    | some said => exact h.found
  | leave m =>
    rw [show told ++ heardIn session (s.sends valid (.leave m)) = told from List.append_nil told]
    exact h.stop (fun _ => ⟨rfl, rfl, rfl, id⟩)
  | abort m =>
    rw [show told ++ heardIn session (s.sends valid (.abort m)) = told from List.append_nil told]
    refine h.stop (fun p => ?_)
    unfold Peer.abort
    split
    · exact ⟨rfl, rfl, rfl, id⟩
    · exact ⟨rfl, rfl, rfl, fun hrun => by cases hrun⟩
  | forward m ok =>
    have hpeer : (Rooms.step valid s (.forward m ok)).peers[n]? =
        some (if m = n ∧ p.sending = true then p.forward (s.room p.session) ok else p) := by
      show (s.peers.modify m _)[n]? = _
      rw [List.getElem?_modify, h.found]
      by_cases hm : m = n
      · by_cases hrun : p.sending = true
        · simp [hm, hrun]
        · simp [hm, hrun]
      · simp [hm]
    by_cases hm : m = n ∧ p.sending = true
    · rw [if_pos hm] at hpeer
      rw [h.member, h.sent] at hpeer
      obtain ⟨hmember, hrx, hserved, hwritten⟩ := Peer.forward_cases h.served hm.2 (before ++ told) ok
      have hfollows : (p.forward (before ++ told) ok).rx.Follows roomCapacity (before ++ told) := by
        rw [hrx]
        exact h.follows.recv
      have hbegun : (p.forward (before ++ told) ok).rx.start = before.length := by
        rw [hrx, Feed.Receiver.recv_start]
        exact h.begun
      refine ⟨_, hpeer, hmember.trans h.member, ?_, hbegun, ?_, hserved, ?_⟩
      · exact (List.append_nil told).symm ▸ h.sent
      · exact (List.append_nil told).symm ▸ hfollows
      · rw [show told ++ heardIn session (s.sends valid (.forward m ok)) = told from List.append_nil told]
        rcases hwritten with hwritten | hrun
        · rw [hwritten]
          exact h.heard
        · obtain ⟨hall, hmissed⟩ := hserved hrun
          rw [hall]
          exact hfollows.taken_prefix hbegun hmissed
    · rw [if_neg hm] at hpeer
      exact ⟨p, h.stay hpeer (room_step _)⟩

variable (valid) in
theorem InRoom.run : ∀ (as : List Action) {s : State} {told : List String} {p : Peer},
    InRoom session before n s told p →
    ∃ p', InRoom session before n (run valid s as) (told ++ relayed valid session s as) p'
  | [], _, told, p, h => ⟨p, by rw [relayed, List.append_nil]; exact h⟩
  | a :: as, _, _, _, h => by
    obtain ⟨p₁, h₁⟩ := h.step valid a
    rw [relayed, ← List.append_assoc]
    exact InRoom.run as h₁

end

/-- **A peer hears its room from the moment it comes, in order and without a gap, and nothing but its room.**  Whoever
else comes, talks, lags or leaves, what a peer has been sent is the beginning of what was sent in its room since it
came; it is all of it while `send_task` runs and there is nothing left to take. -/
theorem served_room (valid : String → Bool) (s : State) (session : SessionId) (as : List Action) :
    ∃ p, (run valid (s.enter session) as).peers[s.peers.length]? = some p ∧ p.session = session ∧
      p.written <+: relayed valid session (s.enter session) as ∧
      (p.sending = true → p.rx.pos = ((run valid (s.enter session) as).room session).length →
        p.written = relayed valid session (s.enter session) as) := by
  obtain ⟨p₀, h₀⟩ := inRoom_enter s session
  obtain ⟨p, h⟩ := h₀.run valid as
  rw [List.nil_append] at h
  refine ⟨p, h.found, h.member, h.heard, fun hrun hup => ?_⟩
  obtain ⟨hall, hmissed⟩ := h.served hrun
  have hcounted := h.follows.counted h.begun
  rw [hup, h.sent, Nat.sub_self] at hcounted
  refine h.heard.eq_of_length ?_
  rw [hall]
  omega

end Rooms
end CanisLink
