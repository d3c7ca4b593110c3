import CanisLink.Bond
/-!
# Session — invite routing and session allocation of `crates/session`
-/
namespace CanisLink

inductive InviteError
  | callerNotPresent | noEligiblePeer | peerNotPresent | notBonded | callerBusy | peerBusy
deriving DecidableEq, Repr

/-- The `Display` text. -/
def InviteError.text : InviteError → String
  | callerNotPresent => "caller not present"
  | noEligiblePeer => "no eligible present peer"
  | peerNotPresent => "peer not present"
  | notBonded => "not mutually bonded"
  | callerBusy => "caller already has open invite"
  | peerBusy => "peer already ringing or in session"

inductive AcceptError
  | notFound | notCallee | notRinging | notPresent | expired
deriving DecidableEq, Repr

/-- The `Display` text. -/
def AcceptError.text : AcceptError → String
  | notFound => "invite not found"
  | notCallee => "not the callee"
  | notRinging => "invite not ringing"
  | notPresent => "acceptor not present"
  | expired => "invite expired"

def routeInvite (ord : IterOrder) (dog : DogId) (preferred : Option DogId) (bonds : BondGraph) (present : List DogId)
    (callerPresent : Bool) : Except InviteError DogId :=
  if !callerPresent then .error .callerNotPresent
  else match preferred with
    | some peer =>
      if peer = dog then .error .noEligiblePeer
      else if !bonds.mutualEligible dog peer then .error .notBonded
      else if !present.contains peer then .error .peerNotPresent
      else .ok peer
    | none =>
      match (bonds.candidates ord dog).find? (fun c => present.contains c.1) with
      | some (peer, _) => .ok peer
      | none => .error .noEligiblePeer

/-- `new_invite` with the id and the instant it draws; `none` where the ring deadline is out of range. -/
def newInvite (id : InviteId) (now : DateTime) (dog peer : DogId) (mode : InviteMode) : Option Invite := do
  let expiresAt ← now.plus (milliseconds RING_TIMEOUT_MS)
  return { id, fromDog := dog, toDog := peer, mode, state := .ringing, createdAt := now, expiresAt }

def isExpired (invite : Invite) (now : DateTime) : Bool := decide (now ≥ invite.expiresAt)

/-- The checks of `accept_invite`, in its order. -/
def acceptCheck (invite : Invite) (acceptor : DogId) (acceptorPresent : Bool) (now : DateTime) :
    Except AcceptError Unit :=
  if invite.toDog ≠ acceptor then .error .notCallee
  else if invite.state ≠ .ringing then .error .notRinging
  else if isExpired invite now then .error .expired
  else if !acceptorPresent then .error .notPresent
  else .ok ()

/-- `accept_invite` with the id it draws; `none` where a deadline is out of range. -/
def acceptInvite (id : SessionId) (invite : Invite) (acceptor : DogId) (acceptorPresent : Bool) (now : DateTime) :
    Option (Except AcceptError SessionRecord) :=
  match acceptCheck invite acceptor acceptorPresent now with
  | .error e => some (.error e)
  | .ok () => do
    let maxEndAt ← now.plus (milliseconds SESSION_MAX_MS)
    let segmentDeadlineAt ← now.plus (milliseconds SESSION_SEGMENT_MS)
    return .ok { id, inviteId := invite.id, dogA := invite.fromDog, dogB := invite.toDog, mode := invite.mode,
                 state := .active, startedAt := now, maxEndAt, segmentDeadlineAt }

theorem newInvite_ok {id : InviteId} {now : DateTime} {dog peer : DogId} {mode : InviteMode} {inv : Invite}
    (h : newInvite id now dog peer mode = some inv) :
    inv.id = id ∧ inv.fromDog = dog ∧ inv.toDog = peer ∧ inv.state = .ringing ∧ inv.createdAt = now ∧
      now.plus (milliseconds RING_TIMEOUT_MS) = some inv.expiresAt := by
  unfold newInvite at h
  cases ht : now.plus (milliseconds RING_TIMEOUT_MS) with
  | none => rw [ht] at h; cases h
  | some t => rw [ht] at h; cases h; exact ⟨rfl, rfl, rfl, rfl, rfl, rfl⟩

/-- An accepted invite passed every check, and its session is between its two dogs. -/
theorem acceptInvite_ok {id : SessionId} {inv : Invite} {acceptor : DogId} {present : Bool} {now : DateTime}
    {s : SessionRecord} (h : acceptInvite id inv acceptor present now = some (.ok s)) :
    acceptCheck inv acceptor present now = .ok () ∧
      s.id = id ∧ s.inviteId = inv.id ∧ s.dogA = inv.fromDog ∧ s.dogB = inv.toDog ∧ s.startedAt = now := by
  unfold acceptInvite at h
  cases hc : acceptCheck inv acceptor present now with
  | error e => rw [hc] at h; cases h
  | ok u =>
    rw [hc] at h
    cases hm : now.plus (milliseconds SESSION_MAX_MS) with
    | none => rw [hm] at h; cases h
    | some maxEndAt =>
      cases hs : now.plus (milliseconds SESSION_SEGMENT_MS) with
      | none => rw [hm, hs] at h; cases h
      | some segmentDeadlineAt =>
        rw [hm, hs] at h
        cases h
        exact ⟨rfl, rfl, rfl, rfl, rfl, rfl⟩

theorem acceptCheck_ok {inv : Invite} {acceptor : DogId} {present : Bool} {now : DateTime}
    (h : acceptCheck inv acceptor present now = .ok ()) :
    inv.toDog = acceptor ∧ inv.state = .ringing ∧ now < inv.expiresAt ∧ present = true := by
  unfold acceptCheck at h
  split at h
  · cases h
  · rename_i hto
    split at h
    · cases h
    · rename_i hst
      split at h
      · cases h
      · rename_i hexp
        split at h
        · cases h
        · rename_i hp
          refine ⟨not_not.1 hto, not_not.1 hst, ?_, by simpa using hp⟩
          simpa [isExpired] using hexp

def webrtcRole (session : SessionRecord) (dog : DogId) : String :=
  if dog = session.dogA then "offerer" else "answerer"

end CanisLink
