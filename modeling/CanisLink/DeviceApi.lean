import CanisLink.Calls
/-!
# DeviceApi — the handlers of `services/device-api/src/main.rs`

Each handler is the program of the store calls, SQL statements and events its source makes, in that order, with the
status and text of every refusal.  A panic ends the handler where it happens.
-/
namespace CanisLink

open Interleave (Prog)
open Api

inductive StatusCode
  | noContent | badRequest | unauthorized | forbidden | notFound | conflict | preconditionFailed | locked
  | tooManyRequests
deriving DecidableEq, Repr

/-- The part of `GET /v1/config` that comes from the dog's policy. -/
structure ConfigV1 where
  dogId : DogId
  terminalId : TerminalId
  socialDisabled : Bool
  emergencyStop : Bool
  timezone : String
  utcOffsetMin : Int16
  sleepStartMin : UInt16
  sleepEndMin : UInt16
  maxSessionSec : UInt64
  segmentSec : UInt64
deriving DecidableEq

inductive Reply
  | status (code : StatusCode)
  | error (code : StatusCode) (error : String)
  | enrolled (terminalId : TerminalId) (dogId : DogId) (token : String)
  | presence (view : PresenceView)
  | presences (views : List PresenceView)
  | config (c : ConfigV1)
  | created (invite : Invite)
  | offer (o : Option (Invite × LureConfig))
  | accepted (session : SessionRecord) (webrtcRole : String)
  | active (session : Option SessionRecord)
  | media (bothReady : Bool) (session : SessionRecord)
  | extended (session : SessionRecord)
  | ticked
  | panicked

/-! ## Credentials -/

/-- The `Authorization` header. -/
abbrev HeaderMap := Option String

def stripPrefix (pre s : String) : Option String :=
  if pre.toList.isPrefixOf s.toList then some (String.ofList (s.toList.drop pre.toList.length)) else none

def splitOnce (s : String) (c : Char) : Option (String × String) :=
  if c ∈ s.toList then
    some (String.ofList (s.toList.takeWhile (· ≠ c)), String.ofList ((s.toList.dropWhile (· ≠ c)).drop 1))
  else none

def extractDeviceToken (st : AppState) (headers : HeaderMap) : Except StatusCode (TerminalId × String) :=
  match headers with
  | none => .error .unauthorized
  | some raw =>
    match stripPrefix "Device " raw with
    | none => .error .unauthorized
    | some rest =>
      match splitOnce rest ':' with
      | none => .error .unauthorized
      | some (tid, token) =>
        match st.formats.parseUuid tid with
        | none => .error .unauthorized
        | some u => .ok (⟨u⟩, token)

/-- `SharedSecretAuthority::verify_pair`. -/
def verifyPair (st : AppState) (terminalId : TerminalId) (dogId : DogId) (token : String) : Bool :=
  decide (st.tokenFor terminalId dogId = token)

def verifyDevice (st : AppState) (headers : HeaderMap) (terminalId : TerminalId) (dogId : DogId) :
    Except StatusCode Unit :=
  match extractDeviceToken st headers with
  | .error s => .error s
  | .ok (tid, token) =>
    if tid ≠ terminalId then .error .forbidden
    else if verifyPair st terminalId dogId token then .ok ()
    else .error .unauthorized

def verifySteward (st : AppState) (headers : HeaderMap) : Except StatusCode Unit :=
  match headers with
  | none => .error .unauthorized
  | some raw =>
    match stripPrefix "Steward " raw with
    | none => .error .unauthorized
    | some secret => if secret = st.stewardSecret then .ok () else .error .unauthorized

/-! ## Requests -/

structure DeviceQuery where
  dogId : DogId
  terminalId : TerminalId

structure CreateInviteBody where
  mode : InviteMode
  toDog : Option DogId
  dogId : DogId
  terminalId : TerminalId

/-- A free-form JSON body: a text field is `""` where it is missing, `ready` is `none`. -/
structure JsonBody where
  dogId : String := ""
  terminalId : String := ""
  ready : Option Bool := none

structure EndSessionRequest where
  dogId : DogId
  terminalId : TerminalId
  reason : EndReason

structure StewardPolicyBody where
  dogId : DogId
  sleepStartMin : Option UInt16 := none
  sleepEndMin : Option UInt16 := none
  utcOffsetMin : Option Int16 := none
  maxSessionSec : Option UInt64 := none
  segmentSec : Option UInt64 := none
  maxInvitesPerHour : Option UInt32 := none

/-- The `Debug` text of an end reason. -/
def EndReason.debug : EndReason → String
  | done => "Done"
  | walkAway => "WalkAway"
  | segmentExpired => "SegmentExpired"
  | maxDuration => "MaxDuration"
  | peerLeft => "PeerLeft"
  | policyHalt => "PolicyHalt"
  | emergencyStop => "EmergencyStop"
  | timeout => "Timeout"
  | mediaFailed => "MediaFailed"
  | revoked => "Revoked"

/-! ## Enrolment, presence, config -/

def devEnroll (st : AppState) (terminalId : Option TerminalId) (dogId : Option DogId) : Api Reply := do
  let t ← newUuid
  let d ← newUuid
  let terminalId := terminalId.getD ⟨t⟩
  let dogId := dogId.getD ⟨d⟩
  let token := st.tokenFor terminalId dogId
  bindTerminal terminalId dogId
  if st.pool then
    let _ ← saveEnroll terminalId dogId (st.tokenHash token)
  return .enrolled terminalId dogId token

def devBootstrapBond (st : AppState) (a b : DogId) (weight : Rat) : Api Reply := do
  bootstrapMutual a b weight
  if st.pool then
    let _ ← saveBond a b weight
  return .status .noContent

def postPresence (st : AppState) (headers : HeaderMap) (report : PresenceReport) : Api Reply := do
  if let .error s := verifyDevice st headers report.terminalId report.dogId then return .error s "unauthorized"
  bindTerminal report.terminalId report.dogId
  if st.pool then
    let _ ← sql (.savePresence report)
  presenceUpsert report
  return .status .noContent

def getPresence (dogId : DogId) : Api Reply := do
  let now ← utcNow
  match ← presenceGet dogId now with
  | some v => return .presence v
  | none => return .status .notFound

def listPresenceHandler : Api Reply := do
  let now ← utcNow
  return .presences (← listPresent now)

def getConfig (st : AppState) (headers : HeaderMap) (q : DeviceQuery) : Api Reply := do
  if let .error s := verifyDevice st headers q.terminalId q.dogId then return .error s "unauthorized"
  let p ← policiesGet q.dogId
  return .config { dogId := q.dogId, terminalId := q.terminalId, socialDisabled := p.socialDisabled,
                   emergencyStop := p.emergencyStop, timezone := p.timezone, utcOffsetMin := p.utcOffsetMin,
                   sleepStartMin := p.sleepStartMin, sleepEndMin := p.sleepEndMin, maxSessionSec := p.maxSessionSec,
                   segmentSec := p.segmentSec }

/-! ## Invites -/

def denyCode : PolicyDeny → StatusCode
  | .emergencyStop => .locked
  | .socialDisabled => .forbidden
  | .sleep => .forbidden
  | .rateLimit => .tooManyRequests

def inviteErrorCode : InviteError → StatusCode
  | .callerNotPresent => .preconditionFailed
  | .noEligiblePeer | .peerNotPresent => .notFound
  | .notBonded => .forbidden
  | .callerBusy | .peerBusy => .conflict

/-- `invites.for_dog(d).is_some() || sessions.for_dog(d).is_some()`: the second store is asked only if the first has
nothing. -/
def busy (dog : DogId) : Api Bool := do
  if (← invitesForDog dog).isSome then return true
  return (← sessionsForDog dog).isSome

def createInvite (st : AppState) (headers : HeaderMap) (body : CreateInviteBody) : Api Reply := do
  if let .error s := verifyDevice st headers body.terminalId body.dogId then return .error s "unauthorized"
  let now ← utcNow
  let _ ← expireDue now
  let pol ← policiesGet body.dogId
  if let .error e := socialAllowed pol now then return .error (denyCode e) e.text
  let count ← invitesLastHour body.dogId now
  if let .error _ := inviteRateOk count pol.maxInvitesPerHour then return .error .tooManyRequests "invite rate limit"
  if ← busy body.dogId then return .error .conflict "caller busy"
  let presentIds ← presentDogIds now
  let callerPresent ← isPresent body.dogId now
  match ← Api.routeInvite body.dogId body.toDog presentIds callerPresent with
  | .error e => return .error (inviteErrorCode e) e.text
  | .ok peer =>
    let peerPol ← policiesGet peer
    if let .error e := socialAllowed peerPol now then return .error .forbidden ("peer: " ++ e.text)
    if ← busy peer then return .error .conflict "peer busy"
    let created ← utcNow
    let id ← newUuid
    let some invite := newInvite ⟨id⟩ created body.dogId peer body.mode | return .panicked
    if let .error _ := ← invitesInsert invite then return .error .conflict "busy"
    recordInvite body.dogId now
    if st.pool then
      let _ ← sql (.saveInvite invite)
      let _ ← sql (.recordInviteEvent body.dogId now)
    publish invite.toDog (.inviteRinging invite "slow_pulse_blue")
    return .created invite

def incomingInvite (st : AppState) (headers : HeaderMap) (q : DeviceQuery) : Api Reply := do
  if let .error s := verifyDevice st headers q.terminalId q.dogId then return .error s "unauthorized"
  let pol ← policiesGet q.dogId
  if pol.emergencyStop || pol.socialDisabled then return .offer none
  let now ← utcNow
  let _ ← expireDue now
  return .offer ((← incomingFor q.dogId).map (fun invite => (invite, {})))

def cancelInvite (st : AppState) (headers : HeaderMap) (inviteId : Uuid) (body : JsonBody) : Api Reply := do
  let some dog := st.formats.parseUuid body.dogId | return .error .badRequest "dog_id"
  let dogId : DogId := ⟨dog⟩
  match extractDeviceToken st headers with
  | .error s => return .error s "unauthorized"
  | .ok (tid, token) =>
    if !verifyPair st tid dogId token then return .error .unauthorized "invalid token"
    let id : InviteId := ⟨inviteId⟩
    match ← invitesGet id with
    | none => return .error .notFound "not found"
    | some inv =>
      if inv.fromDog ≠ dogId && inv.toDog ≠ dogId then return .error .forbidden "not party"
      let _ ← invitesClose id
      if st.pool then
        let _ ← sql (.deleteInvite id)
      return .status .noContent

def acceptInviteHandler (st : AppState) (headers : HeaderMap) (inviteId : Uuid) (body : JsonBody) : Api Reply := do
  let some dog := st.formats.parseUuid body.dogId | return .error .badRequest "dog_id"
  let some terminal := st.formats.parseUuid body.terminalId | return .error .badRequest "terminal_id"
  let dogId : DogId := ⟨dog⟩
  if let .error s := verifyDevice st headers ⟨terminal⟩ dogId then return .error s "unauthorized"
  let now ← utcNow
  let pol ← policiesGet dogId
  if let .error e := socialAllowed pol now then return .error .forbidden e.text
  let _ ← expireDue now
  let id : InviteId := ⟨inviteId⟩
  let some invite ← invitesGet id | return .error .notFound "invite not found"
  let present ← isPresent dogId now
  let sessionId ← newUuid
  match acceptInvite ⟨sessionId⟩ invite dogId present now with
  | none => return .panicked
  | some (.error e) => return .error .preconditionFailed e.text
  | some (.ok session) =>
    -- apply policy max/segment
    let some maxEndAt := (seconds (asI64 pol.maxSessionSec)).bind now.plus | return .panicked
    let some segmentDeadlineAt := (seconds (asI64 pol.segmentSec)).bind now.plus | return .panicked
    let session := { session with state := .negotiating, maxEndAt, segmentDeadlineAt }
    let _ ← invitesClose id
    if let .error _ := ← sessionsInsert session then return .error .conflict "session busy"
    if st.pool then
      let _ ← sql (.deleteInvite id)
      let _ ← sql (.saveSession session false false)
    let role := webrtcRole session dogId
    publishMany [session.dogA, session.dogB] (.sessionUpdated session)
    return .accepted session role

/-! ## Sessions -/

def activeSession (st : AppState) (headers : HeaderMap) (q : DeviceQuery) : Api Reply := do
  if let .error s := verifyDevice st headers q.terminalId q.dogId then return .error s "unauthorized"
  return .active (← sessionsForDog q.dogId)

def endSession (st : AppState) (headers : HeaderMap) (sessionId : Uuid) (body : EndSessionRequest) : Api Reply := do
  if let .error s := verifyDevice st headers body.terminalId body.dogId then return .error s "unauthorized"
  let id : SessionId := ⟨sessionId⟩
  let some sess ← sessionsGet id | return .error .notFound "not found"
  if sess.dogA ≠ body.dogId && sess.dogB ≠ body.dogId then return .error .forbidden "not party"
  if let some sess ← sessionsGet id then
    publishMany [sess.dogA, sess.dogB] (.sessionEnded (st.formats.uuid id.uuid) body.reason.debug)
  let _ ← sessionsEnd id
  if st.pool then
    let _ ← sql (.deleteSession id)
  return .status .noContent

def mediaReady (st : AppState) (headers : HeaderMap) (sessionId : Uuid) (body : JsonBody) : Api Reply := do
  let some dog := st.formats.parseUuid body.dogId | return .error .badRequest "dog_id"
  let some terminal := st.formats.parseUuid body.terminalId | return .error .badRequest "terminal_id"
  let dogId : DogId := ⟨dog⟩
  if let .error s := verifyDevice st headers ⟨terminal⟩ dogId then return .error s "unauthorized"
  let ready := body.ready.getD true
  let id : SessionId := ⟨sessionId⟩
  let some (both, session) ← setMediaReady id dogId ready | return .error .notFound "session"
  if st.pool then
    -- the flags `ma` and `mb` the source computes from `ready` are dropped
    let _ ← sql (.saveSession session (both || decide (dogId = session.dogA)) (both || decide (dogId = session.dogB)))
  return .media both session

def again (st : AppState) (headers : HeaderMap) (sessionId : Uuid) (body : JsonBody) : Api Reply := do
  let some dog := st.formats.parseUuid body.dogId | return .error .badRequest "dog_id"
  let some terminal := st.formats.parseUuid body.terminalId | return .error .badRequest "terminal_id"
  let dogId : DogId := ⟨dog⟩
  if let .error s := verifyDevice st headers ⟨terminal⟩ dogId then return .error s "unauthorized"
  let id : SessionId := ⟨sessionId⟩
  let some sess ← sessionsGet id | return .error .notFound "session"
  if sess.dogA ≠ dogId && sess.dogB ≠ dogId then return .error .forbidden "not party"
  let pol ← policiesGet dogId
  let now ← utcNow
  let some newDeadline := extendSegment now pol.segmentSec sess.maxEndAt | return .panicked
  let some session ← sessionsUpdate id (fun s => { s with segmentDeadlineAt := newDeadline })
    | return .error .notFound "session"
  if st.pool then
    let _ ← sql (.saveSession session true true)
  return .extended session

/-! ## Steward -/

def stewardEstop (st : AppState) (headers : HeaderMap) (dogId : DogId) (enabled : Bool) : Api Reply := do
  if let .error s := verifySteward st headers then return .status s
  setEstop dogId enabled
  if st.pool then
    let p ← policiesGet dogId
    let _ ← sql (.savePolicy p)
  if enabled then
    if let some s ← sessionsForDog dogId then
      let _ ← sessionsEnd s.id
      if st.pool then
        let _ ← sql (.deleteSession s.id)
  return .status .noContent

def stewardSocial (st : AppState) (headers : HeaderMap) (dogId : DogId) (enabled : Bool) : Api Reply := do
  if let .error s := verifySteward st headers then return .status s
  setSocialDisabled dogId enabled
  if st.pool then
    let p ← policiesGet dogId
    let _ ← sql (.savePolicy p)
  return .status .noContent

def stewardBonds (st : AppState) (headers : HeaderMap) (a b : DogId) (weight : Rat) : Api Reply := do
  if let .error s := verifySteward st headers then return .status s
  bootstrapMutual a b weight
  if st.pool then
    let _ ← saveBond a b weight
  return .status .noContent

/-- The fields of the body that are present replace those of the policy. -/
def StewardPolicyBody.apply (body : StewardPolicyBody) (p : DogPolicy) : DogPolicy :=
  { p with
    sleepStartMin := body.sleepStartMin.getD p.sleepStartMin
    sleepEndMin := body.sleepEndMin.getD p.sleepEndMin
    utcOffsetMin := body.utcOffsetMin.getD p.utcOffsetMin
    maxSessionSec := body.maxSessionSec.getD p.maxSessionSec
    segmentSec := body.segmentSec.getD p.segmentSec
    maxInvitesPerHour := body.maxInvitesPerHour.getD p.maxInvitesPerHour }

def stewardPolicy (st : AppState) (headers : HeaderMap) (body : StewardPolicyBody) : Api Reply := do
  if let .error s := verifySteward st headers then return .status s
  let p ← policiesGet body.dogId
  let p := body.apply p
  if st.pool then
    let _ ← sql (.savePolicy p)
  policiesSet p
  return .status .noContent

/-! ## The policy tick -/

/-- The rows of the invites that `expire_due` removed. -/
def dropInvites (st : AppState) : List Invite → Api Unit
  | [] => return ()
  | inv :: rest => do
    if st.pool then
      let _ ← sql (.deleteInvite inv.id)
    dropInvites st rest

/-- Whether the tick ends a session; the policies are read as the source's branches reach them. -/
def tickEnds (now : DateTime) (sess : SessionRecord) : Api Bool := do
  let polA ← policiesGet sess.dogA
  if asU64 (numSeconds (now.since sess.startedAt)) ≥ polA.maxSessionSec then return true
  if now ≥ sess.segmentDeadlineAt && sess.state = .active then return true
  let polA ← policiesGet sess.dogA
  if polA.emergencyStop then return true
  let polB ← policiesGet sess.dogB
  return polB.emergencyStop

def tickSessions (st : AppState) (now : DateTime) : List SessionRecord → Api Unit
  | [] => return ()
  | sess :: rest => do
    if ← tickEnds now sess then
      let _ ← sessionsEnd sess.id
      if st.pool then
        let _ ← sql (.deleteSession sess.id)
    tickSessions st now rest

def policyTick (st : AppState) : Api Reply := do
  let now ← utcNow
  let due ← expireDue now
  dropInvites st due
  let all ← sessionsAll
  tickSessions st now all
  return .ticked

/-! ## The routes -/

inductive Request
  | devEnroll (terminalId : Option TerminalId) (dogId : Option DogId)
  | devBootstrapBond (a b : DogId) (weight : Rat)
  | postPresence (headers : HeaderMap) (report : PresenceReport)
  | getPresence (dogId : DogId)
  | listPresence
  | getConfig (headers : HeaderMap) (q : DeviceQuery)
  | createInvite (headers : HeaderMap) (body : CreateInviteBody)
  | incomingInvite (headers : HeaderMap) (q : DeviceQuery)
  | cancelInvite (headers : HeaderMap) (inviteId : Uuid) (body : JsonBody)
  | acceptInvite (headers : HeaderMap) (inviteId : Uuid) (body : JsonBody)
  | activeSession (headers : HeaderMap) (q : DeviceQuery)
  | endSession (headers : HeaderMap) (sessionId : Uuid) (body : EndSessionRequest)
  | mediaReady (headers : HeaderMap) (sessionId : Uuid) (body : JsonBody)
  | again (headers : HeaderMap) (sessionId : Uuid) (body : JsonBody)
  | stewardEstop (headers : HeaderMap) (dogId : DogId) (enabled : Bool)
  | stewardSocial (headers : HeaderMap) (dogId : DogId) (enabled : Bool)
  | stewardBonds (headers : HeaderMap) (a b : DogId) (weight : Rat)
  | stewardPolicy (headers : HeaderMap) (body : StewardPolicyBody)
  | policyTick

/-- The handler of a request; the policy tick is the request the server makes of itself. -/
def handle (st : AppState) : Request → Api Reply
  | .devEnroll t d => devEnroll st t d
  | .devBootstrapBond a b w => devBootstrapBond st a b w
  | .postPresence h r => postPresence st h r
  | .getPresence d => getPresence d
  | .listPresence => listPresenceHandler
  | .getConfig h q => getConfig st h q
  | .createInvite h b => createInvite st h b
  | .incomingInvite h q => incomingInvite st h q
  | .cancelInvite h i b => cancelInvite st h i b
  | .acceptInvite h i b => acceptInviteHandler st h i b
  | .activeSession h q => activeSession st h q
  | .endSession h i b => endSession st h i b
  | .mediaReady h i b => mediaReady st h i b
  | .again h i b => again st h i b
  | .stewardEstop h d on => stewardEstop st h d on
  | .stewardSocial h d on => stewardSocial st h d on
  | .stewardBonds h a b w => stewardBonds st h a b w
  | .stewardPolicy h b => stewardPolicy st h b
  | .policyTick => policyTick st

/-- A call of some handler and its answer, and several handlers at work on one world. -/
abbrev ApiStep := Interleave.Step Call.Resp DateTime
abbrev ApiPool := Interleave.Pool Call.Resp Reply World DateTime

end CanisLink
