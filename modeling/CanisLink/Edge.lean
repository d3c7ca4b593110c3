import CanisLink.Sense
import CanisLink.DeviceApi
/-!
# Edge — the edge agent of `edge/canis-edge`

The agent is a client of the device routes.  A method is a program over the requests it sends, each answered by an
`Exchange`; the cloud is not assumed to answer anything in particular.  The agent is passed along, so that a method that
returns early leaves what it has set so far.
-/
namespace CanisLink

open Interleave (Prog)

/-! ## Exchanges -/

/-- A JSON answer about a session as the agent reads it: the field `session`, which may be missing or malformed, and
whether `both_ready` is true. -/
structure SessionBody where
  session : Option (Option SessionRecord)
  bothReady : Bool

/-- What the agent decodes the answer to a request as. -/
abbrev Request.Body : Request → Type
  | .getConfig .. => ConfigV1
  | .createInvite .. => Invite
  | .incomingInvite .. => Option (Invite × LureConfig)
  | .acceptInvite .. => SessionRecord × String
  | .mediaReady .. | .again .. => SessionBody
  | .activeSession .. => Option SessionRecord
  | _ => Unit

/-- An HTTP exchange: `send` failed, or there is a status and a body, `none` where it does not decode. -/
inductive Exchange (β : Type)
  | failed
  | answered (status : UInt16) (body : Option β)

abbrev Request.Answer (r : Request) : Type := Exchange r.Body

/-- `status().is_success()`. -/
def isSuccess (status : UInt16) : Bool := decide (200 ≤ status) && decide (status < 300)

inductive EdgeError
  | send
  | status (code : UInt16)
  | decode
  | publishFailed (code : UInt16)
  | inviteFailed (code : UInt16)
  | acceptFailed (code : UInt16)
  | socialNotArmed
  | noOffer
  | noSession
deriving DecidableEq, Repr

/-- `.send().await?.error_for_status()?` and `.json().await?`. -/
def Exchange.json {β : Type} : Exchange β → Except EdgeError β
  | failed => .error .send
  | answered status body =>
    if 400 ≤ status ∧ status < 600 then .error (.status status)
    else match body with
      | none => .error .decode
      | some b => .ok b

abbrev Edge := Prog Request.Answer

/-- One request. -/
def http (r : Request) : Edge (Exchange r.Body) := Prog.op r

/-! ## The agent -/

structure EdgeConfig where
  terminalId : TerminalId
  dogId : DogId
  token : String

inductive EdgeUx
  | idleEmpty | idlePresent | inviting | ringingOut | ringingIn | negotiating | inSession | halted
deriving DecidableEq, Repr

structure EdgeAgent where
  cfg : EdgeConfig
  sense : SensePipeline := {}
  seq : UInt64 := 0
  ux : EdgeUx := .idleEmpty
  lastOffer : Option (Invite × LureConfig) := none
  session : Option SessionRecord := none
  remoteConfig : Option ConfigV1 := none
  decoder : FrameDecoder := []
  socialArmed : Bool := true

def padToIntent (pad : UInt8) : Option Intent :=
  if pad = 0 then some .call
  else if pad = 1 then some .play
  else if pad = 2 then some .again
  else if pad = 3 then some .done
  else none

namespace EdgeAgent

def new (cfg : EdgeConfig) : EdgeAgent := { cfg }

/-- `self.sense.filter().present()`. -/
def present (a : EdgeAgent) : Bool := a.sense.filter.present

def recomputeArmed (a : EdgeAgent) : EdgeAgent :=
  let estop := (a.remoteConfig.map (·.emergencyStop)).getD false
  let disabled := (a.remoteConfig.map (·.socialDisabled)).getD false
  { a with socialArmed := a.present && !estop && !disabled && decide (a.ux ≠ .halted) }

def refreshUxFromPresence (a : EdgeAgent) : EdgeAgent :=
  let a := match a.present, a.ux with
    | true, .idleEmpty => { a with ux := .idlePresent }
    | false, .idlePresent => { a with ux := .idleEmpty }
    | false, .ringingIn => { a with ux := .idleEmpty, lastOffer := none }
    | _, _ => a
  a.recomputeArmed

/-- The intent of a frame: a pad pressed. -/
def frameIntent (fr : Frame) : Option Intent :=
  if fr.msg = .button then
    match ButtonPayload.fromBytes fr.payload with
    | some b => if b.event = 1 then padToIntent b.pad else none
    | none => none
  else none

def ingestUart (a : EdgeAgent) (bytes : List UInt8) (dtMs : UInt64) :
    (List SenseSnapshot × List Intent) × EdgeAgent :=
  let (snaps, sense) := a.sense.pushBytes bytes dtMs
  let a := { a with sense }.refreshUxFromPresence
  let (frames, decoder) := FrameDecoder.push a.decoder bytes
  ((snaps, frames.filterMap frameIntent), { a with decoder })

/-- `next_report` at the clock reading `ts`. -/
def nextReport (a : EdgeAgent) (ts : DateTime) : PresenceReport × EdgeAgent :=
  let a := { a with seq := a.seq + 1 }
  let f := a.sense.filter
  ({ dogId := a.cfg.dogId, terminalId := a.cfg.terminalId, present := f.present, confidence := f.confidence,
     forceBand := f.forceBand, forceN := f.lastForceN, tofMm := f.lastTof, ts, seq := a.seq }, a)

variable (F : Formats)

def authHeader (a : EdgeAgent) : HeaderMap :=
  some ("Device " ++ F.uuid a.cfg.terminalId.uuid ++ ":" ++ a.cfg.token)

/-- `dog_id` and `terminal_id` of a query. -/
def query (a : EdgeAgent) : DeviceQuery := { dogId := a.cfg.dogId, terminalId := a.cfg.terminalId }

/-- The body `{"dog_id", "terminal_id"}`, with `ready` where the route reads it. -/
def jsonBody (a : EdgeAgent) (ready : Option Bool) : JsonBody :=
  { dogId := F.uuid a.cfg.dogId.uuid, terminalId := F.uuid a.cfg.terminalId.uuid, ready }

def publishNow (a : EdgeAgent) (ts : DateTime) : Edge (Except EdgeError Unit × EdgeAgent) := do
  let (report, a) := a.nextReport ts
  match ← http (.postPresence (a.authHeader F) report) with
  | .failed => return (.error .send, a)
  | .answered status _ =>
    if !isSuccess status then return (.error (.publishFailed status), a)
    return (.ok (), a)

def endSession (a : EdgeAgent) (reason : EndReason) : Edge (Except EdgeError Unit × EdgeAgent) := do
  let some sess := a.session | return (.ok (), a)
  let _ ← http (.endSession (a.authHeader F) sess.id.uuid
    { dogId := a.cfg.dogId, terminalId := a.cfg.terminalId, reason })
  return (.ok (), { a with session := none, ux := if a.present then .idlePresent else .idleEmpty })

/-- The branch of `fetch_config` on an emergency stop. -/
def halt (a : EdgeAgent) : Edge EdgeAgent := do
  let a := { a with ux := .halted }
  if a.session.isSome then
    let (_, a) ← a.endSession F .emergencyStop
    return a
  else return a

def fetchConfig (a : EdgeAgent) : Edge (Except EdgeError ConfigV1 × EdgeAgent) := do
  match (← http (.getConfig (a.authHeader F) a.query)).json with
  | .error e => return (.error e, a)
  | .ok cfg =>
    let a ← if cfg.emergencyStop then a.halt F else pure a
    return (.ok cfg, { a with remoteConfig := some cfg }.recomputeArmed)

def call (a : EdgeAgent) (toDog : Option DogId) : Edge (Except EdgeError Invite × EdgeAgent) := do
  if !a.socialArmed then return (.error .socialNotArmed, a)
  let a := { a with ux := .inviting }
  match ← http (.createInvite (a.authHeader F)
    { mode := .portal, toDog, dogId := a.cfg.dogId, terminalId := a.cfg.terminalId }) with
  | .failed => return (.error .send, a)
  | .answered status body =>
    if !isSuccess status then return (.error (.inviteFailed status), { a with ux := .idlePresent })
    match body with
    | none => return (.error .decode, a)
    | some invite => return (.ok invite, { a with ux := .ringingOut })

def pollIncoming (a : EdgeAgent) : Edge (Except EdgeError (Option (Invite × LureConfig)) × EdgeAgent) := do
  if !a.socialArmed && decide (a.ux ≠ .ringingIn) then return (.ok none, a)
  match ← http (.incomingInvite (a.authHeader F) a.query) with
  | .failed => return (.error .send, a)
  | .answered status body =>
    if !isSuccess status then return (.ok none, a)
    match body with
    | none => return (.error .decode, a)
    | some none => return (.ok none, a)
    | some (some o) =>
      if a.ux ≠ .ringingOut ∧ a.ux ≠ .inSession ∧ a.ux ≠ .negotiating then
        return (.ok (some o), { a with ux := .ringingIn, lastOffer := some o })
      return (.ok (some o), a)

def reportMediaReady (a : EdgeAgent) (ready : Bool) : Edge (Except EdgeError Unit × EdgeAgent) := do
  let some sess := a.session | return (.error .noSession, a)
  match (← http (.mediaReady (a.authHeader F) sess.id.uuid (a.jsonBody F (some ready)))).json with
  | .error e => return (.error e, a)
  | .ok body =>
    match body.session with
    | none => return (.ok (), a)
    | some none => return (.error .decode, a)
    | some (some s) =>
      let a := { a with session := some s }
      if s.state = .active ∨ body.bothReady then return (.ok (), { a with ux := .inSession })
      return (.ok (), a)

def acceptIncoming (a : EdgeAgent) : Edge (Except EdgeError (SessionRecord × String) × EdgeAgent) := do
  let some offer := a.lastOffer | return (.error .noOffer, a)
  match ← http (.acceptInvite (a.authHeader F) offer.1.id.uuid (a.jsonBody F none)) with
  | .failed => return (.error .send, a)
  | .answered status body =>
    if !isSuccess status then return (.error (.acceptFailed status), a)
    match body with
    | none => return (.error .decode, a)
    | some resp =>
      let a := { a with session := some resp.1, lastOffer := none, ux := .negotiating }
      -- media stub: immediately declare ready
      let (r, a) ← a.reportMediaReady F true
      match r with
      | .error e => return (.error e, a)
      | .ok () => return (.ok resp, a)

def again (a : EdgeAgent) : Edge (Except EdgeError Unit × EdgeAgent) := do
  let some sess := a.session | return (.error .noSession, a)
  match (← http (.again (a.authHeader F) sess.id.uuid (a.jsonBody F none))).json with
  | .error e => return (.error e, a)
  | .ok body =>
    match body.session with
    | none => return (.ok (), a)
    | some none => return (.error .decode, a)
    | some (some s) => return (.ok (), { a with session := some s })

def syncActive (a : EdgeAgent) : Edge (Except EdgeError Unit × EdgeAgent) := do
  match (← http (.activeSession (a.authHeader F) a.query)).json with
  | .error e => return (.error e, a)
  | .ok none => return (.ok (), a)
  | .ok (some s) =>
    let a := { a with session := some s, ux := if s.state = .active then .inSession else .negotiating }
    if a.ux = .negotiating then
      let (_, a) ← a.reportMediaReady F true
      return (.ok (), a)
    else return (.ok (), a)

def handleIntent (a : EdgeAgent) (intent : Intent) : Edge (Except EdgeError Unit × EdgeAgent) := do
  if (intent = .call ∨ intent = .play) ∧ a.ux = .idlePresent ∧ a.socialArmed then
    let (r, a) ← a.call F none
    return (r.map (fun _ => ()), a)
  else if a.ux = .ringingIn then
    let (r, a) ← a.acceptIncoming F
    return (r.map (fun _ => ()), a)
  else if intent = .again ∧ a.ux = .inSession then a.again F
  else if intent = .done ∧ (a.ux = .inSession ∨ a.ux = .negotiating) then a.endSession F .done
  else return (.ok (), a)

end EdgeAgent
end CanisLink
