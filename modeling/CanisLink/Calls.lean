import CanisLink.Interleave
import CanisLink.Sqlite
/-!
# Calls — the atomic calls the handlers of device-api make

A `World` is what all handlers share: the in-memory stores, the SQLite tables, the event channels, and the supply of
uuids (`Uuid::new_v4` never repeats an id).  Each call is one step of `exec`, under the clock reading it happens at.
`Api` is a program over these calls.
-/
namespace CanisLink

open Interleave (Prog)

/-- The lure settings sent with an offer. -/
structure LureConfig where
  maxRepeats : UInt8 := 3
  audioMs : UInt16 := 2000
  ledPattern : String := "slow_pulse_blue"
deriving DecidableEq, Repr

/-- The events about invites and sessions; no handler makes `inviteClosed`. -/
inductive DeviceEvent
  | inviteRinging (invite : Invite) (lureLed : String)
  | inviteClosed (inviteId : String) (reason : String)
  | sessionUpdated (session : SessionRecord)
  | sessionEnded (sessionId : String) (reason : String)
deriving DecidableEq

/-- `EventHub`: the events sent on the channel of each dog that has subscribed. -/
structure EventHub where
  inner : HashMap DogId (List DeviceEvent) := ∅

/-- Sends to the dog's channel; nobody hears it when no one subscribed. -/
def EventHub.publish (hub : EventHub) (dog : DogId) (event : DeviceEvent) : EventHub :=
  match hub.inner.lookup dog with
  | some sent => { inner := hub.inner.insert dog (sent ++ [event]) }
  | none => hub

structure World where
  data : AppData := {}
  db : Db
  hub : EventHub := {}
  nextUuid : Uuid := 0

/-- What one device-api process is started with. -/
structure AppState where
  tokenFor : TerminalId → DogId → String
  tokenHash : String → String
  stewardSecret : String
  pool : Bool
  formats : Formats
  order : IterOrder

inductive Call
  | utcNow
  | newUuid
  | presenceUpsert (report : PresenceReport)
  | presenceGet (dog : DogId) (now : DateTime)
  | listPresent (now : DateTime)
  | presentDogIds (now : DateTime)
  | isPresent (dog : DogId) (now : DateTime)
  | bootstrapMutual (a b : DogId) (weight : Rat)
  | routeInvite (dog : DogId) (preferred : Option DogId) (present : List DogId) (callerPresent : Bool)
  | invitesInsert (invite : Invite)
  | invitesGet (id : InviteId)
  | invitesForDog (dog : DogId)
  | incomingFor (dog : DogId)
  | invitesClose (id : InviteId)
  | expireDue (now : DateTime)
  | recordInvite (dog : DogId) (at_ : DateTime)
  | invitesLastHour (dog : DogId) (now : DateTime)
  | sessionsInsert (session : SessionRecord)
  | sessionsGet (id : SessionId)
  | sessionsForDog (dog : DogId)
  | sessionsAll
  | sessionsUpdate (id : SessionId) (f : SessionRecord → SessionRecord)
  | sessionsEnd (id : SessionId)
  | setMediaReady (id : SessionId) (dog : DogId) (ready : Bool)
  | policiesEnsure (dog : DogId)
  | policiesSet (policy : DogPolicy)
  | bindTerminal (terminal : TerminalId) (dog : DogId)
  | sql (s : Stmt)
  | publish (dog : DogId) (event : DeviceEvent)

abbrev Call.Resp : Call → Type
  | utcNow => DateTime
  | newUuid => Uuid
  | presenceGet .. => Option PresenceView
  | listPresent _ => List PresenceView
  | presentDogIds _ => List DogId
  | isPresent .. => Bool
  | routeInvite .. => Except InviteError DogId
  | invitesInsert _ => Except String Unit
  | invitesGet _ | invitesForDog _ | incomingFor _ | invitesClose _ => Option Invite
  | expireDue _ => List Invite
  | invitesLastHour .. => UInt32
  | sessionsInsert _ => Except String Unit
  | sessionsGet _ | sessionsForDog _ | sessionsUpdate .. | sessionsEnd _ => Option SessionRecord
  | sessionsAll => List SessionRecord
  | setMediaReady .. => Option (Bool × SessionRecord)
  | policiesEnsure _ => DogPolicy
  | sql _ => Bool
  | presenceUpsert _ | bootstrapMutual .. | recordInvite .. | policiesSet _ | bindTerminal .. | publish .. => Unit

namespace World

def setPresence (w : World) (s : PresenceStore) : World := { w with data := { w.data with presence := s } }
def setBonds (w : World) (g : BondGraph) : World := { w with data := { w.data with bonds := g } }
def setInvites (w : World) (s : InviteStore) : World := { w with data := { w.data with invites := s } }
def setSessions (w : World) (s : SessionStore) : World := { w with data := { w.data with sessions := s } }
def setPolicies (w : World) (s : PolicyStore) : World := { w with data := { w.data with policies := s } }

end World

/-- One atomic call at the clock reading `t`: its answer and the world after. -/
def exec (st : AppState) (t : DateTime) : (c : Call) → World → c.Resp × World
  | .utcNow, w => (t, w)
  | .newUuid, w => (w.nextUuid, { w with nextUuid := w.nextUuid + 1 })
  | .presenceUpsert r, w => ((), w.setPresence (w.data.presence.upsert r))
  | .presenceGet d now, w => (w.data.presence.get d now, w)
  | .listPresent now, w => (w.data.presence.listPresent st.order now, w)
  | .presentDogIds now, w => (w.data.presence.presentDogIds st.order now, w)
  | .isPresent d now, w => (w.data.presence.isPresent d now, w)
  | .bootstrapMutual a b weight, w => ((), w.setBonds (w.data.bonds.bootstrapMutual a b weight))
  | .routeInvite d pref present caller, w => (CanisLink.routeInvite st.order d pref w.data.bonds present caller, w)
  | .invitesInsert inv, w =>
    match w.data.invites.insert inv with
    | .ok s => (.ok (), w.setInvites s)
    | .error e => (.error e, w)
  | .invitesGet id, w => (w.data.invites.get id, w)
  | .invitesForDog d, w => (w.data.invites.forDog d, w)
  | .incomingFor d, w => (w.data.invites.incomingFor d, w)
  | .invitesClose id, w => ((w.data.invites.close id).1, w.setInvites (w.data.invites.close id).2)
  | .expireDue now, w =>
    ((w.data.invites.expireDue st.order now).1, w.setInvites (w.data.invites.expireDue st.order now).2)
  | .recordInvite d at_, w => ((), w.setInvites (w.data.invites.recordInvite d at_))
  | .invitesLastHour d now, w =>
    ((w.data.invites.invitesLastHour d now).1, w.setInvites (w.data.invites.invitesLastHour d now).2)
  | .sessionsInsert x, w =>
    match w.data.sessions.insert x with
    | .ok s => (.ok (), w.setSessions s)
    | .error e => (.error e, w)
  | .sessionsGet id, w => (w.data.sessions.get id, w)
  | .sessionsForDog d, w => (w.data.sessions.forDog d, w)
  | .sessionsAll, w => (w.data.sessions.all st.order, w)
  | .sessionsUpdate id f, w => ((w.data.sessions.update id f).1, w.setSessions (w.data.sessions.update id f).2)
  | .sessionsEnd id, w => ((w.data.sessions.endSession id).1, w.setSessions (w.data.sessions.endSession id).2)
  | .setMediaReady id d ready, w =>
    ((w.data.sessions.setMediaReady id d ready).1, w.setSessions (w.data.sessions.setMediaReady id d ready).2)
  | .policiesEnsure d, w => ((w.data.policies.ensure d).1, w.setPolicies (w.data.policies.ensure d).2)
  | .policiesSet p, w => ((), w.setPolicies (w.data.policies.set p))
  | .bindTerminal t' d, w => ((), w.setPolicies (w.data.policies.bindTerminal t' d))
  | .sql s, w => ((s.run st.formats w.db).1, { w with db := (s.run st.formats w.db).2 })
  | .publish d ev, w => ((), { w with hub := w.hub.publish d ev })

/-- What no change of the invites touches, an insert leaves as it was. -/
theorem invitesInsert_keeps {α : Type} (st : AppState) (t : DateTime) (w : World) (f : World → α)
    (h : ∀ s, f (w.setInvites s) = f w) (inv : Invite) : f (exec st t (.invitesInsert inv) w).2 = f w := by
  simp only [exec]
  split
  · exact h _
  · rfl

/-- What no change of the sessions touches, an insert leaves as it was. -/
theorem sessionsInsert_keeps {α : Type} (st : AppState) (t : DateTime) (w : World) (f : World → α)
    (h : ∀ s, f (w.setSessions s) = f w) (x : SessionRecord) : f (exec st t (.sessionsInsert x) w).2 = f w := by
  simp only [exec]
  split
  · exact h _
  · rfl

abbrev Api := Prog Call.Resp

namespace Api

def utcNow : Api DateTime := Prog.op Call.utcNow
def newUuid : Api Uuid := Prog.op Call.newUuid
def presenceUpsert (report : PresenceReport) : Api Unit := Prog.op (Call.presenceUpsert report)
def presenceGet (dog : DogId) (now : DateTime) : Api (Option PresenceView) := Prog.op (Call.presenceGet dog now)
def listPresent (now : DateTime) : Api (List PresenceView) := Prog.op (Call.listPresent now)
def presentDogIds (now : DateTime) : Api (List DogId) := Prog.op (Call.presentDogIds now)
def isPresent (dog : DogId) (now : DateTime) : Api Bool := Prog.op (Call.isPresent dog now)
def bootstrapMutual (a b : DogId) (weight : Rat) : Api Unit := Prog.op (Call.bootstrapMutual a b weight)
def routeInvite (dog : DogId) (preferred : Option DogId) (present : List DogId) (callerPresent : Bool) :
    Api (Except InviteError DogId) := Prog.op (Call.routeInvite dog preferred present callerPresent)
def invitesInsert (invite : Invite) : Api (Except String Unit) := Prog.op (Call.invitesInsert invite)
def invitesGet (id : InviteId) : Api (Option Invite) := Prog.op (Call.invitesGet id)
def invitesForDog (dog : DogId) : Api (Option Invite) := Prog.op (Call.invitesForDog dog)
def incomingFor (dog : DogId) : Api (Option Invite) := Prog.op (Call.incomingFor dog)
def invitesClose (id : InviteId) : Api (Option Invite) := Prog.op (Call.invitesClose id)
def expireDue (now : DateTime) : Api (List Invite) := Prog.op (Call.expireDue now)
def recordInvite (dog : DogId) (at_ : DateTime) : Api Unit := Prog.op (Call.recordInvite dog at_)
def invitesLastHour (dog : DogId) (now : DateTime) : Api UInt32 := Prog.op (Call.invitesLastHour dog now)
def sessionsInsert (session : SessionRecord) : Api (Except String Unit) := Prog.op (Call.sessionsInsert session)
def sessionsGet (id : SessionId) : Api (Option SessionRecord) := Prog.op (Call.sessionsGet id)
def sessionsForDog (dog : DogId) : Api (Option SessionRecord) := Prog.op (Call.sessionsForDog dog)
def sessionsAll : Api (List SessionRecord) := Prog.op Call.sessionsAll
def sessionsUpdate (id : SessionId) (f : SessionRecord → SessionRecord) : Api (Option SessionRecord) :=
  Prog.op (Call.sessionsUpdate id f)
def sessionsEnd (id : SessionId) : Api (Option SessionRecord) := Prog.op (Call.sessionsEnd id)
def setMediaReady (id : SessionId) (dog : DogId) (ready : Bool) : Api (Option (Bool × SessionRecord)) :=
  Prog.op (Call.setMediaReady id dog ready)
def policiesEnsure (dog : DogId) : Api DogPolicy := Prog.op (Call.policiesEnsure dog)
/-- `PolicyStore::get` is `ensure`. -/
def policiesGet (dog : DogId) : Api DogPolicy := policiesEnsure dog
def policiesSet (policy : DogPolicy) : Api Unit := Prog.op (Call.policiesSet policy)
def bindTerminal (terminal : TerminalId) (dog : DogId) : Api Unit := Prog.op (Call.bindTerminal terminal dog)
def sql (s : Stmt) : Api Bool := Prog.op (Call.sql s)
def publish (dog : DogId) (event : DeviceEvent) : Api Unit := Prog.op (Call.publish dog event)

/-- `set_estop`: `ensure` and `set`, each under its own lock. -/
def setEstop (dog : DogId) (on : Bool) : Api Unit := do
  let p ← policiesEnsure dog
  policiesSet { p with emergencyStop := on }

/-- `set_social_disabled`, the same way. -/
def setSocialDisabled (dog : DogId) (on : Bool) : Api Unit := do
  let p ← policiesEnsure dog
  policiesSet { p with socialDisabled := on }

def saveEnroll (terminalId : TerminalId) (dogId : DogId) (tokenHash : String) : Api Bool := do
  if !(← sql (.insertDog dogId)) then return false
  if !(← sql (.saveTerminal terminalId dogId tokenHash)) then return false
  sql (.savePolicy (.defaultFor dogId))

def saveBond (a b : DogId) (w : Rat) : Api Bool := do
  if !(← sql (.saveBond a b w)) then return false
  sql (.saveBond b a w)

def publishMany (dogs : List DogId) (event : DeviceEvent) : Api Unit :=
  match dogs with
  | [] => return ()
  | d :: ds => do
    publish d event
    publishMany ds event

end Api
end CanisLink
