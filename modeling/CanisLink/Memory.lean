import CanisLink.Session
import CanisLink.Policy
/-!
# Memory — the in-memory stores of `crates/db/src/memory.rs`

Each store call is one function from the store to its answer and the store after.  A call takes every lock it needs
and is one atomic step at this level.
-/
namespace CanisLink

/-! ## Presence -/

structure PresenceEntry where
  terminalId : TerminalId
  present : Bool
  confidence : Rat
  forceBand : ForceBand
  lastSeen : DateTime
  seq : UInt64
deriving DecidableEq

structure PresenceStore where
  inner : HashMap DogId PresenceEntry := ∅

namespace PresenceStore

def entryOf (report : PresenceReport) : PresenceEntry where
  terminalId := report.terminalId
  present := report.present
  confidence := report.confidence
  forceBand := report.forceBand
  lastSeen := report.ts
  seq := report.seq

def upsert (s : PresenceStore) (report : PresenceReport) : PresenceStore :=
  match s.inner.lookup report.dogId with
  | some e => if report.seq < e.seq then s else { inner := s.inner.insert report.dogId (entryOf report) }
  | none => { inner := s.inner.insert report.dogId (entryOf report) }

def get (s : PresenceStore) (dogId : DogId) (now : DateTime) : Option PresenceView := do
  let e ← s.inner.lookup dogId
  let ageMs := asU64 (max (numMilliseconds (now.since e.lastSeen)) 0)
  let present := e.present && decide (ageMs ≤ PRESENCE_TTL_MS)
  return { dogId, terminalId := e.terminalId, present, confidence := if present then e.confidence else 0,
           forceBand := if present then e.forceBand else .empty, lastSeen := e.lastSeen, seq := e.seq }

def listPresent (ord : IterOrder) (s : PresenceStore) (now : DateTime) : List PresenceView :=
  ((ord.visit s.inner.entries).filterMap (fun r => s.get r.1 now)).filter (·.present)

def presentDogIds (ord : IterOrder) (s : PresenceStore) (now : DateTime) : List DogId :=
  (s.listPresent ord now).map (·.dogId)

def isPresent (s : PresenceStore) (dogId : DogId) (now : DateTime) : Bool :=
  ((s.get dogId now).map (·.present)).getD false

end PresenceStore

/-! ## Invites -/

structure InviteStore where
  byId : HashMap InviteId Invite := ∅
  openForDog : HashMap DogId InviteId := ∅
  inviteTimes : HashMap DogId (List DateTime) := ∅

namespace InviteStore

def insert (s : InviteStore) (invite : Invite) : Except String InviteStore :=
  if invite.fromDog ∈ s.openForDog ∨ invite.toDog ∈ s.openForDog then .error "busy"
  else .ok { s with
    openForDog := (s.openForDog.insert invite.fromDog invite.id).insert invite.toDog invite.id
    byId := s.byId.insert invite.id invite }

def get (s : InviteStore) (id : InviteId) : Option Invite := s.byId.lookup id

def forDog (s : InviteStore) (dog : DogId) : Option Invite := do
  let id ← s.openForDog.lookup dog
  s.byId.lookup id

def incomingFor (s : InviteStore) (dog : DogId) : Option Invite :=
  (s.forDog dog).filter (fun i => decide (i.toDog = dog) && decide (i.state = .ringing))

def close (s : InviteStore) (id : InviteId) : Option Invite × InviteStore :=
  match s.byId.lookup id with
  | none => (none, s)
  | some inv => (some inv, { s with
      byId := s.byId.erase id
      openForDog := (s.openForDog.erase inv.fromDog).erase inv.toDog })

/-- `due.into_iter().filter_map(|id| self.close(id))`. -/
def closeAll : List InviteId → InviteStore → List Invite × InviteStore
  | [], s => ([], s)
  | id :: ids, s =>
    match s.close id with
    | (some inv, s') => (inv :: (closeAll ids s').1, (closeAll ids s').2)
    | (none, s') => closeAll ids s'

def expireDue (ord : IterOrder) (s : InviteStore) (now : DateTime) : List Invite × InviteStore :=
  let due := ((ord.visit s.byId.entries).filter (fun p => decide (now ≥ p.2.expiresAt))).map (·.1)
  closeAll due s

def recordInvite (s : InviteStore) (dog : DogId) (at_ : DateTime) : InviteStore :=
  { s with inviteTimes := s.inviteTimes.insert dog (((s.inviteTimes.lookup dog).getD []) ++ [at_]) }

def invitesLastHour (s : InviteStore) (dog : DogId) (now : DateTime) : UInt32 × InviteStore :=
  match s.inviteTimes.lookup dog with
  | none => (0, s)
  | some times =>
    let times := times.filter (fun t => decide (numSeconds (now.since t) < 3600))
    (UInt32.ofNat times.length, { s with inviteTimes := s.inviteTimes.insert dog times })

end InviteStore

/-! ## Sessions -/

structure SessionExtra where
  mediaA : Bool
  mediaB : Bool
deriving DecidableEq, Repr

structure SessionStore where
  byId : HashMap SessionId SessionRecord := ∅
  byDog : HashMap DogId SessionId := ∅
  media : HashMap SessionId SessionExtra := ∅

namespace SessionStore

def insert (s : SessionStore) (session : SessionRecord) : Except String SessionStore :=
  if session.dogA ∈ s.byDog ∨ session.dogB ∈ s.byDog then .error "busy"
  else .ok {
    byDog := (s.byDog.insert session.dogA session.id).insert session.dogB session.id
    media := s.media.insert session.id { mediaA := false, mediaB := false }
    byId := s.byId.insert session.id session }

def get (s : SessionStore) (id : SessionId) : Option SessionRecord := s.byId.lookup id

def forDog (s : SessionStore) (dog : DogId) : Option SessionRecord := do
  let id ← s.byDog.lookup dog
  s.get id

def all (ord : IterOrder) (s : SessionStore) : List SessionRecord := s.byId.values ord

def update (s : SessionStore) (id : SessionId) (f : SessionRecord → SessionRecord) :
    Option SessionRecord × SessionStore :=
  match s.byId.lookup id with
  | none => (none, s)
  | some x => (some (f x), { s with byId := s.byId.insert id (f x) })

def endSession (s : SessionStore) (id : SessionId) : Option SessionRecord × SessionStore :=
  match s.byId.lookup id with
  | none => (none, s)
  | some x => (some x, {
      byId := s.byId.erase id
      byDog := (s.byDog.erase x.dogA).erase x.dogB
      media := s.media.erase id })

def setMediaReady (s : SessionStore) (id : SessionId) (dog : DogId) (ready : Bool) :
    Option (Bool × SessionRecord) × SessionStore :=
  match s.get id, s.media.lookup id with
  | some sess, some extra =>
    let extra? : Option SessionExtra :=
      if dog = sess.dogA then some { extra with mediaA := ready }
      else if dog = sess.dogB then some { extra with mediaB := ready }
      else none
    match extra? with
    | none => (none, s)
    | some extra =>
      let both := extra.mediaA && extra.mediaB
      let s := { s with media := s.media.insert id extra }
      let s := if both then (s.update id (fun x => { x with state := .active })).2 else s
      ((s.get id).map (fun x => (both, x)), s)
  | _, _ => (none, s)

end SessionStore

/-! ## Policies -/

structure PolicyStore where
  byDog : HashMap DogId DogPolicy := ∅
  terminalDog : HashMap TerminalId DogId := ∅

namespace PolicyStore

def ensure (s : PolicyStore) (dog : DogId) : DogPolicy × PolicyStore :=
  match s.byDog.lookup dog with
  | some p => (p, s)
  | none => (.defaultFor dog, { s with byDog := s.byDog.insert dog (.defaultFor dog) })

def set (s : PolicyStore) (policy : DogPolicy) : PolicyStore := { s with byDog := s.byDog.insert policy.dogId policy }

def bindTerminal (s : PolicyStore) (terminal : TerminalId) (dog : DogId) : PolicyStore :=
  (({ s with terminalDog := s.terminalDog.insert terminal dog } : PolicyStore).ensure dog).2

/-- The policy in force for a dog: the stored one, or the default that `ensure` would store. -/
def current (s : PolicyStore) (dog : DogId) : DogPolicy := (s.byDog.lookup dog).getD (.defaultFor dog)

end PolicyStore

structure AppData where
  presence : PresenceStore := {}
  bonds : BondGraph := {}
  invites : InviteStore := {}
  sessions : SessionStore := {}
  policies : PolicyStore := {}

end CanisLink
