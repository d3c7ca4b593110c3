import CanisLink.Memory
/-!
# Sqlite — the durable mirror of `crates/db/src/sqlite.rs`

A table is its rows in insertion order, the columns as the code binds them: text, 64-bit integers, reals.  A statement
on a missing table fails, and so does a terminal whose dog has no row (`foreign_keys(true)`).  `loadInto` is the
restart: it reads the tables back into a fresh `AppData`.
-/
namespace CanisLink

inductive Table
  | dogs | terminals | bonds | dogPolicy | presence | invites | inviteEvents | sessions
deriving DecidableEq, Repr

structure PolicyRow where
  dogId : String
  timezone : String
  sleepStartMin : Int64
  sleepEndMin : Int64
  utcOffsetMin : Int64
  emergencyStop : Int64
  socialDisabled : Int64
  maxInvitesPerHour : Int64
  maxSessionSec : Int64
  segmentSec : Int64
deriving DecidableEq

structure TerminalRow where
  terminalId : String
  dogId : String
  tokenHash : String
deriving DecidableEq

structure BondRow where
  dogA : String
  dogB : String
  weight : Rat
deriving DecidableEq

structure PresenceRow where
  dogId : String
  terminalId : String
  present : Int64
  confidence : Rat
  forceBand : String
  forceN : Rat
  tofMm : Option Int64
  lastSeen : String
  seq : Int64
deriving DecidableEq

structure InviteRow where
  inviteId : String
  fromDog : String
  toDog : String
  mode : String
  state : String
  createdAt : String
  expiresAt : String
deriving DecidableEq

structure InviteEventRow where
  dogId : String
  at_ : String
deriving DecidableEq

structure SessionRow where
  sessionId : String
  inviteId : String
  dogA : String
  dogB : String
  mode : String
  state : String
  startedAt : String
  maxEndAt : String
  segmentDeadlineAt : String
  mediaA : Int64
  mediaB : Int64
deriving DecidableEq

structure Db where
  tables : List Table
  dogs : List String := []
  terminals : List TerminalRow := []
  bonds : List BondRow := []
  dogPolicy : List PolicyRow := []
  presence : List PresenceRow := []
  invites : List InviteRow := []
  inviteEvents : List InviteEventRow := []
  sessions : List SessionRow := []
deriving DecidableEq

/-! ## Columns -/

def parseMode (s : String) : InviteMode := if s = "play_active" then .playActive else .portal

def parseState (s : String) : SessionState :=
  if s = "invite_pending" then .invitePending
  else if s = "ringing" then .ringing
  else if s = "negotiating" then .negotiating
  else if s = "active" then .active
  else if s = "ending" then .ending
  else if s = "closed" then .closed
  else if s = "failed" then .failed
  else .none

def modeStr : InviteMode → String
  | .portal => "portal"
  | .playActive => "play_active"

def stateStr : SessionState → String
  | .none => "none"
  | .invitePending => "invite_pending"
  | .ringing => "ringing"
  | .negotiating => "negotiating"
  | .active => "active"
  | .ending => "ending"
  | .closed => "closed"
  | .failed => "failed"

theorem parseMode_modeStr (m : InviteMode) : parseMode (modeStr m) = m := by cases m <;> decide
theorem parseState_stateStr (s : SessionState) : parseState (stateStr s) = s := by cases s <;> decide

/-- `format!("{:?}", r.force_band).to_lowercase()`. -/
def forceBandStr : ForceBand → String
  | .empty => "empty"
  | .small => "small"
  | .medium => "medium"
  | .large => "large"
  | .overload => "overload"

/-- `parse_dt` at the clock reading `now`. -/
def parseDt (F : Formats) (now : DateTime) (s : String) : DateTime :=
  match F.parseRfc3339 s with
  | some dt => dt
  -- sqlite datetime
  | none => (F.parseSqliteDatetime s).getD now

def flag (b : Bool) : Int64 := if b then 1 else 0

/-! ## Statements -/

/-- The statements the code runs, with the values it binds. -/
inductive Stmt
  | insertDog (dogId : DogId)
  | saveTerminal (terminalId : TerminalId) (dogId : DogId) (tokenHash : String)
  | savePolicy (p : DogPolicy)
  | saveBond (a b : DogId) (w : Rat)
  | savePresence (r : PresenceReport)
  | saveInvite (inv : Invite)
  | deleteInvite (id : InviteId)
  | recordInviteEvent (dog : DogId) (at_ : DateTime)
  | saveSession (s : SessionRecord) (ma mb : Bool)
  | deleteSession (id : SessionId)

def policyRow (F : Formats) (p : DogPolicy) : PolicyRow where
  dogId := F.uuid p.dogId.uuid
  timezone := p.timezone
  sleepStartMin := p.sleepStartMin.toUInt64.toInt64
  sleepEndMin := p.sleepEndMin.toUInt64.toInt64
  utcOffsetMin := p.utcOffsetMin.toInt64
  emergencyStop := flag p.emergencyStop
  socialDisabled := flag p.socialDisabled
  maxInvitesPerHour := p.maxInvitesPerHour.toUInt64.toInt64
  maxSessionSec := p.maxSessionSec.toInt64
  segmentSec := p.segmentSec.toInt64

def presenceRow (F : Formats) (r : PresenceReport) : PresenceRow where
  dogId := F.uuid r.dogId.uuid
  terminalId := F.uuid r.terminalId.uuid
  present := flag r.present
  confidence := r.confidence
  forceBand := forceBandStr r.forceBand
  forceN := r.forceN
  tofMm := r.tofMm.map (·.toUInt64.toInt64)
  lastSeen := F.rfc3339 r.ts
  seq := r.seq.toInt64

def inviteRow (F : Formats) (inv : Invite) : InviteRow where
  inviteId := F.uuid inv.id.uuid
  fromDog := F.uuid inv.fromDog.uuid
  toDog := F.uuid inv.toDog.uuid
  mode := modeStr inv.mode
  state := stateStr inv.state
  createdAt := F.rfc3339 inv.createdAt
  expiresAt := F.rfc3339 inv.expiresAt

def sessionRow (F : Formats) (s : SessionRecord) (ma mb : Bool) : SessionRow where
  sessionId := F.uuid s.id.uuid
  inviteId := F.uuid s.inviteId.uuid
  dogA := F.uuid s.dogA.uuid
  dogB := F.uuid s.dogB.uuid
  mode := modeStr s.mode
  state := stateStr s.state
  startedAt := F.rfc3339 s.startedAt
  maxEndAt := F.rfc3339 s.maxEndAt
  segmentDeadlineAt := F.rfc3339 s.segmentDeadlineAt
  mediaA := flag ma
  mediaB := flag mb

/-- `INSERT OR REPLACE`: the row with this primary key goes, the new one comes last. -/
def replaceRow {ρ κ : Type} [DecidableEq κ] (key : ρ → κ) (row : ρ) (rows : List ρ) : List ρ :=
  rows.filter (fun r => decide (key r ≠ key row)) ++ [row]

def Stmt.table : Stmt → Table
  | insertDog _ => .dogs
  | saveTerminal .. => .terminals
  | savePolicy _ => .dogPolicy
  | saveBond .. => .bonds
  | savePresence _ => .presence
  | saveInvite _ | deleteInvite _ => .invites
  | recordInviteEvent .. => .inviteEvents
  | saveSession .. | deleteSession _ => .sessions

/-- What a statement does to the tables once it runs. -/
def Stmt.effect (F : Formats) (db : Db) : Stmt → Db
  | insertDog d =>
    if F.uuid d.uuid ∈ db.dogs then db else { db with dogs := db.dogs ++ [F.uuid d.uuid] }
  | saveTerminal t d h =>
    { db with terminals := replaceRow (·.terminalId) ⟨F.uuid t.uuid, F.uuid d.uuid, h⟩ db.terminals }
  | savePolicy p => { db with dogPolicy := replaceRow (·.dogId) (policyRow F p) db.dogPolicy }
  | saveBond a b w =>
    { db with bonds := replaceRow (fun r => (r.dogA, r.dogB)) ⟨F.uuid a.uuid, F.uuid b.uuid, w⟩ db.bonds }
  | savePresence r => { db with presence := replaceRow (·.dogId) (presenceRow F r) db.presence }
  | saveInvite inv => { db with invites := replaceRow (·.inviteId) (inviteRow F inv) db.invites }
  | deleteInvite id => { db with invites := db.invites.filter (fun r => decide (r.inviteId ≠ F.uuid id.uuid)) }
  | recordInviteEvent d t => { db with inviteEvents := db.inviteEvents ++ [⟨F.uuid d.uuid, F.rfc3339 t⟩] }
  | saveSession s ma mb => { db with sessions := replaceRow (·.sessionId) (sessionRow F s ma mb) db.sessions }
  | deleteSession id => { db with sessions := db.sessions.filter (fun r => decide (r.sessionId ≠ F.uuid id.uuid)) }

/-- Whether a statement succeeds: its table exists, and a terminal's dog has a row. -/
def Stmt.succeeds (F : Formats) (db : Db) (s : Stmt) : Bool :=
  decide (s.table ∈ db.tables) &&
    match s with
    | saveTerminal _ d _ => decide (Table.dogs ∈ db.tables) && decide (F.uuid d.uuid ∈ db.dogs)
    | _ => true

/-- One statement: whether it succeeded, and the tables after. -/
def Stmt.run (F : Formats) (s : Stmt) (db : Db) : Bool × Db :=
  if s.succeeds F db then (true, s.effect F db) else (false, db)

theorem Stmt.run_keeps {α : Type} {F : Formats} {s : Stmt} (f : Db → α) (h : ∀ db, f (s.effect F db) = f db) (db : Db) :
    f (s.run F db).2 = f db := by
  unfold Stmt.run
  split
  · exact h db
  · rfl

theorem mem_replaceRow {ρ κ : Type} [DecidableEq κ] {key : ρ → κ} {row r : ρ} {rows : List ρ} :
    r ∈ replaceRow key row rows ↔ (r ∈ rows ∧ key r ≠ key row) ∨ r = row := by
  simp [replaceRow]

/-- Deleting by primary key, in rows written from the records `xs`. -/
theorem filter_key_ne {α ρ ι κ : Type} [DecidableEq ι] [DecidableEq κ] (row : α → ρ) (key : ρ → κ) (id : α → ι)
    (enc : ι → κ) (h : ∀ a i, key (row a) = enc i ↔ id a = i) (i : ι) (xs : List α) :
    (xs.map row).filter (fun r => decide (key r ≠ enc i)) = (xs.filter (fun a => decide (id a ≠ i))).map row := by
  rw [List.filter_map]
  congr 2
  funext a
  simp only [Function.comp_apply, ne_eq, h]

/-- **The sessions table after a statement**, while the table exists. -/
theorem run_sessions (F : Formats) (s : Stmt) {db : Db} (h : Table.sessions ∈ db.tables) : (s.run F db).2.sessions =
    match s with
    | .saveSession x ma mb => replaceRow (·.sessionId) (sessionRow F x ma mb) db.sessions
    | .deleteSession id => db.sessions.filter (fun r => decide (r.sessionId ≠ F.uuid id.uuid))
    | _ => db.sessions := by
  cases s with
  | saveSession x ma mb =>
    have hs : (Stmt.saveSession x ma mb).succeeds F db = true := by simp [Stmt.succeeds, Stmt.table, h]
    rw [Stmt.run, if_pos hs]
    rfl
  | deleteSession id =>
    have hs : (Stmt.deleteSession id).succeeds F db = true := by simp [Stmt.succeeds, Stmt.table, h]
    rw [Stmt.run, if_pos hs]
    rfl
  | insertDog d =>
    simp only [Stmt.run]
    split
    · simp only [Stmt.effect]; split <;> rfl
    · rfl
  | _ =>
    simp only [Stmt.run]
    split <;> rfl

theorem effect_tables (F : Formats) (s : Stmt) (db : Db) : (s.effect F db).tables = db.tables := by
  cases s with
  | insertDog d => simp only [Stmt.effect]; split <;> rfl
  | _ => rfl

theorem run_tables (F : Formats) (s : Stmt) (db : Db) : (s.run F db).2.tables = db.tables :=
  s.run_keeps (·.tables) (effect_tables F s) db

/-! ## load_into -/

def policyOfRow (F : Formats) (r : PolicyRow) : Option DogPolicy := do
  let dog ← F.parseUuid r.dogId
  return { dogId := ⟨dog⟩, timezone := r.timezone, sleepStartMin := r.sleepStartMin.toUInt64.toUInt16,
           sleepEndMin := r.sleepEndMin.toUInt64.toUInt16, utcOffsetMin := r.utcOffsetMin.toInt16,
           emergencyStop := decide (r.emergencyStop ≠ 0), socialDisabled := decide (r.socialDisabled ≠ 0),
           maxInvitesPerHour := r.maxInvitesPerHour.toUInt64.toUInt32, maxSessionSec := r.maxSessionSec.toUInt64,
           segmentSec := r.segmentSec.toUInt64 }

def inviteOfRow (F : Formats) (now : DateTime) (r : InviteRow) : Option Invite := do
  let id ← F.parseUuid r.inviteId
  let fromDog ← F.parseUuid r.fromDog
  let toDog ← F.parseUuid r.toDog
  return { id := ⟨id⟩, fromDog := ⟨fromDog⟩, toDog := ⟨toDog⟩, mode := parseMode r.mode, state := parseState r.state,
           createdAt := parseDt F now r.createdAt, expiresAt := parseDt F now r.expiresAt }

def sessionOfRow (F : Formats) (now : DateTime) (r : SessionRow) : Option SessionRecord := do
  let id ← F.parseUuid r.sessionId
  let inviteId ← F.parseUuid r.inviteId
  let dogA ← F.parseUuid r.dogA
  let dogB ← F.parseUuid r.dogB
  return { id := ⟨id⟩, inviteId := ⟨inviteId⟩, dogA := ⟨dogA⟩, dogB := ⟨dogB⟩, mode := parseMode r.mode,
           state := parseState r.state, startedAt := parseDt F now r.startedAt, maxEndAt := parseDt F now r.maxEndAt,
           segmentDeadlineAt := parseDt F now r.segmentDeadlineAt }

def loadPolicy (F : Formats) (s : PolicyStore) (r : PolicyRow) : Option PolicyStore := do
  return s.set (← policyOfRow F r)

def loadTerminal (F : Formats) (s : PolicyStore) (r : TerminalRow) : Option PolicyStore := do
  let tid ← F.parseUuid r.terminalId
  let did ← F.parseUuid r.dogId
  return s.bindTerminal ⟨tid⟩ ⟨did⟩

def loadBond (F : Formats) (g : BondGraph) (r : BondRow) : Option BondGraph := do
  let a ← F.parseUuid r.dogA
  let b ← F.parseUuid r.dogB
  return g.setWeight ⟨a⟩ ⟨b⟩ r.weight

def loadInvite (F : Formats) (now : DateTime) (s : InviteStore) (r : InviteRow) : Option InviteStore := do
  let inv ← inviteOfRow F now r
  match s.insert inv with
  | .ok s => return s
  | .error _ => return s

/-- The loop body of `load_into` for one session, its flags replayed through `set_media_ready`. -/
def restoreSession (s : SessionStore) (sess : SessionRecord) (ma mb : Bool) : SessionStore :=
  let s := match s.insert sess with
    | .ok s => s
    | .error _ => s
  let s := if ma then (s.setMediaReady sess.id sess.dogA true).2 else s
  if mb then (s.setMediaReady sess.id sess.dogB true).2 else s

def loadSession (F : Formats) (now : DateTime) (s : SessionStore) (r : SessionRow) : Option SessionStore := do
  let sess ← sessionOfRow F now r
  return restoreSession s sess (decide (r.mediaA ≠ 0)) (decide (r.mediaB ≠ 0))

/-- The tables `load_into` selects from. -/
def loadTables : List Table := [.dogPolicy, .terminals, .bonds, .invites, .sessions]

/-- `load_into` at the clock reading `now`; `none` where it returns an error. -/
def loadInto (F : Formats) (now : DateTime) (db : Db) (data : AppData) : Option AppData := do
  if ¬ ∀ t ∈ loadTables, t ∈ db.tables then none
  let policies ← db.dogPolicy.foldlM (loadPolicy F) data.policies
  let policies ← db.terminals.foldlM (loadTerminal F) policies
  let bonds ← db.bonds.foldlM (loadBond F) data.bonds
  let invites ← db.invites.foldlM (loadInvite F now) data.invites
  let sessions ← db.sessions.foldlM (loadSession F now) data.sessions
  return { data with policies, bonds, invites, sessions }

end CanisLink
