import CanisLink.Server
/-!
# Ledger — one request handled alone, as one transition

What the handlers decide on and leave behind is a ledger: the open invites, the sessions, the policies in force and the
rows of both on disk.  `Handled` lists the ledgers a request can leave when no other request is at work, and
`handle_handled` reads the handlers for it.
-/
namespace CanisLink

open Interleave (Prog)
open Api

@[ext] structure Ledger where
  invites : InviteId → Option Invite
  sessions : SessionStore
  policies : DogId → DogPolicy
  inviteRows : List InviteRow
  sessionRows : List SessionRow
  tables : List Table

/-- The ledger of a world. -/
def World.ledger (w : World) : Ledger where
  invites := w.data.invites.get
  sessions := w.data.sessions
  policies := w.data.policies.current
  inviteRows := w.db.invites
  sessionRows := w.db.sessions
  tables := w.db.tables

/-- What `create_invite` and `accept_invite_handler` look at besides: who is present, who is bonded, whose invite is
open. -/
def World.scene (w : World) : PresenceStore × BondGraph × (DogId → Option Invite) :=
  (w.data.presence, w.data.bonds, w.data.invites.forDog)

namespace Ledger

def expire (now : DateTime) (l : Ledger) : Ledger :=
  { l with invites := fun k => (l.invites k).filter (fun inv => !isExpired inv now) }

/-- A new invite. -/
def ring (inv : Invite) (l : Ledger) : Ledger :=
  { l with invites := fun k => if k = inv.id then some inv else l.invites k }

def close (id : InviteId) (l : Ledger) : Ledger := { l with invites := fun k => if k = id then none else l.invites k }

def setSessions (s : SessionStore) (l : Ledger) : Ledger := { l with sessions := s }

def setPolicy (p : DogPolicy) (l : Ledger) : Ledger :=
  { l with policies := fun d => if d = p.dogId then p else l.policies d }

/-- A statement on the two tables. -/
def apply (F : Formats) (s : Stmt) (l : Ledger) : Ledger :=
  if s.table ∈ l.tables then
    match s with
    | .saveInvite inv => { l with inviteRows := replaceRow (·.inviteId) (inviteRow F inv) l.inviteRows }
    | .deleteInvite id => { l with inviteRows := l.inviteRows.filter (fun r => decide (r.inviteId ≠ F.uuid id.uuid)) }
    | .saveSession x ma mb => { l with sessionRows := replaceRow (·.sessionId) (sessionRow F x ma mb) l.sessionRows }
    | .deleteSession id =>
      { l with sessionRows := l.sessionRows.filter (fun r => decide (r.sessionId ≠ F.uuid id.uuid)) }
    | _ => l
  else l

/-- A statement of a device-api that has a database. -/
def save (st : AppState) (s : Stmt) (l : Ledger) : Ledger := if st.pool then l.apply st.formats s else l

end Ledger

section

variable (st : AppState) (t : DateTime) (c : Call) (w : World)

theorem ledger_run (s : Stmt) :
    World.ledger { w with db := (s.run st.formats w.db).2 } = w.ledger.apply st.formats s := by
  unfold Ledger.apply Stmt.run
  by_cases hs : s.succeeds st.formats w.db = true
  · have ht : s.table ∈ w.db.tables := by
      have := (Bool.and_eq_true_iff.1 hs).1
      simpa using this
    rw [if_pos hs, if_pos (show s.table ∈ w.ledger.tables from ht)]
    cases s with
    | insertDog d => simp only [Stmt.effect]; split <;> rfl
    | _ => rfl
  · rw [if_neg hs]
    split
    · rename_i ht
      have ht : s.table ∈ w.db.tables := ht
      cases s with
      | saveTerminal => rfl
      | insertDog => rfl
      | savePolicy => rfl
      | saveBond => rfl
      | savePresence => rfl
      | recordInviteEvent => rfl
      | _ => exact absurd (by simp [Stmt.succeeds, ht]) hs
    · rfl

/-- **What one call does to the ledger.** -/
theorem ledger_exec : (exec st t c w).2.ledger =
    match c with
    | .invitesInsert inv => if (exec st t (.invitesInsert inv) w).1.isOk then w.ledger.ring inv else w.ledger
    | .invitesClose id => w.ledger.close id
    | .expireDue now => w.ledger.expire now
    | .sessionsInsert x =>
      match w.data.sessions.insert x with
      | .ok s => w.ledger.setSessions s
      | .error _ => w.ledger
    | .sessionsUpdate id f => w.ledger.setSessions (w.data.sessions.update id f).2
    | .sessionsEnd id => w.ledger.setSessions (w.data.sessions.endSession id).2
    | .setMediaReady id d ready => w.ledger.setSessions (w.data.sessions.setMediaReady id d ready).2
    | .policiesSet p => w.ledger.setPolicy p
    | .sql s => w.ledger.apply st.formats s
    | _ => w.ledger := by
  cases c with
  | invitesInsert inv =>
    cases h : w.data.invites.insert inv with
    | error e => simp only [exec, h, Except.isOk, Except.toBool, Bool.false_eq_true, if_false]
    | ok s =>
      simp only [exec, h, Except.isOk, Except.toBool, if_true]
      exact Ledger.ext (funext (InviteStore.get_insert h)) rfl rfl rfl rfl rfl
  | invitesClose id => exact Ledger.ext (funext (InviteStore.get_close _ _)) rfl rfl rfl rfl rfl
  | expireDue now => exact Ledger.ext (funext (InviteStore.get_expireDue _ _ _)) rfl rfl rfl rfl rfl
  | invitesLastHour d now => exact Ledger.ext (funext (InviteStore.get_invitesLastHour _ _ _)) rfl rfl rfl rfl rfl
  | sessionsInsert x =>
    cases h : w.data.sessions.insert x with
    | error e => simp only [exec, h]
    | ok s => simp only [exec, h]; rfl
  | policiesEnsure d => exact Ledger.ext rfl rfl (funext (PolicyStore.current_ensure _ _)) rfl rfl rfl
  | policiesSet p => exact Ledger.ext rfl rfl (funext (PolicyStore.current_set _ _)) rfl rfl rfl
  | bindTerminal t' d => exact Ledger.ext rfl rfl (funext (PolicyStore.current_bindTerminal _ _ _)) rfl rfl rfl
  | sql s => exact ledger_run st w s
  | _ => rfl

/-- A call that changes no ledger. -/
def Call.aside : Call → Prop
  | .invitesInsert _ | .invitesClose _ | .expireDue _ | .sessionsInsert _ | .sessionsUpdate .. | .sessionsEnd _
  | .setMediaReady .. | .policiesSet _ => False
  | .sql (.saveInvite _) | .sql (.deleteInvite _) | .sql (.saveSession ..) | .sql (.deleteSession _) => False
  | _ => True

variable {c w}

theorem ledger_aside (hc : c.aside) : (exec st t c w).2.ledger = w.ledger := by
  rw [ledger_exec]
  cases c with
  | sql s =>
    simp only [Ledger.apply]
    split
    · cases s with
      | saveInvite => exact hc.elim
      | deleteInvite => exact hc.elim
      | saveSession => exact hc.elim
      | deleteSession => exact hc.elim
      | _ => rfl
    · rfl
  | invitesInsert => exact hc.elim
  | invitesClose => exact hc.elim
  | expireDue => exact hc.elim
  | sessionsInsert => exact hc.elim
  | sessionsUpdate => exact hc.elim
  | sessionsEnd => exact hc.elim
  | setMediaReady => exact hc.elim
  | policiesSet => exact hc.elim
  | _ => rfl

/-- A call that only looks at the scene and the policies. -/
def Call.looks : Call → Prop
  | .utcNow | .newUuid | .presentDogIds _ | .isPresent .. | .routeInvite .. | .invitesGet _ | .invitesForDog _
  | .incomingFor _ | .invitesLastHour .. | .sessionsGet _ | .sessionsForDog _ | .sessionsAll | .policiesEnsure _
  | .publish .. => True
  | _ => False

theorem forDog_invitesLastHour (s : InviteStore) (d : DogId) (now : DateTime) :
    (s.invitesLastHour d now).2.forDog = s.forDog := by
  unfold InviteStore.invitesLastHour
  split <;> rfl

theorem scene_looks (hc : c.looks) : (exec st t c w).2.scene = w.scene := by
  cases c with
  | invitesLastHour d now =>
    unfold World.scene
    rw [show (exec st t (.invitesLastHour d now) w).2.data.invites.forDog = w.data.invites.forDog from
      forDog_invitesLastHour _ _ _]
    rfl
  | _ => first | rfl | exact hc.elim

end

/-! ## The transitions -/

/-- The peer `create_invite` gets through to at `now`: every guard passes. -/
def callThrough (st : AppState) (w : World) (now : DateTime) (h : HeaderMap) (b : CreateInviteBody) : Option DogId :=
  let free (d : DogId) : Bool :=
    ((w.data.invites.expireDue st.order now).2.forDog d).isNone && (w.data.sessions.forDog d).isNone
  let allowed (d : DogId) : Bool := (socialAllowed (w.data.policies.current d) now).isOk
  let rate : Bool := (inviteRateOk (w.data.invites.invitesLastHour b.dogId now).1
    (w.data.policies.current b.dogId).maxInvitesPerHour).isOk
  if (verifyDevice st h b.terminalId b.dogId).isOk && allowed b.dogId && rate && free b.dogId then
    match routeInvite st.order b.dogId b.toDog w.data.bonds (w.data.presence.presentDogIds st.order now)
        (w.data.presence.isPresent b.dogId now) with
    | .ok peer => if allowed peer && free peer then some peer else none
    | .error _ => none
  else none

/-- The dog a free-form body speaks for, once its credentials are verified. -/
def jsonCaller (st : AppState) (h : HeaderMap) (b : JsonBody) : Option DogId :=
  match st.formats.parseUuid b.dogId, st.formats.parseUuid b.terminalId with
  | some dog, some terminal => if (verifyDevice st h ⟨terminal⟩ ⟨dog⟩).isOk then some ⟨dog⟩ else none
  | _, _ => none

/-- The acceptor and the invite of an accept at `now` whose every guard passes. -/
def acceptThrough (st : AppState) (w : World) (now : DateTime) (h : HeaderMap) (i : Uuid) (b : JsonBody) :
    Option (DogId × Invite) :=
  match jsonCaller st h b, w.data.invites.get ⟨i⟩ with
  | some dog, some inv =>
    if (socialAllowed (w.data.policies.current dog) now).isOk &&
        (acceptCheck inv dog (w.data.presence.isPresent dog now) now).isOk then some (dog, inv) else none
  | _, _ => none

theorem jsonCaller_some {st : AppState} {h : HeaderMap} {b : JsonBody} {dog : DogId}
    (hc : jsonCaller st h b = some dog) : st.formats.parseUuid b.dogId = some dog.uuid := by
  unfold jsonCaller at hc
  split at hc
  · rename_i hd _
    split at hc
    · cases hc
      exact hd
    · cases hc
  · cases hc

theorem acceptThrough_some {st : AppState} {w : World} {now : DateTime} {h : HeaderMap} {i : Uuid} {b : JsonBody}
    {dog : DogId} {inv : Invite} (through : acceptThrough st w now h i b = some (dog, inv)) :
    jsonCaller st h b = some dog ∧ w.data.invites.get ⟨i⟩ = some inv ∧
      socialAllowed (w.data.policies.current dog) now = .ok () ∧ inv.toDog = dog := by
  unfold acceptThrough at through
  split at through
  · rename_i d v hd hv
    split at through
    · rename_i hguard
      cases through
      rw [Bool.and_eq_true] at hguard
      refine ⟨hd, hv, ?_, ?_⟩
      · cases hs : socialAllowed (w.data.policies.current dog) now with
        | error e => rw [hs] at hguard; exact absurd hguard.1 Bool.false_ne_true
        | ok u => rfl
      · cases hc : acceptCheck inv dog (w.data.presence.isPresent dog now) now with
        | error e => rw [hc] at hguard; exact absurd hguard.2 Bool.false_ne_true
        | ok u => exact (acceptCheck_ok hc).1
    · cases through
  · cases through

/-- The same for any request. -/
def acceptedBy (st : AppState) (s : Server) (a : Arrival) : Option (DogId × Invite) :=
  match a.req with
  | .acceptInvite h i b => acceptThrough st s.world (a.clock 0) h i b
  | _ => none

/-- The session that an accept of `inv` by `dog` begins. -/
structure Begins (w : World) (now : DateTime) (dog : DogId) (inv : Invite) (x : SessionRecord) : Prop where
  inviteId : x.inviteId = inv.id
  dogA : x.dogA = inv.fromDog
  dogB : x.dogB = inv.toDog
  state : x.state = .negotiating
  startedAt : x.startedAt = now
  maxEndAt : (seconds (asI64 (w.data.policies.current dog).maxSessionSec)).bind now.plus = some x.maxEndAt
  segmentDeadlineAt :
    (seconds (asI64 (w.data.policies.current dog).segmentSec)).bind now.plus = some x.segmentDeadlineAt

/-- Whether the tick at `now` ends a session. -/
def dueToEnd (policies : DogId → DogPolicy) (now : DateTime) (x : SessionRecord) : Bool :=
  decide (asU64 (numSeconds (now.since x.startedAt)) ≥ (policies x.dogA).maxSessionSec) ||
    (decide (now ≥ x.segmentDeadlineAt) && decide (x.state = .active)) || (policies x.dogA).emergencyStop ||
    (policies x.dogB).emergencyStop

namespace Ledger

/-- The end of a session, in memory and on disk. -/
def endSession (st : AppState) (id : SessionId) (l : Ledger) : Ledger :=
  (l.setSessions (l.sessions.endSession id).2).save st (.deleteSession id)

def endAll (st : AppState) (ids : List SessionId) (l : Ledger) : Ledger := ids.foldl (fun l id => l.endSession st id) l

def dropAll (st : AppState) (ids : List InviteId) (l : Ledger) : Ledger :=
  ids.foldl (fun l id => l.save st (.deleteInvite id)) l

/-! What a statement leaves alone. -/

section

variable (st : AppState) (l : Ledger)

theorem save_cases (s : Stmt) (l : Ledger) :
    ∃ invites sessions, l.save st s = { l with inviteRows := invites, sessionRows := sessions } := by
  unfold save apply
  split
  · split
    · cases s <;> exact ⟨_, _, rfl⟩
    · exact ⟨_, _, rfl⟩
  · exact ⟨_, _, rfl⟩

@[simp] theorem save_invites (s : Stmt) : (l.save st s).invites = l.invites := by
  obtain ⟨_, _, h⟩ := save_cases st s l
  rw [h]
@[simp] theorem save_sessions (s : Stmt) : (l.save st s).sessions = l.sessions := by
  obtain ⟨_, _, h⟩ := save_cases st s l
  rw [h]
@[simp] theorem save_policies (s : Stmt) : (l.save st s).policies = l.policies := by
  obtain ⟨_, _, h⟩ := save_cases st s l
  rw [h]
@[simp] theorem save_tables (s : Stmt) : (l.save st s).tables = l.tables := by
  obtain ⟨_, _, h⟩ := save_cases st s l
  rw [h]

/-! What a statement leaves on disk, while its table exists and there is a database. -/

section

variable {st} {l} (hp : st.pool = true)
include hp

theorem saveInvite_rows (h : Table.invites ∈ l.tables) (inv : Invite) :
    l.save st (.saveInvite inv) = { l with
      inviteRows := replaceRow (·.inviteId) (inviteRow st.formats inv) l.inviteRows } := by
  rw [save, if_pos hp, apply, if_pos (show (Stmt.saveInvite inv).table ∈ l.tables from h)]

theorem deleteInvite_rows (h : Table.invites ∈ l.tables) (id : InviteId) :
    l.save st (.deleteInvite id) = { l with
      inviteRows := l.inviteRows.filter (fun r => decide (r.inviteId ≠ st.formats.uuid id.uuid)) } := by
  rw [save, if_pos hp, apply, if_pos (show (Stmt.deleteInvite id).table ∈ l.tables from h)]

theorem saveSession_rows (h : Table.sessions ∈ l.tables) (x : SessionRecord) (ma mb : Bool) :
    l.save st (.saveSession x ma mb) = { l with
      sessionRows := replaceRow (·.sessionId) (sessionRow st.formats x ma mb) l.sessionRows } := by
  rw [save, if_pos hp, apply, if_pos (show (Stmt.saveSession x ma mb).table ∈ l.tables from h)]

theorem deleteSession_rows (h : Table.sessions ∈ l.tables) (id : SessionId) :
    l.save st (.deleteSession id) = { l with
      sessionRows := l.sessionRows.filter (fun r => decide (r.sessionId ≠ st.formats.uuid id.uuid)) } := by
  rw [save, if_pos hp, apply, if_pos (show (Stmt.deleteSession id).table ∈ l.tables from h)]

end

theorem endSession_cases (id : SessionId) (l : Ledger) :
    ∃ sessions rows, l.endSession st id = { l with sessions := sessions, sessionRows := rows } := by
  unfold endSession save apply
  split
  · split <;> exact ⟨_, _, rfl⟩
  · exact ⟨_, _, rfl⟩

theorem endAll_cases : ∀ (ids : List SessionId) (l : Ledger),
    ∃ sessions rows, l.endAll st ids = { l with sessions := sessions, sessionRows := rows }
  | [], _ => ⟨_, _, rfl⟩
  | id :: ids, l => by
    obtain ⟨_, _, h⟩ := endSession_cases st id l
    obtain ⟨sessions, rows, h'⟩ := endAll_cases ids (l.endSession st id)
    exact ⟨sessions, rows, h'.trans (by rw [h])⟩

theorem dropAll_cases : ∀ (ids : List InviteId) (l : Ledger), ∃ rows, l.dropAll st ids = { l with inviteRows := rows }
  | [], _ => ⟨_, rfl⟩
  | id :: ids, l => by
    obtain ⟨_, h⟩ : ∃ rows, l.save st (.deleteInvite id) = { l with inviteRows := rows } := by
      unfold save apply
      split
      · split <;> exact ⟨_, rfl⟩
      · exact ⟨_, rfl⟩
    obtain ⟨rows, h'⟩ := dropAll_cases ids (l.save st (.deleteInvite id))
    exact ⟨rows, h'.trans (by rw [h])⟩

@[simp] theorem endSession_inviteRows (id : SessionId) : (l.endSession st id).inviteRows = l.inviteRows := by
  obtain ⟨_, _, h⟩ := endSession_cases st id l
  rw [h]
@[simp] theorem endAll_invites (ids : List SessionId) : (l.endAll st ids).invites = l.invites := by
  obtain ⟨_, _, h⟩ := endAll_cases st ids l
  rw [h]
@[simp] theorem endAll_inviteRows (ids : List SessionId) : (l.endAll st ids).inviteRows = l.inviteRows := by
  obtain ⟨_, _, h⟩ := endAll_cases st ids l
  rw [h]
@[simp] theorem endAll_policies (ids : List SessionId) : (l.endAll st ids).policies = l.policies := by
  obtain ⟨_, _, h⟩ := endAll_cases st ids l
  rw [h]
@[simp] theorem dropAll_invites (ids : List InviteId) : (l.dropAll st ids).invites = l.invites := by
  obtain ⟨_, h⟩ := dropAll_cases st ids l
  rw [h]
@[simp] theorem dropAll_sessions (ids : List InviteId) : (l.dropAll st ids).sessions = l.sessions := by
  obtain ⟨_, h⟩ := dropAll_cases st ids l
  rw [h]
@[simp] theorem dropAll_policies (ids : List InviteId) : (l.dropAll st ids).policies = l.policies := by
  obtain ⟨_, h⟩ := dropAll_cases st ids l
  rw [h]
@[simp] theorem dropAll_sessionRows (ids : List InviteId) : (l.dropAll st ids).sessionRows = l.sessionRows := by
  obtain ⟨_, h⟩ := dropAll_cases st ids l
  rw [h]
@[simp] theorem dropAll_tables (ids : List InviteId) : (l.dropAll st ids).tables = l.tables := by
  obtain ⟨_, h⟩ := dropAll_cases st ids l
  rw [h]

theorem expire_some {now : DateTime} {k : InviteId} {inv : Invite} (h : (l.expire now).invites k = some inv) :
    l.invites k = some inv := (Option.filter_eq_some_iff.1 h).1

theorem close_some {id k : InviteId} {inv : Invite} (h : (l.close id).invites k = some inv) :
    l.invites k = some inv := by
  have h : (if k = id then none else l.invites k) = some inv := h
  split at h
  · cases h
  · exact h

theorem endSession_get (id k : SessionId) :
    (l.endSession st id).sessions.get k = if k = id then none else l.sessions.get k := by
  unfold endSession
  rw [save_sessions]
  exact SessionStore.get_endSession _ _ _

theorem endAll_get : ∀ (ids : List SessionId) (l : Ledger) (k : SessionId),
    (l.endAll st ids).sessions.get k = if k ∈ ids then none else l.sessions.get k
  | [], _, _ => rfl
  | id :: ids, l, k => by
    refine (endAll_get ids (l.endSession st id) k).trans ?_
    rw [endSession_get]
    by_cases hk : k = id
    · simp [hk]
    · simp [hk]

end

end Ledger

def Request.isTick : Request → Bool
  | .policyTick => true
  | _ => false

/-- **The ledgers a request can leave** when it is handled alone, in `n` calls under the clock `κ`; `u`
is the next uuid after it. -/
inductive Handled (st : AppState) (κ : Nat → DateTime) (n : Nat) (u : Uuid) (w : World) : Request → Ledger → Prop
  | aside (r : Request) (handler : r.isTick = false) : Handled st κ n u w r w.ledger
  | swept {r : Request} {k : Nat} (handler : r.isTick = false) (expires : r.expires = true) (within : k ≤ n) :
      Handled st κ n u w r (w.ledger.expire (κ k))
  | rang {h : HeaderMap} {b : CreateInviteBody} {inv : Invite} (through : callThrough st w (κ 0) h b = some inv.toDog)
      (caller : inv.fromDog = b.dogId) (drawn : w.nextUuid ≤ inv.id.uuid ∧ inv.id.uuid < u)
      (made : ∃ k, inv.createdAt = κ k ∧ (κ k).plus (milliseconds RING_TIMEOUT_MS) = some inv.expiresAt) :
      Handled st κ n u w (.createInvite h b) (((w.ledger.expire (κ 0)).ring inv).save st (.saveInvite inv))
  | cancelled {h : HeaderMap} {i : Uuid} {b : JsonBody} {dog : Uuid} {inv : Invite}
      (caller : st.formats.parseUuid b.dogId = some dog) (found : w.data.invites.get ⟨i⟩ = some inv)
      (party : inv.hasDog ⟨dog⟩) :
      Handled st κ n u w (.cancelInvite h i b) ((w.ledger.close ⟨i⟩).save st (.deleteInvite ⟨i⟩))
  | clashed {h : HeaderMap} {i : Uuid} {b : JsonBody} {dog : DogId} {inv : Invite} {x : SessionRecord} {e : String}
      (through : acceptThrough st w (κ 0) h i b = some (dog, inv)) (begins : Begins w (κ 0) dog inv x)
      (clash : w.data.sessions.insert x = .error e) :
      Handled st κ n u w (.acceptInvite h i b) ((w.ledger.expire (κ 0)).close ⟨i⟩)
  | began {h : HeaderMap} {i : Uuid} {b : JsonBody} {dog : DogId} {inv : Invite} {x : SessionRecord} {s : SessionStore}
      (through : acceptThrough st w (κ 0) h i b = some (dog, inv)) (begins : Begins w (κ 0) dog inv x)
      (drawn : w.nextUuid ≤ x.id.uuid ∧ x.id.uuid < u) (inserted : w.data.sessions.insert x = .ok s) :
      Handled st κ n u w (.acceptInvite h i b)
        (((((w.ledger.expire (κ 0)).close ⟨i⟩).setSessions s).save st (.deleteInvite ⟨i⟩)).save st
          (.saveSession x false false))
  | marked {h : HeaderMap} {i : Uuid} {b : JsonBody} {dog : DogId} {both : Bool} {x : SessionRecord} {s : SessionStore}
      (caller : jsonCaller st h b = some dog)
      (set : w.data.sessions.setMediaReady ⟨i⟩ dog (b.ready.getD true) = (some (both, x), s)) :
      Handled st κ n u w (.mediaReady h i b) ((w.ledger.setSessions s).save st
        (.saveSession x (both || decide (dog = x.dogA)) (both || decide (dog = x.dogB))))
  | renewed {h : HeaderMap} {i : Uuid} {b : JsonBody} {dog : DogId} {x : SessionRecord} {deadline : DateTime}
      (caller : jsonCaller st h b = some dog) (found : w.data.sessions.get ⟨i⟩ = some x) (party : x.hasDog dog)
      (extended : extendSegment (κ 2) (w.data.policies.current dog).segmentSec x.maxEndAt = some deadline) :
      Handled st κ n u w (.again h i b)
        ((w.ledger.setSessions
          (w.data.sessions.update ⟨i⟩ (fun s => { s with segmentDeadlineAt := deadline })).2).save st
          (.saveSession { x with segmentDeadlineAt := deadline } true true))
  | ended {h : HeaderMap} {i : Uuid} {b : EndSessionRequest} {x : SessionRecord}
      (found : w.data.sessions.get ⟨i⟩ = some x) (party : x.hasDog b.dogId) :
      Handled st κ n u w (.endSession h i b) (w.ledger.endSession st ⟨i⟩)
  | estopSet {h : HeaderMap} {d : DogId} {on : Bool} :
      Handled st κ n u w (.stewardEstop h d on)
        (w.ledger.setPolicy { w.data.policies.current d with emergencyStop := on })
  | stopped {h : HeaderMap} {d : DogId} {x : SessionRecord} :
      Handled st κ n u w (.stewardEstop h d true)
        ((w.ledger.setPolicy { w.data.policies.current d with emergencyStop := true }).endSession st x.id)
  | socialSet {h : HeaderMap} {d : DogId} {on : Bool} :
      Handled st κ n u w (.stewardSocial h d on)
        (w.ledger.setPolicy { w.data.policies.current d with socialDisabled := on })
  | policySet {h : HeaderMap} {b : StewardPolicyBody} (steward : verifySteward st h = .ok ()) :
      Handled st κ n u w (.stewardPolicy h b) (w.ledger.setPolicy (b.apply (w.data.policies.current b.dogId)))
  | ticked {xs : List SessionRecord} (all : ∀ x, x ∈ xs ↔ ∃ id, w.data.sessions.get id = some x) :
      Handled st κ n u w .policyTick
        (((w.ledger.expire (κ 0)).dropAll st ((w.data.invites.expireDue st.order (κ 0)).1.map (·.id))).endAll st
          ((xs.filter (dueToEnd w.data.policies.current (κ 0))).map (·.id)))

/-! ## What a request does to a session, and to a policy -/

/-- What a request can do to a session: leave it, mark it active, or move its segment, never past `max_end_at`. -/
inductive Later (x : SessionRecord) : SessionRecord → Prop
  | same : Later x x
  | active : Later x { x with state := .active }
  | renewed {deadline : DateTime} (h : deadline ≤ x.maxEndAt) : Later x { x with segmentDeadlineAt := deadline }

theorem Later.fixed {x y : SessionRecord} (h : Later x y) :
    y.id = x.id ∧ y.dogA = x.dogA ∧ y.startedAt = x.startedAt ∧ y.maxEndAt = x.maxEndAt := by
  cases h <;> exact ⟨rfl, rfl, rfl, rfl⟩

theorem Later.hasDog {x y : SessionRecord} (h : Later x y) (d : DogId) : y.hasDog d ↔ x.hasDog d := by
  cases h <;> exact Iff.rfl

section

variable {st : AppState} {κ : Nat → DateTime} {n : Nat} {u : Uuid} {w : World} {r : Request} {l : Ledger}

/-- **A session after a request** is a session from before, or has begun. -/
theorem Handled.session (h : Handled st κ n u w r l) {k : SessionId} {y : SessionRecord}
    (hy : l.sessions.get k = some y) :
    (∃ x, w.data.sessions.get k = some x ∧ Later x y) ∨ ∃ hd i b dog inv, r = .acceptInvite hd i b ∧
      acceptThrough st w (κ 0) hd i b = some (dog, inv) ∧ Begins w (κ 0) dog inv y ∧ w.nextUuid ≤ k.uuid ∧
      k.uuid < u := by
  cases h with
  | rang => rw [Ledger.save_sessions] at hy; exact .inl ⟨y, hy, .same⟩
  | cancelled => rw [Ledger.save_sessions] at hy; exact .inl ⟨y, hy, .same⟩
  | began through begins drawn inserted =>
    rw [Ledger.save_sessions, Ledger.save_sessions] at hy
    have hg := hy.symm.trans (SessionStore.get_insert inserted k)
    split at hg
    · rename_i hk
      rw [Option.some.inj hg]
      exact .inr ⟨_, _, _, _, _, rfl, through, begins, hk ▸ drawn⟩
    · exact .inl ⟨y, hg.symm, .same⟩
  | @marked h i b dog both x s caller set =>
    rw [Ledger.save_sessions] at hy
    have hs : (w.data.sessions.setMediaReady ⟨i⟩ dog (b.ready.getD true)).2 = s := congrArg Prod.snd set
    rcases SessionStore.setMediaReady_cases w.data.sessions ⟨i⟩ dog (b.ready.getD true) with
      ⟨hc, -⟩ | ⟨z, e, e', s', hz, -, -, hc, -, -, hg⟩
    · rw [hc] at set; cases set
    · rw [hc] at set
      cases set
      have hk := hy.symm.trans (hg k)
      split at hk
      · rename_i hki
        refine .inl ⟨z, hki ▸ hz, ?_⟩
        rw [Option.some.inj hk]
        rcases SessionStore.promote_eq_or e' z with hp | hp
        · rw [hp]; exact .same
        · rw [hp]; exact .active
      · exact .inl ⟨y, hk.symm, .same⟩
  | @renewed h i b dog x deadline caller found party extended =>
    rw [Ledger.save_sessions] at hy
    have hk := hy.symm.trans
      (SessionStore.get_update w.data.sessions ⟨i⟩ k (fun s => { s with segmentDeadlineAt := deadline }))
    split at hk
    · rename_i hki
      rw [hki, found] at hk
      rw [Option.some.inj hk, hki]
      exact .inl ⟨x, found, .renewed (extendSegment_le extended)⟩
    · exact .inl ⟨y, hk.symm, .same⟩
  | ended =>
    rw [Ledger.endSession_get] at hy
    split at hy
    · cases hy
    · exact .inl ⟨y, hy, .same⟩
  | stopped =>
    rw [Ledger.endSession_get] at hy
    split at hy
    · cases hy
    · exact .inl ⟨y, hy, .same⟩
  | ticked =>
    rw [Ledger.endAll_get, Ledger.dropAll_sessions] at hy
    split at hy
    · cases hy
    · exact .inl ⟨y, hy, .same⟩
  | _ => exact .inl ⟨y, hy, .same⟩

/-- **An invite after a request** was open before, or the request has sent it. -/
theorem Handled.invite (h : Handled st κ n u w r l) {k : InviteId} {inv : Invite} (hinv : l.invites k = some inv) :
    w.data.invites.get k = some inv ∨ ∃ hd b, r = .createInvite hd b ∧ callThrough st w (κ 0) hd b = some inv.toDog ∧
      inv.fromDog = b.dogId ∧ w.nextUuid ≤ k.uuid ∧ k.uuid < u := by
  cases h with
  | swept => exact .inl (Ledger.expire_some w.ledger hinv)
  | rang through caller drawn made =>
    rw [Ledger.save_invites] at hinv
    have hring : (if k = _ then some _ else _) = some inv := hinv
    split at hring
    · rename_i hk
      cases hring
      exact .inr ⟨_, _, rfl, through, caller, hk ▸ drawn⟩
    · exact .inl (Ledger.expire_some w.ledger hring)
  | cancelled =>
    rw [Ledger.save_invites] at hinv
    exact .inl (Ledger.close_some w.ledger hinv)
  | clashed => exact .inl (Ledger.expire_some w.ledger (Ledger.close_some _ hinv))
  | began =>
    rw [Ledger.save_invites, Ledger.save_invites] at hinv
    exact .inl (Ledger.expire_some w.ledger (Ledger.close_some (w.ledger.expire _) hinv))
  | marked =>
    rw [Ledger.save_invites] at hinv
    exact .inl hinv
  | renewed =>
    rw [Ledger.save_invites] at hinv
    exact .inl hinv
  | ended => exact .inl ((congrFun (Ledger.save_invites st _ _) k).symm.trans hinv)
  | stopped => exact .inl ((congrFun (Ledger.save_invites st _ _) k).symm.trans hinv)
  | ticked =>
    rw [Ledger.endAll_invites, Ledger.dropAll_invites] at hinv
    exact .inl (Ledger.expire_some w.ledger hinv)
  | _ => exact .inl hinv

theorem Handled.policies_eq (h : Handled st κ n u w r l) (hr : r.editsPolicy = false) :
    l.policies = w.data.policies.current := by
  cases h with
  | rang => exact Ledger.save_policies st _ _
  | cancelled => exact Ledger.save_policies st _ _
  | began => exact (Ledger.save_policies st _ _).trans (Ledger.save_policies st _ _)
  | marked => exact Ledger.save_policies st _ _
  | renewed => exact Ledger.save_policies st _ _
  | ended => exact Ledger.save_policies st _ _
  | ticked => exact (Ledger.endAll_policies st _ _).trans (Ledger.dropAll_policies st _ _)
  | estopSet => cases hr
  | stopped => cases hr
  | socialSet => cases hr
  | policySet => cases hr
  | _ => rfl

end
end CanisLink
