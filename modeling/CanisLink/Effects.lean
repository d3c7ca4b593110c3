import CanisLink.DeviceApi
import CanisLink.Stores
/-!
# Effects — what one call changes, and which calls a request may make

Each store is changed by few calls: the lemmas of the first part say by which and how.  `Request.makes` is the table of
the writes a request may make, and `handle_makes` is the one place where the handlers are read for it.
-/
namespace CanisLink

open Interleave (Prog)
open Api

section

variable (st : AppState) (t : DateTime) (c : Call) (w : World)

/-! ## One call -/

theorem sql_succeeds {st : AppState} {w : World} {t : DateTime} {q : Stmt} (h : q.succeeds st.formats w.db = true) :
    exec st t (.sql q) w = (true, { w with db := q.effect st.formats w.db }) := by
  simp only [exec, Stmt.run, if_pos h]

theorem sql_ok {st : AppState} {w : World} {t : DateTime} {q : Stmt} (h : (exec st t (.sql q) w).1 = true) :
    (exec st t (.sql q) w).2.db = q.effect st.formats w.db := by
  cases hq : q.succeeds st.formats w.db with
  | true => rw [sql_succeeds hq]
  | false =>
    have h : (q.run st.formats w.db).1 = true := h
    rw [Stmt.run, if_neg (by rw [hq]; decide)] at h
    cases h

theorem exec_current (d : DogId) : (exec st t c w).2.data.policies.current d =
    match c with
    | .policiesSet p => if d = p.dogId then p else w.data.policies.current d
    | _ => w.data.policies.current d := by
  cases c with
  | policiesEnsure d' => exact PolicyStore.current_ensure _ _ _
  | policiesSet p => exact PolicyStore.current_set _ _ _
  | bindTerminal t' d' => exact PolicyStore.current_bindTerminal _ _ _ _
  | invitesInsert inv => exact invitesInsert_keeps st t w (·.data.policies.current d) (fun _ => rfl) inv
  | sessionsInsert x => exact sessionsInsert_keeps st t w (·.data.policies.current d) (fun _ => rfl) x
  | _ => rfl

theorem exec_invites (k : InviteId) : (exec st t c w).2.data.invites.get k =
    match c with
    | .invitesInsert inv =>
      if (exec st t (.invitesInsert inv) w).1.isOk ∧ k = inv.id then some inv else w.data.invites.get k
    | .invitesClose id => if k = id then none else w.data.invites.get k
    | .expireDue now => (w.data.invites.get k).filter (fun inv => !isExpired inv now)
    | _ => w.data.invites.get k := by
  cases c with
  | invitesInsert inv =>
    cases h : w.data.invites.insert inv with
    | error e => simp only [exec, h, Except.isOk, Except.toBool, Bool.false_eq_true, false_and, if_false]
    | ok s =>
      simp only [exec, h, Except.isOk, Except.toBool, true_and]
      exact InviteStore.get_insert h k
  | invitesClose id => exact InviteStore.get_close _ _ _
  | expireDue now => exact InviteStore.get_expireDue _ _ _ _
  | invitesLastHour d now => exact InviteStore.get_invitesLastHour _ _ _ _
  | sessionsInsert x => exact sessionsInsert_keeps st t w (·.data.invites.get k) (fun _ => rfl) x
  | _ => rfl

theorem exec_sessions (k : SessionId) : (exec st t c w).2.data.sessions.get k =
    match c with
    | .sessionsInsert x =>
      if (exec st t (.sessionsInsert x) w).1.isOk ∧ k = x.id then some x else w.data.sessions.get k
    | .sessionsUpdate id f => if k = id then (w.data.sessions.get k).map f else w.data.sessions.get k
    | .sessionsEnd id => if k = id then none else w.data.sessions.get k
    | .setMediaReady id d ready => (w.data.sessions.setMediaReady id d ready).2.get k
    | _ => w.data.sessions.get k := by
  cases c with
  | sessionsInsert x =>
    cases h : w.data.sessions.insert x with
    | error e => simp only [exec, h, Except.isOk, Except.toBool, Bool.false_eq_true, false_and, if_false]
    | ok s =>
      simp only [exec, h, Except.isOk, Except.toBool, true_and]
      exact SessionStore.get_insert h k
  | sessionsUpdate id f => exact SessionStore.get_update _ _ _ _
  | sessionsEnd id => exact SessionStore.get_endSession _ _ _
  | invitesInsert inv => exact invitesInsert_keeps st t w (·.data.sessions.get k) (fun _ => rfl) inv
  | _ => rfl

theorem exec_presence : (exec st t c w).2.data.presence =
    match c with
    | .presenceUpsert r => w.data.presence.upsert r
    | _ => w.data.presence := by
  cases c with
  | invitesInsert inv => exact invitesInsert_keeps st t w (·.data.presence) (fun _ => rfl) inv
  | sessionsInsert x => exact sessionsInsert_keeps st t w (·.data.presence) (fun _ => rfl) x
  | _ => rfl

theorem exec_bonds : (exec st t c w).2.data.bonds =
    match c with
    | .bootstrapMutual a b weight => w.data.bonds.bootstrapMutual a b weight
    | _ => w.data.bonds := by
  cases c with
  | invitesInsert inv => exact invitesInsert_keeps st t w (·.data.bonds) (fun _ => rfl) inv
  | sessionsInsert x => exact sessionsInsert_keeps st t w (·.data.bonds) (fun _ => rfl) x
  | _ => rfl

theorem exec_db : (exec st t c w).2.db =
    match c with
    | .sql s => (s.run st.formats w.db).2
    | _ => w.db := by
  cases c with
  | invitesInsert inv => exact invitesInsert_keeps st t w (·.db) (fun _ => rfl) inv
  | sessionsInsert x => exact sessionsInsert_keeps st t w (·.db) (fun _ => rfl) x
  | _ => rfl

/-- A change of a session record that keeps who it is about. -/
def Call.keepsParties : Call → Prop
  | .sessionsUpdate _ f => ∀ x, (f x).id = x.id ∧ (f x).dogA = x.dogA ∧ (f x).dogB = x.dogB
  | _ => True

/-- The invite a call inserted. -/
def Call.opened : (c : Call) → c.Resp → Option Invite
  | .invitesInsert inv, .ok _ => some inv
  | _, _ => none

/-- The session a call inserted. -/
def Call.started : (c : Call) → c.Resp → Option SessionRecord
  | .sessionsInsert x, .ok _ => some x
  | _, _ => none

variable {c}

/-- **An invite in the store after a call** was there before, or the call inserted it. -/
theorem invites_after {k : InviteId} {inv : Invite} (h : (exec st t c w).2.data.invites.get k = some inv) :
    w.data.invites.get k = some inv ∨ (c.opened (exec st t c w).1 = some inv ∧ inv.id = k) := by
  rw [exec_invites] at h
  cases c with
  | invitesInsert x =>
    simp only at h
    split at h
    · rename_i hok
      cases h
      right
      cases hr : (exec st t (.invitesInsert inv) w).1 with
      | error e => rw [hr] at hok; exact absurd hok.1 (by simp [Except.isOk, Except.toBool])
      | ok u => exact ⟨rfl, hok.2.symm⟩
    · exact .inl h
  | invitesClose id =>
    simp only at h
    split at h
    · cases h
    · exact .inl h
  | expireDue now => exact .inl (Option.filter_eq_some_iff.1 h).1
  | _ => exact .inl h

/-- **A session in the store after a call** was there before between the same dogs, or the call inserted it. -/
theorem sessions_after (hc : c.keepsParties) {k : SessionId} {x : SessionRecord}
    (h : (exec st t c w).2.data.sessions.get k = some x) :
    (∃ y, w.data.sessions.get k = some y ∧ ∀ d, x.hasDog d ↔ y.hasDog d) ∨
      (c.started (exec st t c w).1 = some x ∧ x.id = k) := by
  rw [exec_sessions] at h
  cases c with
  | sessionsInsert y =>
    simp only at h
    split at h
    · rename_i hok
      cases h
      right
      cases hr : (exec st t (.sessionsInsert x) w).1 with
      | error e => rw [hr] at hok; exact absurd hok.1 (by simp [Except.isOk, Except.toBool])
      | ok u => exact ⟨rfl, hok.2.symm⟩
    · exact .inl ⟨x, h, fun _ => Iff.rfl⟩
  | sessionsUpdate id f =>
    left
    simp only at h
    split at h
    · obtain ⟨y, hy, rfl⟩ := Option.map_eq_some_iff.1 h
      obtain ⟨-, ha, hb⟩ := hc y
      exact ⟨y, hy, fun d => by rw [SessionRecord.hasDog, ha, hb]; exact Iff.rfl⟩
    · exact ⟨x, h, fun _ => Iff.rfl⟩
  | sessionsEnd id =>
    simp only at h
    split at h
    · cases h
    · exact .inl ⟨x, h, fun _ => Iff.rfl⟩
  | setMediaReady id d ready =>
    left
    simp only at h
    rcases SessionStore.setMediaReady_cases w.data.sessions id d ready with
      ⟨hs, -⟩ | ⟨y, e, e', s', hy, -, -, hs, -, -, hg⟩
    · rw [hs] at h
      exact ⟨x, h, fun _ => Iff.rfl⟩
    · rw [hs] at h
      rw [hg] at h
      split at h
      · rename_i hk
        cases h
        refine ⟨y, hk ▸ hy, fun d => ?_⟩
        rw [SessionRecord.hasDog, SessionStore.promote_dogA, SessionStore.promote_dogB]
        exact Iff.rfl
      · exact ⟨x, h, fun _ => Iff.rfl⟩
  | _ => exact .inl ⟨x, h, fun _ => Iff.rfl⟩

/-- **An invite that is gone after a call**: the call closed it, or found it expired. -/
theorem invites_gone {k : InviteId} {inv : Invite} (h : w.data.invites.get k = some inv)
    (hgone : (exec st t c w).2.data.invites.get k = none) :
    c = .invitesClose k ∨ ∃ now, c = .expireDue now ∧ isExpired inv now = true := by
  rw [exec_invites] at hgone
  cases c with
  | invitesInsert x =>
    simp only at hgone
    split at hgone
    · cases hgone
    · cases h.symm.trans hgone
  | invitesClose id =>
    simp only at hgone
    split at hgone
    · rename_i hk; exact .inl (by rw [hk])
    · cases h.symm.trans hgone
  | expireDue now =>
    right
    refine ⟨now, rfl, ?_⟩
    rw [h, Option.filter_eq_none_iff] at hgone
    simpa using hgone
  | _ => cases h.symm.trans hgone

/-- **A session that is gone after a call** was gone before, or the call ended it. -/
theorem sessions_gone {k : SessionId} (h : (exec st t c w).2.data.sessions.get k = none) :
    w.data.sessions.get k = none ∨ c = .sessionsEnd k := by
  rw [exec_sessions] at h
  cases c with
  | sessionsInsert y =>
    simp only at h
    split at h
    · cases h
    · exact .inl h
  | sessionsUpdate id f =>
    simp only at h
    split at h
    · exact .inl (Option.map_eq_none_iff.1 h)
    · exact .inl h
  | sessionsEnd id =>
    simp only at h
    split at h
    · rename_i hk; exact .inr (by rw [hk])
    · exact .inl h
  | setMediaReady id d ready =>
    simp only at h
    rcases SessionStore.setMediaReady_cases w.data.sessions id d ready with
      ⟨hs, -⟩ | ⟨y, e, e', s', -, -, -, hs, -, -, hg⟩
    · rw [hs] at h; exact .inl h
    · rw [hs] at h
      rw [hg] at h
      split at h
      · cases h
      · exact .inl h
  | _ => exact .inl h

/-- Both indexed stores are consistent. -/
structure World.Consistent (w : World) : Prop where
  invites : w.data.invites.Consistent
  sessions : w.data.sessions.Consistent

variable {w}

/-- **Every call keeps the stores consistent.** -/
theorem exec_consistent (hc : c.keepsParties) (hw : w.Consistent) : (exec st t c w).2.Consistent := by
  obtain ⟨hi, hs⟩ := hw
  cases c with
  | invitesInsert inv =>
    simp only [exec]
    split
    · rename_i s h; exact ⟨hi.insert h, hs⟩
    · exact ⟨hi, hs⟩
  | invitesClose id => exact ⟨hi.close id, hs⟩
  | expireDue now => exact ⟨hi.expireDue _ now, hs⟩
  | recordInvite d at_ => exact ⟨⟨hi.keyed, hi.indexed⟩, hs⟩
  | invitesLastHour d now =>
    refine ⟨?_, hs⟩
    show (w.data.invites.invitesLastHour d now).2.Consistent
    unfold InviteStore.invitesLastHour
    split
    · exact hi
    · exact ⟨hi.keyed, hi.indexed⟩
  | sessionsInsert x =>
    simp only [exec]
    split
    · rename_i s h; exact ⟨hi, hs.insert h⟩
    · exact ⟨hi, hs⟩
  | sessionsUpdate id f => exact ⟨hi, hs.update id hc⟩
  | sessionsEnd id => exact ⟨hi, hs.endSession id⟩
  | setMediaReady id d ready => exact ⟨hi, hs.setMediaReady id d ready⟩
  | _ => exact ⟨hi, hs⟩

end

theorem consistent_empty (db : Db) : World.Consistent { db } := ⟨.empty, .empty⟩

/-! ## Whose call it is -/

namespace Request

def isCreate : Request → Bool
  | .createInvite .. => true
  | _ => false

/-- The dog that calls. -/
def caller : Request → Option DogId
  | .createInvite _ b => some b.dogId
  | _ => none

def isAccept : Request → Bool
  | .acceptInvite .. => true
  | _ => false

def isCancel : Request → Bool
  | .cancelInvite .. => true
  | _ => false

/-- The requests that look for expired invites. -/
def expires : Request → Bool
  | .createInvite .. | .incomingInvite .. | .acceptInvite .. | .policyTick => true
  | _ => false

/-- The requests that end sessions. -/
def ends : Request → Bool
  | .endSession .. | .stewardEstop .. | .policyTick => true
  | _ => false

def isAgain : Request → Bool
  | .again .. => true
  | _ => false

def isMediaReady : Request → Bool
  | .mediaReady .. => true
  | _ => false

def editsPolicy : Request → Bool
  | .stewardEstop .. | .stewardSocial .. | .stewardPolicy .. => true
  | _ => false

def isEnroll : Request → Bool
  | .devEnroll .. => true
  | _ => false

def isPost : Request → Bool
  | .postPresence .. => true
  | _ => false

/-- The requests that bond two dogs. -/
def bonds : Request → Bool
  | .devBootstrapBond .. | .stewardBonds .. => true
  | _ => false

/-- The statements a request may run. -/
def writes (r : Request) : Stmt → Prop
  | .saveInvite _ | .recordInviteEvent .. => r.isCreate
  | .deleteInvite _ => r.isCancel ∨ r.isAccept ∨ r = .policyTick
  | .saveSession .. => r.isAccept ∨ r.isMediaReady ∨ r.isAgain
  | .deleteSession _ => r.ends
  | .insertDog _ | .saveTerminal .. => r.isEnroll
  | .savePolicy _ => r.editsPolicy ∨ r.isEnroll
  | .saveBond .. => r.bonds
  | .savePresence _ => r.isPost

/-- **The writes a request may make.** -/
def makes (r : Request) : Call → Prop
  | .invitesInsert _ => r.isCreate
  | .invitesClose _ => r.isCancel ∨ r.isAccept
  | .expireDue _ => r.expires
  | .sessionsInsert _ => r.isAccept
  | .sessionsUpdate _ f => r.isAgain ∧ ∃ deadline, f = fun x => { x with segmentDeadlineAt := deadline }
  | .setMediaReady .. => r.isMediaReady
  | .sessionsEnd _ => r.ends
  | .policiesSet _ => r.editsPolicy
  | .presenceUpsert _ => r.isPost
  | .bootstrapMutual .. => r.bonds
  | .recordInvite d _ | .invitesLastHour d _ => r.caller = some d
  | .sql s => r.writes s
  | _ => True

theorem makes_keepsParties {r : Request} {c : Call} (h : r.makes c) : c.keepsParties := by
  cases c with
  | sessionsUpdate id f =>
    obtain ⟨-, d, rfl⟩ := h
    exact fun x => ⟨rfl, rfl, rfl⟩
  | _ => trivial

end Request

section

variable (st : AppState)

theorem publishMany_all {S : Call → Prop} (hS : ∀ d ev, S (.publish d ev)) (ev : DeviceEvent) :
    ∀ ds : List DogId, (publishMany ds ev).All S
  | [] => trivial
  | d :: ds => ⟨hS d ev, fun _ => publishMany_all hS ev ds⟩

theorem saveBond_makes {r : Request} (hr : r.bonds = true) (a b : DogId) (weight : Rat) :
    (saveBond a b weight).All r.makes := by
  refine ⟨hr, fun ok => ?_⟩
  cases ok with
  | false => trivial
  | true => exact ⟨hr, fun _ => trivial⟩

theorem saveEnroll_makes {r : Request} (hr : r.isEnroll = true) (t : TerminalId) (d : DogId) (h : String) :
    (saveEnroll t d h).All r.makes := by
  refine ⟨hr, fun ok => ?_⟩
  cases ok with
  | false => trivial
  | true =>
    refine ⟨hr, fun ok => ?_⟩
    cases ok with
    | false => trivial
    | true => exact ⟨.inr hr, fun _ => trivial⟩

theorem busy_makes (r : Request) (d : DogId) : (busy d).All r.makes := by
  refine ⟨trivial, fun o => ?_⟩
  cases o with
  | none => exact ⟨trivial, fun _ => trivial⟩
  | some _ => trivial

theorem dropInvites_all {S : Call → Prop} (hS : ∀ id, S (.sql (.deleteInvite id))) :
    ∀ due : List Invite, (dropInvites st due).All S
  | [] => trivial
  | inv :: rest => by
    unfold dropInvites
    cases st.pool with
    | false => exact dropInvites_all hS rest
    | true => exact ⟨hS inv.id, fun _ => dropInvites_all hS rest⟩

theorem tickEnds_all {S : Call → Prop} (hS : ∀ d, S (.policiesEnsure d)) (now : DateTime) (x : SessionRecord) :
    (tickEnds now x).All S := by
  unfold tickEnds
  simp only [policiesGet, policiesEnsure, Prog.op_bind, Prog.pure_eq]
  refine ⟨hS _, fun polA => ?_⟩
  dsimp only
  split
  · trivial
  · split
    · trivial
    · refine ⟨hS _, fun polA => ?_⟩
      dsimp only
      split
      · trivial
      · exact ⟨hS _, fun _ => trivial⟩

theorem tickSessions_makes (now : DateTime) : ∀ xs : List SessionRecord,
    (tickSessions st now xs).All Request.policyTick.makes
  | [] => trivial
  | x :: rest => by
    unfold tickSessions
    refine (tickEnds_all (fun _ => trivial) now x).bind (fun e => ?_)
    cases e with
    | false => exact tickSessions_makes now rest
    | true =>
      refine ⟨rfl, fun _ => ?_⟩
      cases st.pool with
      | false => exact tickSessions_makes now rest
      | true => exact ⟨rfl, fun _ => tickSessions_makes now rest⟩

theorem createInvite_makes (h : HeaderMap) (b : CreateInviteBody) :
    (createInvite st h b).All (Request.createInvite h b).makes := by
  unfold createInvite
  simp only [utcNow, expireDue, policiesGet, policiesEnsure, invitesLastHour, presentDogIds, isPresent, Api.routeInvite,
    newUuid, invitesInsert, recordInvite, sql, publish, Prog.op_bind, Prog.pure_eq]
  cases verifyDevice st h b.terminalId b.dogId with
  | error s => trivial
  | ok u =>
    refine ⟨trivial, fun now => ⟨rfl, fun _ => ⟨trivial, fun pol => ?_⟩⟩⟩
    dsimp only
    cases socialAllowed pol now with
    | error e => trivial
    | ok u =>
      refine ⟨rfl, fun count => ?_⟩
      dsimp only
      cases inviteRateOk count pol.maxInvitesPerHour with
      | error e => trivial
      | ok u =>
        refine (busy_makes _ _).bind (fun callerBusy => ?_)
        cases callerBusy with
        | true => trivial
        | false =>
          refine ⟨trivial, fun presentIds => ⟨trivial, fun callerPresent => ⟨trivial, fun routed => ?_⟩⟩⟩
          cases routed with
          | error e => trivial
          | ok peer =>
            refine ⟨trivial, fun peerPol => ?_⟩
            dsimp only
            cases socialAllowed peerPol now with
            | error e => trivial
            | ok u =>
              refine (busy_makes _ _).bind (fun peerBusy => ?_)
              cases peerBusy with
              | true => trivial
              | false =>
                refine ⟨trivial, fun created => ⟨trivial, fun id => ?_⟩⟩
                dsimp only
                cases newInvite ⟨id⟩ created b.dogId peer b.mode with
                | none => trivial
                | some invite =>
                  refine ⟨rfl, fun inserted => ?_⟩
                  cases inserted with
                  | error e => trivial
                  | ok u =>
                    refine ⟨rfl, fun _ => ?_⟩
                    cases st.pool with
                    | false => exact ⟨trivial, fun _ => trivial⟩
                    | true => exact ⟨rfl, fun _ => ⟨rfl, fun _ => ⟨trivial, fun _ => trivial⟩⟩⟩

theorem incomingInvite_makes (h : HeaderMap) (q : DeviceQuery) :
    (incomingInvite st h q).All (Request.incomingInvite h q).makes := by
  unfold incomingInvite
  simp only [utcNow, expireDue, policiesGet, policiesEnsure, incomingFor, Prog.op_bind, Prog.pure_eq]
  cases verifyDevice st h q.terminalId q.dogId with
  | error s => trivial
  | ok u =>
    refine ⟨trivial, fun pol => ?_⟩
    dsimp only
    split
    · trivial
    · exact ⟨trivial, fun now => ⟨rfl, fun _ => ⟨trivial, fun _ => trivial⟩⟩⟩

theorem cancelInvite_makes (h : HeaderMap) (i : Uuid) (b : JsonBody) :
    (cancelInvite st h i b).All (Request.cancelInvite h i b).makes := by
  unfold cancelInvite
  simp only [invitesGet, invitesClose, sql, Prog.op_bind, Prog.pure_eq]
  cases st.formats.parseUuid b.dogId with
  | none => trivial
  | some dog =>
    dsimp only
    cases extractDeviceToken st h with
    | error s => trivial
    | ok p =>
      dsimp only
      split
      · trivial
      · refine ⟨trivial, fun found => ?_⟩
        cases found with
        | none => trivial
        | some inv =>
          dsimp only
          split
          · trivial
          · refine ⟨.inl rfl, fun _ => ?_⟩
            cases st.pool with
            | false => trivial
            | true => exact ⟨.inl rfl, fun _ => trivial⟩

theorem acceptInvite_makes (h : HeaderMap) (i : Uuid) (b : JsonBody) :
    (acceptInviteHandler st h i b).All (Request.acceptInvite h i b).makes := by
  unfold acceptInviteHandler
  simp only [utcNow, expireDue, policiesGet, policiesEnsure, invitesGet, isPresent, newUuid, invitesClose,
    sessionsInsert, sql, Prog.op_bind, Prog.pure_eq]
  cases st.formats.parseUuid b.dogId with
  | none => trivial
  | some dog =>
  cases st.formats.parseUuid b.terminalId with
  | none => trivial
  | some terminal =>
  dsimp only
  cases verifyDevice st h ⟨terminal⟩ ⟨dog⟩ with
  | error s => trivial
  | ok u =>
  refine ⟨trivial, fun now => ⟨trivial, fun pol => ?_⟩⟩
  dsimp only
  cases socialAllowed pol now with
  | error e => trivial
  | ok u =>
  refine ⟨rfl, fun _ => ⟨trivial, fun found => ?_⟩⟩
  cases found with
  | none => trivial
  | some invite =>
  refine ⟨trivial, fun present => ⟨trivial, fun sessionId => ?_⟩⟩
  dsimp only
  cases acceptInvite ⟨sessionId⟩ invite ⟨dog⟩ present now with
  | none => trivial
  | some checked =>
  cases checked with
  | error e => trivial
  | ok session =>
  dsimp only
  cases (seconds (asI64 pol.maxSessionSec)).bind now.plus with
  | none => trivial
  | some maxEndAt =>
  cases (seconds (asI64 pol.segmentSec)).bind now.plus with
  | none => trivial
  | some segmentDeadlineAt =>
  refine ⟨.inr rfl, fun _ => ⟨rfl, fun inserted => ?_⟩⟩
  cases inserted with
  | error e => trivial
  | ok u =>
  have hpub := @publishMany_all (Request.acceptInvite h i b).makes (fun _ _ => trivial)
  cases st.pool with
  | false => exact (hpub _ _).bind (fun _ => trivial)
  | true => exact ⟨.inr (.inl rfl), fun _ => ⟨.inl rfl, fun _ => (hpub _ _).bind (fun _ => trivial)⟩⟩

theorem endSession_makes (h : HeaderMap) (i : Uuid) (b : EndSessionRequest) :
    (endSession st h i b).All (Request.endSession h i b).makes := by
  unfold endSession
  simp only [sessionsGet, sessionsEnd, sql, Prog.op_bind, Prog.pure_eq]
  cases verifyDevice st h b.terminalId b.dogId with
  | error s => trivial
  | ok u =>
    refine ⟨trivial, fun found => ?_⟩
    cases found with
    | none => trivial
    | some x =>
      dsimp only
      split
      · trivial
      · refine ⟨trivial, fun again => ?_⟩
        cases st.pool with
        | false =>
          cases again with
          | none => exact ⟨rfl, fun _ => trivial⟩
          | some y => exact (publishMany_all (fun _ _ => trivial) _ _).bind (fun _ => ⟨rfl, fun _ => trivial⟩)
        | true =>
          cases again with
          | none => exact ⟨rfl, fun _ => ⟨rfl, fun _ => trivial⟩⟩
          | some y =>
            exact (publishMany_all (fun _ _ => trivial) _ _).bind (fun _ => ⟨rfl, fun _ => ⟨rfl, fun _ => trivial⟩⟩)

theorem mediaReady_makes (h : HeaderMap) (i : Uuid) (b : JsonBody) :
    (mediaReady st h i b).All (Request.mediaReady h i b).makes := by
  unfold mediaReady
  simp only [setMediaReady, sql, Prog.op_bind, Prog.pure_eq]
  cases st.formats.parseUuid b.dogId with
  | none => trivial
  | some dog =>
    cases st.formats.parseUuid b.terminalId with
    | none => trivial
    | some terminal =>
      dsimp only
      cases verifyDevice st h ⟨terminal⟩ ⟨dog⟩ with
      | error s => trivial
      | ok u =>
        refine ⟨rfl, fun marked => ?_⟩
        cases marked with
        | none => trivial
        | some m =>
          cases st.pool with
          | false => trivial
          | true => exact ⟨.inr (.inl rfl), fun _ => trivial⟩

theorem again_makes (h : HeaderMap) (i : Uuid) (b : JsonBody) :
    (again st h i b).All (Request.again h i b).makes := by
  unfold again
  simp only [sessionsGet, policiesGet, policiesEnsure, utcNow, sessionsUpdate, sql, Prog.op_bind, Prog.pure_eq]
  cases st.formats.parseUuid b.dogId with
  | none => trivial
  | some dog =>
    cases st.formats.parseUuid b.terminalId with
    | none => trivial
    | some terminal =>
      dsimp only
      cases verifyDevice st h ⟨terminal⟩ ⟨dog⟩ with
      | error s => trivial
      | ok u =>
        refine ⟨trivial, fun found => ?_⟩
        cases found with
        | none => trivial
        | some x =>
          dsimp only
          split
          · trivial
          · refine ⟨trivial, fun pol => ⟨trivial, fun now => ?_⟩⟩
            dsimp only
            cases extendSegment now pol.segmentSec x.maxEndAt with
            | none => trivial
            | some deadline =>
              refine ⟨⟨rfl, deadline, rfl⟩, fun updated => ?_⟩
              cases updated with
              | none => trivial
              | some y =>
                cases st.pool with
                | false => trivial
                | true => exact ⟨.inr (.inr rfl), fun _ => trivial⟩

theorem stewardEstop_makes (h : HeaderMap) (d : DogId) (on : Bool) :
    (stewardEstop st h d on).All (Request.stewardEstop h d on).makes := by
  unfold stewardEstop
  simp only [setEstop, policiesGet, policiesEnsure, policiesSet, sessionsForDog, sessionsEnd, sql, Prog.call_bind,
    Prog.done_bind, Prog.op_eq, Prog.pure_eq]
  cases verifySteward st h with
  | error s => trivial
  | ok u =>
    refine ⟨trivial, fun p => ⟨rfl, fun _ => ?_⟩⟩
    cases st.pool with
    | false =>
      cases on with
      | false => trivial
      | true =>
        refine ⟨trivial, fun found => ?_⟩
        cases found with
        | none => trivial
        | some x => exact ⟨rfl, fun _ => trivial⟩
    | true =>
      refine ⟨trivial, fun p => ⟨.inl rfl, fun _ => ?_⟩⟩
      cases on with
      | false => trivial
      | true =>
        refine ⟨trivial, fun found => ?_⟩
        cases found with
        | none => trivial
        | some x => exact ⟨rfl, fun _ => ⟨rfl, fun _ => trivial⟩⟩

theorem stewardSocial_makes (h : HeaderMap) (d : DogId) (on : Bool) :
    (stewardSocial st h d on).All (Request.stewardSocial h d on).makes := by
  unfold stewardSocial
  simp only [setSocialDisabled, policiesGet, policiesEnsure, policiesSet, sql, Prog.call_bind, Prog.op_eq,
    Prog.pure_eq]
  cases verifySteward st h with
  | error s => trivial
  | ok u =>
    refine ⟨trivial, fun p => ⟨rfl, fun _ => ?_⟩⟩
    cases st.pool with
    | false => trivial
    | true => exact ⟨trivial, fun p => ⟨.inl rfl, fun _ => trivial⟩⟩

theorem stewardPolicy_makes (h : HeaderMap) (b : StewardPolicyBody) :
    (stewardPolicy st h b).All (Request.stewardPolicy h b).makes := by
  unfold stewardPolicy
  simp only [policiesGet, policiesEnsure, policiesSet, sql, Prog.op_bind, Prog.pure_eq]
  cases verifySteward st h with
  | error s => trivial
  | ok u =>
    refine ⟨trivial, fun p => ?_⟩
    cases st.pool with
    | false => exact ⟨rfl, fun _ => trivial⟩
    | true => exact ⟨.inl rfl, fun _ => ⟨rfl, fun _ => trivial⟩⟩

theorem policyTick_makes : (policyTick st).All Request.policyTick.makes := by
  unfold policyTick
  simp only [utcNow, expireDue, sessionsAll, Prog.op_bind, Prog.pure_eq]
  refine ⟨trivial, fun now => ⟨rfl, fun due => ?_⟩⟩
  refine (dropInvites_all st (fun _ => .inr (.inr rfl)) due).bind (fun _ => ⟨trivial, fun xs => ?_⟩)
  exact (tickSessions_makes st now xs).bind (fun _ => trivial)

/-- The routes that write neither invites nor sessions nor policies. -/
theorem devEnroll_makes (t : Option TerminalId) (d : Option DogId) :
    (devEnroll st t d).All (Request.devEnroll t d).makes := by
  unfold devEnroll
  simp only [newUuid, bindTerminal, Prog.op_bind, Prog.pure_eq]
  refine ⟨trivial, fun t' => ⟨trivial, fun d' => ⟨trivial, fun _ => ?_⟩⟩⟩
  cases st.pool with
  | false => trivial
  | true => exact (saveEnroll_makes rfl _ _ _).bind (fun _ => trivial)

theorem devBootstrapBond_makes (a b : DogId) (weight : Rat) :
    (devBootstrapBond st a b weight).All (Request.devBootstrapBond a b weight).makes := by
  refine ⟨rfl, fun _ => ?_⟩
  show Prog.All _ (if st.pool = true then _ else _)
  cases st.pool with
  | false => trivial
  | true => exact (saveBond_makes rfl _ _ _).bind (fun _ => trivial)

theorem stewardBonds_makes (h : HeaderMap) (a b : DogId) (weight : Rat) :
    (stewardBonds st h a b weight).All (Request.stewardBonds h a b weight).makes := by
  unfold stewardBonds
  simp only [bootstrapMutual, Prog.op_bind, Prog.pure_eq]
  cases verifySteward st h with
  | error s => trivial
  | ok u =>
    refine ⟨rfl, fun _ => ?_⟩
    cases st.pool with
    | false => trivial
    | true => exact (saveBond_makes rfl _ _ _).bind (fun _ => trivial)

theorem postPresence_makes (h : HeaderMap) (r : PresenceReport) :
    (postPresence st h r).All (Request.postPresence h r).makes := by
  unfold postPresence
  simp only [bindTerminal, presenceUpsert, sql, Prog.op_bind, Prog.pure_eq]
  cases verifyDevice st h r.terminalId r.dogId with
  | error s => trivial
  | ok u =>
    refine ⟨trivial, fun _ => ?_⟩
    cases st.pool with
    | false => exact ⟨rfl, fun _ => trivial⟩
    | true => exact ⟨rfl, fun _ => ⟨rfl, fun _ => trivial⟩⟩

theorem getPresence_makes (d : DogId) : (getPresence d).All (Request.getPresence d).makes := by
  refine ⟨trivial, fun now => ⟨trivial, fun v => ?_⟩⟩
  cases v <;> trivial

theorem getConfig_makes (h : HeaderMap) (q : DeviceQuery) : (getConfig st h q).All (Request.getConfig h q).makes := by
  unfold getConfig
  cases verifyDevice st h q.terminalId q.dogId with
  | error s => trivial
  | ok u => exact ⟨trivial, fun _ => trivial⟩

theorem activeSession_makes (h : HeaderMap) (q : DeviceQuery) :
    (activeSession st h q).All (Request.activeSession h q).makes := by
  unfold activeSession
  cases verifyDevice st h q.terminalId q.dogId with
  | error s => trivial
  | ok u => exact ⟨trivial, fun _ => trivial⟩

/-- **A request makes no writes but its own.** -/
theorem handle_makes (r : Request) : (handle st r).All r.makes := by
  cases r with
  | devEnroll t d => exact devEnroll_makes st t d
  | devBootstrapBond a b weight => exact devBootstrapBond_makes st a b weight
  | postPresence h r => exact postPresence_makes st h r
  | getPresence d => exact getPresence_makes d
  | listPresence => exact ⟨trivial, fun _ => ⟨trivial, fun _ => trivial⟩⟩
  | getConfig h q => exact getConfig_makes st h q
  | createInvite h b => exact createInvite_makes st h b
  | incomingInvite h q => exact incomingInvite_makes st h q
  | cancelInvite h i b => exact cancelInvite_makes st h i b
  | acceptInvite h i b => exact acceptInvite_makes st h i b
  | activeSession h q => exact activeSession_makes st h q
  | endSession h i b => exact endSession_makes st h i b
  | mediaReady h i b => exact mediaReady_makes st h i b
  | again h i b => exact again_makes st h i b
  | stewardEstop h d on => exact stewardEstop_makes st h d on
  | stewardSocial h d on => exact stewardSocial_makes st h d on
  | stewardBonds h a b weight => exact stewardBonds_makes st h a b weight
  | stewardPolicy h b => exact stewardPolicy_makes st h b
  | policyTick => exact policyTick_makes st

end
end CanisLink
