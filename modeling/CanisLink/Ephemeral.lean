import CanisLink.Trim
import CanisLink.Unseen
/-!
# Ephemeral — device-api with its database and without

While it serves, device-api writes its database and never reads it.  Started with a database, whatever its tables, or
without one, it makes the same decisions: what clients can be told, and when, is the same.
-/
namespace CanisLink

open Interleave (Prog Pool Deaf)
open Interleave.Prog (Trims)
open Api

/-- device-api started with its database. -/
def AppState.withDb (st : AppState) : AppState := { st with pool := true }

/-- device-api started with `--ephemeral`. -/
def AppState.ephemeral (st : AppState) : AppState := { st with pool := false }

/-- What the pool is for: a statement, and the policy that is read for one. -/
def Call.saves : Call → Prop
  | .sql _ | .policiesEnsure _ => True
  | _ => False

/-- A call on what is kept in memory. -/
def Call.inMemory : Call → Prop
  | .sql _ => False
  | _ => True

/-- The worlds differ at most in the tables, in the default policies that are stored and in the terminals that are
bound. -/
def World.AlikeButDb (w w' : World) : Prop := w.Alike { w' with db := w.db }

/-! ## The calls -/

theorem exec_ephemeral (st : AppState) (t : DateTime) (c : Call) (w : World) :
    exec st.withDb t c w = exec st.ephemeral t c w := by
  cases c <;> rfl

/-- A call on what is in memory neither reads nor writes the tables. -/
theorem exec_inMemory {st : AppState} (t : DateTime) {c : Call} (hc : c.inMemory) (w : World) (db : Db) :
    exec st t c { w with db } = ((exec st t c w).1, { (exec st t c w).2 with db }) ∧
      (exec st t c w).2.db = w.db := by
  cases c with
  | sql s => exact hc.elim
  | invitesInsert inv =>
    simp only [exec]
    split <;> exact ⟨rfl, rfl⟩
  | sessionsInsert x =>
    simp only [exec]
    split <;> exact ⟨rfl, rfl⟩
  | _ => exact ⟨rfl, rfl⟩

theorem alikeButDb_deaf (st : AppState) :
    Deaf (exec st.withDb) (exec st.ephemeral) Call.saves Call.inMemory World.AlikeButDb where
  congr t c w w' hc h := by
    obtain ⟨hanswer, hstate⟩ := @exec_alike st.withDb t c _ _ h
    obtain ⟨hexec, hdb⟩ := @exec_inMemory st.withDb t c hc w' w.db
    rw [hexec] at hanswer hstate
    rw [← exec_ephemeral]
    refine ⟨hanswer, ?_⟩
    unfold World.AlikeButDb
    rw [(@exec_inMemory st.withDb t c hc w w.db).2]
    exact hstate
  hidden t c w w' hc h := by
    cases c with
    | sql s => exact ⟨h.presence, h.bonds, h.invites, h.sessions, h.policies, rfl, h.hub, h.nextUuid⟩
    | policiesEnsure d => exact reads_alike (c := .policiesEnsure d) t trivial h
    | _ => exact hc.elim

/-! ## The handlers -/

/-- The handler with the database is the handler without it, but for the calls that save. -/
abbrev Api.Saves {α : Type} (p q : Api α) : Prop := Trims Call.saves Call.inMemory p q

section

variable (st : AppState)

@[simp] theorem withDb_pool : st.withDb.pool = true := rfl
@[simp] theorem ephemeral_pool : st.ephemeral.pool = false := rfl

theorem createInvite_saves (h : HeaderMap) (b : CreateInviteBody) :
    Saves (createInvite st.withDb h b) (createInvite st.ephemeral h b) := by
  have hv : verifyDevice st.withDb h b.terminalId b.dogId = verifyDevice st.ephemeral h b.terminalId b.dogId := rfl
  have busy_saves : ∀ d, Saves (busy d) (busy d) := fun d =>
    .both trivial (fun found => by cases found with
      | some inv => exact .done _
      | none => exact .both trivial (fun _ => .done _))
  unfold createInvite
  simp only [utcNow, expireDue, policiesGet, policiesEnsure, invitesLastHour, presentDogIds, isPresent, Api.routeInvite,
    newUuid, invitesInsert, recordInvite, sql, publish, Prog.op_bind, Prog.pure_eq, hv]
  cases verifyDevice st.ephemeral h b.terminalId b.dogId with
  | error s => exact .done _
  | ok u =>
  refine .both trivial (fun now => .both trivial (fun _ => .both trivial (fun pol => ?_)))
  cases socialAllowed pol now with
  | error e => exact .done _
  | ok u =>
  refine .both trivial (fun count => ?_)
  cases inviteRateOk count pol.maxInvitesPerHour with
  | error e => exact .done _
  | ok u =>
  refine (busy_saves b.dogId).bind (fun callerBusy => ?_)
  cases callerBusy with
  | true => exact .done _
  | false =>
  refine .both trivial (fun presentIds => .both trivial (fun callerPresent => .both trivial (fun routed => ?_)))
  cases routed with
  | error e => exact .done _
  | ok peer =>
  refine .both trivial (fun peerPol => ?_)
  cases socialAllowed peerPol now with
  | error e => exact .done _
  | ok u =>
  refine (busy_saves peer).bind (fun peerBusy => ?_)
  cases peerBusy with
  | true => exact .done _
  | false =>
  refine .both trivial (fun created => .both trivial (fun id => ?_))
  cases newInvite ⟨id⟩ created b.dogId peer b.mode with
  | none => exact .done _
  | some invite =>
  refine .both trivial (fun inserted => ?_)
  cases inserted with
  | error e => exact .done _
  | ok u =>
    exact .both trivial (fun _ => .skip trivial (fun _ => .skip trivial (fun _ => .both trivial (fun _ => .done _))))

theorem incomingInvite_saves (h : HeaderMap) (q : DeviceQuery) :
    Saves (incomingInvite st.withDb h q) (incomingInvite st.ephemeral h q) := by
  have hv : verifyDevice st.withDb h q.terminalId q.dogId = verifyDevice st.ephemeral h q.terminalId q.dogId := rfl
  unfold incomingInvite
  simp only [utcNow, expireDue, policiesGet, policiesEnsure, incomingFor, Prog.op_bind, Prog.pure_eq, hv]
  cases verifyDevice st.ephemeral h q.terminalId q.dogId with
  | error s => exact .done _
  | ok u =>
  refine .both trivial (fun pol => ?_)
  split
  · exact .done _
  · exact .both trivial (fun now => .both trivial (fun _ => .both trivial (fun _ => .done _)))

theorem cancelInvite_saves (h : HeaderMap) (i : Uuid) (b : JsonBody) :
    Saves (cancelInvite st.withDb h i b) (cancelInvite st.ephemeral h i b) := by
  have hx : extractDeviceToken st.withDb h = extractDeviceToken st.ephemeral h := rfl
  have hv : ∀ t d token, verifyPair st.withDb t d token = verifyPair st.ephemeral t d token := fun _ _ _ => rfl
  have hp : st.withDb.formats.parseUuid = st.ephemeral.formats.parseUuid := rfl
  unfold cancelInvite
  simp only [invitesGet, invitesClose, sql, Prog.op_bind, Prog.pure_eq, hx, hv, hp]
  cases st.ephemeral.formats.parseUuid b.dogId with
  | none => exact .done _
  | some dog =>
  cases extractDeviceToken st.ephemeral h with
  | error s => exact .done _
  | ok p =>
  dsimp only
  split
  · exact .done _
  · refine .both trivial (fun found => ?_)
    cases found with
    | none => exact .done _
    | some inv =>
      dsimp only
      split
      · exact .done _
      · exact .both trivial (fun _ => .skip trivial (fun _ => .done _))

theorem publishMany_saves (ev : DeviceEvent) : ∀ ds : List DogId, Saves (publishMany ds ev) (publishMany ds ev)
  | [] => .done _
  | _ :: ds => .both trivial (fun _ => publishMany_saves ev ds)

theorem acceptInvite_saves (h : HeaderMap) (i : Uuid) (b : JsonBody) :
    Saves (acceptInviteHandler st.withDb h i b) (acceptInviteHandler st.ephemeral h i b) := by
  have hv : ∀ t d, verifyDevice st.withDb h t d = verifyDevice st.ephemeral h t d := fun _ _ => rfl
  have hp : st.withDb.formats.parseUuid = st.ephemeral.formats.parseUuid := rfl
  unfold acceptInviteHandler
  simp only [utcNow, expireDue, policiesGet, policiesEnsure, invitesGet, isPresent, newUuid, invitesClose,
    sessionsInsert, sql, Prog.op_bind, Prog.pure_eq, hv, hp]
  cases st.ephemeral.formats.parseUuid b.dogId with
  | none => exact .done _
  | some dog =>
  cases st.ephemeral.formats.parseUuid b.terminalId with
  | none => exact .done _
  | some terminal =>
  dsimp only
  cases verifyDevice st.ephemeral h ⟨terminal⟩ ⟨dog⟩ with
  | error s => exact .done _
  | ok u =>
  refine .both trivial (fun now => .both trivial (fun pol => ?_))
  cases socialAllowed pol now with
  | error e => exact .done _
  | ok u =>
  refine .both trivial (fun _ => .both trivial (fun found => ?_))
  cases found with
  | none => exact .done _
  | some invite =>
  refine .both trivial (fun present => .both trivial (fun sessionId => ?_))
  cases acceptInvite ⟨sessionId⟩ invite ⟨dog⟩ present now with
  | none => exact .done _
  | some accepted =>
  cases accepted with
  | error e => exact .done _
  | ok session =>
  dsimp only
  cases (seconds (asI64 pol.maxSessionSec)).bind now.plus with
  | none => exact .done _
  | some maxEndAt =>
  cases (seconds (asI64 pol.segmentSec)).bind now.plus with
  | none => exact .done _
  | some segmentDeadlineAt =>
  refine .both trivial (fun _ => .both trivial (fun inserted => ?_))
  cases inserted with
  | error e => exact .done _
  | ok u =>
  exact .skip trivial (fun _ => .skip trivial (fun _ => (publishMany_saves _ _).bind (fun _ => .done _)))

theorem endSession_saves (h : HeaderMap) (i : Uuid) (b : EndSessionRequest) :
    Saves (endSession st.withDb h i b) (endSession st.ephemeral h i b) := by
  have hv : verifyDevice st.withDb h b.terminalId b.dogId = verifyDevice st.ephemeral h b.terminalId b.dogId := rfl
  have hF : st.withDb.formats = st.ephemeral.formats := rfl
  unfold endSession
  simp only [sessionsGet, sessionsEnd, sql, Prog.op_bind, Prog.pure_eq, hv, hF]
  cases verifyDevice st.ephemeral h b.terminalId b.dogId with
  | error s => exact .done _
  | ok u =>
  refine .both trivial (fun found => ?_)
  cases found with
  | none => exact .done _
  | some sess =>
  dsimp only
  split
  · exact .done _
  · have hlast : Saves (Prog.call (.sessionsEnd ⟨i⟩) fun _ => Prog.call (.sql (.deleteSession ⟨i⟩)) fun _ =>
        (.done (.status .noContent) : Api Reply)) (Prog.call (.sessionsEnd ⟨i⟩) fun _ => .done (.status .noContent)) :=
      .both trivial (fun _ => .skip trivial (fun _ => .done _))
    refine .both trivial (fun again => ?_)
    cases again with
    | none => exact hlast
    | some sess => exact (publishMany_saves _ _).bind (fun _ => hlast)

theorem mediaReady_saves (h : HeaderMap) (i : Uuid) (b : JsonBody) :
    Saves (mediaReady st.withDb h i b) (mediaReady st.ephemeral h i b) := by
  have hv : ∀ t d, verifyDevice st.withDb h t d = verifyDevice st.ephemeral h t d := fun _ _ => rfl
  have hp : st.withDb.formats.parseUuid = st.ephemeral.formats.parseUuid := rfl
  unfold mediaReady
  simp only [setMediaReady, sql, Prog.op_bind, Prog.pure_eq, hv, hp]
  cases st.ephemeral.formats.parseUuid b.dogId with
  | none => exact .done _
  | some dog =>
  cases st.ephemeral.formats.parseUuid b.terminalId with
  | none => exact .done _
  | some terminal =>
  dsimp only
  cases verifyDevice st.ephemeral h ⟨terminal⟩ ⟨dog⟩ with
  | error s => exact .done _
  | ok u =>
  refine .both trivial (fun marked => ?_)
  cases marked with
  | none => exact .done _
  | some marked => exact .skip trivial (fun _ => .done _)

theorem again_saves (h : HeaderMap) (i : Uuid) (b : JsonBody) :
    Saves (again st.withDb h i b) (again st.ephemeral h i b) := by
  have hv : ∀ t d, verifyDevice st.withDb h t d = verifyDevice st.ephemeral h t d := fun _ _ => rfl
  have hp : st.withDb.formats.parseUuid = st.ephemeral.formats.parseUuid := rfl
  unfold again
  simp only [utcNow, policiesGet, policiesEnsure, sessionsGet, sessionsUpdate, sql, Prog.op_bind, Prog.pure_eq, hv,
    hp]
  cases st.ephemeral.formats.parseUuid b.dogId with
  | none => exact .done _
  | some dog =>
  cases st.ephemeral.formats.parseUuid b.terminalId with
  | none => exact .done _
  | some terminal =>
  dsimp only
  cases verifyDevice st.ephemeral h ⟨terminal⟩ ⟨dog⟩ with
  | error s => exact .done _
  | ok u =>
  refine .both trivial (fun found => ?_)
  cases found with
  | none => exact .done _
  | some sess =>
  dsimp only
  split
  · exact .done _
  · refine .both trivial (fun pol => .both trivial (fun now => ?_))
    cases extendSegment now pol.segmentSec sess.maxEndAt with
    | none => exact .done _
    | some deadline =>
      refine .both trivial (fun updated => ?_)
      cases updated with
      | none => exact .done _
      | some session => exact .skip trivial (fun _ => .done _)

theorem stewardEstop_saves (h : HeaderMap) (d : DogId) (on : Bool) :
    Saves (stewardEstop st.withDb h d on) (stewardEstop st.ephemeral h d on) := by
  have hv : verifySteward st.withDb h = verifySteward st.ephemeral h := rfl
  unfold stewardEstop setEstop
  simp only [policiesGet, policiesEnsure, policiesSet, sessionsForDog, sessionsEnd, sql, Prog.op_bind, Prog.call_bind,
    Prog.pure_eq, hv]
  cases verifySteward st.ephemeral h with
  | error s => exact .done _
  | ok u =>
  refine .both trivial (fun p => .both trivial (fun _ => .skip trivial (fun _ => .skip trivial (fun _ => ?_))))
  cases on with
  | false => exact .done _
  | true =>
  refine .both trivial (fun found => ?_)
  cases found with
  | none => exact .done _
  | some s => exact .both trivial (fun _ => .skip trivial (fun _ => .done _))

theorem stewardSocial_saves (h : HeaderMap) (d : DogId) (on : Bool) :
    Saves (stewardSocial st.withDb h d on) (stewardSocial st.ephemeral h d on) := by
  have hv : verifySteward st.withDb h = verifySteward st.ephemeral h := rfl
  unfold stewardSocial setSocialDisabled
  simp only [policiesGet, policiesEnsure, policiesSet, sql, Prog.op_bind, Prog.call_bind, Prog.pure_eq, hv]
  cases verifySteward st.ephemeral h with
  | error s => exact .done _
  | ok u =>
  exact .both trivial (fun p => .both trivial (fun _ => .skip trivial (fun _ => .skip trivial (fun _ => .done _))))

theorem saveBond_saves (a b : DogId) (weight : Rat) : (saveBond a b weight).All Call.saves := by
  refine ⟨trivial, fun saved => ?_⟩
  cases saved with
  | false => trivial
  | true => exact ⟨trivial, fun _ => trivial⟩

theorem saveEnroll_saves (t : TerminalId) (d : DogId) (hash : String) : (saveEnroll t d hash).All Call.saves := by
  refine ⟨trivial, fun inserted => ?_⟩
  cases inserted with
  | false => trivial
  | true =>
    refine ⟨trivial, fun saved => ?_⟩
    cases saved with
    | false => trivial
    | true => exact ⟨trivial, fun _ => trivial⟩

theorem tickSessions_saves (now : DateTime) : ∀ xs : List SessionRecord,
    Saves (tickSessions st.withDb now xs) (tickSessions st.ephemeral now xs)
  | [] => .done _
  | x :: rest => by
    unfold tickSessions
    refine (Trims.refl (tickEnds_all (fun _ => trivial) now x)).bind (fun ends => ?_)
    cases ends with
    | false => exact tickSessions_saves now rest
    | true => exact .both trivial (fun _ => .skip trivial (fun _ => tickSessions_saves now rest))

/-- The database's side of a sweep is all there is to it. -/
theorem dropInvites_saves {β : Type} {f g : Unit → Api β} (hf : Saves (f ()) (g ())) : ∀ due : List Invite,
    Saves (dropInvites st.withDb due >>= f) (dropInvites st.ephemeral due >>= g)
  | [] => hf
  | _ :: rest => .skip trivial (fun _ => dropInvites_saves hf rest)

/-- **Every handler**: with the database it does what it does without, and saves. -/
theorem handle_saves (r : Request) : Saves (handle st.withDb r) (handle st.ephemeral r) := by
  cases r with
  | devEnroll t d =>
    show Saves (devEnroll st.withDb t d) (devEnroll st.ephemeral t d)
    unfold devEnroll
    simp only [newUuid, bindTerminal, Prog.op_bind]
    exact .both trivial (fun _ => .both trivial (fun _ => .both trivial (fun _ =>
      .drop (saveEnroll_saves _ _ _) (fun _ => .done _))))
  | devBootstrapBond a b weight =>
    show Saves (devBootstrapBond st.withDb a b weight) (devBootstrapBond st.ephemeral a b weight)
    unfold devBootstrapBond
    simp only [bootstrapMutual, Prog.op_bind]
    exact .both trivial (fun _ => .drop (saveBond_saves a b weight) (fun _ => .done _))
  | postPresence h rep =>
    show Saves (postPresence st.withDb h rep) (postPresence st.ephemeral h rep)
    have hv : ∀ t d, verifyDevice st.withDb h t d = verifyDevice st.ephemeral h t d := fun _ _ => rfl
    unfold postPresence
    rw [hv]
    cases verifyDevice st.ephemeral h rep.terminalId rep.dogId with
    | error s => exact .done _
    | ok u => exact .both trivial (fun _ => .skip trivial (fun _ => .both trivial (fun _ => .done _)))
  | getPresence d =>
    refine .both trivial (fun now => .both trivial (fun found => ?_))
    cases found with
    | none => exact .done _
    | some v => exact .done _
  | listPresence => exact .both trivial (fun now => .both trivial (fun _ => .done _))
  | getConfig h q =>
    show Saves (getConfig st.withDb h q) (getConfig st.ephemeral h q)
    have hv : verifyDevice st.withDb h q.terminalId q.dogId = verifyDevice st.ephemeral h q.terminalId q.dogId := rfl
    unfold getConfig
    rw [hv]
    cases verifyDevice st.ephemeral h q.terminalId q.dogId with
    | error s => exact .done _
    | ok u => exact .both trivial (fun _ => .done _)
  | createInvite h b => exact createInvite_saves st h b
  | incomingInvite h q => exact incomingInvite_saves st h q
  | cancelInvite h i b => exact cancelInvite_saves st h i b
  | acceptInvite h i b => exact acceptInvite_saves st h i b
  | activeSession h q =>
    show Saves (activeSession st.withDb h q) (activeSession st.ephemeral h q)
    have hv : verifyDevice st.withDb h q.terminalId q.dogId = verifyDevice st.ephemeral h q.terminalId q.dogId := rfl
    unfold activeSession
    rw [hv]
    cases verifyDevice st.ephemeral h q.terminalId q.dogId with
    | error s => exact .done _
    | ok u => exact .both trivial (fun _ => .done _)
  | endSession h i b => exact endSession_saves st h i b
  | mediaReady h i b => exact mediaReady_saves st h i b
  | again h i b => exact again_saves st h i b
  | stewardEstop h d on => exact stewardEstop_saves st h d on
  | stewardSocial h d on => exact stewardSocial_saves st h d on
  | stewardBonds h a b weight =>
    show Saves (stewardBonds st.withDb h a b weight) (stewardBonds st.ephemeral h a b weight)
    have hv : verifySteward st.withDb h = verifySteward st.ephemeral h := rfl
    unfold stewardBonds
    simp only [bootstrapMutual, Prog.op_bind, hv]
    cases verifySteward st.ephemeral h with
    | error s => exact .done _
    | ok u => exact .both trivial (fun _ => .drop (saveBond_saves a b weight) (fun _ => .done _))
  | stewardPolicy h b =>
    show Saves (stewardPolicy st.withDb h b) (stewardPolicy st.ephemeral h b)
    have hv : verifySteward st.withDb h = verifySteward st.ephemeral h := rfl
    unfold stewardPolicy
    rw [hv]
    cases verifySteward st.ephemeral h with
    | error s => exact .done _
    | ok u => exact .both trivial (fun _ => .skip trivial (fun _ => .both trivial (fun _ => .done _)))
  | policyTick =>
    show Saves (policyTick st.withDb) (policyTick st.ephemeral)
    unfold policyTick
    simp only [utcNow, expireDue, sessionsAll, Prog.op_bind]
    refine .both trivial (fun now => .both trivial (fun due => dropInvites_saves st ?_ due))
    exact .both trivial (fun all => (tickSessions_saves st now all).bind (fun _ => .done _))

end

/-! ## At work together -/

theorem AlikeButDb.refl (w : World) (db : Db) : w.AlikeButDb { w with db } := ⟨rfl, rfl, rfl, rfl, rfl, rfl, rfl, rfl⟩

theorem reached_trimmed (st : AppState) {w w' : World} (h : w.AlikeButDb w') (reqs : List Request) :
    (Pool.start w (reqs.map (handle st.withDb)) : ApiPool).Trimmed Call.saves Call.inMemory World.AlikeButDb
      (Pool.start w' (reqs.map (handle st.ephemeral))) := by
  refine .start h (fun i => ?_)
  rw [List.getElem?_map, List.getElem?_map]
  cases reqs[i]? with
  | none => exact .none
  | some r => exact .some (handle_saves st r)

/-- **The database makes no difference to who is told what.**  Whatever a device-api with a database comes to, with any
requests at work in any interleaving, one without a database comes to by taking some of the same steps; and whatever the
one without comes to, the one with a database does by taking the same steps and more.  The stores, the events published
and the answers given are the same. -/
theorem database_unread (st : AppState) (w : World) (db : Db) (reqs : List Request) :
    (∀ sched, ∃ sched', sched'.Sublist sched ∧
      (reached st.withDb w reqs sched).state.AlikeButDb (reached st.ephemeral { w with db } reqs sched').state ∧
      ∀ i reply, (reached st.withDb w reqs sched).result i = some reply →
        (reached st.ephemeral { w with db } reqs sched').result i = some reply) ∧
    ∀ sched', ∃ sched, sched'.Sublist sched ∧
      (reached st.withDb w reqs sched).state.AlikeButDb (reached st.ephemeral { w with db } reqs sched').state ∧
      ∀ i, (reached st.withDb w reqs sched).result i = (reached st.ephemeral { w with db } reqs sched').result i := by
  have hstart := reached_trimmed st (AlikeButDb.refl w db) reqs
  have hdeaf := alikeButDb_deaf st
  constructor
  · intro sched
    obtain ⟨sched', hsub, hrun⟩ := hstart.run hdeaf sched
    exact ⟨sched', hsub, hrun.state, fun _ _ => hrun.result⟩
  · intro sched'
    obtain ⟨sched, hsub, hrun⟩ := hstart.followRun hdeaf sched'
    -- the statements that are left once an answer is settled
    obtain ⟨last, hlast, hdone⟩ := hrun.finish hdeaf noon
      (List.range (reached st.ephemeral { w with db } reqs sched').threads.length)
    rw [← Pool.run_append] at hlast hdone
    refine ⟨sched ++ last, hsub.trans (List.sublist_append_left _ _), hlast.state, fun i => ?_⟩
    cases hi : (reached st.ephemeral { w with db } reqs sched').result i with
    | some reply =>
      have hlt := (List.getElem?_eq_some_iff.1 (Pool.result_eq_some.1 hi)).1
      exact hdone i (List.mem_range.2 hlt) reply hi
    | none =>
      refine Option.eq_none_iff_forall_ne_some.2 (fun reply hreply => ?_)
      have := hlast.result hreply
      exact absurd (hi.symm.trans this) (by simp)

end CanisLink
