import CanisLink.Server
/-!
# EndOnDisk — an ended session and its row

The enders take a session out of memory and then delete its row; `media_ready` and `again` change memory and then save
the row.  While no save comes after the session has ended and its row was deleted, the row is there exactly while the
session is, once every request has returned.
-/
namespace CanisLink

open Interleave (Prog Pool Step own)
open Api

/-- The sessions table has a row of the session. -/
def HasRow (F : Formats) (db : Db) (id : SessionId) : Prop := ∃ r ∈ db.sessions, r.sessionId = F.uuid id.uuid

instance (F : Formats) (db : Db) (id : SessionId) : Decidable (HasRow F db id) :=
  inferInstanceAs (Decidable (∃ r ∈ db.sessions, _))

/-- The session whose row a call deletes, whose row it saves. -/
def deleting : Call → Option SessionId
  | .sql (.deleteSession id) => some id
  | _ => none

/-- The session whose row will be deleted, by this call or right after it. -/
def dooming : Call → Option SessionId
  | .sessionsEnd id => some id
  | .sql (.deleteSession id) => some id
  | _ => none

def saving : Call → Option SessionId
  | .sql (.saveSession x _ _) => some x.id
  | _ => none

/-- The session a step takes out of memory. -/
def ended (e : ApiStep) : Option SessionId :=
  match e.cmd with
  | .sessionsEnd id => some id
  | _ => none

/-- The session whose row is still to be deleted after the calls `h`. -/
def owing (h : List ApiStep) : Option SessionId := h.getLast?.bind ended

/-- A handler deletes the row of a session exactly in the call after it ended the session. -/
def EnderNext (h : List ApiStep) (c : Call) : Prop := owing h = deleting c

def EnderEnd (h : List ApiStep) (_ : Reply) : Prop := owing h = none

/-- A call that neither ends a session nor deletes a row of one. -/
def Quiet (c : Call) : Prop := deleting c = none ∧ ∀ id, c ≠ .sessionsEnd id

theorem owing_snoc (h : List ApiStep) (e : ApiStep) : owing (h ++ [e]) = ended e := by
  rw [owing, List.getLast?_concat]
  rfl

theorem owing_quiet {c : Call} (hc : Quiet c) (h : List ApiStep) (i : Nat) (t : DateTime) (r : c.Resp) :
    owing (h ++ [⟨i, t, c, r⟩]) = none := by
  rw [owing_snoc]
  cases c with
  | sessionsEnd id => exact absurd rfl (hc.2 id)
  | _ => rfl

section

variable {α : Type} (st : AppState) (i : Nat)

/-- A program of quiet calls owes nothing when it began with nothing owed. -/
theorem quiet_along {p : Prog Call.Resp α} (hp : p.All Quiet) {h : List ApiStep} (hh : owing h = none) :
    p.Along i EnderNext (fun h _ => owing h = none) h :=
  Prog.All.along (fun h _ hn hc => ⟨hn.trans hc.1.symm, fun t r => owing_quiet hc h i t r⟩) (fun _ _ hn => hn) hp hh

/-- Ending a session and deleting its row. -/
theorem ender_along (hp : st.pool = true) (id : SessionId) {h : List ApiStep} (hh : owing h = none)
    (rest : Prog Call.Resp α)
    {E : List ApiStep → α → Prop} (hrest : ∀ h, owing h = none → rest.Along i EnderNext E h) :
    (Prog.call (Call.sessionsEnd id) fun _ =>
      if st.pool = true then Prog.call (Call.sql (.deleteSession id)) fun _ => rest
      else rest).Along i EnderNext E h := by
  refine ⟨hh, fun t r => ?_⟩
  simp only [hp, if_true]
  refine ⟨owing_snoc _ _, fun t r => hrest _ ?_⟩
  rw [owing_snoc]
  rfl

theorem tickSessions_along (hp : st.pool = true) (now : DateTime) : ∀ (xs : List SessionRecord) {h : List ApiStep},
    owing h = none → (tickSessions st now xs).Along i EnderNext (fun h _ => owing h = none) h
  | [], _, hh => hh
  | x :: rest, h, hh => by
    have ih := fun h hh => @tickSessions_along hp now rest h hh
    unfold tickSessions
    simp only [sessionsEnd, sql, Prog.op_bind]
    refine Prog.Along.bind (fun h ends hh => ?_)
      (quiet_along i (tickEnds_all (fun _ => ⟨rfl, fun _ hc => by cases hc⟩) now x) hh)
    cases ends with
    | false => exact ih h hh
    | true => exact ender_along st i hp x.id hh (tickSessions st now rest) ih

/-- A request that ends no session makes only quiet calls. -/
theorem makes_quiet {r : Request} (hr : r.ends = false) {c : Call} (hc : r.makes c) : Quiet c := by
  cases c with
  | sessionsEnd id => exact absurd hc (by simp [Request.makes, hr])
  | sql s =>
    cases s with
    | deleteSession id => exact absurd hc (by simp [Request.makes, Request.writes, hr])
    | _ => exact ⟨rfl, fun _ h => by cases h⟩
  | _ => exact ⟨rfl, fun _ h => by cases h⟩

theorem done_along (a : Reply) : ∀ h, owing h = none → (Prog.done a : Api Reply).Along i EnderNext EnderEnd h :=
  fun _ hh => hh

/-- **Every ender deletes the row right after it ends the session.** -/
theorem enders_along (hp : st.pool = true) (r : Request) : (handle st r).Along i EnderNext EnderEnd [] := by
  cases hr : r.ends with
  | false => exact quiet_along i ((handle_makes st r).mono (fun _ hc => makes_quiet hr hc)) rfl
  | true =>
  cases r with
  | endSession h id b =>
    show (endSession st h id b).Along i EnderNext EnderEnd []
    unfold endSession
    simp only [sessionsGet, sessionsEnd, sql, Prog.op_bind, Prog.pure_eq]
    cases verifyDevice st h b.terminalId b.dogId with
    | error s => rfl
    | ok u =>
    refine ⟨rfl, fun t found => ?_⟩
    cases found with
    | none => rfl
    | some x =>
    dsimp only
    by_cases hparty : (decide (x.dogA ≠ b.dogId) && decide (x.dogB ≠ b.dogId)) = true
    · rw [if_pos hparty]
      rfl
    rw [if_neg hparty]
    refine ⟨rfl, fun t again => ?_⟩
    cases again with
    | none =>
      refine ender_along st i hp ⟨id⟩ ?_ _ (done_along i _)
      rfl
    | some y =>
      have hpub := @publishMany_all Quiet (fun _ _ => ⟨rfl, fun _ hc => by cases hc⟩)
      refine Prog.Along.bind (fun h _ hh => ender_along st i hp ⟨id⟩ hh _ (done_along i _))
        (quiet_along i (hpub _ _) ?_)
      rfl
  | stewardEstop h d on =>
    show (stewardEstop st h d on).Along i EnderNext EnderEnd []
    unfold stewardEstop
    simp only [setEstop, policiesGet, policiesEnsure, policiesSet, sessionsForDog, sessionsEnd, sql, Prog.call_bind,
      Prog.done_bind, Prog.op_eq, Prog.pure_eq]
    cases verifySteward st h with
    | error s => rfl
    | ok u =>
    refine ⟨rfl, fun _ p => ⟨rfl, fun _ _ => ?_⟩⟩
    rw [if_pos hp]
    refine ⟨rfl, fun _ p => ⟨rfl, fun _ _ => ?_⟩⟩
    cases on with
    | false => rfl
    | true =>
    refine ⟨rfl, fun _ found => ?_⟩
    cases found with
    | none => rfl
    | some x => exact ender_along st i hp x.id rfl _ (done_along i _)
  | policyTick =>
    show (policyTick st).Along i EnderNext EnderEnd []
    unfold policyTick
    simp only [utcNow, expireDue, sessionsAll, Prog.op_bind, Prog.pure_eq]
    refine ⟨rfl, fun _ now => ⟨rfl, fun _ due => ?_⟩⟩
    refine Prog.Along.bind (fun h _ hh => ?_)
      (quiet_along i (dropInvites_all st (fun _ => ⟨rfl, fun _ hc => by cases hc⟩) due) rfl)
    refine ⟨hh, fun _ xs => Prog.Along.bind (fun h _ hh => hh) (tickSessions_along st i hp now xs (owing_snoc _ _))⟩
  | _ => cases hr

end

/-! ## The run -/

theorem hasRow_run {F : Formats} (hF : F.LawfulIds) (s : Stmt) {db : Db} (ht : Table.sessions ∈ db.tables)
    (id : SessionId) :
    HasRow F (s.run F db).2 id ↔
      match s with
      | .saveSession x _ _ => HasRow F db id ∨ x.id = id
      | .deleteSession k => HasRow F db id ∧ k ≠ id
      | _ => HasRow F db id := by
  have hinj : ∀ k : SessionId, F.uuid k.uuid = F.uuid id.uuid ↔ k = id :=
    fun k => ⟨fun h => congrArg SessionId.mk (hF.uuid_inj.1 h), fun h => by rw [h]⟩
  unfold HasRow
  rw [run_sessions F s ht]
  cases s with
  | saveSession x ma mb =>
    constructor
    · rintro ⟨r, hr, hid⟩
      rcases mem_replaceRow.1 hr with ⟨hr, -⟩ | rfl
      · exact .inl ⟨r, hr, hid⟩
      · exact .inr ((hinj _).1 hid)
    · rintro (⟨r, hr, hid⟩ | hid)
      · by_cases hk : r.sessionId = F.uuid x.id.uuid
        · exact ⟨_, mem_replaceRow.2 (.inr rfl), hk.symm.trans hid⟩
        · exact ⟨r, mem_replaceRow.2 (.inl ⟨hr, hk⟩), hid⟩
      · exact ⟨_, mem_replaceRow.2 (.inr rfl), (hinj _).2 hid⟩
  | deleteSession k =>
    constructor
    · rintro ⟨r, hr, hid⟩
      obtain ⟨hr, hne⟩ := List.mem_filter.1 hr
      refine ⟨⟨r, hr, hid⟩, ?_⟩
      rintro rfl
      exact of_decide_eq_true hne hid
    · rintro ⟨⟨r, hr, hid⟩, hk⟩
      exact ⟨r, List.mem_filter.2 ⟨hr, decide_eq_true (fun h => hk ((hinj k).1 (h.symm.trans hid)))⟩, hid⟩
  | _ => exact Iff.rfl

theorem hasRow_exec {st : AppState} (hF : st.formats.LawfulIds) (t : DateTime) (c : Call) {w : World}
    (ht : Table.sessions ∈ w.db.tables) (id : SessionId) : HasRow st.formats (exec st t c w).2.db id ↔
      (HasRow st.formats w.db id ∨ saving c = some id) ∧ deleting c ≠ some id := by
  rw [exec_db]
  cases c with
  | sql s =>
    rw [hasRow_run hF s ht id]
    cases s <;> simp [saving, deleting]
  | _ => simp [saving, deleting]

theorem exec_tables (st : AppState) (t : DateTime) (c : Call) (w : World) :
    (exec st t c w).2.db.tables = w.db.tables := by
  rw [exec_db]
  cases c with
  | sql s => exact run_tables _ _ _
  | _ => rfl

/-- Some request is about to end the session and delete its row, or has ended it and is about to delete the row. -/
def Doomed (p : ApiPool) (id : SessionId) : Prop := ∃ j ∈ List.range p.threads.length, (p.next j).bind dooming = some id

instance (p : ApiPool) (id : SessionId) : Decidable (Doomed p id) := inferInstanceAs (Decidable (∃ j ∈ _, _))

/-- **A row is saved only for a session that is there** or whose row is still to be deleted. -/
def SavesLive (id : SessionId) (p : ApiPool) (l : Nat × DateTime) : Prop :=
  (p.next l.1).bind saving = some id → p.state.data.sessions.get id ≠ none ∨ Doomed p id

instance (id : SessionId) (p : ApiPool) (l : Nat × DateTime) : Decidable (SavesLive id p l) :=
  inferInstanceAs (Decidable (_ → _))

/-- **What holds of one session's row.**  The session that is there has one; the row of a session that is gone is
doomed. -/
structure Mirrored (F : Formats) (id : SessionId) (p : ApiPool) : Prop where
  table : Table.sessions ∈ p.state.db.tables
  gone : ∀ e ∈ p.log, ended e = some id → p.state.data.sessions.get id = none
  live : p.state.data.sessions.get id ≠ none → HasRow F p.state.db id
  stale : p.state.data.sessions.get id = none → HasRow F p.state.db id → Doomed p id

/-- Where the requests stand: their own writes, none of them an accept, each end followed by its delete. -/
def EndersNext (reqs : List Request) (_ : Nat) (h : List ApiStep) (c : Call) : Prop :=
  (∃ r ∈ reqs, r.makes c) ∧ EnderNext h c

theorem enders_follow {st : AppState} (hp : st.pool = true) (reqs : List Request) (w : World) :
    (Pool.start w (reqs.map (handle st)) : ApiPool).Follows (EndersNext reqs) (fun _ => EnderEnd) := by
  refine Pool.follows_start (fun i r hr => ?_)
  have hmem := List.mem_of_getElem? hr
  exact Prog.Along.mono (fun h c hc => ⟨⟨r, hmem, hc.1⟩, hc.2⟩) (fun _ _ he => he)
    ((handle_makes st r).and_along (enders_along st i hp r))

section

variable {st : AppState} {reqs : List Request} {p p' : ApiPool} {i : Nat} {t : DateTime} {c : Call} {id : SessionId}

theorem Doomed.step (h : Doomed p id) {k : c.Resp → Prog Call.Resp Reply} (hi : p.threads[i]? = some (.call c k))
    (hc : dooming c ≠ some id) {q : Prog Call.Resp Reply} {s : World} {log : List ApiStep} :
    Doomed ⟨s, p.threads.set i q, log⟩ id := by
  obtain ⟨j, hj, hd⟩ := h
  have hne : i ≠ j := by
    rintro rfl
    rw [Pool.next_eq hi] at hd
    exact hc hd
  refine ⟨j, by simpa using hj, ?_⟩
  unfold Pool.next at hd ⊢
  rw [List.getElem?_set_ne hne]
  exact hd

/-- The request that has just ended a session is about to delete its row. -/
theorem doomed_of_ended (hf : p.Follows (EndersNext reqs) (fun _ => EnderEnd)) (hi : i < p.threads.length)
    (ho : owing (Interleave.own i p.log) = some id) : Doomed p id := by
  obtain ⟨q, hq⟩ : ∃ q, p.threads[i]? = some q := ⟨_, List.getElem?_eq_getElem hi⟩
  have ha := hf i q hq
  refine ⟨i, List.mem_range.2 hi, ?_⟩
  cases q with
  | done a => exact absurd (ho.symm.trans ha) (by simp)
  | call c k =>
    rw [Pool.next_eq hq]
    have hd : deleting c = some id := ha.1.2.symm.trans ho
    unfold deleting at hd
    split at hd
    · exact hd
    · cases hd

/-- What a call other than the end of the session does to it: nothing. -/
theorem sessions_same (hr : ∀ r ∈ reqs, r.isAccept = false) (hm : ∃ r ∈ reqs, r.makes c) (hc : c ≠ .sessionsEnd id)
    (w : World) : (exec st t c w).2.data.sessions.get id = none ↔ w.data.sessions.get id = none := by
  obtain ⟨r, hrm, hm⟩ := hm
  refine ⟨fun h => (sessions_gone st t w h).resolve_right hc, fun h => ?_⟩
  cases hx : (exec st t c w).2.data.sessions.get id with
  | none => rfl
  | some x =>
    rcases sessions_after st t w (Request.makes_keepsParties hm) hx with ⟨y, hy, -⟩ | ⟨hs, -⟩
    · rw [h] at hy; cases hy
    · cases c with
      | sessionsInsert y => exact absurd hm (by simp [Request.makes, hr r hrm])
      | _ => cases hs

theorem mirrored_step (hF : st.formats.LawfulIds) (hr : ∀ r ∈ reqs, r.isAccept = false) (hJ : Mirrored st.formats id p)
    (hf : p.Follows (EndersNext reqs) (fun _ => EnderEnd)) {k : c.Resp → Prog Call.Resp Reply}
    (hi : p.threads[i]? = some (.call c k)) (hq : EndersNext reqs i (own i p.log) c) (hcond : SavesLive id p (i, t)) :
    Mirrored st.formats id ⟨(exec st t c p.state).2, p.threads.set i (k (exec st t c p.state).1),
      p.log ++ [⟨i, t, c, (exec st t c p.state).1⟩]⟩ := by
  have hlt := (List.getElem?_eq_some_iff.1 hi).1
  have hrow := hasRow_exec hF t c hJ.table id
  unfold SavesLive at hcond
  rw [Pool.next_eq hi] at hcond
  -- the delete of a row follows the end of its session
  have hdel : deleting c = some id → p.state.data.sessions.get id = none := by
    intro hd
    have ho : owing (own i p.log) = some id := hq.2.trans hd
    obtain ⟨e, he, hee⟩ := Option.bind_eq_some_iff.1 ho
    exact hJ.gone e (Interleave.mem_own.1 (List.mem_of_getLast? he)).1 hee
  by_cases hend : c = .sessionsEnd id
  · subst hend
    have hnone : (exec st t (.sessionsEnd id) p.state).2.data.sessions.get id = none := by
      rw [exec_sessions]
      exact if_pos rfl
    refine ⟨(exec_tables _ _ _ _).symm ▸ hJ.table,
      fun _ _ _ => hnone, fun h => absurd hnone h, fun _ _ => ?_⟩
    have hfollows : (p.step (exec st) (i, t)).Follows (EndersNext reqs) (fun _ => EnderEnd) := hf.step (i, t)
    have hs : p.step (exec st) (i, t) = ⟨(exec st t (.sessionsEnd id) p.state).2,
        p.threads.set i (k (exec st t (.sessionsEnd id) p.state).1),
        p.log ++ [⟨i, t, .sessionsEnd id, (exec st t (.sessionsEnd id) p.state).1⟩]⟩ := by
      unfold Pool.step
      simp only [hi]
    rw [hs] at hfollows
    refine doomed_of_ended hfollows (by simpa using hlt) ?_
    rw [Interleave.own_snoc_self]
    exact owing_snoc _ _
  · have hsame := @sessions_same st reqs t c id hr hq.1 hend p.state
    refine ⟨(exec_tables _ _ _ _).symm ▸ hJ.table,
      fun e he hee => hsame.2 ?_, fun h => ?_, fun h hrow' => ?_⟩
    · rcases List.mem_append.1 he with he | he
      · exact hJ.gone e he hee
      · rw [List.mem_singleton.1 he] at hee
        unfold ended at hee
        split at hee
        · rename_i k hk
          exact absurd (hk.trans (by rw [Option.some.inj hee])) hend
        · cases hee
    · have hlive : p.state.data.sessions.get id ≠ none := fun hn => h (hsame.2 hn)
      exact hrow.2 ⟨.inl (hJ.live hlive), fun hd => hlive (hdel hd)⟩
    · have hn := hsame.1 h
      obtain ⟨hor, hd⟩ := hrow.1 hrow'
      have hdoom : Doomed p id := by
        rcases hor with hold | hsave
        · exact hJ.stale hn hold
        · exact (hcond hsave).resolve_left (fun h => h hn)
      refine hdoom.step hi (fun hc => ?_)
      unfold dooming at hc
      split at hc
      · exact hend (by rw [Option.some.inj hc])
      · exact hd (by rw [deleting]; exact hc)
      · cases hc

end

/-- **While no save comes late, memory and disk agree**: after every schedule of requests that accept nothing, once all
have returned, the table has a row of the session exactly if the session is still there. -/
theorem ended_on_disk (st : AppState) (hp : st.pool = true) (hF : st.formats.LawfulIds) (w : World)
    (ht : Table.sessions ∈ w.db.tables) (reqs : List Request) (hr : ∀ r ∈ reqs, r.isAccept = false) (id : SessionId)
    (h0 : HasRow st.formats w.db id ↔ w.data.sessions.get id ≠ none) (sched : List (Nat × DateTime))
    (hm : (Pool.start w (reqs.map (handle st)) : ApiPool).Meets (exec st) (SavesLive id) sched)
    (hfin : ((Pool.start w (reqs.map (handle st)) : ApiPool).run (exec st) sched).Finished) :
    HasRow st.formats ((Pool.start w (reqs.map (handle st)) : ApiPool).run (exec st) sched).state.db id ↔
      ((Pool.start w (reqs.map (handle st)) : ApiPool).run (exec st) sched).state.data.sessions.get id ≠ none := by
  have hstart : Mirrored st.formats id (Pool.start w (reqs.map (handle st)) : ApiPool) :=
    ⟨ht, fun _ he => absurd he List.not_mem_nil, h0.2, fun hn hrow => absurd hn (h0.1 hrow)⟩
  obtain ⟨-, hJ⟩ := Pool.run_inv (fun _ _ _ _ _ hJ hf hi hq hc => mirrored_step hF hr hJ hf hi hq hc) sched _
    (enders_follow hp reqs w) hstart hm
  refine ⟨fun hrow hn => ?_, hJ.live⟩
  -- nobody is left to delete the row
  obtain ⟨j, -, hd⟩ := hJ.stale hn hrow
  unfold Pool.next at hd
  split at hd
  · rename_i c k hj
    obtain ⟨a, ha⟩ := hfin _ (List.mem_of_getElem? hj)
    cases ha
  · cases hd

/-- Dogs 1 and 2 are in session 1, which began from invite 0. -/
def inSession : World := serveAt bench noon ringing [.acceptInvite (device 2) 0 (jsonBody 2)]

/-- Dog 1's media is ready, dog 2 ends the session. -/
def readyAndEnd : List Request :=
  [.mediaReady (device 1) 1 (jsonBody 1), .endSession (device 2) 1 { dogId := ⟨2⟩, terminalId := ⟨2⟩, reason := .done }]

theorem ended_on_disk_inTurn :
    let p := (Pool.start inSession (readyAndEnd.map (handle bench)) : ApiPool).run (exec bench)
      ([0, 0, 1, 1, 1, 1, 1, 1].map (fun i => (i, noon)))
    HasRow decimals p.state.db ⟨1⟩ ↔ p.state.data.sessions.get ⟨1⟩ ≠ none :=
  ended_on_disk bench rfl decimals_lawful.toLawfulIds inSession (by decide +kernel) readyAndEnd (by decide) ⟨1⟩
    (by decide +kernel) ([0, 0, 1, 1, 1, 1, 1, 1].map (fun i => (i, noon))) (by decide +kernel) (by decide +kernel)

/-- **An ended session is back on disk**: `media_ready` has marked the session, dog 2 ends it and its row is deleted,
and then `media_ready` saves the row. -/
theorem ended_session_back : ¬ ∀ (st : AppState) (w : World) (reqs : List Request) (id : SessionId)
    (sched : List (Nat × DateTime)), st.pool = true → st.formats.LawfulIds → Table.sessions ∈ w.db.tables →
    (∀ r ∈ reqs, r.isAccept = false) → (HasRow st.formats w.db id ↔ w.data.sessions.get id ≠ none) →
    ((Pool.start w (reqs.map (handle st)) : ApiPool).run (exec st) sched).Finished →
    (HasRow st.formats ((Pool.start w (reqs.map (handle st)) : ApiPool).run (exec st) sched).state.db id ↔
      ((Pool.start w (reqs.map (handle st)) : ApiPool).run (exec st) sched).state.data.sessions.get id ≠ none) := by
  intro h
  have := h bench inSession readyAndEnd ⟨1⟩ ([0, 1, 1, 1, 1, 1, 1, 0].map (fun i => (i, noon))) rfl
    decimals_lawful.toLawfulIds (by decide +kernel) (by decide) (by decide +kernel) (by decide +kernel)
  revert this
  decide +kernel

end CanisLink
