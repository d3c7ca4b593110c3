import CanisLink.Confine
import CanisLink.Identity
/-!
# Replies — what a device is answered about sessions and invites was so

Whatever else is at work, the session in the answer to a request was in the store at a moment of the run, under the id
that was asked for, and the dog the request names is a party of it.  The invite of an offer was in the store too.
-/
namespace CanisLink

open Interleave (Prog Pool Step own)
open Api

/-! ## What a handler was told when it answers -/

/-- The calls of program `i` told it what its answer says. -/
def Tells (st : AppState) (i : Nat) (h : List ApiStep) : Request → Reply → Prop
  | .incomingInvite _ q, .offer (some o) => ∃ t, (⟨i, t, .incomingFor q.dogId, some o.1⟩ : ApiStep) ∈ h
  | .acceptInvite _ _ b, .accepted x _ => (∃ t, (⟨i, t, .sessionsInsert x, .ok ()⟩ : ApiStep) ∈ h) ∧
      (b.names st).map (·.2) = some x.dogB
  | .activeSession _ q, .active (some x) => ∃ t, (⟨i, t, .sessionsForDog q.dogId, some x⟩ : ApiStep) ∈ h
  | .mediaReady _ n b, .media both x => ∃ t dog ready,
      (⟨i, t, .setMediaReady ⟨n⟩ dog ready, some (both, x)⟩ : ApiStep) ∈ h ∧ (b.names st).map (·.2) = some dog
  | .again _ n b, .extended x => ∃ t f, (⟨i, t, .sessionsUpdate ⟨n⟩ f, some x⟩ : ApiStep) ∈ h ∧
      ∃ t' y dog, (⟨i, t', .sessionsGet ⟨n⟩, some y⟩ : ApiStep) ∈ h ∧ (b.names st).map (·.2) = some dog ∧ y.hasDog dog
  | _, _ => True

theorem JsonBody.names_of_parse {st : AppState} {b : JsonBody} {dog terminal : Uuid}
    (hdog : st.formats.parseUuid b.dogId = some dog) (hterminal : st.formats.parseUuid b.terminalId = some terminal) :
    (b.names st).map (·.2) = some ⟨dog⟩ := by
  unfold names
  rw [hdog, hterminal]
  rfl

section

variable (st : AppState) (i : Nat)

theorem incomingInvite_tells (hd : HeaderMap) (q : DeviceQuery) :
    (incomingInvite st hd q).Along i AnyCall (fun h => Tells st i h (.incomingInvite hd q)) [] := by
  unfold incomingInvite
  simp only [utcNow, expireDue, policiesGet, policiesEnsure, incomingFor, Prog.op_bind, Prog.pure_eq]
  cases verifyDevice st hd q.terminalId q.dogId with
  | error s => trivial
  | ok u =>
  refine ⟨trivial, fun _ pol => ?_⟩
  dsimp only
  split
  · trivial
  · refine ⟨trivial, fun _ now => ⟨trivial, fun _ _ => ⟨trivial, fun t found => ?_⟩⟩⟩
    cases found with
    | none => trivial
    | some inv => exact ⟨t, by simp⟩

theorem publishMany_adds (ev : DeviceEvent) : ∀ (ds : List DogId) (h : List ApiStep),
    (publishMany ds ev).Along i AnyCall (fun h' _ => h ⊆ h') h
  | [], h => List.Subset.refl h
  | _ :: ds, _ => ⟨trivial, fun _ _ => (publishMany_adds ev ds _).mono (fun _ _ hc => hc)
      (fun _ _ hsub => List.Subset.trans (List.subset_append_left _ _) hsub)⟩

theorem acceptInvite_tells (hd : HeaderMap) (n : Uuid) (b : JsonBody) :
    (acceptInviteHandler st hd n b).Along i AnyCall (fun h => Tells st i h (.acceptInvite hd n b)) [] := by
  unfold acceptInviteHandler
  simp only [utcNow, expireDue, policiesGet, policiesEnsure, invitesGet, isPresent, newUuid, invitesClose,
    sessionsInsert, sql, Prog.op_bind, Prog.pure_eq]
  cases hdog : st.formats.parseUuid b.dogId with
  | none => trivial
  | some dog =>
  cases hterminal : st.formats.parseUuid b.terminalId with
  | none => trivial
  | some terminal =>
  dsimp only
  cases verifyDevice st hd ⟨terminal⟩ ⟨dog⟩ with
  | error s => trivial
  | ok u =>
  refine ⟨trivial, fun _ now => ⟨trivial, fun _ pol => ?_⟩⟩
  dsimp only
  cases socialAllowed pol now with
  | error e => trivial
  | ok u =>
  refine ⟨trivial, fun _ _ => ⟨trivial, fun _ found => ?_⟩⟩
  cases found with
  | none => trivial
  | some inv =>
  refine ⟨trivial, fun _ present => ⟨trivial, fun _ sessionId => ?_⟩⟩
  dsimp only
  cases ha : acceptInvite ⟨sessionId⟩ inv ⟨dog⟩ present now with
  | none => trivial
  | some checked =>
  cases checked with
  | error e => trivial
  | ok session =>
  dsimp only
  cases (seconds (asI64 pol.maxSessionSec)).bind now.plus with
  | none => trivial
  | some maxEndAt =>
  cases (seconds (asI64 pol.segmentSec)).bind now.plus with
  | none => trivial
  | some segmentDeadlineAt =>
  obtain ⟨hcheck, -, -, -, hB, -⟩ := acceptInvite_ok ha
  have named : (b.names st).map (·.2) = some session.dogB := by
    rw [hB, (acceptCheck_ok hcheck).1]
    exact JsonBody.names_of_parse hdog hterminal
  refine ⟨trivial, fun _ _ => ⟨trivial, fun t inserted => ?_⟩⟩
  cases inserted with
  | error e => trivial
  | ok u =>
  cases st.pool with
  | false =>
    refine Prog.Along.bind (fun h' _ hsub => ?_) (publishMany_adds i _ _ _)
    exact ⟨⟨t, hsub (by simp)⟩, named⟩
  | true =>
    refine ⟨trivial, fun _ _ => ⟨trivial, fun _ _ => Prog.Along.bind (fun h' _ hsub => ?_) (publishMany_adds i _ _ _)⟩⟩
    exact ⟨⟨t, hsub (by simp)⟩, named⟩

theorem activeSession_tells (hd : HeaderMap) (q : DeviceQuery) :
    (activeSession st hd q).Along i AnyCall (fun h => Tells st i h (.activeSession hd q)) [] := by
  unfold activeSession
  simp only [sessionsForDog, Prog.op_bind, Prog.pure_eq]
  cases verifyDevice st hd q.terminalId q.dogId with
  | error s => trivial
  | ok u =>
  refine ⟨trivial, fun t found => ?_⟩
  cases found with
  | none => trivial
  | some x => exact ⟨t, by simp⟩

theorem mediaReady_tells (hd : HeaderMap) (n : Uuid) (b : JsonBody) :
    (mediaReady st hd n b).Along i AnyCall (fun h => Tells st i h (.mediaReady hd n b)) [] := by
  unfold mediaReady
  simp only [setMediaReady, sql, Prog.op_bind, Prog.pure_eq]
  cases hdog : st.formats.parseUuid b.dogId with
  | none => trivial
  | some dog =>
  cases hterminal : st.formats.parseUuid b.terminalId with
  | none => trivial
  | some terminal =>
  dsimp only
  cases verifyDevice st hd ⟨terminal⟩ ⟨dog⟩ with
  | error s => trivial
  | ok u =>
  have named := JsonBody.names_of_parse hdog hterminal
  refine ⟨trivial, fun t marked => ?_⟩
  cases marked with
  | none => trivial
  | some m =>
  cases st.pool with
  | false => exact ⟨t, ⟨dog⟩, b.ready.getD true, by simp, named⟩
  | true => exact ⟨trivial, fun _ _ => ⟨t, ⟨dog⟩, b.ready.getD true, by simp, named⟩⟩

theorem again_tells (hd : HeaderMap) (n : Uuid) (b : JsonBody) :
    (again st hd n b).Along i AnyCall (fun h => Tells st i h (.again hd n b)) [] := by
  unfold again
  simp only [sessionsGet, policiesGet, policiesEnsure, utcNow, sessionsUpdate, sql, Prog.op_bind, Prog.pure_eq]
  cases hdog : st.formats.parseUuid b.dogId with
  | none => trivial
  | some dog =>
  cases hterminal : st.formats.parseUuid b.terminalId with
  | none => trivial
  | some terminal =>
  dsimp only
  cases verifyDevice st hd ⟨terminal⟩ ⟨dog⟩ with
  | error s => trivial
  | ok u =>
  have named := JsonBody.names_of_parse hdog hterminal
  refine ⟨trivial, fun t found => ?_⟩
  cases found with
  | none => trivial
  | some y =>
  dsimp only
  split
  · trivial
  · rename_i hparty
    have hdogs : y.hasDog ⟨dog⟩ := by
      unfold SessionRecord.hasDog
      by_contra hno
      rw [not_or] at hno
      exact hparty (by simp [hno.1, hno.2])
    refine ⟨trivial, fun _ pol => ⟨trivial, fun _ now => ?_⟩⟩
    dsimp only
    cases extendSegment now pol.segmentSec y.maxEndAt with
    | none => trivial
    | some deadline =>
    refine ⟨trivial, fun t' updated => ?_⟩
    cases updated with
    | none => trivial
    | some x =>
    cases st.pool with
    | false =>
      exact ⟨t', fun s => { s with segmentDeadlineAt := deadline }, by simp, t, y, ⟨dog⟩, by simp, named, hdogs⟩
    | true =>
      refine ⟨trivial, fun _ _ => ?_⟩
      exact ⟨t', fun s => { s with segmentDeadlineAt := deadline }, by simp, t, y, ⟨dog⟩, by simp, named, hdogs⟩

/-- **Every handler was told what it answers.** -/
theorem handle_tells (r : Request) : (handle st r).Along i AnyCall (fun h => Tells st i h r) [] := by
  cases r with
  | incomingInvite hd q => exact incomingInvite_tells st i hd q
  | acceptInvite hd n b => exact acceptInvite_tells st i hd n b
  | activeSession hd q => exact activeSession_tells st i hd q
  | mediaReady hd n b => exact mediaReady_tells st i hd n b
  | again hd n b => exact again_tells st i hd n b
  | _ => exact (handle_makes st _).along_calls (fun _ _ _ => trivial) (fun _ _ => trivial)

end

/-! ## At the moments of a run -/

/-- The sessions that have been in the store. -/
def held (st : AppState) (w : World) (reqs : List Request) (sched : List (Nat × DateTime)) : Set SessionRecord :=
  {x | ∃ before, before <+: sched ∧ (reached st w reqs before).state.data.sessions.get x.id = some x}

/-- The invites that have been in the store. -/
def rung (st : AppState) (w : World) (reqs : List Request) (sched : List (Nat × DateTime)) : Set Invite :=
  {inv | ∃ before, before <+: sched ∧ (reached st w reqs before).state.data.invites.get inv.id = some inv}

/-- What the answer to a request says of a session or an invite is so, given the ones that have been in the stores. -/
def Shown (st : AppState) (sessions : Set SessionRecord) (invites : Set Invite) : Request → Reply → Prop
  | .incomingInvite _ q, .offer (some o) => o.1 ∈ invites ∧ o.1.toDog = q.dogId
  | .acceptInvite _ _ b, .accepted x _ => x ∈ sessions ∧ ∃ dog, (b.names st).map (·.2) = some dog ∧ x.hasDog dog
  | .activeSession _ q, .active (some x) => x ∈ sessions ∧ x.hasDog q.dogId
  | .mediaReady _ n b, .media both x => x ∈ sessions ∧ x.id = ⟨n⟩ ∧ (both = true → x.state = .active) ∧
      ∃ dog, (b.names st).map (·.2) = some dog ∧ x.hasDog dog
  | .again _ n b, .extended x => x ∈ sessions ∧ x.id = ⟨n⟩ ∧ ∃ dog, (b.names st).map (·.2) = some dog ∧ x.hasDog dog
  | _, _ => True

section

variable {st : AppState} {w : World} {reqs : List Request} {sched : List (Nat × DateTime)} {i : Nat} {t : DateTime}

/-- A call of the log was made at a moment, and what it left is the next moment's state. -/
theorem made_at {c : Call} {r : c.Resp} (h : (⟨i, t, c, r⟩ : ApiStep) ∈ (reached st w reqs sched).log) :
    ∃ before, before ++ [(i, t)] <+: sched ∧ r = (exec st t c (reached st w reqs before).state).1 ∧
      (reached st w reqs (before ++ [(i, t)])).state = (exec st t c (reached st w reqs before).state).2 := by
  rcases Pool.mem_log_run h with h | ⟨before, hle, hnext, hresp⟩
  · cases h
  · exact ⟨before, hle, hresp, reached_snoc hnext⟩

theorem incomingFor_eq {s : InviteStore} {d : DogId} {inv : Invite} (h : s.incomingFor d = some inv) :
    (∃ k, s.get k = some inv) ∧ inv.toDog = d := by
  obtain ⟨hfor, hto⟩ := Option.filter_eq_some_iff.1 h
  obtain ⟨k, -, hk⟩ := Option.bind_eq_some_iff.1 hfor
  simp only [Bool.and_eq_true, decide_eq_true_eq] at hto
  exact ⟨⟨k, hk⟩, hto.1⟩

theorem held_of_get {before : List (Nat × DateTime)} (hw : w.data = {}) (hle : before <+: sched) {k : SessionId}
    {x : SessionRecord} (h : (reached st w reqs before).state.data.sessions.get k = some x) :
    x ∈ held st w reqs sched ∧ x.id = k := by
  have hid : x.id = k := (named_run hw before).consistent.sessions.keyed h
  exact ⟨⟨before, hle, by rw [hid]; exact h⟩, hid⟩

theorem held_of_forDog (hw : w.data = {}) {d : DogId} {x : SessionRecord}
    (h : (⟨i, t, .sessionsForDog d, some x⟩ : ApiStep) ∈ (reached st w reqs sched).log) :
    x ∈ held st w reqs sched ∧ x.hasDog d := by
  obtain ⟨before, hle, hresp, -⟩ := made_at h
  have hfor : (reached st w reqs before).state.data.sessions.forDog d = some x := hresp.symm
  obtain ⟨k, -, hk⟩ := Option.bind_eq_some_iff.1 hfor
  exact ⟨(held_of_get hw ((List.prefix_append _ _).trans hle) hk).1,
    SessionStore.Pointed.forDog (named_run hw before).pointed hfor⟩

theorem held_of_insert (hw : w.data = {}) {x : SessionRecord}
    (h : (⟨i, t, .sessionsInsert x, .ok ()⟩ : ApiStep) ∈ (reached st w reqs sched).log) : x ∈ held st w reqs sched := by
  obtain ⟨before, hle, hresp, hstate⟩ := made_at h
  have hok : (exec st t (.sessionsInsert x) (reached st w reqs before).state).1.isOk := by
    rw [← hresp]
    rfl
  refine (held_of_get hw hle (k := x.id) ?_).1
  rw [hstate, exec_sessions]
  exact if_pos ⟨hok, rfl⟩

theorem held_of_setMediaReady (hw : w.data = {}) {n : SessionId} {dog : DogId} {ready both : Bool} {x : SessionRecord}
    (h : (⟨i, t, .setMediaReady n dog ready, some (both, x)⟩ : ApiStep) ∈ (reached st w reqs sched).log) :
    x ∈ held st w reqs sched ∧ x.id = n ∧ (both = true → x.state = .active) ∧ x.hasDog dog := by
  obtain ⟨before, hle, hresp, hstate⟩ := made_at h
  have hset : ((reached st w reqs before).state.data.sessions.setMediaReady n dog ready).1 = some (both, x) :=
    hresp.symm
  rcases SessionStore.setMediaReady_cases (reached st w reqs before).state.data.sessions n dog ready with
    ⟨hnone, -⟩ | ⟨y, e, e', s', hy, -, hmark, hs, -, -, hget⟩
  · rw [hnone] at hset
    cases hset
  · rw [hs] at hset
    obtain ⟨rfl, rfl⟩ := Prod.mk.inj (Option.some.inj hset)
    have hafter : (reached st w reqs (before ++ [(i, t)])).state.data.sessions.get n =
        some (SessionStore.promote e' y) := by
      rw [hstate, exec_sessions]
      show ((reached st w reqs before).state.data.sessions.setMediaReady n dog ready).2.get n = _
      rw [hs, hget, if_pos rfl]
    obtain ⟨hheld, hid⟩ := held_of_get hw hle hafter
    refine ⟨hheld, hid, fun hboth => ?_, ?_⟩
    · unfold SessionStore.promote
      rw [if_pos hboth]
    · rw [(SessionRecord.Kin.promote e' y).hasDog]
      unfold SessionStore.mark at hmark
      by_cases hA : dog = y.dogA
      · exact .inl hA.symm
      · by_cases hB : dog = y.dogB
        · exact .inr hB.symm
        · rw [if_neg hA, if_neg hB] at hmark
          cases hmark

theorem held_of_update (hw : w.data = {}) {n : SessionId} {f : SessionRecord → SessionRecord} {x : SessionRecord}
    (h : (⟨i, t, .sessionsUpdate n f, some x⟩ : ApiStep) ∈ (reached st w reqs sched).log) :
    x ∈ held st w reqs sched ∧ x.id = n := by
  obtain ⟨before, hle, hresp, hstate⟩ := made_at h
  have hup : ((reached st w reqs before).state.data.sessions.update n f).1 = some x := hresp.symm
  rw [SessionStore.update_fst] at hup
  refine held_of_get hw hle ?_
  rw [hstate, exec_sessions]
  exact (if_pos rfl).trans hup

/-- **What a device is answered about sessions and invites was so** at a moment of the run, whatever else is at work. -/
theorem reply_shown (hw : w.data = {}) {r : Request} (hr : reqs[i]? = some r) {reply : Reply}
    (h : (reached st w reqs sched).result i = some reply) :
    Shown st (held st w reqs sched) (rung st w reqs sched) r reply := by
  have htells : Tells st i (own i (reached st w reqs sched).log) r reply := by
    have hfollows : (Pool.start w (reqs.map (handle st)) : ApiPool).Follows (fun _ => AnyCall)
        (fun j h reply => ∀ r, reqs[j]? = some r → Tells st j h r reply) := by
      refine Pool.follows_start (fun j r hr => (handle_tells st j r).mono (fun _ _ hc => hc) (fun h reply ht => ?_))
      intro r' hr'
      obtain rfl := Option.some.inj (hr.symm.trans hr')
      exact ht
    exact hfollows.run sched i _ (Pool.result_eq_some.1 h) r hr
  have hlog : ∀ {e : ApiStep}, e ∈ own i (reached st w reqs sched).log → e ∈ (reached st w reqs sched).log :=
    fun he => (Interleave.mem_own.1 he).1
  unfold Tells at htells
  unfold Shown
  split at htells
  · obtain ⟨t, hmem⟩ := htells
    obtain ⟨before, hle, hresp, -⟩ := made_at (hlog hmem)
    obtain ⟨⟨k, hk⟩, hto⟩ := incomingFor_eq hresp.symm
    refine ⟨⟨before, (List.prefix_append _ _).trans hle, ?_⟩, hto⟩
    rw [(named_run hw before).consistent.invites.keyed hk]
    exact hk
  · obtain ⟨⟨t, hmem⟩, hdog⟩ := htells
    exact ⟨held_of_insert hw (hlog hmem), _, hdog, .inr rfl⟩
  · obtain ⟨t, hmem⟩ := htells
    exact held_of_forDog hw (hlog hmem)
  · obtain ⟨t, dog, ready, hmem, hdog⟩ := htells
    obtain ⟨hheld, hid, hactive, hparty⟩ := held_of_setMediaReady hw (hlog hmem)
    exact ⟨hheld, hid, hactive, dog, hdog, hparty⟩
  · obtain ⟨t, f, hmem, t', y, dog, hmem', hdog, hparty⟩ := htells
    obtain ⟨hheld, hid⟩ := held_of_update hw (hlog hmem)
    refine ⟨hheld, hid, dog, hdog, ?_⟩
    -- the session that was read, with its parties, is the one that was extended
    obtain ⟨before, hle, hx⟩ := hheld
    obtain ⟨before', hle', hresp, -⟩ := made_at (hlog hmem')
    rw [hid] at hx
    have hy : (reached st w reqs before').state.data.sessions.get ⟨_⟩ = some y := hresp.symm
    exact ((session_same hw hle ((List.prefix_append _ _).trans hle') hx hy).hasDog dog).2 hparty
  · trivial

end
end CanisLink
