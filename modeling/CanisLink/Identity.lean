import CanisLink.Handling
import CanisLink.Requests
/-!
# Identity — an id names one session for good

The id of a session is drawn once and inserted at most once, by the request that drew it.  What is in the store under an
id at two moments of a run is then the same session: only its state and its segment may have changed.
-/
namespace CanisLink

open Interleave (Prog Pool Step own countP_le_of_own)
open Api

/-- Two records of one session: they differ in state and segment at most. -/
def SessionRecord.Kin (x y : SessionRecord) : Prop :=
  { x with state := y.state, segmentDeadlineAt := y.segmentDeadlineAt } = y

namespace SessionRecord.Kin

variable {x y z : SessionRecord}

theorem refl (x : SessionRecord) : x.Kin x := rfl
theorem symm (h : x.Kin y) : y.Kin x := by
  unfold Kin at *
  rw [← h]
theorem trans (h : x.Kin y) (h' : y.Kin z) : x.Kin z := by
  unfold Kin at *
  rw [← h', ← h]

theorem id (h : x.Kin y) : x.id = y.id := by
  rw [← h]
theorem inviteId (h : x.Kin y) : x.inviteId = y.inviteId := by
  rw [← h]
theorem dogA (h : x.Kin y) : x.dogA = y.dogA := by
  rw [← h]
theorem dogB (h : x.Kin y) : x.dogB = y.dogB := by
  rw [← h]
theorem hasDog (h : x.Kin y) (d : DogId) : x.hasDog d ↔ y.hasDog d := by
  unfold SessionRecord.hasDog
  rw [h.dogA, h.dogB]

theorem promote (e : SessionExtra) (x : SessionRecord) : (SessionStore.promote e x).Kin x := by
  rcases SessionStore.promote_eq_or e x with h | h <;> rw [h] <;> rfl

end SessionRecord.Kin

/-- **A session in the store after a call** is one that was there, or the call inserted it. -/
theorem sessions_kin {st : AppState} {r : Request} {w : World} {t : DateTime} {c : Call} (hm : r.makes c)
    {k : SessionId} {x : SessionRecord} (h : (exec st t c w).2.data.sessions.get k = some x) :
    (∃ y, w.data.sessions.get k = some y ∧ x.Kin y) ∨ (c = .sessionsInsert x ∧ x.id = k) := by
  rw [exec_sessions] at h
  have hsame : w.data.sessions.get k = some x →
      (∃ y, w.data.sessions.get k = some y ∧ x.Kin y) ∨ (c = .sessionsInsert x ∧ x.id = k) :=
    fun hx => .inl ⟨x, hx, .refl x⟩
  cases c with
  | sessionsInsert y =>
    simp only at h
    split at h
    · rename_i hk
      cases h
      exact .inr ⟨rfl, hk.2.symm⟩
    · exact hsame h
  | sessionsUpdate id f =>
    obtain ⟨-, deadline, rfl⟩ := hm
    simp only at h
    split at h
    · obtain ⟨y, hy, rfl⟩ := Option.map_eq_some_iff.1 h
      exact .inl ⟨y, hy, rfl⟩
    · exact hsame h
  | sessionsEnd id =>
    simp only at h
    split at h
    · cases h
    · exact hsame h
  | setMediaReady id d ready =>
    simp only at h
    rcases SessionStore.setMediaReady_cases w.data.sessions id d ready with
      ⟨hs, -⟩ | ⟨y, e, e', s', hy, -, -, hs, -, -, hg⟩
    · rw [hs] at h
      exact hsame h
    · rw [hs, hg] at h
      split at h
      · rename_i hk
        cases h
        exact .inl ⟨y, hk ▸ hy, .promote e' y⟩
      · exact hsame h
  | _ => exact hsame h

/-! ## From the dogs to the sessions -/

namespace SessionStore

/-- The index of dogs leads to sessions of the dogs. -/
def Pointed (s : SessionStore) : Prop :=
  ∀ {d k}, s.byDog.lookup d = some k → ∃ x, s.get k = some x ∧ x.hasDog d

namespace Pointed

variable {s : SessionStore}

theorem forDog (hs : s.Pointed) {d : DogId} {x : SessionRecord} (h : s.forDog d = some x) : x.hasDog d := by
  unfold SessionStore.forDog at h
  obtain ⟨k, hk, hx⟩ := Option.bind_eq_some_iff.1 h
  obtain ⟨y, hy, hd⟩ := hs hk
  rw [Option.some.inj (hx.symm.trans hy)]
  exact hd

theorem insert {s' : SessionStore} {x : SessionRecord} (hs : s.Pointed) (hnew : s.get x.id = none)
    (h : s.insert x = .ok s') : s'.Pointed := by
  intro d k hd
  have hget := get_insert h
  obtain ⟨-, -, rfl⟩ := insert_ok h
  simp only [HashMap.lookup_insert] at hd
  by_cases hB : d = x.dogB
  · rw [if_pos hB] at hd
    cases hd
    exact ⟨x, by rw [hget, if_pos rfl], .inr hB.symm⟩
  · rw [if_neg hB] at hd
    by_cases hA : d = x.dogA
    · rw [if_pos hA] at hd
      cases hd
      exact ⟨x, by rw [hget, if_pos rfl], .inl hA.symm⟩
    · rw [if_neg hA] at hd
      obtain ⟨y, hy, hdog⟩ := hs hd
      have hne : k ≠ x.id := by
        rintro rfl
        rw [hnew] at hy
        cases hy
      exact ⟨y, by rw [hget, if_neg hne]; exact hy, hdog⟩

/-- A change of one entry that keeps its dogs. -/
theorem amend {s' : SessionStore} (hs : s.Pointed) (hdog : s'.byDog = s.byDog)
    (hget : ∀ {k y}, s.get k = some y → ∃ y', s'.get k = some y' ∧ ∀ d, y.hasDog d → y'.hasDog d) : s'.Pointed := by
  intro d k hd
  rw [hdog] at hd
  obtain ⟨y, hy, hparty⟩ := hs hd
  obtain ⟨y', hy', hsame⟩ := hget hy
  exact ⟨y', hy', hsame d hparty⟩

theorem update (hs : s.Pointed) (id : SessionId) {f : SessionRecord → SessionRecord}
    (hf : ∀ x, (f x).dogA = x.dogA ∧ (f x).dogB = x.dogB) : (s.update id f).2.Pointed := by
  refine hs.amend ?_ (fun {k y} hy => ?_)
  · unfold SessionStore.update
    split <;> rfl
  · rw [get_update, hy]
    by_cases hk : k = id
    · refine ⟨f y, by rw [if_pos hk]; rfl, fun d hd => ?_⟩
      unfold SessionRecord.hasDog
      rw [(hf y).1, (hf y).2]
      exact hd
    · exact ⟨y, by rw [if_neg hk], fun _ hd => hd⟩

theorem endSession (hs : s.Pointed) (id : SessionId) : (s.endSession id).2.Pointed := by
  intro d k hd
  have hget := get_endSession s id
  unfold SessionStore.endSession at hd
  split at hd
  · rename_i hnone
    obtain ⟨y, hy, hdog⟩ := hs hd
    have hne : k ≠ id := by
      rintro rfl
      rw [show s.get k = none from hnone] at hy
      cases hy
    exact ⟨y, by rw [hget, if_neg hne]; exact hy, hdog⟩
  · rename_i x hx
    simp only [HashMap.lookup_erase] at hd
    by_cases hB : d = x.dogB
    · rw [if_pos hB] at hd
      cases hd
    · by_cases hA : d = x.dogA
      · rw [if_neg hB, if_pos hA] at hd
        cases hd
      · rw [if_neg hB, if_neg hA] at hd
        obtain ⟨y, hy, hdog⟩ := hs hd
        have hne : k ≠ id := by
          rintro rfl
          rw [show s.get k = some x from hx] at hy
          cases hy
          rcases hdog with h | h
          · exact hA h.symm
          · exact hB h.symm
        exact ⟨y, by rw [hget, if_neg hne]; exact hy, hdog⟩

theorem setMediaReady (hs : s.Pointed) (id : SessionId) (dog : DogId) (ready : Bool) :
    (s.setMediaReady id dog ready).2.Pointed := by
  rcases setMediaReady_cases s id dog ready with ⟨h, -⟩ | ⟨x, e, e', s', hx, -, -, h, hdog, -, hget⟩
  · rw [h]
    exact hs
  · rw [h]
    refine hs.amend hdog (fun {k y} hy => ?_)
    by_cases hk : k = id
    · rw [hk, hx] at hy
      cases hy
      exact ⟨_, by rw [hget, if_pos hk], fun d hd => ((SessionRecord.Kin.promote e' x).hasDog d).2 hd⟩
    · exact ⟨y, by rw [hget, if_neg hk]; exact hy, fun _ hd => hd⟩

end Pointed
end SessionStore

/-- A call that puts in no session under an id in use keeps the index leading to sessions of the dogs. -/
theorem exec_pointed {st : AppState} {w : World} {t : DateTime} {c : Call} (hc : c.keepsParties)
    (hnew : ∀ x, c = .sessionsInsert x → w.data.sessions.get x.id = none) (hw : w.data.sessions.Pointed) :
    (exec st t c w).2.data.sessions.Pointed := by
  cases c with
  | sessionsInsert x =>
    simp only [exec]
    split
    · rename_i s hs
      exact SessionStore.Pointed.insert hw (hnew x rfl) hs
    · exact hw
  | sessionsUpdate id f => exact SessionStore.Pointed.update hw id (fun x => (hc x).2)
  | sessionsEnd id => exact SessionStore.Pointed.endSession hw id
  | setMediaReady id d ready => exact SessionStore.Pointed.setMediaReady hw id d ready
  | invitesInsert inv =>
    rw [invitesInsert_keeps st t w (·.data.sessions) (fun _ => rfl) inv]
    exact hw
  | _ => exact hw

/-! ## Drawing and inserting an id -/

/-- The step drew the id. -/
def drew (k : SessionId) : ApiStep → Bool
  | ⟨_, _, .newUuid, u⟩ => decide (u = k.uuid)
  | _ => false

/-- The step put in a session of that id, or was refused. -/
def inserts (k : SessionId) (e : ApiStep) : Bool :=
  match e.cmd with
  | .sessionsInsert x => decide (x.id = k)
  | _ => false

/-- A handler inserts a session only under an id that it drew and has not used. -/
def DrawnNext (h : List ApiStep) : Call → Prop
  | .sessionsInsert x => h.countP (inserts x.id) < h.countP (drew x.id)
  | _ => True

section

variable (st : AppState) (i : Nat)

theorem publishMany_drawn (ev : DeviceEvent) : ∀ (ds : List DogId) (h : List ApiStep),
    (publishMany ds ev).Along i DrawnNext (fun _ _ => True) h
  | [], _ => trivial
  | _ :: ds, _ => ⟨trivial, fun _ _ => publishMany_drawn ev ds _⟩

theorem acceptInvite_drawn (hd : HeaderMap) (n : Uuid) (b : JsonBody) :
    (acceptInviteHandler st hd n b).Along i DrawnNext (fun _ _ => True) [] := by
  unfold acceptInviteHandler
  simp only [utcNow, expireDue, policiesGet, policiesEnsure, invitesGet, isPresent, newUuid, invitesClose,
    sessionsInsert, sql, Prog.op_bind, Prog.pure_eq]
  cases st.formats.parseUuid b.dogId with
  | none => trivial
  | some dog =>
  cases st.formats.parseUuid b.terminalId with
  | none => trivial
  | some terminal =>
  dsimp only
  cases verifyDevice st hd ⟨terminal⟩ ⟨dog⟩ with
  | error s => trivial
  | ok u =>
  refine ⟨trivial, fun _ now => ⟨trivial, fun _ pol => ?_⟩⟩
  dsimp only
  cases socialAllowed pol now with
  | error e => trivial
  | ok u =>
  refine ⟨trivial, fun _ _ => ⟨trivial, fun _ found => ?_⟩⟩
  cases found with
  | none => trivial
  | some inv =>
  refine ⟨trivial, fun _ present => ⟨trivial, fun _ sessionId => ?_⟩⟩
  dsimp only
  cases ha : acceptInvite ⟨sessionId⟩ inv ⟨dog⟩ present now with
  | none => trivial
  | some checked =>
  cases checked with
  | error e => trivial
  | ok session =>
  dsimp only
  cases (seconds (asI64 pol.maxSessionSec)).bind now.plus with
  | none => trivial
  | some maxEndAt =>
  cases (seconds (asI64 pol.segmentSec)).bind now.plus with
  | none => trivial
  | some segmentDeadlineAt =>
  have hid : session.id = ⟨sessionId⟩ := (acceptInvite_ok ha).2.1
  refine ⟨trivial, fun _ _ => ⟨?_, fun _ inserted => ?_⟩⟩
  · show List.countP (inserts session.id) _ < List.countP (drew session.id) _
    rw [hid]
    simp [inserts, drew]
  · cases inserted with
    | error e => trivial
    | ok u =>
    cases st.pool with
    | false =>
      refine Prog.Along.bind (fun _ _ _ => ?_) (publishMany_drawn i _ _ _)
      trivial
    | true =>
      refine ⟨trivial, fun _ _ => ⟨trivial, fun _ _ =>
        Prog.Along.bind (fun _ _ _ => ?_) (publishMany_drawn i _ _ _)⟩⟩
      trivial

/-- **Every handler draws the id of a session it inserts.** -/
theorem handle_drawn (r : Request) :
    (handle st r).Along i (fun h c => r.makes c ∧ DrawnNext h c) (fun _ _ => True) [] := by
  refine (handle_makes st r).and_along ?_
  have hother : r.isAccept = false → (handle st r).Along i DrawnNext (fun _ _ => True) [] := by
    intro ha
    refine (handle_makes st r).along_calls (fun h c hm => ?_) (fun _ _ => trivial)
    cases c with
    | sessionsInsert x => exact absurd hm (by simp [Request.makes, ha])
    | _ => trivial
  cases r with
  | acceptInvite hd n b => exact acceptInvite_drawn st i hd n b
  | _ => exact hother rfl

end

/-! ## Over a run -/

/-- An id still to come has not been drawn, and none has been drawn twice. -/
def DrawnOnce (w : World) (log : List ApiStep) (k : SessionId) : Prop :=
  log.countP (drew k) ≤ 1 ∧ (w.nextUuid ≤ k.uuid → log.countP (drew k) = 0)

/-- The log of a run: ids are drawn once, every handler inserts what it drew, and what is stored was inserted. -/
structure Named (p : ApiPool) : Prop where
  drawn : ∀ k, DrawnOnce p.state p.log k
  used : ∀ i k, (own i p.log).countP (inserts k) ≤ (own i p.log).countP (drew k)
  stored : ∀ {k x}, p.state.data.sessions.get k = some x →
    ∃ e ∈ p.log, ∃ y, e.cmd = .sessionsInsert y ∧ y.id = k ∧ x.Kin y
  consistent : p.state.Consistent
  pointed : p.state.data.sessions.Pointed

section

variable {st : AppState}

theorem drew_other (k : SessionId) (i : Nat) (t : DateTime) {c : Call} (hc : c ≠ .newUuid) (r : c.Resp) :
    drew k ⟨i, t, c, r⟩ = false := by
  cases c with
  | newUuid => exact absurd rfl hc
  | _ => rfl

theorem inserts_iff {k : SessionId} {e : ApiStep} :
    inserts k e = true ↔ ∃ y, e.cmd = .sessionsInsert y ∧ y.id = k := by
  unfold inserts
  split
  · rename_i y hy
    rw [hy]
    simp
  · rename_i hno
    exact iff_of_false (by simp) (fun ⟨y, hy, _⟩ => hno y hy)

theorem DrawnOnce.step {w : World} {log : List ApiStep} {k : SessionId} {i : Nat} {t : DateTime} {c : Call}
    (h : DrawnOnce w log k) : DrawnOnce (exec st t c w).2 (log ++ [⟨i, t, c, (exec st t c w).1⟩]) k := by
  obtain ⟨honce, hnone⟩ := h
  unfold DrawnOnce
  rw [List.countP_append, List.countP_singleton]
  by_cases hc : c = .newUuid
  · subst hc
    show _ + (if decide (w.nextUuid = k.uuid) = true then 1 else 0) ≤ 1 ∧
      (w.nextUuid + 1 ≤ k.uuid → _ + (if decide (w.nextUuid = k.uuid) = true then 1 else 0) = 0)
    by_cases heq : w.nextUuid = k.uuid
    · rw [hnone (le_of_eq heq), heq]
      exact ⟨by simp, fun hle => absurd hle (Nat.not_succ_le_self _)⟩
    · rw [if_neg (by simpa using heq)]
      exact ⟨honce, fun hle => hnone (Nat.le_of_succ_le hle)⟩
  · rw [drew_other k i t hc, if_neg Bool.false_ne_true]
    exact ⟨honce, fun hle => hnone ((@nextUuid_mono st t w c).trans hle)⟩

/-- **A call keeps every id drawn once and every stored session accounted for.** -/
theorem named_step {p : ApiPool} (hJ : Named p) {i : Nat} {t : DateTime} {c : Call} {r : Request}
    (k : c.Resp → Prog Call.Resp Reply) (hm : r.makes c) (hnext : DrawnNext (own i p.log) c) :
    Named ⟨(exec st t c p.state).2, p.threads.set i (k (exec st t c p.state).1),
      p.log ++ [⟨i, t, c, (exec st t c p.state).1⟩]⟩ := by
  have hdrawn : ∀ id, DrawnOnce (exec st t c p.state).2 (p.log ++ [⟨i, t, c, (exec st t c p.state).1⟩]) id :=
    fun id => (hJ.drawn id).step
  have hused : ∀ j id, (own j (p.log ++ [⟨i, t, c, (exec st t c p.state).1⟩])).countP (inserts id) ≤
      (own j (p.log ++ [⟨i, t, c, (exec st t c p.state).1⟩])).countP (drew id) := by
    intro j id
    have hused := hJ.used j id
    by_cases hj : i = j
    · subst hj
      rw [Interleave.own_snoc_self, List.countP_append, List.countP_append, List.countP_singleton,
        List.countP_singleton]
      cases hins : inserts id ⟨i, t, c, (exec st t c p.state).1⟩ with
      | false =>
        simp only [Bool.false_eq_true, if_false]
        omega
      | true =>
        obtain ⟨y, hy, rfl⟩ := inserts_iff.1 hins
        obtain rfl : c = .sessionsInsert y := hy
        have hfresh : (own i p.log).countP (inserts y.id) < (own i p.log).countP (drew y.id) := hnext
        simp only [if_true]
        omega
    · rw [Interleave.own_snoc_ne hj]
      exact hused
  refine ⟨hdrawn, hused, fun {id x} hx => ?_,
    exec_consistent st t (Request.makes_keepsParties hm) hJ.consistent, ?_⟩
  · rcases sessions_kin hm hx with ⟨y, hy, hkin⟩ | ⟨rfl, hid⟩
    · obtain ⟨e, he, z, hcmd, hz, hkin'⟩ := hJ.stored hy
      exact ⟨e, List.mem_append_left _ he, z, hcmd, hz, hkin.trans hkin'⟩
    · exact ⟨_, List.mem_append_right _ (List.mem_singleton_self _), x, rfl, hid, .refl x⟩
  · refine exec_pointed (Request.makes_keepsParties hm) (fun x hc => ?_) hJ.pointed
    -- an id in use was put in by a step, and this step puts it in once more
    subst hc
    by_contra hsome
    obtain ⟨y, hy⟩ := Option.ne_none_iff_exists'.1 hsome
    obtain ⟨e, he, z, hcmd, hz, -⟩ := hJ.stored hy
    have hbefore : 0 < p.log.countP (inserts x.id) := List.countP_pos_iff.2 ⟨e, he, inserts_iff.2 ⟨z, hcmd, hz⟩⟩
    have hle := (countP_le_of_own (fun j => hused j x.id)).trans (hdrawn x.id).1
    rw [List.countP_append, List.countP_singleton, if_pos (inserts_iff.2 ⟨x, rfl, rfl⟩)] at hle
    omega

theorem named_run {reqs : List Request} {w : World} (hw : w.data = {}) (sched : List (Nat × DateTime)) :
    Named (reached st w reqs sched) := by
  have hfollows : (Pool.start w (reqs.map (handle st)) : ApiPool).Follows
      (fun i h c => ∃ r : Request, r.makes c ∧ DrawnNext h c) (fun _ _ _ => True) :=
    Pool.follows_start (fun i r _ => (handle_drawn st i r).mono (fun _ _ hc => ⟨r, hc⟩) (fun _ _ _ => trivial))
  have h0 : Named (Pool.start w (reqs.map (handle st)) : ApiPool) := by
    refine ⟨fun k => ⟨Nat.zero_le _, fun _ => rfl⟩, fun i k => Nat.zero_le _, fun {k x} h => ?_, ⟨?_, ?_⟩,
      fun {d k} h => ?_⟩
    · rw [show (Pool.start w _ : ApiPool).state = w from rfl, hw] at h
      cases h
    · rw [show (Pool.start w _ : ApiPool).state = w from rfl, hw]
      exact .empty
    · rw [show (Pool.start w _ : ApiPool).state = w from rfl, hw]
      exact .empty
    · rw [show (Pool.start w _ : ApiPool).state = w from rfl, hw] at h
      cases h
  have hany : (Pool.start w (reqs.map (handle st)) : ApiPool).Meets (exec st) (fun _ _ => True) sched :=
    Pool.meets_iff.2 (fun _ _ _ => trivial)
  refine (Pool.run_inv (fun p i t c k hJ _ _ hq _ => ?_) sched _ hfollows h0 hany).2
  obtain ⟨r, hm, hnext⟩ := hq
  exact named_step hJ k hm hnext

/-- At most one step put in a session of an id. -/
theorem Named.once {p : ApiPool} (h : Named p) {k : SessionId} {e e' : ApiStep} (he : e ∈ p.log) (he' : e' ∈ p.log)
    (hi : inserts k e = true) (hi' : inserts k e' = true) : e = e' := by
  have hle : p.log.countP (inserts k) ≤ 1 := (countP_le_of_own (fun i => h.used i k)).trans (h.drawn k).1
  rw [List.countP_eq_length_filter] at hle
  have hm : e ∈ p.log.filter (inserts k) := List.mem_filter.2 ⟨he, hi⟩
  have hm' : e' ∈ p.log.filter (inserts k) := List.mem_filter.2 ⟨he', hi'⟩
  obtain ⟨a, ha⟩ := List.length_eq_one_iff.1 (Nat.le_antisymm hle (List.length_pos_of_mem hm))
  rw [ha] at hm hm'
  rw [List.mem_singleton.1 hm, List.mem_singleton.1 hm']

/-- **What is stored under an id at two moments is one session.** -/
theorem session_same {reqs : List Request} {w : World} (hw : w.data = {})
    {before before' sched : List (Nat × DateTime)} (hle : before <+: sched) (hle' : before' <+: sched) {k : SessionId}
    {x y : SessionRecord}
    (hx : (reached st w reqs before).state.data.sessions.get k = some x)
    (hy : (reached st w reqs before').state.data.sessions.get k = some y) : x.Kin y := by
  obtain ⟨e, he, x₀, hcmd, hid, hkin⟩ := (named_run hw before).stored hx
  obtain ⟨e', he', y₀, hcmd', hid', hkin'⟩ := (named_run hw before').stored hy
  have hnamed : Named (reached st w reqs sched) := named_run hw sched
  obtain rfl := hnamed.once (Pool.log_mono hle _ he) (Pool.log_mono hle' _ he')
    (inserts_iff.2 ⟨x₀, hcmd, hid⟩) (inserts_iff.2 ⟨y₀, hcmd', hid'⟩)
  obtain rfl : x₀ = y₀ := Call.sessionsInsert.inj (hcmd.symm.trans hcmd')
  exact hkin.trans hkin'.symm

end
end CanisLink
