import CanisLink.Ledger
/-!
# Handling — the handlers read for the ledger

One lemma for each handler: run alone from a world, it leaves one of the ledgers that `Handled` allows.
-/
namespace CanisLink

open Interleave (Prog)
open Api

section

variable {st : AppState} {t : DateTime} {n : Nat} {κ : Nat → DateTime} {w w' : World}

theorem ledger_step {c : Call} {r : c.Resp} (h : exec st t c w = (r, w')) : w'.ledger = (exec st t c w).2.ledger := by
  rw [h]

theorem aside_step {c : Call} (hc : c.aside) {r : c.Resp} (h : exec st t c w = (r, w')) : w'.ledger = w.ledger :=
  (ledger_step h).trans (ledger_aside st t hc)

theorem scene_step {c : Call} (hc : c.looks) {r : c.Resp} (h : exec st t c w = (r, w')) : w'.scene = w.scene := by
  have := scene_looks st t (w := w) hc
  rw [h] at this
  exact this

theorem ensure_step {d : DogId} {p : DogPolicy} (h : exec st t (.policiesEnsure d) w = (p, w')) :
    p = w.data.policies.current d := by
  rw [← PolicyStore.ensure_fst]
  exact (congrArg Prod.fst h).symm

theorem expire_step {now : DateTime} {r : List Invite} (h : exec st t (.expireDue now) w = (r, w')) :
    w'.ledger = w.ledger.expire now := (ledger_step h).trans (ledger_exec st t _ w)

theorem close_step {id : InviteId} {r : Option Invite} (h : exec st t (.invitesClose id) w = (r, w')) :
    w'.ledger = w.ledger.close id := (ledger_step h).trans (ledger_exec st t _ w)

theorem setPolicy_step {p : DogPolicy} {r : Unit} (h : exec st t (.policiesSet p) w = (r, w')) :
    w'.ledger = w.ledger.setPolicy p := (ledger_step h).trans (ledger_exec st t _ w)

theorem sql_step {s : Stmt} {r : Bool} (h : exec st t (.sql s) w = (r, w')) : w'.ledger = w.ledger.apply st.formats s :=
  (ledger_step h).trans (ledger_exec st t _ w)

theorem end_step {id : SessionId} {r : Option SessionRecord} (h : exec st t (.sessionsEnd id) w = (r, w')) :
    w'.ledger = w.ledger.setSessions (w.ledger.sessions.endSession id).2 := (ledger_step h).trans (ledger_exec st t _ w)

theorem update_step {id : SessionId} {f : SessionRecord → SessionRecord} {r : Option SessionRecord}
    (h : exec st t (.sessionsUpdate id f) w = (r, w')) :
    r = (w.ledger.sessions.update id f).1 ∧ w'.ledger = w.ledger.setSessions (w.ledger.sessions.update id f).2 :=
  ⟨(congrArg Prod.fst h).symm, (ledger_step h).trans (ledger_exec st t _ w)⟩

theorem setMediaReady_step {id : SessionId} {dog : DogId} {ready : Bool} {r : Option (Bool × SessionRecord)}
    (h : exec st t (.setMediaReady id dog ready) w = (r, w')) :
    r = (w.ledger.sessions.setMediaReady id dog ready).1 ∧
      w'.ledger = w.ledger.setSessions (w.ledger.sessions.setMediaReady id dog ready).2 :=
  ⟨(congrArg Prod.fst h).symm, (ledger_step h).trans (ledger_exec st t _ w)⟩

theorem nextUuid_mono (c : Call) : w.nextUuid ≤ (exec st t c w).2.nextUuid := by
  cases c with
  | newUuid => exact Nat.le_succ _
  | invitesInsert inv => exact (invitesInsert_keeps st t w (·.nextUuid) (fun _ => rfl) inv).ge
  | sessionsInsert x => exact (sessionsInsert_keeps st t w (·.nextUuid) (fun _ => rfl) x).ge
  | _ => exact Nat.le_refl _

theorem nextUuid_step {c : Call} {r : c.Resp} (h : exec st t c w = (r, w')) : w.nextUuid ≤ w'.nextUuid := by
  have := @nextUuid_mono st t w c
  rw [h] at this
  exact this

theorem newUuid_step {id : Uuid} (h : exec st t .newUuid w = (id, w')) : w.nextUuid = id ∧ id < w'.nextUuid := by
  cases h
  exact ⟨rfl, Nat.lt_succ_self _⟩

theorem expireDue_presence {now : DateTime} {r : List Invite} (h : exec st t (.expireDue now) w = (r, w')) :
    w'.data.presence = w.data.presence := by
  have : w' = (exec st t (.expireDue now) w).2 := by rw [h]
  rw [this]
  rfl

theorem scene_presence {c : Call} (hc : c.looks) {r : c.Resp} (h : exec st t c w = (r, w')) :
    w'.data.presence = w.data.presence := congrArg Prod.fst (scene_step hc h)

theorem sessionsInsert_step {x : SessionRecord} {r : Except String Unit}
    (h : exec st t (.sessionsInsert x) w = (r, w')) :
    match r with
    | .ok _ => ∃ s, w.ledger.sessions.insert x = .ok s ∧ w'.ledger = w.ledger.setSessions s
    | .error e => w.ledger.sessions.insert x = .error e ∧ w'.ledger = w.ledger := by
  cases hi : w.data.sessions.insert x with
  | error e =>
    simp only [exec, hi] at h
    cases h
    exact ⟨hi, rfl⟩
  | ok s =>
    simp only [exec, hi] at h
    cases h
    exact ⟨s, hi, rfl⟩

theorem aside_yields {α : Type} {p : Api α} (hp : p.All Call.aside) :
    p.Yields (exec st) κ w (fun _ w' => w'.ledger = w.ledger) :=
  @Prog.All.yields _ _ _ _ _ _ _ (fun w' : World => w'.ledger = w.ledger)
    (fun _ hc t _ h => (ledger_aside st t hc).trans h) _ hp _ _ rfl

/-- A statement that runs if there is a database. -/
theorem save_yields {α : Type} {s : Stmt} {rest : Api α} {Q : α → World → Prop}
    (hrest : ∀ κ w', w'.ledger = w.ledger.save st s → rest.Yields (exec st) κ w' Q) :
    (if st.pool = true then Prog.call (Call.sql s) fun _ => rest else rest).Yields (exec st) κ w Q := by
  unfold Ledger.save at hrest
  cases hp : st.pool with
  | false =>
    rw [hp] at hrest
    exact hrest _ _ rfl
  | true =>
    rw [hp] at hrest
    exact .call (fun ok w' h => hrest _ _ (sql_step h))

theorem save_twice_yields {s s' : Stmt} {rest : Api Reply} {Q : Reply → World → Prop}
    (hrest : ∀ κ w', w'.ledger = (w.ledger.save st s).save st s' → rest.Yields (exec st) κ w' Q) :
    (if st.pool = true then Prog.call (Call.sql s) fun _ => Prog.call (Call.sql s') fun _ => rest else rest).Yields
      (exec st) κ w Q := by
  unfold Ledger.save at hrest
  cases hp : st.pool with
  | false =>
    rw [hp] at hrest
    exact hrest _ _ rfl
  | true =>
    rw [hp] at hrest
    exact .call (fun _ w₁ h₁ => .call (fun _ w₂ h₂ => hrest _ _ ((sql_step h₂).trans (by rw [sql_step h₁]; rfl))))

/-- The policy in force is saved if there is a database. -/
theorem savePolicy_yields {d : DogId} {rest : Api Reply} {Q : Reply → World → Prop}
    (hrest : ∀ κ w', w'.ledger = w.ledger → rest.Yields (exec st) κ w' Q) :
    (if st.pool = true then
      Prog.call (Call.policiesEnsure d) fun p => Prog.call (Call.sql (.savePolicy p)) fun _ => rest
      else rest).Yields (exec st) κ w Q := by
  cases hp : st.pool with
  | false => exact hrest _ _ rfl
  | true =>
    refine .call (fun p w₁ h₁ => .call (fun _ w₂ h₂ => hrest _ _ ?_))
    rw [aside_step (c := .sql (.savePolicy p)) trivial h₂, aside_step (c := .policiesEnsure d) trivial h₁]

theorem publishMany_yields {Q : Reply → World → Prop} {ds : List DogId} {ev : DeviceEvent} {rest : Api Reply}
    (hrest : ∀ κ w', w'.ledger = w.ledger → rest.Yields (exec st) κ w' Q) :
    (publishMany ds ev >>= fun _ => rest).Yields (exec st) κ w Q :=
  .bind ((aside_yields (publishMany_all (fun _ _ => trivial) ev ds)).mono (fun _ _ h _ => hrest _ _ h))

theorem jsonCaller_eq {h : HeaderMap} {b : JsonBody} {dog terminal : Uuid}
    (hd : st.formats.parseUuid b.dogId = some dog)
    (ht : st.formats.parseUuid b.terminalId = some terminal) {u : Unit}
    (hv : verifyDevice st h ⟨terminal⟩ ⟨dog⟩ = .ok u) :
    jsonCaller st h b = some ⟨dog⟩ := by
  unfold jsonCaller
  rw [hd, ht]
  exact if_pos (by rw [hv]; rfl)

theorem handled_mediaReady (h : HeaderMap) (i : Uuid) (b : JsonBody) :
    (mediaReady st h i b).Yields (exec st) κ w
      (fun _ w' => Handled st κ n w'.nextUuid w (.mediaReady h i b) w'.ledger) := by
  unfold mediaReady
  simp only [setMediaReady, sql, Prog.op_bind, Prog.pure_eq]
  cases hd : st.formats.parseUuid b.dogId with
  | none => exact .done (.aside _ rfl)
  | some dog =>
  cases ht : st.formats.parseUuid b.terminalId with
  | none => exact .done (.aside _ rfl)
  | some terminal =>
  dsimp only
  cases hv : verifyDevice st h ⟨terminal⟩ ⟨dog⟩ with
  | error s => exact .done (.aside _ rfl)
  | ok u =>
  refine .call (fun marked w₁ h₁ => ?_)
  obtain ⟨hm, l₁⟩ := setMediaReady_step h₁
  cases marked with
  | none =>
    refine .done ?_
    rcases SessionStore.setMediaReady_cases w.data.sessions ⟨i⟩ ⟨dog⟩ (b.ready.getD true) with
      ⟨hs, -⟩ | ⟨_, _, _, _, _, _, _, hs, _⟩
    · rw [l₁, show w.ledger.sessions = w.data.sessions from rfl, hs]
      exact .aside _ rfl
    · rw [show w.ledger.sessions = w.data.sessions from rfl, hs] at hm
      cases hm
  | some m =>
    obtain ⟨both, x⟩ := m
    refine save_yields (fun _ w₂ l₂ => .done ?_)
    rw [l₂, l₁]
    exact .marked (jsonCaller_eq hd ht hv) (Prod.ext hm.symm rfl)

theorem handled_again (h : HeaderMap) (i : Uuid) (b : JsonBody) :
    (again st h i b).Yields (exec st) κ w (fun _ w' => Handled st κ n w'.nextUuid w (.again h i b) w'.ledger) := by
  unfold again
  simp only [sessionsGet, policiesGet, policiesEnsure, utcNow, sessionsUpdate, sql, Prog.op_bind, Prog.pure_eq]
  cases hd : st.formats.parseUuid b.dogId with
  | none => exact .done (.aside _ rfl)
  | some dog =>
  cases ht : st.formats.parseUuid b.terminalId with
  | none => exact .done (.aside _ rfl)
  | some terminal =>
  dsimp only
  cases hv : verifyDevice st h ⟨terminal⟩ ⟨dog⟩ with
  | error s => exact .done (.aside _ rfl)
  | ok u =>
  refine .call (fun found w₁ h₁ => ?_)
  have l₁ := aside_step (c := .sessionsGet ⟨i⟩) trivial h₁
  have hfound : w.data.sessions.get ⟨i⟩ = found := congrArg Prod.fst h₁
  cases found with
  | none => exact .done (l₁ ▸ .aside _ rfl)
  | some x =>
  dsimp only
  split
  · exact .done (l₁ ▸ .aside _ rfl)
  rename_i hparty
  refine .call (fun pol w₂ h₂ => .call (fun now w₃ h₃ => ?_))
  have l₂ := (aside_step (c := .policiesEnsure ⟨dog⟩) trivial h₂).trans l₁
  have l₃ := (aside_step (c := .utcNow) trivial h₃).trans l₂
  have hnow : κ 2 = now := congrArg Prod.fst h₃
  have hpol : pol = w.data.policies.current ⟨dog⟩ :=
    (ensure_step h₂).trans (congrFun (congrArg Ledger.policies l₁) _)
  cases hext : extendSegment now pol.segmentSec x.maxEndAt with
  | none => exact .done (l₃ ▸ .aside _ rfl)
  | some deadline =>
  refine .call (fun updated w₄ h₄ => ?_)
  obtain ⟨hup, l₄⟩ := update_step h₄
  rw [l₃] at hup l₄
  have hx : updated = some { x with segmentDeadlineAt := deadline } := by
    rw [hup, SessionStore.update_fst, show w.ledger.sessions.get ⟨i⟩ = some x from hfound]
    rfl
  subst hx
  refine save_yields (fun _ w₅ l₅ => .done ?_)
  rw [l₅, l₄]
  refine .renewed (jsonCaller_eq hd ht hv) hfound ?_ (hnow ▸ hpol ▸ hext)
  simp only [Bool.and_eq_true, decide_eq_true_eq, not_and_or, ne_eq, not_not] at hparty
  exact hparty

theorem handled_endSession (h : HeaderMap) (i : Uuid) (b : EndSessionRequest) :
    (endSession st h i b).Yields (exec st) κ w
      (fun _ w' => Handled st κ n w'.nextUuid w (.endSession h i b) w'.ledger) := by
  unfold endSession
  simp only [sessionsGet, sessionsEnd, sql, Prog.op_bind, Prog.pure_eq]
  cases verifyDevice st h b.terminalId b.dogId with
  | error s => exact .done (.aside _ rfl)
  | ok u =>
  refine .call (fun found w₁ h₁ => ?_)
  have l₁ := aside_step (c := .sessionsGet ⟨i⟩) trivial h₁
  have hfound : w.data.sessions.get ⟨i⟩ = found := congrArg Prod.fst h₁
  cases found with
  | none => exact .done (l₁ ▸ .aside _ rfl)
  | some x =>
  dsimp only
  split
  · exact .done (l₁ ▸ .aside _ rfl)
  rename_i hparty
  simp only [Bool.and_eq_true, decide_eq_true_eq, not_and_or, ne_eq, not_not] at hparty
  refine .call (fun again w₂ h₂ => ?_)
  have l₂ := (aside_step (c := .sessionsGet ⟨i⟩) trivial h₂).trans l₁
  have hend : ∀ κ' w₃, w₃.ledger = w.ledger → (Prog.call (Call.sessionsEnd ⟨i⟩) fun _ =>
      if st.pool = true then Prog.call (Call.sql (.deleteSession ⟨i⟩)) fun _ => Prog.done (Reply.status .noContent)
      else Prog.done (Reply.status .noContent)).Yields (exec st) κ' w₃
        (fun _ w' => Handled st κ n w'.nextUuid w (.endSession h i b) w'.ledger) := by
    intro κ' w₃ l₃
    refine .call (fun _ w₄ h₄ => save_yields (fun _ w₅ l₅ => .done ?_))
    rw [l₅, end_step h₄, l₃]
    exact .ended hfound hparty
  cases again with
  | none => exact hend _ _ l₂
  | some y => exact publishMany_yields (fun _ _ l₃ => hend _ _ (l₃.trans l₂))

theorem handled_stewardEstop (h : HeaderMap) (d : DogId) (on : Bool) :
    (stewardEstop st h d on).Yields (exec st) κ w
      (fun _ w' => Handled st κ n w'.nextUuid w (.stewardEstop h d on) w'.ledger) := by
  unfold stewardEstop
  simp only [setEstop, policiesGet, policiesEnsure, policiesSet, sessionsForDog, sessionsEnd, sql, Prog.call_bind,
    Prog.done_bind, Prog.op_eq, Prog.pure_eq]
  cases verifySteward st h with
  | error s => exact .done (.aside _ rfl)
  | ok u =>
  refine .call (fun p w₁ h₁ => .call (fun _ w₂ h₂ => ?_))
  have l₂ : w₂.ledger = w.ledger.setPolicy { w.data.policies.current d with emergencyStop := on } := by
    rw [setPolicy_step h₂, aside_step (c := .policiesEnsure d) trivial h₁, ensure_step h₁]
  refine savePolicy_yields (fun _ w₃ l₃ => ?_)
  rw [l₂] at l₃
  cases on with
  | false => exact .done (l₃ ▸ .estopSet)
  | true =>
  refine .call (fun found w₄ h₄ => ?_)
  have l₄ := (aside_step (c := .sessionsForDog d) trivial h₄).trans l₃
  cases found with
  | none => exact .done (l₄ ▸ .estopSet)
  | some x =>
    refine .call (fun _ w₅ h₅ => save_yields (fun _ w₆ l₆ => .done ?_))
    rw [l₆, end_step h₅, l₄]
    exact .stopped

theorem handled_stewardSocial (h : HeaderMap) (d : DogId) (on : Bool) :
    (stewardSocial st h d on).Yields (exec st) κ w
      (fun _ w' => Handled st κ n w'.nextUuid w (.stewardSocial h d on) w'.ledger) := by
  unfold stewardSocial
  simp only [setSocialDisabled, policiesGet, policiesEnsure, policiesSet, sql, Prog.call_bind, Prog.op_eq,
    Prog.pure_eq]
  cases verifySteward st h with
  | error s => exact .done (.aside _ rfl)
  | ok u =>
  refine .call (fun p w₁ h₁ => .call (fun _ w₂ h₂ => ?_))
  have l₂ : w₂.ledger = w.ledger.setPolicy { w.data.policies.current d with socialDisabled := on } := by
    rw [setPolicy_step h₂, aside_step (c := .policiesEnsure d) trivial h₁, ensure_step h₁]
  refine savePolicy_yields (fun _ w₃ l₃ => .done ?_)
  rw [l₃, l₂]
  exact .socialSet

theorem handled_stewardPolicy (h : HeaderMap) (b : StewardPolicyBody) :
    (stewardPolicy st h b).Yields (exec st) κ w
      (fun _ w' => Handled st κ n w'.nextUuid w (.stewardPolicy h b) w'.ledger) := by
  unfold stewardPolicy
  simp only [policiesGet, policiesEnsure, policiesSet, sql, Prog.op_bind, Prog.pure_eq]
  cases hs : verifySteward st h with
  | error s => exact .done (.aside _ rfl)
  | ok u =>
  refine .call (fun p w₁ h₁ => ?_)
  have l₁ := aside_step (c := .policiesEnsure b.dogId) trivial h₁
  have hset : ∀ u, Handled st κ n u w (.stewardPolicy h b) (w.ledger.setPolicy (b.apply p)) := by
    rw [ensure_step h₁]
    exact fun _ => .policySet hs
  cases hp : st.pool with
  | false =>
    refine .call (fun _ w₂ h₂ => .done ?_)
    rw [setPolicy_step h₂, l₁]
    exact hset _
  | true =>
    refine .call (fun _ w₂ h₂ => .call (fun _ w₃ h₃ => .done ?_))
    rw [setPolicy_step h₃, aside_step (c := .sql (.savePolicy _)) trivial h₂, l₁]
    exact hset _

theorem handled_cancelInvite (h : HeaderMap) (i : Uuid) (b : JsonBody) :
    (cancelInvite st h i b).Yields (exec st) κ w
      (fun _ w' => Handled st κ n w'.nextUuid w (.cancelInvite h i b) w'.ledger) := by
  unfold cancelInvite
  simp only [invitesGet, invitesClose, sql, Prog.op_bind, Prog.pure_eq]
  cases hd : st.formats.parseUuid b.dogId with
  | none => exact .done (.aside _ rfl)
  | some dog =>
  dsimp only
  cases extractDeviceToken st h with
  | error s => exact .done (.aside _ rfl)
  | ok p =>
  dsimp only
  split
  · exact .done (.aside _ rfl)
  refine .call (fun found w₁ h₁ => ?_)
  have l₁ := aside_step (c := .invitesGet ⟨i⟩) trivial h₁
  have hfound : w.data.invites.get ⟨i⟩ = found := congrArg Prod.fst h₁
  cases found with
  | none => exact .done (l₁ ▸ .aside _ rfl)
  | some inv =>
  dsimp only
  split
  · exact .done (l₁ ▸ .aside _ rfl)
  rename_i hparty
  refine .call (fun _ w₂ h₂ => save_yields (fun _ w₃ l₃ => .done ?_))
  rw [l₃, close_step h₂, l₁]
  refine .cancelled hd hfound ?_
  simp only [Bool.and_eq_true, decide_eq_true_eq, not_and_or, ne_eq, not_not] at hparty
  exact hparty

theorem handled_incomingInvite (h : HeaderMap) (q : DeviceQuery) (hn : 1 ≤ n) :
    (incomingInvite st h q).Yields (exec st) κ w
      (fun _ w' => Handled st κ n w'.nextUuid w (.incomingInvite h q) w'.ledger) := by
  unfold incomingInvite
  simp only [utcNow, expireDue, policiesGet, policiesEnsure, incomingFor, Prog.op_bind, Prog.pure_eq]
  cases verifyDevice st h q.terminalId q.dogId with
  | error s => exact .done (.aside _ rfl)
  | ok u =>
  refine .call (fun pol w₁ h₁ => ?_)
  have l₁ := aside_step (c := .policiesEnsure q.dogId) trivial h₁
  split
  · exact .done (l₁ ▸ .aside _ rfl)
  refine .call (fun now w₂ h₂ => .call (fun _ w₃ h₃ => .call (fun _ w₄ h₄ => .done ?_)))
  have hnow : κ 1 = now := congrArg Prod.fst h₂
  rw [aside_step (c := .incomingFor q.dogId) trivial h₄, expire_step h₃, aside_step (c := .utcNow) trivial h₂, l₁,
    ← hnow]
  exact .swept rfl rfl hn

theorem handled_acceptInvite (h : HeaderMap) (i : Uuid) (b : JsonBody) :
    (acceptInviteHandler st h i b).Yields (exec st) κ w
      (fun _ w' => Handled st κ n w'.nextUuid w (.acceptInvite h i b) w'.ledger) := by
  unfold acceptInviteHandler
  simp only [utcNow, expireDue, policiesGet, policiesEnsure, invitesGet, isPresent, newUuid, invitesClose,
    sessionsInsert, sql, Prog.op_bind, Prog.pure_eq]
  cases hd : st.formats.parseUuid b.dogId with
  | none => exact .done (.aside _ rfl)
  | some dog =>
  cases ht : st.formats.parseUuid b.terminalId with
  | none => exact .done (.aside _ rfl)
  | some terminal =>
  dsimp only
  cases hv : verifyDevice st h ⟨terminal⟩ ⟨dog⟩ with
  | error s => exact .done (.aside _ rfl)
  | ok u =>
  refine .call (fun now w₁ h₁ => .call (fun pol w₂ h₂ => ?_))
  obtain rfl : κ 0 = now := congrArg Prod.fst h₁
  have l₁ := aside_step (c := .utcNow) trivial h₁
  have l₂ := (aside_step (c := .policiesEnsure ⟨dog⟩) trivial h₂).trans l₁
  have hpol : pol = w.data.policies.current ⟨dog⟩ := (ensure_step h₂).trans (congrFun (congrArg Ledger.policies l₁) _)
  cases hs : socialAllowed pol (κ 0) with
  | error e => exact .done (l₂ ▸ .aside _ rfl)
  | ok u =>
  refine .call (fun _ w₃ h₃ => .call (fun found w₄ h₄ => ?_))
  have l₃ : w₃.ledger = w.ledger.expire (κ 0) := by rw [expire_step h₃, l₂]
  have l₄ := (aside_step (c := .invitesGet ⟨i⟩) trivial h₄).trans l₃
  cases found with
  | none => exact .done (l₄ ▸ .swept rfl rfl (Nat.zero_le _))
  | some inv =>
  have hget : w.data.invites.get ⟨i⟩ = some inv := by
    have hf : w₃.ledger.invites ⟨i⟩ = some inv := congrArg Prod.fst h₄
    rw [l₃] at hf
    exact (Option.filter_eq_some_iff.1 hf).1
  refine .call (fun present w₅ h₅ => .call (fun sessionId w₆ h₆ => ?_))
  have l₆ := (aside_step (c := .newUuid) trivial h₆).trans
    ((aside_step (c := .isPresent ⟨dog⟩ (κ 0)) trivial h₅).trans l₄)
  have hpresent : w.data.presence.isPresent ⟨dog⟩ (κ 0) = present := by
    rw [← scene_presence (c := .utcNow) trivial h₁, ← scene_presence (c := .policiesEnsure ⟨dog⟩) trivial h₂,
      ← expireDue_presence h₃, ← scene_presence (c := .invitesGet ⟨i⟩) trivial h₄]
    exact congrArg Prod.fst h₅
  obtain ⟨hid, hdrawn⟩ := newUuid_step h₆
  have hlow : w.nextUuid ≤ sessionId := hid ▸ (nextUuid_step h₁).trans ((nextUuid_step h₂).trans
    ((nextUuid_step h₃).trans ((nextUuid_step h₄).trans (nextUuid_step h₅))))
  -- the id stays drawn until the request ends
  refine .given (Prog.yields_of_step (I := fun w => sessionId < w.nextUuid)
    (fun t c w h => Nat.lt_of_lt_of_le h (nextUuid_mono c)) _ hdrawn) ?_
  cases ha : acceptInvite ⟨sessionId⟩ inv ⟨dog⟩ present (κ 0) with
  | none => exact .done (fun _ => l₆ ▸ .swept rfl rfl (Nat.zero_le _))
  | some checked =>
  cases checked with
  | error e => exact .done (fun _ => l₆ ▸ .swept rfl rfl (Nat.zero_le _))
  | ok session =>
  dsimp only
  cases hmax : (seconds (asI64 pol.maxSessionSec)).bind (κ 0).plus with
  | none => exact .done (fun _ => l₆ ▸ .swept rfl rfl (Nat.zero_le _))
  | some maxEndAt =>
  cases hseg : (seconds (asI64 pol.segmentSec)).bind (κ 0).plus with
  | none => exact .done (fun _ => l₆ ▸ .swept rfl rfl (Nat.zero_le _))
  | some segmentDeadlineAt =>
  obtain ⟨hcheck, hid, hinv, hA, hB, hstart⟩ := acceptInvite_ok ha
  have hthrough : acceptThrough st w (κ 0) h i b = some (⟨dog⟩, inv) := by
    unfold acceptThrough
    rw [jsonCaller_eq hd ht hv, hget]
    refine if_pos ?_
    rw [← hpol, hs, hpresent, hcheck]
    rfl
  have hbegins : Begins w (κ 0) ⟨dog⟩ inv { session with state := .negotiating, maxEndAt, segmentDeadlineAt } :=
    ⟨hinv, hA, hB, rfl, hstart, hpol ▸ hmax, hpol ▸ hseg⟩
  refine .call (fun _ w₇ h₇ => .call (fun inserted w₈ h₈ => ?_))
  have l₇ := close_step h₇
  rw [l₆] at l₇
  have h₈ := sessionsInsert_step h₈
  rw [l₇] at h₈
  cases inserted with
  | error e =>
    obtain ⟨hclash, l₈⟩ := h₈
    exact .done (fun _ => l₈ ▸ .clashed hthrough hbegins hclash)
  | ok u =>
    obtain ⟨s, hins, l₈⟩ := h₈
    refine save_twice_yields (fun _ w₉ l₉ => publishMany_yields (fun _ w₁₀ l₁₀ => .done (fun hu => ?_)))
    rw [l₁₀, l₉, l₈]
    exact .began hthrough hbegins (by rw [hid]; exact ⟨hlow, hu⟩) hins

/-! ## create_invite -/

theorem invitesInsert_step {inv : Invite} {r : Except String Unit} (h : exec st t (.invitesInsert inv) w = (r, w')) :
    w'.ledger = if r.isOk then w.ledger.ring inv else w.ledger := by
  rw [ledger_step h, ledger_exec]
  simp only [h]

theorem busy_yields (d : DogId) : (busy d).Yields (exec st) κ w (fun r w' =>
    w' = w ∧ r = ((w.data.invites.forDog d).isSome || (w.data.sessions.forDog d).isSome)) := by
  unfold busy
  simp only [invitesForDog, sessionsForDog, Prog.op_bind, Prog.pure_eq]
  refine .call (fun found w₁ h₁ => ?_)
  obtain rfl : w = w₁ := congrArg Prod.snd h₁
  have hf : w.data.invites.forDog d = found := congrArg Prod.fst h₁
  rw [hf]
  cases found with
  | some inv => exact .done ⟨rfl, rfl⟩
  | none =>
    refine .call (fun x w₂ h₂ => .done ⟨(congrArg Prod.snd h₂).symm, ?_⟩)
    rw [← show w.data.sessions.forDog d = x from congrArg Prod.fst h₂]
    rfl

theorem invitesLastHour_expireDue (ord : IterOrder) (s : InviteStore) (now now' : DateTime) (d : DogId) :
    ((s.expireDue ord now).2.invitesLastHour d now').1 = (s.invitesLastHour d now').1 := by
  unfold InviteStore.invitesLastHour
  rw [show (s.expireDue ord now).2.inviteTimes = s.inviteTimes from
    InviteStore.inviteTimes_closeAll _ _]
  split <;> rfl

theorem expireDue_invites {now : DateTime} {r : List Invite} (h : exec st t (.expireDue now) w = (r, w')) :
    w'.data.invites = (w.data.invites.expireDue st.order now).2 := by
  have : w' = (exec st t (.expireDue now) w).2 := by rw [h]
  rw [this]
  rfl

theorem ensure_invites {d : DogId} {p : DogPolicy} (h : exec st t (.policiesEnsure d) w = (p, w')) :
    w'.data.invites = w.data.invites := by
  have : w' = (exec st t (.policiesEnsure d) w).2 := by rw [h]
  rw [this]
  rfl

theorem free_of_not_busy {now : DateTime} {d : DogId} (l' : w'.ledger = w.ledger.expire now)
    (v' : w'.scene = (w.data.presence, w.data.bonds, (w.data.invites.expireDue st.order now).2.forDog))
    (hb : false = ((w'.data.invites.forDog d).isSome || (w'.data.sessions.forDog d).isSome)) :
    (((w.data.invites.expireDue st.order now).2.forDog d).isNone && (w.data.sessions.forDog d).isNone) = true := by
  rw [show w'.data.sessions = w.data.sessions from congrArg Ledger.sessions l',
    show w'.data.invites.forDog = (w.data.invites.expireDue st.order now).2.forDog from
      congrArg (fun v => v.2.2) v'] at hb
  have hb := Bool.or_eq_false_iff.1 hb.symm
  rw [Bool.and_eq_true, Option.isNone_iff_eq_none, Option.isNone_iff_eq_none]
  exact ⟨Option.not_isSome_iff_eq_none.1 (by rw [hb.1]; decide),
    Option.not_isSome_iff_eq_none.1 (by rw [hb.2]; decide)⟩

/-- A new invite is recorded, saved if there is a database, and announced. -/
theorem announced_yields {inv : Invite} {d dog : DogId} {now : DateTime} {ev : DeviceEvent} {reply : Reply}
    {Q : Reply → World → Prop} (hQ : ∀ w', w'.ledger = w.ledger.save st (.saveInvite inv) → Q reply w') :
    (Prog.call (Call.recordInvite d now) fun _ =>
      if st.pool = true then
        Prog.call (Call.sql (.saveInvite inv)) fun _ => Prog.call (Call.sql (.recordInviteEvent d now)) fun _ =>
          Prog.call (Call.publish dog ev) fun _ => Prog.done reply
      else Prog.call (Call.publish dog ev) fun _ => Prog.done reply).Yields (exec st) κ w Q := by
  refine .call (fun _ w₁ h₁ => ?_)
  have l₁ := aside_step (c := .recordInvite d now) trivial h₁
  unfold Ledger.save at hQ
  cases hp : st.pool with
  | false =>
    rw [hp] at hQ
    exact .call (fun _ w₂ h₂ => .done (hQ _ ((aside_step (c := .publish dog ev) trivial h₂).trans l₁)))
  | true =>
    rw [hp] at hQ
    refine .call (fun _ w₂ h₂ => .call (fun _ w₃ h₃ => .call (fun _ w₄ h₄ => .done (hQ _ ?_))))
    rw [aside_step (c := .publish dog ev) trivial h₄, aside_step (c := .sql (.recordInviteEvent d now)) trivial h₃,
      sql_step h₂, l₁]
    rfl

theorem handled_createInvite (h : HeaderMap) (b : CreateInviteBody) :
    (createInvite st h b).Yields (exec st) κ w
      (fun _ w' => Handled st κ n w'.nextUuid w (.createInvite h b) w'.ledger) := by
  unfold createInvite
  simp only [utcNow, expireDue, policiesGet, policiesEnsure, invitesLastHour, presentDogIds, isPresent, Api.routeInvite,
    newUuid, invitesInsert, recordInvite, sql, publish, Prog.op_bind, Prog.pure_eq]
  cases hv : verifyDevice st h b.terminalId b.dogId with
  | error s => exact .done (.aside _ rfl)
  | ok u =>
  refine .call (fun now w₁ h₁ => ?_)
  obtain rfl : κ 0 = now := congrArg Prod.fst h₁
  obtain rfl : w = w₁ := congrArg Prod.snd h₁
  refine .call (fun due w₂ h₂ => ?_)
  have l₂ := expire_step h₂
  have v₂ : w₂.scene = (w.data.presence, w.data.bonds, (w.data.invites.expireDue st.order (κ 0)).2.forDog) := by
    rw [← show (exec st _ (.expireDue (κ 0)) w).2 = w₂ from congrArg Prod.snd h₂]
    rfl
  refine .call (fun pol w₃ h₃ => ?_)
  have l₃ := (aside_step (c := .policiesEnsure b.dogId) trivial h₃).trans l₂
  have v₃ := scene_step (c := .policiesEnsure b.dogId) trivial h₃
  have hpol : pol = w.data.policies.current b.dogId := (ensure_step h₃).trans (congrFun (congrArg Ledger.policies l₂) _)
  cases hs : socialAllowed pol (κ 0) with
  | error e => exact .done (l₃ ▸ .swept rfl rfl (Nat.zero_le _))
  | ok u =>
  refine .call (fun count w₄ h₄ => ?_)
  have l₄ := (aside_step (c := .invitesLastHour b.dogId (κ 0)) trivial h₄).trans l₃
  have v₄ := (scene_step (c := .invitesLastHour b.dogId (κ 0)) trivial h₄).trans (v₃.trans v₂)
  have hcount : (w.data.invites.invitesLastHour b.dogId (κ 0)).1 = count := by
    rw [← invitesLastHour_expireDue st.order _ (κ 0), ← expireDue_invites h₂, ← ensure_invites h₃]
    exact congrArg Prod.fst h₄
  cases hr : inviteRateOk count pol.maxInvitesPerHour with
  | error e => exact .done (l₄ ▸ .swept rfl rfl (Nat.zero_le _))
  | ok u =>
  refine .bindLater ((busy_yields b.dogId).mono ?_)
  rintro callerBusy w₅ ⟨hw₅, hbusy⟩ m
  subst hw₅
  cases callerBusy with
  | true => exact .done (l₄ ▸ .swept rfl rfl (Nat.zero_le _))
  | false =>
  refine .call (fun presentIds w₆ h₆ => .call (fun callerPresent w₇ h₇ => .call (fun routed w₈ h₈ => ?_)))
  obtain rfl : w₅ = w₆ := congrArg Prod.snd h₆
  obtain rfl : w₅ = w₇ := congrArg Prod.snd h₇
  obtain rfl : w₅ = w₈ := congrArg Prod.snd h₈
  cases routed with
  | error e => exact .done (l₄ ▸ .swept rfl rfl (Nat.zero_le _))
  | ok peer =>
  refine .call (fun peerPol w₉ h₉ => ?_)
  have l₉ := (aside_step (c := .policiesEnsure peer) trivial h₉).trans l₄
  have v₉ := (scene_step (c := .policiesEnsure peer) trivial h₉).trans v₄
  have hpeerPol : peerPol = w.data.policies.current peer :=
    (ensure_step h₉).trans (congrFun (congrArg Ledger.policies l₄) _)
  cases hps : socialAllowed peerPol (κ 0) with
  | error e => exact .done (l₉ ▸ .swept rfl rfl (Nat.zero_le _))
  | ok u =>
  refine .bindLater ((busy_yields peer).mono ?_)
  rintro peerBusy w₁₀ ⟨hw₁₀, hpeerBusy⟩ m'
  subst hw₁₀
  cases peerBusy with
  | true => exact .done (l₉ ▸ .swept rfl rfl (Nat.zero_le _))
  | false =>
  refine .call (fun created w₁₁ h₁₁ => .call (fun id w₁₂ h₁₂ => ?_))
  have l₁₂ := (aside_step (c := .newUuid) trivial h₁₂).trans ((aside_step (c := .utcNow) trivial h₁₁).trans l₉)
  obtain ⟨hid, hdrawn⟩ := newUuid_step h₁₂
  have hlow : w.nextUuid ≤ id := hid ▸ (nextUuid_step h₂).trans ((nextUuid_step h₃).trans ((nextUuid_step h₄).trans
    ((nextUuid_step h₉).trans (nextUuid_step h₁₁))))
  refine .given (Prog.yields_of_step (I := fun w => id < w.nextUuid)
    (fun t c w h => Nat.lt_of_lt_of_le h (nextUuid_mono c)) _ hdrawn) ?_
  cases hnew : newInvite ⟨id⟩ created b.dogId peer b.mode with
  | none => exact .done (fun _ => l₁₂ ▸ .swept rfl rfl (Nat.zero_le _))
  | some invite =>
  refine .call (fun inserted w₁₃ h₁₃ => ?_)
  have l₁₃ := invitesInsert_step h₁₃
  rw [l₁₂] at l₁₃
  cases inserted with
  | error e => exact .done (fun _ => l₁₃ ▸ .swept rfl rfl (Nat.zero_le _))
  | ok u =>
  obtain ⟨hnewId, hfrom, hto, -, hcreated, hexpires⟩ := newInvite_ok hnew
  have hroute : routeInvite st.order b.dogId b.toDog w.data.bonds (w.data.presence.presentDogIds st.order (κ 0))
      (w.data.presence.isPresent b.dogId (κ 0)) = .ok peer := by
    rw [← show w₅.data.presence = w.data.presence from congrArg Prod.fst v₄,
      ← show w₅.data.bonds = w.data.bonds from congrArg (fun v => v.2.1) v₄,
      show w₅.data.presence.presentDogIds st.order (κ 0) = presentIds from congrArg Prod.fst h₆,
      show w₅.data.presence.isPresent b.dogId (κ 0) = callerPresent from congrArg Prod.fst h₇]
    exact congrArg Prod.fst h₈
  have hthrough : callThrough st w (κ 0) h b = some invite.toDog := by
    unfold callThrough
    simp only [hv, ← hpol, hs, hcount, hr, free_of_not_busy l₄ v₄ hbusy, hroute, ← hpeerPol, hps,
      free_of_not_busy l₉ v₉ hpeerBusy, hto]
    rfl
  refine announced_yields (fun w₁₄ l₁₄ hu => ?_)
  rw [l₁₄, l₁₃]
  have hclock : κ _ = created := congrArg Prod.fst h₁₁
  exact .rang hthrough hfrom (by rw [hnewId]; exact ⟨hlow, hu⟩) ⟨_, hcreated.trans hclock.symm, hclock ▸ hexpires⟩

/-! ## The policy tick -/

theorem dropInvites_yields : ∀ (due : List Invite) {κ : Nat → DateTime} {w : World},
    (dropInvites st due).Yields (exec st) κ w
    (fun _ w' => w'.ledger = w.ledger.dropAll st (due.map (·.id)))
  | [], _, _ => .done rfl
  | inv :: rest, κ, w => by
    unfold dropInvites
    refine save_yields (fun κ' w' l' => (dropInvites_yields rest).mono (fun _ _ h => ?_))
    rw [h, l']
    rfl

theorem tickEnds_yields (now : DateTime) (x : SessionRecord) : (tickEnds now x).Yields (exec st) κ w
    (fun r w' => r = dueToEnd w.ledger.policies now x ∧ w'.ledger = w.ledger) := by
  unfold tickEnds dueToEnd
  simp only [policiesGet, policiesEnsure, Prog.op_bind, Prog.pure_eq]
  refine .call (fun polA w₁ h₁ => ?_)
  have l₁ := aside_step (c := .policiesEnsure x.dogA) trivial h₁
  obtain rfl : polA = w.ledger.policies x.dogA := ensure_step h₁
  by_cases hmax : asU64 (numSeconds (now.since x.startedAt)) ≥ (w.ledger.policies x.dogA).maxSessionSec
  · rw [if_pos hmax]
    exact .done ⟨by simp [hmax], l₁⟩
  rw [if_neg hmax]
  by_cases hseg : (decide (now ≥ x.segmentDeadlineAt) && decide (x.state = .active)) = true
  · rw [if_pos hseg]
    exact .done ⟨by simp [hseg], l₁⟩
  rw [if_neg hseg]
  refine .call (fun polA w₂ h₂ => ?_)
  have l₂ := (aside_step (c := .policiesEnsure x.dogA) trivial h₂).trans l₁
  obtain rfl : polA = w.ledger.policies x.dogA := (ensure_step h₂).trans (congrFun (congrArg Ledger.policies l₁) _)
  by_cases hstop : (w.ledger.policies x.dogA).emergencyStop = true
  · rw [if_pos hstop]
    exact .done ⟨by simp [hstop], l₂⟩
  rw [if_neg hstop]
  refine .call (fun polB w₃ h₃ => .done ⟨?_, (aside_step (c := .policiesEnsure x.dogB) trivial h₃).trans l₂⟩)
  obtain rfl : polB = w.ledger.policies x.dogB := (ensure_step h₃).trans (congrFun (congrArg Ledger.policies l₂) _)
  rw [decide_eq_false hmax, Bool.eq_false_iff.2 hseg, Bool.eq_false_iff.2 hstop]
  rfl

theorem tickSessions_yields (now : DateTime) : ∀ (xs : List SessionRecord) {κ : Nat → DateTime} {w : World},
    (tickSessions st now xs).Yields (exec st) κ w (fun _ w' =>
      w'.ledger = w.ledger.endAll st ((xs.filter (dueToEnd w.ledger.policies now)).map (·.id)))
  | [], _, _ => .done rfl
  | x :: rest, κ, w => by
    unfold tickSessions
    simp only [sessionsEnd, sql, Prog.op_bind]
    refine .bind ((tickEnds_yields now x).mono ?_)
    rintro ends w₁ ⟨rfl, l₁⟩ κ'
    cases hx : dueToEnd w.ledger.policies now x with
    | false =>
      rw [List.filter_cons_of_neg (by simp [hx])]
      have ih := @tickSessions_yields now rest κ' w₁
      rw [l₁] at ih
      exact ih
    | true =>
      rw [List.filter_cons_of_pos hx]
      refine .call (fun _ w₂ h₂ => save_yields (fun κ₃ w₃ l₃ => ?_))
      have l₃ : w₃.ledger = w.ledger.endSession st x.id := by
        rw [l₃, end_step h₂, l₁]
        rfl
      have hpol : w₃.ledger.policies = w.ledger.policies := by
        rw [l₃]
        exact Ledger.save_policies st _ _
      have ih := @tickSessions_yields now rest κ₃ w₃
      rw [hpol, l₃] at ih
      exact ih

/-- **What a tick leaves**: every session of the store is looked at once. -/
theorem policyTick_yields : (policyTick st).Yields (exec st) κ w (fun _ w' => ∃ xs : List SessionRecord,
    (∀ x, x ∈ xs ↔ ∃ id, w.data.sessions.get id = some x) ∧
      w'.ledger = ((w.ledger.expire (κ 0)).dropAll st
        ((w.data.invites.expireDue st.order (κ 0)).1.map (·.id))).endAll st
        ((xs.filter (dueToEnd w.data.policies.current (κ 0))).map (·.id))) := by
  unfold policyTick
  simp only [utcNow, expireDue, sessionsAll, Prog.op_bind, Prog.pure_eq]
  refine .call (fun now w₁ h₁ => .call (fun due w₂ h₂ => ?_))
  obtain rfl : κ 0 = now := congrArg Prod.fst h₁
  obtain rfl : w = w₁ := congrArg Prod.snd h₁
  have hdue : (w.data.invites.expireDue st.order (κ 0)).1 = due := congrArg Prod.fst h₂
  refine .bind ((dropInvites_yields due).mono (fun _ w₃ l₃ κ' => ?_))
  rw [expire_step h₂, ← hdue] at l₃
  refine .call (fun xs w₄ h₄ => .bind ((tickSessions_yields (κ 0) xs).mono (fun _ w₅ l₅ κ'' => .done ?_)))
  have hsessions : w₃.data.sessions = w.data.sessions :=
    (congrArg Ledger.sessions l₃).trans (Ledger.dropAll_sessions st _ _)
  have hpolicies : w₃.ledger.policies = w.data.policies.current :=
    (congrArg Ledger.policies l₃).trans (Ledger.dropAll_policies st _ _)
  have hxs : w₃.data.sessions.all st.order = xs := congrArg Prod.fst h₄
  rw [aside_step (c := .sessionsAll) trivial h₄, hpolicies, l₃] at l₅
  refine ⟨xs, fun x => ?_, l₅⟩
  rw [← hxs, hsessions]
  exact SessionStore.mem_all

theorem handled_policyTick : (policyTick st).Yields (exec st) κ w
      (fun _ w' => Handled st κ n w'.nextUuid w .policyTick w'.ledger) :=
  policyTick_yields.mono (fun _ _ ⟨_, hxs, l'⟩ => l' ▸ .ticked hxs)

/-- A request that does none of the things the ledger records. -/
def Request.plain (r : Request) : Bool :=
  !(r.isCreate || r.isAccept || r.isCancel || r.expires || r.ends || r.isAgain || r.isMediaReady || r.editsPolicy)

theorem makes_aside {r : Request} (hr : r.plain = true) {c : Call} (hc : r.makes c) : c.aside := by
  simp only [Request.plain, Bool.not_eq_true', Bool.or_eq_false_iff] at hr
  obtain ⟨⟨⟨⟨⟨⟨⟨h₁, h₂⟩, h₃⟩, h₄⟩, h₅⟩, h₆⟩, h₇⟩, h₈⟩ := hr
  have htick : r ≠ .policyTick := by
    rintro rfl
    cases h₄
  cases c with
  | sql s => cases s <;> simp_all [Request.makes, Request.writes, Call.aside]
  | _ => simp_all [Request.makes, Call.aside]

theorem isTick_of_plain {r : Request} (hr : r.plain = true) : r.isTick = false := by
  cases r with
  | policyTick => cases hr
  | _ => rfl

theorem handled_plain {r : Request} (hr : r.plain = true) :
    (handle st r).Yields (exec st) κ w (fun _ w' => Handled st κ n w'.nextUuid w r w'.ledger) :=
  (aside_yields ((handle_makes st r).mono (fun _ hc => makes_aside hr hc))).mono
    (fun _ _ h => h ▸ .aside r (isTick_of_plain hr))

theorem eval_of_steps_zero {p : Api Reply} (h : p.steps (exec st) κ w = 0) : (p.eval (exec st) κ w).2 = w := by
  cases p with
  | done a => rfl
  | call c k => cases h

/-- **A request handled alone leaves one of the ledgers `Handled` allows.** -/
theorem handle_handled (r : Request) :
    Handled st κ ((handle st r).steps (exec st) κ w) ((handle st r).eval (exec st) κ w).2.nextUuid w r
      ((handle st r).eval (exec st) κ w).2.ledger := by
  cases r with
  | createInvite h b => exact handled_createInvite h b
  | acceptInvite h i b => exact handled_acceptInvite h i b
  | cancelInvite h i b => exact handled_cancelInvite h i b
  | endSession h i b => exact handled_endSession h i b
  | mediaReady h i b => exact handled_mediaReady h i b
  | again h i b => exact handled_again h i b
  | stewardEstop h d on => exact handled_stewardEstop h d on
  | stewardSocial h d on => exact handled_stewardSocial h d on
  | stewardPolicy h b => exact handled_stewardPolicy h b
  | policyTick => exact handled_policyTick
  | incomingInvite h q =>
    cases hs : (handle st (.incomingInvite h q)).steps (exec st) κ w with
    | zero =>
      rw [eval_of_steps_zero hs]
      exact .aside _ rfl
    | succ m => exact handled_incomingInvite h q (Nat.succ_le_succ (Nat.zero_le m))
  | _ => exact handled_plain rfl

end

theorem Server.serve_handled (st : AppState) (s : Server) (a : Arrival) :
    Handled st a.clock ((handle st a.req).steps (exec st) a.clock s.world) (s.serve st a).world.nextUuid s.world a.req
      (s.serve st a).world.ledger :=
  handle_handled a.req

end CanisLink
