import CanisLink.Alone
import CanisLink.Deadlines
import CanisLink.McuEmu
import CanisLink.Routing
/-!
# Connect — a press of a pad brings two dogs together

What the agents and device-api must come to when nothing goes wrong: a dog presses a pad, its friend's terminal learns
of the call, the friend presses a pad, and both agents are in contact over one session.  The fleet may have been through
anything before.
-/
namespace CanisLink

open Interleave (Prog Pool)
open Api

/-! ## The handlers -/

section

variable {st : AppState} {w : World} {κ : Nat → DateTime} {t : DateTime}

/-- A call that answers with an invite has put it in the store. -/
theorem createInvite_stores (h : HeaderMap) (b : CreateInviteBody) : (createInvite st h b).Yields (exec st) κ w
    (fun r w' => ∀ inv, r = .created inv → w'.data.invites.get inv.id = some inv ∧ inv.fromDog = b.dogId ∧
      inv.state = .ringing) := by
  unfold createInvite
  simp only [utcNow, expireDue, policiesGet, policiesEnsure, invitesLastHour, presentDogIds, isPresent, Api.routeInvite,
    newUuid, invitesInsert, recordInvite, sql, publish, Prog.op_bind, Prog.pure_eq]
  cases verifyDevice st h b.terminalId b.dogId with
  | error s => exact .done (fun _ e => by cases e)
  | ok u =>
  refine .call (fun now _ _ => .call (fun _ _ _ => .call (fun pol _ _ => ?_)))
  cases socialAllowed pol now with
  | error e => exact .done (fun _ e => by cases e)
  | ok u =>
  refine .call (fun count _ _ => ?_)
  cases inviteRateOk count pol.maxInvitesPerHour with
  | error e => exact .done (fun _ e => by cases e)
  | ok u =>
  refine busy_bind (fun _ _ => .done (fun _ e => by cases e)) (fun _ => ?_)
  refine .call (fun _ _ _ => .call (fun _ _ _ => .call (fun routed _ _ => ?_)))
  cases routed with
  | error e => exact .done (fun _ e => by cases e)
  | ok peer =>
  refine .call (fun peerPol _ _ => ?_)
  cases socialAllowed peerPol now with
  | error e => exact .done (fun _ e => by cases e)
  | ok u =>
  refine busy_bind (fun _ _ => .done (fun _ e => by cases e)) (fun _ => ?_)
  refine .call (fun created _ _ => .call (fun id _ _ => ?_))
  cases hnew : newInvite ⟨id⟩ created b.dogId peer b.mode with
  | none => exact .done (fun _ e => by cases e)
  | some invite =>
  obtain ⟨-, hfrom, -, hstate, -, -⟩ := newInvite_ok hnew
  refine .call (fun inserted w₁ h₁ => ?_)
  have l₁ := invitesInsert_step h₁
  cases inserted with
  | error e => exact .done (fun _ e => by cases e)
  | ok u =>
  refine announced_yields (fun w' l' => ?_)
  rintro inv ⟨⟩
  refine ⟨?_, hfrom, hstate⟩
  rw [show w'.data.invites.get = w'.ledger.invites from rfl, l', Ledger.save_invites, l₁]
  exact if_pos rfl

/-- What a media report answers and leaves, if the store takes it. -/
theorem mediaReady_marks {h : HeaderMap} {i : Uuid} {b : JsonBody} {dog : DogId} {both : Bool} {x : SessionRecord}
    {s : SessionStore} (hcaller : jsonCaller st h b = some dog)
    (hset : w.data.sessions.setMediaReady ⟨i⟩ dog (b.ready.getD true) = (some (both, x), s)) :
    (mediaReady st h i b).Yields (exec st) κ w (fun r w' => r = .media both x ∧ w'.data.sessions = s) := by
  unfold mediaReady
  simp only [setMediaReady, sql, Prog.op_bind, Prog.pure_eq]
  unfold jsonCaller at hcaller
  cases hd : st.formats.parseUuid b.dogId with
  | none => simp [hd] at hcaller
  | some d =>
  cases ht : st.formats.parseUuid b.terminalId with
  | none => simp [hd, ht] at hcaller
  | some terminal =>
  rw [hd, ht] at hcaller
  dsimp only at hcaller ⊢
  cases hv : verifyDevice st h ⟨terminal⟩ ⟨d⟩ with
  | error e => simp [hv, Except.isOk, Except.toBool] at hcaller
  | ok u =>
  obtain rfl : (⟨d⟩ : DogId) = dog := by simpa [hv, Except.isOk, Except.toBool] using hcaller
  refine .call (fun marked w₁ h₁ => ?_)
  obtain ⟨hm, l₁⟩ := setMediaReady_step h₁
  rw [show w.ledger.sessions = w.data.sessions from rfl, hset] at hm l₁
  subst hm
  refine save_yields (fun _ w₂ l₂ => .done ⟨rfl, ?_⟩)
  rw [show w₂.data.sessions = w₂.ledger.sessions from rfl, l₂, Ledger.save_sessions, l₁]
  rfl

/-- What a device that asks for invites is offered: what rings for its dog, once the expired invites are gone. -/
theorem incomingInvite_offers {h : HeaderMap} {q : DeviceQuery} (hv : verifyDevice st h q.terminalId q.dogId = .ok ())
    (hpol : ((w.data.policies.current q.dogId).emergencyStop || (w.data.policies.current q.dogId).socialDisabled) =
      false) :
    (incomingInvite st h q).Yields (exec st) (fun _ => t) w (fun r w' =>
      r = .offer (((w.data.invites.expireDue st.order t).2.incomingFor q.dogId).map (fun inv => (inv, {}))) ∧
      w'.data.sessions = w.data.sessions ∧ ∀ k, w'.data.invites.get k = (w.ledger.expire t).invites k) := by
  unfold incomingInvite
  rw [hv]
  simp only [utcNow, expireDue, policiesGet, policiesEnsure, incomingFor, Prog.op_bind, Prog.pure_eq]
  refine .call (fun pol w₁ h₁ => ?_)
  obtain rfl : pol = w.data.policies.current q.dogId := ensure_step h₁
  have l₁ := aside_step (c := .policiesEnsure q.dogId) trivial h₁
  have i₁ := ensure_invites h₁
  rw [if_neg (by rw [hpol]; decide)]
  refine .call (fun now w₂ h₂ => .call (fun _ w₃ h₃ => .call (fun found w₄ h₄ => .done ?_)))
  obtain rfl : t = now := congrArg Prod.fst h₂
  obtain rfl : w₁ = w₂ := congrArg Prod.snd h₂
  obtain rfl : w₃ = w₄ := congrArg Prod.snd h₄
  have l₃ : w₃.ledger = w.ledger.expire t := by rw [expire_step h₃, l₁]
  refine ⟨?_, congrArg Ledger.sessions l₃, fun k => congrFun (congrArg Ledger.invites l₃) k⟩
  rw [← show (exec st _ (.incomingFor q.dogId) w₃).1 = found from congrArg Prod.fst h₄]
  show Reply.offer ((w₃.data.invites.incomingFor q.dogId).map _) = _
  rw [expireDue_invites h₃, i₁]

theorem activeSession_eval {h : HeaderMap} {q : DeviceQuery} (hv : verifyDevice st h q.terminalId q.dogId = .ok ())
    (κ : Nat → DateTime) (w : World) :
    (activeSession st h q).eval (exec st) κ w = (.active (w.data.sessions.forDog q.dogId), w) := by
  unfold activeSession
  rw [hv]
  rfl

theorem EdgeAgent.jsonCaller_own (hF : st.formats.LawfulIds) {a : EdgeAgent}
    (hv : verifyDevice st (a.authHeader st.formats) a.cfg.terminalId a.cfg.dogId = .ok ()) (ready : Option Bool) :
    jsonCaller st (a.authHeader st.formats) (a.jsonBody st.formats ready) = some a.cfg.dogId :=
  jsonCaller_eq (hF.parse_uuid _) (hF.parse_uuid _) hv

end

/-! ## The stores on the way -/

/-- An invite rings between two dogs that are in no session. -/
structure Rung (w : World) (caller callee : DogId) (inv : Invite) : Prop where
  consistent : w.Consistent
  stored : w.data.invites.get inv.id = some inv
  fromDog : inv.fromDog = caller
  toDog : inv.toDog = callee
  state : inv.state = .ringing
  free : caller ∉ w.data.sessions.byDog ∧ callee ∉ w.data.sessions.byDog

/-- A session of two dogs with its media flags. -/
structure Met (w : World) (caller callee : DogId) (x : SessionRecord) (e : SessionExtra) : Prop where
  consistent : w.Consistent
  stored : w.data.sessions.get x.id = some x
  dogA : x.dogA = caller
  dogB : x.dogB = callee
  flags : w.data.sessions.media.lookup x.id = some e

section

variable {st : AppState} {s : Server} {t : DateTime} {caller callee : DogId} {inv : Invite} {x : SessionRecord}

theorem SessionStore.Pointed.notMem {s : SessionStore} (hs : s.Pointed) {d : DogId} (h : s.forDog d = none) :
    d ∉ s.byDog := by
  intro hmem
  obtain ⟨k, hk⟩ := Option.ne_none_iff_exists'.1 (fun hn => AList.lookup_eq_none.1 hn hmem)
  obtain ⟨x, hx, -⟩ := hs hk
  unfold SessionStore.forDog at h
  rw [hk] at h
  exact absurd (h.symm.trans hx) (by simp)

theorem serve_policies (s : Server) (a : Arrival) (h : a.req.editsPolicy = false) :
    (s.serve st a).world.data.policies.current = s.world.data.policies.current :=
  (Server.serve_handled st s a).policies_eq h

/-- **A call that may be made to a friend that may be called rings.** -/
theorem call_rings {h : HeaderMap} {b : CreateInviteBody} {deadline : DateTime} (hs : s.world.Consistent)
    (hp : s.world.data.sessions.Pointed) (hm : MayCall st s.world t h b) (hno : b.toDog = none)
    (hfriend : strongestPresent st s.world t b.dogId = some callee) (hallowed : Allowed s.world callee t)
    (hfree : Free st s.world t callee) (hring : t.plus (milliseconds RING_TIMEOUT_MS) = some deadline) :
    ∃ inv, ((createInvite st h b).eval (exec st) (fun _ => t) s.world).1 = .created inv ∧ inv.expiresAt = deadline ∧
      Rung (s.serve st ⟨.createInvite h b, fun _ => t⟩).world b.dogId callee inv := by
  obtain ⟨inv, hreply, hto⟩ := (@rings_iff st s.world (fun _ => t) h b callee hm hno).2
    ⟨hfriend, hallowed, hfree, by rw [RingsInTime, hring]; exact Option.some_ne_none _⟩
  obtain ⟨hstored, hfrom, hstate⟩ := @createInvite_stores st s.world (fun _ => t) h b inv hreply
  obtain ⟨left, hcalled⟩ : ∃ left, Called st s.world (fun _ => t) h b (callReply st s.world (fun _ => t) h b) left :=
    ⟨_, createInvite_yields h b⟩
  rw [hreply] at hcalled
  have hexpires : inv.expiresAt = deadline := by
    cases hcalled with
    | created through rings free => exact Option.some.inj (rings.symm.trans hring)
  have hsessions : (s.serve st ⟨.createInvite h b, fun _ => t⟩).world.data.sessions = s.world.data.sessions := by
    have hhandled := Server.serve_handled st s ⟨.createInvite h b, fun _ => t⟩
    show (s.serve st ⟨.createInvite h b, fun _ => t⟩).world.ledger.sessions = _
    generalize (s.serve st ⟨.createInvite h b, fun _ => t⟩).world.ledger = l at hhandled
    cases hhandled with
    | aside => rfl
    | swept => rfl
    | rang => exact Ledger.save_sessions st _ _
  refine ⟨inv, hreply, hexpires, ⟨Server.serve_consistent _ hs, hstored, hfrom, hto, hstate, ?_⟩⟩
  rw [hsessions]
  exact ⟨hp.notMem hm.free.2, hp.notMem hfree.2⟩

/-- **The friend is offered the invite that rings for it.** -/
theorem Rung.offered (hr : Rung s.world caller callee inv) {h : HeaderMap} {q : DeviceQuery} (hq : q.dogId = callee)
    (hv : verifyDevice st h q.terminalId q.dogId = .ok ()) (hallowed : ∃ t', Allowed s.world callee t')
    (hlive : t < inv.expiresAt) :
    ((incomingInvite st h q).eval (exec st) (fun _ => t) s.world).1 = .offer (some (inv, {})) ∧
      Rung (s.serve st ⟨.incomingInvite h q, fun _ => t⟩).world caller callee inv := by
  have hpol : ((s.world.data.policies.current q.dogId).emergencyStop ||
      (s.world.data.policies.current q.dogId).socialDisabled) = false := by
    obtain ⟨t', ht'⟩ := hallowed
    unfold Allowed socialAllowed at ht'
    rw [hq]
    split at ht'
    · cases ht'
    · split at ht'
      · cases ht'
      · simp_all
  obtain ⟨hreply, hsessions, hinvites⟩ := @incomingInvite_offers st s.world t h q hv hpol
  have hkept : ∀ k, (s.world.data.invites.expireDue st.order t).2.get k = (s.world.ledger.expire t).invites k :=
    fun k => InviteStore.get_expireDue _ _ _ _
  have hstill : (s.world.ledger.expire t).invites inv.id = some inv :=
    Option.filter_eq_some_iff.2 ⟨hr.stored, by simpa [isExpired] using hlive⟩
  have hfor : (s.world.data.invites.expireDue st.order t).2.incomingFor q.dogId = some inv := by
    unfold InviteStore.incomingFor InviteStore.forDog
    rw [(hr.consistent.invites.expireDue st.order t).indexed ((hkept _).trans hstill) (.inr (hr.toDog.trans hq.symm))]
    refine Option.filter_eq_some_iff.2 ⟨(hkept _).trans hstill, ?_⟩
    simp [hr.toDog, hq, hr.state]
  refine ⟨by rw [hreply, hfor]; rfl, ⟨Server.serve_consistent _ hr.consistent, (hinvites _).trans hstill, hr.fromDog,
    hr.toDog, hr.state, ?_⟩⟩
  rw [show (s.serve st ⟨.incomingInvite h q, fun _ => t⟩).world.data.sessions = s.world.data.sessions from hsessions]
  exact hr.free

/-- **The friend accepts**: a session of the two dogs begins, no media ready. -/
theorem Rung.accepted (hr : Rung s.world caller callee inv) {h : HeaderMap} {b : JsonBody}
    {maxEndAt segmentDeadlineAt : DateTime} (hcaller : jsonCaller st h b = some callee)
    (hallowed : Allowed s.world callee t) (hpresent : s.world.data.presence.isPresent callee t = true)
    (hlive : t < inv.expiresAt) (hera : InEra t)
    (hmax : (seconds (asI64 (s.world.data.policies.current callee).maxSessionSec)).bind t.plus = some maxEndAt)
    (hseg : (seconds (asI64 (s.world.data.policies.current callee).segmentSec)).bind t.plus = some segmentDeadlineAt) :
    ∃ x role, ((acceptInviteHandler st h inv.id.uuid b).eval (exec st) (fun _ => t) s.world).1 = .accepted x role ∧
      x.state = .negotiating ∧ Met (s.serve st ⟨.acceptInvite h inv.id.uuid b, fun _ => t⟩).world caller callee x
        { mediaA := false, mediaB := false } := by
  have hthrough : acceptThrough st s.world t h inv.id.uuid b = some (callee, inv) := by
    rw [acceptThrough_of_caller hcaller hr.stored, hpresent]
    refine if_pos ?_
    have hcheck : acceptCheck inv callee true t = .ok () := by
      unfold acceptCheck
      rw [if_neg (not_not.2 hr.toDog), if_neg (not_not.2 hr.state), if_neg (by simpa [isExpired] using hlive)]
      rfl
    rw [hcheck, show socialAllowed _ t = .ok () from hallowed]
    rfl
  obtain ⟨x, hx, -, -, -, hA, hB⟩ := acceptedSession_made hthrough hera hmax hseg
  rw [hr.fromDog] at hA
  rw [hr.toDog] at hB
  have hstate : x.state = .negotiating := by
    obtain ⟨_, _, _, _, _, -, -, -, -, -, -, rfl⟩ := acceptedSession_some hx
    rfl
  obtain ⟨store, hins⟩ := SessionStore.insert_free (x := x) (AList.lookup_eq_none.2 (hA ▸ hr.free.1))
    (AList.lookup_eq_none.2 (hB ▸ hr.free.2))
  have hserved : (s.serve st ⟨.acceptInvite h inv.id.uuid b, fun _ => t⟩).world =
      ((acceptInviteHandler st h inv.id.uuid b).eval (exec st) (fun _ => t) s.world).2 := rfl
  have hyields : Accepted st s.world t h inv.id.uuid b
      ((acceptInviteHandler st h inv.id.uuid b).eval (exec st) (fun _ => t) s.world).1
      ((acceptInviteHandler st h inv.id.uuid b).eval (exec st) (fun _ => t) s.world).2.data.sessions :=
    @acceptInvite_yields st s.world (fun _ => t) h inv.id.uuid b
  generalize hreply : ((acceptInviteHandler st h inv.id.uuid b).eval (exec st) (fun _ => t) s.world).1 = reply
    at hyields
  generalize hleft :
    ((acceptInviteHandler st h inv.id.uuid b).eval (exec st) (fun _ => t) s.world).2.data.sessions = left at hyields
  cases hyields with
  | refused guards => cases guards.symm.trans hthrough
  | panicked guards nothing => cases nothing.symm.trans hx
  | clashed session clash =>
    cases session.symm.trans hx
    cases clash.symm.trans hins
  | @began y s' role session inserted =>
    cases session.symm.trans hx
    cases inserted.symm.trans hins
    refine ⟨x, role, rfl, hstate, ⟨Server.serve_consistent _ hr.consistent, ?_, hA, hB, ?_⟩⟩
    · rw [hserved, hleft, SessionStore.get_insert hins, if_pos rfl]
    · rw [hserved, hleft, (SessionStore.insert_ok hins).2.2]
      simp only [HashMap.lookup_insert, if_true]

/-- A dog of the session is told of it when it asks. -/
theorem Met.active {e : SessionExtra} (hm : Met s.world caller callee x e) {h : HeaderMap} {q : DeviceQuery}
    (hq : q.dogId = caller ∨ q.dogId = callee) (hv : verifyDevice st h q.terminalId q.dogId = .ok ()) :
    (activeSession st h q).eval (exec st) (fun _ => t) s.world = (.active (some x), s.world) := by
  have hparty : x.hasDog q.dogId :=
    hq.elim (fun e => .inl (hm.dogA.trans e.symm)) (fun e => .inr (hm.dogB.trans e.symm))
  have hfor : s.world.data.sessions.forDog q.dogId = some x := by
    unfold SessionStore.forDog
    rw [hm.consistent.sessions.indexed hm.stored hparty]
    exact hm.stored
  rw [activeSession_eval hv, hfor]

/-- **A media report marks its side**, and the session is active once both are. -/
theorem Met.marked {e e' : SessionExtra} (hm : Met s.world caller callee x e) {h : HeaderMap} {b : JsonBody}
    {dog : DogId} (hcaller : jsonCaller st h b = some dog) (hready : b.ready = some true)
    (hmark : SessionStore.mark x dog true e = some e') :
    ((mediaReady st h x.id.uuid b).eval (exec st) (fun _ => t) s.world).1 =
        .media (e'.mediaA && e'.mediaB) (SessionStore.promote e' x) ∧
      Met (s.serve st ⟨.mediaReady h x.id.uuid b, fun _ => t⟩).world caller callee (SessionStore.promote e' x) e' := by
  rcases SessionStore.setMediaReady_cases s.world.data.sessions x.id dog true with
    ⟨-, hnone⟩ | ⟨y, f, f', store, hy, hf, hmark', hset, -, hmedia, hget⟩
  · cases (hnone x e hm.stored hm.flags).symm.trans hmark
  · cases hy.symm.trans hm.stored
    cases hf.symm.trans hm.flags
    cases hmark'.symm.trans hmark
    have hset : s.world.data.sessions.setMediaReady ⟨x.id.uuid⟩ dog (b.ready.getD true) =
        (some (e'.mediaA && e'.mediaB, SessionStore.promote e' x), store) := by
      rw [hready]
      exact hset
    obtain ⟨hreply, hstore⟩ := @mediaReady_marks st s.world (fun _ => t) h x.id.uuid b dog _ _ store hcaller hset
    have hserved : (s.serve st ⟨.mediaReady h x.id.uuid b, fun _ => t⟩).world.data.sessions = store := hstore
    refine ⟨hreply, ⟨Server.serve_consistent _ hm.consistent, ?_, by simp [hm.dogA], by simp [hm.dogB], ?_⟩⟩
    · rw [hserved, SessionStore.promote_id, hget, if_pos rfl]
    · rw [hserved, SessionStore.promote_id, hmedia, HashMap.lookup_insert, if_pos rfl]

end

/-! ## The operations -/

/-- The body of a call that names no friend. -/
def EdgeAgent.callBody (a : EdgeAgent) : CreateInviteBody :=
  { mode := .portal, toDog := none, dogId := a.cfg.dogId, terminalId := a.cfg.terminalId }

section

variable {st : AppState} {s : Server} {t : DateTime} {a : EdgeAgent} {inv : Invite} {x y : SessionRecord}

/-- A request that is handled and heard. -/
theorem exchange_yields {α : Type} {r : Request} {k : r.Answer → Edge α} {reply : Reply} {Q : α → Server → Prop}
    (hreply : ((handle st r).eval (exec st) (fun _ => t) s.world).1 = reply)
    (hk : (k (reply.answer r)).Yields (Hop.exec st) (hopAt t) (s.serve st ⟨r, fun _ => t⟩) Q) :
    (Prog.call r k : Edge α).Yields (Hop.exec st) (hopAt t) s Q := by
  subst hreply
  exact hk

/-- A method leaves what its operation leaves. -/
theorem method_yields {α : Type} {p : Edge (α × EdgeAgent)} {Q : EdgeAgent → Server → Prop}
    (h : p.Yields (Hop.exec st) (hopAt t) s (fun r => Q r.2)) :
    (p >>= fun r => pure r.2 : Edge EdgeAgent).Yields (Hop.exec st) (hopAt t) s Q :=
  .bind (h.mono (fun _ _ hr _ => hr))

/-- An intent leaves what the method it comes to leaves. -/
theorem intent_yields {α : Type} {p : Edge (Except EdgeError α × EdgeAgent)} {Q : EdgeAgent → Server → Prop}
    (h : p.Yields (Hop.exec st) (hopAt t) s (fun r => Q r.2)) :
    (p >>= fun r => pure (r.1.map (fun _ => ()), r.2)).Yields (Hop.exec st) (hopAt t) s (fun r => Q r.2) :=
  .bind (h.mono (fun _ _ hr _ => hr))

/-- The agent calls, and its call rings. -/
theorem calls_alone (hux : a.ux = .idlePresent) (harmed : a.socialArmed = true)
    (hreply : ((createInvite st (a.authHeader st.formats) a.callBody).eval (exec st) (fun _ => t) s.world).1 =
      .created inv) :
    ((EdgeOp.handleIntent .call).perform st.formats a).Yields (Hop.exec st) (hopAt t) s (fun a' s' =>
      a' = { a with ux := .ringingOut } ∧
        s' = s.serve st ⟨.createInvite (a.authHeader st.formats) a.callBody, fun _ => t⟩) := by
  refine method_yields ?_
  unfold EdgeAgent.handleIntent
  rw [if_pos ⟨.inl rfl, hux, harmed⟩]
  refine intent_yields (Q := fun a' s' => a' = { a with ux := .ringingOut } ∧
    s' = s.serve st ⟨.createInvite (a.authHeader st.formats) a.callBody, fun _ => t⟩) ?_
  unfold EdgeAgent.call
  rw [harmed]
  simp only [http, Prog.op_bind, Prog.pure_eq, Bool.not_true, Bool.false_eq_true, if_false]
  exact exchange_yields (r := .createInvite (a.authHeader st.formats) a.callBody) hreply ⟨rfl, rfl⟩

/-- The agent asks for invites, and is told of the one that rings. -/
theorem polls_alone {lure : LureConfig} (harmed : a.socialArmed = true)
    (hux : a.ux ≠ .ringingOut ∧ a.ux ≠ .inSession ∧ a.ux ≠ .negotiating)
    (hreply : ((incomingInvite st (a.authHeader st.formats) a.query).eval (exec st) (fun _ => t) s.world).1 =
      .offer (some (inv, lure))) :
    (EdgeOp.pollIncoming.perform st.formats a).Yields (Hop.exec st) (hopAt t) s (fun a' s' =>
      a' = { a with ux := .ringingIn, lastOffer := some (inv, lure) } ∧
        s' = s.serve st ⟨.incomingInvite (a.authHeader st.formats) a.query, fun _ => t⟩) := by
  refine method_yields ?_
  unfold EdgeAgent.pollIncoming
  rw [harmed]
  simp only [http, Prog.op_bind, Prog.pure_eq, Bool.not_true, Bool.false_and, Bool.false_eq_true, if_false]
  refine exchange_yields (r := .incomingInvite (a.authHeader st.formats) a.query) hreply ?_
  show Prog.Yields _ (if _ then _ else _) _ _ _
  rw [if_neg (by decide)]
  dsimp only
  rw [if_pos hux]
  exact ⟨rfl, rfl⟩

/-- The agent reports its media ready for the session it holds. -/
theorem reports_alone {both : Bool} (hx : a.session = some x)
    (hreply : ((mediaReady st (a.authHeader st.formats) x.id.uuid (a.jsonBody st.formats (some true))).eval (exec st)
      (fun _ => t) s.world).1 = .media both y) :
    (a.reportMediaReady st.formats true).Yields (Hop.exec st) (hopAt t) s (fun r s' =>
      r = (.ok (), if y.state = .active ∨ both = true then { a with session := some y, ux := .inSession }
        else { a with session := some y }) ∧
      s' = s.serve st ⟨.mediaReady (a.authHeader st.formats) x.id.uuid (a.jsonBody st.formats (some true)),
        fun _ => t⟩) := by
  unfold EdgeAgent.reportMediaReady
  rw [hx]
  simp only [http, Prog.op_bind, Prog.pure_eq]
  refine exchange_yields (r := .mediaReady (a.authHeader st.formats) x.id.uuid (a.jsonBody st.formats (some true)))
    hreply ?_
  show Prog.Yields _ (if _ then _ else _) _ _ _
  split
  · exact ⟨rfl, rfl⟩
  · exact ⟨rfl, rfl⟩

/-- The agent accepts the invite that rings, and reports its media. -/
theorem accepts_alone {lure : LureConfig} {role : String} (i : Intent) (hux : a.ux = .ringingIn)
    (hoffer : a.lastOffer = some (inv, lure))
    (haccept : ((acceptInviteHandler st (a.authHeader st.formats) inv.id.uuid (a.jsonBody st.formats none)).eval
      (exec st) (fun _ => t) s.world).1 = .accepted x role) {s₁ : Server}
    (hs₁ : s₁ =
      s.serve st ⟨.acceptInvite (a.authHeader st.formats) inv.id.uuid (a.jsonBody st.formats none), fun _ => t⟩)
    (hmedia : ((mediaReady st (a.authHeader st.formats) x.id.uuid (a.jsonBody st.formats (some true))).eval (exec st)
      (fun _ => t) s₁.world).1 = .media false y) (hstate : y.state = .negotiating) :
    ((EdgeOp.handleIntent i).perform st.formats a).Yields (Hop.exec st) (hopAt t) s (fun a' s' =>
      a' = { a with session := some y, lastOffer := none, ux := .negotiating } ∧
        s' = s₁.serve st ⟨.mediaReady (a.authHeader st.formats) x.id.uuid (a.jsonBody st.formats (some true)),
          fun _ => t⟩) := by
  refine method_yields ?_
  unfold EdgeAgent.handleIntent
  rw [if_neg (by rw [hux]; simp), if_pos hux]
  refine intent_yields (Q := fun a' s' => a' = { a with session := some y, lastOffer := none, ux := .negotiating } ∧
    s' = s₁.serve st ⟨.mediaReady (a.authHeader st.formats) x.id.uuid (a.jsonBody st.formats (some true)),
      fun _ => t⟩) ?_
  unfold EdgeAgent.acceptIncoming
  rw [hoffer]
  simp only [http, Prog.op_bind, Prog.pure_eq]
  refine exchange_yields (r := .acceptInvite (a.authHeader st.formats) inv.id.uuid (a.jsonBody st.formats none))
    haccept ?_
  rw [← hs₁]
  have hreported := @reports_alone st s₁ t { a with session := some x, lastOffer := none, ux := .negotiating } x y false
    rfl hmedia
  rw [if_neg (by rw [hstate]; decide)] at hreported
  refine .bind (hreported.mono ?_)
  rintro r s' ⟨rfl, rfl⟩ κ'
  exact ⟨rfl, rfl⟩

/-- The agent finds the session its call has come to, and reports its media. -/
theorem joins_alone
    (hactive : ((activeSession st (a.authHeader st.formats) a.query).eval (exec st) (fun _ => t) s.world).1 =
      .active (some x)) (hstate : x.state ≠ .active) {s₁ : Server}
    (hs₁ : s₁ = s.serve st ⟨.activeSession (a.authHeader st.formats) a.query, fun _ => t⟩)
    (hmedia : ((mediaReady st (a.authHeader st.formats) x.id.uuid (a.jsonBody st.formats (some true))).eval (exec st)
      (fun _ => t) s₁.world).1 = .media true y) :
    (EdgeOp.syncActive.perform st.formats a).Yields (Hop.exec st) (hopAt t) s (fun a' s' =>
      a' = { a with session := some y, ux := .inSession } ∧
        s' = s₁.serve st ⟨.mediaReady (a.authHeader st.formats) x.id.uuid (a.jsonBody st.formats (some true)),
          fun _ => t⟩) := by
  refine method_yields ?_
  unfold EdgeAgent.syncActive
  simp only [http, Prog.op_bind, Prog.pure_eq]
  refine exchange_yields (r := .activeSession (a.authHeader st.formats) a.query) hactive ?_
  rw [← hs₁]
  show Prog.Yields _ (if (if x.state = .active then EdgeUx.inSession else .negotiating) = .negotiating then _ else _)
    _ _ _
  rw [if_pos (if_neg hstate)]
  have hreported := @reports_alone st s₁ t { a with session := some x, ux := .negotiating } x y true rfl hmedia
  rw [if_pos (.inr rfl)] at hreported
  rw [if_neg hstate]
  refine .bind (hreported.mono ?_)
  rintro r s' ⟨rfl, rfl⟩ κ'
  exact ⟨rfl, rfl⟩

/-- The agent finds its session active. -/
theorem syncs_alone
    (hactive : ((activeSession st (a.authHeader st.formats) a.query).eval (exec st) (fun _ => t) s.world).1 =
      .active (some x)) (hstate : x.state = .active) :
    (EdgeOp.syncActive.perform st.formats a).Yields (Hop.exec st) (hopAt t) s (fun a' s' =>
      a' = { a with session := some x, ux := .inSession } ∧
        s' = s.serve st ⟨.activeSession (a.authHeader st.formats) a.query, fun _ => t⟩) := by
  refine method_yields ?_
  unfold EdgeAgent.syncActive
  simp only [http, Prog.op_bind, Prog.pure_eq]
  refine exchange_yields (r := .activeSession (a.authHeader st.formats) a.query) hactive ?_
  show Prog.Yields _ (if (if x.state = .active then EdgeUx.inSession else .negotiating) = .negotiating then _ else _)
    _ _ _
  rw [if_pos hstate, if_neg (by decide)]
  exact ⟨rfl, rfl⟩

end

/-! ## The meeting -/

/-- **Two dogs that may meet**: at `t₁` the first may call, and the second is its strongest friend present, allowed and
free; the agent of the second listens, asks for invites at `t₂` and accepts at `t₃`, before the invite expires. -/
structure MayMeet (st : AppState) (w : World) (a b : EdgeAgent) (t₁ t₂ t₃ : DateTime) : Prop where
  idle : a.ux = .idlePresent
  armed : a.socialArmed = true
  mayCall : MayCall st w t₁ (a.authHeader st.formats) a.callBody
  friend : strongestPresent st w t₁ a.cfg.dogId = some b.cfg.dogId
  other : b.cfg.dogId ≠ a.cfg.dogId
  allowed : Allowed w b.cfg.dogId t₁
  free : Free st w t₁ b.cfg.dogId
  listens : b.socialArmed = true ∧ b.ux ≠ .ringingOut ∧ b.ux ≠ .inSession ∧ b.ux ≠ .negotiating
  verified : verifyDevice st (b.authHeader st.formats) b.cfg.terminalId b.cfg.dogId = .ok ()
  inTime : ∃ deadline ∈ t₁.plus (milliseconds RING_TIMEOUT_MS), t₂ < deadline ∧ t₃ < deadline
  stillAllowed : Allowed w b.cfg.dogId t₃
  stillPresent : w.data.presence.isPresent b.cfg.dogId t₃ = true
  era : InEra t₃
  cap : ((seconds (asI64 (w.data.policies.current b.cfg.dogId).maxSessionSec)).bind t₃.plus).isSome = true
  segment : ((seconds (asI64 (w.data.policies.current b.cfg.dogId).segmentSec)).bind t₃.plus).isSome = true

namespace Fleet

/-- From `f` to `g` only terminal `n` has done something, and neither policies nor presence have changed. -/
structure Beside (f g : Fleet) (n : Nat) : Prop where
  sized : g.Sized
  others : ∀ m, m ≠ n → g.agent m = f.agent m
  policies : g.server.state.data.policies.current = f.server.state.data.policies.current
  presence : g.server.state.data.presence = f.server.state.data.presence

section

variable {st : AppState} {f : Fleet} {n : Nat} {a : EdgeAgent} {t : DateTime} {caller callee : DogId} {inv : Invite}
  {x : SessionRecord}

/-- An operation whose requests edit no policy and report no presence. -/
theorem beside {o : EdgeOp} (as : List Arrival) (hs : f.Sized) (ha : f.agent n = some a) {a' : EdgeAgent}
    (h : (o.perform st.formats a).Yields (Hop.exec st) (hopAt t) ⟨f.server.state, t⟩
      (fun b s => b = a' ∧ s = Server.serveAll st ⟨f.server.state, t⟩ as))
    (has : ∀ r ∈ as, r.req.editsPolicy = false ∧ r.req.isPost = false) :
    f.Beside (f.after st n o (always t)) n ∧ (f.after st n o (always t)).agent n = some a' ∧
      (f.after st n o (always t)).server.state = (Server.serveAll st ⟨f.server.state, t⟩ as).world := by
  obtain ⟨hsized, ⟨b, s, hb, hw, rfl, rfl⟩, hothers⟩ := after_yields hs ha h
  have hkept : ∀ (as : List Arrival) (s : Server), (∀ r ∈ as, r.req.editsPolicy = false ∧ r.req.isPost = false) →
      (s.serveAll st as).world.data.policies.current = s.world.data.policies.current ∧
        (s.serveAll st as).world.data.presence = s.world.data.presence := by
    intro as
    induction as with
    | nil => exact fun _ _ => ⟨rfl, rfl⟩
    | cons r as ih =>
      intro s hr
      obtain ⟨hr, has⟩ := List.forall_mem_cons.1 hr
      obtain ⟨hpolicies, hpresence⟩ := ih (s.serve st r) has
      exact ⟨hpolicies.trans (serve_policies s r hr.1), hpresence.trans (serve_presence_of_not_post s hr.2)⟩
  obtain ⟨hpolicies, hpresence⟩ := hkept as ⟨f.server.state, t⟩ has
  exact ⟨⟨hsized, hothers, by rw [hw, hpolicies], by rw [hw, hpresence]⟩, hb, hw⟩

/-- The call rings. -/
theorem calls (hs : f.Sized) (ha : f.agent n = some a) (hcons : f.server.state.Consistent)
    (hpointed : f.server.state.data.sessions.Pointed) (hux : a.ux = .idlePresent) (harmed : a.socialArmed = true)
    (hmay : MayCall st f.server.state t (a.authHeader st.formats) a.callBody)
    (hfriend : strongestPresent st f.server.state t a.cfg.dogId = some callee)
    (hallowed : Allowed f.server.state callee t) (hfree : Free st f.server.state t callee) {deadline : DateTime}
    (hring : t.plus (milliseconds RING_TIMEOUT_MS) = some deadline) :
    f.Beside (f.after st n (.handleIntent .call) (always t)) n ∧
      (∃ a', (f.after st n (.handleIntent .call) (always t)).agent n = some a' ∧ a'.cfg = a.cfg) ∧
      ∃ inv, inv.expiresAt = deadline ∧
        Rung (f.after st n (.handleIntent .call) (always t)).server.state a.cfg.dogId callee inv := by
  obtain ⟨inv, hcreated, hexpires, hrung⟩ := @call_rings st ⟨f.server.state, t⟩ t callee (a.authHeader st.formats)
    a.callBody deadline hcons hpointed hmay rfl hfriend hallowed hfree hring
  obtain ⟨hbeside, hagent, hworld⟩ := beside
    [⟨.createInvite (a.authHeader st.formats) a.callBody, fun _ => t⟩] hs ha
    (calls_alone hux harmed hcreated) (by simp [Request.editsPolicy, Request.isPost])
  exact ⟨hbeside, ⟨_, hagent, rfl⟩, inv, hexpires, by rw [hworld]; exact hrung⟩

/-- The friend learns of it. -/
theorem polls (hs : f.Sized) (ha : f.agent n = some a) (hrung : Rung f.server.state caller a.cfg.dogId inv)
    (hv : verifyDevice st (a.authHeader st.formats) a.cfg.terminalId a.cfg.dogId = .ok ())
    (hallowed : ∃ t', Allowed f.server.state a.cfg.dogId t') (harmed : a.socialArmed = true)
    (hux : a.ux ≠ .ringingOut ∧ a.ux ≠ .inSession ∧ a.ux ≠ .negotiating) (hlive : t < inv.expiresAt) :
    f.Beside (f.after st n .pollIncoming (always t)) n ∧
      (∃ a' lure, (f.after st n .pollIncoming (always t)).agent n = some a' ∧ a'.cfg = a.cfg ∧ a'.ux = .ringingIn ∧
        a'.lastOffer = some (inv, lure)) ∧
      Rung (f.after st n .pollIncoming (always t)).server.state caller a.cfg.dogId inv := by
  obtain ⟨hoffered, hrung'⟩ := @Rung.offered st ⟨f.server.state, t⟩ t caller a.cfg.dogId inv hrung
    (a.authHeader st.formats) a.query rfl hv hallowed hlive
  obtain ⟨hbeside, hagent, hworld⟩ := beside
    [⟨.incomingInvite (a.authHeader st.formats) a.query, fun _ => t⟩] hs ha
    (polls_alone harmed hux hoffered) (by simp [Request.editsPolicy, Request.isPost])
  exact ⟨hbeside, ⟨_, _, hagent, rfl, rfl, rfl⟩, by rw [hworld]; exact hrung'⟩

/-- It engages: a session begins, its side of which has media. -/
theorem engages (hF : st.formats.LawfulIds) (hs : f.Sized) (ha : f.agent n = some a)
    (hrung : Rung f.server.state caller a.cfg.dogId inv) (hother : a.cfg.dogId ≠ caller)
    (hv : verifyDevice st (a.authHeader st.formats) a.cfg.terminalId a.cfg.dogId = .ok ()) (i : Intent)
    (hux : a.ux = .ringingIn) {lure : LureConfig} (hoffer : a.lastOffer = some (inv, lure))
    (hallowed : Allowed f.server.state a.cfg.dogId t)
    (hpresent : f.server.state.data.presence.isPresent a.cfg.dogId t = true) (hlive : t < inv.expiresAt)
    (hera : InEra t)
    (hcap : ((seconds (asI64 (f.server.state.data.policies.current a.cfg.dogId).maxSessionSec)).bind t.plus).isSome =
      true)
    (hseg : ((seconds (asI64 (f.server.state.data.policies.current a.cfg.dogId).segmentSec)).bind t.plus).isSome =
      true) :
    f.Beside (f.after st n (.handleIntent i) (always t)) n ∧
      (∃ a', (f.after st n (.handleIntent i) (always t)).agent n = some a' ∧ a'.cfg = a.cfg) ∧
      ∃ x, x.state = .negotiating ∧ Met (f.after st n (.handleIntent i) (always t)).server.state caller a.cfg.dogId x
        { mediaA := false, mediaB := true } := by
  have hcaller : ∀ ready, jsonCaller st (a.authHeader st.formats) (a.jsonBody st.formats ready) = some a.cfg.dogId :=
    EdgeAgent.jsonCaller_own hF hv
  obtain ⟨maxEndAt, hcap⟩ := Option.isSome_iff_exists.1 hcap
  obtain ⟨segmentDeadlineAt, hseg⟩ := Option.isSome_iff_exists.1 hseg
  obtain ⟨x, role, haccepted, hnegotiating, hmet⟩ := @Rung.accepted st ⟨f.server.state, t⟩ t caller a.cfg.dogId
    inv hrung (a.authHeader st.formats) (a.jsonBody st.formats none) maxEndAt segmentDeadlineAt (hcaller none) hallowed
    hpresent hlive hera hcap hseg
  have hmark : SessionStore.mark x a.cfg.dogId true { mediaA := false, mediaB := false } =
      some { mediaA := false, mediaB := true } := by
    unfold SessionStore.mark
    rw [hmet.dogA, hmet.dogB, if_neg hother, if_pos rfl]
  obtain ⟨hmedia, hmet'⟩ := hmet.marked (t := t) (hcaller (some true)) rfl hmark
  obtain ⟨hbeside, hagent, hworld⟩ := beside
    [⟨.acceptInvite (a.authHeader st.formats) inv.id.uuid (a.jsonBody st.formats none), fun _ => t⟩,
      ⟨.mediaReady (a.authHeader st.formats) x.id.uuid (a.jsonBody st.formats (some true)), fun _ => t⟩] hs ha
    (accepts_alone i hux hoffer haccepted rfl hmedia hnegotiating) (by simp [Request.editsPolicy, Request.isPost])
  exact ⟨hbeside, ⟨_, hagent, rfl⟩, x, hnegotiating, by rw [hworld]; exact hmet'⟩

/-- The caller finds the session, and its side has media too. -/
theorem joins (hF : st.formats.LawfulIds) (hs : f.Sized) (ha : f.agent n = some a)
    (hmet : Met f.server.state a.cfg.dogId callee x { mediaA := false, mediaB := true })
    (hstate : x.state = .negotiating)
    (hv : verifyDevice st (a.authHeader st.formats) a.cfg.terminalId a.cfg.dogId = .ok ()) :
    f.Beside (f.after st n .syncActive (always t)) n ∧
      ∃ y, (∃ a', (f.after st n .syncActive (always t)).agent n = some a' ∧ a'.cfg = a.cfg ∧ a'.ux = .inSession ∧
        a'.session = some y) ∧ y.state = .active ∧
        Met (f.after st n .syncActive (always t)).server.state a.cfg.dogId callee y
          { mediaA := true, mediaB := true } := by
  have hactive := hmet.active (s := ⟨f.server.state, t⟩) (t := t) (h := a.authHeader st.formats) (q := a.query)
    (.inl rfl) hv
  have hserved : ((⟨f.server.state, t⟩ : Server).serve st
      ⟨.activeSession (a.authHeader st.formats) a.query, fun _ => t⟩).world = f.server.state :=
    congrArg Prod.snd hactive
  have hmark : SessionStore.mark x a.cfg.dogId true { mediaA := false, mediaB := true } =
      some { mediaA := true, mediaB := true } := by
    unfold SessionStore.mark
    rw [hmet.dogA, if_pos rfl]
  obtain ⟨hmedia, hmet'⟩ := Met.marked (t := t) (hserved.symm ▸ hmet) (EdgeAgent.jsonCaller_own hF hv (some true)) rfl
    hmark
  obtain ⟨hbeside, hagent, hworld⟩ := beside
    [⟨.activeSession (a.authHeader st.formats) a.query, fun _ => t⟩,
      ⟨.mediaReady (a.authHeader st.formats) x.id.uuid (a.jsonBody st.formats (some true)), fun _ => t⟩] hs ha
    (joins_alone (congrArg Prod.fst hactive) (by rw [hstate]; decide) rfl hmedia)
    (by simp [Request.editsPolicy, Request.isPost])
  exact ⟨hbeside, _, ⟨_, hagent, rfl, rfl, rfl⟩, rfl, by rw [hworld]; exact hmet'⟩

/-- A dog of an active session finds it. -/
theorem syncs (hs : f.Sized) (ha : f.agent n = some a) {e : SessionExtra} (hmet : Met f.server.state caller callee x e)
    (hstate : x.state = .active) (hdog : a.cfg.dogId = caller ∨ a.cfg.dogId = callee)
    (hv : verifyDevice st (a.authHeader st.formats) a.cfg.terminalId a.cfg.dogId = .ok ()) :
    f.Beside (f.after st n .syncActive (always t)) n ∧
      (∃ a', (f.after st n .syncActive (always t)).agent n = some a' ∧ a'.ux = .inSession ∧ a'.session = some x) ∧
      (f.after st n .syncActive (always t)).server.state = f.server.state := by
  have hactive := hmet.active (s := ⟨f.server.state, t⟩) (t := t) (h := a.authHeader st.formats) (q := a.query) hdog hv
  obtain ⟨hbeside, hagent, hworld⟩ := beside
    [⟨.activeSession (a.authHeader st.formats) a.query, fun _ => t⟩] hs ha
    (syncs_alone (congrArg Prod.fst hactive) hstate) (by simp [Request.editsPolicy, Request.isPost])
  exact ⟨hbeside, ⟨_, hagent, rfl, rfl⟩, by rw [hworld]; exact congrArg Prod.snd hactive⟩

end

end Fleet

/-- Terminal `n` calls, terminal `m` learns of it and engages with the pad of `i`, and both ask how things stand. -/
def Fleet.meet (st : AppState) (f : Fleet) (n m : Nat) (i : Intent) (t₁ t₂ t₃ t₄ t₅ : DateTime) : Fleet :=
  ((((f.after st n (.handleIntent .call) (always t₁)).after st m .pollIncoming (always t₂)).after st m
    (.handleIntent i) (always t₃)).after st n .syncActive (always t₄)).after st m .syncActive (always t₅)

section

variable {st : AppState} {w : World} {cfgs : List EdgeConfig}

theorem fleet_after (as : List FleetAction) (n : Nat) (o : EdgeOp) (κs : Nat → Nat → DateTime) :
    (fleet st w cfgs as).after st n o κs = fleet st w cfgs (as ++ (fleet st w cfgs as).alone st n o κs) :=
  (Fleet.run_append _ _ _).symm

/-- The meeting is something the fleet can go on to do. -/
theorem fleet_meet (as : List FleetAction) (n m : Nat) (i : Intent) (t₁ t₂ t₃ t₄ t₅ : DateTime) :
    ∃ bs, (fleet st w cfgs as).meet st n m i t₁ t₂ t₃ t₄ t₅ = fleet st w cfgs (as ++ bs) := by
  unfold Fleet.meet
  rw [fleet_after, fleet_after, fleet_after, fleet_after, fleet_after, List.append_assoc, List.append_assoc,
    List.append_assoc, List.append_assoc]
  exact ⟨_, rfl⟩

theorem fleet_sized (as : List FleetAction) : (fleet st w cfgs as).Sized := Fleet.Sized.run as rfl

theorem fleet_named (hw : w.data = {}) (as : List FleetAction) :
    (fleet st w cfgs as).server.state.Consistent ∧ (fleet st w cfgs as).server.state.data.sessions.Pointed := by
  rw [served as]
  exact ⟨(named_run hw _).consistent, (named_run hw _).pointed⟩

theorem EdgeAgent.verified_cfg {a b : EdgeAgent} (h : b.cfg = a.cfg)
    (hv : verifyDevice st (a.authHeader st.formats) a.cfg.terminalId a.cfg.dogId = .ok ()) :
    verifyDevice st (b.authHeader st.formats) b.cfg.terminalId b.cfg.dogId = .ok () := by
  unfold EdgeAgent.authHeader at hv ⊢
  rw [h]
  exact hv

/-- Two dogs that may meet come to be in contact. -/
theorem Fleet.meet_connects (hF : st.formats.LawfulIds) {f : Fleet} (hs : f.Sized) (hcons : f.server.state.Consistent)
    (hpointed : f.server.state.data.sessions.Pointed) {n m : Nat} {a b : EdgeAgent} (ha : f.agent n = some a)
    (hb : f.agent m = some b) {t₁ t₂ t₃ : DateTime} (h : MayMeet st f.server.state a b t₁ t₂ t₃) (i : Intent)
    (t₄ t₅ : DateTime) : ∃ a' b' x, (f.meet st n m i t₁ t₂ t₃ t₄ t₅).agent n = some a' ∧
      (f.meet st n m i t₁ t₂ t₃ t₄ t₅).agent m = some b' ∧ a'.ux = .inSession ∧ b'.ux = .inSession ∧
      a'.session = some x ∧ b'.session = some x ∧ x.state = .active ∧ x.dogA = a.cfg.dogId ∧ x.dogB = b.cfg.dogId ∧
      (f.meet st n m i t₁ t₂ t₃ t₄ t₅).server.state.data.sessions.get x.id = some x := by
  have hmn : m ≠ n := by
    rintro rfl
    exact h.other (by rw [Option.some.inj (ha.symm.trans hb)])
  unfold Fleet.meet
  obtain ⟨deadline, hring, hpoll, haccept⟩ := h.inTime
  obtain ⟨h₁, ⟨a₁, ha₁, hcfgA₁⟩, inv, rfl, hrung₁⟩ :=
    Fleet.calls hs ha hcons hpointed h.idle h.armed h.mayCall h.friend h.allowed h.free hring
  have hb₁ := (h₁.others m hmn).trans hb
  generalize f.after st n (.handleIntent .call) (Fleet.always t₁) = f₁ at *
  have hallowed : ∀ {g : Fleet} {t : DateTime}, g.server.state.data.policies.current =
      f.server.state.data.policies.current → Allowed f.server.state b.cfg.dogId t →
      Allowed g.server.state b.cfg.dogId t :=
    fun hg ht => by
      unfold Allowed
      rw [hg]
      exact ht
  obtain ⟨h₂, ⟨b₂, lure, hb₂, hcfgB₂, hux₂, hoffer₂⟩, hrung₂⟩ := Fleet.polls (t := t₂) h₁.sized hb₁ hrung₁ h.verified
    ⟨t₁, hallowed h₁.policies h.allowed⟩ h.listens.1 h.listens.2 hpoll
  have ha₂ := (h₂.others n hmn.symm).trans ha₁
  generalize f₁.after st m .pollIncoming (Fleet.always t₂) = f₂ at *
  have hpolicies₂ := h₂.policies.trans h₁.policies
  have hpresence₂ := h₂.presence.trans h₁.presence
  rw [← hcfgB₂] at hrung₂
  obtain ⟨h₃, ⟨b₃, hb₃, hcfgB₃⟩, x, hnegotiating, hmet₃⟩ := Fleet.engages (t := t₃) hF h₂.sized hb₂ hrung₂
    (by rw [hcfgB₂]; exact h.other) (EdgeAgent.verified_cfg hcfgB₂ h.verified) i hux₂ hoffer₂
    (by rw [hcfgB₂]; exact hallowed hpolicies₂ h.stillAllowed)
    (by rw [hcfgB₂, hpresence₂]; exact h.stillPresent) haccept h.era
    (by rw [hcfgB₂, hpolicies₂]; exact h.cap) (by rw [hcfgB₂, hpolicies₂]; exact h.segment)
  have ha₃ := (h₃.others n hmn.symm).trans ha₂
  generalize f₂.after st m (.handleIntent i) (Fleet.always t₃) = f₃ at *
  rw [← hcfgA₁] at hmet₃
  obtain ⟨h₄, y, ⟨a₄, ha₄, -, huxA, hy⟩, hactive, hmet₄⟩ := Fleet.joins (t := t₄) hF h₃.sized ha₃ hmet₃ hnegotiating
    (EdgeAgent.verified_cfg hcfgA₁ h.mayCall.verified)
  have hb₄ := (h₄.others m hmn).trans hb₃
  generalize f₃.after st n .syncActive (Fleet.always t₄) = f₄ at *
  obtain ⟨h₅, ⟨b₅, hb₅, huxB, hyB⟩, hstate⟩ := Fleet.syncs (t := t₅) h₄.sized hb₄ hmet₄ hactive
    (.inr (by rw [hcfgB₃])) (EdgeAgent.verified_cfg hcfgB₃ (EdgeAgent.verified_cfg hcfgB₂ h.verified))
  refine ⟨a₄, b₅, y, (h₅.others n hmn.symm).trans ha₄, hb₅, huxA, huxB, hy, hyB, hactive, hmet₄.dogA.trans ?_,
    hmet₄.dogB.trans ?_, ?_⟩
  · rw [hcfgA₁]
  · rw [hcfgB₂]
  · rw [hstate]
    exact hmet₄.stored

end

/-- **A press of a pad brings two dogs together.**  From every state that a fleet can reach, in which requests of other
clients may be half done, if two dogs may meet then the fleet can go on so that both agents are in contact, over one
active session of the two dogs. -/
theorem pads_connect (st : AppState) (hF : st.formats.LawfulIds) (w : World) (hw : w.data = {}) (cfgs : List EdgeConfig)
    (as : List FleetAction) (n m : Nat) (a b : EdgeAgent) (ha : (fleet st w cfgs as).agent n = some a)
    (hb : (fleet st w cfgs as).agent m = some b) (t₁ t₂ t₃ t₄ t₅ : DateTime)
    (h : MayMeet st (fleet st w cfgs as).server.state a b t₁ t₂ t₃) (i : Intent) :
    ∃ bs, (fleet st w cfgs as).meet st n m i t₁ t₂ t₃ t₄ t₅ = fleet st w cfgs (as ++ bs) ∧
      ∃ a' b' x, (fleet st w cfgs (as ++ bs)).agent n = some a' ∧ (fleet st w cfgs (as ++ bs)).agent m = some b' ∧
        a'.ux = .inSession ∧ b'.ux = .inSession ∧ a'.session = some x ∧ b'.session = some x ∧ x.state = .active ∧
        x.dogA = a.cfg.dogId ∧ x.dogB = b.cfg.dogId ∧
        (fleet st w cfgs (as ++ bs)).server.state.data.sessions.get x.id = some x := by
  obtain ⟨bs, hbs⟩ := @fleet_meet st w cfgs as n m i t₁ t₂ t₃ t₄ t₅
  obtain ⟨hcons, hpointed⟩ := @fleet_named st w cfgs hw as
  have hconnects := Fleet.meet_connects hF (fleet_sized as) hcons hpointed ha hb h i t₄ t₅
  rw [hbs] at hconnects
  exact ⟨bs, hbs, hconnects⟩

/-- Dogs 1 and 2 are bonded, and each stands on its mat. -/
def onMats : List FleetAction :=
  [.arrive (.devBootstrapBond ⟨1⟩ ⟨2⟩ 1), .arrive (stepOn 1 noon), .arrive (stepOn 2 noon)] ++
    handling 0 ++ handling 1 ++ handling 2 ++
    [.start 0 (.ingestUart onMat 1000), .start 0 (.ingestUart onMat 1000),
     .start 1 (.ingestUart onMat 1000), .start 1 (.ingestUart onMat 1000)]

/-- The agent of terminal `n` after that. -/
def agentOnMat (n : Nat) : Option EdgeAgent := (fleet bench fresh [terminal1, terminal2] onMats).agent n

theorem onMat_first : (agentOnMat 0).isSome = true := by decide +kernel
theorem onMat_second : (agentOnMat 1).isSome = true := by decide +kernel

theorem pads_connect_onMats : ∃ bs a' b' x,
    (fleet bench fresh [terminal1, terminal2] (onMats ++ bs)).agent 0 = some a' ∧
    (fleet bench fresh [terminal1, terminal2] (onMats ++ bs)).agent 1 = some b' ∧ a'.ux = .inSession ∧
    b'.ux = .inSession ∧ a'.session = some x ∧ b'.session = some x := by
  obtain ⟨bs, -, a', b', x, ha', hb', huxA, huxB, hA, hB, -⟩ := pads_connect bench decimals_lawful.toLawfulIds fresh rfl
    [terminal1, terminal2] onMats 0 1 ((agentOnMat 0).get onMat_first) ((agentOnMat 1).get onMat_second)
    (Option.some_get onMat_first).symm (Option.some_get onMat_second).symm noon noon noon noon noon
    { idle := by decide +kernel
      armed := by decide +kernel
      mayCall := ⟨by decide +kernel, by decide +kernel, by decide +kernel, by decide +kernel, by decide +kernel⟩
      friend := by decide +kernel
      other := by decide +kernel
      allowed := by decide +kernel
      free := by decide +kernel
      listens := by decide +kernel
      verified := by decide +kernel
      inTime := by decide +kernel
      stillAllowed := by decide +kernel
      stillPresent := by decide +kernel
      era := by decide +kernel
      cap := by decide +kernel
      segment := by decide +kernel } .play
  exact ⟨bs, a', b', x, ha', hb', huxA, huxB, hA, hB⟩

end CanisLink
