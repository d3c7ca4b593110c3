import CanisLink.Handling
import CanisLink.PolicyKept
/-!
# Announce — who is told that a contact has ended

`end_session` publishes `SessionEnded` to both dogs before it ends the session.  The other removals say nothing: an
emergency stop and the tick end sessions, a cancel and every sweep for expired invites take invites away, and no handler
publishes `InviteClosed`.  `EndsSilently` names the requests that find something to remove so.
-/
namespace CanisLink

open Interleave (Prog)
open Api

/-- A call that was made and its answer. -/
abbrev Made := (c : Call) × c.Resp

/-- The invite was taken out of the store, and no session was begun from it. -/
def Dropped (tr : List Made) (inv : Invite) : Prop :=
  (∃ now out, ⟨.expireDue now, out⟩ ∈ tr ∧ inv ∈ out) ∨
    ∃ id, ⟨.invitesClose id, some inv⟩ ∈ tr ∧ ∀ x, x.inviteId = inv.id → ⟨.sessionsInsert x, .ok ()⟩ ∉ tr

/-- **Every end of contact is announced** to both dogs, under the id that was removed. -/
structure Told (F : Formats) (tr : List Made) : Prop where
  sessions : ∀ {id x d}, ⟨.sessionsEnd id, some x⟩ ∈ tr → x.hasDog d →
    ∃ reason, ⟨.publish d (.sessionEnded (F.uuid id.uuid) reason), ()⟩ ∈ tr
  invites : ∀ {inv d}, Dropped tr inv → inv.hasDog d →
    ∃ reason, ⟨.publish d (.inviteClosed (F.uuid inv.id.uuid) reason), ()⟩ ∈ tr

/-- Some invite has expired. -/
def SomeDue (w : World) (now : DateTime) : Prop := ∃ id, ∃ inv ∈ w.data.invites.get id, isExpired inv now = true

/-- The dog a cancel speaks for, once its credentials are verified. -/
def cancelCaller (st : AppState) (h : HeaderMap) (b : JsonBody) : Option DogId :=
  match st.formats.parseUuid b.dogId, extractDeviceToken st h with
  | some dog, .ok (tid, token) => if verifyPair st tid ⟨dog⟩ token then some ⟨dog⟩ else none
  | _, _ => none

/-- The session that an accept at `now` comes to insert. -/
def acceptedSession (st : AppState) (w : World) (now : DateTime) (h : HeaderMap) (i : Uuid) (b : JsonBody) :
    Option SessionRecord :=
  match acceptThrough st w now h i b with
  | none => none
  | some (dog, inv) =>
    match acceptInvite ⟨w.nextUuid⟩ inv dog (w.data.presence.isPresent dog now) now,
        (seconds (asI64 (w.data.policies.current dog).maxSessionSec)).bind now.plus,
        (seconds (asI64 (w.data.policies.current dog).segmentSec)).bind now.plus with
    | some (.ok session), some maxEndAt, some segmentDeadlineAt =>
      some { session with state := .negotiating, maxEndAt, segmentDeadlineAt }
    | _, _, _ => none

/-- **The request ends something and tells nobody**: it looks for expired invites while there are some, it cancels an
invite, it accepts one whose dog the session store finds busy, it stops a dog that is in a session, or it is the tick
and a session is due. -/
def EndsSilently (st : AppState) (w : World) (κ : Nat → DateTime) : Request → Prop
  | .createInvite h b => (verifyDevice st h b.terminalId b.dogId).isOk ∧ SomeDue w (κ 0)
  | .incomingInvite h q => (verifyDevice st h q.terminalId q.dogId).isOk ∧
      ((w.data.policies.current q.dogId).emergencyStop || (w.data.policies.current q.dogId).socialDisabled) = false ∧
      SomeDue w (κ 1)
  | .cancelInvite h i b => ∃ dog ∈ cancelCaller st h b, ∃ inv ∈ w.data.invites.get ⟨i⟩, inv.hasDog dog
  | .acceptInvite h i b =>
      (∃ dog ∈ jsonCaller st h b, (socialAllowed (w.data.policies.current dog) (κ 0)).isOk ∧ SomeDue w (κ 0)) ∨
        ∃ x ∈ acceptedSession st w (κ 0) h i b, x.dogA ∈ w.data.sessions.byDog ∨ x.dogB ∈ w.data.sessions.byDog
  | .stewardEstop h d on => (verifySteward st h).isOk ∧ on = true ∧ (w.data.sessions.forDog d).isSome
  | .policyTick => SomeDue w (κ 0) ∨
      ∃ id, ∃ x ∈ w.data.sessions.get id, dueToEnd w.data.policies.current (κ 0) x = true
  | _ => False

/-! ## Reading a list of calls -/

/-- A call that removes nothing, begins nothing and announces no end. -/
def Call.indifferent : Call → Prop
  | .sessionsEnd _ | .expireDue _ | .invitesClose _ | .sessionsInsert _ => False
  | .publish _ (.sessionEnded ..) | .publish _ (.inviteClosed ..) => False
  | _ => True

/-- A call that announces no end. -/
def Call.silent : Call → Prop
  | .publish _ (.sessionEnded ..) | .publish _ (.inviteClosed ..) => False
  | _ => True

theorem Call.indifferent.silent {c : Call} (h : c.indifferent) : c.silent := by
  cases c with
  | publish d ev => cases ev <;> trivial
  | _ => trivial

variable {F : Formats} {tr : List Made}

theorem told_nil : Told F [] where
  sessions h := absurd h List.not_mem_nil
  invites h := by
    rcases h with ⟨_, _, h, -⟩ | ⟨_, h, -⟩
    · exact absurd h List.not_mem_nil
    · exact absurd h List.not_mem_nil

theorem told_congr {tr' : List Made}
    (hends : ∀ {id x}, (⟨.sessionsEnd id, some x⟩ : Made) ∈ tr ↔ ⟨.sessionsEnd id, some x⟩ ∈ tr')
    (hended : ∀ {d sid reason}, (⟨.publish d (.sessionEnded sid reason), ()⟩ : Made) ∈ tr ↔
      ⟨.publish d (.sessionEnded sid reason), ()⟩ ∈ tr')
    (hclosed : ∀ {d sid reason}, (⟨.publish d (.inviteClosed sid reason), ()⟩ : Made) ∈ tr ↔
      ⟨.publish d (.inviteClosed sid reason), ()⟩ ∈ tr')
    (hdropped : ∀ inv, Dropped tr inv ↔ Dropped tr' inv) : Told F tr ↔ Told F tr' := by
  constructor
  · intro h
    refine ⟨fun hx hd => ?_, fun hinv hd => ?_⟩
    · obtain ⟨reason, hp⟩ := h.sessions (hends.2 hx) hd
      exact ⟨reason, hended.1 hp⟩
    · obtain ⟨reason, hp⟩ := h.invites ((hdropped _).2 hinv) hd
      exact ⟨reason, hclosed.1 hp⟩
  · intro h
    refine ⟨fun hx hd => ?_, fun hinv hd => ?_⟩
    · obtain ⟨reason, hp⟩ := h.sessions (hends.1 hx) hd
      exact ⟨reason, hended.2 hp⟩
    · obtain ⟨reason, hp⟩ := h.invites ((hdropped _).1 hinv) hd
      exact ⟨reason, hclosed.2 hp⟩

theorem told_cons {c : Call} {r : c.Resp} (hc : c.indifferent) : Told F (⟨c, r⟩ :: tr) ↔ Told F tr := by
  generalize he : (⟨c, r⟩ : Made) = e
  have hmem : ∀ e' : Made, ¬ e'.1.indifferent → (e' ∈ e :: tr ↔ e' ∈ tr) := by
    intro e' he'
    rw [List.mem_cons]
    refine or_iff_right (fun h => he' ?_)
    rw [h, ← he]
    exact hc
  refine told_congr (hmem _ id) (hmem _ id) (hmem _ id) (fun inv => ?_)
  unfold Dropped
  simp only [hmem ⟨.expireDue _, _⟩ id, hmem ⟨.invitesClose _, _⟩ id, hmem ⟨.sessionsInsert _, _⟩ id]

/-- A sweep that finds nothing changes nothing either. -/
theorem told_swept {now : DateTime} : Told F (⟨.expireDue now, []⟩ :: tr) ↔ Told F tr := by
  generalize he : (⟨.expireDue now, []⟩ : Made) = e
  have hmem : ∀ {e' : Made}, e' ≠ ⟨.expireDue now, []⟩ → (e' ∈ e :: tr ↔ e' ∈ tr) := fun {e'} he' => by
    rw [List.mem_cons, ← he]
    exact or_iff_right he'
  refine told_congr (hmem (fun h => by cases h)) (hmem (fun h => by cases h)) (hmem (fun h => by cases h))
    (fun inv => or_congr ?_ ?_)
  · refine exists_congr (fun now' => exists_congr (fun out => and_congr_left (fun hinv => hmem (fun h => ?_))))
    cases h
    cases hinv
  · refine exists_congr (fun id => and_congr (hmem (fun h => by cases h)) (forall_congr' (fun x => ?_)))
    exact imp_congr_right (fun _ => not_congr (hmem (fun h => by cases h)))

theorem told_silent_iff (hs : ∀ e ∈ tr, e.1.silent) : Told F tr ↔
    (∀ id x, ⟨.sessionsEnd id, some x⟩ ∉ tr) ∧ ∀ inv, ¬ Dropped tr inv := by
  constructor
  · intro h
    refine ⟨fun id x hx => ?_, fun inv hinv => ?_⟩
    · obtain ⟨reason, hp⟩ := h.sessions hx (.inl rfl)
      exact hs _ hp
    · obtain ⟨reason, hp⟩ := h.invites hinv (.inl rfl)
      exact hs _ hp
  · rintro ⟨hends, hdrops⟩
    exact ⟨fun hx => absurd hx (hends _ _), fun hinv => absurd hinv (hdrops _)⟩

theorem told_of_indifferent (hr : ∀ e ∈ tr, e.1.indifferent) : Told F tr := by
  refine (told_silent_iff (fun e he => (hr e he).silent)).2 ⟨fun id x hx => hr _ hx, fun inv hinv => ?_⟩
  rcases hinv with ⟨now, out, hout, -⟩ | ⟨id, hclose, -⟩
  · exact hr _ hout
  · exact hr _ hclose

/-- A call that takes no invite away, begins nothing and announces no end. -/
def Call.mayEnd : Call → Prop
  | .sessionsEnd _ => True
  | c => c.indifferent

theorem Call.mayEnd.silent {c : Call} (h : c.mayEnd) : c.silent := by
  cases c with
  | sessionsEnd id => trivial
  | publish d ev => cases ev <;> trivial
  | _ => trivial

theorem Call.indifferent.mayEnd {c : Call} (h : c.indifferent) : c.mayEnd := by
  cases c with
  | sessionsEnd id => cases h
  | _ => exact h

/-- A sweep is told of when it finds nothing, and what is ended after it when nothing is. -/
theorem told_sweep_ends {now : DateTime} {out : List Invite} (hr : ∀ e ∈ tr, e.1.mayEnd) :
    Told F (⟨.expireDue now, out⟩ :: tr) ↔ out = [] ∧ ∀ id x, ⟨.sessionsEnd id, some x⟩ ∉ tr := by
  have hs : ∀ e ∈ (⟨.expireDue now, out⟩ : Made) :: tr, e.1.silent :=
    List.forall_mem_cons.2 ⟨trivial, fun e he => (hr e he).silent⟩
  rw [told_silent_iff hs]
  constructor
  · rintro ⟨hends, hdrops⟩
    refine ⟨List.eq_nil_iff_forall_not_mem.2 (fun inv hinv => ?_), fun id x hx => ?_⟩
    · exact hdrops inv (.inl ⟨now, out, List.mem_cons_self, hinv⟩)
    · exact hends id x (List.mem_cons_of_mem _ hx)
  · rintro ⟨rfl, hends⟩
    refine ⟨fun id x hx => ?_, fun inv hinv => ?_⟩
    · rcases List.mem_cons.1 hx with he | hx
      · cases he
      · exact hends id x hx
    · rcases hinv with ⟨now', out', hout, hinv⟩ | ⟨id, hclose, -⟩
      · rcases List.mem_cons.1 hout with he | hout
        · cases he
          cases hinv
        · exact hr _ hout
      · rcases List.mem_cons.1 hclose with he | hclose
        · cases he
        · exact hr _ hclose

theorem told_sweep {now : DateTime} {out : List Invite} (hr : ∀ e ∈ tr, e.1.indifferent) :
    Told F (⟨.expireDue now, out⟩ :: tr) ↔ out = [] := by
  rw [told_sweep_ends (fun e he => (hr e he).mayEnd)]
  exact and_iff_left (fun id x hx => hr _ hx)

/-- An invite that is closed, and no session begun from it, is not told of. -/
theorem not_told_close {id : InviteId} {inv : Invite} (hr : ∀ e ∈ tr, e.1.silent)
    (hx : ∀ x, ⟨.sessionsInsert x, .ok ()⟩ ∉ tr) : ¬ Told F (⟨.invitesClose id, some inv⟩ :: tr) := by
  have hs : ∀ e ∈ (⟨.invitesClose id, some inv⟩ : Made) :: tr, e.1.silent := List.forall_mem_cons.2 ⟨trivial, hr⟩
  rw [told_silent_iff hs]
  rintro ⟨-, hdrops⟩
  refine hdrops inv (.inr ⟨id, List.mem_cons_self, fun x _ h => ?_⟩)
  rcases List.mem_cons.1 h with he | h
  · cases he
  · exact hx x h

/-- An invite that is closed for the session that begins from it. -/
theorem told_begun {id : InviteId} {inv : Invite} {x : SessionRecord} (hx : x.inviteId = inv.id)
    (hr : ∀ e ∈ tr, e.1.indifferent) :
    Told F (⟨.invitesClose id, some inv⟩ :: ⟨.sessionsInsert x, .ok ()⟩ :: tr) := by
  have hs : ∀ e ∈ (⟨.invitesClose id, some inv⟩ : Made) :: ⟨.sessionsInsert x, .ok ()⟩ :: tr, e.1.silent :=
    List.forall_mem_cons.2 ⟨trivial, List.forall_mem_cons.2 ⟨trivial, fun e he => (hr e he).silent⟩⟩
  refine (told_silent_iff hs).2 ⟨fun id' y hy => ?_, fun inv' hinv => ?_⟩
  · simp only [List.mem_cons] at hy
    rcases hy with he | he | hy
    · cases he
    · cases he
    · exact hr _ hy
  · rcases hinv with ⟨now, out, hout, -⟩ | ⟨id', hclose, hnone⟩
    · simp only [List.mem_cons] at hout
      rcases hout with he | he | hout
      · cases he
      · cases he
      · exact hr _ hout
    · simp only [List.mem_cons] at hclose
      rcases hclose with he | he | hclose
      · cases he
        exact hnone x hx (List.mem_cons_of_mem _ List.mem_cons_self)
      · cases he
      · exact hr _ hclose

/-- Nor is a session that is ended when nothing is published. -/
theorem not_told_end {id : SessionId} {x : SessionRecord} (hs : ∀ e ∈ tr, e.1.silent)
    (hx : ⟨.sessionsEnd id, some x⟩ ∈ tr) : ¬ Told F tr := by
  rw [told_silent_iff hs]
  exact fun h => h.1 id x hx

theorem told_end {id : SessionId} {x : SessionRecord} {reason : String} (hr : ∀ e ∈ tr, e.1.indifferent) :
    Told F (⟨.publish x.dogA (.sessionEnded (F.uuid id.uuid) reason), ()⟩ ::
      ⟨.publish x.dogB (.sessionEnded (F.uuid id.uuid) reason), ()⟩ :: ⟨.sessionsEnd id, some x⟩ :: tr) where
  sessions {id' x' d} hx hd := by
    simp only [List.mem_cons] at hx
    rcases hx with he | he | he | hx
    · cases he
    · cases he
    · cases he
      rcases hd with rfl | rfl
      · exact ⟨reason, List.mem_cons_self⟩
      · exact ⟨reason, List.mem_cons_of_mem _ List.mem_cons_self⟩
    · exact absurd (hr _ hx) (fun h => h)
  invites {inv d} hinv _ := by
    rcases hinv with ⟨now, out, hout, -⟩ | ⟨id', hclose, -⟩
    · simp only [List.mem_cons] at hout
      rcases hout with he | he | he | hout
      · cases he
      · cases he
      · cases he
      · exact absurd (hr _ hout) (fun h => h)
    · simp only [List.mem_cons] at hclose
      rcases hclose with he | he | he | hclose
      · cases he
      · cases he
      · cases he
      · exact absurd (hr _ hclose) (fun h => h)

/-- A call that removes something. -/
def Call.removes : Call → Prop
  | .sessionsEnd _ | .expireDue _ | .invitesClose _ => True
  | _ => False

theorem told_of_kept (hk : ∀ e ∈ tr, ¬ e.1.removes) : Told F tr where
  sessions hx _ := absurd trivial (hk _ hx)
  invites hinv _ := by
    rcases hinv with ⟨now, out, hout, -⟩ | ⟨id, hclose, -⟩
    · exact absurd trivial (hk _ hout)
    · exact absurd trivial (hk _ hclose)

theorem expireDue_eq_nil (ord : IterOrder) (w : World) (now : DateTime) :
    (w.data.invites.expireDue ord now).1 = [] ↔ ¬ SomeDue w now := by
  rw [List.eq_nil_iff_forall_not_mem]
  constructor
  · rintro h ⟨id, inv, hinv, hdue⟩
    exact h inv ((InviteStore.mem_expireDue ord _ now inv).2 ⟨id, hinv, of_decide_eq_true hdue⟩)
  · intro h inv hinv
    obtain ⟨id, hinv, hdue⟩ := (InviteStore.mem_expireDue ord _ now inv).1 hinv
    exact h ⟨id, inv, hinv, decide_eq_true hdue⟩

/-! ## The handlers -/

section

variable {st : AppState} {κ : Nat → DateTime} {w : World}

theorem busy_indifferent (d : DogId) : (busy d).All Call.indifferent := by
  unfold busy
  simp only [invitesForDog, sessionsForDog, Prog.op_bind, Prog.pure_eq]
  refine ⟨trivial, fun found => ?_⟩
  cases found with
  | some inv => trivial
  | none => exact ⟨trivial, fun _ => trivial⟩

theorem sweep_told {p : Api Reply} {now t : DateTime} {out : List Invite} {w' : World}
    (h : exec st t (.expireDue now) w = (out, w')) (hp : p.All Call.indifferent) (κ : Nat → DateTime) :
    p.Traced (exec st) κ w' (fun tr => Told F (⟨.expireDue now, out⟩ :: tr) ↔ ¬ SomeDue w now) := by
  have hout : (w.data.invites.expireDue st.order now).1 = out := congrArg Prod.fst h
  refine (hp.traced κ w').mono (fun tr hr => ?_)
  rw [told_sweep hr, ← hout, expireDue_eq_nil]

theorem createInvite_told (h : HeaderMap) (b : CreateInviteBody) : (createInvite st h b).Traced (exec st) κ w
    (fun tr => Told F tr ↔ ¬ EndsSilently st w κ (.createInvite h b)) := by
  unfold createInvite EndsSilently
  simp only [utcNow, expireDue, policiesGet, policiesEnsure, invitesLastHour, presentDogIds, isPresent, Api.routeInvite,
    newUuid, invitesInsert, recordInvite, sql, publish, Prog.op_bind, Prog.pure_eq]
  cases verifyDevice st h b.terminalId b.dogId with
  | error s => exact .done (iff_of_true told_nil (fun hs => by cases hs.1))
  | ok u =>
  refine .call (fun now w₁ h₁ => .call (fun out w₂ h₂ => ?_))
  obtain rfl : κ 0 = now := congrArg Prod.fst h₁
  obtain rfl : w = w₁ := congrArg Prod.snd h₁
  refine (sweep_told (F := F) h₂ ?_ _).mono (fun tr hr => ?_)
  · refine ⟨trivial, fun pol => ?_⟩
    dsimp only
    cases socialAllowed pol (κ 0) with
    | error e => trivial
    | ok u =>
    refine ⟨trivial, fun count => ?_⟩
    dsimp only
    cases inviteRateOk count pol.maxInvitesPerHour with
    | error e => trivial
    | ok u =>
    refine (busy_indifferent _).bind (fun callerBusy => ?_)
    cases callerBusy with
    | true => trivial
    | false =>
    refine ⟨trivial, fun presentIds => ⟨trivial, fun callerPresent => ⟨trivial, fun routed => ?_⟩⟩⟩
    cases routed with
    | error e => trivial
    | ok peer =>
    refine ⟨trivial, fun peerPol => ?_⟩
    dsimp only
    cases socialAllowed peerPol (κ 0) with
    | error e => trivial
    | ok u =>
    refine (busy_indifferent _).bind (fun peerBusy => ?_)
    cases peerBusy with
    | true => trivial
    | false =>
    refine ⟨trivial, fun created => ⟨trivial, fun id => ?_⟩⟩
    dsimp only
    cases newInvite ⟨id⟩ created b.dogId peer b.mode with
    | none => trivial
    | some invite =>
    refine ⟨trivial, fun inserted => ?_⟩
    cases inserted with
    | error e => trivial
    | ok u =>
    refine ⟨trivial, fun _ => ?_⟩
    cases st.pool with
    | false => exact ⟨trivial, fun _ => trivial⟩
    | true => exact ⟨trivial, fun _ => ⟨trivial, fun _ => ⟨trivial, fun _ => trivial⟩⟩⟩
  · rw [told_cons (c := .utcNow) trivial, hr]
    exact not_congr ⟨fun hdue => ⟨rfl, hdue⟩, fun hs => hs.2⟩

theorem incomingInvite_told (h : HeaderMap) (q : DeviceQuery) : (incomingInvite st h q).Traced (exec st) κ w
    (fun tr => Told F tr ↔ ¬ EndsSilently st w κ (.incomingInvite h q)) := by
  unfold incomingInvite EndsSilently
  simp only [utcNow, expireDue, policiesGet, policiesEnsure, incomingFor, Prog.op_bind, Prog.pure_eq]
  cases verifyDevice st h q.terminalId q.dogId with
  | error s => exact .done (iff_of_true told_nil (fun hs => by cases hs.1))
  | ok u =>
  refine .call (fun pol w₁ h₁ => ?_)
  obtain rfl : pol = w.data.policies.current q.dogId := ensure_step h₁
  have hget : w₁.data.invites = w.data.invites := by
    have hw : (exec st (κ 0) (.policiesEnsure q.dogId) w).2 = w₁ := congrArg Prod.snd h₁
    rw [← hw]
    rfl
  cases hoff : (w.data.policies.current q.dogId).emergencyStop || (w.data.policies.current q.dogId).socialDisabled with
  | true =>
    refine .done (iff_of_true ((told_cons (c := .policiesEnsure _) trivial).2 told_nil) (fun hs => ?_))
    cases hs.2.1
  | false =>
  refine .call (fun now w₂ h₂ => .call (fun out w₃ h₃ => ?_))
  have hnow : κ 1 = now := congrArg Prod.fst h₂
  obtain rfl : w₁ = w₂ := congrArg Prod.snd h₂
  refine (sweep_told (F := F) h₃ ?_ _).mono (fun tr hr => ?_)
  · exact ⟨trivial, fun _ => trivial⟩
  · rw [told_cons (c := .policiesEnsure _) trivial, told_cons (c := .utcNow) trivial, hr, hnow]
    unfold SomeDue
    rw [hget]
    exact not_congr ⟨fun hdue => ⟨rfl, rfl, hdue⟩, fun hs => hs.2.2⟩

theorem cancelInvite_told (h : HeaderMap) (i : Uuid) (b : JsonBody) : (cancelInvite st h i b).Traced (exec st) κ w
    (fun tr => Told F tr ↔ ¬ EndsSilently st w κ (.cancelInvite h i b)) := by
  unfold cancelInvite EndsSilently cancelCaller
  simp only [invitesGet, invitesClose, sql, Prog.op_bind, Prog.pure_eq]
  have hdenied : ∀ {P : DogId → Prop}, ¬ ∃ dog ∈ (none : Option DogId), P dog := by
    rintro P ⟨dog, hdog, -⟩
    cases hdog
  cases st.formats.parseUuid b.dogId with
  | none => exact .done (iff_of_true told_nil hdenied)
  | some dog =>
  cases extractDeviceToken st h with
  | error s => exact .done (iff_of_true told_nil hdenied)
  | ok p =>
  obtain ⟨tid, token⟩ := p
  dsimp only
  cases verifyPair st tid ⟨dog⟩ token with
  | false => exact .done (iff_of_true told_nil hdenied)
  | true =>
  refine .call (fun found w₁ h₁ => ?_)
  have hfound : w.data.invites.get ⟨i⟩ = found := congrArg Prod.fst h₁
  obtain rfl : w = w₁ := congrArg Prod.snd h₁
  have hlooked : Told F [⟨.invitesGet ⟨i⟩, found⟩] := (told_cons (c := .invitesGet ⟨i⟩) trivial).2 told_nil
  cases found with
  | none =>
    refine .done (iff_of_true hlooked ?_)
    rintro ⟨_, -, inv, hinv, -⟩
    rw [hfound] at hinv
    cases hinv
  | some inv =>
  dsimp only
  split
  · rename_i hparty
    refine .done (iff_of_true hlooked ?_)
    rintro ⟨dog', hdog, inv', hinv, hd⟩
    cases hdog
    cases hfound.symm.trans hinv
    simp only [ne_eq, Bool.and_eq_true, decide_eq_true_eq] at hparty
    exact hd.elim hparty.1 hparty.2
  · rename_i hparty
    simp only [Bool.and_eq_true, decide_eq_true_eq, not_and_or, ne_eq, not_not] at hparty
    refine .call (fun closed w₂ h₂ => ?_)
    obtain rfl : some inv = closed := by
      have hclose : (w.data.invites.close ⟨i⟩).1 = closed := congrArg Prod.fst h₂
      rw [← hclose]
      unfold InviteStore.close
      rw [show w.data.invites.byId.lookup ⟨i⟩ = some inv from hfound]
    refine (Prog.All.traced (S := Call.indifferent) ?_ _ _).mono (fun tr hr => ?_)
    · cases st.pool with
      | false => trivial
      | true => exact ⟨trivial, fun _ => trivial⟩
    · rw [told_cons (c := .invitesGet ⟨i⟩) trivial]
      refine iff_of_false (not_told_close (fun e he => (hr e he).silent) (fun x hx => hr _ hx)) (not_not.2 ?_)
      exact ⟨⟨dog⟩, rfl, inv, hfound, hparty⟩

theorem endSession_told (h : HeaderMap) (i : Uuid) (b : EndSessionRequest) :
    (endSession st h i b).Traced (exec st) κ w (Told st.formats) := by
  unfold endSession
  simp only [sessionsGet, sessionsEnd, sql, Prog.op_bind, Prog.pure_eq]
  cases verifyDevice st h b.terminalId b.dogId with
  | error s => exact .done told_nil
  | ok u =>
  refine .call (fun found w₁ h₁ => ?_)
  have hfound : w.data.sessions.get ⟨i⟩ = found := congrArg Prod.fst h₁
  obtain rfl : w = w₁ := congrArg Prod.snd h₁
  have hlooked : Told st.formats [⟨.sessionsGet ⟨i⟩, found⟩] := (told_cons (c := .sessionsGet ⟨i⟩) trivial).2 told_nil
  cases found with
  | none => exact .done hlooked
  | some x =>
  dsimp only
  split
  · exact .done hlooked
  refine .call (fun again w₂ h₂ => ?_)
  obtain rfl : some x = again := hfound.symm.trans (congrArg Prod.fst h₂)
  obtain rfl : w = w₂ := congrArg Prod.snd h₂
  simp only [publishMany, publish, Prog.op_bind, Prog.pure_eq, Prog.call_bind, Prog.done_bind]
  refine .call (fun _ w₃ h₃ => .call (fun _ w₄ h₄ => .call (fun ended w₅ h₅ => ?_)))
  obtain rfl : some x = ended := by
    have hended : (w₄.data.sessions.endSession ⟨i⟩).1 = ended := congrArg Prod.fst h₅
    have hsame : w₄.data.sessions = w.data.sessions := congrArg Ledger.sessions
      ((aside_step (c := .publish x.dogB _) trivial h₄).trans (aside_step (c := .publish x.dogA _) trivial h₃))
    rw [← hended, hsame]
    unfold SessionStore.endSession
    rw [show w.data.sessions.byId.lookup ⟨i⟩ = some x from hfound]
  refine (Prog.All.traced (S := Call.indifferent) ?_ _ _).mono (fun tr hr => ?_)
  · cases st.pool with
    | false => trivial
    | true => exact ⟨trivial, fun _ => trivial⟩
  · rw [told_cons (c := .sessionsGet ⟨i⟩) trivial, told_cons (c := .sessionsGet ⟨i⟩) trivial]
    exact told_end hr

/-- The end of the session of a dog that is stopped. -/
theorem stop_told {d : DogId} {w' : World} (hw : w.Consistent) (hs : w'.data.sessions = w.data.sessions)
    {rest : Option SessionRecord → Api Reply} (hnone : (rest none).All Call.indifferent)
    (hsome : ∀ x, ∃ p : Api Reply, rest (some x) = .call (.sessionsEnd x.id) (fun _ => p) ∧ p.All Call.indifferent)
    (κ : Nat → DateTime) : (Prog.call (Call.sessionsForDog d) rest).Traced (exec st) κ w'
      (fun tr => Told F tr ↔ ¬ (w.data.sessions.forDog d).isSome) := by
  refine .call (fun found w₁ h₁ => ?_)
  have hfound : w'.data.sessions.forDog d = found := congrArg Prod.fst h₁
  obtain rfl : w' = w₁ := congrArg Prod.snd h₁
  rw [hs] at hfound
  rw [hfound]
  cases found with
  | none =>
    refine (hnone.traced _ _).mono (fun tr hr => iff_of_true ?_ (fun h => by cases h))
    exact (told_cons (c := .sessionsForDog d) trivial).2 (told_of_indifferent hr)
  | some x =>
    obtain ⟨p, hp, hall⟩ := hsome x
    rw [hp]
    refine .call (fun ended w₂ h₂ => ?_)
    obtain rfl : some x = ended := by
      have hended : (w'.data.sessions.endSession x.id).1 = ended := congrArg Prod.fst h₂
      have hget : w.data.sessions.get x.id = some x := by
        obtain ⟨id, -, hx⟩ := Option.bind_eq_some_iff.1 hfound
        rw [hw.sessions.keyed hx]
        exact hx
      rw [← hended, hs]
      unfold SessionStore.endSession
      rw [show w.data.sessions.byId.lookup x.id = some x from hget]
    refine (hall.traced _ _).mono (fun tr hr => iff_of_false ?_ (fun h => h rfl))
    rw [told_cons (c := .sessionsForDog d) trivial]
    refine not_told_end (x := x) ?_ List.mem_cons_self
    exact List.forall_mem_cons.2 ⟨trivial, fun e he => (hr e he).silent⟩

theorem stewardEstop_told (hw : w.Consistent) (h : HeaderMap) (d : DogId) (on : Bool) :
    (stewardEstop st h d on).Traced (exec st) κ w
      (fun tr => Told F tr ↔ ¬ EndsSilently st w κ (.stewardEstop h d on)) := by
  unfold stewardEstop EndsSilently
  simp only [setEstop, policiesGet, policiesEnsure, policiesSet, sessionsForDog, sessionsEnd, sql, Prog.call_bind,
    Prog.done_bind, Prog.op_eq, Prog.pure_eq]
  cases verifySteward st h with
  | error s => exact .done (iff_of_true told_nil (fun hs => by cases hs.1))
  | ok u =>
  refine .call (fun p w₁ h₁ => .call (fun _ w₂ h₂ => ?_))
  have hs₂ : w₂.data.sessions = w.data.sessions := congrArg Ledger.sessions
    ((setPolicy_step h₂).trans (congrArg (Ledger.setPolicy _) (aside_step (c := .policiesEnsure d) trivial h₁)))
  have hset : ∀ {tr : List Made} {q : DogPolicy} {v : Unit},
      Told F (⟨.policiesEnsure d, p⟩ :: ⟨.policiesSet q, v⟩ :: tr) ↔ Told F tr := fun {tr q v} =>
    (told_cons (c := .policiesEnsure d) trivial).trans (told_cons (c := .policiesSet q) trivial)
  cases on with
  | false =>
    have hidle : ∀ {α : Prop}, ¬ ((Except.ok u : Except StatusCode Unit).isOk = true ∧ false = true ∧ α) :=
      fun h => by cases h.2.1
    cases st.pool with
    | false => exact .done (iff_of_true (hset.2 told_nil) hidle)
    | true =>
      refine .call (fun q w₃ h₃ => .call (fun _ w₄ h₄ => .done (iff_of_true (hset.2 ?_) hidle)))
      rw [told_cons (c := .policiesEnsure d) trivial, told_cons (c := .sql (.savePolicy q)) trivial]
      exact told_nil
  | true =>
    have hbusy : ∀ {α : Prop}, ((Except.ok u : Except StatusCode Unit).isOk = true ∧ true = true ∧ α) ↔ α :=
      ⟨fun h => h.2.2, fun h => ⟨rfl, rfl, h⟩⟩
    cases st.pool with
    | false =>
      rw [if_neg Bool.false_ne_true, if_pos rfl]
      refine (stop_told (F := F) hw hs₂ ?_ (fun x => ?_) _).mono (fun tr hr => ?_)
      · trivial
      · exact ⟨_, rfl, trivial⟩
      · rw [hset, hbusy]
        exact hr
    | true =>
      refine .call (fun q w₃ h₃ => .call (fun _ w₄ h₄ => ?_))
      have hs₄ : w₄.data.sessions = w.data.sessions := (congrArg Ledger.sessions
        ((aside_step (c := .sql (.savePolicy q)) trivial h₄).trans
          (aside_step (c := .policiesEnsure d) trivial h₃))).trans hs₂
      rw [if_pos rfl]
      refine (stop_told (F := F) hw hs₄ ?_ (fun x => ?_) _).mono (fun tr hr => ?_)
      · trivial
      · exact ⟨_, rfl, trivial, fun _ => trivial⟩
      · rw [hset, hbusy, told_cons (c := .policiesEnsure d) trivial, told_cons (c := .sql (.savePolicy q)) trivial]
        exact hr

/-! ## The tick -/

theorem tickSessions_mayEnd (now : DateTime) : ∀ xs : List SessionRecord, (tickSessions st now xs).All Call.mayEnd
  | [] => trivial
  | x :: rest => by
    unfold tickSessions
    simp only [sessionsEnd, sql, Prog.op_bind]
    refine (tickEnds_all (fun _ => trivial) now x).bind (fun ends => ?_)
    cases ends with
    | false => exact tickSessions_mayEnd now rest
    | true =>
      refine ⟨trivial, fun _ => ?_⟩
      cases st.pool with
      | false => exact tickSessions_mayEnd now rest
      | true => exact ⟨trivial, fun _ => tickSessions_mayEnd now rest⟩

/-- Some session was ended. -/
def SomeEnded (tr : List Made) : Prop := ∃ id x, ⟨.sessionsEnd id, some x⟩ ∈ tr

/-- **The tick ends a session** exactly when one is due. -/
theorem tickSessions_ends (now : DateTime) : ∀ (xs : List SessionRecord) {κ : Nat → DateTime} {w : World},
    (∀ x ∈ xs, w.data.sessions.get x.id = some x) → (tickSessions st now xs).Traced (exec st) κ w
      (fun tr => SomeEnded tr ↔ ∃ x ∈ xs, dueToEnd w.data.policies.current now x = true)
  | [], _, _, _ => by
    refine .done (iff_of_false ?_ ?_)
    · rintro ⟨_, _, h⟩
      cases h
    · rintro ⟨_, h, -⟩
      cases h
  | x :: rest, κ, w, hxs => by
    unfold tickSessions
    simp only [sessionsEnd, sql, Prog.op_bind]
    have hplain : (tickEnds now x).Traced (exec st) κ w (fun tr => ∀ e ∈ tr, e.1.indifferent) :=
      (tickEnds_all (S := Call.indifferent) (fun _ => trivial) now x).traced κ w
    refine .bind hplain (tickEnds_yields now x) (fun tr ends w₁ κ' hr he => ?_)
    obtain ⟨hdue, hl⟩ := he
    have hsessions : w₁.data.sessions = w.data.sessions := congrArg Ledger.sessions hl
    have hpolicies : w₁.data.policies.current = w.data.policies.current := congrArg Ledger.policies hl
    cases ends with
    | false =>
      refine (tickSessions_ends now rest (fun y hy => hsessions ▸ hxs y (List.mem_cons_of_mem x hy))).mono
        (fun tr' ih => ?_)
      have hskip : SomeEnded (tr ++ tr') ↔ SomeEnded tr' := by
        refine exists_congr (fun id => exists_congr (fun y => List.mem_append.trans (or_iff_right ?_)))
        exact fun hy => hr _ hy
      rw [hskip, ih, hpolicies, List.exists_mem_cons_iff]
      refine (or_iff_right ?_).symm
      rw [show dueToEnd w.data.policies.current now x = false from hdue.symm]
      exact Bool.false_ne_true
    | true =>
      rw [if_pos rfl]
      refine .call (fun ended w₂ h₂ => ?_)
      obtain rfl : some x = ended := by
        have hended : (w₁.data.sessions.endSession x.id).1 = ended := congrArg Prod.fst h₂
        rw [← hended, hsessions]
        unfold SessionStore.endSession
        rw [show w.data.sessions.byId.lookup x.id = some x from hxs x List.mem_cons_self]
      have hhere : ∀ tr', SomeEnded (tr ++ ⟨.sessionsEnd x.id, some x⟩ :: tr') := fun tr' =>
        ⟨x.id, x, List.mem_append_right tr List.mem_cons_self⟩
      exact iff_of_true (hhere _) ⟨x, List.mem_cons_self, hdue.symm⟩

theorem policyTick_told (hw : w.Consistent) : (policyTick st).Traced (exec st) κ w
    (fun tr => Told F tr ↔ ¬ EndsSilently st w κ .policyTick) := by
  unfold policyTick EndsSilently
  simp only [utcNow, expireDue, sessionsAll, Prog.op_bind, Prog.pure_eq]
  refine .call (fun now w₁ h₁ => .call (fun due w₂ h₂ => ?_))
  obtain rfl : κ 0 = now := congrArg Prod.fst h₁
  obtain rfl : w = w₁ := congrArg Prod.snd h₁
  have hdue : (w.data.invites.expireDue st.order (κ 0)).1 = due := congrArg Prod.fst h₂
  refine .bind ((dropInvites_all (S := Call.indifferent) st (fun _ => trivial) due).traced _ _) (dropInvites_yields due)
    (fun tr _ w₃ κ' hr l₃ => .call (fun xs w₄ h₄ => ?_))
  rw [expire_step h₂] at l₃
  have hsessions : w₃.data.sessions = w.data.sessions :=
    (congrArg Ledger.sessions l₃).trans (Ledger.dropAll_sessions st _ _)
  have hpolicies : w₃.data.policies.current = w.data.policies.current :=
    (congrArg Ledger.policies l₃).trans (Ledger.dropAll_policies st _ _)
  obtain rfl : w₃.data.sessions.all st.order = xs := congrArg Prod.fst h₄
  obtain rfl : w₃ = w₄ := congrArg Prod.snd h₄
  have hall : ∀ x, x ∈ w₃.data.sessions.all st.order ↔ ∃ id, w.data.sessions.get id = some x := by
    intro x
    rw [hsessions]
    exact SessionStore.mem_all
  have hkeyed : ∀ x ∈ w₃.data.sessions.all st.order, w₃.data.sessions.get x.id = some x := by
    intro x hx
    obtain ⟨id, hid⟩ := (hall x).1 hx
    rw [hsessions, hw.sessions.keyed hid]
    exact hid
  refine .bind (((tickSessions_mayEnd (κ 0) _).traced _ _).and (tickSessions_ends (κ 0) _ hkeyed))
    (Prog.yields_of_step (I := fun _ => True) (fun _ _ _ _ => trivial) _ trivial)
    (fun tr' _ w₅ κ'' hr' _ => .done ?_)
  obtain ⟨hmay, hends⟩ := hr'
  rw [List.append_nil]
  have hrest : ∀ e ∈ tr ++ ⟨.sessionsAll, w₃.data.sessions.all st.order⟩ :: tr', e.1.mayEnd := by
    intro e he
    rcases List.mem_append.1 he with he | he
    · exact (hr e he).mayEnd
    · rcases List.mem_cons.1 he with rfl | he
      · trivial
      · exact hmay e he
  have hsome : SomeEnded (tr ++ ⟨.sessionsAll, w₃.data.sessions.all st.order⟩ :: tr') ↔ SomeEnded tr' := by
    refine exists_congr (fun id => exists_congr (fun y => List.mem_append.trans ((or_iff_right ?_).trans
      (List.mem_cons.trans (or_iff_right ?_)))))
    · exact fun hy => hr _ hy
    · exact fun he => by cases he
  rw [told_cons (c := .utcNow) trivial, told_sweep_ends hrest, ← hdue, expireDue_eq_nil, not_or]
  refine and_congr_right (fun _ => ?_)
  have hnone : (∀ id x, ⟨.sessionsEnd id, some x⟩ ∉ tr ++ ⟨.sessionsAll, w₃.data.sessions.all st.order⟩ :: tr') ↔
      ¬ SomeEnded (tr ++ ⟨.sessionsAll, w₃.data.sessions.all st.order⟩ :: tr') := by
    unfold SomeEnded
    simp only [not_exists]
  rw [hnone, hsome, hends, hpolicies]
  refine not_congr ⟨?_, ?_⟩
  · rintro ⟨x, hx, hd⟩
    obtain ⟨id, hid⟩ := (hall x).1 hx
    exact ⟨id, x, hid, hd⟩
  · rintro ⟨id, x, hx, hd⟩
    exact ⟨x, (hall x).2 ⟨id, hx⟩, hd⟩

/-! ## accept_invite -/

theorem acceptInvite_silent (h : HeaderMap) (i : Uuid) (b : JsonBody) :
    (acceptInviteHandler st h i b).All Call.silent := by
  unfold acceptInviteHandler
  simp only [utcNow, expireDue, policiesGet, policiesEnsure, invitesGet, isPresent, newUuid, invitesClose,
    sessionsInsert, sql, publishMany, publish, Prog.op_bind, Prog.call_bind, Prog.done_bind, Prog.pure_eq]
  cases st.formats.parseUuid b.dogId with
  | none => trivial
  | some dog =>
  cases st.formats.parseUuid b.terminalId with
  | none => trivial
  | some terminal =>
  dsimp only
  cases verifyDevice st h ⟨terminal⟩ ⟨dog⟩ with
  | error s => trivial
  | ok u =>
  refine ⟨trivial, fun now => ⟨trivial, fun pol => ?_⟩⟩
  dsimp only
  cases socialAllowed pol now with
  | error e => trivial
  | ok u =>
  refine ⟨trivial, fun _ => ⟨trivial, fun found => ?_⟩⟩
  cases found with
  | none => trivial
  | some invite =>
  refine ⟨trivial, fun present => ⟨trivial, fun sessionId => ?_⟩⟩
  dsimp only
  cases acceptInvite ⟨sessionId⟩ invite ⟨dog⟩ present now with
  | none => trivial
  | some checked =>
  cases checked with
  | error e => trivial
  | ok session =>
  dsimp only
  cases (seconds (asI64 pol.maxSessionSec)).bind now.plus with
  | none => trivial
  | some maxEndAt =>
  cases (seconds (asI64 pol.segmentSec)).bind now.plus with
  | none => trivial
  | some segmentDeadlineAt =>
  refine ⟨trivial, fun _ => ⟨trivial, fun inserted => ?_⟩⟩
  cases inserted with
  | error e => trivial
  | ok u =>
  cases st.pool with
  | false => exact ⟨trivial, fun _ => ⟨trivial, fun _ => trivial⟩⟩
  | true => exact ⟨trivial, fun _ => ⟨trivial, fun _ => ⟨trivial, fun _ => ⟨trivial, fun _ => trivial⟩⟩⟩⟩

/-- What an accepted session was made of. -/
theorem acceptedSession_some {now : DateTime} {h : HeaderMap} {i : Uuid} {b : JsonBody} {x : SessionRecord}
    (hx : acceptedSession st w now h i b = some x) : ∃ dog inv session maxEndAt segmentDeadlineAt,
      jsonCaller st h b = some dog ∧ w.data.invites.get ⟨i⟩ = some inv ∧
      socialAllowed (w.data.policies.current dog) now = .ok () ∧
      acceptInvite ⟨w.nextUuid⟩ inv dog (w.data.presence.isPresent dog now) now = some (.ok session) ∧
      (seconds (asI64 (w.data.policies.current dog).maxSessionSec)).bind now.plus = some maxEndAt ∧
      (seconds (asI64 (w.data.policies.current dog).segmentSec)).bind now.plus = some segmentDeadlineAt ∧
      x = { session with state := .negotiating, maxEndAt, segmentDeadlineAt } := by
  unfold acceptedSession at hx
  split at hx
  · cases hx
  · rename_i dog inv hthrough
    obtain ⟨hcaller, hget, hok, -⟩ := acceptThrough_some hthrough
    split at hx
    · rename_i session maxEndAt segmentDeadlineAt ha hmax hseg
      cases hx
      exact ⟨dog, inv, session, maxEndAt, segmentDeadlineAt, hcaller, hget, hok, ha, hmax, hseg, rfl⟩
    · cases hx

theorem acceptedSession_eq {now : DateTime} {h : HeaderMap} {i : Uuid} {b : JsonBody} {dog : DogId} {inv : Invite}
    {session : SessionRecord} {maxEndAt segmentDeadlineAt : DateTime} {u : Unit}
    (hcaller : jsonCaller st h b = some dog) (hget : w.data.invites.get ⟨i⟩ = some inv)
    (hok : socialAllowed (w.data.policies.current dog) now = .ok u)
    (ha : acceptInvite ⟨w.nextUuid⟩ inv dog (w.data.presence.isPresent dog now) now = some (.ok session))
    (hmax : (seconds (asI64 (w.data.policies.current dog).maxSessionSec)).bind now.plus = some maxEndAt)
    (hseg : (seconds (asI64 (w.data.policies.current dog).segmentSec)).bind now.plus = some segmentDeadlineAt) :
    acceptedSession st w now h i b = some { session with state := .negotiating, maxEndAt, segmentDeadlineAt } := by
  have hthrough : acceptThrough st w now h i b = some (dog, inv) := by
    unfold acceptThrough
    rw [hcaller, hget]
    refine if_pos ?_
    rw [hok, (acceptInvite_ok ha).1]
    rfl
  unfold acceptedSession
  rw [hthrough]
  dsimp only
  rw [ha, hmax, hseg]

theorem accept_denied {h : HeaderMap} {i : Uuid} {b : JsonBody} (hc : jsonCaller st h b = none) :
    ¬ EndsSilently st w κ (.acceptInvite h i b) := by
  rintro (⟨dog, hdog, -⟩ | ⟨x, hx, -⟩)
  · rw [hc] at hdog
    cases hdog
  · obtain ⟨_, _, _, _, _, hcaller, -⟩ := acceptedSession_some hx
    rw [hcaller] at hc
    cases hc

theorem nextUuid_kept {c : Call} (hc : c ≠ .newUuid) {t : DateTime} {r : c.Resp} {w' : World}
    (h : exec st t c w = (r, w')) : w'.nextUuid = w.nextUuid := by
  rw [← show (exec st t c w).2 = w' from congrArg Prod.snd h]
  cases c with
  | newUuid => exact absurd rfl hc
  | invitesInsert inv => exact invitesInsert_keeps st t w (·.nextUuid) (fun _ => rfl) inv
  | sessionsInsert x => exact sessionsInsert_keeps st t w (·.nextUuid) (fun _ => rfl) x
  | _ => rfl

theorem expire_of_not_due {now : DateTime} (hdue : ¬ SomeDue w now) : w.ledger.expire now = w.ledger := by
  refine Ledger.ext (funext (fun id => ?_)) rfl rfl rfl rfl rfl
  show (w.data.invites.get id).filter _ = w.data.invites.get id
  cases hid : w.data.invites.get id with
  | none => rfl
  | some inv =>
    rw [Option.filter_eq_some_iff]
    refine ⟨rfl, ?_⟩
    cases hexp : isExpired inv now with
    | false => rfl
    | true => exact absurd ⟨id, inv, hid, hexp⟩ hdue

theorem swept_nil {t now : DateTime} {w₁ w₂ : World} {out : List Invite} (h : exec st t (.expireDue now) w₁ = (out, w₂))
    (hl : w₁.ledger = w.ledger) : out = [] ↔ ¬ SomeDue w now := by
  have hsame : w₁.data.invites.get = w.data.invites.get := congrArg Ledger.invites hl
  have hout : (w₁.data.invites.expireDue st.order now).1 = out := congrArg Prod.fst h
  rw [← hout, expireDue_eq_nil]
  unfold SomeDue
  rw [hsame]

/-- The end of an accept: the invite is closed, and told of unless the session store is busy. -/
theorem begin_told {i : Uuid} {inv : Invite} {x : SessionRecord} {w₀ : World} {rest : Except String Unit → Api Reply}
    (hl : w₀.ledger = w.ledger) (hget : w.data.invites.get ⟨i⟩ = some inv) (hx : x.inviteId = inv.id)
    (hrest : ∀ r, (rest r).All Call.indifferent) (κ : Nat → DateTime) :
    (Prog.call (Call.invitesClose ⟨i⟩) (fun _ => Prog.call (Call.sessionsInsert x) rest)).Traced (exec st) κ w₀
      (fun tr => Told F tr ↔ ¬ (x.dogA ∈ w.data.sessions.byDog ∨ x.dogB ∈ w.data.sessions.byDog)) := by
  refine .call (fun closed w₁ h₁ => .call (fun inserted w₂ h₂ => ?_))
  obtain rfl : some inv = closed := by
    have hclose : (w₀.data.invites.close ⟨i⟩).1 = closed := congrArg Prod.fst h₁
    have hfound : w₀.data.invites.get ⟨i⟩ = some inv := (congrFun (congrArg Ledger.invites hl) ⟨i⟩).trans hget
    rw [← hclose]
    unfold InviteStore.close
    rw [show w₀.data.invites.byId.lookup ⟨i⟩ = some inv from hfound]
  have hsessions : w₁.ledger.sessions = w.data.sessions := by
    rw [close_step h₁, hl]
    rfl
  have h₂ := sessionsInsert_step h₂
  rw [hsessions] at h₂
  refine ((hrest inserted).traced _ _).mono (fun tr hr => ?_)
  cases inserted with
  | error e =>
    refine iff_of_false (not_told_close ?_ ?_) (not_not.2 ?_)
    · exact List.forall_mem_cons.2 ⟨trivial, fun e he => (hr e he).silent⟩
    · intro y hy
      rcases List.mem_cons.1 hy with he | hy
      · cases he
      · exact hr _ hy
    · by_contra hfree
      have hbusy := h₂.1
      unfold SessionStore.insert at hbusy
      rw [if_neg hfree] at hbusy
      cases hbusy
  | ok u =>
    obtain ⟨s, hins, -⟩ := h₂
    obtain ⟨hfreeA, hfreeB, -⟩ := SessionStore.insert_ok hins
    refine iff_of_true (told_begun hx hr) ?_
    rw [not_or, ← AList.lookup_eq_none, ← AList.lookup_eq_none]
    exact ⟨hfreeA, hfreeB⟩

theorem acceptInvite_told (h : HeaderMap) (i : Uuid) (b : JsonBody) :
    (acceptInviteHandler st h i b).Traced (exec st) κ w
    (fun tr => Told F tr ↔ ¬ EndsSilently st w κ (.acceptInvite h i b)) := by
  refine .given ((acceptInvite_silent h i b).traced κ w) ?_
  unfold acceptInviteHandler
  simp only [utcNow, expireDue, policiesGet, policiesEnsure, invitesGet, isPresent, newUuid, invitesClose,
    sessionsInsert, sql, publishMany, publish, Prog.op_bind, Prog.call_bind, Prog.done_bind, Prog.pure_eq]
  cases hd : st.formats.parseUuid b.dogId with
  | none => exact .done (fun _ => iff_of_true told_nil (accept_denied (by unfold jsonCaller; rw [hd])))
  | some dog =>
  cases ht : st.formats.parseUuid b.terminalId with
  | none => exact .done (fun _ => iff_of_true told_nil (accept_denied (by unfold jsonCaller; rw [hd, ht])))
  | some terminal =>
  dsimp only
  cases hv : verifyDevice st h ⟨terminal⟩ ⟨dog⟩ with
  | error s =>
    refine .done (fun _ => iff_of_true told_nil (accept_denied ?_))
    unfold jsonCaller
    rw [hd, ht]
    exact if_neg (by rw [hv]; exact Bool.false_ne_true)
  | ok u =>
  have hcaller := jsonCaller_eq hd ht hv
  refine .call (fun now w₁ h₁ => .call (fun pol w₂ h₂ => ?_))
  obtain rfl : κ 0 = now := congrArg Prod.fst h₁
  have l₁ := aside_step (c := .utcNow) trivial h₁
  have l₂ := (aside_step (c := .policiesEnsure ⟨dog⟩) trivial h₂).trans l₁
  obtain rfl : pol = w.data.policies.current ⟨dog⟩ :=
    (ensure_step h₂).trans (congrFun (congrArg Ledger.policies l₁) _)
  have hplain : ∀ {tr : List Made}, Told F (⟨.utcNow, κ 0⟩ ::
      ⟨.policiesEnsure ⟨dog⟩, w.data.policies.current ⟨dog⟩⟩ :: tr) ↔ Told F tr :=
    (told_cons (c := .utcNow) trivial).trans (told_cons (c := .policiesEnsure ⟨dog⟩) trivial)
  cases hs : socialAllowed (w.data.policies.current ⟨dog⟩) (κ 0) with
  | error e =>
    refine .done (fun _ => iff_of_true (hplain.2 told_nil) ?_)
    rintro (⟨d, hd', hok, -⟩ | ⟨x, hx, -⟩)
    · cases hcaller.symm.trans hd'
      rw [hs] at hok
      cases hok
    · obtain ⟨d, _, _, _, _, hd', -, hok, -⟩ := acceptedSession_some hx
      cases hcaller.symm.trans hd'
      cases hs.symm.trans hok
  | ok u =>
  refine .call (fun out w₃ h₃ => ?_)
  have hout := swept_nil h₃ l₂
  by_cases hdue : SomeDue w (κ 0)
  · -- the sweep takes something, and no accept publishes an end
    refine .of_forall (fun tr hr => iff_of_false (fun htold => ?_) (not_not.2 (.inl ⟨⟨dog⟩, hcaller, ?_, hdue⟩)))
    · obtain ⟨inv, hinv⟩ := List.exists_mem_of_ne_nil out (fun hnil => hout.1 hnil hdue)
      refine ((told_silent_iff hr).1 htold).2 inv (.inl ⟨κ 0, out, ?_, hinv⟩)
      exact List.mem_cons_of_mem _ (List.mem_cons_of_mem _ List.mem_cons_self)
    · rw [hs]
      rfl
  obtain rfl : out = [] := hout.2 hdue
  have l₃ : w₃.ledger = w.ledger := by rw [expire_step h₃, l₂, expire_of_not_due hdue]
  have hsilent : EndsSilently st w κ (.acceptInvite h i b) ↔
      ∃ x ∈ acceptedSession st w (κ 0) h i b, x.dogA ∈ w.data.sessions.byDog ∨ x.dogB ∈ w.data.sessions.byDog := by
    refine or_iff_right ?_
    rintro ⟨_, _, _, h⟩
    exact hdue h
  rw [hsilent]
  refine .call (fun found w₄ h₄ => ?_)
  have l₄ := (aside_step (c := .invitesGet ⟨i⟩) trivial h₄).trans l₃
  have hfound : w.data.invites.get ⟨i⟩ = found := by
    rw [← show w₃.data.invites.get = w.data.invites.get from congrArg Ledger.invites l₃]
    exact congrArg Prod.fst h₄
  have hlooked : ∀ {tr : List Made}, Told F (⟨.utcNow, κ 0⟩ ::
      ⟨.policiesEnsure ⟨dog⟩, w.data.policies.current ⟨dog⟩⟩ :: ⟨.expireDue (κ 0), []⟩ ::
      ⟨.invitesGet ⟨i⟩, found⟩ :: tr) ↔ Told F tr :=
    hplain.trans (told_swept.trans (told_cons (c := .invitesGet ⟨i⟩) trivial))
  cases found with
  | none =>
    refine .done (fun _ => iff_of_true (hlooked.2 told_nil) ?_)
    rintro ⟨x, hx, -⟩
    obtain ⟨_, _, _, _, _, -, hget, -⟩ := acceptedSession_some hx
    cases hfound.symm.trans hget
  | some inv =>
  refine .call (fun present w₅ h₅ => .call (fun sessionId w₆ h₆ => ?_))
  have l₆ := (aside_step (c := .newUuid) trivial h₆).trans
    ((aside_step (c := .isPresent ⟨dog⟩ (κ 0)) trivial h₅).trans l₄)
  obtain rfl : w.data.presence.isPresent ⟨dog⟩ (κ 0) = present := by
    rw [← scene_presence (c := .utcNow) trivial h₁, ← scene_presence (c := .policiesEnsure ⟨dog⟩) trivial h₂,
      ← expireDue_presence h₃, ← scene_presence (c := .invitesGet ⟨i⟩) trivial h₄]
    exact congrArg Prod.fst h₅
  obtain rfl : w.nextUuid = sessionId := by
    rw [← (newUuid_step h₆).1, nextUuid_kept (c := .isPresent ..) (fun h => by cases h) h₅,
      nextUuid_kept (c := .invitesGet _) (fun h => by cases h) h₄,
      nextUuid_kept (c := .expireDue _) (fun h => by cases h) h₃,
      nextUuid_kept (c := .policiesEnsure _) (fun h => by cases h) h₂,
      nextUuid_kept (c := .utcNow) (fun h => by cases h) h₁]
  have hread : ∀ {tr : List Made}, Told F (⟨.utcNow, κ 0⟩ ::
      ⟨.policiesEnsure ⟨dog⟩, w.data.policies.current ⟨dog⟩⟩ :: ⟨.expireDue (κ 0), []⟩ ::
      ⟨.invitesGet ⟨i⟩, some inv⟩ :: ⟨.isPresent ⟨dog⟩ (κ 0), w.data.presence.isPresent ⟨dog⟩ (κ 0)⟩ ::
      ⟨.newUuid, w.nextUuid⟩ :: tr) ↔ Told F tr :=
    hlooked.trans ((told_cons (c := .isPresent ⟨dog⟩ (κ 0)) trivial).trans (told_cons (c := .newUuid) trivial))
  have hmade : ∀ {x}, acceptedSession st w (κ 0) h i b = some x → ∃ session maxEndAt segmentDeadlineAt,
      acceptInvite ⟨w.nextUuid⟩ inv ⟨dog⟩ (w.data.presence.isPresent ⟨dog⟩ (κ 0)) (κ 0) = some (.ok session) ∧
      (seconds (asI64 (w.data.policies.current ⟨dog⟩).maxSessionSec)).bind (κ 0).plus = some maxEndAt ∧
      (seconds (asI64 (w.data.policies.current ⟨dog⟩).segmentSec)).bind (κ 0).plus = some segmentDeadlineAt := by
    intro x hx
    obtain ⟨d, inv', session, maxEndAt, segmentDeadlineAt, hd', hget, -, ha, hmax, hseg, -⟩ := acceptedSession_some hx
    cases hcaller.symm.trans hd'
    cases hfound.symm.trans hget
    exact ⟨session, maxEndAt, segmentDeadlineAt, ha, hmax, hseg⟩
  cases ha : acceptInvite ⟨w.nextUuid⟩ inv ⟨dog⟩ (w.data.presence.isPresent ⟨dog⟩ (κ 0)) (κ 0) with
  | none =>
    refine .done (fun _ => iff_of_true (hread.2 told_nil) ?_)
    rintro ⟨x, hx, -⟩
    obtain ⟨_, _, _, ha', -⟩ := hmade hx
    cases ha.symm.trans ha'
  | some checked =>
  cases checked with
  | error e =>
    refine .done (fun _ => iff_of_true (hread.2 told_nil) ?_)
    rintro ⟨x, hx, -⟩
    obtain ⟨_, _, _, ha', -⟩ := hmade hx
    cases ha.symm.trans ha'
  | ok session =>
  dsimp only
  cases hmax : (seconds (asI64 (w.data.policies.current ⟨dog⟩).maxSessionSec)).bind (κ 0).plus with
  | none =>
    refine .done (fun _ => iff_of_true (hread.2 told_nil) ?_)
    rintro ⟨x, hx, -⟩
    obtain ⟨_, _, _, -, hmax', -⟩ := hmade hx
    cases hmax.symm.trans hmax'
  | some maxEndAt =>
  cases hseg : (seconds (asI64 (w.data.policies.current ⟨dog⟩).segmentSec)).bind (κ 0).plus with
  | none =>
    refine .done (fun _ => iff_of_true (hread.2 told_nil) ?_)
    rintro ⟨x, hx, -⟩
    obtain ⟨_, _, _, -, -, hseg'⟩ := hmade hx
    cases hseg.symm.trans hseg'
  | some segmentDeadlineAt =>
  have haccepted := acceptedSession_eq hcaller hfound hs ha hmax hseg
  have hbusy : ∀ {P : SessionRecord → Prop}, (∃ x ∈ acceptedSession st w (κ 0) h i b, P x) ↔
      P { session with state := .negotiating, maxEndAt, segmentDeadlineAt } := by
    intro P
    rw [haccepted]
    constructor
    · rintro ⟨y, hy, h⟩
      cases hy
      exact h
    · exact fun h => ⟨_, rfl, h⟩
  rw [hbusy]
  refine (begin_told (F := F) l₆ hfound ?_ (fun r => ?_) _).mono (fun tr hr _ => hread.trans hr)
  · exact (acceptInvite_ok ha).2.2.1
  · cases r with
    | error e => trivial
    | ok u =>
      cases st.pool with
      | false => exact ⟨trivial, fun _ => ⟨trivial, fun _ => trivial⟩⟩
      | true => exact ⟨trivial, fun _ => ⟨trivial, fun _ => ⟨trivial, fun _ => ⟨trivial, fun _ => trivial⟩⟩⟩⟩

/-! ## Every request -/

theorem kept_told {r : Request} (hc : r.isCancel = false) (ha : r.isAccept = false) (hx : r.expires = false)
    (he : r.ends = false) : (handle st r).Traced (exec st) κ w (Told F) := by
  refine ((handle_makes st r).traced κ w).mono (fun tr hr => told_of_kept (fun e hmem hrem => ?_))
  obtain ⟨c, answer⟩ := e
  have hmade := hr _ hmem
  cases c with
  | invitesClose id =>
    rcases hmade with h | h
    · exact Bool.false_ne_true (hc.symm.trans h)
    · exact Bool.false_ne_true (ha.symm.trans h)
  | expireDue now => exact Bool.false_ne_true (hx.symm.trans hmade)
  | sessionsEnd id => exact Bool.false_ne_true (he.symm.trans hmade)
  | _ => exact hrem

/-- **A request announces every end it brings about** exactly when it ends nothing silently. -/
theorem handle_told (hw : w.Consistent) (r : Request) : (handle st r).Traced (exec st) κ w
    (fun tr => Told st.formats tr ↔ ¬ EndsSilently st w κ r) := by
  cases r with
  | createInvite h b => exact createInvite_told h b
  | incomingInvite h q => exact incomingInvite_told h q
  | cancelInvite h i b => exact cancelInvite_told h i b
  | acceptInvite h i b => exact acceptInvite_told h i b
  | endSession h i b => exact (endSession_told h i b).mono (fun tr h => iff_of_true h id)
  | stewardEstop h d on => exact stewardEstop_told hw h d on
  | policyTick => exact policyTick_told hw
  | _ => exact (kept_told rfl rfl rfl rfl).mono (fun tr h => iff_of_true h id)

end

/-- The calls of the request tell both dogs of every end. -/
def Announced (st : AppState) (s : Server) (a : Arrival) : Prop :=
  (handle st a.req).Traced (exec st) a.clock s.world (Told st.formats)

theorem announced_iff {st : AppState} {s : Server} (hs : s.world.Consistent) (a : Arrival) :
    Announced st s a ↔ ¬ EndsSilently st s.world a.clock a.req := handle_told hs a.req

/-- **A run announces every end of contact exactly when none of its requests ends something silently.** -/
theorem ends_announced {st : AppState} : ∀ {as : List Arrival} {s : Server}, s.world.Consistent →
    (s.Meets st (Announced st) as ↔ s.Meets st (fun s a => ¬ EndsSilently st s.world a.clock a.req) as)
  | [], _, _ => Iff.rfl
  | a :: _, _, hs => and_congr (announced_iff hs a) (ends_announced (Server.serve_consistent a hs))

/-- Dog 2 accepts the call and dog 1 ends the session: both are told. -/
theorem ends_announced_goodbye : Server.Meets bench (Announced bench) ⟨ringing, noon⟩ (Server.timed
    [(noon, .acceptInvite (device 2) 0 (jsonBody 2)),
      (noon, .endSession (device 1) 1 { dogId := ⟨1⟩, terminalId := ⟨1⟩, reason := .done })]) := by
  have hfree : ∀ d, d ∉ ringing.data.sessions.byDog := by
    intro d hd
    have hkeys : d ∈ ringing.data.sessions.byDog.keys := hd
    rw [show ringing.data.sessions.byDog.keys = [] by decide +kernel] at hkeys
    cases hkeys
  refine (ends_announced ringing_consistent).2 ⟨?_, fun h => h, trivial⟩
  rintro (⟨_, _, _, hdue⟩ | ⟨x, _, hbusy⟩)
  · exact (expireDue_eq_nil .stored ringing noon).1 (by decide +kernel) hdue
  · exact hbusy.elim (hfree _) (hfree _)

/-- **The emergency stop of a dog in a session is announced to neither**: the other one stays in a session that is
gone. -/
theorem estop_unannounced :
    ¬ Server.Meets bench (Announced bench) ⟨fresh, noon⟩ (Server.timed meeting ++ [stopNow]) := by
  intro h
  have hlast := (Server.Meets.append h).2.1
  refine (announced_iff (Server.serveAll_consistent _ (consistent_empty _)) stopNow).1 hlast ?_
  exact ⟨rfl, rfl, by decide +kernel⟩

end CanisLink
