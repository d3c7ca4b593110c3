import CanisLink.Server
/-!
# Handshake — what a handler has done before it writes an invite or a session

`create_invite` asks for the sessions of both dogs before it inserts an invite; `accept_invite_handler` reads and closes
an invite before it inserts a session.  `handle_along` states this over each handler's own calls, so that it holds in
every interleaving.
-/
namespace CanisLink

open Interleave (Prog Pool Step own)
open Api

/-- Program `i` asked for sessions only of dogs that had none. -/
def FoundFree (i : Nat) (h : List ApiStep) : Prop :=
  ∀ t d r, (⟨i, t, .sessionsForDog d, r⟩ : ApiStep) ∈ h → r = none

/-- What program `i` did before it inserts the session `x`: it read one invite, once, and closed it. -/
def AcceptPast (i : Nat) (h : List ApiStep) (x : SessionRecord) : Prop :=
  ∃ id inv, (∃ t, (⟨i, t, .invitesGet id, some inv⟩ : ApiStep) ∈ h) ∧
    (∃ t r, (⟨i, t, .invitesClose id, r⟩ : ApiStep) ∈ h) ∧
    (∀ e ∈ h, ∀ id', e.cmd = .invitesGet id' → ∃ t, e = ⟨i, t, .invitesGet id, some inv⟩) ∧
    (∀ e ∈ h, ∀ y, e.cmd ≠ .sessionsInsert y) ∧ x.inviteId = inv.id ∧ x.dogA = inv.fromDog ∧ x.dogB = inv.toDog

def HandshakeNext (i : Nat) (h : List ApiStep) : Call → Prop
  | .sessionsInsert x => AcceptPast i h x
  | .invitesGet _ => ∀ e ∈ h, ∀ id, e.cmd ≠ .invitesClose id
  | .invitesInsert _ => FoundFree i h
  | _ => True

def Anything (_ : List ApiStep) (_ : Reply) : Prop := True

theorem FoundFree.snoc {i : Nat} {h : List ApiStep} (hf : FoundFree i h) {t : DateTime} {c : Call} {r : c.Resp}
    (hc : ∀ d, c ≠ .sessionsForDog d) : FoundFree i (h ++ [⟨i, t, c, r⟩]) := by
  intro t' d r' hm
  rcases List.mem_append.1 hm with hm | hm
  · exact hf t' d r' hm
  · cases List.mem_singleton.1 hm
    exact absurd rfl (hc d)

section

variable (st : AppState) (i : Nat)

theorem busy_along (d : DogId) {h : List ApiStep} (hf : FoundFree i h) :
    (busy d).Along i (HandshakeNext i) (fun h b => b = false → FoundFree i h) h := by
  refine ⟨trivial, fun t found => ?_⟩
  have hf' : FoundFree i (h ++ [⟨i, t, .invitesForDog d, found⟩]) := hf.snoc (by simp)
  cases found with
  | some inv => exact fun hb => by cases hb
  | none =>
    refine ⟨trivial, fun t' session hb t'' d' r hm => ?_⟩
    rcases List.mem_append.1 hm with hm | hm
    · exact hf' t'' d' r hm
    · cases List.mem_singleton.1 hm
      exact Option.isSome_eq_false_iff.1 hb |> Option.isNone_iff_eq_none.1

theorem createInvite_along (h : HeaderMap) (b : CreateInviteBody) :
    (createInvite st h b).Along i (HandshakeNext i) Anything [] := by
  unfold createInvite
  simp only [utcNow, expireDue, policiesGet, policiesEnsure, invitesLastHour, presentDogIds, isPresent, Api.routeInvite,
    newUuid, invitesInsert, recordInvite, sql, publish, Prog.op_bind, Prog.pure_eq]
  have h0 : FoundFree i [] := fun _ _ _ hm => by cases hm
  cases verifyDevice st h b.terminalId b.dogId with
  | error s => trivial
  | ok u =>
  refine ⟨trivial, fun t₁ now => ⟨trivial, fun t₂ _ => ⟨trivial, fun t₃ pol => ?_⟩⟩⟩
  dsimp only
  cases socialAllowed pol now with
  | error e => trivial
  | ok u =>
  refine ⟨trivial, fun t₄ count => ?_⟩
  dsimp only
  cases inviteRateOk count pol.maxInvitesPerHour with
  | error e => trivial
  | ok u =>
  refine Prog.Along.bind (fun hist callerBusy hfree => ?_)
    (busy_along i b.dogId ((((h0.snoc (by simp)).snoc (by simp)).snoc (by simp)).snoc (by simp)))
  cases callerBusy with
  | true => trivial
  | false =>
  refine ⟨trivial, fun t₅ presentIds => ⟨trivial, fun t₆ callerPresent => ⟨trivial, fun t₇ routed => ?_⟩⟩⟩
  cases routed with
  | error e => trivial
  | ok peer =>
  refine ⟨trivial, fun t₈ peerPol => ?_⟩
  dsimp only
  cases socialAllowed peerPol now with
  | error e => trivial
  | ok u =>
  refine Prog.Along.bind (fun hist' peerBusy hfree' => ?_)
    (busy_along i peer (((((hfree rfl).snoc (by simp)).snoc (by simp)).snoc (by simp)).snoc (by simp)))
  cases peerBusy with
  | true => trivial
  | false =>
  refine ⟨trivial, fun t₉ created => ⟨trivial, fun t₁₀ id => ?_⟩⟩
  dsimp only
  cases newInvite ⟨id⟩ created b.dogId peer b.mode with
  | none => trivial
  | some invite =>
  refine ⟨((hfree' rfl).snoc (by simp)).snoc (by simp), fun t₁₁ inserted => ?_⟩
  cases inserted with
  | error e => trivial
  | ok u =>
  refine ⟨trivial, fun _ _ => ?_⟩
  cases st.pool with
  | false => exact ⟨trivial, fun _ _ => trivial⟩
  | true => exact ⟨trivial, fun _ _ => ⟨trivial, fun _ _ => ⟨trivial, fun _ _ => trivial⟩⟩⟩

theorem publishMany_along (ev : DeviceEvent) : ∀ (ds : List DogId) (h : List ApiStep),
    (publishMany ds ev).Along i (HandshakeNext i) (fun _ _ => True) h
  | [], _ => trivial
  | _ :: ds, _ => ⟨trivial, fun _ _ => publishMany_along ev ds _⟩

theorem acceptInvite_along (h : HeaderMap) (inviteId : Uuid) (b : JsonBody) :
    (acceptInviteHandler st h inviteId b).Along i (HandshakeNext i) Anything [] := by
  unfold acceptInviteHandler
  simp only [utcNow, expireDue, policiesGet, policiesEnsure, invitesGet, isPresent, newUuid, invitesClose,
    sessionsInsert, sql, Prog.op_bind, Prog.pure_eq]
  cases st.formats.parseUuid b.dogId with
  | none => trivial
  | some dog =>
  cases st.formats.parseUuid b.terminalId with
  | none => trivial
  | some terminal =>
  dsimp only
  cases verifyDevice st h ⟨terminal⟩ ⟨dog⟩ with
  | error s => trivial
  | ok u =>
  refine ⟨trivial, fun t₁ now => ⟨trivial, fun t₂ pol => ?_⟩⟩
  dsimp only
  cases socialAllowed pol now with
  | error e => trivial
  | ok u =>
  refine ⟨trivial, fun t₃ _ => ⟨by simp [HandshakeNext], fun t₄ found => ?_⟩⟩
  cases found with
  | none => trivial
  | some inv =>
  refine ⟨trivial, fun t₅ present => ⟨trivial, fun t₆ sessionId => ?_⟩⟩
  dsimp only
  cases ha : acceptInvite ⟨sessionId⟩ inv ⟨dog⟩ present now with
  | none => trivial
  | some checked =>
  cases checked with
  | error e => trivial
  | ok session =>
  dsimp only
  cases (seconds (asI64 pol.maxSessionSec)).bind now.plus with
  | none => trivial
  | some maxEndAt =>
  cases (seconds (asI64 pol.segmentSec)).bind now.plus with
  | none => trivial
  | some segmentDeadlineAt =>
  obtain ⟨-, -, hinv, hA, hB, -⟩ := acceptInvite_ok ha
  refine ⟨trivial, fun t₇ closed => ⟨⟨⟨inviteId⟩, inv, ⟨t₄, by simp⟩, ⟨t₇, closed, by simp⟩, ?_, by simp, hinv, hA, hB⟩,
    fun t₈ inserted => ?_⟩⟩
  · intro e he id' hcmd
    refine ⟨t₄, ?_⟩
    simp only [List.nil_append, List.cons_append, List.mem_cons, List.not_mem_nil, or_false] at he
    rcases he with rfl | rfl | rfl | rfl | rfl | rfl | rfl <;> first | rfl | cases hcmd
  · cases inserted with
    | error e => trivial
    | ok u =>
    cases st.pool with
    | false =>
      refine Prog.Along.bind (fun _ _ _ => ?_) (publishMany_along i _ _ _)
      trivial
    | true =>
      refine ⟨trivial, fun _ _ => ⟨trivial, fun _ _ => Prog.Along.bind (fun _ _ _ => ?_) (publishMany_along i _ _ _)⟩⟩
      trivial

theorem cancelInvite_along (h : HeaderMap) (inviteId : Uuid) (b : JsonBody) :
    (cancelInvite st h inviteId b).Along i (HandshakeNext i) Anything [] := by
  unfold cancelInvite
  simp only [invitesGet, invitesClose, sql, Prog.op_bind, Prog.pure_eq]
  cases st.formats.parseUuid b.dogId with
  | none => trivial
  | some dog =>
  dsimp only
  cases extractDeviceToken st h with
  | error s => trivial
  | ok p =>
  dsimp only
  split
  · trivial
  refine ⟨(by simp [HandshakeNext]), fun _ found => ?_⟩
  cases found with
  | none => trivial
  | some inv =>
  dsimp only
  split
  · trivial
  refine ⟨trivial, fun _ _ => ?_⟩
  cases st.pool with
  | false => trivial
  | true => exact ⟨trivial, fun _ _ => trivial⟩

/-- A request that neither creates, accepts nor cancels closes no invite and inserts nothing. -/
theorem other_along {r : Request} (hc : r.isCreate = false) (ha : r.isAccept = false) (hk : r.isCancel = false) :
    (handle st r).Along i (HandshakeNext i) Anything [] := by
  refine Prog.All.along (N := fun h => ∀ e ∈ h, ∀ id, e.cmd ≠ .invitesClose id) (fun h c hn hm => ⟨?_, fun t x => ?_⟩)
    (fun _ _ _ => trivial) (handle_makes st r) (fun e he => by cases he)
  · cases c with
    | sessionsInsert x => exact absurd hm (by simp [Request.makes, ha])
    | invitesInsert inv => exact absurd hm (by simp [Request.makes, hc])
    | invitesGet id => exact hn
    | _ => trivial
  · intro e he id hcmd
    rcases List.mem_append.1 he with he | he
    · exact hn e he id hcmd
    · rw [List.mem_singleton.1 he] at hcmd
      cases c with
      | invitesClose id' => exact absurd hm (by simp [Request.makes, ha, hk])
      | _ => cases hcmd

/-- **Every handler keeps the order of the handshake**, and makes no writes but its own. -/
theorem handle_along (r : Request) :
    (handle st r).Along i (fun h c => r.makes c ∧ HandshakeNext i h c) Anything [] := by
  refine (handle_makes st r).and_along ?_
  cases r with
  | createInvite h b => exact createInvite_along st i h b
  | acceptInvite h id b => exact acceptInvite_along st i h id b
  | cancelInvite h id b => exact cancelInvite_along st i h id b
  | _ => exact other_along st i rfl rfl rfl

end

/-- Where the handlers of `reqs` may be, after their own calls. -/
def RequestsNext (reqs : List Request) (i : Nat) (h : List ApiStep) (c : Call) : Prop :=
  ∃ r, reqs[i]? = some r ∧ r.makes c ∧ HandshakeNext i h c

theorem requests_follow (st : AppState) (reqs : List Request) (w : World) :
    (Pool.start w (reqs.map (handle st)) : ApiPool).Follows (RequestsNext reqs) (fun _ => Anything) := by
  refine Pool.follows_start (fun i r hr => ?_)
  exact (handle_along st i r).mono (fun h c hc => ⟨r, hr, hc⟩) (fun _ _ _ => trivial)

end CanisLink
