import CanisLink.Pushes
/-!
# Rings — an answered call has rung, an answered accept has been announced

`create_invite` publishes the invite to the callee before it answers, and `accept_invite_handler` the session to both
dogs.  So a device that was connected when the request came in, and has kept up, has been told by the time the request
is answered.
-/
namespace Interleave

variable {C : Type} {R : C → Type} {α σ τ : Type}

/-- Nothing is asked along a program. -/
theorem Prog.along_true (i : Nat) : ∀ (p : Prog R α) (h : List (Step R τ)),
    p.Along i (fun _ _ => True) (fun _ _ => True) h
  | .done _, _ => trivial
  | .call _ k, _ => ⟨trivial, fun _ r => along_true i (k r) _⟩

namespace Pool

variable (exec : τ → (c : C) → σ → R c × σ)

/-- The pool with the log of what happens from the call `k` on. -/
def since (k : Nat) (p : Pool R α σ τ) : Pool R α σ τ := { p with log := p.log.drop k }

theorem since_step {k : Nat} {p : Pool R α σ τ} (hk : k ≤ p.log.length) (l : Nat × τ) :
    (p.step exec l).since k = (p.since k).step exec l := by
  unfold step since
  cases hl : p.threads[l.1]? with
  | none => rfl
  | some q =>
    cases q with
    | done a => rfl
    | call c m => simp only [List.drop_append_of_le_length hk]

end Pool
end Interleave

namespace CanisLink

open Interleave (Prog Pool own)
open Api

/-- Whom the answer to a request says was told, and what. -/
def announced : Request → Reply → List (DogId × DeviceEvent)
  | .createInvite .., .created inv => [(inv.toDog, .inviteRinging inv "slow_pulse_blue")]
  | .acceptInvite .., .accepted x _ => [(x.dogA, .sessionUpdated x), (x.dogB, .sessionUpdated x)]
  | _, _ => []

/-- The calls of a handler published what its answer says. -/
def Announces (r : Request) (h : List ApiStep) (reply : Reply) : Prop :=
  ∀ a ∈ announced r reply, ∃ e ∈ h, e.cmd = .publish a.1 a.2

/-! ## The handlers -/

section

variable (st : AppState) (i : Nat)

theorem createInvite_announces (hd : HeaderMap) (b : CreateInviteBody) :
    (createInvite st hd b).Along i AnyCall (Announces (.createInvite hd b)) [] := by
  unfold createInvite
  simp only [utcNow, expireDue, policiesGet, policiesEnsure, invitesLastHour, presentDogIds, isPresent, Api.routeInvite,
    newUuid, invitesInsert, recordInvite, sql, publish, Prog.op_bind, Prog.pure_eq]
  cases verifyDevice st hd b.terminalId b.dogId with
  | error s => exact fun a ha => by cases ha
  | ok u =>
  refine ⟨trivial, fun _ now => ⟨trivial, fun _ _ => ⟨trivial, fun _ pol => ?_⟩⟩⟩
  dsimp only
  cases socialAllowed pol now with
  | error e => exact fun a ha => by cases ha
  | ok u =>
  refine ⟨trivial, fun _ count => ?_⟩
  dsimp only
  cases inviteRateOk count pol.maxInvitesPerHour with
  | error e => exact fun a ha => by cases ha
  | ok u =>
  refine Prog.Along.bind (fun _ callerBusy _ => ?_) ((busy b.dogId).along_true i _)
  cases callerBusy with
  | true => exact fun a ha => by cases ha
  | false =>
  refine ⟨trivial, fun _ presentIds => ⟨trivial, fun _ callerPresent => ⟨trivial, fun _ routed => ?_⟩⟩⟩
  cases routed with
  | error e => exact fun a ha => by cases ha
  | ok peer =>
  refine ⟨trivial, fun _ peerPol => ?_⟩
  dsimp only
  cases socialAllowed peerPol now with
  | error e => exact fun a ha => by cases ha
  | ok u =>
  refine Prog.Along.bind (fun _ peerBusy _ => ?_) ((busy peer).along_true i _)
  cases peerBusy with
  | true => exact fun a ha => by cases ha
  | false =>
  refine ⟨trivial, fun _ created => ⟨trivial, fun _ id => ?_⟩⟩
  dsimp only
  cases newInvite ⟨id⟩ created b.dogId peer b.mode with
  | none => exact fun a ha => by cases ha
  | some invite =>
  refine ⟨trivial, fun _ inserted => ?_⟩
  cases inserted with
  | error e => exact fun a ha => by cases ha
  | ok u =>
  -- the last call publishes the invite
  have hlast : ∀ (h : List ApiStep) (t : DateTime), Announces (.createInvite hd b)
      (h ++ [⟨i, t, .publish invite.toDog (.inviteRinging invite "slow_pulse_blue"), ()⟩]) (.created invite) := by
    intro h t a ha
    obtain rfl := List.mem_singleton.1 ha
    exact ⟨_, List.mem_append_right _ (List.mem_singleton_self _), rfl⟩
  refine ⟨trivial, fun _ _ => ?_⟩
  cases st.pool with
  | false => exact ⟨trivial, fun _ _ => hlast _ _⟩
  | true => exact ⟨trivial, fun _ _ => ⟨trivial, fun _ _ => ⟨trivial, fun _ _ => hlast _ _⟩⟩⟩

/-- Every dog of the list is told. -/
theorem publishMany_tells (ev : DeviceEvent) : ∀ (ds : List DogId) (h : List ApiStep),
    (publishMany ds ev).Along i AnyCall (fun h' _ => h ⊆ h' ∧ ∀ d ∈ ds, ∃ e ∈ h', e.cmd = .publish d ev) h
  | [], h => ⟨List.Subset.refl h, fun _ hd => by cases hd⟩
  | d :: ds, h => by
    refine ⟨trivial, fun t r => ?_⟩
    refine Prog.Along.mono (fun _ _ hc => hc) (fun h' _ ⟨hsub, htold⟩ => ?_) (publishMany_tells ev ds _)
    refine ⟨fun e he => hsub (List.mem_append_left _ he), fun d' hd' => ?_⟩
    rcases List.mem_cons.1 hd' with rfl | hd'
    · exact ⟨_, hsub (List.mem_append_right _ (List.mem_singleton_self _)), rfl⟩
    · exact htold d' hd'

theorem acceptInvite_announces (hd : HeaderMap) (n : Uuid) (b : JsonBody) :
    (acceptInviteHandler st hd n b).Along i AnyCall (Announces (.acceptInvite hd n b)) [] := by
  unfold acceptInviteHandler
  simp only [utcNow, expireDue, policiesGet, policiesEnsure, invitesGet, isPresent, newUuid, invitesClose,
    sessionsInsert, sql, Prog.op_bind, Prog.pure_eq]
  cases st.formats.parseUuid b.dogId with
  | none => exact fun a ha => by cases ha
  | some dog =>
  cases st.formats.parseUuid b.terminalId with
  | none => exact fun a ha => by cases ha
  | some terminal =>
  dsimp only
  cases verifyDevice st hd ⟨terminal⟩ ⟨dog⟩ with
  | error s => exact fun a ha => by cases ha
  | ok u =>
  refine ⟨trivial, fun _ now => ⟨trivial, fun _ pol => ?_⟩⟩
  dsimp only
  cases socialAllowed pol now with
  | error e => exact fun a ha => by cases ha
  | ok u =>
  refine ⟨trivial, fun _ _ => ⟨trivial, fun _ found => ?_⟩⟩
  cases found with
  | none => exact fun a ha => by cases ha
  | some inv =>
  refine ⟨trivial, fun _ present => ⟨trivial, fun _ sessionId => ?_⟩⟩
  dsimp only
  cases acceptInvite ⟨sessionId⟩ inv ⟨dog⟩ present now with
  | none => exact fun a ha => by cases ha
  | some checked =>
  cases checked with
  | error e => exact fun a ha => by cases ha
  | ok session =>
  dsimp only
  cases (seconds (asI64 pol.maxSessionSec)).bind now.plus with
  | none => exact fun a ha => by cases ha
  | some maxEndAt =>
  cases (seconds (asI64 pol.segmentSec)).bind now.plus with
  | none => exact fun a ha => by cases ha
  | some segmentDeadlineAt =>
  refine ⟨trivial, fun _ _ => ⟨trivial, fun _ inserted => ?_⟩⟩
  cases inserted with
  | error e => exact fun a ha => by cases ha
  | ok u =>
  -- both dogs are told before the answer
  have hlast : ∀ (x : SessionRecord) (role : String) (h : List ApiStep),
      (∀ d ∈ [x.dogA, x.dogB], ∃ e ∈ h, e.cmd = .publish d (.sessionUpdated x)) →
      Announces (.acceptInvite hd n b) h (.accepted x role) := by
    intro x role h htold a ha
    rcases List.mem_cons.1 ha with rfl | ha
    · exact htold _ (by simp)
    · obtain rfl := List.mem_singleton.1 ha
      exact htold _ (by simp)
  cases st.pool with
  | false =>
    refine Prog.Along.bind (fun h' _ htold => ?_) (publishMany_tells i _ _ _)
    exact hlast _ _ h' htold.2
  | true =>
    refine ⟨trivial, fun _ _ => ⟨trivial, fun _ _ =>
      Prog.Along.bind (fun h' _ htold => ?_) (publishMany_tells i _ _ _)⟩⟩
    exact hlast _ _ h' htold.2

/-- **Every handler has published what its answer says.** -/
theorem handle_announces (r : Request) : (handle st r).Along i AnyCall (Announces r) [] := by
  cases r with
  | createInvite h b => exact createInvite_announces st i h b
  | acceptInvite h n b => exact acceptInvite_announces st i h n b
  | _ => exact (handle_makes st _).along_calls (fun _ _ _ => trivial) (fun _ _ _ ha => by cases ha)

end

/-! ## The live server -/

section

variable {st : AppState} {l : Live} {i k : Nat} {r : Request}

/-- Request `i` as it came in at the call `k`; nothing is asked of the others. -/
def AnnouncesOnly (i : Nat) (r : Request) (j : Nat) (h : List ApiStep) (reply : Reply) : Prop :=
  j = i → Announces r h reply

theorem follows_arrived (hr : l.pool.threads[i]? = some (handle st r)) :
    (l.pool.since l.pool.log.length).Follows (fun _ => AnyCall) (AnnouncesOnly i r) := by
  intro j q hq
  have hlog : own j (l.pool.since l.pool.log.length).log = [] := by
    show own j (l.pool.log.drop l.pool.log.length) = []
    rw [List.drop_length]
    rfl
  rw [hlog]
  by_cases hj : j = i
  · subst hj
    obtain rfl := Option.some.inj (hq.symm.trans hr)
    exact (handle_announces st j r).mono (fun _ _ hc => hc) (fun _ _ he _ => he)
  · exact (q.along_true j []).mono (fun _ _ hc => hc) (fun _ _ _ h => absurd h hj)

variable (st) in
/-- **Whatever else the server does, the request goes on along its handler.** -/
theorem follows_live {Q : Nat → List ApiStep → Call → Prop} {E : Nat → List ApiStep → Reply → Prop} :
    ∀ (as : List LiveAction) {l : Live}, k ≤ l.pool.log.length → (l.pool.since k).Follows Q E →
      ((l.run st as).pool.since k).Follows Q E
  | [], _, _, h => h
  | a :: as, l, hk, h => by
    have hstep : k ≤ (l.step st a).pool.log.length ∧ ((l.step st a).pool.since k).Follows Q E := by
      cases a with
      | call i t =>
        rw [Live.step_call]
        refine ⟨?_, ?_⟩
        · rcases Pool.step_cases (exec st) l.pool (i, t) with hs | ⟨c, m, -, hs⟩
          · rw [hs]
            exact hk
          · rw [hs, List.length_append]
            exact hk.trans (Nat.le_add_right _ _)
        · rw [Pool.since_step (exec st) hk]
          exact h.step (i, t)
      | connect hd q ok =>
        cases hws : deviceWs st hd q with
        | error e =>
          rw [Live.step_refuse hws]
          exact ⟨hk, h⟩
        | ok d =>
          rw [Live.step_connect hws]
          exact ⟨hk, h⟩
      | turn n t => exact ⟨hk, h⟩
    exact follows_live as hstep.1 hstep.2

/-- What the answer says was published after the request came in. -/
theorem announced_published (hr : l.pool.threads[i]? = some (handle st r)) (as : List LiveAction) {reply : Reply}
    (hreply : (l.run st as).pool.result i = some reply) {dog : DogId} {ev : DeviceEvent}
    (ha : (dog, ev) ∈ announced r reply) : ev ∈ published dog ((l.run st as).pool.log.drop l.pool.log.length) := by
  have hfollows := follows_live st as (le_refl _) (follows_arrived hr)
  have hend := hfollows i (.done reply) (Pool.result_eq_some.1 hreply) rfl
  obtain ⟨e, he, hcmd⟩ := hend _ ha
  exact mem_published.2 ⟨e, (Interleave.mem_own.1 he).1, hcmd⟩

end

/-- **A device that has kept up is told before the request is answered**: the callee of a call, and both dogs of an
accepted one, if the device was connected when the request came in.  This holds whatever else the server is doing. -/
theorem answered_pushed (st : AppState) (l : Live) (h : HeaderMap) (q : WsQuery) (dog : DogId)
    (hws : deviceWs st h q = .ok dog) (i : Nat) (r : Request) (hr : l.pool.threads[i]? = some (handle st r))
    (actions : List LiveAction) :
    ∃ s, ((l.step st (.connect h q true)).run st actions).sockets[l.sockets.length]? = some s ∧
      ∀ reply, ((l.step st (.connect h q true)).run st actions).pool.result i = some reply →
      ∀ ev, (dog, ev) ∈ announced r reply → s.running = true → s.rx.missed = 0 →
      ((l.step st (.connect h q true)).run st actions).behind s = 0 → .event ev ∈ s.written := by
  obtain ⟨s, hs, -⟩ := (listens_connect hws l true).run st actions
  refine ⟨s, hs.found, fun reply hreply ev ha hrun hmissed hup => ?_⟩
  have hconnected : (l.step st (.connect h q true)).pool.threads[i]? = some (handle st r) := by
    rw [Live.step_connect hws]
    exact hr
  have hlength : (l.step st (.connect h q true)).pool.log.length = l.pool.log.length := by
    rw [Live.step_connect hws]
    rfl
  have htold := announced_published hconnected actions hreply ha
  rw [hlength] at htold
  rw [← hs.pushed.caught_up hrun hmissed hup] at htold
  obtain ⟨m, hm, hev⟩ := List.mem_filterMap.1 htold
  cases m with
  | event e =>
    obtain rfl := Option.some.inj hev
    exact hm
  | _ => cases hev

theorem answered_pushed_ringing : ∃ s, ((aboutToCall.step bench (.connect (device 2) (wsQuery 2) true)).run bench
    callHeard).sockets[0]? = some s ∧ .event (.inviteRinging rungInvite "slow_pulse_blue") ∈ s.written := by
  obtain ⟨s, hs, h⟩ :=
    answered_pushed bench aboutToCall (device 2) (wsQuery 2) ⟨2⟩ (by decide +kernel) 0 (callTo 1 2) rfl callHeard
  obtain ⟨reply, hreply, ha⟩ := (Option.any_eq_true _ _).1 (show (((aboutToCall.step bench
    (.connect (device 2) (wsQuery 2) true)).run bench callHeard).pool.result 0).any (fun reply => decide
      ((⟨2⟩, .inviteRinging rungInvite "slow_pulse_blue") ∈ announced (callTo 1 2) reply)) = true by decide +kernel)
  obtain ⟨hrun, hmissed, hup⟩ := callHeard_caught_up hs
  exact ⟨s, hs, h reply hreply _ (of_decide_eq_true ha) hrun hmissed hup⟩

end CanisLink
