import CanisLink.EdgeRuns
import CanisLink.Server
/-!
# EdgeFollows — what the agent makes of the cloud's answers

`poll_incoming` and `sync_active` take up an offer and a session; when the cloud has neither, they leave the agent as it
is.  `fetch_config` halts the agent on an emergency stop, but a session it then ends takes it back to idle, and when the
stop is cleared nothing takes it out of the halt.
-/
namespace CanisLink

open Interleave (Prog)

namespace EdgeAgent

variable (F : Formats)

/-! ## When the cloud has nothing -/

/-- Nothing of a contact is left on the edge. -/
def Settled (a : EdgeAgent) : Prop :=
  (a.ux = .idleEmpty ∨ a.ux = .idlePresent ∨ a.ux = .halted) ∧ a.session = none ∧ a.lastOffer = none

/-- The agent after `poll_incoming` and `sync_active`. -/
def polled (a : EdgeAgent) (κ : Nat → Answers) : EdgeAgent := ((a.pollIncoming F).run κ).2
def synced (a : EdgeAgent) (κ : Nat → Answers) : EdgeAgent := ((a.syncActive F).run κ).2

/-- `poll_incoming` queries the cloud, and the cloud has no offer. -/
structure NoOffer (a : EdgeAgent) (κ : Nat → Answers) : Prop where
  queries : a.socialArmed = true ∨ a.ux = .ringingIn
  none : ∃ status, isSuccess status = true ∧
    κ 0 (.incomingInvite (a.authHeader F) a.query) = .answered status (some none)

/-- `sync_active` succeeds, and the cloud has no session. -/
def NoSession (a : EdgeAgent) (κ : Nat → Answers) : Prop :=
  (κ 0 (.activeSession (a.authHeader F) a.query)).json = .ok none

variable {F} {a : EdgeAgent} {κ : Nat → Answers}

theorem polled_of_noOffer (h : a.NoOffer F κ) : a.polled F κ = a := by
  obtain ⟨hq, status, hok, hans⟩ := h
  have hguard : ¬ (!a.socialArmed && decide (a.ux ≠ .ringingIn)) = true := by
    rcases hq with hq | hq <;> simp [hq]
  unfold polled Edge.run EdgeAgent.pollIncoming
  simp only [http, Prog.op_bind, Prog.pure_eq]
  rw [if_neg hguard, Prog.eval_call, hans]
  dsimp only
  rw [hok]
  rfl

theorem synced_of_noSession (h : a.NoSession F κ) : a.synced F κ = a := by
  unfold synced Edge.run EdgeAgent.syncActive
  simp only [http, Prog.op_bind, Prog.pure_eq]
  rw [Prog.eval_call]
  dsimp only
  rw [show (κ 0 (.activeSession (a.authHeader F) a.query)).json = .ok none from h]
  rfl

/-- A coherent agent is settled when it holds no session and no offer and has no call of its own out. -/
theorem Coherent.settled_iff (h : a.Coherent) :
    a.Settled ↔ a.session = none ∧ a.lastOffer = none ∧ a.ux ≠ .inviting ∧ a.ux ≠ .ringingOut := by
  unfold Settled
  constructor
  · rintro ⟨hux, hs, ho⟩
    exact ⟨hs, ho, by rcases hux with e | e | e <;> simp [e]⟩
  · rintro ⟨hs, ho, hi, hr⟩
    refine ⟨?_, hs, ho⟩
    cases hux : a.ux with
    | idleEmpty => exact .inl rfl
    | idlePresent => exact .inr (.inl rfl)
    | halted => exact .inr (.inr rfl)
    | inviting => exact absurd hux hi
    | ringingOut => exact absurd hux hr
    | ringingIn => exact absurd ho (h.offer hux)
    | negotiating => exact absurd hs (h.session (.inl hux))
    | inSession => exact absurd hs (h.session (.inr hux))

end EdgeAgent

open EdgeAgent in
/-- **When the cloud has nothing, the agent settles exactly if nothing was left to lay down**: over every run from a new
agent, after a poll that got no offer and a sync that got no session. -/
theorem settles_iff (F : Formats) (cfg : EdgeConfig) (ops : List (EdgeOp × (Nat → Answers))) (κ κ' : Nat → Answers)
    (hpoll : ((new cfg).runOps F ops).NoOffer F κ) (hsync : (((new cfg).runOps F ops).polled F κ).NoSession F κ') :
    ((((new cfg).runOps F ops).polled F κ).synced F κ').Settled ↔
      ((new cfg).runOps F ops).session = none ∧ ((new cfg).runOps F ops).lastOffer = none ∧
        ((new cfg).runOps F ops).ux ≠ .inviting ∧ ((new cfg).runOps F ops).ux ≠ .ringingOut := by
  rw [synced_of_noSession hsync, polled_of_noOffer hpoll]
  exact (Coherent.runOps ops (coherent_new cfg)).settled_iff

/-- The terminal of dog 1. -/
def terminal1 : EdgeConfig := { terminalId := ⟨1⟩, dogId := ⟨1⟩, token := "" }

/-- A cloud that has neither offer nor session, and no config to give. -/
def nothing : Answers
  | .incomingInvite .. => .answered 200 (some none)
  | .activeSession .. => .answered 200 (some none)
  | _ => .failed

/-- A cloud with dog 1 in a session. -/
def inContact : Answers
  | .activeSession .. => .answered 200 (some (some { firstSession with state := .active }))
  | _ => .failed

/-- The agent joins the session that is on and ends it itself. -/
def joinedAndDone : List (EdgeOp × (Nat → Answers)) :=
  [(.syncActive, fun _ => inContact), (.endSession .done, fun _ => nothing)]

theorem settles_iff_done : ((((EdgeAgent.new terminal1).runOps decimals joinedAndDone).polled decimals
    (fun _ => nothing)).synced decimals (fun _ => nothing)).Settled :=
  (settles_iff decimals terminal1 joinedAndDone (fun _ => nothing) (fun _ => nothing) ⟨.inl rfl, 200, rfl, rfl⟩ rfl).2
    ⟨rfl, rfl, nofun, nofun⟩

/-- **A contact the cloud has ended stays on the edge**: a new agent syncs with the session that is on, the peer ends
it, and after a poll and a sync that find nothing the agent is still in session. -/
theorem contact_left : ¬ ∀ (F : Formats) (cfg : EdgeConfig) (ops : List (EdgeOp × (Nat → Answers)))
    (κ κ' : Nat → Answers), ((EdgeAgent.new cfg).runOps F ops).NoOffer F κ →
    (((EdgeAgent.new cfg).runOps F ops).polled F κ).NoSession F κ' →
    ((((EdgeAgent.new cfg).runOps F ops).polled F κ).synced F κ').Settled := by
  intro h
  have := h decimals terminal1 [(.syncActive, fun _ => inContact)] (fun _ => nothing) (fun _ => nothing)
    ⟨.inl rfl, 200, rfl, rfl⟩ rfl
  exact absurd this.2.1 nofun

namespace EdgeAgent

/-! ## The emergency stop -/

/-- What a configuration asks of the agent: to be halted, out of contact and disarmed under an emergency stop, and
otherwise not halted and armed as presence and `social_disabled` say. -/
def Tracks (a : EdgeAgent) (c : ConfigV1) : Prop :=
  if c.emergencyStop then a.ux = .halted ∧ a.session = none ∧ a.socialArmed = false
  else a.ux ≠ .halted ∧ a.socialArmed = (a.present && !c.socialDisabled)

/-- The agent once it has fetched a configuration. -/
def fetched (a : EdgeAgent) (c : ConfigV1) : EdgeAgent :=
  let b :=
    if c.emergencyStop then
      if a.session.isSome then { a with session := none, ux := if a.present then .idlePresent else .idleEmpty }
      else { a with ux := .halted }
    else a
  { b with remoteConfig := some c }.recomputeArmed

/-- What `fetch_config` comes to: the agent is as it was, or has fetched the configuration. -/
theorem fetchConfig_run (F : Formats) (a : EdgeAgent) (κ : Nat → Answers) : (a.fetchConfig F).run κ =
    match (κ 0 (.getConfig (a.authHeader F) a.query)).json with
    | .error e => (.error e, a)
    | .ok c => (.ok c, a.fetched c) := by
  unfold Edge.run EdgeAgent.fetchConfig
  simp only [http, Prog.op_bind, Prog.pure_eq]
  rw [Prog.eval_call]
  dsimp only
  cases (κ 0 (.getConfig (a.authHeader F) a.query)).json with
  | error e => rfl
  | ok c =>
    dsimp only
    unfold fetched
    cases hstop : c.emergencyStop with
    | false => rfl
    | true =>
      unfold EdgeAgent.halt EdgeAgent.endSession
      cases a.session <;> rfl

theorem fetchConfig_ok {F : Formats} {a : EdgeAgent} {κ : Nat → Answers} {c : ConfigV1}
    (h : ((a.fetchConfig F).run κ).1 = .ok c) : ((a.fetchConfig F).run κ).2 = a.fetched c := by
  rw [fetchConfig_run] at h ⊢
  cases hjson : (κ 0 (.getConfig (a.authHeader F) a.query)).json with
  | error e =>
    rw [hjson] at h
    cases h
  | ok c' =>
    rw [hjson] at h
    cases h
    rfl

theorem fetched_tracks_iff (a : EdgeAgent) (c : ConfigV1) :
    (a.fetched c).Tracks c ↔ if c.emergencyStop then a.session = none else a.ux ≠ .halted := by
  unfold Tracks fetched recomputeArmed
  cases hstop : c.emergencyStop with
  | true =>
    cases hs : a.session with
    | none => simp [hstop]
    | some s => cases a.present <;> simp [hstop]
  | false => simp +contextual [hstop, EdgeAgent.present]

end EdgeAgent

open EdgeAgent in
/-- **The halt follows the emergency stop exactly if a stop finds no session and a clear finds no halt**: for every
configuration fetched in a run. -/
theorem tracks_iff (F : Formats) (cfg : EdgeConfig) (ops : List (EdgeOp × (Nat → Answers))) (κ : Nat → Answers)
    (c : ConfigV1) (h : ((((new cfg).runOps F ops).fetchConfig F).run κ).1 = .ok c) :
    ((((new cfg).runOps F ops).fetchConfig F).run κ).2.Tracks c ↔
      if c.emergencyStop then ((new cfg).runOps F ops).session = none else ((new cfg).runOps F ops).ux ≠ .halted := by
  rw [fetchConfig_ok h]
  exact fetched_tracks_iff _ c

/-- The configuration of dog 1 under its default policy, stopped or not. -/
def config1 (stop : Bool) : ConfigV1 where
  dogId := ⟨1⟩
  terminalId := ⟨1⟩
  socialDisabled := false
  emergencyStop := stop
  timezone := "UTC"
  utcOffsetMin := 0
  sleepStartMin := 1320
  sleepEndMin := 420
  maxSessionSec := 900
  segmentSec := 300

/-- A cloud that answers with a configuration. -/
def configured (c : ConfigV1) : Answers
  | .getConfig .. => .answered 200 (some c)
  | _ => .failed

theorem tracks_iff_stop : ((((EdgeAgent.new terminal1).runOps decimals []).fetchConfig decimals).run
    (fun _ => configured (config1 true))).2.Tracks (config1 true) :=
  (tracks_iff decimals terminal1 [] (fun _ => configured (config1 true)) (config1 true) rfl).2 rfl

/-- **A stop leaves an agent that was in session idle**, not halted. -/
theorem halt_lost : ¬ ∀ (F : Formats) (cfg : EdgeConfig) (ops : List (EdgeOp × (Nat → Answers))) (κ : Nat → Answers)
    (c : ConfigV1), ((((EdgeAgent.new cfg).runOps F ops).fetchConfig F).run κ).1 = .ok c →
    ((((EdgeAgent.new cfg).runOps F ops).fetchConfig F).run κ).2.Tracks c := by
  intro h
  have := h decimals terminal1 [(.syncActive, fun _ => inContact)] (fun _ => configured (config1 true)) (config1 true)
    rfl
  exact absurd this.1 nofun

end CanisLink
