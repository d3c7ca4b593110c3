import CanisLink.EdgeFollows
import CanisLink.Reports
/-!
# EdgeLink — an edge agent and device-api together

The agent's requests go over a link that may lose a request or its answer.  A deployment is device-api and the process
that is the dog's agent now: the process may be started anew at any time, other clients' requests come in between.  A
report that device-api has acknowledged was handled, under verified credentials.
-/
namespace CanisLink

open Interleave (Prog)

/-! ## The link -/

def StatusCode.code : StatusCode → UInt16
  | noContent => 204
  | badRequest => 400
  | unauthorized => 401
  | forbidden => 403
  | notFound => 404
  | conflict => 409
  | preconditionFailed => 412
  | locked => 423
  | tooManyRequests => 429

/-- A reply of device-api as the agent receives it; a panic drops the connection. -/
def Reply.answer : (r : Request) → Reply → r.Answer
  | _, .status c => .answered c.code none
  | _, .error c _ => .answered c.code none
  | .getConfig .., .config c => .answered 200 (some c)
  | .createInvite .., .created invite => .answered 200 (some invite)
  | .incomingInvite .., .offer o => .answered 200 (some o)
  | .acceptInvite .., .accepted session role => .answered 200 (some (session, role))
  | .mediaReady .., .media bothReady session => .answered 200 (some { session := some (some session), bothReady })
  | .again .., .extended session => .answered 200 (some { session := some (some session), bothReady := false })
  | .activeSession .., .active session => .answered 200 (some session)
  | _, .panicked => .failed
  | _, _ => .answered 200 none

/-- How a request fares: it is lost, or handled under a clock, and then its answer is heard or lost. -/
inductive Hop
  | lost
  | handled (clock : Nat → DateTime) (heard : Bool)

/-- One request over the link. -/
def Hop.exec (st : AppState) : Hop → (r : Request) → Server → r.Answer × Server
  | .lost, _, s => (.failed, s)
  | .handled clock heard, r, s =>
    (if heard then Reply.answer r ((handle st r).eval (CanisLink.exec st) clock s.world).1 else .failed,
      s.serve st ⟨r, clock⟩)

/-! ## Lifetimes of an agent -/

structure Deployment where
  server : Server
  agent : EdgeAgent

/-- What happens in a deployment: a new process of the agent starts, the agent does something, or device-api handles
another client's request. -/
inductive Event
  | boot
  | op (o : EdgeOp) (hops : Nat → Hop)
  | serve (a : Arrival)

namespace Deployment

variable (st : AppState) (cfg : EdgeConfig)

def step (s : Deployment) : Event → Deployment
  | .boot => { s with agent := .new cfg }
  | .op o hops =>
    let (agent, server) := (o.perform st.formats s.agent).eval (Hop.exec st) hops s.server
    { server, agent }
  | .serve a => { s with server := s.server.serve st a }

/-- The deployment after a run that starts with a new agent. -/
def run (s : Server) (events : List Event) : Deployment :=
  events.foldl (step st cfg) { server := s, agent := .new cfg }

/-- What `publish_now` at the clock reading `ts` comes to, and the device-api it leaves. -/
def publish (s : Deployment) (ts : DateTime) (hops : Nat → Hop) : Except EdgeError Unit × Server :=
  let ((r, _), server) := (s.agent.publishNow st.formats ts).eval (Hop.exec st) hops s.server
  (r, server)

end Deployment

section

variable {st : AppState}

theorem verifyDevice_error {h : HeaderMap} {t : TerminalId} {d : DogId} {c : StatusCode}
    (e : verifyDevice st h t d = .error c) : c = .unauthorized ∨ c = .forbidden := by
  unfold verifyDevice at e
  cases hx : extractDeviceToken st h with
  | error c' =>
    have hc' : c' = .unauthorized := by
      unfold extractDeviceToken at hx
      repeat' split at hx
      all_goals cases hx
      all_goals rfl
    rw [hx] at e
    cases e
    exact .inl hc'
  | ok p =>
    rw [hx] at e
    dsimp only at e
    split at e
    · cases e
      exact .inr rfl
    · split at e
      · cases e
      · cases e
        exact .inl rfl

theorem postPresence_error {h : HeaderMap} {r : PresenceReport} {c : StatusCode}
    (hv : verifyDevice st h r.terminalId r.dogId = .error c) (κ : Nat → DateTime) (w : World) :
    ((postPresence st h r).eval (exec st) κ w).1 = .error c "unauthorized" := by
  unfold postPresence
  rw [hv]
  rfl

theorem postPresence_ok {h : HeaderMap} {r : PresenceReport} {u : Unit}
    (hv : verifyDevice st h r.terminalId r.dogId = .ok u) (κ : Nat → DateTime) (w : World) :
    ((postPresence st h r).eval (exec st) κ w).1 = .status .noContent := by
  unfold postPresence
  rw [hv]
  cases st.pool <;> rfl

/-- **An acknowledged report has been handled**, under verified credentials. -/
theorem publish_ok {s : Deployment} {ts : DateTime} {hops : Nat → Hop} (h : (s.publish st ts hops).1 = .ok ()) :
    ∃ a : Arrival, reportOf st a = some (s.agent.nextReport ts).1 ∧ (s.publish st ts hops).2 = s.server.serve st a := by
  revert h
  unfold Deployment.publish EdgeAgent.publishNow
  simp only [http, Prog.op_bind, Prog.pure_eq]
  rw [Prog.eval_call]
  cases hops 0 with
  | lost =>
    intro h
    cases h
  | handled clock heard =>
    cases heard with
    | false =>
      intro h
      cases h
    | true =>
      generalize EdgeAgent.authHeader st.formats (s.agent.nextReport ts).2 = header
      generalize hr : (s.agent.nextReport ts).1 = report
      have hexec : Hop.exec st (.handled clock true) (.postPresence header report) s.server =
          (Reply.answer _ ((postPresence st header report).eval (exec st) clock s.server.world).1,
            s.server.serve st ⟨.postPresence header report, clock⟩) := rfl
      rw [hexec]
      cases hv : verifyDevice st header report.terminalId report.dogId with
      | error c =>
        rw [postPresence_error hv]
        rcases verifyDevice_error hv with rfl | rfl <;> (intro h; cases h)
      | ok u =>
        rw [postPresence_ok hv]
        refine fun _ => ⟨⟨.postPresence header report, clock⟩, ?_, rfl⟩
        unfold reportOf
        dsimp only
        rw [hv]
        rfl

end

/-- A request that is handled and answered, all at one instant. -/
def hopAt (t : DateTime) : Nat → Hop := fun _ => .handled (fun _ => t) true

end CanisLink
