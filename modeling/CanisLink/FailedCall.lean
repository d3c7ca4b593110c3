import CanisLink.EdgeSteps
/-!
# FailedCall — what a failed call leaves behind

`call` sets `Inviting` before it sends, and of its exits with an error only the one for a status without success sets
it back.  After the others the agent stays inviting: neither pads nor presence take it out.
-/
namespace CanisLink

open Interleave (Prog)

namespace EdgeAgent

variable (F : Formats) (a : EdgeAgent) (toDog : Option DogId) (κ : Nat → Answers)

/-- The invite that `call` asks for. -/
def inviteRequest : Request := .createInvite (a.authHeader F)
  { mode := .portal, toDog, dogId := a.cfg.dogId, terminalId := a.cfg.terminalId }

/-- A call that fails leaves the agent idle and present, with the session, the offer and the armed flag it had. -/
def FailsBack : Prop := ∀ e, ((a.call F toDog).run κ).1 = .error e →
  ((a.call F toDog).run κ).2.ux = .idlePresent ∧ ((a.call F toDog).run κ).2.session = a.session ∧
    ((a.call F toDog).run κ).2.lastOffer = a.lastOffer ∧ ((a.call F toDog).run κ).2.socialArmed = a.socialArmed

/-- The exchange brings an answer, and one of success decodes. -/
def Answered : Prop := ∃ status body, κ 0 (a.inviteRequest F toDog) = .answered status body ∧
  (isSuccess status = true → body ≠ none)

variable {F a toDog κ}

theorem call_run : (a.call F toDog).run κ =
    if a.socialArmed then
      match κ 0 (a.inviteRequest F toDog) with
      | .failed => (.error .send, { a with ux := .inviting })
      | .answered status body =>
        if isSuccess status then
          match body with
          | none => (.error .decode, { a with ux := .inviting })
          | some invite => (.ok invite, { a with ux := .ringingOut })
        else (.error (.inviteFailed status), { a with ux := .idlePresent })
    else (.error .socialNotArmed, a) := by
  unfold Edge.run EdgeAgent.call inviteRequest authHeader
  simp only [http, Prog.op_bind, Prog.pure_eq]
  by_cases harmed : a.socialArmed = true
  · rw [if_neg (by simp [harmed]), if_pos harmed, Prog.eval_call]
    dsimp only
    generalize κ 0 (.createInvite _ _) = ex
    cases ex with
    | failed => rfl
    | answered status body =>
      dsimp only
      cases isSuccess status with
      | false => rfl
      | true => cases body <;> rfl
  · rw [if_pos (by simp [harmed]), if_neg harmed]
    rfl

/-- **From an idle present agent, a failed call leaves it so exactly if an armed agent's exchange is answered.** -/
theorem failsBack_iff (hux : a.ux = .idlePresent) :
    a.FailsBack F toDog κ ↔ (a.socialArmed = true → a.Answered F toDog κ) := by
  unfold FailsBack Answered
  rw [call_run]
  cases harmed : a.socialArmed with
  | false => exact iff_of_true (fun _ _ => ⟨hux, rfl, rfl, harmed⟩) nofun
  | true =>
    rw [if_pos rfl]
    cases κ 0 (a.inviteRequest F toDog) with
    | failed =>
      refine iff_of_false (fun h => ?_) (fun h => ?_)
      · cases (h _ rfl).1
      · obtain ⟨status, body, hans, -⟩ := h rfl
        cases hans
    | answered status body =>
      dsimp only
      cases hs : isSuccess status with
      | false => exact iff_of_true (fun _ _ => ⟨rfl, rfl, rfl, rfl⟩) (fun _ => ⟨status, body, rfl, by simp [hs]⟩)
      | true =>
        rw [if_pos rfl]
        cases body with
        | none =>
          refine iff_of_false (fun h => ?_) (fun h => ?_)
          · cases (h _ rfl).1
          · obtain ⟨status', body', hans, hdecodes⟩ := h rfl
            cases hans
            exact hdecodes hs rfl
        | some invite => exact iff_of_true nofun (fun _ => ⟨status, some invite, rfl, fun _ => nofun⟩)

end EdgeAgent

/-! ## An agent that stays inviting -/

/-- What the mat and the pads bring about. -/
def EdgeOp.isLocal : EdgeOp → Bool
  | ingestUart .. | handleIntent .. => true
  | _ => false

namespace EdgeAgent

variable {F : Formats} {a : EdgeAgent}

theorem ingestUart_inviting (h : a.ux = .inviting) (bytes : List UInt8) (dtMs : UInt64) :
    (a.ingestUart bytes dtMs).2.ux = .inviting := by
  rw [ingestUart_snd]
  unfold refreshUxFromPresence
  split <;> simp_all [recomputeArmed]

theorem handleIntent_inviting (h : a.ux = .inviting) (i : Intent) : a.handleIntent F i = Prog.done (.ok (), a) := by
  unfold EdgeAgent.handleIntent
  simp [h]

/-- **An agent left inviting stays so**, whatever bytes come in and whatever intents it handles. -/
theorem runOps_inviting (ops : List (EdgeOp × (Nat → Answers))) (ho : ∀ o ∈ ops, o.1.isLocal = true)
    (h : a.ux = .inviting) : (a.runOps F ops).ux = .inviting := by
  induction ops generalizing a with
  | nil => exact h
  | cons o ops ih =>
    have hlocal := ho o List.mem_cons_self
    refine ih (fun o' ho' => ho o' (List.mem_cons_of_mem o ho')) ?_
    obtain ⟨op, answers⟩ := o
    cases op with
    | ingestUart bytes dtMs => exact ingestUart_inviting h bytes dtMs
    | handleIntent i =>
      simp only [EdgeOp.perform, handleIntent_inviting h, Prog.done_bind, Prog.pure_eq]
      exact h
    | _ => cases hlocal

end EdgeAgent

open EdgeAgent in
/-- **A failed call leaves the edge where it was exactly if its exchange is answered**: from every state with an idle
present agent that a run reaches, `send` did not fail, and no success has a body that does not decode. -/
theorem failed_call_iff (F : Formats) (cfg : EdgeConfig) (ops : List (EdgeOp × (Nat → Answers)))
    (toDog : Option DogId) (κ : Nat → Answers) (hux : ((new cfg).runOps F ops).ux = .idlePresent) :
    ((new cfg).runOps F ops).FailsBack F toDog κ ↔
      (((new cfg).runOps F ops).socialArmed = true → ((new cfg).runOps F ops).Answered F toDog κ) :=
  failsBack_iff hux

/-- A cloud that refuses every invite with 409. -/
def refusing : Answers
  | .createInvite .. => .answered 409 none
  | _ => .failed

theorem failed_call_refused :
    ((EdgeAgent.new terminal1).runOps decimals stepsOn).FailsBack decimals none (fun _ => refusing) :=
  (failed_call_iff decimals terminal1 stepsOn none (fun _ => refusing) (by decide +kernel)).2
    (fun _ => ⟨409, none, rfl, fun h => absurd h (by decide)⟩)

/-- **A call that cannot be sent leaves the edge inviting.** -/
theorem failed_call_stuck : ¬ ∀ (F : Formats) (cfg : EdgeConfig) (ops : List (EdgeOp × (Nat → Answers)))
    (toDog : Option DogId) (κ : Nat → Answers), ((EdgeAgent.new cfg).runOps F ops).ux = .idlePresent →
    ((EdgeAgent.new cfg).runOps F ops).FailsBack F toDog κ := by
  intro h
  have hback := (h decimals terminal1 stepsOn none (fun _ => nothing) (by decide +kernel) .send (by decide +kernel)).1
  revert hback
  decide +kernel

end CanisLink
