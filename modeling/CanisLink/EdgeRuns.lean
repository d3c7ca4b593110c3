import CanisLink.Edge
import Mathlib.Logic.Relation
/-!
# EdgeRuns — the edge agent over whole runs

A run is any sequence of the agent's operations from a new agent, each exchange answered in any way.  `Move` says once
what an operation can do to the agent; bytes from the UART, a report and a fetched configuration apart, every operation
is some moves.  So over all runs an agent that is ringing holds the offer and an agent that is in contact holds the
session.
-/
namespace CanisLink

open Interleave (Prog)
open Relation (ReflTransGen)

/-! ## Runs -/

/-- How the exchange of a request goes. -/
abbrev Answers := (r : Request) → r.Answer

/-- What a method comes to, the exchange of its `n`-th request under `κ n`. -/
def Edge.run {α : Type} (p : Edge α) (κ : Nat → Answers) : α :=
  (p.eval (fun answers r (_ : Unit) => (answers r, ())) κ ()).1

theorem Edge.run_of_returns {α : Type} {Q : α → Prop} {p : Edge α} (h : p.Returns Q) (κ : Nat → Answers) :
    Q (p.run κ) := h.eval _ κ ()

/-- The public operations of an agent, and a direct sample into its public `sense`. -/
inductive EdgeOp
  | ingestUart (bytes : List UInt8) (dtMs : UInt64)
  | pushSample (forceN : Rat) (tofMm : Option UInt16) (motion : Bool) (dtMs : UInt64)
  | publishNow (ts : DateTime)
  | fetchConfig
  | call (toDog : Option DogId)
  | pollIncoming
  | acceptIncoming
  | reportMediaReady (ready : Bool)
  | again
  | endSession (reason : EndReason)
  | syncActive
  | handleIntent (intent : Intent)

section

variable (F : Formats)

/-- The agent after an operation. -/
def EdgeOp.perform (a : EdgeAgent) : EdgeOp → Edge EdgeAgent
  | .ingestUart bytes dtMs => return (a.ingestUart bytes dtMs).2
  | .pushSample forceN tofMm motion dtMs => return { a with sense := (a.sense.pushSample forceN tofMm motion dtMs).2 }
  | .publishNow ts => return (← a.publishNow F ts).2
  | .fetchConfig => return (← a.fetchConfig F).2
  | .call toDog => return (← a.call F toDog).2
  | .pollIncoming => return (← a.pollIncoming F).2
  | .acceptIncoming => return (← a.acceptIncoming F).2
  | .reportMediaReady ready => return (← a.reportMediaReady F ready).2
  | .again => return (← a.again F).2
  | .endSession reason => return (← a.endSession F reason).2
  | .syncActive => return (← a.syncActive F).2
  | .handleIntent intent => return (← a.handleIntent F intent).2

/-- The agent after a run of operations. -/
def EdgeAgent.runOps (a : EdgeAgent) (ops : List (EdgeOp × (Nat → Answers))) : EdgeAgent :=
  ops.foldl (fun a o => (o.1.perform F a).run o.2) a

end

/-! ## What an operation does -/

namespace EdgeAgent

/-- A change an operation makes on its way. -/
inductive Move : EdgeAgent → EdgeAgent → Prop
  | called (a) (ux : EdgeUx) (h : ux = .inviting ∨ ux = .idlePresent ∨ ux = .ringingOut) : Move a { a with ux }
  | lured (a) (o : Invite × LureConfig) : Move a { a with ux := .ringingIn, lastOffer := some o }
  | accepted (a) (s : SessionRecord) : Move a { a with session := some s, lastOffer := none, ux := .negotiating }
  | joined (a) (s : SessionRecord) (ux : EdgeUx) (h : ux = .negotiating ∨ ux = .inSession) :
      Move a { a with session := some s, ux }
  | updated (a) (s : SessionRecord) : Move a { a with session := some s }
  | ended (a) : Move a { a with session := none, ux := if a.present then .idlePresent else .idleEmpty }

abbrev Moves := ReflTransGen Move

section

variable {F : Formats} (a : EdgeAgent)

/-- A refresh touches what the agent shows, its offer and whether it is armed. -/
theorem refreshUxFromPresence_eq : ∃ ux lastOffer socialArmed,
    a.refreshUxFromPresence = { a with ux, lastOffer, socialArmed } := by
  unfold refreshUxFromPresence recomputeArmed
  split <;> exact ⟨_, _, _, rfl⟩

@[simp] theorem refreshUxFromPresence_cfg : a.refreshUxFromPresence.cfg = a.cfg := by
  obtain ⟨_, _, _, h⟩ := refreshUxFromPresence_eq a
  rw [h]

@[simp] theorem refreshUxFromPresence_seq : a.refreshUxFromPresence.seq = a.seq := by
  obtain ⟨_, _, _, h⟩ := refreshUxFromPresence_eq a
  rw [h]

@[simp] theorem refreshUxFromPresence_sense : a.refreshUxFromPresence.sense = a.sense := by
  obtain ⟨_, _, _, h⟩ := refreshUxFromPresence_eq a
  rw [h]

@[simp] theorem refreshUxFromPresence_decoder : a.refreshUxFromPresence.decoder = a.decoder := by
  obtain ⟨_, _, _, h⟩ := refreshUxFromPresence_eq a
  rw [h]

/-- The agent after `ingest_uart`: refreshed with the pipeline that got the bytes, and its own decoder has them too. -/
theorem ingestUart_snd (bytes : List UInt8) (dtMs : UInt64) : (a.ingestUart bytes dtMs).2 =
    { { a with sense := (a.sense.pushBytes bytes dtMs).2 }.refreshUxFromPresence with
      decoder := (FrameDecoder.push a.decoder bytes).2 } := by
  simp [ingestUart]

/-- A report counts, however it fares. -/
theorem publishNow_agent (ts : DateTime) : (a.publishNow F ts).Returns (fun r => r.2 = (a.nextReport ts).2) := by
  intro ex
  cases ex with
  | failed => rfl
  | answered status body =>
    show Prog.Returns _ (if _ then _ else _)
    split <;> rfl

theorem moves_endSession (reason : EndReason) : (a.endSession F reason).Returns (fun r => Moves a r.2) := by
  unfold EdgeAgent.endSession
  simp only [http, Prog.op_bind, Prog.pure_eq]
  cases a.session with
  | none => exact .refl
  | some s => exact fun _ => .single (.ended a)

theorem moves_reportMediaReady (ready : Bool) : (a.reportMediaReady F ready).Returns (fun r => Moves a r.2) := by
  unfold EdgeAgent.reportMediaReady
  simp only [http, Prog.op_bind, Prog.pure_eq]
  cases a.session with
  | none => exact .refl
  | some s =>
    intro ex
    dsimp only
    cases ex.json with
    | error e => exact .refl
    | ok body =>
      obtain ⟨session, both⟩ := body
      rcases session with _ | _ | x
      · exact .refl
      · exact .refl
      · show Prog.Returns _ (if _ then _ else _)
        split
        · exact .single (.joined a x .inSession (.inr rfl))
        · exact .single (.updated a x)

theorem moves_acceptIncoming : (a.acceptIncoming F).Returns (fun r => Moves a r.2) := by
  unfold EdgeAgent.acceptIncoming
  simp only [http, Prog.op_bind, Prog.pure_eq]
  cases a.lastOffer with
  | none => exact .refl
  | some offer =>
    intro ex
    cases ex with
    | failed => exact .refl
    | answered status body =>
      show Prog.Returns _ (if _ then _ else _)
      split
      · exact .refl
      · cases body with
        | none => exact .refl
        | some resp =>
          refine (moves_reportMediaReady _ true).bind (fun r hr => ?_)
          obtain ⟨r, b⟩ := r
          cases r <;> exact .head (.accepted a resp.1) hr

theorem moves_call (toDog : Option DogId) : (a.call F toDog).Returns (fun r => Moves a r.2) := by
  unfold EdgeAgent.call
  simp only [http, Prog.op_bind, Prog.pure_eq]
  split
  · exact .refl
  · intro ex
    cases ex with
    | failed => exact .single (.called a .inviting (.inl rfl))
    | answered status body =>
      show Prog.Returns _ (if _ then _ else _)
      split
      · exact .single (.called a .idlePresent (.inr (.inl rfl)))
      · cases body with
        | none => exact .single (.called a .inviting (.inl rfl))
        | some invite => exact .single (.called a .ringingOut (.inr (.inr rfl)))

theorem moves_again : (a.again F).Returns (fun r => Moves a r.2) := by
  unfold EdgeAgent.again
  simp only [http, Prog.op_bind, Prog.pure_eq]
  cases a.session with
  | none => exact .refl
  | some s =>
    intro ex
    dsimp only
    cases ex.json with
    | error e => exact .refl
    | ok body =>
      obtain ⟨session, both⟩ := body
      rcases session with _ | _ | x
      · exact .refl
      · exact .refl
      · exact .single (.updated a x)

theorem moves_pollIncoming : (a.pollIncoming F).Returns (fun r => Moves a r.2) := by
  unfold EdgeAgent.pollIncoming
  simp only [http, Prog.op_bind, Prog.pure_eq]
  split
  · exact .refl
  · intro ex
    cases ex with
    | failed => exact .refl
    | answered status body =>
      show Prog.Returns _ (if _ then _ else _)
      split
      · exact .refl
      · rcases body with _ | _ | o
        · exact .refl
        · exact .refl
        · show Prog.Returns _ (if _ then _ else _)
          split
          · exact .single (.lured a o)
          · exact .refl

theorem moves_syncActive : (a.syncActive F).Returns (fun r => Moves a r.2) := by
  unfold EdgeAgent.syncActive
  simp only [http, Prog.op_bind, Prog.pure_eq]
  intro ex
  dsimp only
  cases ex.json with
  | error e => exact .refl
  | ok found =>
    cases found with
    | none => exact .refl
    | some s =>
      dsimp only
      by_cases hs : s.state = .active
      · rw [if_pos hs, if_neg nofun]
        exact .single (.joined a s .inSession (.inr rfl))
      · rw [if_neg hs, if_pos rfl]
        exact (moves_reportMediaReady _ true).bind (fun _ hr => .head (.joined a s .negotiating (.inl rfl)) hr)

theorem moves_handleIntent (i : Intent) : (a.handleIntent F i).Returns (fun r => Moves a r.2) := by
  unfold EdgeAgent.handleIntent
  split
  · exact (a.moves_call none).bind (fun _ hr => hr)
  split
  · exact a.moves_acceptIncoming.bind (fun _ hr => hr)
  split
  · exact a.moves_again
  split
  · exact a.moves_endSession .done
  · exact .refl

end

end EdgeAgent

/-- The operations that bring the pipeline nothing, make no report and fetch no configuration. -/
def EdgeOp.plain : EdgeOp → Bool
  | ingestUart .. | pushSample .. | publishNow .. | fetchConfig => false
  | _ => true

/-- **What a plain operation does is some moves.** -/
theorem EdgeOp.perform_moves {F : Formats} (a : EdgeAgent) (o : EdgeOp) (h : o.plain = true) :
    (o.perform F a).Returns (EdgeAgent.Moves a) := by
  cases o with
  | ingestUart bytes dtMs => cases h
  | pushSample forceN tofMm motion dtMs => cases h
  | fetchConfig => cases h
  | publishNow ts => cases h
  | call toDog => exact (a.moves_call toDog).bind (fun _ hr => hr)
  | pollIncoming => exact a.moves_pollIncoming.bind (fun _ hr => hr)
  | acceptIncoming => exact a.moves_acceptIncoming.bind (fun _ hr => hr)
  | reportMediaReady ready => exact (a.moves_reportMediaReady ready).bind (fun _ hr => hr)
  | again => exact a.moves_again.bind (fun _ hr => hr)
  | endSession reason => exact (a.moves_endSession reason).bind (fun _ hr => hr)
  | syncActive => exact a.moves_syncActive.bind (fun _ hr => hr)
  | handleIntent i => exact (a.moves_handleIntent i).bind (fun _ hr => hr)

/-! ## What an agent in contact holds -/

/-- A ringing agent holds the offer, and an agent in contact holds the session. -/
structure EdgeAgent.Coherent (a : EdgeAgent) : Prop where
  offer : a.ux = .ringingIn → a.lastOffer ≠ none
  session : a.ux = .negotiating ∨ a.ux = .inSession → a.session ≠ none

namespace EdgeAgent

variable {F : Formats} {a : EdgeAgent}

theorem Coherent.of_ux (h : a.ux ≠ .ringingIn ∧ a.ux ≠ .negotiating ∧ a.ux ≠ .inSession) : a.Coherent :=
  ⟨fun e => absurd e h.1, fun e => e.elim (absurd · h.2.1) (absurd · h.2.2)⟩

/-- Coherence is about `ux`, the offer and the session. -/
theorem Coherent.congr {b : EdgeAgent} (h : a.Coherent) (hux : b.ux = a.ux) (hoffer : b.lastOffer = a.lastOffer)
    (hsession : b.session = a.session) : b.Coherent :=
  ⟨fun e => hoffer ▸ h.offer (hux ▸ e), fun e => hsession ▸ h.session (hux ▸ e)⟩

theorem Coherent.move {b : EdgeAgent} (h : a.Coherent) (hm : Move a b) : b.Coherent := by
  cases hm with
  | called ux hux => rcases hux with rfl | rfl | rfl <;> exact .of_ux ⟨nofun, nofun, nofun⟩
  | lured o => exact ⟨fun _ => nofun, nofun⟩
  | accepted s => exact ⟨nofun, fun _ => nofun⟩
  | joined s ux hux => rcases hux with rfl | rfl <;> exact ⟨nofun, fun _ => nofun⟩
  | updated s => exact ⟨h.offer, fun _ => nofun⟩
  | ended => cases a.present <;> exact .of_ux ⟨nofun, nofun, nofun⟩

theorem Coherent.moves {b : EdgeAgent} (h : a.Coherent) (hm : Moves a b) : b.Coherent := by
  induction hm with
  | refl => exact h
  | tail _ hstep ih => exact ih.move hstep

theorem Coherent.refresh (h : a.Coherent) : a.refreshUxFromPresence.Coherent := by
  unfold refreshUxFromPresence
  split
  · exact .of_ux ⟨nofun, nofun, nofun⟩
  · exact .of_ux ⟨nofun, nofun, nofun⟩
  · exact .of_ux ⟨nofun, nofun, nofun⟩
  · exact h.congr rfl rfl rfl

theorem Coherent.fetchConfig (h : a.Coherent) : (a.fetchConfig F).Returns (fun r => r.2.Coherent) := by
  unfold EdgeAgent.fetchConfig
  simp only [http, Prog.op_bind, Prog.pure_eq]
  intro ex
  dsimp only
  cases ex.json with
  | error e => exact h
  | ok cfg =>
    have hhalted : Coherent { a with ux := .halted } := .of_ux ⟨nofun, nofun, nofun⟩
    have halt : (a.halt F).Returns Coherent := by
      unfold EdgeAgent.halt
      show Prog.Returns _ (if _ then _ else _)
      split
      · exact (moves_endSession _ _).bind (fun _ hr => hhalted.moves hr)
      · exact hhalted
    dsimp only
    split
    · exact halt.bind (fun b hb => hb.congr rfl rfl rfl)
    · exact h.congr rfl rfl rfl

/-- **Every operation keeps an agent coherent.** -/
theorem Coherent.perform (h : a.Coherent) (o : EdgeOp) : (o.perform F a).Returns Coherent := by
  cases o with
  | ingestUart bytes dtMs =>
    show (a.ingestUart bytes dtMs).2.Coherent
    have hfed : Coherent { a with sense := (a.sense.pushBytes bytes dtMs).2 } := h.congr rfl rfl rfl
    rw [a.ingestUart_snd]
    exact hfed.refresh.congr rfl rfl rfl
  | pushSample forceN tofMm motion dtMs => exact h.congr rfl rfl rfl
  | publishNow ts => exact (a.publishNow_agent ts).bind (fun r hr => hr ▸ h.congr rfl rfl rfl)
  | fetchConfig => exact h.fetchConfig.bind (fun _ hr => hr)
  | _ => exact (EdgeOp.perform_moves a _ rfl).mono (fun _ hm => h.moves hm)

theorem Coherent.runOps : ∀ (ops : List (EdgeOp × (Nat → Answers))) {a : EdgeAgent}, a.Coherent →
    (a.runOps F ops).Coherent
  | [], _, h => h
  | o :: ops, _, h => Coherent.runOps ops (Edge.run_of_returns (h.perform o.1) o.2)

theorem coherent_new (cfg : EdgeConfig) : (new cfg).Coherent := .of_ux ⟨nofun, nofun, nofun⟩

end EdgeAgent
end CanisLink
