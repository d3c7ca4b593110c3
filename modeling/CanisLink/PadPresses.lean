import CanisLink.McuEmu
import CanisLink.UartRuns
import CanisLink.EdgeFollows
/-!
# PadPresses — pad presses over the UART link

The emulator keeps a press until its next tick and writes it once.  Its bytes are a stream of encoded frames, which both
decoders of the agent take to its end however it is cut; so the intents of a run are its presses, and its snapshots its
ticks.
-/
namespace CanisLink

open SensePipeline (sensed)
open EdgeAgent (frameIntent)

/-- What a press of a pad stands for. -/
def McuOp.pressed : McuOp → Option Intent
  | pressPad 0 => some .call
  | pressPad 1 => some .play
  | pressPad 2 => some .again
  | pressPad 3 => some .done
  | _ => none

theorem padToIntent_eq (pad : UInt8) : padToIntent pad = (McuOp.pressPad pad).pressed := by
  unfold McuOp.pressed
  split <;> simp_all [padToIntent]

namespace McuEmu

/-- The intents of the presses that wait for the next tick. -/
def waiting (m : McuEmu) : List Intent := m.pendingButtons.filterMap (fun b => frameIntent ⟨.button, b.toBytes⟩)

theorem waiting_pressPad (m : McuEmu) (pad : UInt8) :
    (m.pressPad pad).waiting = m.waiting ++ (McuOp.pressPad pad).pressed.toList := by
  have hframe : frameIntent ⟨.button, ButtonPayload.toBytes { pad, event := 1, holdMs := 0 }⟩ = padToIntent pad := by
    simp [frameIntent, ButtonPayload.fromBytes_toBytes]
  unfold waiting pressPad
  rw [List.filterMap_append, ← padToIntent_eq, ← hframe, List.filterMap_cons]
  cases frameIntent ⟨.button, ButtonPayload.toBytes { pad, event := 1, holdMs := 0 }⟩ <;> rfl

theorem tickFrames_intents (m : McuEmu) : m.tickFrames.filterMap frameIntent = m.waiting := by
  simp [tickFrames, waiting, List.filterMap_map, frameIntent, Function.comp_def]

theorem tickFrames_senses (m : McuEmu) : m.tickFrames.countP sensed = 1 := by
  simp [tickFrames, sensed, SensePayload.fromBytes_toBytes, List.countP_map, Function.comp_def]

/-- **A run that ends with a tick writes every press**: the ones that wait, and its own in order. -/
theorem written_intents : ∀ (ops : List McuOp) (m : McuEmu),
    (m.written (ops ++ [.tick50ms])).filterMap frameIntent = m.waiting ++ ops.filterMap McuOp.pressed
  | [], m => by
    rw [List.nil_append, written, List.filterMap_append, tickFrames_intents]
    rfl
  | .setWorld world :: ops, m => written_intents ops (m.setWorld world)
  | .pressPad pad :: ops, m => by
    have hrest := written_intents ops (m.pressPad pad)
    rw [waiting_pressPad, List.append_assoc] at hrest
    refine hrest.trans (congrArg _ ?_)
    rw [List.filterMap_cons]
    cases (McuOp.pressPad pad).pressed <;> rfl
  | .tick50ms :: ops, m => by
    -- the tick leaves nothing waiting
    have hrest := written_intents ops m.tick50ms.2
    rw [show m.tick50ms.2.waiting = [] from rfl, List.nil_append] at hrest
    rw [List.cons_append, written, List.filterMap_append, tickFrames_intents, hrest]
    rfl

/-- Every tick writes one sense frame. -/
theorem written_senses : ∀ (ops : List McuOp) (m : McuEmu), (m.written ops).countP sensed = ops.count .tick50ms
  | [], _ => rfl
  | .setWorld world :: ops, m => by
    rw [List.count_cons_of_ne (by simp)]
    exact written_senses ops (m.setWorld world)
  | .pressPad pad :: ops, m => by
    rw [List.count_cons_of_ne (by simp)]
    exact written_senses ops (m.pressPad pad)
  | .tick50ms :: ops, m => by
    rw [List.count_cons_self, written, List.countP_append, tickFrames_senses, written_senses ops m.tick50ms.2,
      Nat.add_comm]

end McuEmu

/-- **Pad presses survive the UART link**: over every run of the emulator that ends with a tick, and however its bytes
are cut into calls, the agent returns the presses of the pads in order, and a snapshot for every tick. -/
theorem presses_survive (cfg : EdgeConfig) (ops : List McuOp) (hlast : ops.getLast? = some .tick50ms)
    (calls : List (List UInt8 × UInt64)) (hbytes : (calls.map Prod.fst).flatten = (McuEmu.new.runOps ops).1) :
    ((EdgeAgent.new cfg).ingestAll calls).1.2 = ops.filterMap McuOp.pressed ∧
      ((EdgeAgent.new cfg).ingestAll calls).1.1.length = ops.count .tick50ms := by
  rw [McuEmu.runOps_bytes] at hbytes
  have hframes := FrameDecoder.pushAll_of_encoded (McuEmu.written_short _ _) hbytes
  have hintents : (McuEmu.new.written ops).filterMap frameIntent = ops.filterMap McuOp.pressed := by
    obtain ⟨before, rfl⟩ := List.getLast?_eq_some_iff.1 hlast
    rw [McuEmu.written_intents, List.filterMap_append]
    exact (List.append_nil _).symm
  rw [EdgeAgent.ingestAll_eq]
  constructor
  · show (FrameDecoder.pushAll [] (calls.map Prod.fst)).1.filterMap frameIntent = _
    rw [hframes, hintents]
  · show (SensePipeline.pushAll {} calls).1.length = _
    rw [SensePipeline.pushAll_length]
    show (FrameDecoder.pushAll [] (calls.map Prod.fst)).1.countP sensed = _
    rw [hframes, McuEmu.written_senses]

/-- A dog on the mat presses the first pad, one that is not there, and at the next tick the last. -/
def threePresses : List McuOp :=
  [.setWorld (.dogOnMat (.finite 120)), .pressPad 0, .pressPad 4, .tick50ms, .pressPad 3, .tick50ms]

/-- Its bytes cut inside the first button frame. -/
theorem presses_survive_three : ((EdgeAgent.new terminal1).ingestAll
    [((McuEmu.new.runOps threePresses).1.take 17, 50), ([], 10), ((McuEmu.new.runOps threePresses).1.drop 17, 0)]).1.2 =
      [.call, .done] := by
  refine (presses_survive terminal1 threePresses rfl _ ?_).1
  simp

end CanisLink
