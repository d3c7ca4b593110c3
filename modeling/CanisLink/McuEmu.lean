import CanisLink.McuResync
/-!
# McuEmu — the MCU emulator of `firmware/mcu-emu`

A virtual mat and pads.  A tick of 50 ms writes one sense frame of the world as it is, then a button frame for each
press since the tick before, so the bytes of a run are a stream of encoded frames (`written`).
-/
namespace CanisLink

/-- An `f32` of the world: it may be no number. -/
inductive F32
  | finite (q : Rat)
  | inf (negative : Bool)
  | nan
deriving DecidableEq

/-- `(self * 10.0).clamp(0.0, 65535.0) as u16`; a product out of the range of `f32` is clamped all the same. -/
def F32.toDeci : F32 → UInt16
  | finite q => UInt16.ofNat (max 0 (min (roundF32 (q * 10)) 65535)).floor.toNat
  | inf negative => if negative then 0 else 65535
  | nan => 0

structure McuWorld where
  /-- Force on mat (newtons). -/
  forceN : F32 := .finite 0
  /-- Distance to subject mm (none = invalid reading). -/
  tofMm : Option UInt16 := some 2000
  motion : Bool := false
deriving DecidableEq

def McuWorld.dogOnMat (weightN : F32) : McuWorld := { forceN := weightN, tofMm := some 350, motion := true }

structure McuEmu where
  world : McuWorld := {}
  /-- Pending button events to emit once. -/
  pendingButtons : List ButtonPayload := []
  tick : UInt64 := 0

namespace McuEmu

def new : McuEmu := {}

def setWorld (m : McuEmu) (world : McuWorld) : McuEmu := { m with world }

def pressPad (m : McuEmu) (pad : UInt8) : McuEmu :=
  { m with pendingButtons := m.pendingButtons ++ [{ pad, event := 1, holdMs := 0 }] }

/-- The sample a tick writes. -/
def sense (m : McuEmu) : SensePayload where
  forceDeciN := m.world.forceN.toDeci
  tofMm := m.world.tofMm.getD 0
  flags := if m.world.motion then 1 else 0
  pad := (0, 0, 0)

/-- Produce UART bytes for one 50 ms tick (20 Hz sense). -/
def tick50ms (m : McuEmu) : List UInt8 × McuEmu :=
  let m := { m with tick := m.tick + 1 }
  (encode .sense m.sense.toBytes ++ (m.pendingButtons.map (fun b => encode .button b.toBytes)).flatten,
    { m with pendingButtons := [] })

end McuEmu

/-- The bytes of a tick with a dog of 120 N on the mat. -/
def onMat : List UInt8 := (McuEmu.new.setWorld (.dogOnMat (.finite 120))).tick50ms.1

/-! ## Runs -/

inductive McuOp
  | setWorld (world : McuWorld)
  | pressPad (pad : UInt8)
  | tick50ms
deriving DecidableEq

/-- The bytes an operation writes, and the emulator after it. -/
def McuOp.perform (m : McuEmu) : McuOp → List UInt8 × McuEmu
  | .setWorld world => ([], m.setWorld world)
  | .pressPad pad => ([], m.pressPad pad)
  | .tick50ms => m.tick50ms

namespace McuEmu

/-- The bytes of a run of operations, one after another, and the emulator after it. -/
def runOps : McuEmu → List McuOp → List UInt8 × McuEmu
  | m, [] => ([], m)
  | m, o :: ops => ((o.perform m).1 ++ (runOps (o.perform m).2 ops).1, (runOps (o.perform m).2 ops).2)

/-- The frames of a tick. -/
def tickFrames (m : McuEmu) : List Frame :=
  ⟨.sense, m.sense.toBytes⟩ :: m.pendingButtons.map (fun b => ⟨.button, b.toBytes⟩)

/-- The frames of a run of operations. -/
def written : McuEmu → List McuOp → List Frame
  | _, [] => []
  | m, .tick50ms :: ops => m.tickFrames ++ written m.tick50ms.2 ops
  | m, o :: ops => written (o.perform m).2 ops

theorem tick50ms_bytes (m : McuEmu) : m.tick50ms.1 = FrameDecoder.encoded m.tickFrames := by
  simp [tick50ms, FrameDecoder.encoded, tickFrames, sense, Function.comp_def]

theorem runOps_bytes : ∀ (ops : List McuOp) (m : McuEmu), (m.runOps ops).1 = FrameDecoder.encoded (m.written ops)
  | [], _ => rfl
  | .setWorld world :: ops, m => runOps_bytes ops (m.setWorld world)
  | .pressPad pad :: ops, m => runOps_bytes ops (m.pressPad pad)
  | .tick50ms :: ops, m => by
    have happend : FrameDecoder.encoded (m.tickFrames ++ m.tick50ms.2.written ops) =
        FrameDecoder.encoded m.tickFrames ++ FrameDecoder.encoded (m.tick50ms.2.written ops) := by
      simp [FrameDecoder.encoded]
    rw [written, happend, ← tick50ms_bytes, ← runOps_bytes ops m.tick50ms.2]
    rfl

/-- Every frame has a payload of eight bytes or of four. -/
theorem written_short : ∀ (ops : List McuOp) (m : McuEmu), ∀ f ∈ m.written ops, f.payload.length ≤ 255
  | .setWorld world :: ops, m, f, hf => written_short ops (m.setWorld world) f hf
  | .pressPad pad :: ops, m, f, hf => written_short ops (m.pressPad pad) f hf
  | .tick50ms :: ops, m, f, hf => by
    rcases List.mem_append.1 hf with htick | hlater
    · rcases List.mem_cons.1 htick with rfl | hbutton
      · show 8 ≤ 255
        omega
      · obtain ⟨b, -, rfl⟩ := List.mem_map.1 hbutton
        show 4 ≤ 255
        omega
    · exact written_short ops m.tick50ms.2 f hlater

end McuEmu
end CanisLink
