import CanisLink.Mcu
import CanisLink.Presence
/-!
# Sense — the sense pipeline of `edge/canis-sense`

MCU frames in, the presence filter's snapshots out.  The pipeline has a decoder and a millisecond clock of its own.
-/
namespace CanisLink

structure SenseSnapshot where
  present : Bool
  confidence : Rat
  forceN : Rat
  forceBand : ForceBand
  tofMm : Option UInt16
  flipped : Bool
deriving DecidableEq

structure SensePipeline where
  decoder : FrameDecoder := []
  filter : PresenceFilter := {}
  tMs : UInt64 := 0

namespace SensePipeline

def snapshot (p : SensePipeline) (flipped : Bool) : SenseSnapshot where
  present := p.filter.present
  confidence := p.filter.confidence
  forceN := p.filter.lastForceN
  forceBand := p.filter.forceBand
  tofMm := p.filter.lastTof
  flipped := flipped

/-- The filter update of one sample, and its snapshot. -/
def updateFilter (p : SensePipeline) (forceN : Rat) (tofMm : Option UInt16) (motion : Bool) :
    SenseSnapshot × SensePipeline :=
  let (flipped, filter) := p.filter.update { forceN, tofMm, motion, tMs := p.tMs }
  let p := { p with filter }
  (p.snapshot flipped, p)

/-- Advance local clock and inject a direct sample (for emulators that skip UART). -/
def pushSample (p : SensePipeline) (forceN : Rat) (tofMm : Option UInt16) (motion : Bool) (dtMs : UInt64) :
    SenseSnapshot × SensePipeline :=
  { p with tMs := saturatingAdd p.tMs dtMs }.updateFilter forceN tofMm motion

/-- The loop of `push_bytes` over the decoded frames. -/
def pushFrames (p : SensePipeline) : List Frame → List SenseSnapshot × SensePipeline
  | [] => ([], p)
  | fr :: frs =>
    if fr.msg ≠ .sense then p.pushFrames frs
    else
      match SensePayload.fromBytes fr.payload with
      | none => p.pushFrames frs
      | some s =>
        let (snap, p) := p.updateFilter s.forceN (if s.tofMm = 0 then none else some s.tofMm) s.motion
        (snap :: (p.pushFrames frs).1, (p.pushFrames frs).2)

def pushBytes (p : SensePipeline) (data : List UInt8) (dtMs : UInt64) : List SenseSnapshot × SensePipeline :=
  let (frames, decoder) := FrameDecoder.push p.decoder data
  { p with tMs := saturatingAdd p.tMs dtMs, decoder }.pushFrames frames

end SensePipeline
end CanisLink
