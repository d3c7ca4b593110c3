import CanisLink.Protocol
/-!
# Presence — the presence filter of `crates/presence`

Mat force, ToF and motion are fused into a raw flag, which is debounced: `present` follows the raw flag once it has held
for the enter or the exit window.
-/
namespace CanisLink

/-- `a.saturating_sub(b)`. -/
def saturatingSub (a b : UInt64) : UInt64 := if b ≤ a then a - b else 0

/-- `a.saturating_add(b)`. -/
def saturatingAdd (a b : UInt64) : UInt64 := if a ≤ a + b then a + b else 18446744073709551615

/-- Tunable thresholds (per terminal / dog size class later). -/
structure PresenceConfig where
  forceMinN : Rat := 25
  tofNearMm : UInt16 := 50
  tofFarMm : UInt16 := 900
  enterMs : UInt64 := PRESENCE_ENTER_MS
  exitMs : UInt64 := PRESENCE_EXIT_MS
deriving DecidableEq

/-- One raw sensor observation. -/
structure SenseSample where
  forceN : Rat
  tofMm : Option UInt16
  motion : Bool
  tMs : UInt64

/-- Debounced presence state machine. -/
structure PresenceFilter where
  cfg : PresenceConfig := {}
  present : Bool := false
  raw : Bool := false
  rawSinceMs : UInt64 := 0
  lastTMs : UInt64 := 0
  confidence : Rat := 0
  lastForceN : Rat := 0
  lastTof : Option UInt16 := none
deriving DecidableEq

namespace PresenceFilter

def forceBand (f : PresenceFilter) : ForceBand := .fromNewtons f.lastForceN

/-- `d >= tof_near_mm && d <= tof_far_mm`, false when there is no reading. -/
def tofOk (f : PresenceFilter) (s : SenseSample) : Bool :=
  (s.tofMm.map (fun d => decide (d ≥ f.cfg.tofNearMm) && decide (d ≤ f.cfg.tofFarMm))).getD false

def rawPresent (f : PresenceFilter) (s : SenseSample) : Bool :=
  decide (s.forceN ≥ f.cfg.forceMinN) && (f.tofOk s || s.motion)

/-- `confidence_of`, each sum rounded. -/
def confidenceOf (f : PresenceFilter) (s : SenseSample) (raw : Bool) : Rat :=
  if !raw then roundF32 (5 / 100)
  else
    let c := roundF32 (4 / 10)
    let c := if s.forceN ≥ f.cfg.forceMinN then roundF32 (c + roundF32 (35 / 100)) else c
    let c := if f.tofOk s then roundF32 (c + roundF32 (2 / 10)) else c
    let c := if s.motion then roundF32 (c + roundF32 (5 / 100)) else c
    max 0 (min c 1)

/-- Ingest a sample; true if the debounced `present` flipped. -/
def update (f : PresenceFilter) (s : SenseSample) : Bool × PresenceFilter :=
  let raw := f.rawPresent s
  let f := { f with lastTMs := s.tMs, lastForceN := s.forceN, lastTof := s.tofMm, confidence := f.confidenceOf s raw }
  let f := if raw ≠ f.raw then { f with raw := raw, rawSinceMs := s.tMs } else f
  let held := saturatingSub s.tMs f.rawSinceMs
  let prev := f.present
  let f :=
    if !f.present && f.raw && decide (held ≥ f.cfg.enterMs) then { f with present := true }
    else if f.present && !f.raw && decide (held ≥ f.cfg.exitMs) then { f with present := false }
    else f
  (decide (prev ≠ f.present), f)

end PresenceFilter
end CanisLink
