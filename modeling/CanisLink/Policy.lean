import CanisLink.Protocol
/-!
# Policy — the welfare rules of `crates/policy`

The rules as code: a dog's policy record with its defaults, the sleep window, who may start or accept contact, the
hourly limit and the soft segment.
-/
namespace CanisLink

/-- Per-dog policy snapshot. -/
structure DogPolicy where
  dogId : DogId
  timezone : String
  sleepStartMin : UInt16
  sleepEndMin : UInt16
  utcOffsetMin : Int16
  emergencyStop : Bool
  socialDisabled : Bool
  maxInvitesPerHour : UInt32
  maxSessionSec : UInt64
  segmentSec : UInt64
deriving DecidableEq

def DogPolicy.defaultFor (dogId : DogId) : DogPolicy where
  dogId := dogId
  timezone := "UTC"
  sleepStartMin := 22 * 60
  sleepEndMin := 7 * 60
  utcOffsetMin := 0
  emergencyStop := false
  socialDisabled := false
  maxInvitesPerHour := 12
  maxSessionSec := 15 * 60
  segmentSec := 5 * 60

/-- `FixedOffset::east_opt(secs)`, UTC when it refuses. -/
def fixedOffset (secs : Int) : Int := if -86400 < secs ∧ secs < 86400 then secs else 0

/-- `local_minutes_now`: hour and minute of the instant, shifted by the policy's offset. -/
def DogPolicy.localMinutesNow (p : DogPolicy) (now : DateTime) : UInt16 :=
  let secs := (now.ns / 1000000000 + fixedOffset (p.utcOffsetMin.toInt * 60)) % 86400
  let hour := (secs / 3600).toNat
  let minute := (secs % 3600 / 60).toNat
  UInt16.ofNat hour * 60 + UInt16.ofNat minute

def DogPolicy.inSleep (p : DogPolicy) (now : DateTime) : Bool :=
  let m := p.localMinutesNow now
  if p.sleepStartMin = p.sleepEndMin then false
  else if p.sleepStartMin < p.sleepEndMin then decide (m ≥ p.sleepStartMin) && decide (m < p.sleepEndMin)
  -- wraps midnight
  else decide (m ≥ p.sleepStartMin) || decide (m < p.sleepEndMin)

inductive PolicyDeny
  | emergencyStop | socialDisabled | sleep | rateLimit
deriving DecidableEq, Repr

/-- The `Display` text. -/
def PolicyDeny.text : PolicyDeny → String
  | emergencyStop => "emergency_stop active"
  | socialDisabled => "social_disabled"
  | sleep => "sleep window"
  | rateLimit => "invite rate limit"

/-- Can this dog initiate or accept social contact right now? -/
def socialAllowed (p : DogPolicy) (now : DateTime) : Except PolicyDeny Unit :=
  if p.emergencyStop then .error .emergencyStop
  else if p.socialDisabled then .error .socialDisabled
  else if p.inSleep now then .error .sleep
  else .ok ()

def inviteRateOk (sentInWindow maxPerHour : UInt32) : Except PolicyDeny Unit :=
  if sentInWindow ≥ maxPerHour then .error .rateLimit else .ok ()

/-- Extend soft segment; never past max_end.  `none` where the sum panics. -/
def extendSegment (now : DateTime) (segmentSec : UInt64) (maxEnd : DateTime) : Option DateTime := do
  let next ← now.plus (← seconds (asI64 segmentSec))
  if next > maxEnd then some maxEnd else some next

theorem extendSegment_le {now maxEnd deadline : DateTime} {segmentSec : UInt64}
    (h : extendSegment now segmentSec maxEnd = some deadline) : deadline ≤ maxEnd := by
  unfold extendSegment at h
  obtain ⟨d, -, h⟩ := Option.bind_eq_some_iff.1 h
  obtain ⟨next, -, h⟩ := Option.bind_eq_some_iff.1 h
  split at h
  · exact le_of_eq (Option.some.inj h).symm
  · rename_i hn
    exact Option.some.inj h ▸ not_lt.1 hn

theorem not_stopped_of_allowed {p : DogPolicy} {now : DateTime} (h : socialAllowed p now = .ok ()) :
    p.emergencyStop = false := by
  unfold socialAllowed at h
  split at h
  · cases h
  · rename_i hs; simpa using hs

end CanisLink
