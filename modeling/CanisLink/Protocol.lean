import CanisLink.Chrono
import Mathlib.Algebra.Order.Field.Rat
import Mathlib.Algebra.Order.Floor.Defs
/-!
# Protocol — the shared types of `crates/protocol`

Ids are newtypes over a uuid.  A finite `f32` is the rational it denotes: the code only compares, clamps and copies
weights and confidences.  The textual forms the code relies on (of a uuid, of an instant) come from other crates and
are a parameter, `Formats`.
-/
namespace CanisLink

/-- The exponent of the leading bit of a positive rational. -/
def leadingBit (m : Rat) : Int :=
  let e : Int := (m.num.toNat.log2 : Int) - (m.den.log2 : Int)
  if (2 : Rat) ^ e ≤ m then e else e - 1

/-- The nearest integer, ties to even. -/
def roundHalfEven (x : Rat) : Int :=
  let r := x - x.floor
  if r < 1 / 2 ∨ (r = 1 / 2 ∧ x.floor % 2 = 0) then x.floor else x.floor + 1

/-- The `f32` an exact result is rounded to: 24 significant bits (no result here is subnormal or overflows). -/
def roundF32 (q : Rat) : Rat :=
  if q = 0 then 0
  else
    let ulp : Rat := (2 : Rat) ^ (leadingBit (max q (-q)) - 23)
    roundHalfEven (q / ulp) * ulp

abbrev Uuid := Nat

structure DogId where
  uuid : Uuid
deriving DecidableEq, Repr

structure TerminalId where
  uuid : Uuid
deriving DecidableEq, Repr

structure InviteId where
  uuid : Uuid
deriving DecidableEq, Repr

structure SessionId where
  uuid : Uuid
deriving DecidableEq, Repr

/-- The printed forms of other crates: uuid's `Display` and `parse_str`, chrono's RFC 3339 text, and the text of
SQLite's `datetime()` as `parse_dt` reads it. -/
structure Formats where
  uuid : Uuid → String
  parseUuid : String → Option Uuid
  rfc3339 : DateTime → String
  parseRfc3339 : String → Option DateTime
  parseSqliteDatetime : String → Option DateTime

/-- A printed uuid reads back as itself. -/
structure Formats.LawfulIds (F : Formats) : Prop where
  parse_uuid : ∀ u, F.parseUuid (F.uuid u) = some u

/-- A printed instant reads back as itself. -/
def Formats.ReadsBack (F : Formats) (t : DateTime) : Prop := F.parseRfc3339 (F.rfc3339 t) = some t

/-- What is printed reads back as itself: uuids, and the instants of the years that have four digits.  The year 10000 is
printed with a sign and a fifth digit, and `parse_from_rfc3339` takes neither. -/
structure Formats.Lawful (F : Formats) : Prop extends F.LawfulIds where
  parse_rfc3339 : ∀ t : DateTime, t.FourDigitYear → F.ReadsBack t

theorem Formats.LawfulIds.uuid_inj {F : Formats} (h : F.LawfulIds) {u v : Uuid} : F.uuid u = F.uuid v ↔ u = v := by
  refine ⟨fun e => ?_, fun e => by rw [e]⟩
  have := h.parse_uuid u
  rw [e, h.parse_uuid v] at this
  exact (Option.some.inj this).symm

inductive SessionState
  | none | invitePending | ringing | negotiating | active | ending | closed | failed
deriving DecidableEq, Repr

inductive EndReason
  | done | walkAway | segmentExpired | maxDuration | peerLeft | policyHalt | emergencyStop | timeout | mediaFailed
  | revoked
deriving DecidableEq, Repr

inductive ForceBand
  | empty | small | medium | large | overload
deriving DecidableEq, Repr

/-- Map force newtons (approx) to band. -/
def ForceBand.fromNewtons (f : Rat) : ForceBand :=
  if f < 15 then .empty
  else if f < 80 then .small
  else if f < 200 then .medium
  else if f < 450 then .large
  else .overload

/-- Dog-facing intent vocabulary (v1). -/
inductive Intent
  | call | play | again | done
deriving DecidableEq, Repr

/-- Presence sample published by edge → cloud. -/
structure PresenceReport where
  dogId : DogId
  terminalId : TerminalId
  present : Bool
  confidence : Rat
  forceBand : ForceBand
  forceN : Rat
  tofMm : Option UInt16
  ts : DateTime
  seq : UInt64
deriving DecidableEq

/-- Cloud view of live presence (after TTL). -/
structure PresenceView where
  dogId : DogId
  terminalId : TerminalId
  present : Bool
  confidence : Rat
  forceBand : ForceBand
  lastSeen : DateTime
  seq : UInt64
deriving DecidableEq

def PRESENCE_TTL_MS : UInt64 := 10000
def PRESENCE_ENTER_MS : UInt64 := 800
def PRESENCE_EXIT_MS : UInt64 := 2500

inductive InviteMode
  | portal | playActive
deriving DecidableEq, Repr

def RING_TIMEOUT_MS : Int := 25000
/-- The `f32` nearest to 0.30. -/
def W_MIN : Rat := 5033165 / 16777216

structure Invite where
  id : InviteId
  fromDog : DogId
  toDog : DogId
  mode : InviteMode
  state : SessionState
  createdAt : DateTime
  expiresAt : DateTime
deriving DecidableEq

structure SessionRecord where
  id : SessionId
  inviteId : InviteId
  dogA : DogId
  dogB : DogId
  mode : InviteMode
  state : SessionState
  startedAt : DateTime
  maxEndAt : DateTime
  segmentDeadlineAt : DateTime
deriving DecidableEq

def SESSION_SEGMENT_MS : Int := 300000
def SESSION_MAX_MS : Int := 900000

/-- One of the two dogs of the invite. -/
def Invite.hasDog (i : Invite) (d : DogId) : Prop := i.fromDog = d ∨ i.toDog = d
/-- One of the two dogs of the session. -/
def SessionRecord.hasDog (s : SessionRecord) (d : DogId) : Prop := s.dogA = d ∨ s.dogB = d

instance (i : Invite) (d : DogId) : Decidable (i.hasDog d) := inferInstanceAs (Decidable (_ ∨ _))
instance (s : SessionRecord) (d : DogId) : Decidable (s.hasDog d) := inferInstanceAs (Decidable (_ ∨ _))

end CanisLink
