import Mathlib.Data.Int.Order.Basic
import Mathlib.Order.Lattice
/-!
# Chrono — instants, durations and casts as the services compute with them

`DateTime<Utc>` is an instant within chrono's range and a `Duration` a signed count of nanoseconds.  What panics in
chrono (a duration of too many seconds, a sum outside the range) is `none` here.
-/
namespace CanisLink

/-- `DateTime<Utc>`: nanoseconds since the epoch, within `MIN_UTC ..= MAX_UTC`. -/
structure DateTime where
  ns : Int
  lo : -8334601228800000000000 ≤ ns
  hi : ns < 8210266876800000000000
deriving DecidableEq

namespace DateTime

/-- `DateTime::UNIX_EPOCH`. -/
def unixEpoch : DateTime := ⟨0, by decide, by decide⟩

@[ext] theorem ext {a b : DateTime} (h : a.ns = b.ns) : a = b := by
  cases a; cases b; cases h; rfl

instance : LinearOrder DateTime :=
  LinearOrder.lift' DateTime.ns (fun _ _ h => DateTime.ext h)

theorem le_iff {a b : DateTime} : a ≤ b ↔ a.ns ≤ b.ns := Iff.rfl

/-- The year has four digits: from 0000 to 9999. -/
def FourDigitYear (t : DateTime) : Prop := -62167219200000000000 ≤ t.ns ∧ t.ns < 253402300800000000000

instance (t : DateTime) : Decidable t.FourDigitYear := inferInstanceAs (Decidable (_ ∧ _))

/-- `t + d`, which panics outside the range. -/
def plus (t : DateTime) (d : Int) : Option DateTime :=
  if h : -8334601228800000000000 ≤ t.ns + d ∧ t.ns + d < 8210266876800000000000 then some ⟨t.ns + d, h.1, h.2⟩ else none

theorem plus_ns {t u : DateTime} {d : Int} (h : t.plus d = some u) : u.ns = t.ns + d := by
  unfold plus at h
  split at h
  · rw [← Option.some.inj h]
  · cases h

end DateTime

/-- `a - b`. -/
def DateTime.since (a b : DateTime) : Int := a.ns - b.ns

/-- `Duration::milliseconds(n)`. -/
def milliseconds (n : Int) : Int := n * 1000000

/-- `Duration::seconds(n)`, which panics past `i64::MAX / 1000` seconds either way. -/
def seconds (n : Int) : Option Int :=
  if -9223372036854775 ≤ n ∧ n ≤ 9223372036854775 then some (n * 1000000000) else none

theorem seconds_eq {n d : Int} (h : seconds n = some d) : d = n * 1000000000 := by
  unfold seconds at h
  split at h
  · rw [← Option.some.inj h]
  · cases h

/-- `d.num_seconds()`: whole seconds, rounded towards zero. -/
def numSeconds (d : Int) : Int := d.tdiv 1000000000

/-- `d.num_milliseconds()`. -/
def numMilliseconds (d : Int) : Int := d.tdiv 1000000

/-- Clamped at zero, a duration's milliseconds are rounded down. -/
theorem max_numMilliseconds (d : Int) : max (numMilliseconds d) 0 = max d 0 / 1000000 := by
  unfold numMilliseconds
  rcases le_total 0 d with h | h
  · rw [Int.tdiv_eq_ediv_of_nonneg h]
    omega
  · have hneg : d.tdiv 1000000 ≤ 0 := by
      have := Int.tdiv_nonneg (a := -d) (b := 1000000) (by omega) (by omega)
      rw [Int.neg_tdiv] at this
      omega
    omega

/-- `x as i64` for a `u64`. -/
def asI64 (x : UInt64) : Int := x.toInt64.toInt

/-- `i as u64` for an `i64`. -/
def asU64 (i : Int) : UInt64 := (Int64.ofInt i).toUInt64

theorem asI64_of_lt {x : UInt64} (h : x.toNat < 9223372036854775808) : asI64 x = x.toNat := by
  unfold asI64
  rw [← Int64.toInt_toBitVec, UInt64.toBitVec_toInt64, BitVec.toInt_eq_toNat_of_lt]
  · rfl
  · simpa using (by omega : 2 * x.toNat < 18446744073709551616)

/-- A count past `i64::MAX`, cast, is negative. -/
theorem asI64_of_ge {x : UInt64} (h : 9223372036854775808 ≤ x.toNat) : asI64 x = x.toNat - 18446744073709551616 := by
  unfold asI64
  rw [← Int64.toInt_toBitVec, UInt64.toBitVec_toInt64, BitVec.toInt_eq_toNat_cond, if_neg]
  · rfl
  · simpa using (by omega : 18446744073709551616 ≤ 2 * x.toNat)

theorem asU64_toNat {i : Int} (h0 : 0 ≤ i) (h : i < 18446744073709551616) : ((asU64 i).toNat : Int) = i := by
  show (((Int64.ofInt i).toBitVec.toNat : Nat) : Int) = i
  rw [Int64.toBitVec_ofInt, BitVec.toNat_ofInt]
  omega

/-- A negative count, cast, is a huge one. -/
theorem asU64_of_neg {i : Int} (h : i < 0) (hlo : -18446744073709551616 ≤ i) :
    ((asU64 i).toNat : Int) = i + 18446744073709551616 := by
  have hbits : ((asU64 i).toNat : Int) = (((Int64.ofInt i).toBitVec.toNat : Nat) : Int) := rfl
  rw [hbits, Int64.toBitVec_ofInt, BitVec.toNat_ofInt]
  omega

end CanisLink
