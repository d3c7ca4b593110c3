import CanisLink.Policy
/-!
# Sleep — the sleep window as a cyclic interval

`in_sleep` takes the hour and the minute of the local time and compares them with the bounds in three branches: equal,
ordered, wrapping midnight.  All three are one law on a circle of 1440 minutes, which does not depend on where the day
is cut.
-/
namespace CanisLink

/-! ## Intervals on a circle -/

namespace Cyclic

variable {n a b m : Int}

/-- `m` is in the half-open interval from `a` up to `b`, on a circle of `n`. -/
def Between (n a b m : Int) : Prop := (m - a) % n < (b - a) % n

theorem not_between_self (hn : 0 < n) : ¬ Between n a a m := by
  unfold Between
  rw [Int.sub_self, Int.zero_emod]
  exact not_lt.2 (Int.emod_nonneg _ (ne_of_gt hn))

/-- A difference of two points of the circle, from the one that comes first. -/
theorem sub_emod_of_le (hm : m < n) (ha : 0 ≤ a) (h : a ≤ m) : (m - a) % n = m - a :=
  Int.emod_eq_of_lt (by omega) (by omega)

/-- A difference of two points of the circle, once round. -/
theorem sub_emod_of_lt (hm : 0 ≤ m) (ha : a < n) (h : m < a) : (m - a) % n = m - a + n := by
  rw [← Int.add_emod_right]
  exact Int.emod_eq_of_lt (by omega) (by omega)

theorem between_of_lt (ha : 0 ≤ a) (hb : b < n) (hab : a < b) (hm : 0 ≤ m) (hmn : m < n) :
    Between n a b m ↔ a ≤ m ∧ m < b := by
  unfold Between
  rw [sub_emod_of_le hb ha (le_of_lt hab)]
  rcases lt_or_ge m a with h | h
  · rw [sub_emod_of_lt hm (by omega) h]
    omega
  · rw [sub_emod_of_le hmn ha h]
    omega

theorem between_of_gt (hb : 0 ≤ b) (ha : a < n) (hba : b < a) (hm : 0 ≤ m) (hmn : m < n) :
    Between n a b m ↔ a ≤ m ∨ m < b := by
  unfold Between
  rw [sub_emod_of_lt hb ha hba]
  rcases lt_or_ge m a with h | h
  · rw [sub_emod_of_lt hm ha h]
    omega
  · rw [sub_emod_of_le hmn (by omega) h]
    omega

end Cyclic

/-! ## The local minute -/

/-- The minutes since the epoch, rounded down. -/
def DateTime.epochMinutes (t : DateTime) : Int := t.ns / 60000000000

/-- The minute of the day at an offset. -/
def minuteOfDay (now : DateTime) (offsetMin : Int) : Int := (now.epochMinutes + offsetMin) % 1440

theorem fixedOffset_minutes {offset : Int} (hlo : -1440 < offset) (hhi : offset < 1440) :
    fixedOffset (offset * 60) = offset * 60 :=
  if_pos ⟨by omega, by omega⟩

/-- **The hour and the minute of the shifted instant make the minute of the day.** -/
theorem localMinutesNow_eq (p : DogPolicy) (now : DateTime) (hlo : -1440 < p.utcOffsetMin.toInt)
    (hhi : p.utcOffsetMin.toInt < 1440) :
    ((p.localMinutesNow now).toNat : Int) = minuteOfDay now p.utcOffsetMin.toInt := by
  unfold DogPolicy.localMinutesNow minuteOfDay DateTime.epochMinutes
  rw [fixedOffset_minutes hlo hhi]
  generalize p.utcOffsetMin.toInt = offset
  simp only [UInt16.toNat_add, UInt16.toNat_mul, UInt16.toNat_ofNat', Nat.reducePow, UInt16.reduceToNat,
    Nat.mod_mul_mod, Int.reduceDvd, Int.emod_emod_of_dvd, Nat.add_mod_mod, Nat.mod_add_mod, Int.natCast_emod,
    Nat.cast_add, Nat.cast_mul, Int.ofNat_toNat, Nat.cast_ofNat]
  omega

theorem minuteOfDay_bounds (now : DateTime) (offset : Int) :
    0 ≤ minuteOfDay now offset ∧ minuteOfDay now offset < 1440 :=
  ⟨Int.emod_nonneg _ (by decide), Int.emod_lt_of_pos _ (by decide)⟩

/-- Later by `k` minutes, at an offset less by `k`, it is the same minute of the day. -/
theorem minuteOfDay_shift {now later : DateTime} {offset k : Int} (h : later.ns = now.ns + k * 60000000000) :
    minuteOfDay later (offset - k) = minuteOfDay now offset := by
  unfold minuteOfDay DateTime.epochMinutes
  rw [h]
  omega

/-! ## The window -/

/-- **The three branches are one interval** of the day's minutes. -/
theorem inSleep_between (p : DogPolicy) (now : DateTime) (hstart : p.sleepStartMin < 1440)
    (hend : p.sleepEndMin < 1440) (hlo : -1440 < p.utcOffsetMin.toInt) (hhi : p.utcOffsetMin.toInt < 1440) :
    p.inSleep now = true ↔ Cyclic.Between 1440 p.sleepStartMin.toNat p.sleepEndMin.toNat
      (minuteOfDay now p.utcOffsetMin.toInt) := by
  have hm := localMinutesNow_eq p now hlo hhi
  obtain ⟨h0, h1⟩ := minuteOfDay_bounds now p.utcOffsetMin.toInt
  rw [UInt16.lt_iff_toNat_lt] at hstart hend
  have hstart : (p.sleepStartMin.toNat : Int) < 1440 := by exact_mod_cast hstart
  have hend : (p.sleepEndMin.toNat : Int) < 1440 := by exact_mod_cast hend
  unfold DogPolicy.inSleep
  split
  · rename_i heq
    rw [heq]
    exact iff_of_false Bool.false_ne_true (Cyclic.not_between_self (by decide))
  rename_i hne
  rw [← UInt16.toNat_inj] at hne
  split
  · rename_i hlt
    rw [UInt16.lt_iff_toNat_lt] at hlt
    rw [Cyclic.between_of_lt (by omega) hend (by exact_mod_cast hlt) h0 h1, ← hm]
    simp only [Bool.and_eq_true, decide_eq_true_eq, ge_iff_le, UInt16.le_iff_toNat_le, UInt16.lt_iff_toNat_lt]
    omega
  · rename_i hge
    rw [UInt16.lt_iff_toNat_lt] at hge
    rw [Cyclic.between_of_gt (by omega) hstart (by omega) h0 h1, ← hm]
    simp only [Bool.or_eq_true, decide_eq_true_eq, ge_iff_le, UInt16.le_iff_toNat_le, UInt16.lt_iff_toNat_lt]
    omega

/-- **The sleep window is the cyclic interval from `sleep_start_min` up to `sleep_end_min`** of the local minute, and a
later instant at an offset less by as much is asleep as well. -/
theorem in_sleep_cyclic (p : DogPolicy) (now : DateTime) (hstart : p.sleepStartMin < 1440) (hend : p.sleepEndMin < 1440)
    (hlo : -1440 < p.utcOffsetMin.toInt) (hhi : p.utcOffsetMin.toInt < 1440) :
    (p.inSleep now = true ↔ (minuteOfDay now p.utcOffsetMin.toInt - p.sleepStartMin.toNat) % 1440 <
      ((p.sleepEndMin.toNat : Int) - p.sleepStartMin.toNat) % 1440) ∧
    ∀ (k : Int) (later : DateTime) (offset : Int16), later.ns = now.ns + k * 60000000000 →
      offset.toInt = p.utcOffsetMin.toInt - k → -1440 < offset.toInt → offset.toInt < 1440 →
      ({ p with utcOffsetMin := offset }).inSleep later = p.inSleep now := by
  have hlaw := inSleep_between p now hstart hend hlo hhi
  refine ⟨hlaw, fun k later offset hlater hoffset hlo' hhi' => ?_⟩
  rw [Bool.eq_iff_iff, hlaw, inSleep_between { p with utcOffsetMin := offset } later hstart hend hlo' hhi']
  dsimp only
  rw [hoffset, minuteOfDay_shift hlater]

/-- A new dog sleeps at midnight. -/
theorem in_sleep_midnight : (DogPolicy.defaultFor ⟨1⟩).inSleep DateTime.unixEpoch = true :=
  (in_sleep_cyclic (DogPolicy.defaultFor ⟨1⟩) DateTime.unixEpoch (by decide) (by decide) (by decide) (by decide)).1.2
    (by decide)

end CanisLink
