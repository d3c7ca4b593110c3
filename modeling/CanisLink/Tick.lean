import CanisLink.Handling
import CanisLink.Server
/-!
# Tick — which sessions the policy tick ends

The tick measures a session in whole seconds since it started, rounded towards zero and cast to a `u64`.  Of the
sessions that started in the past it finds exactly those at their cap; one that starts a second or more ahead of the
tick's clock looks older than any cap.
-/
namespace CanisLink

/-- The session is to end for a reason other than its cap: its active segment is over, or a dog is stopped. -/
def DueOtherwise (policies : DogId → DogPolicy) (now : DateTime) (x : SessionRecord) : Prop :=
  (x.state = .active ∧ x.segmentDeadlineAt ≤ now) ∨ (policies x.dogA).emergencyStop = true ∨
    (policies x.dogB).emergencyStop = true

/-- The session is to end at `now`: its first dog's cap is reached, or there is another reason. -/
def TickDue (policies : DogId → DogPolicy) (now : DateTime) (x : SessionRecord) : Prop :=
  ((policies x.dogA).maxSessionSec.toNat : Int) * 1000000000 ≤ now.since x.startedAt ∨ DueOtherwise policies now x

/-- An elapsed time that the tick compares rightly with a cap: it is not negative, or is short of a second and the cap
is not zero, or it is negative by so many seconds that the cast count is still below the cap. -/
def ReadRight (max : UInt64) (elapsed : Int) : Prop :=
  0 ≤ elapsed ∨ (-1000000000 < elapsed ∧ 0 < max) ∨ 18446744073709551616 < (max.toNat : Int) + -elapsed / 1000000000

section

variable (policies : DogId → DogPolicy) (now : DateTime) (x : SessionRecord)

instance : Decidable (DueOtherwise policies now x) := inferInstanceAs (Decidable (_ ∨ _))

instance : Decidable (TickDue policies now x) := inferInstanceAs (Decidable (_ ∨ _))

end

instance (max : UInt64) (elapsed : Int) : Decidable (ReadRight max elapsed) := inferInstanceAs (Decidable (_ ∨ _))

/-- The tick's comparison, for an elapsed time of either sign. -/
theorem readRight_iff (max : UInt64) (now start : DateTime) :
    (max ≤ asU64 (numSeconds (now.since start)) ↔ (max.toNat : Int) * 1000000000 ≤ now.since start) ↔
      ReadRight max (now.since start) := by
  have hnow := now.hi
  have hnow' := now.lo
  have hstart := start.hi
  have hstart' := start.lo
  have hmax := max.toNat_lt
  have hpos : 0 < max ↔ 0 < max.toNat := UInt64.lt_iff_toNat_lt
  unfold ReadRight DateTime.since
  rw [UInt64.le_iff_toNat_le, hpos]
  generalize he : now.ns - start.ns = e
  by_cases h0 : 0 ≤ e
  · have hsec : numSeconds e = e / 1000000000 := Int.tdiv_eq_ediv_of_nonneg h0
    have hu := asU64_toNat (i := numSeconds e) (by omega) (by omega)
    omega
  · have hsec : numSeconds e = -(-e / 1000000000) := by
      have hneg : (-e).tdiv 1000000000 = -numSeconds e := Int.neg_tdiv e 1000000000
      rw [Int.tdiv_eq_ediv_of_nonneg (by omega)] at hneg
      omega
    by_cases h1 : -1000000000 < e
    · have hu := asU64_toNat (i := numSeconds e) (by omega) (by omega)
      omega
    · have hu := asU64_of_neg (i := numSeconds e) (by omega) (by omega)
      omega

theorem dueToEnd_iff (policies : DogId → DogPolicy) (now : DateTime) (x : SessionRecord) :
    dueToEnd policies now x = true ↔
      (policies x.dogA).maxSessionSec ≤ asU64 (numSeconds (now.since x.startedAt)) ∨ DueOtherwise policies now x := by
  unfold dueToEnd DueOtherwise
  simp only [Bool.or_eq_true, Bool.and_eq_true, decide_eq_true_eq, or_assoc, ge_iff_le]
  rw [and_comm (a := x.state = .active)]

/-- The tick ends a session rightly exactly if its age is read rightly or does not matter. -/
theorem dueToEnd_right_iff (policies : DogId → DogPolicy) (now : DateTime) (x : SessionRecord) :
    (dueToEnd policies now x = true ↔ TickDue policies now x) ↔
      ReadRight (policies x.dogA).maxSessionSec (now.since x.startedAt) ∨ DueOtherwise policies now x := by
  rw [dueToEnd_iff, ← readRight_iff]
  unfold TickDue
  by_cases h : DueOtherwise policies now x
  · simp [h]
  · simp [h]

/-- The world after a tick at `κ 0`. -/
def ticked (st : AppState) (κ : Nat → DateTime) (w : World) : World := ((policyTick st).eval (exec st) κ w).2

/-- **A tick leaves the sessions that are not due**, as they were. -/
theorem ticked_get (st : AppState) (κ : Nat → DateTime) {w : World}
    (hkeyed : ∀ {k x}, w.data.sessions.get k = some x → x.id = k) (k : SessionId) :
    (ticked st κ w).data.sessions.get k =
      (w.data.sessions.get k).filter (fun x => !dueToEnd w.data.policies.current (κ 0) x) := by
  obtain ⟨xs, hxs, hledger⟩ := @policyTick_yields st κ w
  have hget : (ticked st κ w).data.sessions.get k = _ := congrArg (fun l => l.sessions.get k) hledger
  rw [hget, Ledger.endAll_get, Ledger.dropAll_sessions]
  have hsame : (w.ledger.expire (κ 0)).sessions.get k = w.data.sessions.get k := rfl
  rw [hsame]
  have hmem : k ∈ (xs.filter (dueToEnd w.data.policies.current (κ 0))).map (·.id) ↔
      ∃ x, w.data.sessions.get k = some x ∧ dueToEnd w.data.policies.current (κ 0) x = true := by
    simp only [List.mem_map, List.mem_filter, hxs]
    constructor
    · rintro ⟨x, ⟨⟨k', hk'⟩, hdue⟩, rfl⟩
      exact ⟨x, by rw [hkeyed hk']; exact hk', hdue⟩
    · rintro ⟨x, hx, hdue⟩
      exact ⟨x, ⟨⟨k, hx⟩, hdue⟩, hkeyed hx⟩
  cases hx : w.data.sessions.get k with
  | none => exact ite_self none
  | some x =>
    rw [hx] at hmem
    cases hdue : dueToEnd w.data.policies.current (κ 0) x with
    | true => rw [if_pos (hmem.2 ⟨x, rfl, hdue⟩), Option.filter_some_neg (by simp [hdue])]
    | false =>
      rw [Option.filter_some_pos (by simp [hdue]), if_neg]
      rintro hk
      obtain ⟨y, hy, hy'⟩ := hmem.1 hk
      cases hy
      rw [hdue] at hy'
      cases hy'

/-- **The tick ends exactly the sessions it should when none of them is misread**: every session that starts ahead of
the tick's clock is due anyway, or is ahead by less than a second and its cap is not 0, or has a cap above the cast. -/
theorem tick_exact_iff (st : AppState) (κ : Nat → DateTime) (w : World)
    (hkeyed : ∀ {k x}, w.data.sessions.get k = some x → x.id = k) :
    (∀ k, (ticked st κ w).data.sessions.get k =
        (w.data.sessions.get k).filter (fun x => !decide (TickDue w.data.policies.current (κ 0) x))) ↔
      ∀ k x, w.data.sessions.get k = some x →
        ReadRight (w.data.policies.current x.dogA).maxSessionSec ((κ 0).since x.startedAt) ∨
          DueOtherwise w.data.policies.current (κ 0) x := by
  simp only [ticked_get st κ hkeyed, ← dueToEnd_right_iff]
  refine forall_congr' (fun k => ?_)
  cases hx : w.data.sessions.get k with
  | none => simp
  | some x =>
    rw [Option.filter_some, Option.filter_some]
    simp only [Option.some.injEq, forall_eq']
    cases hd : dueToEnd w.data.policies.current (κ 0) x with
    | true => by_cases ht : TickDue w.data.policies.current (κ 0) x <;> simp [ht]
    | false => by_cases ht : TickDue w.data.policies.current (κ 0) x <;> simp [ht]

/-- Dogs 1 and 2 have met at noon: session 1 is being negotiated. -/
def met : World := (Server.serveAll bench ⟨fresh, noon⟩ (Server.timed meeting)).world

theorem met_keyed {k : SessionId} {x : SessionRecord} (h : met.data.sessions.get k = some x) : x.id = k :=
  (Server.serveAll_consistent (Server.timed meeting) (consistent_empty _)).sessions.keyed h

theorem met_sessions : met.data.sessions.all .stored = [firstSession] := by decide +kernel

/-- Half a second before noon is no time. -/
def halfSecondBefore : DateTime := ⟨43199500000000, by decide, by decide⟩

theorem tick_exact_early : (ticked bench (fun _ => halfSecondBefore) met).data.sessions.get ⟨1⟩ =
    (met.data.sessions.get ⟨1⟩).filter (fun x => !decide (TickDue met.data.policies.current halfSecondBefore x)) :=
  (tick_exact_iff bench (fun _ => halfSecondBefore) met met_keyed).2 (fun k x hx => by
    have hmem : x ∈ met.data.sessions.all .stored := SessionStore.mem_all.2 ⟨k, hx⟩
    rw [met_sessions] at hmem
    cases List.mem_singleton.1 hmem
    decide +kernel) ⟨1⟩

/-- **A session is ended before it began**: the tick read its clock two seconds before dog 2 accepted. -/
theorem tick_misread : ¬ ∀ (st : AppState) (κ : Nat → DateTime) (w : World) (k : SessionId),
    (∀ {k x}, w.data.sessions.get k = some x → x.id = k) → (ticked st κ w).data.sessions.get k =
      (w.data.sessions.get k).filter (fun x => !decide (TickDue w.data.policies.current (κ 0) x)) := by
  intro h
  have := h bench (fun _ => epoch 43198) met ⟨1⟩ met_keyed
  revert this
  decide +kernel

end CanisLink
