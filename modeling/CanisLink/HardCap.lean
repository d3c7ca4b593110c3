import CanisLink.Handling
/-!
# HardCap — no session outlives `max_end_at`

`accept_invite_handler` fixes `max_end_at` by the policy of the acceptor; the tick measures a session against the policy
of its first dog, the caller, as it is then.  While no caller has the longer cap, at the accept or by a later edit, a
session that has reached `max_end_at` is due at the next tick.
-/
namespace CanisLink

/-- A session due by `max_end_at` if its first dog's cap is `max` seconds: the cap is within the session's own, or the
session is active and its segment ends in time. -/
def HeldBy (max : UInt64) (x : SessionRecord) : Prop :=
  (max.toNat : Int) * 1000000000 ≤ x.maxEndAt.since x.startedAt ∨ (x.state = .active ∧ x.segmentDeadlineAt ≤ x.maxEndAt)

instance (max : UInt64) (x : SessionRecord) : Decidable (HeldBy max x) := inferInstanceAs (Decidable (_ ∨ _))

/-- The `max_session_sec` a steward's request sets, and for whom. -/
def newCap (st : AppState) (a : Arrival) : Option (DogId × UInt64) :=
  match a.req with
  | .stewardPolicy h b => if (verifySteward st h).isOk then b.maxSessionSec.map (fun max => (b.dogId, max)) else none
  | _ => none

/-- **No caller has the longer cap**: an accept finds the caller's `max_session_sec` no longer than the acceptor's, and
a new `max_session_sec` still holds the sessions whose first dog it is for. -/
def CapKept (st : AppState) (s : Server) (a : Arrival) : Prop :=
  (∀ di ∈ acceptedBy st s a, (s.world.data.policies.current di.2.fromDog).maxSessionSec ≤
      (s.world.data.policies.current di.1).maxSessionSec) ∧
    ∀ dm ∈ newCap st a, ∀ x ∈ s.world.data.sessions.all st.order, x.dogA = dm.1 → HeldBy dm.2 x

instance (st : AppState) (s : Server) (a : Arrival) : Decidable (CapKept st s a) := inferInstanceAs (Decidable (_ ∧ _))

/-- The acceptor's cap is a duration: at most `i64::MAX / 1000` seconds. -/
def CapFits (st : AppState) (s : Server) (a : Arrival) : Prop :=
  ∀ di ∈ acceptedBy st s a, (s.world.data.policies.current di.1).maxSessionSec ≤ 9223372036854775

instance (st : AppState) (s : Server) (a : Arrival) : Decidable (CapFits st s a) :=
  inferInstanceAs (Decidable (∀ _ ∈ _, _))

theorem dueToEnd_of_held {policies : DogId → DogPolicy} {now : DateTime} {x : SessionRecord}
    (hh : HeldBy (policies x.dogA).maxSessionSec x) (hstart : x.startedAt ≤ now) (hmax : x.maxEndAt ≤ now) :
    dueToEnd policies now x = true := by
  rcases hh with hcap | ⟨hactive, hseg⟩
  · have hle : (policies x.dogA).maxSessionSec ≤ asU64 (numSeconds (now.since x.startedAt)) := by
      rw [UInt64.le_iff_toNat_le]
      have h0 := DateTime.le_iff.1 hstart
      have h1 := DateTime.le_iff.1 hmax
      have hlo := x.startedAt.lo
      have hhi := now.hi
      unfold DateTime.since at hcap ⊢
      have hsec : numSeconds (now.ns - x.startedAt.ns) = (now.ns - x.startedAt.ns) / 1000000000 :=
        Int.tdiv_eq_ediv_of_nonneg (by omega)
      have hu := asU64_toNat (i := numSeconds (now.ns - x.startedAt.ns)) (by omega) (by omega)
      omega
    unfold dueToEnd
    rw [decide_eq_true hle]
    rfl
  · have hle : now ≥ x.segmentDeadlineAt := le_trans hseg hmax
    unfold dueToEnd
    rw [decide_eq_true hle, decide_eq_true hactive]
    simp

theorem HeldBy.later {max : UInt64} {x y : SessionRecord} (h : HeldBy max x) (hl : Later x y) : HeldBy max y := by
  cases hl with
  | same => exact h
  | active =>
    rcases h with h | ⟨-, hseg⟩
    · exact .inl h
    · exact .inr ⟨rfl, hseg⟩
  | renewed hd =>
    rcases h with h | ⟨hactive, -⟩
    · exact .inl h
    · exact .inr ⟨hactive, hd⟩

section

variable {st : AppState} {s : Server} {a : Arrival}

/-- A new policy of `d₀` is in force for `d₀` and no other dog. -/
theorem edited_policy {w : World} (hkeyed : ∀ d, (w.data.policies.current d).dogId = d) {p : DogPolicy} {d₀ : DogId}
    (hp : p.dogId = d₀) (d : DogId) : ((w.ledger.setPolicy p).policies d).dogId = d ∧
      ((w.ledger.setPolicy p).policies d = w.data.policies.current d ∨
        d = d₀ ∧ (w.ledger.setPolicy p).policies d = p) := by
  have hset : (w.ledger.setPolicy p).policies d = if d = p.dogId then p else w.data.policies.current d := rfl
  by_cases hd : d = p.dogId
  · rw [if_pos hd] at hset
    exact ⟨by rw [hset, hd], .inr ⟨hd.trans hp, hset⟩⟩
  · rw [if_neg hd] at hset
    exact ⟨by rw [hset, hkeyed], .inl hset⟩

theorem edited_cap {w : World} (hkeyed : ∀ d, (w.data.policies.current d).dogId = d) {p : DogPolicy} {d₀ : DogId}
    (hp : p.dogId = d₀) (hmax : p.maxSessionSec = (w.data.policies.current d₀).maxSessionSec) (d : DogId) :
    ((w.ledger.setPolicy p).policies d).dogId = d ∧
      ((w.ledger.setPolicy p).policies d).maxSessionSec = (w.data.policies.current d).maxSessionSec := by
  obtain ⟨hid, heq | ⟨hd, heq⟩⟩ := edited_policy hkeyed hp d
  · exact ⟨hid, by rw [heq]⟩
  · exact ⟨hid, by rw [heq, hmax, hd]⟩

/-- A request changes `max_session_sec` of a dog only as its steward says. -/
theorem Handled.cap {κ : Nat → DateTime} {n : Nat} {u : Uuid} {w : World} {r : Request}
    {l : Ledger} (h : Handled st κ n u w r l)
    (hkeyed : ∀ d, (w.data.policies.current d).dogId = d) (d : DogId) : (l.policies d).dogId = d ∧
      ((l.policies d).maxSessionSec = (w.data.policies.current d).maxSessionSec ∨
        ∃ hd b, r = .stewardPolicy hd b ∧ verifySteward st hd = .ok () ∧ d = b.dogId ∧
          (l.policies d).maxSessionSec ∈ b.maxSessionSec) := by
  cases hr : r.editsPolicy with
  | false =>
    rw [h.policies_eq hr]
    exact ⟨hkeyed d, .inl rfl⟩
  | true =>
  cases h with
  | @estopSet hd d₀ on =>
    have hp : { w.data.policies.current d₀ with emergencyStop := on }.dogId = d₀ := hkeyed d₀
    exact (edited_cap hkeyed hp rfl d).imp id .inl
  | @stopped hd d₀ x =>
    have hp : { w.data.policies.current d₀ with emergencyStop := true }.dogId = d₀ := hkeyed d₀
    unfold Ledger.endSession
    rw [Ledger.save_policies]
    exact (edited_cap hkeyed hp rfl d).imp id .inl
  | @socialSet hd d₀ on =>
    have hp : { w.data.policies.current d₀ with socialDisabled := on }.dogId = d₀ := hkeyed d₀
    exact (edited_cap hkeyed hp rfl d).imp id .inl
  | @policySet hd b steward =>
    have hid₀ : (b.apply (w.data.policies.current b.dogId)).dogId = b.dogId := hkeyed b.dogId
    cases hm : b.maxSessionSec with
    | none =>
      have hmax : (b.apply (w.data.policies.current b.dogId)).maxSessionSec =
          (w.data.policies.current b.dogId).maxSessionSec := by simp [StewardPolicyBody.apply, hm]
      exact (edited_cap hkeyed hid₀ hmax d).imp id .inl
    | some m =>
      obtain ⟨hid, heq | ⟨hd₀, heq⟩⟩ := edited_policy hkeyed hid₀ d
      · exact ⟨hid, .inl (by rw [heq])⟩
      · refine ⟨hid, .inr ⟨hd, b, rfl, steward, hd₀, ?_⟩⟩
        rw [heq, hm]
        simp [StewardPolicyBody.apply, hm]
  | aside => exact ⟨hkeyed d, .inl rfl⟩
  | swept => exact ⟨hkeyed d, .inl rfl⟩
  | _ => cases hr

/-- Every session began in the past and is held by the cap of its first dog. -/
structure Capped (s : Server) : Prop where
  keyed : ∀ d, (s.world.data.policies.current d).dogId = d
  consistent : s.world.Consistent
  begun : ∀ {k x}, s.world.data.sessions.get k = some x → x.startedAt ≤ s.time
  held : ∀ {k x}, s.world.data.sessions.get k = some x → HeldBy (s.world.data.policies.current x.dogA).maxSessionSec x

theorem held_of_begins {w : World} {now : DateTime} {dog : DogId} {inv : Invite} {x : SessionRecord}
    (h : Begins w now dog inv x) (hfits : (w.data.policies.current dog).maxSessionSec ≤ 9223372036854775)
    (hle : (w.data.policies.current inv.fromDog).maxSessionSec ≤ (w.data.policies.current dog).maxSessionSec) :
    HeldBy (w.data.policies.current x.dogA).maxSessionSec x := by
  obtain ⟨d, hd, hplus⟩ := Option.bind_eq_some_iff.1 h.maxEndAt
  have hns := DateTime.plus_ns hplus
  rw [UInt64.le_iff_toNat_le] at hfits hle
  have hfits : (w.data.policies.current dog).maxSessionSec.toNat ≤ 9223372036854775 := hfits
  rw [seconds_eq hd, asI64_of_lt (by omega)] at hns
  left
  unfold DateTime.since
  rw [h.dogA, h.startedAt]
  omega

theorem capped_step (h : Capped s) (hc : (s.OnTime a ∧ CapFits st s a) ∧ CapKept st s a) : Capped (s.serve st a) := by
  obtain ⟨⟨htime, hfits⟩, hkept⟩ := hc
  have hh := Server.serve_handled st s a
  have hcap := hh.cap h.keyed
  refine ⟨fun d => (hcap d).1, Server.serve_consistent a h.consistent, fun {k y} hy => ?_, fun {k y} hy => ?_⟩
  · rcases hh.session hy with ⟨x, hx, hl⟩ | ⟨hd, i, b, dog, inv, hreq, through, begins, -⟩
    · rw [hl.fixed.2.2.1]
      exact le_trans (h.begun hx) (Server.time_mono htime)
    · rw [begins.startedAt]
      exact htime.2 (Nat.zero_le _)
  · rcases hh.session hy with ⟨x, hx, hl⟩ | ⟨hd, i, b, dog, inv, hreq, through, begins, -⟩
    · rcases (hcap y.dogA).2 with heq | ⟨hd, b, hreq, hst, hdog, hmem⟩
      · rw [show (s.serve st a).world.data.policies.current = (s.serve st a).world.ledger.policies from rfl, heq,
          hl.fixed.2.1]
        exact (h.held hx).later hl
      · have hnew : newCap st a = some (b.dogId, ((s.serve st a).world.ledger.policies y.dogA).maxSessionSec) := by
          unfold newCap
          rw [hreq]
          dsimp only
          rw [hst, show b.maxSessionSec = _ from hmem]
          rfl
        refine HeldBy.later (hkept.2 _ hnew x (SessionStore.mem_all.2 ⟨k, hx⟩) ?_) hl
        rw [← hl.fixed.2.1, hdog]
    · have hby : acceptedBy st s a = some (dog, inv) := by
        unfold acceptedBy
        rw [hreq]
        exact through
      rw [hh.policies_eq (by rw [hreq]; rfl)] at hcap
      have hpol : (s.serve st a).world.data.policies.current = s.world.data.policies.current :=
        hh.policies_eq (by rw [hreq]; rfl)
      rw [hpol]
      exact held_of_begins begins (hfits _ hby) (hkept.1 _ hby)

theorem tick_ends (h : Capped s) (htime : s.OnTime a) (ha : a.req = .policyTick) {k : SessionId} {x : SessionRecord}
    (hx : (s.serve st a).world.data.sessions.get k = some x) : a.clock 0 < x.maxEndAt := by
  have hh := Server.serve_handled st s a
  have hx : (s.serve st a).world.ledger.sessions.get k = some x := hx
  rw [ha] at hh
  generalize (s.serve st a).world.ledger = l at hh hx
  cases hh with
  | aside _ handler => cases handler
  | swept handler => cases handler
  | @ticked xs all =>
    rw [Ledger.endAll_get, Ledger.dropAll_sessions] at hx
    split at hx
    · cases hx
    · rename_i hnot
      have hx : s.world.data.sessions.get k = some x := hx
      by_contra hle
      refine hnot (List.mem_map.2 ⟨x, List.mem_filter.2 ⟨(all x).2 ⟨k, hx⟩, ?_⟩, h.consistent.sessions.keyed hx⟩)
      exact dueToEnd_of_held (h.held hx) (le_trans (h.begun hx) htime.1) (not_lt.1 hle)

end

/-- The runs the cap is about: the clock never goes back, and every cap is a duration. -/
def InBounds (st : AppState) (s : Server) (a : Arrival) : Prop := s.OnTime a ∧ CapFits st s a

/-- **While no caller has the longer cap, no session outlives its own**: over every run of requests handled one at a
time from empty stores, after a tick at `now` every session's `max_end_at` is later than `now`. -/
theorem hard_cap (st : AppState) (s : Server) (hs : s.world.data = {}) (before : List Arrival) (a : Arrival)
    (ha : a.req = .policyTick)
    (hb : s.Meets st (InBounds st) (before ++ [a])) (hm : s.Meets st (CapKept st) (before ++ [a])) (k : SessionId)
    (x : SessionRecord) (hx : (s.serveAll st (before ++ [a])).world.data.sessions.get k = some x) :
    a.clock 0 < x.maxEndAt := by
  have h0 : Capped s := by
    refine ⟨fun d => ?_, ⟨?_, ?_⟩, fun {k x} hk => ?_, fun {k x} hk => ?_⟩
    · rw [hs]; rfl
    · rw [hs]; exact .empty
    · rw [hs]; exact .empty
    · rw [hs] at hk; cases hk
    · rw [hs] at hk; cases hk
  obtain ⟨hbefore, hlast⟩ := (hb.and hm).append
  have hcapped := Server.serveAll_inv (fun _ _ h hc => capped_step h hc) before s h0 hbefore
  rw [Server.serveAll_append] at hx
  exact tick_ends hcapped hlast.1.1.1 ha hx

/-- A minute and two minutes after dog 2 accepts. -/
def minuteAfter : DateTime := epoch 43260
def twoMinutesAfter : DateTime := epoch 43320

theorem hard_cap_minute : minuteAfter < epoch 44100 :=
  hard_cap bench ⟨fresh, noon⟩ rfl (Server.timed meeting) ⟨.policyTick, fun _ => minuteAfter⟩ rfl
    (.and (Server.timed_onTime (meeting ++ [(minuteAfter, .policyTick)]) ⟨fresh, noon⟩ (by decide)) (by decide +kernel))
    (by decide +kernel) ⟨1⟩ firstSession (by decide +kernel)

/-- The steward caps dog 2's sessions at a minute. -/
def capDog2 : Request := .stewardPolicy (some "Steward s") { dogId := ⟨2⟩, maxSessionSec := some 60 }

/-- **A session outlives its cap**: dog 2, capped at a minute, has accepted the call of dog 1, and two minutes later the
tick measures the session against dog 1's quarter of an hour. -/
theorem cap_outlived : ¬ ∀ (st : AppState) (s : Server) (before : List Arrival) (a : Arrival) (k : SessionId)
    (x : SessionRecord), s.world.data = {} → a.req = .policyTick → s.Meets st (InBounds st) (before ++ [a]) →
    (s.serveAll st (before ++ [a])).world.data.sessions.get k = some x → a.clock 0 < x.maxEndAt := by
  intro h
  have := h bench ⟨fresh, noon⟩ (Server.timed ((noon, capDog2) :: meeting)) ⟨.policyTick, fun _ => twoMinutesAfter⟩ ⟨1⟩
    { firstSession with maxEndAt := minuteAfter } rfl rfl
    (.and (Server.timed_onTime ((noon, capDog2) :: meeting ++ [(twoMinutesAfter, .policyTick)]) ⟨fresh, noon⟩
      (by decide))
      (by decide +kernel)) (by decide +kernel)
  revert this
  decide

end CanisLink
