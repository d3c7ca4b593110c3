import CanisLink.Segments
/-!
# Deadlines — the arithmetic of the deadlines over every policy

`steward_policy` stores any `u64`, and the handlers cast it to an `i64`, make a duration of it and add that to the
clock.  The cast makes a large count negative, and the sum panics outside chrono's range.  An accept and an Again are
safe exactly where the sum of the instant and the count itself is a date.
-/
namespace CanisLink

open Interleave (Prog)

/-- The instant and the count of seconds have a sum in chrono's range. -/
def SumFits (now : DateTime) (count : UInt64) : Prop :=
  now.ns + count.toNat * 1000000000 < 8210266876800000000000

instance (now : DateTime) (count : UInt64) : Decidable (SumFits now count) := inferInstanceAs (Decidable (_ < _))

/-- The longest session of the protocol, from now, ends within chrono's range. -/
def InEra (now : DateTime) : Prop := (now.plus (milliseconds SESSION_MAX_MS)).isSome = true

instance (now : DateTime) : Decidable (InEra now) := inferInstanceAs (Decidable (_ = true))

/-! ## One sum -/

section

variable {now deadline : DateTime} {count : UInt64}

theorem deadline_ns (h : (seconds (asI64 count)).bind now.plus = some deadline) :
    deadline.ns = now.ns + asI64 count * 1000000000 := by
  obtain ⟨d, hd, ht⟩ := Option.bind_eq_some_iff.1 h
  rw [DateTime.plus_ns ht, seconds_eq hd]

/-- The sum is computed exactly if it is in range in both steps. -/
theorem deadline_some (hlo : -8334601228800000000000 ≤ now.ns + asI64 count * 1000000000)
    (hhi : now.ns + asI64 count * 1000000000 < 8210266876800000000000) :
    ∃ t, (seconds (asI64 count)).bind now.plus = some t := by
  have hnow := now.lo
  have hnow' := now.hi
  refine ⟨⟨now.ns + asI64 count * 1000000000, hlo, hhi⟩, ?_⟩
  unfold seconds
  rw [if_pos ⟨by omega, by omega⟩]
  exact dif_pos ⟨hlo, hhi⟩

/-- A count whose sum is a date is cast to itself. -/
theorem SumFits.cast (h : SumFits now count) : asI64 count = count.toNat := by
  have hnow := now.lo
  unfold SumFits at h
  exact asI64_of_lt (by omega)

/-- **The handlers compute a deadline that is not before now exactly where the sum fits.** -/
theorem sumFits_iff :
    SumFits now count ↔ ∃ t, (seconds (asI64 count)).bind now.plus = some t ∧ now ≤ t := by
  have hnow := now.lo
  constructor
  · intro h
    have hcast := h.cast
    unfold SumFits at h
    obtain ⟨t, ht⟩ := @deadline_some now count (by omega) (by omega)
    refine ⟨t, ht, ?_⟩
    rw [DateTime.le_iff, deadline_ns ht]
    omega
  · rintro ⟨t, ht, hle⟩
    have hns := deadline_ns ht
    have hhi := t.hi
    rw [DateTime.le_iff] at hle
    unfold SumFits
    rcases lt_or_ge count.toNat 9223372036854775808 with hlt | hge
    · have hcast := asI64_of_lt hlt
      omega
    · have hcast := asI64_of_ge hge
      have hcount := count.toNat_lt
      omega

end

/-! ## Accept -/

/-- What the accept answers. -/
def acceptReply (st : AppState) (w : World) (κ : Nat → DateTime) (h : HeaderMap) (i : Uuid) (b : JsonBody) : Reply :=
  ((acceptInviteHandler st h i b).eval (exec st) κ w).1

/-- The same world with another `max_session_sec` stored for a dog. -/
def World.capped (w : World) (d : DogId) (maxSessionSec : UInt64) : World :=
  w.setPolicies (w.data.policies.set { w.data.policies.current d with dogId := d, maxSessionSec })

/-- **The accept computes its deadlines without panic or wrap-around**: no deadline is before the start of the session,
and with a smaller `max_session_sec` the session would not have ended later. -/
structure AcceptSafe (st : AppState) (w : World) (κ : Nat → DateTime) (h : HeaderMap) (i : Uuid) (b : JsonBody)
    (dog : DogId) : Prop where
  completes : acceptReply st w κ h i b ≠ .panicked
  cap : ∀ x role, acceptReply st w κ h i b = .accepted x role → x.startedAt ≤ x.maxEndAt
  segment : ∀ x role, acceptReply st w κ h i b = .accepted x role → x.startedAt ≤ x.segmentDeadlineAt
  monotone : ∀ x role, acceptReply st w κ h i b = .accepted x role →
    ∀ m ≤ (w.data.policies.current dog).maxSessionSec, ∀ y role',
      acceptReply st (w.capped dog m) κ h i b = .accepted y role' → y.maxEndAt ≤ x.maxEndAt

/-- What the Again answers. -/
def againReply (st : AppState) (w : World) (κ : Nat → DateTime) (h : HeaderMap) (i : Uuid) (b : JsonBody) : Reply :=
  ((again st h i b).eval (exec st) κ w).1

/-- **The Again computes its deadline without panic or wrap-around**: it is one segment from now, as whole numbers, cut
at `max_end_at`, and not before the start of the session. -/
structure AgainSafe (st : AppState) (w : World) (κ : Nat → DateTime) (h : HeaderMap) (i : Uuid) (b : JsonBody)
    (dog : DogId) : Prop where
  completes : againReply st w κ h i b ≠ .panicked
  exact : ∀ y, againReply st w κ h i b = .extended y → y.segmentDeadlineAt.ns =
    min ((κ 2).ns + (w.data.policies.current dog).segmentSec.toNat * 1000000000) y.maxEndAt.ns
  segment : ∀ y, againReply st w κ h i b = .extended y → y.startedAt ≤ y.segmentDeadlineAt

/-- **The segment of an Again fits**: its sum with now does, or is cast to an instant past `max_end_at` all the same,
and the session's start is not after its cap nor more than a segment from now. -/
def AgainFits (now : DateTime) (segmentSec : UInt64) (x : SessionRecord) : Prop :=
  (SumFits now segmentSec ∨ asI64 segmentSec < 0 ∧ x.maxEndAt.ns ≤ now.ns + asI64 segmentSec * 1000000000) ∧
    x.startedAt.ns ≤ now.ns + segmentSec.toNat * 1000000000 ∧ x.startedAt ≤ x.maxEndAt

section

variable {st : AppState} {w : World} {κ : Nat → DateTime} {h : HeaderMap} {i : Uuid} {b : JsonBody} {dog : DogId}
  {inv : Invite}

/-- Past the guards, the session is made exactly where both deadlines are dates. -/
theorem acceptedSession_made {now maxEndAt segmentDeadlineAt : DateTime}
    (hthrough : acceptThrough st w now h i b = some (dog, inv)) (hera : InEra now)
    (hmax : (seconds (asI64 (w.data.policies.current dog).maxSessionSec)).bind now.plus = some maxEndAt)
    (hseg : (seconds (asI64 (w.data.policies.current dog).segmentSec)).bind now.plus = some segmentDeadlineAt) :
    ∃ x, acceptedSession st w now h i b = some x ∧ x.startedAt = now ∧ x.maxEndAt = maxEndAt ∧
      x.segmentDeadlineAt = segmentDeadlineAt ∧ x.dogA = inv.fromDog ∧ x.dogB = inv.toDog := by
  obtain ⟨hcaller, hget, hok, -⟩ := acceptThrough_some hthrough
  have hcheck : acceptCheck inv dog (w.data.presence.isPresent dog now) now = .ok () := by
    rw [acceptThrough_of_caller hcaller hget, hok] at hthrough
    cases hc : acceptCheck inv dog (w.data.presence.isPresent dog now) now with
    | ok u => rfl
    | error e =>
      rw [hc] at hthrough
      cases hthrough
  obtain ⟨cap, hcap⟩ := Option.isSome_iff_exists.1 hera
  obtain ⟨segment, hsegment⟩ : ∃ t, now.plus (milliseconds SESSION_SEGMENT_MS) = some t := by
    have hnow := now.lo
    have hlong := cap.hi
    rw [DateTime.plus_ns hcap] at hlong
    refine ⟨⟨now.ns + milliseconds SESSION_SEGMENT_MS, ?_, ?_⟩, dif_pos ⟨?_, ?_⟩⟩ <;>
      simp only [milliseconds, SESSION_SEGMENT_MS, SESSION_MAX_MS] at * <;> omega
  obtain ⟨session, ha⟩ : ∃ session, acceptInvite ⟨w.nextUuid⟩ inv dog (w.data.presence.isPresent dog now) now =
      some (.ok session) := by
    unfold acceptInvite
    rw [hcheck]
    dsimp only
    rw [hcap, hsegment]
    exact ⟨_, rfl⟩
  obtain ⟨-, -, -, hA, hB, hstart⟩ := acceptInvite_ok ha
  exact ⟨_, acceptedSession_eq hcaller hget hok ha hmax hseg, hstart, rfl, rfl, hA, hB⟩

/-- A session that an accept answers ends by the policy of the acceptor. -/
theorem accepted_ends {x : SessionRecord} {role : String} (hcaller : jsonCaller st h b = some dog)
    (hreply : acceptReply st w κ h i b = .accepted x role) :
    x.maxEndAt.ns = (κ 0).ns + asI64 (w.data.policies.current dog).maxSessionSec * 1000000000 := by
  obtain ⟨left, hr⟩ : ∃ left, Accepted st w (κ 0) h i b (acceptReply st w κ h i b) left :=
    ⟨_, acceptInvite_yields h i b⟩
  rw [hreply] at hr
  cases hr with
  | began session inserted =>
    obtain ⟨_, _, _, maxEndAt, segmentDeadlineAt, hcaller', -, -, -, hmax, -, rfl⟩ := acceptedSession_some session
    cases hcaller.symm.trans hcaller'
    exact deadline_ns hmax

/-- Past the guards, an accept between free dogs begins a session where both deadlines are dates. -/
theorem accept_begins {maxEndAt segmentDeadlineAt : DateTime}
    (hthrough : acceptThrough st w (κ 0) h i b = some (dog, inv)) (hera : InEra (κ 0))
    (hfree : inv.fromDog ∉ w.data.sessions.byDog ∧ inv.toDog ∉ w.data.sessions.byDog)
    (hmax : (seconds (asI64 (w.data.policies.current dog).maxSessionSec)).bind (κ 0).plus = some maxEndAt)
    (hseg : (seconds (asI64 (w.data.policies.current dog).segmentSec)).bind (κ 0).plus = some segmentDeadlineAt) :
    ∃ x role, acceptReply st w κ h i b = .accepted x role ∧ x.startedAt = κ 0 ∧ x.maxEndAt = maxEndAt ∧
      x.segmentDeadlineAt = segmentDeadlineAt := by
  obtain ⟨x, hx, hstart, hend, hsegment, hA, hB⟩ := acceptedSession_made hthrough hera hmax hseg
  obtain ⟨left, hr⟩ : ∃ left, Accepted st w (κ 0) h i b (acceptReply st w κ h i b) left :=
    ⟨_, acceptInvite_yields h i b⟩
  generalize acceptReply st w κ h i b = reply at hr
  cases hr with
  | refused guards => cases guards.symm.trans hthrough
  | panicked guards nothing => cases nothing.symm.trans hx
  | clashed session clash =>
    cases hx.symm.trans session
    obtain ⟨s', hins⟩ := @SessionStore.insert_free w.data.sessions x (AList.lookup_eq_none.2 (hA ▸ hfree.1))
      (AList.lookup_eq_none.2 (hB ▸ hfree.2))
    cases clash.symm.trans hins
  | began session inserted =>
    cases hx.symm.trans session
    exact ⟨x, _, rfl, hstart, hend, hsegment⟩

/-- Past the guards, an accept that does not panic has two dates for deadlines. -/
theorem accept_dates (hthrough : acceptThrough st w (κ 0) h i b = some (dog, inv))
    (hcompletes : acceptReply st w κ h i b ≠ .panicked) : ∃ maxEndAt segmentDeadlineAt,
      (seconds (asI64 (w.data.policies.current dog).maxSessionSec)).bind (κ 0).plus = some maxEndAt ∧
      (seconds (asI64 (w.data.policies.current dog).segmentSec)).bind (κ 0).plus = some segmentDeadlineAt := by
  obtain ⟨left, hr⟩ : ∃ left, Accepted st w (κ 0) h i b (acceptReply st w κ h i b) left :=
    ⟨_, acceptInvite_yields h i b⟩
  have hdates : ∀ {x}, acceptedSession st w (κ 0) h i b = some x → ∃ maxEndAt segmentDeadlineAt,
      (seconds (asI64 (w.data.policies.current dog).maxSessionSec)).bind (κ 0).plus = some maxEndAt ∧
      (seconds (asI64 (w.data.policies.current dog).segmentSec)).bind (κ 0).plus = some segmentDeadlineAt := by
    intro x hx
    obtain ⟨_, _, _, maxEndAt, segmentDeadlineAt, hcaller, -, -, -, hmax, hseg, -⟩ := acceptedSession_some hx
    cases (acceptThrough_some hthrough).1.symm.trans hcaller
    exact ⟨maxEndAt, segmentDeadlineAt, hmax, hseg⟩
  generalize acceptReply st w κ h i b = reply at hr hcompletes
  cases hr with
  | refused guards => cases guards.symm.trans hthrough
  | panicked guards nothing => exact absurd rfl hcompletes
  | clashed session clash => exact hdates session
  | began session inserted => exact hdates session

/-- Where the sum fits, a session accepted under a smaller cap does not end later. -/
theorem accepted_monotone {m : UInt64} {x y : SessionRecord} {role role' : String}
    (hcaller : jsonCaller st h b = some dog) (hfits : SumFits (κ 0) (w.data.policies.current dog).maxSessionSec)
    (hm : m ≤ (w.data.policies.current dog).maxSessionSec) (hx : acceptReply st w κ h i b = .accepted x role)
    (hy : acceptReply st (w.capped dog m) κ h i b = .accepted y role') : y.maxEndAt ≤ x.maxEndAt := by
  have hcapped : ((w.capped dog m).data.policies.current dog).maxSessionSec = m := by
    show ((w.data.policies.set _).current dog).maxSessionSec = m
    rw [PolicyStore.current_set, if_pos rfl]
  have hless : m.toNat ≤ (w.data.policies.current dog).maxSessionSec.toNat := UInt64.le_iff_toNat_le.1 hm
  have hmFits : SumFits (κ 0) m := by
    unfold SumFits at hfits ⊢
    omega
  rw [DateTime.le_iff, accepted_ends hcaller hy, accepted_ends hcaller hx, hcapped, hmFits.cast, hfits.cast]
  omega

theorem acceptSafe_iff (hthrough : acceptThrough st w (κ 0) h i b = some (dog, inv)) (hera : InEra (κ 0))
    (hfree : inv.fromDog ∉ w.data.sessions.byDog ∧ inv.toDog ∉ w.data.sessions.byDog) :
    AcceptSafe st w κ h i b dog ↔ SumFits (κ 0) (w.data.policies.current dog).maxSessionSec ∧
      SumFits (κ 0) (w.data.policies.current dog).segmentSec := by
  constructor
  · intro hsafe
    obtain ⟨maxEndAt, segmentDeadlineAt, hmax, hseg⟩ := accept_dates hthrough hsafe.completes
    obtain ⟨y, role, hreply, hstart, hend, hsegment⟩ := accept_begins hthrough hera hfree hmax hseg
    have hcap := hsafe.cap y role hreply
    have hsegment' := hsafe.segment y role hreply
    rw [hstart, hend] at hcap
    rw [hstart, hsegment] at hsegment'
    exact ⟨sumFits_iff.2 ⟨maxEndAt, hmax, hcap⟩, sumFits_iff.2 ⟨segmentDeadlineAt, hseg, hsegment'⟩⟩
  · rintro ⟨hmaxFits, hsegFits⟩
    obtain ⟨maxEndAt, hmax, hcap⟩ := sumFits_iff.1 hmaxFits
    obtain ⟨segmentDeadlineAt, hseg, hsegment⟩ := sumFits_iff.1 hsegFits
    obtain ⟨x, role, hreply, hstart, hend, hsegmentAt⟩ := accept_begins hthrough hera hfree hmax hseg
    have hone : ∀ y role', acceptReply st w κ h i b = .accepted y role' → y = x := by
      intro y role' hy
      rw [hreply] at hy
      cases hy
      rfl
    refine ⟨?_, fun y role' hy => ?_, fun y role' hy => ?_, fun y role' hy m hm z role'' hz => ?_⟩
    · rw [hreply]
      exact nofun
    · rw [hone y role' hy, hstart, hend]
      exact hcap
    · rw [hone y role' hy, hstart, hsegmentAt]
      exact hsegment
    · exact accepted_monotone (acceptThrough_some hthrough).1 hmaxFits hm hy hz

/-! ## Again -/

theorem min_ns (a b : DateTime) : (min a b).ns = min a.ns b.ns := by
  rcases le_total a b with hle | hle
  · rw [min_eq_left hle, min_eq_left (DateTime.le_iff.1 hle)]
  · rw [min_eq_right hle, min_eq_right (DateTime.le_iff.1 hle)]

/-- **The computed sum, cut at the cap, is the exact one, cut at the cap**, exactly where the sum fits or is cast past
the cap. -/
theorem cut_exact_iff {now next cap : DateTime} {count : UInt64}
    (hnext : (seconds (asI64 count)).bind now.plus = some next) :
    (min next cap).ns = min (now.ns + count.toNat * 1000000000) cap.ns ↔
      SumFits now count ∨ asI64 count < 0 ∧ cap.ns ≤ now.ns + asI64 count * 1000000000 := by
  have hns := deadline_ns hnext
  have hnow := now.lo
  have hhi := next.hi
  have hcap := cap.hi
  rw [min_ns]
  unfold SumFits
  rcases lt_or_ge count.toNat 9223372036854775808 with hlt | hge
  · have hcast := asI64_of_lt hlt
    omega
  · have hcast := asI64_of_ge hge
    have hcount := count.toNat_lt
    omega

/-- What an Again of a party answers. -/
theorem againReply_cases {x : SessionRecord} (hcaller : jsonCaller st h b = some dog)
    (hfound : w.data.sessions.get ⟨i⟩ = some x) (hparty : x.hasDog dog) :
    againReply st w κ h i b =
      match extendSegment (κ 2) (w.data.policies.current dog).segmentSec x.maxEndAt with
      | none => .panicked
      | some deadline => .extended { x with segmentDeadlineAt := deadline } := by
  obtain ⟨left, hr⟩ : ∃ left, Renewed st w (κ 2) h i b (againReply st w κ h i b) left := ⟨_, again_yields h i b⟩
  generalize againReply st w κ h i b = reply at hr
  cases hr with
  | refused guards => exact absurd hparty (guards dog x hcaller hfound)
  | panicked caller found party overflow =>
    cases hcaller.symm.trans caller
    cases hfound.symm.trans found
    rw [overflow]
  | extended caller found party sum =>
    cases hcaller.symm.trans caller
    cases hfound.symm.trans found
    rw [sum]

theorem againSafe_iff {x : SessionRecord} (hcaller : jsonCaller st h b = some dog)
    (hfound : w.data.sessions.get ⟨i⟩ = some x) (hparty : x.hasDog dog) :
    AgainSafe st w κ h i b dog ↔ AgainFits (κ 2) (w.data.policies.current dog).segmentSec x := by
  have hreply := @againReply_cases st w κ h i b dog x hcaller hfound hparty
  constructor
  · rintro ⟨hcompletes, hexact, hsegment⟩
    cases hsum : extendSegment (κ 2) (w.data.policies.current dog).segmentSec x.maxEndAt with
    | none =>
      rw [hsum] at hreply
      exact absurd hreply hcompletes
    | some deadline =>
      rw [hsum] at hreply
      have hexact := hexact _ hreply
      have hsegment := hsegment _ hreply
      obtain ⟨next, hnext, rfl⟩ := extendSegment_some.1 hsum
      rw [DateTime.le_iff] at hsegment
      dsimp only at hexact hsegment
      rw [hexact] at hsegment
      refine ⟨(cut_exact_iff hnext).1 hexact, by omega, ?_⟩
      rw [DateTime.le_iff]
      omega
  · rintro ⟨hfits, hstart, hcap⟩
    rw [DateTime.le_iff] at hcap
    obtain ⟨next, hnext⟩ : ∃ next,
        (seconds (asI64 (w.data.policies.current dog).segmentSec)).bind (κ 2).plus = some next := by
      rcases hfits with hfits | ⟨hneg, hpast⟩
      · obtain ⟨t, ht, -⟩ := sumFits_iff.1 hfits
        exact ⟨t, ht⟩
      · have hlo := x.maxEndAt.lo
        have hhi := (κ 2).hi
        exact deadline_some (by omega) (by omega)
    have hexact := (cut_exact_iff hnext).2 hfits
    rw [extendSegment_some.2 ⟨next, hnext, rfl⟩] at hreply
    dsimp only at hreply
    have hone : ∀ y, againReply st w κ h i b = .extended y →
        y = { x with segmentDeadlineAt := min next x.maxEndAt } := by
      intro y hy
      rw [hreply] at hy
      exact (Reply.extended.inj hy).symm
    refine ⟨?_, fun y hy => ?_, fun y hy => ?_⟩
    · rw [hreply]
      exact nofun
    · rw [hone y hy]
      exact hexact
    · rw [hone y hy, DateTime.le_iff]
      dsimp only
      rw [hexact]
      omega

end

/-- **The deadlines are safe exactly where the sums fit**, for every policy.  An accept that passes its guards in the
era, between dogs that are in no session, is safe exactly if now and each duration of the acceptor's policy have a sum
that is a date; an Again of a party is exactly if its segment fits. -/
theorem deadlines_safe_iff (st : AppState) (w : World) (κ : Nat → DateTime) (h : HeaderMap) (i : Uuid) (b : JsonBody)
    (dog : DogId) :
    (∀ inv, acceptThrough st w (κ 0) h i b = some (dog, inv) → InEra (κ 0) →
      inv.fromDog ∉ w.data.sessions.byDog ∧ inv.toDog ∉ w.data.sessions.byDog →
      (AcceptSafe st w κ h i b dog ↔ SumFits (κ 0) (w.data.policies.current dog).maxSessionSec ∧
        SumFits (κ 0) (w.data.policies.current dog).segmentSec)) ∧
    ∀ x, jsonCaller st h b = some dog → w.data.sessions.get ⟨i⟩ = some x → x.hasDog dog →
      (AgainSafe st w κ h i b dog ↔ AgainFits (κ 2) (w.data.policies.current dog).segmentSec x) :=
  ⟨fun _ => acceptSafe_iff, fun _ => againSafe_iff⟩

/-- The invite that rings at noon. -/
def firstInvite : Invite where
  id := ⟨0⟩
  fromDog := ⟨1⟩
  toDog := ⟨2⟩
  mode := .portal
  state := .ringing
  createdAt := noon
  expiresAt := epoch 43225

/-- A quarter of an hour and five minutes from noon. -/
theorem deadlines_safe_noon : AcceptSafe bench ringing (fun _ => noon) (device 2) 0 (jsonBody 2) ⟨2⟩ :=
  ((deadlines_safe_iff bench ringing (fun _ => noon) (device 2) 0 (jsonBody 2) ⟨2⟩).1 firstInvite (by decide +kernel)
    (by decide) (by decide +kernel)).2 (by decide +kernel)

/-- The steward lets dog 2 meet for `u64::MAX` seconds. -/
def uncapped : World :=
  serveAt bench noon ringing
    [.stewardPolicy (some "Steward s") { dogId := ⟨2⟩, maxSessionSec := some 18446744073709551615 }]

/-- **The cap wraps around**: the longest session of all ends a second before it starts. -/
theorem deadline_wraps : ¬ ∀ (st : AppState) (w : World) (κ : Nat → DateTime) (h : HeaderMap) (i : Uuid) (b : JsonBody)
    (dog : DogId) (inv : Invite), acceptThrough st w (κ 0) h i b = some (dog, inv) → InEra (κ 0) →
    inv.fromDog ∉ w.data.sessions.byDog ∧ inv.toDog ∉ w.data.sessions.byDog → AcceptSafe st w κ h i b dog := by
  intro hall
  have hthrough : acceptThrough bench uncapped noon (device 2) 0 (jsonBody 2) = some (⟨2⟩, firstInvite) := by
    decide +kernel
  have hfree : firstInvite.fromDog ∉ uncapped.data.sessions.byDog ∧
      firstInvite.toDog ∉ uncapped.data.sessions.byDog := by decide +kernel
  have hsafe := hall bench uncapped (fun _ => noon) (device 2) 0 (jsonBody 2) ⟨2⟩ firstInvite hthrough (by decide) hfree
  have hfits := (@acceptSafe_iff bench uncapped (fun _ => noon) (device 2) 0 (jsonBody 2) ⟨2⟩ firstInvite hthrough
    (by decide) hfree).1 hsafe
  revert hfits
  decide +kernel

end CanisLink
