import CanisLink.Answers
import CanisLink.HardCap
/-!
# Segments — where the soft segment ends

`accept_invite_handler` takes the two deadlines of a session from two independent fields of the acceptor's policy, and
`again` moves the segment to one segment from now, by the policy of the dog that presses, cut at `max_end_at`.  The
segment stays within the cap exactly while no session begins with the longer segment; it is only ever extended exactly
while nobody presses Again whose segment from now ends before the one that runs.
-/
namespace CanisLink

open Interleave (Prog)

/-! ## Within the cap -/

/-- Every session's segment ends by its `max_end_at`. -/
def WithinCap (s : Server) : Prop :=
  ∀ {k x}, s.world.data.sessions.get k = some x → x.segmentDeadlineAt ≤ x.maxEndAt

/-- The acceptor by whose policy a session begins: every guard passes, both deadlines are dates, and neither dog is in
the index of sessions. -/
def beginner (st : AppState) (s : Server) (a : Arrival) : Option DogId :=
  match a.req with
  | .acceptInvite h i b =>
    if (acceptedSession st s.world (a.clock 0) h i b).any
        (fun x => decide (x.dogA ∉ s.world.data.sessions.byDog) && decide (x.dogB ∉ s.world.data.sessions.byDog)) then
      jsonCaller st h b
    else none
  | _ => none

/-- **A session begins with its segment within its cap**: the acceptor's `segment_sec`, cast, is at most its
`max_session_sec`, cast. -/
def SegmentFits (st : AppState) (s : Server) (a : Arrival) : Prop :=
  ∀ d ∈ beginner st s a,
    asI64 (s.world.data.policies.current d).segmentSec ≤ asI64 (s.world.data.policies.current d).maxSessionSec

instance (st : AppState) (s : Server) (a : Arrival) : Decidable (SegmentFits st s a) :=
  inferInstanceAs (Decidable (∀ _ ∈ _, _))

section

variable {st : AppState} {s : Server} {a : Arrival}

/-- Deadlines from one instant are ordered as the seconds are. -/
theorem deadline_le_iff {now t u : DateTime} {m n : Int} (ht : (seconds m).bind now.plus = some t)
    (hu : (seconds n).bind now.plus = some u) : t ≤ u ↔ m ≤ n := by
  obtain ⟨d, hd, ht⟩ := Option.bind_eq_some_iff.1 ht
  obtain ⟨e, he, hu⟩ := Option.bind_eq_some_iff.1 hu
  rw [DateTime.le_iff, DateTime.plus_ns ht, DateTime.plus_ns hu, seconds_eq hd, seconds_eq he]
  omega

theorem serve_accepted {h : HeaderMap} {i : Uuid} {b : JsonBody} (hreq : a.req = .acceptInvite h i b) :
    ∃ r, Accepted st s.world (a.clock 0) h i b r (s.serve st a).world.data.sessions := by
  refine ⟨((handle st a.req).eval (exec st) a.clock s.world).1, ?_⟩
  unfold Server.serve
  rw [hreq]
  exact acceptInvite_yields h i b

/-- A session of dogs the index does not know begins, by the policy of the acceptor. -/
theorem beginner_some {d : DogId} (hd : beginner st s a = some d) : ∃ h i b x s', a.req = .acceptInvite h i b ∧
    jsonCaller st h b = some d ∧ acceptedSession st s.world (a.clock 0) h i b = some x ∧
    s.world.data.sessions.insert x = .ok s' := by
  unfold beginner at hd
  split at hd
  · rename_i h i b hreq
    split at hd
    · rename_i hany
      obtain ⟨x, hx, hfree⟩ := (Option.any_eq_true _ _).1 hany
      simp only [Bool.and_eq_true, decide_eq_true_eq] at hfree
      obtain ⟨s', hins⟩ := SessionStore.insert_free (s := s.world.data.sessions) (x := x)
        (AList.lookup_eq_none.2 hfree.1) (AList.lookup_eq_none.2 hfree.2)
      exact ⟨h, i, b, x, s', hreq, hd, hx, hins⟩
    · cases hd
  · cases hd

theorem beginner_eq {h : HeaderMap} {i : Uuid} {b : JsonBody} {x : SessionRecord} {s' : SessionStore}
    (hreq : a.req = .acceptInvite h i b) (hx : acceptedSession st s.world (a.clock 0) h i b = some x)
    (hins : s.world.data.sessions.insert x = .ok s') : beginner st s a = jsonCaller st h b := by
  obtain ⟨ha, hb, -⟩ := SessionStore.insert_ok hins
  unfold beginner
  rw [hreq]
  refine if_pos ?_
  rw [hx]
  simp only [Option.any_some, Bool.and_eq_true, decide_eq_true_eq]
  exact ⟨AList.lookup_eq_none.1 ha, AList.lookup_eq_none.1 hb⟩

/-- The deadlines of the session an accept begins are as far apart as the acceptor's policy says. -/
theorem accepted_within_iff {h : HeaderMap} {i : Uuid} {b : JsonBody} {x : SessionRecord} {d : DogId}
    (hx : acceptedSession st s.world (a.clock 0) h i b = some x) (hd : jsonCaller st h b = some d) :
    x.segmentDeadlineAt ≤ x.maxEndAt ↔
      asI64 (s.world.data.policies.current d).segmentSec ≤ asI64 (s.world.data.policies.current d).maxSessionSec := by
  obtain ⟨_, _, session, maxEndAt, segmentDeadlineAt, hd', -, -, -, hmax, hseg, rfl⟩ := acceptedSession_some hx
  cases hd.symm.trans hd'
  exact deadline_le_iff hseg hmax

theorem within_step (hw : WithinCap s) : WithinCap (s.serve st a) ↔ SegmentFits st s a := by
  constructor
  · intro hafter d hd
    obtain ⟨h, i, b, x, s', hreq, hcaller, hx, hins⟩ := beginner_some hd
    refine (accepted_within_iff hx hcaller).1 ?_
    obtain ⟨r, hr⟩ := @serve_accepted st s a _ _ _ hreq
    generalize hs : (s.serve st a).world.data.sessions = left at hr
    cases hr with
    | refused guards =>
      unfold acceptedSession at hx
      rw [guards] at hx
      cases hx
    | panicked guards nothing => cases hx.symm.trans nothing
    | clashed session clash =>
      cases hx.symm.trans session
      cases hins.symm.trans clash
    | began session inserted =>
      cases hx.symm.trans session
      refine hafter (k := x.id) ?_
      rw [hs, SessionStore.get_insert inserted, if_pos rfl]
  · intro hfits k y hy
    rcases (Server.serve_handled st s a).session hy with ⟨x, hx, hl⟩ | ⟨h, i, b, dog, inv, hreq, through, -⟩
    · cases hl with
      | same => exact hw hx
      | active => exact hw (x := x) hx
      | renewed hd => exact hd
    · obtain ⟨r, hr⟩ := @serve_accepted st s a _ _ _ hreq
      generalize hs : (s.serve st a).world.data.sessions = left at hr
      rw [hs] at hy
      cases hr with
      | refused guards => exact hw hy
      | panicked guards nothing => exact hw hy
      | clashed session clash => exact hw hy
      | began session inserted =>
        rw [SessionStore.get_insert inserted] at hy
        split at hy
        · cases hy
          have hcaller := (acceptThrough_some through).1
          refine (accepted_within_iff session hcaller).2 (hfits dog ?_)
          rw [beginner_eq hreq session inserted, hcaller]
          rfl
        · exact hw hy

end

/-- **Every segment ends within its cap exactly while no session begins with the longer segment**: over every run of
requests handled one at a time, in every state the run reaches. -/
theorem within_cap_iff (st : AppState) (s : Server) (hs : WithinCap s) (as : List Arrival) :
    (∀ before, before <+: as → WithinCap (s.serveAll st before)) ↔ s.Meets st (SegmentFits st) as :=
  Server.reaches_iff_meets (fun _ _ hw => within_step hw) as s hs

/-- A quarter of an hour with segments of five minutes. -/
theorem within_cap_meeting : WithinCap (Server.serveAll bench ⟨fresh, noon⟩ (Server.timed meeting)) :=
  (within_cap_iff bench ⟨fresh, noon⟩ (fun h => by cases h) (Server.timed meeting)).2 (by decide +kernel) _
    (List.prefix_refl _)

/-- **A segment ends after its cap**: dog 2, capped at a minute, accepts, and its segment is the default five. -/
theorem segment_past_cap : ¬ ∀ (st : AppState) (s : Server) (as : List Arrival), s.world.data = {} →
    s.Meets st Server.OnTime as → WithinCap (s.serveAll st as) := by
  intro h
  have := @h bench ⟨fresh, noon⟩ (Server.timed ((noon, capDog2) :: meeting)) rfl
    (Server.timed_onTime _ _ (by decide)) ⟨1⟩ { firstSession with maxEndAt := minuteAfter } (by decide +kernel)
  revert this
  decide

/-! ## Again -/

/-- What the request answers. -/
def Server.reply (st : AppState) (s : Server) (a : Arrival) : Reply :=
  ((handle st a.req).eval (exec st) a.clock s.world).1

/-- **A successful Again of a session within its cap only extends it**: the new deadline is neither before the old one
nor after `max_end_at`, nothing else of the session changes, and the session is stored so. -/
def OnlyExtends (st : AppState) (s : Server) (a : Arrival) : Prop :=
  match a.req with
  | .again _ i _ =>
    ∀ x y, s.world.data.sessions.get ⟨i⟩ = some x → x.segmentDeadlineAt ≤ x.maxEndAt → s.reply st a = .extended y →
      x.segmentDeadlineAt ≤ y.segmentDeadlineAt ∧ y.segmentDeadlineAt ≤ x.maxEndAt ∧
        y = { x with segmentDeadlineAt := y.segmentDeadlineAt } ∧
        (s.serve st a).world.data.sessions.get ⟨i⟩ = some y
  | _ => True

/-- **One segment from now is not before the deadline that runs**, by the policy of the dog that presses (`again` reads
the clock in its third call). -/
def PressedInTime (st : AppState) (s : Server) (a : Arrival) : Prop :=
  match a.req with
  | .again h i b =>
    ∀ dog ∈ jsonCaller st h b, ∀ x ∈ s.world.data.sessions.get ⟨i⟩, x.hasDog dog → x.segmentDeadlineAt ≤ x.maxEndAt →
      ∀ next ∈ (seconds (asI64 (s.world.data.policies.current dog).segmentSec)).bind (a.clock 2).plus,
        x.segmentDeadlineAt ≤ next
  | _ => True

section

variable {st : AppState} {s : Server} {a : Arrival}

theorem serve_renewed {h : HeaderMap} {i : Uuid} {b : JsonBody} (hreq : a.req = .again h i b) :
    Renewed st s.world (a.clock 2) h i b (s.reply st a) (s.serve st a).world.data.sessions := by
  unfold Server.reply Server.serve
  rw [hreq]
  exact again_yields h i b

/-- The new deadline is one segment from now, cut at `max_end_at`. -/
theorem extendSegment_some {now maxEnd : DateTime} {segmentSec : UInt64} {deadline : DateTime} :
    extendSegment now segmentSec maxEnd = some deadline ↔
      ∃ next, (seconds (asI64 segmentSec)).bind now.plus = some next ∧ deadline = min next maxEnd := by
  unfold extendSegment
  simp only [Option.bind_eq_bind, Option.bind_eq_some_iff]
  constructor
  · rintro ⟨d, hd, next, hnext, h⟩
    refine ⟨next, ⟨d, hd, hnext⟩, ?_⟩
    split at h
    · rename_i hlt
      rw [min_eq_right (le_of_lt hlt)]
      exact (Option.some.inj h).symm
    · rename_i hle
      rw [min_eq_left (not_lt.1 hle)]
      exact (Option.some.inj h).symm
  · rintro ⟨next, ⟨d, hd, hnext⟩, rfl⟩
    refine ⟨d, hd, next, hnext, ?_⟩
    split
    · rename_i hlt
      rw [min_eq_right (le_of_lt hlt)]
    · rename_i hle
      rw [min_eq_left (not_lt.1 hle)]

theorem onlyExtends_iff (st : AppState) (s : Server) (a : Arrival) : OnlyExtends st s a ↔ PressedInTime st s a := by
  unfold OnlyExtends PressedInTime
  split
  · rename_i h i b hreq
    have hr := @serve_renewed st s a h i b hreq
    generalize s.reply st a = reply at hr
    generalize (s.serve st a).world.data.sessions = left at hr
    constructor
    · intro hext dog hdog x hx hparty hwithin next hnext
      have hsum : extendSegment (a.clock 2) (s.world.data.policies.current dog).segmentSec x.maxEndAt =
          some (min next x.maxEndAt) := extendSegment_some.2 ⟨next, hnext, rfl⟩
      cases hr with
      | refused guards => exact absurd hparty (guards dog x hdog hx)
      | panicked caller found party overflow =>
        cases caller.symm.trans hdog
        cases found.symm.trans hx
        cases overflow.symm.trans hsum
      | extended caller found party sum =>
        cases caller.symm.trans hdog
        cases found.symm.trans hx
        cases sum.symm.trans hsum
        exact le_trans (hext x _ found hwithin rfl).1 (min_le_left _ _)
    · intro hpress x y hx hwithin hreply
      cases hr with
      | refused guards => cases hreply
      | panicked caller found party overflow => cases hreply
      | extended caller found party sum =>
        cases found.symm.trans hx
        cases hreply
        obtain ⟨next, hnext, rfl⟩ := extendSegment_some.1 sum
        refine ⟨le_min (hpress _ caller x found party hwithin next hnext) hwithin, min_le_right _ _, rfl, ?_⟩
        rw [SessionStore.get_update, if_pos rfl, found]
        rfl
  · exact Iff.rfl

end

/-- **Again only ever extends exactly while it is pressed in time**: over every run of requests handled one at a time, a
successful Again never moves a deadline back if and only if one segment of the pressing dog from now is never before the
deadline that runs. -/
theorem only_extends_iff (st : AppState) (s : Server) (as : List Arrival) :
    s.Meets st (OnlyExtends st) as ↔ s.Meets st (PressedInTime st) as := by
  induction as generalizing s with
  | nil => exact Iff.rfl
  | cons a as ih => exact and_congr (onlyExtends_iff st s a) (ih (s.serve st a))

/-- The steward cuts dog 1's segments to a minute. -/
def shortenDog1 : Request := .stewardPolicy (some "Steward s") { dogId := ⟨1⟩, segmentSec := some 60 }

/-- **Again ends the segment early**: the session of noon has its segment until five past; dog 1, cut to a minute,
presses at noon, and the segment ends at one past. -/
theorem again_shortens : ¬ ∀ (st : AppState) (s : Server) (as : List Arrival), s.world.data = {} →
    s.Meets st Server.OnTime as → s.Meets st (OnlyExtends st) as := by
  intro h
  have hrun := h bench ⟨fresh, noon⟩
    (Server.timed (meeting ++ [(noon, shortenDog1), (noon, .again (device 1) 1 (jsonBody 1))])) rfl
    (Server.timed_onTime _ _ (by decide))
  have hagain := (@Server.Meets.append bench _ (Server.timed (meeting ++ [(noon, shortenDog1)])) _ _ hrun).2.1
  have hlate := (onlyExtends_iff _ _ _).1 hagain ⟨1⟩ (by decide +kernel) firstSession (by decide +kernel) (by decide)
    (by decide) minuteAfter (by decide +kernel)
  revert hlate
  decide

end CanisLink
