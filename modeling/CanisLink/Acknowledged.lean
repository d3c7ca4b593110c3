import CanisLink.Requests
import CanisLink.Server
/-!
# Acknowledged — the deadline an Again was promised, against the policy tick

`policy_tick` reads the clock, takes a snapshot of all sessions, and decides on the snapshot; `again` moves the deadline
in the store, which the tick does not look at again.  An acknowledged deadline is honoured while no Again comes between
the snapshot of a tick that found the session over and its end, and none moves back a deadline acknowledged before.
-/
namespace CanisLink

open Interleave (Prog Pool Step own since since_snoc)
open Api

/-- The clock reading a step was given. -/
def clockRead : ApiStep → Option DateTime
  | ⟨_, _, .utcNow, now⟩ => some now
  | _ => none

/-- The sessions a step was given of the whole store. -/
def snapshot : ApiStep → List SessionRecord
  | ⟨_, _, .sessionsAll, xs⟩ => xs
  | _ => []

/-- The session `id` begins. -/
def startsAs (id : SessionId) : ApiStep → Bool
  | ⟨_, _, .sessionsInsert x, .ok _⟩ => decide (x.id = id)
  | _ => false

/-- The Again a step carried out on the session `id`: whose it is, and the session as extended. -/
def prolongs (id : SessionId) : ApiStep → Option (Nat × SessionRecord)
  | ⟨j, _, .sessionsUpdate id' _, some y⟩ => if id' = id then some (j, y) else none
  | _ => none

/-- The Agains carried out on the session `id` since it began. -/
def renewals (id : SessionId) (log : List ApiStep) : List (Nat × SessionRecord) :=
  (since (startsAs id) log).filterMap (prolongs id)

/-- Program `i` has first read the clock, `now`, and then taken a snapshot in which the segment of `x` is over. -/
def FoundOver (p : ApiPool) (i : Nat) (now : DateTime) (x : SessionRecord) : Prop :=
  (own i p.log).head?.bind clockRead = some now ∧ x ∈ (own i p.log).tail.flatMap snapshot ∧ x.state = .active ∧
    x.segmentDeadlineAt ≤ now

/-- The policy a step was given of a dog. -/
def policyAsked : ApiStep → Option (DogId × DogPolicy)
  | ⟨_, _, .policiesEnsure d, pol⟩ => some (d, pol)
  | _ => none

/-- The policy just asked is that of `d`. -/
def Asked (h : List ApiStep) (d : DogId) (pol : DogPolicy) : Prop := h.getLast?.bind policyAsked = some (d, pol)

/-- The session a call is to end. -/
def ending : Call → Option SessionId
  | .sessionsEnd id => some id
  | _ => none

/-- **Program `i` is about to remove the session because its segment is over**: the segment is over in its snapshot, and
the cap, by the policy it has just asked, is not reached. -/
structure EndsSegment (p : ApiPool) (i : Nat) (id : SessionId) : Prop where
  ending : (p.next i).bind ending = some id
  there : p.state.data.sessions.get id ≠ none
  found : ∃ now x pol, FoundOver p i now x ∧ x.id = id ∧ Asked (own i p.log) x.dogA pol ∧
    asU64 (numSeconds (now.since x.startedAt)) < pol.maxSessionSec

/-- The session an Again is answered with. -/
def Reply.extension : Reply → Option SessionRecord
  | .extended y => some y
  | _ => none

/-- **An acknowledged Again is honoured by the tick**: a tick removes a session whose segment it finds over at no
instant before a deadline that an Again carried out on the session before has been answered with. -/
def AgainsHonoured (st : AppState) (w : World) (reqs : List Request) (sched : List (Nat × DateTime)) : Prop :=
  ∀ before i t id, before ++ [(i, t)] <+: sched → reqs[i]? = some .policyTick →
    EndsSegment (reached st w reqs before) i id →
    ∀ j y, ((reached st w reqs sched).result j).bind Reply.extension = some y →
      (j, y) ∈ renewals id (reached st w reqs before).log → y.segmentDeadlineAt ≤ t

/-- The session a call updates, and how. -/
def updating : Call → Option (SessionId × (SessionRecord → SessionRecord))
  | .sessionsUpdate id f => some (id, f)
  | _ => none

/-- **An Again updates a session that is there** only to a deadline not before one acknowledged for the session, and
not after the clock reading of a tick that has found the session's segment over. -/
def UpdatesInTime (p : ApiPool) (l : Nat × DateTime) : Prop :=
  ∀ uf ∈ (p.next l.1).bind updating, ∀ x ∈ p.state.data.sessions.get uf.1,
    (∀ jy ∈ renewals uf.1 p.log, jy.2.segmentDeadlineAt ≤ (uf.2 x).segmentDeadlineAt) ∧
      ∀ i < p.threads.length, ∀ now z, FoundOver p i now z → z.id = uf.1 → (uf.2 x).segmentDeadlineAt ≤ now

instance (p : ApiPool) (i : Nat) (Q : DateTime → SessionRecord → Prop) [∀ now z, Decidable (Q now z)] :
    Decidable (∀ now z, FoundOver p i now z → Q now z) :=
  decidable_of_iff (∀ now ∈ (own i p.log).head?.bind clockRead, ∀ z ∈ (own i p.log).tail.flatMap snapshot,
      z.state = .active ∧ z.segmentDeadlineAt ≤ now → Q now z)
    ⟨fun h now z hz => h now hz.1 z hz.2.1 hz.2.2, fun h now hnow z hz ho => h now z ⟨hnow, hz, ho⟩⟩

instance (p : ApiPool) (l : Nat × DateTime) : Decidable (UpdatesInTime p l) :=
  inferInstanceAs (Decidable (∀ _ ∈ _, ∀ _ ∈ _, _ ∧ _))

/-! ## Why a tick ends a session -/

/-- The reason to end the session `x` of the snapshot at `now`: its cap, its segment, or the stop of a dog. -/
def TickReason (now : DateTime) (x : SessionRecord) (h : List ApiStep) : Prop :=
  ∃ d pol, Asked h d pol ∧
    ((d = x.dogA ∧ pol.maxSessionSec ≤ asU64 (numSeconds (now.since x.startedAt))) ∨
      (d = x.dogA ∧ asU64 (numSeconds (now.since x.startedAt)) < pol.maxSessionSec ∧ x.state = .active ∧
        x.segmentDeadlineAt ≤ now) ∨
      (x.hasDog d ∧ pol.emergencyStop = true))

/-- A tick that has read the clock, `now`, and has the sessions `xs` of its snapshot before it. -/
def Ticking (now : DateTime) (xs : List SessionRecord) (h : List ApiStep) : Prop :=
  h.head?.bind clockRead = some now ∧ ∀ x ∈ xs, x ∈ h.tail.flatMap snapshot

/-- A tick ends only a session of its snapshot, and for a reason. -/
def TickNext (h : List ApiStep) (c : Call) : Prop :=
  ∀ id, c = .sessionsEnd id → ∃ now x, Ticking now [x] h ∧ x.id = id ∧ TickReason now x h

section

variable (st : AppState) (i : Nat) {now : DateTime} {xs : List SessionRecord} {h : List ApiStep}

theorem Ticking.snoc (ht : Ticking now xs h) (e : ApiStep) : Ticking now xs (h ++ [e]) := by
  obtain ⟨hnow, hxs⟩ := ht
  cases h with
  | nil => cases hnow
  | cons a h =>
    refine ⟨hnow, fun x hx => ?_⟩
    rw [List.cons_append, List.tail_cons, List.flatMap_append]
    exact List.mem_append_left _ (hxs x hx)

theorem Ticking.mono {ys : List SessionRecord} (ht : Ticking now xs h) (hys : ∀ y ∈ ys, y ∈ xs) : Ticking now ys h :=
  ⟨ht.1, fun y hy => ht.2 y (hys y hy)⟩

theorem asked_snoc {i : Nat} (h : List ApiStep) (t : DateTime) (d : DogId) (pol : DogPolicy) :
    Asked (h ++ [⟨i, t, .policiesEnsure d, pol⟩]) d pol := by
  rw [Asked, List.getLast?_concat]
  rfl

/-- `tickEnds` finds a reason to end the session, or answers `false`. -/
theorem tickEnds_reason (x : SessionRecord) (ht : Ticking now xs h) : (tickEnds now x).Along i TickNext
    (fun h ends => Ticking now xs h ∧ (ends = true → TickReason now x h)) h := by
  unfold tickEnds
  simp only [policiesGet, policiesEnsure, Prog.op_bind, Prog.pure_eq]
  refine ⟨fun _ hc => (by cases hc), fun t₁ pol => ?_⟩
  dsimp only
  split
  · rename_i hcap
    exact ⟨ht.snoc _, fun _ => ⟨_, _, asked_snoc h t₁ x.dogA pol, .inl ⟨rfl, hcap⟩⟩⟩
  · rename_i hcap
    split
    · rename_i hover
      simp only [Bool.and_eq_true, decide_eq_true_eq] at hover
      exact ⟨ht.snoc _, fun _ => ⟨_, _, asked_snoc h t₁ x.dogA pol,
        .inr (.inl ⟨rfl, UInt64.not_le.1 hcap, hover.2, hover.1⟩)⟩⟩
    · refine ⟨fun _ hc => (by cases hc), fun t₂ pol₂ => ?_⟩
      dsimp only
      split
      · rename_i hstop
        exact ⟨(ht.snoc _).snoc _, fun _ => ⟨_, _, asked_snoc _ t₂ x.dogA pol₂, .inr (.inr ⟨.inl rfl, hstop⟩)⟩⟩
      · refine ⟨fun _ hc => (by cases hc), fun t₃ pol₃ => ⟨((ht.snoc _).snoc _).snoc _, fun hstop => ?_⟩⟩
        exact ⟨_, _, asked_snoc _ t₃ x.dogB pol₃, .inr (.inr ⟨.inr rfl, hstop⟩)⟩

/-- Calls that end no session keep a tick's clock reading and snapshot. -/
theorem ticking_along {α : Type} {p : Api α} (hp : p.All (fun c => ∀ id, c ≠ .sessionsEnd id))
    (ht : Ticking now xs h) : p.Along i TickNext (fun h _ => Ticking now xs h) h :=
  Prog.All.along (fun _ _ hn hc => ⟨fun id he => absurd he (hc id), fun _ _ => hn.snoc _⟩) (fun _ _ hn => hn) hp ht

theorem tickSessions_reason : ∀ (xs : List SessionRecord) {h : List ApiStep}, Ticking now xs h →
    (tickSessions st now xs).Along i TickNext (fun _ _ => True) h
  | [], _, _ => trivial
  | x :: rest, h, ht => by
    have hrest : ∀ y ∈ rest, y ∈ x :: rest := fun y hy => List.mem_cons_of_mem x hy
    unfold tickSessions
    simp only [sessionsEnd, sql, Prog.op_bind]
    refine Prog.Along.bind (fun h' ends hends => ?_) (tickEnds_reason i x ht)
    obtain ⟨ht', hreason⟩ := hends
    cases ends with
    | false => exact tickSessions_reason rest (ht'.mono hrest)
    | true =>
      refine ⟨fun id hc => ?_, fun t r => ?_⟩
      · cases hc
        refine ⟨now, x, ht'.mono (fun y hy => ?_), rfl, hreason rfl⟩
        rw [List.mem_singleton.1 hy]
        exact List.mem_cons_self
      · have ht'' := (ht'.mono hrest).snoc ⟨i, t, .sessionsEnd x.id, r⟩
        cases st.pool with
        | false => exact tickSessions_reason rest ht''
        | true => exact ⟨fun id hc => (by cases hc), fun t r => tickSessions_reason rest (ht''.snoc _)⟩

theorem policyTick_reason : (policyTick st).Along i TickNext (fun _ _ => True) [] := by
  unfold policyTick
  simp only [utcNow, expireDue, sessionsAll, Prog.op_bind, Prog.pure_eq]
  refine ⟨fun id hc => (by cases hc), fun t now => ⟨fun id hc => (by cases hc), fun t' due => ?_⟩⟩
  have hstart : Ticking now [] ([] ++ [⟨i, t, .utcNow, now⟩] ++ [⟨i, t', .expireDue now, due⟩] : List ApiStep) :=
    ⟨rfl, fun x hx => (by cases hx)⟩
  refine Prog.Along.bind (fun h _ ht => ?_)
    (ticking_along i (dropInvites_all st (fun _ _ => by simp) due) hstart)
  refine ⟨fun id hc => (by cases hc), fun t xs => ?_⟩
  refine Prog.Along.bind (E := fun _ _ => True) (fun _ _ _ => ?_)
    (tickSessions_reason st i xs ⟨(ht.snoc _).1, fun x hx => ?_⟩)
  · trivial
  -- the snapshot is the last call so far
  cases h with
  | nil => cases ht.1
  | cons e h =>
    rw [List.cons_append, List.tail_cons, List.flatMap_append]
    exact List.mem_append_right _ (by simpa [snapshot] using hx)

end

section

variable {st : AppState} {reqs : List Request} {w : World}

/-- **A tick removes a session for its segment, for its cap, or for a stop**, at every moment of every run. -/
theorem tick_removes {sched : List (Nat × DateTime)} {i : Nat} {id : SessionId} (hreq : reqs[i]? = some .policyTick)
    (hn : (reached st w reqs sched).next i = some (.sessionsEnd id))
    (hthere : (reached st w reqs sched).state.data.sessions.get id ≠ none) :
    EndsSegment (reached st w reqs sched) i id ∨ ∃ now x d pol, Ticking now [x] (own i (reached st w reqs sched).log) ∧
      x.id = id ∧ Asked (own i (reached st w reqs sched).log) d pol ∧
      ((d = x.dogA ∧ pol.maxSessionSec ≤ asU64 (numSeconds (now.since x.startedAt))) ∨
        (x.hasDog d ∧ pol.emergencyStop = true)) := by
  have hstart : (Pool.start w (reqs.map (handle st)) : ApiPool).Follows
      (fun i h c => reqs[i]? = some .policyTick → TickNext h c) (fun _ _ _ => True) := by
    refine Pool.follows_start (fun j r hr => ?_)
    by_cases htick : r = .policyTick
    · subst htick
      exact (policyTick_reason st j).mono (fun _ _ hc _ => hc) (fun _ _ h => h)
    · refine (handle_makes st r).along_calls (fun _ _ _ he => ?_) (fun _ _ => trivial)
      exact absurd (Option.some.inj (hr.symm.trans he)) htick
  obtain ⟨k, hk⟩ := Pool.next_some hn
  obtain ⟨now, x, ht, hid, d, pol, hasked, hwhy⟩ := ((hstart.run sched) i _ hk).1 hreq id rfl
  rcases hwhy with ⟨rfl, hcap⟩ | ⟨rfl, hcap, hactive, hover⟩ | hstop
  · exact .inr ⟨now, x, x.dogA, pol, ht, hid, hasked, .inl ⟨rfl, hcap⟩⟩
  · have hfound : FoundOver (reached st w reqs sched) i now x :=
      ⟨ht.1, ht.2 x (List.mem_singleton_self x), hactive, hover⟩
    exact .inl ⟨by rw [hn]; rfl, hthere, now, x, pol, hfound, hid, hasked, hcap⟩
  · exact .inr ⟨now, x, d, pol, ht, hid, hasked, .inr hstop⟩

/-! ## Promises -/

theorem mem_renewals_snoc {id : SessionId} {log : List ApiStep} {e : ApiStep} {jy : Nat × SessionRecord}
    (h : jy ∈ renewals id (log ++ [e])) :
    startsAs id e = false ∧ (jy ∈ renewals id log ∨ prolongs id e = some jy) := by
  unfold renewals at h ⊢
  rw [since_snoc] at h
  cases hs : startsAs id e with
  | true =>
    rw [if_pos hs] at h
    cases h
  | false =>
    rw [hs, if_neg Bool.false_ne_true, List.filterMap_append, List.mem_append] at h
    refine ⟨rfl, h.imp_right (fun h => ?_)⟩
    obtain ⟨e', he', hr⟩ := List.mem_filterMap.1 h
    rw [List.mem_singleton.1 he'] at hr
    exact hr

/-- **What one call does to the deadline of a stored session**: it leaves it, or an Again moves it, or the session
begins. -/
theorem deadline_after {i : Nat} {t : DateTime} {c : Call} {id : SessionId} {x : SessionRecord}
    (h : (exec st t c w).2.data.sessions.get id = some x) :
    startsAs id ⟨i, t, c, (exec st t c w).1⟩ = true ∨ ∃ x₀, w.data.sessions.get id = some x₀ ∧
      ((prolongs id ⟨i, t, c, (exec st t c w).1⟩ = none ∧ x.segmentDeadlineAt = x₀.segmentDeadlineAt) ∨
        ∃ f, c = .sessionsUpdate id f ∧ x = f x₀ ∧ prolongs id ⟨i, t, c, (exec st t c w).1⟩ = some (i, f x₀)) := by
  rw [exec_sessions] at h
  cases c with
  | sessionsInsert y =>
    simp only at h
    split at h
    · rename_i hok
      left
      cases hr : (exec st t (.sessionsInsert y) w).1 with
      | error e => rw [hr] at hok; exact absurd hok.1 (by simp [Except.isOk, Except.toBool])
      | ok u => exact decide_eq_true hok.2.symm
    · exact .inr ⟨x, h, .inl ⟨rfl, rfl⟩⟩
  | sessionsUpdate id' f =>
    right
    have hr : (exec st t (.sessionsUpdate id' f) w).1 = (w.data.sessions.get id').map f :=
      SessionStore.update_fst _ _ _
    rw [hr]
    simp only at h
    split at h
    · rename_i hid
      obtain ⟨x₀, hx₀, rfl⟩ := Option.map_eq_some_iff.1 h
      subst hid
      refine ⟨x₀, hx₀, .inr ⟨f, rfl, rfl, ?_⟩⟩
      rw [hx₀]
      exact if_pos rfl
    · rename_i hid
      refine ⟨x, h, .inl ⟨?_, rfl⟩⟩
      cases w.data.sessions.get id' with
      | none => rfl
      | some y => exact if_neg (Ne.symm hid)
  | sessionsEnd id' =>
    simp only at h
    split at h
    · cases h
    · exact .inr ⟨x, h, .inl ⟨rfl, rfl⟩⟩
  | setMediaReady id' d ready =>
    right
    simp only at h
    rcases SessionStore.setMediaReady_cases w.data.sessions id' d ready with
      ⟨hs, -⟩ | ⟨y, e, e', s', hy, -, -, hs, -, -, hg⟩
    · rw [hs] at h
      exact ⟨x, h, .inl ⟨rfl, rfl⟩⟩
    · rw [hs] at h
      rw [hg] at h
      split at h
      · rename_i hk
        cases h
        refine ⟨y, hk ▸ hy, .inl ⟨rfl, ?_⟩⟩
        rcases SessionStore.promote_eq_or e' y with hp | hp <;> rw [hp]
      · exact ⟨x, h, .inl ⟨rfl, rfl⟩⟩
  | _ => exact .inr ⟨x, h, .inl ⟨rfl, rfl⟩⟩

/-- What a program has found over after a call it had found over before, or the call is its snapshot. -/
theorem foundOver_snoc {p : ApiPool} {s : World} {ps : List (Api Reply)} {e : ApiStep} {j : Nat} {now : DateTime}
    {x : SessionRecord} (h : FoundOver ⟨s, ps, p.log ++ [e]⟩ j now x) :
    FoundOver p j now x ∨ (x ∈ snapshot e ∧ x.segmentDeadlineAt ≤ now) := by
  obtain ⟨hnow, hx, hactive, hover⟩ := h
  by_cases hj : e.tid = j
  · have hown : own j (p.log ++ [e]) = own j p.log ++ [e] := by
      unfold own
      rw [List.filter_append]
      simp [hj]
    rw [hown] at hnow hx
    cases hl : own j p.log with
    | nil =>
      rw [hl] at hx
      cases hx
    | cons a l =>
      rw [hl, List.cons_append] at hnow hx
      rw [List.tail_cons, List.flatMap_append, List.mem_append] at hx
      rcases hx with hx | hx
      · exact .inl ⟨by rw [hl]; exact hnow, by rw [hl]; exact hx, hactive, hover⟩
      · exact .inr ⟨by simpa using hx, hover⟩
  · have hown : own j (p.log ++ [e]) = own j p.log := by
      unfold own
      rw [List.filter_append]
      simp [hj]
    rw [hown] at hnow hx
    exact .inl ⟨hnow, hx, hactive, hover⟩

/-- **No promise is broken yet**: the deadline of a stored session is not before one acknowledged for it, and what a
tick has found over has no acknowledged deadline after the tick's clock reading. -/
structure Promised (p : ApiPool) : Prop where
  consistent : p.state.Consistent
  tids : ∀ e ∈ p.log, e.tid < p.threads.length
  stored : ∀ {id x}, p.state.data.sessions.get id = some x →
    ∀ jy ∈ renewals id p.log, jy.2.segmentDeadlineAt ≤ x.segmentDeadlineAt
  found : ∀ {i now x}, FoundOver p i now x → ∀ jy ∈ renewals x.id p.log, jy.2.segmentDeadlineAt ≤ now

theorem FoundOver.lt {p : ApiPool} {i : Nat} {now : DateTime} {x : SessionRecord} (h : FoundOver p i now x)
    (hJ : Promised p) : i < p.threads.length := by
  obtain ⟨e, he, -⟩ := Option.bind_eq_some_iff.1 h.1
  obtain ⟨hlog, htid⟩ := Interleave.mem_own.1 (List.mem_of_mem_head? he)
  exact htid ▸ hJ.tids e hlog

/-- An Again that a step carries out, as the condition sees it: on a session that is there. -/
theorem prolongs_some {i : Nat} {t : DateTime} {c : Call} {id : SessionId} {jy : Nat × SessionRecord}
    (h : prolongs id ⟨i, t, c, (exec st t c w).1⟩ = some jy) :
    ∃ f x, c = .sessionsUpdate id f ∧ w.data.sessions.get id = some x ∧ jy = (i, f x) := by
  cases c with
  | sessionsUpdate id' f =>
    have hr : (exec st t (.sessionsUpdate id' f) w).1 = (w.data.sessions.get id').map f :=
      SessionStore.update_fst _ _ _
    rw [hr] at h
    cases hg : w.data.sessions.get id' with
    | none =>
      rw [hg] at h
      cases h
    | some x =>
      rw [hg] at h
      simp only [Option.map_some, prolongs] at h
      split at h
      · rename_i hid
        subst hid
        exact ⟨f, x, rfl, hg, (Option.some.inj h).symm⟩
      · cases h
  | _ => cases h

theorem promised_step {p : ApiPool} (hJ : Promised p) {i : Nat} {t : DateTime} {c : Call}
    {k : c.Resp → Prog Call.Resp Reply} (hi : p.threads[i]? = some (.call c k)) (hkeeps : c.keepsParties)
    (hcond : UpdatesInTime p (i, t)) :
    Promised ⟨(exec st t c p.state).2, p.threads.set i (k (exec st t c p.state).1),
      p.log ++ [⟨i, t, c, (exec st t c p.state).1⟩]⟩ := by
  have htime : ∀ f id x, c = .sessionsUpdate id f → p.state.data.sessions.get id = some x →
      (∀ jy ∈ renewals id p.log, jy.2.segmentDeadlineAt ≤ (f x).segmentDeadlineAt) ∧
        ∀ j < p.threads.length, ∀ now z, FoundOver p j now z → z.id = id → (f x).segmentDeadlineAt ≤ now := by
    rintro f id x rfl hx
    exact hcond (id, f) (by rw [Pool.next_eq hi]; rfl) x hx
  refine ⟨exec_consistent st t hkeeps hJ.consistent, fun e he => ?_, fun {id x} hx jy hjy => ?_,
    fun {j now x} hover jy hjy => ?_⟩
  · rw [List.length_set]
    rcases List.mem_append.1 he with he | he
    · exact hJ.tids e he
    · rw [List.mem_singleton.1 he]
      exact (List.getElem?_eq_some_iff.1 hi).1
  · obtain ⟨hbegins, hold⟩ := mem_renewals_snoc hjy
    rcases deadline_after (i := i) hx with hs | ⟨x₀, hx₀, ⟨hnone, hsame⟩ | ⟨f, hc, rfl, hnew⟩⟩
    · rw [hs] at hbegins
      cases hbegins
    · rw [hsame]
      rcases hold with hold | hold
      · exact hJ.stored hx₀ jy hold
      · rw [hnone] at hold
        cases hold
    · rcases hold with hold | hold
      · exact (htime f id x₀ hc hx₀).1 jy hold
      · rw [hnew] at hold
        rw [← Option.some.inj hold]
  · rcases foundOver_snoc hover with hfound | ⟨hsnap, hdeadline⟩
    · rcases (mem_renewals_snoc hjy).2 with hold | hold
      · exact hJ.found hfound jy hold
      · obtain ⟨f, x₀, hc, hx₀, rfl⟩ := prolongs_some hold
        exact (htime f x.id x₀ hc hx₀).2 j (hfound.lt hJ) now x hfound rfl
    · -- the snapshot is taken now
      cases c with
      | sessionsAll =>
        obtain ⟨id, hx⟩ := SessionStore.mem_all.1 hsnap
        rcases (mem_renewals_snoc hjy).2 with hold | hold
        · rw [hJ.consistent.sessions.keyed hx] at hold
          exact le_trans (hJ.stored hx jy hold) hdeadline
        · cases hold
      | _ => cases hsnap

end

/-- **While Agains come in time, the tick honours them**: over every schedule of requests under a clock that never goes
back, a tick removes a session for its segment at no instant before a deadline an Again has been answered with. -/
theorem agains_honoured (st : AppState) (w : World) (hw : w.Consistent) (reqs : List Request)
    (sched : List (Nat × DateTime)) (hclock : sched.Pairwise (fun l l' => l.2 ≤ l'.2))
    (hm : (Pool.start w (reqs.map (handle st)) : ApiPool).Meets (exec st) UpdatesInTime sched) :
    AgainsHonoured st w reqs sched := by
  rintro before i t id hle - hends j y - hy
  obtain ⟨now, x, pol, hfound, rfl, -, -⟩ := hends.found
  have hbefore : before <+: sched := (List.prefix_append _ _).trans hle
  have hJ : Promised (reached st w reqs before) := by
    obtain ⟨rest, rfl⟩ := hbefore
    refine (Pool.run_inv (fun p i t c k hJ _ hi hq hc => promised_step hJ hi hq hc) before _
      (Q := fun _ _ c => c.keepsParties) (E := fun _ _ _ => True) (Pool.follows_start (fun i r _ => ?_)) ?_
      (Pool.Meets.append _ hm).1).2
    · exact (handle_makes st r).along_calls (fun _ _ hc => Request.makes_keepsParties hc) (fun _ _ => trivial)
    · exact ⟨hw, fun e he => absurd he List.not_mem_nil, fun _ jy hjy => (by cases hjy), fun hf => by cases hf.1⟩
  -- the tick read its clock before it removes the session
  obtain ⟨e, he, hread⟩ := Option.bind_eq_some_iff.1 hfound.1
  obtain ⟨hlog, -⟩ := Interleave.mem_own.1 (List.mem_of_mem_head? he)
  rcases Pool.mem_log_run hlog with hlog | ⟨moment, hmoment, -, hresp⟩
  · cases hlog
  · have hnow : now = e.input := by
      obtain ⟨j', t', c, r⟩ := e
      cases c with
      | utcNow => exact (Option.some.inj hread).symm.trans hresp
      | _ => cases hread
    have hearlier : (e.tid, e.input) ∈ before := hmoment.subset (List.mem_append_right _ (List.mem_singleton_self _))
    obtain ⟨rest, rfl⟩ := hle
    have hpair : e.input ≤ t :=
      (List.pairwise_append.1 (List.pairwise_append.1 hclock).1).2.2 _ hearlier (i, t) (List.mem_singleton_self _)
    calc y.segmentDeadlineAt ≤ now := hJ.found hfound (j, y) hy
      _ = e.input := hnow
      _ ≤ t := hpair

/-- Dogs 1 and 2 have met at noon, and both are ready: session 1 is active, and its segment ends at five past. -/
def talking : World :=
  serveAt bench noon ringing [.acceptInvite (device 2) 0 (jsonBody 2), .mediaReady (device 1) 1 (jsonBody 1),
    .mediaReady (device 2) 1 (jsonBody 2)]

theorem talking_consistent : talking.Consistent :=
  Server.serveAll_consistent _ ringing_consistent

/-- The tick, and an Again of dog 1. -/
def tickAndAgain : List Request := [.policyTick, .again (device 1) 1 (jsonBody 1)]

/-- Dog 1 presses at noon, and the tick comes at ten past. -/
theorem agains_honoured_inTurn : AgainsHonoured bench talking tickAndAgain
    (List.replicate 5 (1, noon) ++ List.replicate 6 (0, epoch 43800)) :=
  agains_honoured bench talking talking_consistent tickAndAgain _ (by decide) (by decide +kernel)

/-- **An acknowledged Again is cut short**: at five past the tick takes its snapshot, dog 1 presses and is promised ten
past, and the tick ends the session. -/
theorem again_cut_short : ¬ ∀ (st : AppState) (w : World) (reqs : List Request) (sched : List (Nat × DateTime)),
    w.Consistent → sched.Pairwise (fun l l' => l.2 ≤ l'.2) → AgainsHonoured st w reqs sched := by
  intro h
  let pressed : SessionRecord := { firstSession with state := .active, segmentDeadlineAt := epoch 43800 }
  have hhonoured := h bench talking tickAndAgain
    ((List.replicate 3 0 ++ List.replicate 5 1 ++ List.replicate 2 0).map (fun i => (i, epoch 43500)))
    talking_consistent (by decide)
    ((List.replicate 3 0 ++ List.replicate 5 1 ++ [0]).map (fun i => (i, epoch 43500))) 0 (epoch 43500) ⟨1⟩
    (by decide) rfl
    ⟨by decide +kernel, by decide +kernel, epoch 43500, { firstSession with state := .active },
      .defaultFor ⟨1⟩, ⟨by decide +kernel, by decide +kernel, rfl, by decide⟩, rfl,
      by unfold Asked; decide +kernel, by decide +kernel⟩
    1 pressed (by decide +kernel) (by decide +kernel)
  revert hhonoured
  decide

end CanisLink
