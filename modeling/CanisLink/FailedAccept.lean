import CanisLink.Engage
import CanisLink.Requests
import CanisLink.Resolve
/-!
# FailedAccept — what an accept that fails leaves of the invite

`accept_invite_handler` checks everything that can be checked, closes the invite, and inserts the session last.  The
insert fails when a dog is in the index of sessions by then, and the invite is not put back.  Everywhere else a failed
accept has touched neither store, but for the invites it found expired.
-/
namespace CanisLink

open Interleave (Prog Pool Step own)
open Api

/-- The invite an accept names. -/
def Request.accepting : Request → Option InviteId
  | .acceptInvite _ n _ => some ⟨n⟩
  | _ => none

/-- The invite request `i` is to accept. -/
def named (reqs : List Request) (i : Nat) : Option InviteId := (reqs[i]?).bind Request.accepting

/-- An accept that answers this has failed: with an error, or in a panic. -/
def Reply.failed : Reply → Bool
  | .accepted .. => false
  | _ => true

/-- Program `j` is about to look for expired invites, and `inv` is one. -/
def FindsExpired (p : ApiPool) (j : Nat) (inv : Invite) : Prop :=
  ∃ now, p.next j = some (.expireDue now) ∧ isExpired inv now = true

/-- Program `j` is about to close the invite `id`. -/
def Closes (p : ApiPool) (j : Nat) (id : InviteId) : Prop := p.next j = some (.invitesClose id)

/-- The invite is open, and both its dogs are mapped to it. -/
def Open (s : InviteStore) (id : InviteId) : Prop :=
  ∃ inv, s.get id = some inv ∧ s.openForDog.lookup inv.fromDog = some id ∧ s.openForDog.lookup inv.toDog = some id

/-- **What request `i` leaves of the invite `id`** when the schedule is done.  No step of the request changes the
session store or takes the invite out, unless it is found expired; and if the invite was there at some moment it is open
still, or has been found expired or been closed by another request since. -/
structure LeftOpen (st : AppState) (w : World) (reqs : List Request) (sched : List (Nat × DateTime)) (i : Nat)
    (id : InviteId) : Prop where
  sessions : ∀ before t, before ++ [(i, t)] <+: sched →
    (reached st w reqs (before ++ [(i, t)])).state.data.sessions = (reached st w reqs before).state.data.sessions
  kept : ∀ before t inv, before ++ [(i, t)] <+: sched →
    (reached st w reqs before).state.data.invites.get id = some inv →
    (reached st w reqs (before ++ [(i, t)])).state.data.invites.get id ≠ none ∨
      FindsExpired (reached st w reqs before) i inv
  still : ∀ before, before <+: sched → (reached st w reqs before).state.data.invites.get id ≠ none →
    Open (reached st w reqs sched).state.data.invites id ∨
      ∃ later l inv, before <+: later ∧ later ++ [l] <+: sched ∧
        (reached st w reqs later).state.data.invites.get id = some inv ∧
        (FindsExpired (reached st w reqs later) l.1 inv ∨ (l.1 ≠ i ∧ Closes (reached st w reqs later) l.1 id))

/-- **A failed accept leaves the invite open.** -/
def FailedLeaveOpen (st : AppState) (w : World) (reqs : List Request) (sched : List (Nat × DateTime)) : Prop :=
  ∀ i id reply, named reqs i = some id → (reached st w reqs sched).result i = some reply → reply.failed = true →
    LeftOpen st w reqs sched i id

/-- **An accept that has taken its invite out inserts its session only while neither dog is in the index.** -/
def InsertsFree (reqs : List Request) (p : ApiPool) (l : Nat × DateTime) : Prop :=
  ∀ id ∈ named reqs l.1, (own l.1 p.log).any (takes reqs id) = true →
    ∀ ab ∈ (p.next l.1).bind joining,
      ab.1 ∉ p.state.data.sessions.byDog ∧ ab.2 ∉ p.state.data.sessions.byDog

instance (reqs : List Request) (p : ApiPool) (l : Nat × DateTime) : Decidable (InsertsFree reqs p l) :=
  inferInstanceAs (Decidable (∀ _ ∈ _, _ → _))

/-- The insert of a session failed. -/
def clashes : ApiStep → Bool
  | ⟨_, _, .sessionsInsert _, .error _⟩ => true
  | _ => false

/-- An accept goes on only after no insert of its has failed. -/
def AcceptNext (h : List ApiStep) (_ : Call) : Prop := ∀ e ∈ h, clashes e = false

/-- An accept whose insert failed fails; one that fails has begun no session, and has closed no invite but before such
an insert. -/
structure AcceptEnd (h : List ApiStep) (reply : Reply) : Prop where
  clashed : ∀ e ∈ h, clashes e = true → reply.failed = true
  begun : reply.failed = true → ∀ e ∈ h, starts e = none
  closed : reply.failed = true → ∀ e ∈ h, closing e.cmd ≠ none → ∃ e' ∈ h, clashes e' = true

section

variable (st : AppState) (i : Nat)

/-- What closes nothing and inserts nothing may fail as it likes. -/
theorem acceptEnd_of_harmless {h : List ApiStep} {reply : Reply}
    (hh : ∀ e ∈ h, closing e.cmd = none ∧ joining e.cmd = none) (hf : reply.failed = true) : AcceptEnd h reply := by
  refine ⟨fun _ _ _ => hf, fun _ e he => ?_, fun _ e he hc => absurd (hh e he).1 hc⟩
  obtain ⟨j, t, c, r⟩ := e
  have hj := (hh _ he).2
  cases c with
  | sessionsInsert x => cases hj
  | _ => rfl

theorem publishMany_unclashed (ev : DeviceEvent) (ds : List DogId) {h : List ApiStep}
    (hn : ∀ e ∈ h, clashes e = false) :
    (publishMany ds ev).Along i AcceptNext (fun h _ => ∀ e ∈ h, clashes e = false) h := by
  refine Prog.All.along (S := fun c => ∀ x, c ≠ .sessionsInsert x) (N := fun h => ∀ e ∈ h, clashes e = false)
    (fun h c hn hc => ⟨hn, fun t r e he => ?_⟩) (fun _ _ hn => hn) (publishMany_all (fun _ _ _ => by simp) ev ds) hn
  rcases List.mem_append.1 he with he | he
  · exact hn e he
  · rw [List.mem_singleton.1 he]
    cases c with
    | sessionsInsert x => exact absurd rfl (hc x)
    | _ => rfl

/-- **An accept closes its invite right before it inserts its session.** -/
theorem acceptInvite_closes (h : HeaderMap) (inviteId : Uuid) (b : JsonBody) :
    (acceptInviteHandler st h inviteId b).Along i AcceptNext AcceptEnd [] := by
  unfold acceptInviteHandler
  simp only [utcNow, expireDue, policiesGet, policiesEnsure, invitesGet, isPresent, newUuid, invitesClose,
    sessionsInsert, sql, Prog.op_bind, Prog.pure_eq]
  cases st.formats.parseUuid b.dogId with
  | none => exact acceptEnd_of_harmless (by simp) rfl
  | some dog =>
  cases st.formats.parseUuid b.terminalId with
  | none => exact acceptEnd_of_harmless (by simp) rfl
  | some terminal =>
  dsimp only
  cases verifyDevice st h ⟨terminal⟩ ⟨dog⟩ with
  | error s => exact acceptEnd_of_harmless (by simp) rfl
  | ok u =>
  refine ⟨by simp [AcceptNext], fun t₁ now => ⟨by simp [AcceptNext, clashes], fun t₂ pol => ?_⟩⟩
  dsimp only
  cases socialAllowed pol now with
  | error e => exact acceptEnd_of_harmless (by simp [closing, joining]) rfl
  | ok u =>
  refine ⟨by simp [AcceptNext, clashes], fun t₃ _ => ⟨by simp [AcceptNext, clashes], fun t₄ found => ?_⟩⟩
  cases found with
  | none => exact acceptEnd_of_harmless (by simp [closing, joining]) rfl
  | some inv =>
  refine ⟨by simp [AcceptNext, clashes], fun t₅ present => ⟨by simp [AcceptNext, clashes], fun t₆ sessionId => ?_⟩⟩
  dsimp only
  cases acceptInvite ⟨sessionId⟩ inv ⟨dog⟩ present now with
  | none => exact acceptEnd_of_harmless (by simp [closing, joining]) rfl
  | some checked =>
  cases checked with
  | error e => exact acceptEnd_of_harmless (by simp [closing, joining]) rfl
  | ok session =>
  dsimp only
  cases (seconds (asI64 pol.maxSessionSec)).bind now.plus with
  | none => exact acceptEnd_of_harmless (by simp [closing, joining]) rfl
  | some maxEndAt =>
  cases (seconds (asI64 pol.segmentSec)).bind now.plus with
  | none => exact acceptEnd_of_harmless (by simp [closing, joining]) rfl
  | some segmentDeadlineAt =>
  refine ⟨by simp [AcceptNext, clashes], fun t₇ closed => ⟨by simp [AcceptNext, clashes], fun t₈ inserted => ?_⟩⟩
  cases inserted with
  | error e =>
    refine ⟨fun _ _ _ => rfl, fun _ => ?_, fun _ _ _ _ => ?_⟩
    · simp [starts, Call.started]
    · exact ⟨_, List.mem_append_right _ (List.mem_singleton_self _), rfl⟩
  | ok u =>
  -- from here the session has begun, and the answer says so
  have hend : ∀ (h : List ApiStep) (x : SessionRecord) (role : String), (∀ e ∈ h, clashes e = false) →
      AcceptEnd h (.accepted x role) := by
    intro h x role hn
    refine ⟨fun e he hc => ?_, fun hf => (by cases hf), fun hf => (by cases hf)⟩
    rw [hn e he] at hc
    cases hc
  cases st.pool with
  | false =>
    refine Prog.Along.bind (fun h' _ hn => ?_) (publishMany_unclashed i _ _ (by simp [clashes]))
    exact hend h' _ _ hn
  | true =>
    refine ⟨by simp [AcceptNext, clashes], fun t₉ _ => ⟨by simp [AcceptNext, clashes], fun t₁₀ _ => ?_⟩⟩
    refine Prog.Along.bind (fun h' _ hn => ?_) (publishMany_unclashed i _ _ (by simp [clashes]))
    exact hend h' _ _ hn

/-! ## Runs -/

/-- Where the requests may be, and how the accepts among them may end. -/
def AcceptsNext (reqs : List Request) (i : Nat) (h : List ApiStep) (c : Call) : Prop :=
  ∃ r, reqs[i]? = some r ∧ r.makes c ∧ (named reqs i ≠ none → AcceptNext h c)

def AcceptsEnd (reqs : List Request) (i : Nat) (h : List ApiStep) (reply : Reply) : Prop :=
  named reqs i ≠ none → AcceptEnd h reply

theorem requests_close (reqs : List Request) (w : World) :
    (Pool.start w (reqs.map (handle st)) : ApiPool).Follows (AcceptsNext reqs) (AcceptsEnd reqs) := by
  refine Pool.follows_start (fun i r hr => ?_)
  have hnamed : named reqs i = r.accepting := by rw [named, hr]; rfl
  cases r with
  | acceptInvite h n b =>
    exact ((handle_makes st (.acceptInvite h n b)).and_along (acceptInvite_closes st i h n b)).mono
      (fun h' c hc => ⟨_, hr, hc.1, fun _ => hc.2⟩) (fun h' reply he _ => he)
  | _ =>
    exact (handle_makes st _).along_calls (fun h' c hc => ⟨_, hr, hc, fun ha => absurd hnamed ha⟩)
      (fun h' reply ha => absurd hnamed ha)

end

section

variable {st : AppState} {reqs : List Request} {w : World}

theorem named_accepts {i : Nat} {id : InviteId} (h : named reqs i = some id) : accepts reqs i = true := by
  unfold named at h
  unfold accepts
  cases hr : reqs[i]? with
  | none => rw [hr] at h; cases h
  | some r =>
    rw [hr] at h
    cases r with
    | acceptInvite => rfl
    | _ => cases h

/-- An insert fails exactly if a dog is in the index. -/
theorem clashes_iff (i : Nat) (t : DateTime) (x : SessionRecord) (w : World) :
    clashes ⟨i, t, .sessionsInsert x, (exec st t (.sessionsInsert x) w).1⟩ = true ↔
      ¬ (x.dogA ∉ w.data.sessions.byDog ∧ x.dogB ∉ w.data.sessions.byDog) := by
  have hexec : (exec st t (.sessionsInsert x) w).1 = (w.data.sessions.insert x).map (fun _ => ()) := by
    simp only [exec]
    split
    · rename_i h; rw [h]; rfl
    · rename_i h; rw [h]; rfl
  rw [hexec]
  by_cases hfree : x.dogA ∉ w.data.sessions.byDog ∧ x.dogB ∉ w.data.sessions.byDog
  · obtain ⟨s', h⟩ := SessionStore.insert_free (AList.lookup_eq_none.2 hfree.1) (AList.lookup_eq_none.2 hfree.2)
    rw [h]
    exact iff_of_false (by simp [clashes, Except.map]) (not_not_intro hfree)
  · cases h : w.data.sessions.insert x with
    | error e => exact iff_of_true rfl hfree
    | ok s' =>
      obtain ⟨ha, hb, -⟩ := SessionStore.insert_ok h
      exact absurd ⟨AList.lookup_eq_none.1 ha, AList.lookup_eq_none.1 hb⟩ hfree

/-- An accept changes the session store by inserting its session, and not otherwise. -/
theorem accept_sessions {r : Request} {t : DateTime} {c : Call} (hr : r.isAccept = true) (hm : r.makes c)
    (hs : c.started (exec st t c w).1 = none) : (exec st t c w).2.data.sessions = w.data.sessions := by
  cases r with
  | acceptInvite =>
    cases c with
    | sessionsInsert x =>
      cases h : w.data.sessions.insert x with
      | error e => simp only [exec, h]
      | ok s => simp only [exec, h, Call.started, reduceCtorEq] at hs
    | sessionsUpdate id f => exact absurd hm.1 (by simp [Request.isAgain])
    | setMediaReady id d ready => exact absurd hm (by simp [Request.makes, Request.isMediaReady])
    | sessionsEnd id => exact absurd hm (by simp [Request.makes, Request.ends])
    | invitesInsert inv => simp only [exec]; split <;> rfl
    | _ => rfl
  | _ => cases hr

/-- **No accept whose insert failed has taken its invite out.** -/
structure Sparing (reqs : List Request) (p : ApiPool) : Prop where
  consistent : p.state.Consistent
  spared : ∀ {i id}, named reqs i = some id → ∀ e ∈ own i p.log, clashes e = true →
    ∀ e' ∈ own i p.log, takes reqs id e' = false

theorem sparing_step {p : ApiPool} (hJ : Sparing reqs p) {i : Nat} {t : DateTime} {c : Call}
    {k : c.Resp → Prog Call.Resp Reply} (hi : p.threads[i]? = some (.call c k))
    (hq : AcceptsNext reqs i (own i p.log) c) (hcond : InsertsFree reqs p (i, t)) :
    Sparing reqs ⟨(exec st t c p.state).2, p.threads.set i (k (exec st t c p.state).1),
      p.log ++ [⟨i, t, c, (exec st t c p.state).1⟩]⟩ := by
  obtain ⟨r, hr, hmakes, hnext⟩ := hq
  refine ⟨exec_consistent st t (Request.makes_keepsParties hmakes) hJ.consistent, ?_⟩
  intro j id hid e he hclash e' he'
  by_cases hij : i = j
  · subst hij
    have hnone : AcceptNext (own i p.log) c := hnext (by rw [hid]; exact Option.some_ne_none id)
    rw [Interleave.own_snoc_self] at he he'
    -- only this call can be the one that failed
    rcases List.mem_append.1 he with he | he
    · rw [hnone e he] at hclash
      cases hclash
    · rw [List.mem_singleton.1 he] at hclash
      cases c with
      | sessionsInsert x =>
        rcases List.mem_append.1 he' with he' | he'
        · refine eq_false_of_ne_true (fun htakes => (clashes_iff i t x p.state).1 hclash ?_)
          exact hcond id hid (List.any_eq_true.2 ⟨e', he', htakes⟩) (x.dogA, x.dogB) (by rw [Pool.next_eq hi]; rfl)
        · rw [List.mem_singleton.1 he']
          rfl
      | _ => cases hclash
  · rw [Interleave.own_snoc_ne hij] at he he'
    exact hJ.spared hid e he hclash e' he'

theorem sparing_run (hw : w.Consistent) {sched : List (Nat × DateTime)}
    (hm : (Pool.start w (reqs.map (handle st)) : ApiPool).Meets (exec st) (InsertsFree reqs) sched) :
    Sparing reqs (reached st w reqs sched) := by
  have h0 : Sparing reqs (Pool.start w (reqs.map (handle st)) : ApiPool) :=
    ⟨hw, fun _ e he => absurd he List.not_mem_nil⟩
  exact (Pool.run_inv (fun _ _ _ _ _ hJ _ hi hq hc => sparing_step hJ hi hq hc) sched _
    (requests_close st reqs w) h0 hm).2

theorem reached_follows (sched : List (Nat × DateTime)) :
    (reached st w reqs sched).Follows (AcceptsNext reqs) (AcceptsEnd reqs) :=
  (requests_close st reqs w).run sched

theorem accept_end {sched : List (Nat × DateTime)} {i : Nat} {id : InviteId} {reply : Reply}
    (hid : named reqs i = some id) (hdone : (reached st w reqs sched).result i = some reply) :
    AcceptEnd (own i (reached st w reqs sched).log) reply :=
  reached_follows sched i _ (Pool.result_eq_some.1 hdone) (by rw [hid]; exact Option.some_ne_none id)

/-- If a failed accept that has spared its invite closed it, the close found nothing. -/
theorem close_finds_nothing {sched : List (Nat × DateTime)} (hJ : Sparing reqs (reached st w reqs sched)) {i : Nat}
    {id : InviteId} {reply : Reply} (hid : named reqs i = some id)
    (hdone : (reached st w reqs sched).result i = some reply) (hf : reply.failed = true)
    {before : List (Nat × DateTime)} {t : DateTime} (hle : before ++ [(i, t)] <+: sched)
    (hn : Closes (reached st w reqs before) i id) :
    (reached st w reqs before).state.data.invites.get id = none := by
  have hmem := mem_own_of_next hle hn
  obtain ⟨e, he, hclash⟩ := (accept_end hid hdone).closed hf _ hmem (by simp [closing])
  have htakes := hJ.spared hid e he hclash _ hmem
  have hr : (exec st t (.invitesClose id) (reached st w reqs before).state).1 =
      (reached st w reqs before).state.data.invites.get id := InviteStore.close_fst _ _
  rw [hr] at htakes
  cases hg : (reached st w reqs before).state.data.invites.get id with
  | none => rfl
  | some inv =>
    rw [hg] at htakes
    simp [takes, named_accepts hid] at htakes

/-- **The moment at which an invite leaves the store**: it is closed then, or found expired. -/
theorem leaves_by {before : List (Nat × DateTime)} {l : Nat × DateTime} {id : InviteId} {inv : Invite}
    (hthere : (reached st w reqs before).state.data.invites.get id = some inv)
    (hgone : (reached st w reqs (before ++ [l])).state.data.invites.get id = none) :
    FindsExpired (reached st w reqs before) l.1 inv ∨ Closes (reached st w reqs before) l.1 id := by
  obtain ⟨c, hn⟩ : ∃ c, (reached st w reqs before).next l.1 = some c := by
    refine next_of_changed (fun hs => ?_)
    rw [hs, hthere] at hgone
    cases hgone
  rw [reached_snoc hn] at hgone
  rcases invites_gone st l.2 _ hthere hgone with rfl | ⟨now, rfl, hexp⟩
  · exact .inr hn
  · exact .inl ⟨now, hn, hexp⟩

/-- An invite that was there at some moment and is not at the end has left in between. -/
theorem leaves_since {before sched : List (Nat × DateTime)} {id : InviteId} (hle : before <+: sched)
    (hthere : (reached st w reqs before).state.data.invites.get id ≠ none)
    (hgone : (reached st w reqs sched).state.data.invites.get id = none) : ∃ later l inv, before <+: later ∧
      later ++ [l] <+: sched ∧ (reached st w reqs later).state.data.invites.get id = some inv ∧
      (FindsExpired (reached st w reqs later) l.1 inv ∨ Closes (reached st w reqs later) l.1 id) := by
  obtain ⟨rest, rfl⟩ := hle
  obtain ⟨later, l, hpre, hle, hlast, hnext⟩ := @Pool.exists_leaving _ _ _ _ _ (exec st)
    (fun p : ApiPool => p.state.data.invites.get id ≠ none) _ _ hthere rest (not_not_intro hgone)
  obtain ⟨inv, hinv⟩ := Option.ne_none_iff_exists'.1 hlast
  exact ⟨later, l, inv, hpre, hle, hinv, leaves_by hinv (not_not.1 hnext)⟩

/-- No step of a failed accept changes the session store. -/
theorem failed_keeps_sessions {before sched : List (Nat × DateTime)} {i : Nat} {t : DateTime} {id : InviteId}
    {reply : Reply} (hid : named reqs i = some id) (hdone : (reached st w reqs sched).result i = some reply)
    (hf : reply.failed = true) (hle : before ++ [(i, t)] <+: sched) :
    (reached st w reqs (before ++ [(i, t)])).state.data.sessions = (reached st w reqs before).state.data.sessions := by
  by_cases hs : (reached st w reqs (before ++ [(i, t)])).state = (reached st w reqs before).state
  · rw [hs]
  · obtain ⟨c, hn⟩ := next_of_changed hs
    obtain ⟨k, hk⟩ := Pool.next_some hn
    obtain ⟨r, hr, hmakes, -⟩ := ((reached_follows before) i _ hk).1
    have haccept : r.isAccept = true := by
      have := named_accepts hid
      rw [accepts, hr] at this
      exact this
    rw [reached_snoc hn]
    exact accept_sessions haccept hmakes ((accept_end hid hdone).begun hf _ (mem_own_of_next hle hn))

/-- **A failed accept that has spared its invite leaves it open.** -/
theorem leftOpen_of_sparing {sched : List (Nat × DateTime)} (hJ : Sparing reqs (reached st w reqs sched)) {i : Nat}
    {id : InviteId} {reply : Reply} (hid : named reqs i = some id)
    (hdone : (reached st w reqs sched).result i = some reply) (hf : reply.failed = true) :
    LeftOpen st w reqs sched i id := by
  refine ⟨fun before t hle => failed_keeps_sessions hid hdone hf hle, fun before t inv hle hg => ?_,
    fun before hle hg => ?_⟩
  · by_cases hgone : (reached st w reqs (before ++ [(i, t)])).state.data.invites.get id = none
    · refine .inr ((leaves_by hg hgone).resolve_right (fun hclose => ?_))
      cases hg.symm.trans (close_finds_nothing hJ hid hdone hf hle hclose)
    · exact .inl hgone
  · by_cases hnow : (reached st w reqs sched).state.data.invites.get id = none
    · obtain ⟨later, l, inv, hpre, hstep, hinv, hwhy⟩ := leaves_since hle hg hnow
      refine .inr ⟨later, l, inv, hpre, hstep, hinv, hwhy.imp_right (fun hclose => ⟨fun hl => ?_, hclose⟩)⟩
      -- its own close would have found nothing
      subst hl
      cases hinv.symm.trans (close_finds_nothing hJ hid hdone hf hstep hclose)
    · obtain ⟨inv, hinv⟩ := Option.ne_none_iff_exists'.1 hnow
      exact .inl ⟨inv, hinv, hJ.consistent.invites.indexed hinv (.inl rfl),
        hJ.consistent.invites.indexed hinv (.inr rfl)⟩

/-- An accept that took its invite out did so at some moment. -/
theorem took_moment {sched : List (Nat × DateTime)} {i : Nat} {id : InviteId}
    (h : (own i (reached st w reqs sched).log).any (takes reqs id) = true) : ∃ before t inv,
      before ++ [(i, t)] <+: sched ∧ Closes (reached st w reqs before) i id ∧
      (reached st w reqs before).state.data.invites.get id = some inv := by
  obtain ⟨e, he, htakes⟩ := List.any_eq_true.1 h
  obtain ⟨hlog, rfl⟩ := Interleave.mem_own.1 he
  rcases Pool.mem_log_run hlog with hlog | ⟨before, hle, hn, hresp⟩
  · cases hlog
  · unfold takes at htakes
    split at htakes
    · rename_i j t id' inv
      obtain rfl : id' = id := of_decide_eq_true (Bool.and_eq_true_iff.1 htakes).1
      refine ⟨before, t, inv, hle, hn, ?_⟩
      have hclose : (exec st t (.invitesClose id') (reached st w reqs before).state).1 =
          (reached st w reqs before).state.data.invites.get id' := InviteStore.close_fst _ _
      rw [← hclose]
      exact hresp.symm
    · cases htakes

/-- Where failed accepts leave their invites open, none that has taken its invite out fails to insert. -/
theorem insertsFree_of_leftOpen {before : List (Nat × DateTime)} {l : Nat × DateTime}
    (h : FailedLeaveOpen st w reqs (before ++ [l])) : InsertsFree reqs (reached st w reqs before) l := by
  obtain ⟨i, t⟩ := l
  intro id hid htook ab hab
  by_contra hbusy
  obtain ⟨c, hn, hjoin⟩ := Option.mem_bind_iff.1 hab
  have hn : (reached st w reqs before).next i = some c := hn
  obtain ⟨k, hk⟩ := Pool.next_some hn
  have hnamed : named reqs i ≠ none := by
    rw [show named reqs i = some id from hid]
    exact Option.some_ne_none id
  cases c with
  | sessionsInsert x =>
    obtain rfl : (x.dogA, x.dogB) = ab := Option.some.inj hjoin
    have hclash : clashes ⟨i, t, .sessionsInsert x,
        (exec st t (.sessionsInsert x) (reached st w reqs before).state).1⟩ = true := (clashes_iff i t x _).2 hbusy
    have hmem := mem_own_of_next (List.prefix_refl _) hn (t := t)
    -- the insert fails, and the accept has returned
    have hthread : (reached st w reqs (before ++ [(i, t)])).threads[i]? =
        some (k (exec st t (.sessionsInsert x) (reached st w reqs before).state).1) := by
      have hlt := (List.getElem?_eq_some_iff.1 hk).1
      unfold reached at hk hlt ⊢
      rw [Pool.run_snoc, Pool.step_call hk, List.getElem?_set_self hlt]
    have hfollows := reached_follows (before ++ [(i, t)]) i _ hthread
    cases hq : k (exec st t (.sessionsInsert x) (reached st w reqs before).state).1 with
    | call c' k' =>
      rw [hq] at hfollows
      obtain ⟨-, -, -, hnext⟩ := hfollows.1
      rw [hnext hnamed _ hmem] at hclash
      cases hclash
    | done reply =>
      rw [hq] at hfollows hthread
      have hf : reply.failed = true := (hfollows hnamed).clashed _ hmem hclash
      have hleft := h i id reply hid (Pool.result_eq_some.2 hthread) hf
      obtain ⟨moment, t', inv, hle, hclose, hg⟩ := took_moment htook
      rcases hleft.kept moment t' inv (hle.trans (List.prefix_append _ _)) hg with hkept | ⟨now, hnow, -⟩
      · rw [reached_snoc (l := (i, t')) hclose, exec_invites] at hkept
        exact hkept (if_pos rfl)
      · cases hclose.symm.trans hnow
  | _ => cases hjoin

end

/-- **A failed accept leaves the invite open exactly while no accept that has taken its invite out meets a busy dog**:
over every schedule, at every moment, every accept that has failed has left its invite open if and only if the session
of an accept whose close found the invite is only ever inserted while neither dog is in the index of sessions. -/
theorem failed_leaves_open_iff (st : AppState) (w : World) (reqs : List Request) (hw : w.Consistent)
    (sched : List (Nat × DateTime)) : (∀ before, before <+: sched → FailedLeaveOpen st w reqs before) ↔
      (Pool.start w (reqs.map (handle st)) : ApiPool).Meets (exec st) (InsertsFree reqs) sched := by
  constructor
  · exact fun h => Pool.meets_iff.2 (fun before l hle => insertsFree_of_leftOpen (h _ hle))
  · rintro hm before ⟨rest, rfl⟩ i id reply hid hdone hf
    exact leftOpen_of_sparing (sparing_run hw hm.append.1) hid hdone hf

/-- Dog 2 accepts twice: the first accept begins the session, the second finds no invite. -/
theorem failed_leaves_open_twice : FailedLeaveOpen bench ringing
    [.acceptInvite (device 2) 0 (jsonBody 2), .acceptInvite (device 2) 0 (jsonBody 2)]
    ((List.replicate 12 0 ++ List.replicate 12 1).map (fun i => (i, noon))) :=
  (failed_leaves_open_iff bench ringing
    [.acceptInvite (device 2) 0 (jsonBody 2), .acceptInvite (device 2) 0 (jsonBody 2)] ringing_consistent _).2
    (by decide +kernel) _ (List.prefix_refl _)

/-- Dog 2 accepts the second call of `twoDogs`. -/
def secondAccept : List Request := twoDogs ++ [.acceptInvite (device 2) 2 (jsonBody 2)]

/-- **A failed accept loses the invite**: dog 1 has called dog 2 a second time while the first accept was under way
(`crossed`); dog 2 accepts again, the invite is taken out, and the session is busy. -/
theorem failed_accept_loses : ¬ ∀ (st : AppState) (w : World) (reqs : List Request) (sched : List (Nat × DateTime)),
    w.data = {} → FailedLeaveOpen st w reqs sched := by
  intro h
  obtain ⟨reply, hreply, hf⟩ := (Option.any_eq_true _ _).1 (show ((reached bench fresh secondAccept
    ((crossed ++ List.replicate 8 6).map (fun i => (i, noon)))).result 6).any Reply.failed = true by decide +kernel)
  have hnamed : named secondAccept 6 = some ⟨2⟩ := rfl
  have hopen := h bench fresh secondAccept ((crossed ++ List.replicate 8 6).map (fun i => (i, noon))) rfl
  have hleft := hopen 6 ⟨2⟩ reply hnamed hreply hf
  -- its close finds the invite
  obtain ⟨inv, hinv⟩ : ∃ inv, (reached bench fresh secondAccept
      ((crossed ++ List.replicate 6 6).map (fun i => (i, noon)))).state.data.invites.get ⟨2⟩ = some inv :=
    Option.isSome_iff_exists.1 (by decide +kernel)
  have hnext : ((reached bench fresh secondAccept
      ((crossed ++ List.replicate 6 6).map (fun i => (i, noon)))).next 6).bind closing = some ⟨2⟩ := by decide +kernel
  rcases hleft.kept _ noon inv (by decide) hinv with hkept | ⟨now, hnow, -⟩
  · revert hkept
    decide +kernel
  · rw [hnow] at hnext
    cases hnext

end CanisLink
