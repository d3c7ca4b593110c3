import CanisLink.Handshake
/-!
# Engage — a dog is in an open invite or in a session, not in both

`create_invite` asks both stores and inserts an invite later; `accept_invite_handler` reads an invite and inserts a
session later.  While nothing new has come between for their dogs, no dog is engaged twice, in every interleaving.  The
proof keeps, for every such question in the log, what has happened since.
-/
namespace CanisLink

open Interleave (Prog Pool Step own After after_snoc after_since since)

/-- No dog is a party of an open invite and of a session. -/
def EngagedOnce (w : World) : Prop :=
  ∀ k inv id x d, w.data.invites.get k = some inv → inv.hasDog d → w.data.sessions.get id = some x → ¬ x.hasDog d

instance (w : World) : Decidable (EngagedOnce w) :=
  decidable_of_iff (∀ e ∈ w.data.invites.byId.entries, ∀ e' ∈ w.data.sessions.byId.entries,
      ¬ e'.2.hasDog e.2.fromDog ∧ ¬ e'.2.hasDog e.2.toDog) (by
    constructor
    · intro h k inv id x d hk hd hx hxd
      obtain ⟨hf, ht⟩ := h ⟨k, inv⟩ (AList.mem_lookup_iff.1 hk) ⟨id, x⟩ (AList.mem_lookup_iff.1 hx)
      rcases hd with rfl | rfl
      · exact hf hxd
      · exact ht hxd
    · intro h e he e' he'
      have hk : w.data.invites.get e.1 = some e.2 := AList.mem_lookup_iff.2 he
      have hx : w.data.sessions.get e'.1 = some e'.2 := AList.mem_lookup_iff.2 he'
      exact ⟨h _ _ _ _ _ hk (.inl rfl) hx, h _ _ _ _ _ hk (.inr rfl) hx⟩)

/-- The invite a step inserted. -/
def opens (e : ApiStep) : Option Invite := e.cmd.opened e.resp

/-- The session a step inserted. -/
def starts (e : ApiStep) : Option SessionRecord := e.cmd.started e.resp

/-- Program `i` asks for the session of `d`. -/
def asks (i : Nat) (d : DogId) (e : ApiStep) : Bool :=
  match e.cmd with
  | .sessionsForDog d' => decide (d' = d) && decide (e.tid = i)
  | _ => false

/-- Program `i` reads an invite. -/
def reads (i : Nat) (e : ApiStep) : Bool :=
  match e.cmd with
  | .invitesGet _ => decide (e.tid = i)
  | _ => false

/-- Every session of `d` that began since program `i` asked for one has ended. -/
def NoNewSession (p : ApiPool) (i : Nat) (d : DogId) : Prop :=
  p.log.any (asks i d) = true ∧
    ∀ x ∈ (since (asks i d) p.log).filterMap starts, x.hasDog d → p.state.data.sessions.get x.id = none

/-- Every invite of `d` that was created since program `i` read its own is gone. -/
def NoNewInvite (p : ApiPool) (i : Nat) (d : DogId) : Prop :=
  p.log.any (reads i) = true ∧
    ∀ inv ∈ (since (reads i) p.log).filterMap opens, inv.hasDog d → p.state.data.invites.get inv.id = none

instance (p : ApiPool) (i : Nat) (d : DogId) : Decidable (NoNewSession p i d) := inferInstanceAs (Decidable (_ ∧ _))
instance (p : ApiPool) (i : Nat) (d : DogId) : Decidable (NoNewInvite p i d) := inferInstanceAs (Decidable (_ ∧ _))

/-- The two dogs of an invite about to be inserted, of a session about to be inserted. -/
def inviting : Call → Option (DogId × DogId)
  | .invitesInsert inv => some (inv.fromDog, inv.toDog)
  | _ => none

def joining : Call → Option (DogId × DogId)
  | .sessionsInsert x => some (x.dogA, x.dogB)
  | _ => none

/-- **Nothing new came between**: an invite is inserted when no session of its dogs has begun since its request asked,
a session when no invite of its dogs has been created since its request read the invite, or these are over. -/
def Undisturbed (p : ApiPool) (l : Nat × DateTime) : Prop :=
  (∀ ab ∈ (p.next l.1).bind inviting, NoNewSession p l.1 ab.1 ∧ NoNewSession p l.1 ab.2) ∧
    ∀ ab ∈ (p.next l.1).bind joining, NoNewInvite p l.1 ab.1 ∧ NoNewInvite p l.1 ab.2

instance (p : ApiPool) (l : Nat × DateTime) : Decidable (Undisturbed p l) := inferInstanceAs (Decidable (_ ∧ _))

/-- Someone was told that `d` has no session. -/
def ToldFree (d : DogId) (e : ApiStep) : Prop := ∃ i t, e = ⟨i, t, .sessionsForDog d, none⟩

/-- Program `i` was given the invite `inv` for `id`. -/
def ToldInvite (i : Nat) (id : InviteId) (inv : Invite) (e : ApiStep) : Prop :=
  ∃ t, e = ⟨i, t, .invitesGet id, some inv⟩

/-- **What the log says about the stores.**  A session of a dog that was free began since; an open invite of a dog of an
invite that was read is that invite, not closed by its reader, or was created since. -/
structure Engaging (p : ApiPool) : Prop where
  consistent : p.state.Consistent
  once : EngagedOnce p.state
  sessions : ∀ {d b}, After (ToldFree d) p.log b → ∀ {id x}, p.state.data.sessions.get id = some x → x.hasDog d →
    ∃ e ∈ b, ∃ y, starts e = some y ∧ y.id = id ∧ y.hasDog d
  invites : ∀ {i id inv b}, After (ToldInvite i id inv) p.log b → ∀ {d k x}, inv.hasDog d →
    p.state.data.invites.get k = some x → x.hasDog d →
      (k = id ∧ ∀ e ∈ own i p.log, e.cmd ≠ .invitesClose id) ∨ ∃ e ∈ b, ∃ y, opens e = some y ∧ y.id = k ∧ y.hasDog d

section

variable {st : AppState} {reqs : List Request} {p : ApiPool} {i : Nat} {t : DateTime} {c : Call}

/-- A session of `d` that is there after a call, seen from a moment when `d` was free. -/
theorem sessions_step (hJ : Engaging p) (hc : c.keepsParties) {d : DogId} {b : List ApiStep}
    (hb : After (ToldFree d) (p.log ++ [⟨i, t, c, (exec st t c p.state).1⟩]) b) {id : SessionId} {x : SessionRecord}
    (hx : (exec st t c p.state).2.data.sessions.get id = some x) (hd : x.hasDog d) :
    ∃ e ∈ b, ∃ y, starts e = some y ∧ y.id = id ∧ y.hasDog d := by
  rcases after_snoc.1 hb with ⟨rfl, i', t', heq⟩ | ⟨b', rfl, hb'⟩
  · -- the answer was given now, and nothing has changed
    obtain ⟨rfl, rfl, rfl, hr⟩ := Step.mk.inj heq
    exact absurd hd (hJ.consistent.sessions.not_hasDog (eq_of_heq hr) hx)
  · rcases sessions_after st t p.state hc hx with ⟨y, hy, hdogs⟩ | ⟨hs, hid⟩
    · obtain ⟨e, he, hrest⟩ := hJ.sessions hb' hy ((hdogs d).1 hd)
      exact ⟨e, List.mem_append_left _ he, hrest⟩
    · exact ⟨_, List.mem_append_right _ (List.mem_singleton_self _), x, hs, hid, hd⟩

/-- An open invite that is there after a call, seen from a moment when program `j` read an invite of its dog. -/
theorem invites_step (hJ : Engaging p) (hq : HandshakeNext i (own i p.log) c) {j : Nat} {id : InviteId} {inv : Invite}
    {b : List ApiStep} (hb : After (ToldInvite j id inv) (p.log ++ [⟨i, t, c, (exec st t c p.state).1⟩]) b)
    {d : DogId} {k : InviteId} {x : Invite} (hinv : inv.hasDog d)
    (hx : (exec st t c p.state).2.data.invites.get k = some x) (hd : x.hasDog d) :
    (k = id ∧ ∀ e ∈ own j (p.log ++ [⟨i, t, c, (exec st t c p.state).1⟩]), e.cmd ≠ .invitesClose id) ∨
      ∃ e ∈ b, ∃ y, opens e = some y ∧ y.id = k ∧ y.hasDog d := by
  rcases after_snoc.1 hb with ⟨rfl, t', heq⟩ | ⟨b', rfl, hb'⟩
  · -- the invite was read now: it is the only one of its dogs, and its reader has closed nothing
    obtain ⟨rfl, rfl, rfl, hr⟩ := Step.mk.inj heq
    have hget : p.state.data.invites.get id = some inv := eq_of_heq hr
    refine .inl ⟨hJ.consistent.invites.unique hx hd hget hinv, fun e he => ?_⟩
    rw [Interleave.own_snoc_self] at he
    rcases List.mem_append.1 he with he | he
    · exact hq e he id
    · rw [List.mem_singleton.1 he]
      exact fun h => by cases h
  · rcases invites_after st t p.state hx with hold | ⟨ho, hid⟩
    · rcases hJ.invites hb' hinv hold hd with ⟨rfl, hnone⟩ | ⟨e, he, hrest⟩
      · refine .inl ⟨rfl, fun e he hcmd => ?_⟩
        obtain ⟨hm, htid⟩ := Interleave.mem_own.1 he
        rcases List.mem_append.1 hm with hm | hm
        · exact hnone e (Interleave.mem_own.2 ⟨hm, htid⟩) hcmd
        · -- a close of this invite would have removed it
          rw [List.mem_singleton.1 hm] at hcmd
          cases hcmd
          have hgone := exec_invites st t (.invitesClose k) p.state k
          simp only [if_true] at hgone
          rw [hgone] at hx
          cases hx
      · exact .inr ⟨e, List.mem_append_left _ he, hrest⟩
    · exact .inr ⟨_, List.mem_append_right _ (List.mem_singleton_self _), x, ho, hid, hd⟩

/-- Where nothing new came between, a dog that was free has no session. -/
theorem free_of_noNewSession (hJ : Engaging p) (hf : FoundFree i (own i p.log)) {d : DogId} (hn : NoNewSession p i d)
    {id : SessionId} {x : SessionRecord} (hx : p.state.data.sessions.get id = some x) : ¬ x.hasDog d := by
  intro hd
  have hafter : After (ToldFree d) p.log (since (asks i d) p.log) := by
    refine (after_since hn.1).mono (fun e he ha => ?_)
    obtain ⟨j, t', c', r⟩ := e
    cases c' with
    | sessionsForDog d' =>
      obtain ⟨hdd, hj⟩ := Bool.and_eq_true_iff.1 ha
      obtain rfl : d' = d := of_decide_eq_true hdd
      obtain rfl : j = i := of_decide_eq_true hj
      have hr : r = none := hf t' d' r (Interleave.mem_own.2 ⟨he, rfl⟩)
      exact ⟨j, t', by rw [hr]⟩
    | _ => cases ha
  obtain ⟨e, he, y, hs, hid, hy⟩ := hJ.sessions hafter hx hd
  have hnone := hn.2 y (List.mem_filterMap.2 ⟨e, he, hs⟩) hy
  rw [hid, hx] at hnone
  cases hnone

/-- Where nothing new came between, no open invite has a dog of the invite that was read and closed. -/
theorem free_of_noNewInvite (hJ : Engaging p) {y : SessionRecord} (hp : AcceptPast i (own i p.log) y) {d : DogId}
    (hd : y.hasDog d) (hn : NoNewInvite p i d) {k : InviteId} {x : Invite} (hx : p.state.data.invites.get k = some x) :
    ¬ x.hasDog d := by
  intro hxd
  obtain ⟨id, inv, -, ⟨t₂, r₂, hclose⟩, hread, -, -, hA, hB⟩ := hp
  have hinv : inv.hasDog d := by
    rcases hd with h | h
    · exact .inl (hA ▸ h)
    · exact .inr (hB ▸ h)
  have hafter : After (ToldInvite i id inv) p.log (since (reads i) p.log) := by
    refine (after_since hn.1).mono (fun e he ha => ?_)
    unfold reads at ha
    split at ha
    · rename_i id' hcmd
      exact hread e (Interleave.mem_own.2 ⟨he, of_decide_eq_true ha⟩) id' hcmd
    · cases ha
  rcases hJ.invites hafter hinv hx hxd with ⟨-, hnone⟩ | ⟨e, he, z, ho, hid, hz⟩
  · exact hnone _ hclose rfl
  · have hgone := hn.2 z (List.mem_filterMap.2 ⟨e, he, ho⟩) hz
    rw [hid, hx] at hgone
    cases hgone

theorem engagedOnce_step (hJ : Engaging p) {q : Request} (hm : q.makes c) (hq : HandshakeNext i (own i p.log) c)
    (hcond : ∀ ab ∈ inviting c, NoNewSession p i ab.1 ∧ NoNewSession p i ab.2)
    (hcond' : ∀ ab ∈ joining c, NoNewInvite p i ab.1 ∧ NoNewInvite p i ab.2) :
    EngagedOnce (exec st t c p.state).2 := by
  intro k inv id x d hk hid hx hxd
  rcases invites_after st t p.state hk with hold | ⟨ho, -⟩
  · rcases sessions_after st t p.state (Request.makes_keepsParties hm) hx with ⟨y, hy, hdogs⟩ | ⟨hs, -⟩
    · exact hJ.once _ _ _ _ _ hold hid hy ((hdogs d).1 hxd)
    · cases c with
      | sessionsInsert y =>
        have hyx : y = x := by
          unfold Call.started at hs
          split at hs
          · rename_i h _; cases h; exact Option.some.inj hs
          · cases hs
        subst hyx
        obtain ⟨ha, hb⟩ := hcond' (y.dogA, y.dogB) rfl
        have hn : NoNewInvite p i d := by
          rcases hxd with h | h
          · exact h ▸ ha
          · exact h ▸ hb
        exact free_of_noNewInvite hJ hq hxd hn hold hid
      | _ => cases hs
  · cases c with
    | invitesInsert inv' =>
      have hii : inv' = inv := by
        unfold Call.opened at ho
        split at ho
        · rename_i h _; cases h; exact Option.some.inj ho
        · cases ho
      subst hii
      obtain ⟨ha, hb⟩ := hcond (inv'.fromDog, inv'.toDog) rfl
      have hn : NoNewSession p i d := by
        rcases hid with h | h
        · exact h ▸ ha
        · exact h ▸ hb
      have hx' : p.state.data.sessions.get id = some x := by
        rw [exec_sessions] at hx
        exact hx
      exact free_of_noNewSession hJ hq hn hx' hxd
    | _ => cases ho

theorem engaging_step (hJ : Engaging p) {k : c.Resp → Prog Call.Resp Reply} (hi : p.threads[i]? = some (.call c k))
    (hq : RequestsNext reqs i (own i p.log) c) (hcond : Undisturbed p (i, t)) :
    Engaging ⟨(exec st t c p.state).2, p.threads.set i (k (exec st t c p.state).1),
      p.log ++ [⟨i, t, c, (exec st t c p.state).1⟩]⟩ := by
  obtain ⟨q, -, hm, hnext⟩ := hq
  unfold Undisturbed at hcond
  rw [Pool.next_eq hi] at hcond
  refine ⟨exec_consistent st t (Request.makes_keepsParties hm) hJ.consistent,
    engagedOnce_step hJ hm hnext hcond.1 hcond.2, fun hb => ?_, fun hb => ?_⟩
  · exact sessions_step hJ (Request.makes_keepsParties hm) hb
  · exact invites_step hJ hnext hb

end

/-- **Undisturbed, no dog is ever engaged twice**: after every schedule from empty stores no dog is a party of an open
invite and of a session. -/
theorem engaged_once (st : AppState) (w : World) (reqs : List Request) (sched : List (Nat × DateTime))
    (hw : w.data = {})
    (hm : (Pool.start w (reqs.map (handle st)) : ApiPool).Meets (exec st) Undisturbed sched) :
    EngagedOnce ((Pool.start w (reqs.map (handle st)) : ApiPool).run (exec st) sched).state := by
  have h0 : Engaging (Pool.start w (reqs.map (handle st)) : ApiPool) := by
    refine ⟨⟨?_, ?_⟩, ?_, ?_, ?_⟩
    · show w.data.invites.Consistent
      rw [hw]; exact .empty
    · show w.data.sessions.Consistent
      rw [hw]; exact .empty
    · intro k inv id x d hk
      rw [Pool.start, hw] at hk
      cases hk
    · rintro d b ⟨a, e, h, -⟩
      exact absurd h (by simp [Pool.start])
    · rintro i id inv b ⟨a, e, h, -⟩
      exact absurd h (by simp [Pool.start])
  obtain ⟨-, hJ⟩ := Pool.run_inv (fun _ _ _ _ _ hJ _ hi hq hc => engaging_step hJ hi hq hc) sched _
    (requests_follow st reqs w) h0 hm
  exact hJ.once

/-- Dogs 1 and 2 of a fresh device-api: dog 1 calls, dog 2 accepts, dog 1 calls again. -/
def twoDogs : List Request :=
  [.devBootstrapBond ⟨1⟩ ⟨2⟩ 1, stepOn 1 noon, stepOn 2 noon, callTo 1 2, .acceptInvite (device 2) 0 (jsonBody 2),
    callTo 1 2]

/-- One after another: dog 2 accepts before dog 1 calls again. -/
def inTurn : List Nat :=
  List.replicate 4 0 ++ List.replicate 4 1 ++ List.replicate 4 2 ++ List.replicate 20 3 ++ List.replicate 12 4 ++
    List.replicate 20 5

theorem engaged_once_inTurn : EngagedOnce ((Pool.start fresh (twoDogs.map (handle bench)) : ApiPool).run (exec bench)
    (inTurn.map (fun i => (i, noon)))).state :=
  engaged_once bench fresh twoDogs (inTurn.map (fun i => (i, noon))) rfl (by decide +kernel)

/-- Dog 2's accept closes the invite; dog 1's second call passes all its checks; the session begins, and then the second
invite is inserted. -/
def crossed : List Nat :=
  List.replicate 4 0 ++ List.replicate 4 1 ++ List.replicate 4 2 ++ List.replicate 20 3 ++ List.replicate 7 4 ++
    List.replicate 14 5 ++ [4, 5]

/-- **A dog is engaged twice.** -/
theorem engaged_twice : ¬ ∀ (st : AppState) (w : World) (reqs : List Request) (sched : List (Nat × DateTime)),
    w.data = {} → EngagedOnce ((Pool.start w (reqs.map (handle st)) : ApiPool).run (exec st) sched).state := by
  intro h
  have := h bench fresh twoDogs (crossed.map (fun i => (i, noon))) rfl
  revert this
  decide +kernel

end CanisLink
