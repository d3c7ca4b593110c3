import CanisLink.Handshake
/-!
# Resolve — an invite is resolved at most once

A session is inserted for an invite, a cancel takes it out, or it expires.  `accept_invite_handler` reads the invite,
decides, closes it and inserts the session whatever the close found; while every such close finds its invite, at most
one of the three happens to an invite, in every interleaving.
-/
namespace CanisLink

open Interleave (Prog Pool Step own countP_le_of_own countP_add_le)

def accepts (reqs : List Request) (i : Nat) : Bool := (reqs[i]?).any (·.isAccept)
def cancels (reqs : List Request) (i : Nat) : Bool := (reqs[i]?).any (·.isCancel)

/-- A session of the invite is inserted. -/
def begins (id : InviteId) : ApiStep → Bool
  | ⟨_, _, .sessionsInsert x, .ok _⟩ => decide (x.inviteId = id)
  | _ => false

/-- A cancel removes the invite, or it expires. -/
def drops (reqs : List Request) (id : InviteId) : ApiStep → Bool
  | ⟨i, _, .invitesClose id', some _⟩ => decide (id' = id) && cancels reqs i
  | ⟨_, _, .expireDue _, gone⟩ => gone.any (fun inv => decide (inv.id = id))
  | _ => false

/-- One of the three resolutions. -/
def resolves (reqs : List Request) (id : InviteId) (e : ApiStep) : Bool := begins id e || drops reqs id e

/-- An accept removes the invite. -/
def takes (reqs : List Request) (id : InviteId) : ApiStep → Bool
  | ⟨i, _, .invitesClose id', some _⟩ => decide (id' = id) && accepts reqs i
  | _ => false

/-- The invite leaves the store. -/
def removes (id : InviteId) : ApiStep → Bool
  | ⟨_, _, .invitesClose id', some _⟩ => decide (id' = id)
  | ⟨_, _, .expireDue _, gone⟩ => gone.any (fun inv => decide (inv.id = id))
  | _ => false

/-- The invite a call closes. -/
def closing : Call → Option InviteId
  | .invitesClose id => some id
  | _ => none

/-- **Every close of an accept finds its invite still in the store.** -/
def ClosesOpen (reqs : List Request) (p : ApiPool) (l : Nat × DateTime) : Prop :=
  accepts reqs l.1 = true → ∀ id ∈ (p.next l.1).bind closing, p.state.data.invites.get id ≠ none

instance (reqs : List Request) (p : ApiPool) (l : Nat × DateTime) : Decidable (ClosesOpen reqs p l) :=
  inferInstanceAs (Decidable (_ → _))

/-- An invite is removed once at most, and a request that inserts its session has removed it before. -/
structure Resolving (reqs : List Request) (p : ApiPool) : Prop where
  consistent : p.state.Consistent
  got : ∀ {i t id inv}, (⟨i, t, .invitesGet id, some inv⟩ : ApiStep) ∈ p.log → inv.id = id
  closed : ∀ {i t id r}, (⟨i, t, .invitesClose id, r⟩ : ApiStep) ∈ p.log → accepts reqs i = true → r ≠ none
  once : ∀ id, p.log.countP (removes id) + (if (p.state.data.invites.get id).isSome then 1 else 0) ≤ 1
  begun : ∀ i id, (own i p.log).countP (begins id) ≤ (own i p.log).countP (takes reqs id)

section

variable {st : AppState} {reqs : List Request}

/-- **One call**: an invite that leaves the store was in it, and none comes back. -/
theorem removes_step {w : World} (hw : w.Consistent) (i : Nat) (t : DateTime) {c : Call}
    (hc : ∀ inv, c ≠ .invitesInsert inv) (id : InviteId) :
    (if removes id ⟨i, t, c, (exec st t c w).1⟩ then 1 else 0) +
      (if ((exec st t c w).2.data.invites.get id).isSome then 1 else 0) ≤
        if (w.data.invites.get id).isSome then 1 else 0 := by
  rw [exec_invites]
  cases c with
  | invitesInsert inv => exact absurd rfl (hc inv)
  | invitesClose id' =>
    have hr : (exec st t (.invitesClose id') w).1 = w.data.invites.get id' := InviteStore.close_fst _ _
    rw [hr]
    by_cases h : id = id'
    · subst h
      cases hg : w.data.invites.get id with
      | none => simp [removes]
      | some inv => simp [removes]
    · have h' : id' ≠ id := fun e => h e.symm
      cases hg : w.data.invites.get id' with
      | none => simp [removes, h]
      | some inv => simp [removes, h, h']
  | expireDue now =>
    have hr : (exec st t (.expireDue now) w).1 = (w.data.invites.expireDue st.order now).1 := rfl
    rw [hr]
    by_cases hx : removes id ⟨i, t, .expireDue now, (w.data.invites.expireDue st.order now).1⟩ = true
    · simp only [removes, List.any_eq_true, decide_eq_true_eq] at hx
      obtain ⟨inv, hm, hid⟩ := hx
      obtain ⟨k, hk, hdue⟩ := (InviteStore.mem_expireDue _ _ _ _).1 hm
      have hkid : k = id := by rw [← hw.invites.keyed hk, hid]
      rw [← hkid, hk]
      have hexp : isExpired inv now = true := by simpa [isExpired] using hdue
      simp only [Option.filter_some, hexp, Bool.not_true, Bool.false_eq_true, if_false, Option.isSome_none,
        Option.isSome_some, if_true]
      split <;> omega
    · rw [if_neg hx]
      cases w.data.invites.get id with
      | none => simp
      | some inv => simp only [Option.isSome_some, if_true]; split <;> omega
  | _ => simp only [removes, Bool.false_eq_true, if_false]; omega

theorem cancels_of_accepts {i : Nat} (h : accepts reqs i = true) : cancels reqs i = false := by
  unfold accepts at h
  unfold cancels
  cases hr : reqs[i]? with
  | none => rfl
  | some r =>
    rw [hr] at h
    cases r with
    | acceptInvite => rfl
    | _ => cases h

theorem countP_pos_of_mem {P : ApiStep → Bool} {log : List ApiStep} {e : ApiStep} (he : e ∈ log) (hp : P e = true) :
    1 ≤ log.countP P :=
  List.countP_pos_iff.2 ⟨e, he, hp⟩

/-- A request inserts the session of an invite it removed itself, and inserts one session. -/
theorem begun_step {p : ApiPool} (hJ : Resolving reqs p) {i : Nat} {t : DateTime} {c : Call}
    (hq : RequestsNext reqs i (own i p.log) c) (r : c.Resp) (id : InviteId) :
    (own i (p.log ++ [⟨i, t, c, r⟩])).countP (begins id) ≤
      (own i (p.log ++ [⟨i, t, c, r⟩])).countP (takes reqs id) := by
  rw [Interleave.own_snoc_self, List.countP_append, List.countP_append]
  have hi := hJ.begun i id
  by_cases hb : begins id ⟨i, t, c, r⟩ = true
  · obtain ⟨q, hreq, hmakes, hnext⟩ := hq
    unfold begins at hb
    split at hb
    · rename_i i' t' x u heq
      obtain ⟨rfl, rfl, rfl, hru⟩ := Step.mk.inj heq
      have hx : x.inviteId = id := of_decide_eq_true hb
      obtain ⟨id', inv, ⟨t₁, hget⟩, ⟨t₂, r₂, hclose⟩, -, hnone, hinv, -, -⟩ := hnext
      have hacc : accepts reqs i = true := by
        rw [accepts, hreq]
        exact hmakes
      have hid : id' = id := by
        rw [← hJ.got (Interleave.mem_own.1 hget).1, ← hinv, hx]
      have hsome := hJ.closed (Interleave.mem_own.1 hclose).1 hacc
      have hzero : (own i p.log).countP (begins id) = 0 := by
        refine List.countP_eq_zero.2 (fun e he hbe => ?_)
        unfold begins at hbe
        split at hbe
        · exact hnone _ he _ rfl
        · cases hbe
      have hone : 1 ≤ (own i p.log).countP (takes reqs id) := by
        refine countP_pos_of_mem hclose ?_
        obtain ⟨inv', rfl⟩ := Option.ne_none_iff_exists'.1 hsome
        simp [takes, hid, hacc]
      have hle : List.countP (begins id) [⟨i, t, .sessionsInsert x, r⟩] ≤ 1 := List.countP_le_length
      omega
    · cases hb
  · have hz : List.countP (begins id) [⟨i, t, c, r⟩] = 0 := by
      rw [List.countP_singleton, if_neg hb]
    omega

theorem resolving_step (hreqs : ∀ r ∈ reqs, r.isCreate = false) {p : ApiPool} (hJ : Resolving reqs p) {i : Nat}
    {t : DateTime} {c : Call} {k : c.Resp → Prog Call.Resp Reply} (hi : p.threads[i]? = some (.call c k))
    (hq : RequestsNext reqs i (own i p.log) c) (hcond : ClosesOpen reqs p (i, t)) :
    Resolving reqs ⟨(exec st t c p.state).2, p.threads.set i (k (exec st t c p.state).1),
      p.log ++ [⟨i, t, c, (exec st t c p.state).1⟩]⟩ := by
  have hq' := hq
  obtain ⟨q, hreq, hmakes, -⟩ := hq'
  refine ⟨exec_consistent st t (Request.makes_keepsParties hmakes) hJ.consistent, ?_, ?_, ?_, ?_⟩
  · intro i' t' id inv hm
    rcases List.mem_append.1 hm with hm | hm
    · exact hJ.got hm
    · have heq := List.mem_singleton.1 hm
      obtain ⟨rfl, rfl, rfl, hr⟩ := Step.mk.inj heq
      exact hJ.consistent.invites.keyed (eq_of_heq hr).symm
  · intro i' t' id r hm hacc
    rcases List.mem_append.1 hm with hm | hm
    · exact hJ.closed hm hacc
    · have heq := List.mem_singleton.1 hm
      obtain ⟨rfl, rfl, rfl, hr⟩ := Step.mk.inj heq
      rw [eq_of_heq hr]
      show (p.state.data.invites.close id).1 ≠ none
      rw [InviteStore.close_fst]
      exact hcond hacc id (by rw [Pool.next_eq hi]; rfl)
  · intro id
    have hins : ∀ inv, c ≠ .invitesInsert inv := by
      rintro inv rfl
      exact absurd hmakes (by simp [Request.makes, hreqs q (List.mem_of_getElem? hreq)])
    have hs := @removes_step st p.state hJ.consistent i t c hins id
    have ho := hJ.once id
    rw [List.countP_append, List.countP_singleton]
    show _ + _ + (if ((exec st t c p.state).2.data.invites.get id).isSome then 1 else 0) ≤ 1
    omega
  · intro i' id
    by_cases h : i = i'
    · subst h
      exact begun_step hJ hq _ id
    · show (own i' (p.log ++ _)).countP _ ≤ (own i' (p.log ++ _)).countP _
      rw [Interleave.own_snoc_ne h]
      exact hJ.begun i' id

/-- **An invite is resolved at most once** while every accept closes an invite that is still open: a session of it is
inserted, or a cancel removes it, or it expires. -/
theorem resolved_once (st : AppState) (w : World) (reqs : List Request) (sched : List (Nat × DateTime))
    (hw : w.Consistent) (hreqs : ∀ r ∈ reqs, r.isCreate = false)
    (hm : (Pool.start w (reqs.map (handle st)) : ApiPool).Meets (exec st) (ClosesOpen reqs) sched) (id : InviteId) :
    ((Pool.start w (reqs.map (handle st)) : ApiPool).run (exec st) sched).log.countP (resolves reqs id) ≤ 1 := by
  have h0 : Resolving reqs (Pool.start w (reqs.map (handle st)) : ApiPool) := by
    refine ⟨hw, fun h => absurd h List.not_mem_nil, fun h => absurd h List.not_mem_nil, fun id => ?_,
      fun i id => Nat.le_refl _⟩
    show 0 + (if (w.data.invites.get id).isSome then 1 else 0) ≤ 1
    split <;> omega
  obtain ⟨-, hJ⟩ := Pool.run_inv (fun _ _ _ _ _ hJ _ hi hq hc => resolving_step hreqs hJ hi hq hc) sched _
    (requests_follow st reqs w) h0 hm
  generalize (Pool.start w (reqs.map (handle st)) : ApiPool).run (exec st) sched = p at hJ
  have hbegun : p.log.countP (begins id) ≤ p.log.countP (takes reqs id) := countP_le_of_own (fun i => hJ.begun i id)
  have hremoved : p.log.countP (takes reqs id) + p.log.countP (drops reqs id) ≤ p.log.countP (removes id) := by
    refine countP_add_le (fun e he => ?_) (fun e he => ?_) (fun e he => ?_) _
    · unfold takes at he
      split at he
      · have hc := cancels_of_accepts (Bool.and_eq_true_iff.1 he).2
        simp only [drops, hc, Bool.and_false]
      · cases he
    · unfold takes at he
      split at he
      · exact (Bool.and_eq_true_iff.1 he).1
      · cases he
    · unfold drops at he
      split at he
      · exact (Bool.and_eq_true_iff.1 he).1
      · exact he
      · cases he
  have hsplit : p.log.countP (resolves reqs id) ≤ p.log.countP (begins id) + p.log.countP (drops reqs id) :=
    Interleave.countP_or_le _ _ _
  have := hJ.once id
  omega

end

/-- Dog 2 accepts the call of dog 1, and then dog 1 cancels it. -/
theorem resolved_once_accept :
    ((Pool.start ringing ([.acceptInvite (device 2) 0 (jsonBody 2), .cancelInvite (device 1) 0 (jsonBody 1)].map
      (handle bench)) : ApiPool).run (exec bench) ([0, 0, 0, 0, 0, 0, 0, 0, 1].map (fun i => (i, noon)))).log.countP
      (resolves [.acceptInvite (device 2) 0 (jsonBody 2), .cancelInvite (device 1) 0 (jsonBody 1)] ⟨0⟩) ≤ 1 :=
  resolved_once bench ringing [.acceptInvite (device 2) 0 (jsonBody 2), .cancelInvite (device 1) 0 (jsonBody 1)]
    ([0, 0, 0, 0, 0, 0, 0, 0, 1].map (fun i => (i, noon))) ringing_consistent (by decide) (by decide +kernel) ⟨0⟩

/-- **An invite is cancelled and accepted**: dog 2 has read the invite when dog 1 cancels it, and goes on. -/
theorem resolved_twice : ¬ ∀ (st : AppState) (w : World) (reqs : List Request) (sched : List (Nat × DateTime))
    (id : InviteId), w.Consistent → (∀ r ∈ reqs, r.isCreate = false) →
    ((Pool.start w (reqs.map (handle st)) : ApiPool).run (exec st) sched).log.countP (resolves reqs id) ≤ 1 := by
  intro h
  have := h bench ringing [.acceptInvite (device 2) 0 (jsonBody 2), .cancelInvite (device 1) 0 (jsonBody 1)]
    ([0, 0, 0, 0, 0, 0, 1, 1, 0, 0].map (fun i => (i, noon))) ⟨0⟩ ringing_consistent (by decide)
  revert this
  decide +kernel

end CanisLink
