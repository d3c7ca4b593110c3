import CanisLink.Machine
import CanisLink.Signaling
/-!
# OfferArrives — when the offer reaches the answerer

The room keeps no history: an offer that is passed on before the answerer is subscribed is never heard by it.  Until it
is passed on it waits in the offerer's socket; from then on it is on its way to the answerer, or it is nowhere.  So the
offer gets through exactly when the answerer is subscribed first, and no run goes on for ever: `work` bounds the steps
that are left.
-/
namespace CanisLink
namespace Signaling

open Machine (Always Meets Ends Quiet)

variable (call : Rendezvous)

/-- Both peers are in the room. -/
def BothIn (s : State) : Prop := ∀ r, (s.queue call r).isSome = true

/-- The relay has passed the offer on. -/
def Relayed (s : State) : Prop := (s.peer .offerer).phase = .offered ∧ call.offerMsg ∉ (s.peer .offerer).up

/-- The answerer has read the offer. -/
def Delivered (s : State) : Prop := call.offerMsg ∈ (s.peer .answerer).heard

/-- The room holds the offer for the answerer, or it has come further. -/
def Arriving (s : State) : Prop :=
  (∃ q, s.queue call .answerer = some q ∧ call.offerMsg ∈ q) ∨ call.offerMsg ∈ (s.peer .answerer).down ∨
    Delivered call s

/-- The offer is with the offerer or on its way to the answerer. -/
def Coming (s : State) : Prop := Relayed call s → Arriving call s

/-- What holds of every state of a run. -/
structure Inv (s : State) : Prop where
  outside : ∀ {r}, s.queue call r = none → (s.peer r).down = [] ∧ (s.peer r).heard = []
  waits : s.queue call .offerer = none → ¬ Relayed call s
  answerer_up : call.offerMsg ∉ (s.peer .answerer).up
  answerer_phase : (s.peer .answerer).phase ≠ .offered

/-! ## What a reader leaves -/

section

variable {call} (r : Role) (p : Peer) (m : SignalMsg)

@[simp] theorem handle_phase : (handle call r p m).phase = p.phase := by
  rcases handle_cases r p m with ⟨remote, -, h⟩ | ⟨_, _, _, -, h⟩
  · rw [h]
  · rw [h]
    rfl

@[simp] theorem handle_down : (handle call r p m).down = p.down := by
  rcases handle_cases r p m with ⟨remote, -, h⟩ | ⟨_, _, _, -, h⟩
  · rw [h]
  · rw [h]
    rfl

@[simp] theorem handle_heard : (handle call r p m).heard = p.heard := by
  rcases handle_cases r p m with ⟨remote, -, h⟩ | ⟨_, _, _, -, h⟩
  · rw [h]
  · rw [h]
    rfl

theorem offer_mem_send {m : SignalMsg} (hm : call.offerMsg ≠ m) :
    call.offerMsg ∈ (p.send m).up ↔ call.offerMsg ∈ p.up := by
  unfold Peer.send
  rw [List.mem_append, List.mem_singleton]
  exact or_iff_left hm

@[simp] theorem offer_mem_handle : call.offerMsg ∈ (handle call r p m).up ↔ call.offerMsg ∈ p.up := by
  rcases handle_cases r p m with ⟨remote, -, h⟩ | ⟨_, _, _, -, h⟩
  · rw [h]
  · rw [h]
    exact offer_mem_send _ (fun h => by cases h)

end

variable {call} {s s' : State} {a : Action}

/-! ## The offer before it is passed on -/

/-- **Only the relay passes the offer on**, and nothing takes that back. -/
theorem relayed_step (h : Step call s a s') : (Relayed call s' ↔ Relayed call s) ∨
    ∃ rest, a = .relay .offerer ∧ (s.peer .offerer).up = call.offerMsg :: rest := by
  cases h with
  | @connect r hphase =>
    refine .inl ?_
    cases r with
    | offerer => simp [Relayed, hphase]
    | answerer => simp [Relayed]
  | subscribe => exact .inl Iff.rfl
  | @join r hphase =>
    refine .inl ?_
    cases r with
    | offerer => simp [Relayed, Peer.send, hphase]
    | answerer => simp [Relayed]
  | describe hphase => exact .inl (by simp [Relayed, hphase])
  | offer hphase => exact .inl (by simp [Relayed, Peer.send, hphase])
  | @candidate r c rest hc =>
    refine .inl ?_
    cases r with
    | offerer =>
      refine and_congr Iff.rfl (not_congr ?_)
      exact offer_mem_send (s.peer .offerer) (fun h => by cases h)
    | answerer => simp [Relayed]
  | @relay r m rest q hup =>
    cases r with
    | answerer => exact .inl (by simp [Relayed])
    | offerer =>
      by_cases hm : m = call.offerMsg
      · exact .inr ⟨rest, rfl, hm ▸ hup⟩
      · exact .inl (by simp [Relayed, hup, Ne.symm hm])
  | @forward r m rest room hq =>
    refine .inl ?_
    cases r with
    | offerer => simp [Relayed]
    | answerer => simp [Relayed]
  | @receive r m rest hdown =>
    refine .inl ?_
    cases r with
    | offerer => simp [Relayed]
    | answerer => simp [Relayed]

/-! ## The offer on its way -/

/-- **Nothing but the relay of the offer brings it nearer to the answerer**, and nothing takes it away. -/
theorem arriving_step (h : Step call s a s') : (Arriving call s' ↔ Arriving call s) ∨
    ∃ r rest, a = .relay r ∧ (s.peer r).up = call.offerMsg :: rest := by
  cases h with
  | @connect r hphase =>
    refine .inl ?_
    cases r with
    | offerer => simp [Arriving, Delivered]
    | answerer => simp [Arriving, Delivered]
  | @subscribe r hin hout =>
    refine .inl ?_
    cases r with
    | offerer => simp [Arriving, Delivered]
    | answerer => simp [Arriving, Delivered, hout]
  | @join r hphase =>
    refine .inl ?_
    cases r with
    | offerer => simp [Arriving, Delivered]
    | answerer => simp [Arriving, Delivered, Peer.send]
  | describe hphase => exact .inl (by simp [Arriving, Delivered])
  | offer hphase => exact .inl (by simp [Arriving, Delivered])
  | @candidate r c rest hc =>
    refine .inl ?_
    cases r with
    | offerer => simp [Arriving, Delivered]
    | answerer => simp [Arriving, Delivered, Peer.send]
  | @relay r m rest q hup =>
    by_cases hm : m = call.offerMsg
    · exact .inr ⟨r, rest, rfl, hm ▸ hup⟩
    · refine .inl (or_congr ?_ (or_congr ?_ ?_))
      · rw [queue_relay]
        cases s.queue call .answerer with
        | none => simp
        | some q => simp [Ne.symm hm]
      · cases r with
        | offerer => simp
        | answerer => simp
      · cases r with
        | offerer => simp [Delivered]
        | answerer => simp [Delivered]
  | @forward r m rest room hq hroom =>
    refine .inl ?_
    cases r with
    | offerer => simp [Arriving, Delivered, queue_setRoom, hroom]
    | answerer =>
      simp only [Arriving, Delivered, queue_setRoom, hroom, peer_setRoom, peer_setPeer, if_true, hq, Option.some.injEq,
        exists_eq_left', List.mem_cons, List.mem_append, List.not_mem_nil, or_false]
      tauto
  | @receive r m rest hdown =>
    refine .inl ?_
    cases r with
    | offerer => simp [Arriving, Delivered]
    | answerer =>
      refine or_congr Iff.rfl ?_
      simp only [Delivered, peer_setPeer, if_true, handle_down, handle_heard, hdown, List.mem_cons, List.mem_append,
        List.not_mem_nil, or_false]
      tauto

/-- When it is relayed, it comes to the answerer if it is in the room. -/
theorem arriving_relay {r : Role} {rest : List SignalMsg} (h : Step call s (.relay r) s')
    (hup : (s.peer r).up = call.offerMsg :: rest) :
    Arriving call s' ↔ Arriving call s ∨ (s.queue call .answerer).isSome = true := by
  cases h with
  | @relay _ m rest' q hup' =>
    obtain ⟨rfl, rfl⟩ := List.cons.inj (hup.symm.trans hup')
    have hrest : (((s.setPeer r { s.peer r with up := rest }).setRoom call
        ((s.roomTx call.session).send call.offerMsg)).peer .answerer).down = (s.peer .answerer).down ∧
        (((s.setPeer r { s.peer r with up := rest }).setRoom call
        ((s.roomTx call.session).send call.offerMsg)).peer .answerer).heard = (s.peer .answerer).heard := by
      cases r with
      | offerer => simp
      | answerer => simp
    unfold Arriving Delivered
    rw [hrest.1, hrest.2, queue_relay]
    cases s.queue call .answerer with
    | none => simp
    | some q => simp

/-! ## The invariant -/

theorem queue_step (h : Step call s a s') {j : Role} (hj : (s.queue call j).isSome = true) :
    (s'.queue call j).isSome = true := by
  cases h with
  | @subscribe r hin hout =>
    rw [queue_enter]
    split
    · rfl
    · exact hj
  | relay =>
    rw [queue_relay, Option.isSome_map]
    exact hj
  | @forward r m rest room hq hroom =>
    rw [queue_setRoom, hroom]
    split
    · rfl
    · exact hj
  | _ => exact hj

theorem queue_back (h : Step call s a s') {j : Role} (ha : a ≠ .subscribe j) (hj : (s'.queue call j).isSome = true) :
    (s.queue call j).isSome = true := by
  cases h with
  | @subscribe r hin hout =>
    rw [queue_enter, if_neg (fun hr => ha (by rw [hr]))] at hj
    exact hj
  | relay =>
    rw [queue_relay, Option.isSome_map] at hj
    exact hj
  | @forward r m rest room hq hroom =>
    rw [queue_setRoom, hroom] at hj
    split at hj
    · rename_i hr
      rw [hr, hq]
      rfl
    · exact hj
  | _ => exact hj

theorem queue_none (h : Step call s a s') {j : Role} (hj : s'.queue call j = none) : s.queue call j = none := by
  by_contra hne
  have hin := queue_step h (Option.isSome_iff_ne_none.2 hne)
  rw [hj] at hin
  cases hin

theorem outside_step (h : Step call s a s') {j : Role} (hq : s.queue call j = none)
    (hj : (s.peer j).down = [] ∧ (s.peer j).heard = []) : (s'.peer j).down = [] ∧ (s'.peer j).heard = [] := by
  have hset : ∀ {r : Role} {p : Peer}, (r = j → p.down = [] ∧ p.heard = []) →
      ((s.setPeer r p).peer j).down = [] ∧ ((s.setPeer r p).peer j).heard = [] :=
    peer_setPeer_of (P := fun p => p.down = [] ∧ p.heard = []) hj
  cases h with
  | subscribe => exact hj
  | forward hq' => exact hset (fun hr => by subst hr; cases hq.symm.trans hq')
  | receive hdown => exact hset (fun hr => by subst hr; cases hj.1.symm.trans hdown)
  | _ => exact hset (fun hr => by subst hr; exact hj)

theorem answerer_up_step (h : Step call s a s') (hm : call.offerMsg ∉ (s.peer .answerer).up) :
    call.offerMsg ∉ (s'.peer .answerer).up := by
  have hset : ∀ {r : Role} {p : Peer}, (r = .answerer → (call.offerMsg ∈ p.up → call.offerMsg ∈ (s.peer r).up)) →
      call.offerMsg ∉ ((s.setPeer r p).peer .answerer).up := fun hp =>
    peer_setPeer_of (P := fun p => call.offerMsg ∉ p.up) hm (fun hr h => hm (hr ▸ hp hr h))
  cases h with
  | subscribe => exact hm
  | join => exact hset (fun _ h => (offer_mem_send _ (fun h => by cases h)).1 h)
  | candidate => exact hset (fun _ h => (offer_mem_send _ (fun h => by cases h)).1 h)
  | offer => exact hset (fun h => by cases h)
  | relay hup => exact hset (fun _ h => hup ▸ List.mem_cons_of_mem _ h)
  | receive =>
    refine hset (fun _ h => ?_)
    rw [offer_mem_handle] at h
    exact h
  | _ => exact hset (fun _ h => h)

theorem answerer_phase_step (h : Step call s a s') (hp : (s.peer .answerer).phase ≠ .offered) :
    (s'.peer .answerer).phase ≠ .offered := by
  have hset : ∀ {r : Role} {p : Peer}, (r = .answerer → p.phase ≠ .offered) →
      ((s.setPeer r p).peer .answerer).phase ≠ .offered := peer_setPeer_of (P := fun p => p.phase ≠ .offered) hp
  cases h with
  | subscribe => exact hp
  | connect => exact hset (fun _ h => by cases h)
  | join => exact hset (fun _ h => by cases h)
  | describe => exact hset (fun h => by cases h)
  | offer => exact hset (fun h => by cases h)
  | receive => exact hset (fun hr => by rw [handle_phase]; exact hr ▸ hp)
  | _ => exact hset (fun hr => hr ▸ hp)

theorem Inv.step (hi : Inv call s) (h : Step call s a s') : Inv call s' where
  outside hr := outside_step h (queue_none h hr) (hi.outside (queue_none h hr))
  waits hr := by
    have hq := queue_none h hr
    rcases relayed_step h with hiff | ⟨rest, rfl, -⟩
    · exact fun hrel => hi.waits hq (hiff.1 hrel)
    · cases h with
      | relay _ hin => cases hq.symm.trans hin
  answerer_up := answerer_up_step h hi.answerer_up
  answerer_phase := answerer_phase_step h hi.answerer_phase

theorem Inv.offerer_in (hi : Inv call s) (hrel : Relayed call s) : (s.queue call .offerer).isSome = true := by
  by_contra hne
  exact hi.waits (Option.not_isSome_iff_eq_none.1 hne) hrel

theorem inv_start : Inv call (start call) where
  outside _ := ⟨rfl, rfl⟩
  waits _ h := by cases h.1
  answerer_up := List.not_mem_nil
  answerer_phase h := by cases h

/-! ## Steps of the offer -/

theorem coming_step (h : Step call s a s') (hin : (s.queue call .answerer).isSome = true)
    (hc : Coming call s) : Coming call s' := by
  intro hrel
  have harrive : (∃ r rest, a = .relay r ∧ (s.peer r).up = call.offerMsg :: rest) → Arriving call s' := by
    rintro ⟨r, rest, rfl, hup⟩
    exact (arriving_relay h hup).2 (.inr hin)
  rcases relayed_step h with hiff | ⟨rest, ha, hup⟩
  · rcases arriving_step h with hsame | hrelay
    · exact hsame.2 (hc (hiff.1 hrel))
    · exact harrive hrelay
  · exact harrive ⟨.offerer, rest, ha, hup⟩

/-- An offer that was passed on and did not arrive is lost. -/
def Lost (call : Rendezvous) (s : State) : Prop := Inv call s ∧ Relayed call s ∧ ¬ Arriving call s

theorem lost_step (h : Step call s a s') (hl : Lost call s) : Lost call s' := by
  obtain ⟨hi, hrel, hno⟩ := hl
  -- neither peer has the offer left to send
  have hnone : ∀ {r rest}, (s.peer r).up ≠ call.offerMsg :: rest := by
    intro r rest hup
    cases r with
    | offerer => exact hrel.2 (hup ▸ List.mem_cons_self)
    | answerer => exact hi.answerer_up (hup ▸ List.mem_cons_self)
  refine ⟨hi.step h, ?_, ?_⟩
  · rcases relayed_step h with hiff | ⟨rest, -, hup⟩
    · exact hiff.2 hrel
    · exact absurd hup hnone
  · rcases arriving_step h with hiff | ⟨r, rest, -, hup⟩
    · exact fun harr => hno (hiff.1 harr)
    · exact absurd hup hnone

/-- **Where nothing is left to do, an offer that was coming has been read.** -/
theorem delivered_of_quiet (hi : Inv call s) (hin : BothIn call s) (hc : Coming call s) (hq : Quiet (step call) s) :
    Delivered call s := by
  have hjoined : ∀ r, (s.peer r).phase = .joined ∨ (s.peer r).phase = .offered := by
    intro r
    cases hp : (s.peer r).phase with
    | out => exact (hq.not_step (show step call s (.connect r) = some _ from if_pos hp)).elim
    | connected => exact (hq.not_step (show step call s (.join r) = some _ from if_pos hp)).elim
    | joined => exact .inl rfl
    | offered => exact .inr rfl
  have hoffered : (s.peer .offerer).phase = .offered := by
    refine (hjoined .offerer).resolve_left (fun hp => ?_)
    cases hd : (s.peer .offerer).described with
    | false => exact hq.not_step (show step call s .describe = some _ from if_pos ⟨hp, hd⟩)
    | true => exact hq.not_step (show step call s .offer = some _ from if_pos ⟨hp, hd⟩)
  have hup : (s.peer .offerer).up = [] := by
    obtain ⟨q, hroom⟩ := Option.isSome_iff_exists.1 (hin .offerer)
    cases hup : (s.peer .offerer).up with
    | nil => rfl
    | cons m rest =>
      have := hq (.relay .offerer)
      simp only [step, hup, hroom] at this
      cases this
  have hqueue : s.queue call .answerer = some [] := by
    obtain ⟨q, hroom⟩ := Option.isSome_iff_exists.1 (hin .answerer)
    cases hrecv : (s.roomTx call.session).recv .answerer with
    | none => exact (Broadcast.Channel.recv_eq_none hrecv).resolve_left (fun h => by cases hroom.symm.trans h)
    | some p =>
      have := hq (.forward .answerer)
      simp only [step, hrecv] at this
      cases this
  have hdown : (s.peer .answerer).down = [] := by
    have hreads : reads (call.args .answerer).kind .answerer (s.peer .answerer).phase = true := by
      rw [(hjoined .answerer).resolve_right hi.answerer_phase]
      cases (call.args .answerer).kind with
      | canisMedia => rfl
      | portal => rfl
    cases hdown : (s.peer .answerer).down with
    | nil => rfl
    | cons m rest =>
      have := hq (.receive .answerer)
      simp only [step, hdown, hreads] at this
      cases this
  rcases hc ⟨hoffered, by rw [hup]; exact List.not_mem_nil⟩ with ⟨q, hroom, hmem⟩ | hmem | hheard
  · cases hqueue.symm.trans hroom
    cases hmem
  · rw [hdown] at hmem
    cases hmem
  · exact hheard

/-! ## Runs end -/

/-- What a message costs once it is on the socket of its reader: an offer may be answered. -/
def SignalMsg.cost : SignalMsg → Nat
  | .offer .. => 6
  | _ => 1

/-- On the socket of its sender it is still to be relayed, and to be forwarded to both peers and read. -/
def SignalMsg.sentCost (m : SignalMsg) : Nat := 2 * (m.cost + 1) + 1

def Phase.work : Phase → Nat
  | .out => 23
  | .connected => 22
  | .joined => 16
  | .offered => 0

def Peer.work (p : Peer) : Nat :=
  p.phase.work + (if p.described then 0 else 1) + 6 * p.candidates.length + (p.up.map SignalMsg.sentCost).sum +
    (p.down.map SignalMsg.cost).sum

/-- The work left for what the room holds for a peer; before it is in the room, that it enters. -/
def backlog : Option (List SignalMsg) → Nat
  | none => 1
  | some q => (q.map (fun m => m.cost + 1)).sum

def share (call : Rendezvous) (s : State) (r : Role) : Nat := (s.peer r).work + backlog (s.queue call r)

/-- A bound on the steps that are left. -/
def work (call : Rendezvous) (s : State) : Nat := share call s .offerer + share call s .answerer

theorem work_send (p : Peer) (m : SignalMsg) : (p.send m).work = p.work + m.sentCost := by
  unfold Peer.send Peer.work
  simp only [List.map_append, List.map_cons, List.map_nil, List.sum_append, List.sum_cons, List.sum_nil]
  omega

theorem work_handle (r : Role) (p : Peer) (m : SignalMsg) : (handle call r p m).work < p.work + m.cost := by
  rcases handle_cases r p m with ⟨remote, -, h⟩ | ⟨session, sender, sdp, rfl, h⟩
  · rw [h]
    show p.work < p.work + m.cost
    cases m <;> simp only [SignalMsg.cost] <;> omega
  · rw [h]
    unfold Peer.takeOffer
    rw [work_send]
    simp only [Peer.work, SignalMsg.sentCost, SignalMsg.cost, if_true]
    omega

theorem work_step (h : Step call s a s') : work call s' < work call s := by
  have hset : ∀ {r : Role} {p : Peer}, p.work < (s.peer r).work → work call (s.setPeer r p) < work call s := by
    intro r p hp
    unfold work share
    cases r with
    | offerer =>
      simp only [peer_setPeer, queue_setPeer, if_true, reduceCtorEq, if_false]
      omega
    | answerer =>
      simp only [peer_setPeer, queue_setPeer, if_true, reduceCtorEq, if_false]
      omega
  cases h with
  | connect hphase =>
    refine hset ?_
    simp only [Peer.work, hphase, Phase.work]
    omega
  | join hphase =>
    refine hset ?_
    rw [work_send]
    simp only [Peer.work, hphase, Phase.work, SignalMsg.sentCost, SignalMsg.cost, Rendezvous.joinMsg]
    omega
  | describe hphase hd =>
    refine hset ?_
    simp only [Peer.work, hd, if_true, if_false, Bool.false_eq_true]
    omega
  | offer hphase hd =>
    refine hset ?_
    rw [work_send]
    simp only [Peer.work, hphase, Phase.work, SignalMsg.sentCost, SignalMsg.cost, Rendezvous.offerMsg]
    omega
  | candidate hc hd =>
    refine hset ?_
    rw [work_send]
    simp only [Peer.work, hc, List.length_cons, SignalMsg.sentCost, SignalMsg.cost]
    omega
  | receive hdown hreads =>
    refine hset (Nat.lt_of_lt_of_le (work_handle ..) ?_)
    simp only [Peer.work, hdown, List.map_cons, List.sum_cons]
    omega
  | @subscribe r hin hout =>
    unfold work share
    cases r with
    | offerer =>
      simp only [queue_enter, peer_setRoom, hout, if_true, reduceCtorEq, if_false, backlog, List.map_nil, List.sum_nil]
      omega
    | answerer =>
      simp only [queue_enter, peer_setRoom, hout, if_true, reduceCtorEq, if_false, backlog, List.map_nil, List.sum_nil]
      omega
  | @relay r m rest q hup hin =>
    have hsent : ({ s.peer r with up := rest } : Peer).work + m.sentCost = (s.peer r).work := by
      simp only [Peer.work, hup, List.map_cons, List.sum_cons]
      omega
    have hroom : ∀ j, backlog ((s.queue call j).map (· ++ [m])) ≤ backlog (s.queue call j) + (m.cost + 1) := by
      intro j
      cases s.queue call j with
      | none => exact Nat.le_add_right _ _
      | some q => simp [backlog]
    have ho := hroom .offerer
    have ha := hroom .answerer
    unfold work share
    simp only [queue_relay, peer_setRoom]
    simp only [SignalMsg.sentCost] at hsent
    cases r with
    | offerer =>
      simp only [peer_setPeer, if_true, reduceCtorEq, if_false]
      omega
    | answerer =>
      simp only [peer_setPeer, if_true, reduceCtorEq, if_false]
      omega
  | @forward r m rest room hq hroom =>
    have hsent : ({ s.peer r with down := (s.peer r).down ++ [m] } : Peer).work = (s.peer r).work + m.cost := by
      simp only [Peer.work, List.map_append, List.map_cons, List.map_nil, List.sum_append, List.sum_cons, List.sum_nil]
      omega
    have htaken : backlog (s.queue call r) = backlog (some rest) + (m.cost + 1) := by
      rw [hq]
      simp only [backlog, List.map_cons, List.sum_cons]
      omega
    unfold work share
    simp only [queue_setRoom, hroom, peer_setRoom]
    dsimp only at hsent
    cases r with
    | offerer =>
      simp only [peer_setPeer, if_true, reduceCtorEq, if_false]
      omega
    | answerer =>
      simp only [peer_setPeer, if_true, reduceCtorEq, if_false]
      omega

/-- **No run goes on for ever.** -/
theorem run_bounded {as : List Action} {t : State} (h : as.foldlM (step call) s = some t) :
    as.length + work call t ≤ work call s := Machine.length_add_le (work call) (fun h => work_step (step_cases h)) as h

/-! ## Every order of steps -/

/-- With both in the room, the offer has been or will be read exactly when it is coming. -/
theorem ends_delivered_iff (hi : Inv call s) (hin : BothIn call s) :
    Ends (step call) (Delivered call) s ↔ Coming call s := by
  constructor
  · intro hends hrel
    by_contra hno
    refine Machine.not_ends_of_kept (work call) (fun h => work_step (step_cases h)) (K := Lost call)
      (fun hl h => lost_step (step_cases h) hl) (fun t ht hd => ht.2.2 (.inr (.inr hd))) ⟨hi, hrel, hno⟩ hends
  · intro hc
    refine Machine.ends_of_kept (J := fun t => Inv call t ∧ BothIn call t ∧ Coming call t) (fun hj h => ?_)
      (fun t hj hq => delivered_of_quiet hj.1 hj.2.1 hj.2.2 hq) ⟨hi, hin, hc⟩
    have h := step_cases h
    exact ⟨hj.1.step h, fun r => queue_step h (hj.2.1 r), coming_step h (hj.2.1 .answerer) hj.2.2⟩

/-- A step leaves the offer coming unless it brings in the answerer too late. -/
theorem coming_iff (hi : Inv call s) (hc : BothIn call s → Coming call s) (h : Step call s a s') :
    (BothIn call s' → Coming call s') ↔ (a = .subscribe .answerer → ¬ Relayed call s) := by
  by_cases ha : a = .subscribe .answerer
  · subst ha
    cases h with
    | subscribe hin hout =>
      obtain ⟨hdown, hheard⟩ := hi.outside hout
      constructor
      · intro hc' _ hrel
        have hboth : BothIn call (s.setRoom call ((s.roomTx call.session).subscribe .answerer)) := by
          intro r
          rw [queue_enter]
          split
          · rfl
          · rename_i hr
            cases r with
            | answerer => exact absurd rfl hr
            | offerer => exact hi.offerer_in hrel
        rcases hc' hboth hrel with ⟨q, hq, hm⟩ | hm | hm
        · rw [queue_enter, if_pos rfl] at hq
          cases hq
          cases hm
        · rw [peer_setRoom, hdown] at hm
          cases hm
        · rw [Delivered, peer_setRoom, hheard] at hm
          cases hm
      · exact fun hno _ hrel => absurd hrel (hno rfl)
  · refine iff_of_true (fun hin => ?_) (fun h => absurd h ha)
    have hanswerer := queue_back h ha (hin .answerer)
    refine coming_step h hanswerer (fun hrel => hc (fun r => ?_) hrel)
    cases r with
    | answerer => exact hanswerer
    | offerer => exact hi.offerer_in hrel

/-- **The offer gets through exactly when the answerer is not subscribed after it was passed on**: in every order of the
steps of the two peers and of the relay, once both are in the room the offer has been or will be read. -/
theorem offer_arrives (call : Rendezvous) (as : List Action) :
    Always (step call) (fun s => BothIn call s → Ends (step call) (Delivered call) s) (start call) as ↔
      Meets (step call) (fun s a => a = .subscribe .answerer → ¬ Relayed call s) (start call) as := by
  refine (Always.congr (fun hi h => Inv.step hi (step_cases h)) (Q := fun s => BothIn call s → Coming call s)
    (fun s hi => forall_congr' (fun hin => ends_delivered_iff hi hin)) as (start call) inv_start).trans ?_
  refine Machine.always_iff_meets (fun hi h => Inv.step hi (step_cases h))
    (fun hi hc h => coming_iff hi hc (step_cases h)) as (start call) inv_start ?_
  intro hin
  cases hin .offerer

/-- **An answerer that has read the offer of another dog has taken it**, in every run. -/
theorem taken_of_delivered (hd : (call.args .offerer).dog ≠ (call.args .answerer).dog) {as : List Action}
    (h : as.foldlM (step call) (start call) = some s) (hread : Delivered call s) :
    (s.peer .answerer).remote.isSome = true ∧ (s.peer .answerer).described = true := by
  refine Machine.run_inv (I := fun s => Delivered call s →
    (s.peer .answerer).remote.isSome = true ∧ (s.peer .answerer).described = true) (fun {s a s'} hi h => ?_)
    (fun h => by cases h) h hread
  have hset : ∀ {r : Role} {p : Peer}, (r = .answerer → call.offerMsg ∈ p.heard →
      p.remote.isSome = true ∧ p.described = true) → Delivered call (s.setPeer r p) →
      ((s.setPeer r p).peer .answerer).remote.isSome = true ∧ ((s.setPeer r p).peer .answerer).described = true :=
    peer_setPeer_of (P := fun p => call.offerMsg ∈ p.heard → p.remote.isSome = true ∧ p.described = true) hi
  cases step_cases h with
  | subscribe => exact hi
  | describe => exact hset (fun h => by cases h)
  | offer => exact hset (fun h => by cases h)
  | @receive r m rest hdown =>
    refine hset (fun hr hm => ?_)
    subst hr
    by_cases ho : m = call.offerMsg
    · rw [ho, handle_offer hd]
      exact ⟨rfl, rfl⟩
    · rw [handle_heard, List.mem_append, List.mem_singleton] at hm
      obtain ⟨hremote, hdescribed⟩ := hi (hm.resolve_right (fun h => ho h.symm))
      rcases handle_cases .answerer { s.peer .answerer with
          down := rest, heard := (s.peer .answerer).heard ++ [m] } m with ⟨remote, hkept, h⟩ | ⟨_, _, _, -, h⟩
      · rw [h]
        exact ⟨hkept hremote, hdescribed⟩
      · rw [h]
        exact ⟨rfl, rfl⟩
  | _ => exact hset (fun hr => hr ▸ hi)

/-- Two `canis-media` processes of one session. -/
def lab : Rendezvous where
  session := ⟨1⟩
  args
    | .offerer => { kind := .canisMedia, dog := ⟨1⟩, createOffer := "v=0", createAnswer := id, candidates := [] }
    | .answerer => { kind := .canisMedia, dog := ⟨2⟩, createOffer := "v=0", createAnswer := id, candidates := [] }

/-- The offerer joins, offers and is relayed; then the answerer connects and is subscribed. -/
def offererFirst : List Action :=
  [.connect .offerer, .subscribe .offerer, .join .offerer, .relay .offerer, .describe, .offer, .relay .offerer,
    .connect .answerer, .subscribe .answerer]

/-- **An offer that is relayed before the answerer is subscribed is lost.** -/
theorem offer_lost :
    ¬ Always (step lab) (fun s => BothIn lab s → Ends (step lab) (Delivered lab) s) (start lab) offererFirst := by
  intro h
  obtain ⟨t, ht, hboth, hrel, hqueue, hdown, hheard⟩ : ∃ t, offererFirst.foldlM (step lab) (start lab) = some t ∧
      BothIn lab t ∧ Relayed lab t ∧ t.queue lab .answerer = some [] ∧ (t.peer .answerer).down = [] ∧
      (t.peer .answerer).heard = [] := by
    refine ⟨_, rfl, fun r => ?_, ⟨rfl, by decide⟩, rfl, rfl, rfl⟩
    cases r with
    | offerer => rfl
    | answerer => rfl
  have hinv : Inv lab t := Machine.run_inv (fun hi h => Inv.step hi (step_cases h)) inv_start ht
  rcases (ends_delivered_iff hinv hboth).1 (h.last ht hboth) hrel with ⟨q, hq, hm⟩ | hm | hm
  · cases hqueue.symm.trans hq
    cases hm
  · rw [hdown] at hm
    cases hm
  · rw [Delivered, hheard] at hm
    cases hm

end Signaling
end CanisLink
