import CanisLink.Answers
import CanisLink.Born
import CanisLink.SelfCall
/-!
# Routing — which friend a call finds

`route_invite` scans the candidates of the bond graph, strongest first, for the first that is present, and
`create_invite` then asks whether that one peer is allowed and free.  The routing is optimal over bonds and presence; a
peer that it finds asleep, disabled or busy hides the next one.
-/
namespace CanisLink

open Interleave (Prog)

/-- The first element of a sorted list that has a property stands before every other that has it. -/
theorem first_before {α : Type} {r : α → α → Prop} {l : List α} (hl : l.Pairwise r) {p : α → Bool} {a b : α}
    (ha : l.find? p = some a) (hb : b ∈ l) (hp : p b = true) : b = a ∨ r a b := by
  obtain ⟨-, before, after, rfl, hnone⟩ := List.find?_eq_some_iff_append.1 ha
  rcases List.mem_append.1 hb with hb | hb
  · have := hnone b hb
    rw [hp] at this
    cases this
  · rcases List.mem_cons.1 hb with rfl | hb
    · exact .inl rfl
    · exact .inr ((List.pairwise_cons.1 (List.pairwise_append.1 hl).2.1).1 b hb)

namespace BondGraph

/-- A strongest friend of a dog among some dogs: bonded both ways, one of them, and none of them weighs more. -/
structure Strongest (g : BondGraph) (dog : DogId) (among : DogId → Prop) (p : DogId) : Prop where
  bonded : g.mutualEligible dog p = true
  member : among p
  best : ∀ q, g.mutualEligible dog q = true → among q → g.weight dog q ≤ g.weight dog p

section

variable {ord : IterOrder} {g : BondGraph} {dog p : DogId}

theorem mutualEligible_iff : g.mutualEligible dog p = true ↔ W_MIN ≤ g.weight dog p ∧ W_MIN ≤ g.weight p dog := by
  simp [mutualEligible]

/-- The candidates are the dogs bonded both ways, each with its weight. -/
theorem mem_candidates_iff {w : Rat} :
    (p, w) ∈ g.candidates ord dog ↔ g.mutualEligible dog p = true ∧ g.weight dog p = w := by
  rw [mem_candidates, mutualEligible_iff]
  constructor
  · rintro ⟨rfl, h, h'⟩
    exact ⟨⟨h, h'⟩, rfl⟩
  · rintro ⟨⟨h, h'⟩, rfl⟩
    exact ⟨rfl, h, h'⟩

/-- The candidates are sorted by weight, whatever the order of the map. -/
theorem candidates_sorted (ord : IterOrder) (g : BondGraph) (dog : DogId) :
    (g.candidates ord dog).Pairwise (fun a b => b.2 ≤ a.2) := by
  have : Std.Total (fun a b : DogId × Rat => b.2 ≤ a.2) := ⟨fun a b => le_total b.2 a.2⟩
  have : IsTrans (DogId × Rat) (fun a b => b.2 ≤ a.2) := ⟨fun _ _ _ h h' => le_trans h' h⟩
  exact List.pairwise_insertionSort _ _

/-- **The first candidate of some kind is a strongest friend of that kind.** -/
theorem strongest_of_find {kind : DogId → Bool} {c : DogId × Rat}
    (h : (g.candidates ord dog).find? (fun c => kind c.1) = some c) : g.Strongest dog (fun p => kind p = true) c.1 := by
  obtain ⟨hbonded, hweight⟩ := mem_candidates_iff.1 (List.mem_of_find?_eq_some h)
  have hmember : kind c.1 = true := List.find?_some (p := fun c : DogId × Rat => kind c.1) h
  refine ⟨hbonded, hmember, fun q hq hkind => ?_⟩
  rcases first_before (candidates_sorted ord g dog) h (mem_candidates_iff.2 ⟨hq, rfl⟩) hkind with hc | hle
  · rw [← hc]
  · exact hweight ▸ hle

theorem find_none_iff {kind : DogId → Bool} : (g.candidates ord dog).find? (fun c => kind c.1) = none ↔
    ∀ q, g.mutualEligible dog q = true → kind q = false := by
  rw [List.find?_eq_none]
  constructor
  · intro h q hq
    simpa using h (q, g.weight dog q) (mem_candidates_iff.2 ⟨hq, rfl⟩)
  · rintro h ⟨q, w⟩ hq
    simpa using h q (mem_candidates_iff.1 hq).1

end

end BondGraph

/-! ## The routing -/

section

variable {ord : IterOrder} {g : BondGraph} {dog p : DogId} {present : List DogId}

theorem routeInvite_none : routeInvite ord dog none g present true =
    match (g.candidates ord dog).find? (fun c => present.contains c.1) with
    | some (peer, _) => .ok peer
    | none => .error .noEligiblePeer := rfl

theorem routeInvite_none_ok (h : routeInvite ord dog none g present true = .ok p) :
    g.Strongest dog (· ∈ present) p := by
  rw [routeInvite_none] at h
  split at h
  · rename_i peer w hfind
    cases h
    obtain ⟨hbonded, hmember, hbest⟩ := @BondGraph.strongest_of_find ord g dog present.contains _ hfind
    exact ⟨hbonded, by simpa using hmember, fun q hq hmem => hbest q hq (by simpa using hmem)⟩
  · cases h

theorem routeInvite_none_error : routeInvite ord dog none g present true = .error .noEligiblePeer ↔
    ∀ q, g.mutualEligible dog q = true → q ∉ present := by
  have hnone := @BondGraph.find_none_iff ord g dog present.contains
  rw [routeInvite_none]
  constructor
  · intro h
    split at h
    · cases h
    · rename_i hfind
      intro q hq
      simpa using hnone.1 hfind q hq
  · intro h
    rw [hnone.2 (fun q hq => by simpa using h q hq)]

theorem routeInvite_some_ok {peer : DogId} (hpeer : peer ≠ dog) :
    routeInvite ord dog (some peer) g present true = .ok p ↔
      p = peer ∧ g.mutualEligible dog p = true ∧ p ∈ present := by
  unfold routeInvite
  simp only [Bool.not_true, Bool.false_eq_true, if_false, if_neg hpeer]
  constructor
  · intro h
    split at h
    · cases h
    · rename_i hbonded
      split at h
      · cases h
      · rename_i hpresent
        cases h
        exact ⟨rfl, by simpa using hbonded, by simpa using hpresent⟩
  · rintro ⟨rfl, hbonded, hpresent⟩
    simp [hbonded, hpresent]

end

/-- **Routing is sound, complete and optimal**, whatever the order of the map: with no preferred peer a present caller
is given a strongest friend present, and is refused exactly where it has none; with another dog preferred it is given
that dog exactly where it is bonded both ways and present. -/
theorem route_invite_strongest (ord : IterOrder) (g : BondGraph) (dog : DogId) (present : List DogId) :
    (∀ p, routeInvite ord dog none g present true = .ok p → g.Strongest dog (· ∈ present) p) ∧
    (routeInvite ord dog none g present true = .error .noEligiblePeer ↔
      ¬ ∃ q, g.mutualEligible dog q = true ∧ q ∈ present) ∧
    ∀ peer, peer ≠ dog → ∀ p, routeInvite ord dog (some peer) g present true = .ok p ↔
      p = peer ∧ g.mutualEligible dog p = true ∧ p ∈ present := by
  refine ⟨fun p => routeInvite_none_ok, ?_, fun peer hpeer p => routeInvite_some_ok hpeer⟩
  rw [routeInvite_none_error]
  simp only [not_exists, not_and]

/-- Dog 1 prefers dog 2, its friend. -/
theorem route_invite_friend :
    routeInvite .stored ⟨1⟩ (some ⟨2⟩) (BondGraph.bootstrapMutual {} ⟨1⟩ ⟨2⟩ 1) [⟨2⟩] true = .ok ⟨2⟩ :=
  ((route_invite_strongest .stored (BondGraph.bootstrapMutual {} ⟨1⟩ ⟨2⟩ 1) ⟨1⟩ [⟨2⟩]).2.2 ⟨2⟩ (by decide) ⟨2⟩).2
    ⟨rfl, by decide +kernel, by decide⟩

/-! ## The call -/

/-- In no open invite at the instant, and in no session. -/
def Free (st : AppState) (w : World) (now : DateTime) (d : DogId) : Prop :=
  d ∉ w.ringing st now ∧ w.data.sessions.forDog d = none

instance (st : AppState) (w : World) (now : DateTime) (d : DogId) : Decidable (Free st w now d) :=
  inferInstanceAs (Decidable (_ ∧ _))

/-- **A dog that may call**: its credentials are in order, it is present, allowed, under its limit and free. -/
structure MayCall (st : AppState) (w : World) (now : DateTime) (h : HeaderMap) (b : CreateInviteBody) : Prop where
  verified : verifyDevice st h b.terminalId b.dogId = .ok ()
  present : w.data.presence.isPresent b.dogId now = true
  allowed : Allowed w b.dogId now
  limited : inviteRateOk (w.data.invites.invitesLastHour b.dogId now).1
    (w.data.policies.current b.dogId).maxInvitesPerHour = .ok ()
  free : Free st w now b.dogId

/-- **An available friend**: another dog, bonded both ways, present, allowed and free. -/
structure Available (st : AppState) (w : World) (now : DateTime) (caller q : DogId) : Prop where
  other : q ≠ caller
  bonded : w.data.bonds.mutualEligible caller q = true
  present : w.data.presence.isPresent q now = true
  allowed : Allowed w q now
  free : Free st w now q

/-- **The call finds the best available friend**: it rings exactly if there is one, and none weighs more than the dog
it rings. -/
def FindsBest (st : AppState) (w : World) (κ : Nat → DateTime) (h : HeaderMap) (b : CreateInviteBody) : Prop :=
  ((∃ inv, callReply st w κ h b = .created inv) ↔ ∃ q, Available st w (κ 0) b.dogId q) ∧
  ∀ inv, callReply st w κ h b = .created inv → ∀ q, Available st w (κ 0) b.dogId q →
    w.data.bonds.weight b.dogId q ≤ w.data.bonds.weight b.dogId inv.toDog

/-- The deadline of an invite made in the thirteenth call is a date. -/
def RingsInTime (κ : Nat → DateTime) : Prop := (κ 12).plus (milliseconds RING_TIMEOUT_MS) ≠ none

instance (κ : Nat → DateTime) : Decidable (RingsInTime κ) := inferInstanceAs (Decidable (_ ≠ none))

/-- **The strongest friend present answers for all**: it is available, or no friend is; a caller that is its own
strongest friend has another one available. -/
def StrongestAnswers (st : AppState) (w : World) (κ : Nat → DateTime) (caller : DogId) : Prop :=
  ∀ p, strongestPresent st w (κ 0) caller = some p →
    if p = caller then RingsInTime κ ↔ ∃ q, Available st w (κ 0) caller q
    else Available st w (κ 0) caller p ∧ RingsInTime κ ∨ ¬ ∃ q, Available st w (κ 0) caller q

theorem PresenceStore.mem_presentDogIds {s : PresenceStore} {ord : IterOrder} {now : DateTime} {d : DogId} :
    d ∈ s.presentDogIds ord now ↔ s.isPresent d now = true := by
  have hget : ∀ {k v}, s.get k now = some v → v.dogId = k := by
    intro k v h
    obtain ⟨e, -, hv⟩ := Option.bind_eq_some_iff.1 h
    cases hv
    rfl
  unfold presentDogIds listPresent isPresent
  simp only [List.mem_map, List.mem_filter, List.mem_filterMap, ord.mem_visit]
  constructor
  · rintro ⟨v, ⟨⟨r, -, hr⟩, hpresent⟩, rfl⟩
    rw [hget hr, hr]
    exact hpresent
  · intro h
    cases hv : s.get d now with
    | none =>
      rw [hv] at h
      cases h
    | some v =>
      rw [hv] at h
      obtain ⟨e, he, -⟩ := Option.bind_eq_some_iff.1 hv
      exact ⟨v, ⟨⟨⟨d, e⟩, AList.mem_lookup_iff.1 he, hv⟩, h⟩, hget hv⟩

section

variable {st : AppState} {w : World} {κ : Nat → DateTime} {now : DateTime} {h : HeaderMap} {b : CreateInviteBody}
  {caller p : DogId}

theorem strongestPresent_some (hp : strongestPresent st w now caller = some p) :
    w.data.bonds.Strongest caller (fun q => w.data.presence.isPresent q now = true) p := by
  obtain ⟨c, hfind, rfl⟩ := Option.map_eq_some_iff.1 hp
  obtain ⟨hbonded, hmember, hbest⟩ :=
    @BondGraph.strongest_of_find st.order w.data.bonds caller
      (w.data.presence.presentDogIds st.order now).contains c hfind
  have hiff : ∀ q, (w.data.presence.presentDogIds st.order now).contains q = true ↔
      w.data.presence.isPresent q now = true := by
    intro q
    rw [List.contains_iff_mem, PresenceStore.mem_presentDogIds]
  exact ⟨hbonded, (hiff _).1 hmember, fun q hq hpresent => hbest q hq ((hiff q).2 hpresent)⟩

theorem strongestPresent_none (hp : strongestPresent st w now caller = none) {q : DogId}
    (hq : w.data.bonds.mutualEligible caller q = true) : w.data.presence.isPresent q now ≠ true := by
  intro hpresent
  have hfind := (@BondGraph.find_none_iff st.order w.data.bonds caller
    (w.data.presence.presentDogIds st.order now).contains).1 (Option.map_eq_none_iff.1 hp) q hq
  rw [List.contains_iff_mem.2 (PresenceStore.mem_presentDogIds.2 hpresent)] at hfind
  cases hfind

theorem forDog_none {d : DogId} (hf : Free st w now d) : (w.data.invites.expireDue st.order now).2.forDog d = none := by
  unfold InviteStore.forDog
  rw [show (w.data.invites.expireDue st.order now).2.openForDog.lookup d = none from AList.lookup_eq_none.2 hf.1]
  rfl

/-- A call that names no peer gets through to the strongest friend present, if that dog is allowed and not busy. -/
theorem callThrough_iff (hm : MayCall st w now h b) (hno : b.toDog = none) :
    callThrough st w now h b = some p ↔ strongestPresent st w now b.dogId = some p ∧ Allowed w p now ∧
      (w.data.invites.expireDue st.order now).2.forDog p = none ∧ w.data.sessions.forDog p = none := by
  have hroute : routeInvite st.order b.dogId b.toDog w.data.bonds (w.data.presence.presentDogIds st.order now)
      (w.data.presence.isPresent b.dogId now) =
        (strongestPresent st w now b.dogId).elim (.error .noEligiblePeer) .ok := by
    rw [hno, hm.present, routeInvite_none]
    unfold strongestPresent
    cases (w.data.bonds.candidates st.order b.dogId).find?
      (fun c => (w.data.presence.presentDogIds st.order now).contains c.1) <;> rfl
  have hallowed := hm.allowed
  unfold Allowed at hallowed ⊢
  unfold callThrough
  simp only [hm.verified, hallowed, hm.limited, forDog_none hm.free, hm.free.2, hroute]
  cases strongestPresent st w now b.dogId with
  | none => simp
  | some peer =>
    dsimp only [Option.elim_some]
    rw [if_pos (by rfl), Option.ite_none_right_eq_some]
    simp only [Option.some_inj, Bool.and_eq_true, Option.isNone_iff_eq_none]
    constructor
    · rintro ⟨⟨hok, hfree⟩, rfl⟩
      refine ⟨rfl, ?_, hfree⟩
      cases hs : socialAllowed (w.data.policies.current peer) now with
      | ok u => rfl
      | error e =>
        rw [hs] at hok
        cases hok
    · rintro ⟨rfl, hok, hfree⟩
      exact ⟨⟨by rw [hok]; rfl, hfree⟩, rfl⟩

/-- **What a call rings**: the strongest friend present, if it is allowed and free. -/
theorem rings_iff (hm : MayCall st w (κ 0) h b) (hno : b.toDog = none) :
    (∃ inv, callReply st w κ h b = .created inv ∧ inv.toDog = p) ↔
      strongestPresent st w (κ 0) b.dogId = some p ∧ Allowed w p (κ 0) ∧ Free st w (κ 0) p ∧ RingsInTime κ := by
  obtain ⟨left, hc⟩ : ∃ left, Called st w κ h b (callReply st w κ h b) left := ⟨_, createInvite_yields h b⟩
  constructor
  · rintro ⟨inv, hreply, rfl⟩
    rw [hreply] at hc
    cases hc with
    | created through rings free =>
      obtain ⟨hstrongest, hallowed, -, hsession⟩ := (callThrough_iff hm hno).1 through
      refine ⟨hstrongest, hallowed, ⟨free.2, hsession⟩, ?_⟩
      rw [RingsInTime, rings]
      exact nofun
  · rintro ⟨hstrongest, hallowed, hfree, hrings⟩
    have hthrough := (callThrough_iff hm hno).2 ⟨hstrongest, hallowed, forDog_none hfree, hfree.2⟩
    generalize callReply st w κ h b = reply at hc
    cases hc with
    | refused guards pruned => cases guards.symm.trans hthrough
    | panicked through late => exact absurd late hrings
    | clashed through taken =>
      cases through.symm.trans hthrough
      exact (taken.elim hm.free.1 hfree.1).elim
    | created through rings free => exact ⟨_, rfl, Option.some.inj (through.symm.trans hthrough)⟩

/-- The caller answers for itself as far as its own policy goes; another dog that answers is an available friend. -/
theorem serves_iff (hm : MayCall st w (κ 0) h b) (hp : strongestPresent st w (κ 0) b.dogId = some p) :
    (Allowed w p (κ 0) ∧ Free st w (κ 0) p ∧ RingsInTime κ) ↔
      if p = b.dogId then RingsInTime κ else Available st w (κ 0) b.dogId p ∧ RingsInTime κ := by
  have hs := strongestPresent_some hp
  split
  · rename_i hself
    subst hself
    exact ⟨fun h => h.2.2, fun h => ⟨hm.allowed, hm.free, h⟩⟩
  · rename_i hother
    constructor
    · rintro ⟨hallowed, hfree, hrings⟩
      exact ⟨⟨hother, hs.bonded, hs.member, hallowed, hfree⟩, hrings⟩
    · rintro ⟨hav, hrings⟩
      exact ⟨hav.allowed, hav.free, hrings⟩

end

/-- **A call that names no peer finds the best available friend exactly if the strongest friend present answers for
all**, in every state and for every dog that may call. -/
theorem finds_best_iff (st : AppState) (w : World) (κ : Nat → DateTime) (h : HeaderMap) (b : CreateInviteBody)
    (hm : MayCall st w (κ 0) h b) (hno : b.toDog = none) :
    FindsBest st w κ h b ↔ StrongestAnswers st w κ b.dogId := by
  have hrings := fun p => rings_iff (p := p) hm hno
  unfold FindsBest StrongestAnswers
  cases hp : strongestPresent st w (κ 0) b.dogId with
  | none =>
    have hnone : ¬ ∃ inv, callReply st w κ h b = .created inv := by
      rintro ⟨inv, hreply⟩
      have := ((hrings inv.toDog).1 ⟨inv, hreply, rfl⟩).1
      rw [hp] at this
      cases this
    refine iff_of_true ⟨iff_of_false hnone ?_, fun inv hreply => (hnone ⟨inv, hreply⟩).elim⟩ nofun
    rintro ⟨q, hq⟩
    exact strongestPresent_none hp hq.bonded hq.present
  | some p =>
    have hcreated : (∃ inv, callReply st w κ h b = .created inv) ↔
        Allowed w p (κ 0) ∧ Free st w (κ 0) p ∧ RingsInTime κ := by
      constructor
      · rintro ⟨inv, hreply⟩
        obtain ⟨hstrongest, hserves⟩ := (hrings inv.toDog).1 ⟨inv, hreply, rfl⟩
        cases hp.symm.trans hstrongest
        exact hserves
      · intro hserves
        obtain ⟨inv, hreply, -⟩ := (hrings p).2 ⟨hp, hserves⟩
        exact ⟨inv, hreply⟩
    have hbest : ∀ inv, callReply st w κ h b = .created inv → ∀ q, Available st w (κ 0) b.dogId q →
        w.data.bonds.weight b.dogId q ≤ w.data.bonds.weight b.dogId inv.toDog := by
      intro inv hreply q hq
      have hstrongest := ((hrings inv.toDog).1 ⟨inv, hreply, rfl⟩).1
      exact (strongestPresent_some hstrongest).best q hq.bonded hq.present
    have hself : ∀ P : DogId → Prop, (∀ p', some p = some p' → P p') ↔ P p :=
      fun P => ⟨fun h => h p rfl, fun h p' hp' => by cases hp'; exact h⟩
    rw [hself, hcreated, serves_iff hm hp]
    split
    · exact and_iff_left hbest
    · constructor
      · rintro ⟨hiff, -⟩
        by_cases hav : Available st w (κ 0) b.dogId p ∧ RingsInTime κ
        · exact .inl hav
        · exact .inr (fun hq => hav (hiff.2 hq))
      · rintro (hav | hnone)
        · exact ⟨iff_of_true hav ⟨p, hav.1⟩, hbest⟩
        · exact ⟨iff_of_false (fun hav => hnone ⟨p, hav.1⟩) hnone, hbest⟩

/-- Dog 1 has two friends on their mats: dog 2, and more weakly dog 3. -/
def twoFriends : List Request :=
  [.devBootstrapBond ⟨1⟩ ⟨2⟩ 1, .devBootstrapBond ⟨1⟩ ⟨3⟩ (1 / 2), stepOn 1 noon, stepOn 2 noon, stepOn 3 noon]

/-- Dog 1 calls whoever is there. -/
def anyFriend : CreateInviteBody := { mode := .portal, toDog := none, dogId := ⟨1⟩, terminalId := ⟨1⟩ }

/-- Dog 2 is available, and rung. -/
theorem finds_best_friend :
    FindsBest bench (serveAt bench noon fresh twoFriends) (fun _ => noon) (device 1) anyFriend := by
  refine (finds_best_iff bench (serveAt bench noon fresh twoFriends) (fun _ => noon) (device 1) anyFriend
    ⟨by decide +kernel, by decide +kernel, by decide +kernel, by decide +kernel, by decide +kernel⟩ rfl).2
    (fun p hp => ?_)
  obtain rfl : ⟨2⟩ = p := Option.some.inj ((by decide +kernel : some _ = _).trans hp)
  exact .inl ⟨⟨by decide, by decide +kernel, by decide +kernel, by decide +kernel, by decide +kernel⟩, by decide⟩

/-- Contact is disabled for dog 2. -/
def disabledFriend : World :=
  serveAt bench noon fresh (twoFriends ++ [.stewardSocial (some "Steward s") ⟨2⟩ true])

/-- **A disabled friend hides the next one**: dog 3 is available, but the call goes to dog 2, the stronger friend, and
is refused. -/
theorem call_hidden : ¬ ∀ (st : AppState) (w : World) (κ : Nat → DateTime) (h : HeaderMap) (b : CreateInviteBody),
    MayCall st w (κ 0) h b → b.toDog = none → FindsBest st w κ h b := by
  intro hall
  have hm : MayCall bench disabledFriend noon (device 1) anyFriend :=
    ⟨by decide +kernel, by decide +kernel, by decide +kernel, by decide +kernel, by decide +kernel⟩
  obtain ⟨hiff, -⟩ := hall bench disabledFriend (fun _ => noon) (device 1) anyFriend hm rfl
  obtain ⟨inv, hreply⟩ := hiff.2 ⟨⟨3⟩, by decide, by decide +kernel, by decide +kernel, by decide +kernel,
    by decide +kernel⟩
  have hrings := (@rings_iff bench disabledFriend (fun _ => noon) (device 1) anyFriend _ hm rfl).1 ⟨inv, hreply, rfl⟩
  obtain ⟨hstrongest, hallowed, -⟩ := hrings
  obtain hto : ⟨2⟩ = inv.toDog := Option.some.inj ((by decide +kernel : some _ = _).trans hstrongest)
  rw [← hto] at hallowed
  revert hallowed
  decide +kernel

end CanisLink
