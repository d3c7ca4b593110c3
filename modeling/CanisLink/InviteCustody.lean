import CanisLink.InviteSections
import CanisLink.Custody
/-!
# InviteCustody — the invite store's two maps agree

An invite is at any time in `by_id`, or with the one thread that is inserting it or has taken it out; `open_for_dog` has
the dogs of the invites in `by_id` and of those being moved.  That is kept by every section, so whenever no call is in
progress the two maps agree.
-/
namespace CanisLink
namespace InviteSections

open Interleave (Prog Pool map_middle)
open Custody (Kept Exact flatMap_subperm flatMap_begun flatMap_begun_nil)

/-! ## The invariant -/

/-- The entries of `open_for_dog`. -/
def opened (s : InviteStore) (d : DogId) (k : InviteId) : Prop := s.openForDog.lookup d = some k

open Point

/-- **Every invite is in one place.**  It is in the store or with one thread, `open_for_dog` has the dogs of those in
the store and of those being moved, and what the store had at the start or was given is there or has been taken out. -/
structure Inv (s₀ s : InviteStore) (pts : List Point) : Prop where
  kept : Kept Invite.id s.get (pts.flatMap unborn ++ pts.flatMap taken)
  exact : Exact Invite.id Invite.hasDog s.get (pts.flatMap entered) (opened s)
  fresh : ∀ x ∈ pts.flatMap unborn, s₀.get x.id = none
  gone : ∀ id ∈ pts.flatMap closes, s₀.get id ≠ none → s.get id = none
  conserved : ∀ id, s₀.get id ≠ none ∨ id ∈ (pts.flatMap stored).map (·.id) →
    s.get id ≠ none ∨ id ∈ (pts.flatMap taken).map (·.id)

variable {s₀ s s' : InviteStore} {pt pt' : Point} {pts rest : List Point} {inv : Invite}

theorem Inv.perm (h : Inv s₀ s pts) {pts' : List Point} (hp : pts'.Perm pts) : Inv s₀ s pts' where
  kept := h.kept.subperm ((hp.flatMap_right unborn).append (hp.flatMap_right taken)).subperm
  exact := h.exact.perm (hp.flatMap_right entered)
  fresh x hx := h.fresh x ((hp.flatMap_right unborn).mem_iff.1 hx)
  gone id hid := h.gone id ((hp.flatMap_right closes).mem_iff.1 hid)
  conserved id hid := by
    rw [((hp.flatMap_right taken).map (·.id)).mem_iff]
    rw [((hp.flatMap_right stored).map (·.id)).mem_iff] at hid
    exact h.conserved id hid

theorem entered_subperm (pts : List Point) :
    List.Subperm (pts.flatMap entered) (pts.flatMap unborn ++ pts.flatMap taken) := by
  refine (flatMap_subperm (fun pt => ?_) pts).trans (List.flatMap_append_perm pts unborn taken).symm.subperm
  cases pt with
  | call c => cases c <;> exact List.nil_subperm
  | inserting invite => exact List.Subperm.refl _
  | closing id inv => exact List.Subperm.refl _
  | expiringOne now out inv due => exact (List.sublist_append_left [inv] out).subperm
  | _ => exact List.nil_subperm

theorem get_insert_byId (s : InviteStore) (inv : Invite) (k : InviteId) :
    ({ s with byId := s.byId.insert inv.id inv } : InviteStore).get k = if k = inv.id then some inv else s.get k :=
  HashMap.lookup_insert inv.id k inv s.byId

theorem get_erase_byId (s : InviteStore) (id k : InviteId) :
    ({ s with byId := s.byId.erase id } : InviteStore).get k = if k = id then none else s.get k :=
  HashMap.lookup_erase id k s.byId

theorem Inv.stay (h : Inv s₀ s (pt :: rest)) (hu : (unborn pt').Sublist (unborn pt)) (ht : taken pt' = taken pt)
    (he : entered pt' = entered pt) (hc : ∀ id ∈ closes pt', s₀.get id ≠ none → s.get id = none)
    (hs : stored pt' = []) : Inv s₀ s (pt' :: rest) where
  kept := by
    refine h.kept.subperm (List.Sublist.subperm ?_)
    rw [List.flatMap_cons, List.flatMap_cons, List.flatMap_cons, List.flatMap_cons, ht]
    exact (hu.append_right _).append_right _
  exact := by
    rw [List.flatMap_cons, he]
    exact h.exact
  fresh x hx := by
    rw [List.flatMap_cons] at hx
    refine h.fresh x ?_
    rw [List.flatMap_cons]
    exact (hu.append_right _).subset hx
  gone id hid := by
    rw [List.flatMap_cons] at hid
    rcases List.mem_append.1 hid with hid | hid
    · exact hc id hid
    · exact h.gone id (List.mem_append_right _ hid)
  conserved id hid := by
    rw [List.flatMap_cons, hs, List.nil_append] at hid
    rw [List.flatMap_cons, ht]
    refine h.conserved id (hid.imp_right (fun hmem => ?_))
    rw [List.flatMap_cons, List.map_append]
    exact List.mem_append_right _ hmem

theorem Inv.enter (h : Inv s₀ s (.call (.insert inv) :: rest)) (hfrom : inv.fromDog ∉ s.openForDog)
    (hto : inv.toDog ∉ s.openForDog) : Inv s₀ { s with
      openForDog := (s.openForDog.insert inv.fromDog inv.id).insert inv.toDog inv.id } (.inserting inv :: rest) where
  kept := h.kept
  exact := h.exact.enter (fun d k => HashMap.lookup_insert_two hfrom hto inv.id k d)
  fresh := h.fresh
  gone := h.gone
  conserved := h.conserved

theorem Inv.store (h : Inv s₀ s (.inserting inv :: rest)) : Inv s₀ { s with byId := s.byId.insert inv.id inv }
    (.returned (.insert inv) (.inserted (.ok ())) :: rest) where
  kept := Kept.deposit (x := inv) h.kept (get_insert_byId s inv)
  exact := Exact.deposit (x := inv) h.exact (h.kept.apart List.mem_cons_self) (get_insert_byId s inv)
  fresh x hx := h.fresh x (List.mem_cons_of_mem inv hx)
  gone id hid hold := by
    rw [get_insert_byId]
    have hne : id ≠ inv.id := by
      rintro rfl
      exact hold (h.fresh inv List.mem_cons_self)
    rw [if_neg hne]
    exact h.gone id hid hold
  conserved id hid := by
    rw [get_insert_byId]
    by_cases hk : id = inv.id
    · rw [if_pos hk]
      exact .inl (Option.some_ne_none inv)
    · rw [if_neg hk]
      refine h.conserved id (hid.imp_right (fun hmem => ?_))
      rcases List.mem_cons.1 hmem with he | hmem
      · exact absurd he hk
      · exact hmem

theorem Inv.take {id : InviteId} (h : Inv s₀ s (pt :: rest)) (hinv : s.byId.lookup id = some inv) (hu : unborn pt = [])
    (he : entered pt = []) (hu' : unborn pt' = []) (ht' : taken pt' = inv :: taken pt) (he' : entered pt' = [inv])
    (hc' : ∀ id' ∈ closes pt', id' = id) (hs' : stored pt' = []) :
    Inv s₀ { s with byId := s.byId.erase id } (pt' :: rest) := by
  obtain rfl : inv.id = id := h.kept.keyed hinv
  have hkept := Kept.withdraw h.kept hinv (get_erase_byId s inv.id)
  have hexact := Exact.withdraw h.exact hinv (get_erase_byId s inv.id)
  have hless : ∀ k, s.get k = none → ({ s with byId := s.byId.erase inv.id } : InviteStore).get k = none := by
    intro k hk
    rw [get_erase_byId, hk]
    exact ite_self none
  refine ⟨?_, ?_, fun x hx => ?_, fun id hid hold => ?_, fun id hid => ?_⟩
  · rw [List.flatMap_cons, hu, List.nil_append, List.flatMap_cons] at hkept
    rw [List.flatMap_cons, hu', List.nil_append, List.flatMap_cons, ht']
    exact hkept.subperm List.perm_middle.subperm
  · rw [List.flatMap_cons, he] at hexact
    rw [List.flatMap_cons, he']
    exact hexact
  · rw [List.flatMap_cons, hu'] at hx
    exact h.fresh x (List.mem_append_right _ hx)
  · rw [List.flatMap_cons] at hid
    rcases List.mem_append.1 hid with hid | hid
    · rw [hc' id hid, get_erase_byId, if_pos rfl]
    · exact hless id (h.gone id (List.mem_append_right _ hid) hold)
  · rw [List.flatMap_cons, hs', List.nil_append] at hid
    rw [get_erase_byId, List.flatMap_cons, ht']
    by_cases hk : id = inv.id
    · exact .inr (by simp [hk])
    · rw [if_neg hk]
      have hcons := h.conserved id (hid.imp_right (fun hmem => by
        rw [List.flatMap_cons, List.map_append]
        exact List.mem_append_right _ hmem))
      rw [List.flatMap_cons] at hcons
      exact hcons.imp_right (List.mem_cons_of_mem _)

theorem Inv.clear (h : Inv s₀ s (pt :: rest)) (he : entered pt = [inv]) (hu' : unborn pt' = unborn pt)
    (ht' : (taken pt').Perm (taken pt)) (he' : entered pt' = []) (hc' : closes pt' = closes pt)
    (hs' : stored pt' = []) :
    Inv s₀ { s with openForDog := (s.openForDog.erase inv.fromDog).erase inv.toDog } (pt' :: rest) := by
  have hsub := entered_subperm (pt :: rest)
  have hexact := h.exact
  rw [List.flatMap_cons, he] at hsub hexact
  have hleave : Exact Invite.id Invite.hasDog s.get (rest.flatMap entered)
      (opened { s with openForDog := (s.openForDog.erase inv.fromDog).erase inv.toDog }) := by
    -- the entries of this id are those of its two dogs
    have hdogs := hexact.entries h.kept hsub.subset List.mem_cons_self
    exact hexact.leave h.kept hsub (fun d k => HashMap.lookup_erase_two hdogs k d)
  refine ⟨?_, ?_, fun x hx => ?_, fun id hid hold => ?_, fun id hid => ?_⟩
  · refine h.kept.subperm (List.Perm.subperm ?_)
    rw [List.flatMap_cons, List.flatMap_cons, List.flatMap_cons, List.flatMap_cons, hu']
    exact List.Perm.append_left _ (ht'.append_right _)
  · rw [List.flatMap_cons, he']
    exact hleave
  · rw [List.flatMap_cons, hu'] at hx
    exact h.fresh x hx
  · rw [List.flatMap_cons, hc'] at hid
    exact h.gone id hid hold
  · rw [List.flatMap_cons, hs', List.nil_append] at hid
    rw [List.flatMap_cons, ((ht'.append_right _).map (·.id)).mem_iff]
    refine h.conserved id (hid.imp_right (fun hmem => ?_))
    rw [List.flatMap_cons, List.map_append]
    exact List.mem_append_right _ hmem

/-- **One section** keeps every invite in one place. -/
theorem Inv.step {ord : Nat → IterOrder} {n : Nat} {l : Locked} {c : Section} {f : c.Resp → Point}
    (h : Inv s₀ l.store (pt :: rest)) (hn : pt.next = some ⟨c, f⟩) :
    Inv s₀ (exec ord n c l).2.store (f (exec ord n c l).1 :: rest) := by
  cases pt with
  | call cl =>
    cases cl with
    | insert invite =>
      cases hn
      simp only [exec]
      split
      · exact h.stay (List.nil_sublist _) rfl rfl (List.forall_mem_nil _) rfl
      · rename_i hfree
        exact h.enter (fun hmem => hfree (.inl hmem)) (fun hmem => hfree (.inr hmem))
    | get id =>
      cases hn
      exact h.stay (List.nil_sublist _) rfl rfl (List.forall_mem_nil _) rfl
    | forDog dog =>
      cases hn
      simp only [exec]
      split
      · exact h.stay (List.nil_sublist _) rfl rfl (List.forall_mem_nil _) rfl
      · exact h.stay (List.nil_sublist _) rfl rfl (List.forall_mem_nil _) rfl
    | close id =>
      cases hn
      simp only [exec]
      split
      · rename_i hnone
        refine h.stay (List.nil_sublist _) rfl rfl (fun id' hid _ => ?_) rfl
        rw [List.mem_singleton.1 hid]
        exact hnone
      · rename_i inv hinv
        exact h.take hinv rfl rfl rfl rfl rfl (fun id' hid => List.mem_singleton.1 hid) rfl
    | expireDue now =>
      cases hn
      exact h.stay (List.nil_sublist _) rfl rfl (List.forall_mem_nil _) rfl
  | inserting invite =>
    cases hn
    exact h.store
  | finding dog id =>
    cases hn
    exact h.stay (List.nil_sublist _) rfl rfl (List.forall_mem_nil _) rfl
  | closing id inv =>
    cases hn
    exact h.clear rfl rfl (List.Perm.refl _) rfl rfl rfl
  | expiring now out due =>
    cases due with
    | nil => cases hn
    | cons id due =>
      cases hn
      simp only [exec]
      split
      · exact h.stay (List.nil_sublist _) rfl rfl (List.forall_mem_nil _) rfl
      · rename_i inv hinv
        exact h.take hinv rfl rfl rfl rfl rfl (List.forall_mem_nil _) rfl
  | expiringOne now out inv due =>
    cases hn
    exact h.clear rfl rfl List.perm_append_comm rfl rfl rfl
  | returned cl a => cases hn

/-! ## Runs -/

abbrev InvitePool : Type := Pool Section.Resp Answer Locked Nat

/-- Every call is made by a thread of its own; none has begun. -/
def begin (s₀ : InviteStore) (calls : List Call) : InvitePool := Pool.start { store := s₀ } (calls.map Call.run)

/-- The two maps agree: `open_for_dog` has the two dogs of each invite, and no other entries. -/
structure Agree (s : InviteStore) : Prop where
  keyed : ∀ {k inv}, s.get k = some inv → inv.id = k
  opened : ∀ d k, s.openForDog.lookup d = some k ↔ ∃ inv, s.get k = some inv ∧ inv.hasDog d

def Call.inserts : Call → List Invite
  | insert invite => [invite]
  | _ => []

/-- The ids of the invites to be inserted are new and distinct. -/
structure Fresh (s₀ : InviteStore) (calls : List Call) : Prop where
  apart : ((calls.flatMap Call.inserts).map (·.id)).Nodup
  new : ∀ inv ∈ calls.flatMap Call.inserts, s₀.get inv.id = none

/-- What a thread that has returned took. -/
def got : Sections Answer → List Invite
  | .done a => a.took
  | .call _ _ => []

/-- The invites that calls have returned as closed or expired. -/
def took (p : InvitePool) : List Invite := p.threads.flatMap got

theorem inv_begin {s₀ : InviteStore} {calls : List Call} (h : Agree s₀) (hf : Fresh s₀ calls) :
    Inv s₀ s₀ (calls.map .call) := by
  have hunborn : (calls.map Point.call).flatMap unborn = calls.flatMap Call.inserts :=
    flatMap_begun (fun c => by cases c <;> rfl) calls
  have htaken : (calls.map Point.call).flatMap taken = [] := flatMap_begun_nil (fun _ => rfl) calls
  have hentered : (calls.map Point.call).flatMap entered = [] := flatMap_begun_nil (fun _ => rfl) calls
  have hcloses : (calls.map Point.call).flatMap closes = [] := flatMap_begun_nil (fun _ => rfl) calls
  have hstored : (calls.map Point.call).flatMap stored = [] := flatMap_begun_nil (fun _ => rfl) calls
  refine ⟨⟨h.keyed, ?_, ?_⟩, ?_, ?_, ?_, ?_⟩
  · rw [hunborn, htaken, List.append_nil]
    exact hf.apart
  · intro x hx
    rw [hunborn, htaken, List.append_nil] at hx
    exact hf.new x hx
  · rw [hentered]
    exact Custody.exact_settled h.keyed h.opened
  · rw [hunborn]
    exact hf.new
  · rw [hcloses]
    exact List.forall_mem_nil _
  · rw [hstored]
    intro id hid
    refine .inl (hid.resolve_right ?_)
    exact List.not_mem_nil

/-- **Every run** keeps every invite in one place. -/
theorem inv_run {ord : Nat → IterOrder} {s₀ : InviteStore} {calls : List Call} (h : Agree s₀) (hf : Fresh s₀ calls)
    {sched : List (Nat × Nat)} (hm : (begin s₀ calls).Meets (exec ord) (Pool.Respects ready) sched) :
    ∃ pts, ((begin s₀ calls).run (exec ord) sched).threads = pts.map code ∧
      (Inv s₀ ((begin s₀ calls).run (exec ord) sched).state.store pts ∧ pts.map Point.of = calls) ∧
      ∀ i, Interleave.own i ((begin s₀ calls).run (exec ord) sched).log = [] →
        pts[i]? = (calls.map Point.call)[i]? := by
  refine Pool.run_points (J := fun s _ pts => Inv s₀ s.store pts ∧ pts.map Point.of = calls) traces
    (fun s log a pt b t c f hJ hn _ => ⟨?_, ?_⟩) sched (begin s₀ calls) (calls.map .call) ?_ ⟨inv_begin h hf, ?_⟩ hm
  · exact ((hJ.1.perm List.perm_middle.symm).step hn).perm List.perm_middle
  · exact (map_middle (of_next hn _) a b).trans hJ.2
  · rw [List.map_map]
    rfl
  · rw [List.map_map]
    exact List.map_id _

theorem point_of_done {pt : Point} {a : Answer} (h : pt.code = .done a) :
    pt = .returned pt.of a ∨ ∃ now out, pt = .expiring now out [] := by
  have hnext : pt.next = none := by
    cases hn : pt.next with
    | none => rfl
    | some cf =>
      rw [traces.call hn] at h
      cases h
  cases pt with
  | call c => cases c <;> cases hnext
  | expiring now out due =>
    cases due with
    | nil => exact .inr ⟨now, out, rfl⟩
    | cons id due => cases hnext
  | returned c a' =>
    cases h
    exact .inl rfl
  | _ => cases hnext

/-! ## A call that goes for an invite -/

/-- What is left of the call will look for the id in `by_id` and take it out. -/
def Point.seeks (id : InviteId) : Point → Prop
  | call (.close id') => id' = id
  | expiring _ _ due => id ∈ due
  | expiringOne _ _ _ due => id ∈ due
  | _ => False

/-- The id is not in the store, or thread `i` will look for it; nobody inserts it any more. -/
structure Sought (id : InviteId) (i : Nat) (s : InviteStore) (pts : List Point) : Prop where
  known : ∀ x ∈ pts.flatMap unborn, x.id ≠ id
  sought : s.get id = none ∨ ∃ pt, pts[i]? = some pt ∧ pt.seeks id

section

variable {ord : Nat → IterOrder} {n : Nat} {l : Locked} {c : Section} {f : c.Resp → Point} {id : InviteId}

theorem unborn_next (hn : pt.next = some ⟨c, f⟩) (r : c.Resp) : (unborn (f r)).Sublist (unborn pt) := by
  cases pt with
  | call cl =>
    cases cl with
    | insert invite => cases hn; cases r <;> [exact List.Sublist.refl _; exact List.nil_sublist _]
    | forDog dog => cases hn; cases r <;> exact List.nil_sublist _
    | close id => cases hn; cases r <;> exact List.nil_sublist _
    | _ => cases hn; exact List.nil_sublist _
  | expiring now out due =>
    cases due with
    | nil => cases hn
    | cons id due => cases hn; cases r <;> exact List.nil_sublist _
  | returned cl a => cases hn
  | _ => cases hn; exact List.nil_sublist _

/-- **An id that nobody inserts stays away.** -/
theorem get_next (hn : pt.next = some ⟨c, f⟩) (hnew : ∀ x ∈ unborn pt, x.id ≠ id) (hs : l.store.get id = none) :
    (exec ord n c l).2.store.get id = none := by
  have herase : ∀ k, ({ l.store with byId := l.store.byId.erase k } : InviteStore).get id = none := by
    intro k
    rw [get_erase_byId, hs]
    exact ite_self none
  cases c with
  | insertOpen invite =>
    simp only [exec]
    split <;> exact hs
  | insertById invite =>
    have hpt : pt = .inserting invite := by
      cases pt with
      | call cl => cases cl <;> cases hn
      | expiring now out due => cases due <;> cases hn
      | inserting invite' => cases hn; rfl
      | returned cl a => cases hn
      | _ => cases hn
    subst hpt
    show ({ l.store with byId := l.store.byId.insert invite.id invite } : InviteStore).get id = none
    rw [get_insert_byId, if_neg (Ne.symm (hnew invite (List.mem_singleton_self _)))]
    exact hs
  | removeById k =>
    simp only [exec]
    split
    · exact hs
    · exact herase k
  | forDogOpen dog =>
    simp only [exec]
    split <;> exact hs
  | _ => exact hs

/-- A thread that looks for the id still does, or has seen to it that it is not there. -/
theorem seeks_next (hn : pt.next = some ⟨c, f⟩) (hseeks : pt.seeks id) :
    (exec ord n c l).2.store.get id = none ∨ (f (exec ord n c l).1).seeks id := by
  have hremoved : ∀ {k}, (exec ord n (.removeById k) l).2.store.get k = none := by
    intro k
    simp only [exec]
    split
    · assumption
    · rw [get_erase_byId, if_pos rfl]
  cases pt with
  | call cl =>
    cases cl with
    | close id' =>
      obtain rfl : id' = id := hseeks
      cases hn
      exact .inl hremoved
    | _ => cases hseeks
  | expiring now out due =>
    cases due with
    | nil => cases hn
    | cons id' due =>
      cases hn
      rcases List.mem_cons.1 hseeks with rfl | hmem
      · exact .inl hremoved
      · refine .inr ?_
        show Point.seeks id (Option.elim (exec ord n (.removeById id') l).1 _ _)
        cases (exec ord n (.removeById id') l).1 <;> exact hmem
  | expiringOne now out inv due =>
    cases hn
    exact .inr hseeks
  | _ => cases hseeks

/-- **One section** of any thread. -/
theorem Sought.step {i : Nat} {a b : List Point} (h : Sought id i l.store (a ++ pt :: b))
    (hn : pt.next = some ⟨c, f⟩) :
    Sought id i (exec ord n c l).2.store (a ++ f (exec ord n c l).1 :: b) where
  known x hx := by
    have hsub : ((a ++ f (exec ord n c l).1 :: b).flatMap unborn).Sublist ((a ++ pt :: b).flatMap unborn) := by
      simp only [List.flatMap_append, List.flatMap_cons]
      exact (List.Sublist.refl _).append ((unborn_next hn _).append (List.Sublist.refl _))
    exact h.known x (hsub.subset hx)
  sought := by
    have hnew : ∀ x ∈ unborn pt, x.id ≠ id := fun x hx =>
      h.known x (List.mem_flatMap.2 ⟨pt, List.mem_append_right _ List.mem_cons_self, hx⟩)
    rcases h.sought with hgone | ⟨pt', hpt', hseeks⟩
    · exact .inl (get_next hn hnew hgone)
    · by_cases hi : i = a.length
      · subst hi
        rw [List.getElem?_append_right (Nat.le_refl _), Nat.sub_self] at hpt'
        obtain rfl := Option.some.inj hpt'
        refine (seeks_next hn hseeks).imp_right (fun hseeks' => ⟨_, ?_, hseeks'⟩)
        rw [List.getElem?_append_right (Nat.le_refl _), Nat.sub_self]
        rfl
      · refine .inr ⟨pt', ?_, hseeks⟩
        have hset : a ++ f (exec ord n c l).1 :: b = (a ++ pt :: b).set a.length (f (exec ord n c l).1) := by simp
        rw [hset, List.getElem?_set_ne (Ne.symm hi)]
        exact hpt'

end

/-- **A thread that has returned has seen to it** that the id it was to look for is not there. -/
theorem Sought.run {ord : Nat → IterOrder} {id : InviteId} {i : Nat} {p : InvitePool} {pts : List Point}
    (h : Sought id i p.state.store pts) (hp : p.threads = pts.map code) {sched : List (Nat × Nat)}
    (hm : p.Meets (exec ord) (Pool.Respects ready) sched) {a : Answer}
    (ha : (p.run (exec ord) sched).threads[i]? = some (.done a)) :
    (p.run (exec ord) sched).state.store.get id = none := by
  obtain ⟨pts', hthreads, hend, -⟩ := Pool.run_points (J := fun s _ pts => Sought id i s.store pts) traces
    (fun s log a pt b t c f hJ hn _ => hJ.step hn) sched p pts hp h hm
  refine hend.sought.resolve_right (fun ⟨pt, hpt, hseeks⟩ => ?_)
  rw [hthreads, List.getElem?_map, hpt] at ha
  rcases point_of_done (Option.some.inj ha) with hr | ⟨now, out, rfl⟩
  · rw [hr] at hseeks
    exact hseeks
  · cases hseeks

/-- An id that `insert` has been answered `Ok` for. -/
def Inserted (calls : List Call) (p : InvitePool) (id : InviteId) : Prop :=
  ∃ (i : Nat) (inv : Invite), calls[i]? = some (.insert inv) ∧ inv.id = id ∧
    p.threads[i]? = some (.done (.inserted (.ok ())))

/-- The invite is not in the store, and with no call in progress no dog is in it. -/
def Out (p : InvitePool) (id : InviteId) : Prop :=
  p.state.store.get id = none ∧ (p.Quiet → ∀ d, p.state.store.openForDog.lookup d ≠ some id)

/-- The calls after a schedule. -/
abbrev after (ord : Nat → IterOrder) (s₀ : InviteStore) (calls : List Call) (sched : List (Nat × Nat)) : InvitePool :=
  (begin s₀ calls).run (exec ord) sched

/-- **What every run leaves.**  With no call in progress the two maps agree, and an invite that was in the store at the
start or was inserted is there or has been returned by exactly one call.  At any moment a dog is in at most one open
invite, and the dogs of a returned invite are free of it.  A `close` that has returned and began once the invite was
inserted, or with it in the store, leaves it out; and so does an `expire_due` that has returned with every invite that
was in the store and due when it began. -/
structure Sound (ord : Nat → IterOrder) (s₀ : InviteStore) (calls : List Call) (sched : List (Nat × Nat))
    (p : InvitePool) : Prop where
  agree : p.Quiet → Agree p.state.store
  once : ∀ {k k' inv inv' d}, p.state.store.get k = some inv → inv.hasDog d → p.state.store.get k' = some inv' →
    inv'.hasDog d → k = k'
  conserved : p.Quiet → ∀ id, s₀.get id ≠ none ∨ Inserted calls p id →
    p.state.store.get id ≠ none ∧ ((took p).map (·.id)).count id = 0 ∨
      p.state.store.get id = none ∧ ((took p).map (·.id)).count id = 1
  closed : ∀ {before rest i id a}, sched = before ++ rest → calls[i]? = some (.close id) →
    Interleave.own i (after ord s₀ calls before).log = [] →
    s₀.get id ≠ none ∨ Inserted calls (after ord s₀ calls before) id → p.threads[i]? = some (.done a) → Out p id
  expired : ∀ {before i t rest now id inv a}, sched = before ++ (i, t) :: rest → calls[i]? = some (.expireDue now) →
    Interleave.own i (after ord s₀ calls before).log = [] →
    (after ord s₀ calls before).state.store.get id = some inv → inv.expiresAt ≤ now →
    p.threads[i]? = some (.done a) → Out p id
  sole : ∀ id, ((took p).map (·.id)).count id ≤ 1
  freed : ∀ inv ∈ took p, p.state.store.get inv.id = none ∧ ∀ d, p.state.store.openForDog.lookup d ≠ some inv.id

/-- A thread that has returned has entered nothing it has not cleared, and has what it returned. -/
theorem entered_got_subperm (pts : List Point) :
    List.Subperm (pts.flatMap entered ++ pts.flatMap (fun pt => got pt.code))
      (pts.flatMap unborn ++ pts.flatMap taken) := by
  refine (List.flatMap_append_perm pts entered _).subperm.trans ((flatMap_subperm (fun pt => ?_) pts).trans
    (List.flatMap_append_perm pts unborn taken).symm.subperm)
  cases pt with
  | call c => cases c <;> exact List.nil_subperm
  | inserting invite => exact List.Subperm.refl _
  | closing id inv => exact List.Subperm.refl _
  | expiringOne now out inv due => exact (List.sublist_append_left [inv] out).subperm
  | expiring now out due => cases due <;> [exact List.Subperm.refl _; exact List.nil_subperm]
  | finding dog id => exact List.nil_subperm
  | returned c a => exact List.Subperm.refl _

/-- A thread that is not in the middle of a call has entered nothing, and what it has taken it has returned. -/
theorem settled {pt : Point} (h : (∃ a, pt.code = .done a) ∨ ∃ c, pt = .call c) :
    entered pt = [] ∧ got pt.code = taken pt := by
  rcases h with ⟨a, ha⟩ | ⟨c, rfl⟩
  · rcases point_of_done ha with hpt | ⟨now, out, rfl⟩
    · rw [hpt]
      exact ⟨rfl, rfl⟩
    · exact ⟨rfl, rfl⟩
  · cases c <;> exact ⟨rfl, rfl⟩

/-- The point of a thread whose call has returned, `expire_due` apart. -/
theorem returned_mem {calls : List Call} {p : InvitePool} {pts : List Point} (hthreads : p.threads = pts.map code)
    (hof : pts.map Point.of = calls) {i : Nat} {c : Call} {a : Answer} (hc : calls[i]? = some c)
    (hi : p.threads[i]? = some (.done a)) (hexp : ∀ now, c ≠ .expireDue now) : Point.returned c a ∈ pts := by
  rw [hthreads, List.getElem?_map, Option.map_eq_some_iff] at hi
  obtain ⟨pt, hpt, hcode⟩ := hi
  rw [← hof, List.getElem?_map, hpt] at hc
  obtain rfl : pt.of = c := Option.some.inj hc
  rcases point_of_done hcode with hr | ⟨now, out, rfl⟩
  · rw [← hr]
    exact List.mem_of_getElem? hpt
  · exact absurd rfl (hexp now)

theorem Inserted.stored {calls : List Call} {p : InvitePool} {pts : List Point} (hthreads : p.threads = pts.map code)
    (hof : pts.map Point.of = calls) {id : InviteId} (h : Inserted calls p id) :
    id ∈ (pts.flatMap Point.stored).map (·.id) := by
  obtain ⟨i, inv, hc, rfl, hi⟩ := h
  have hpt := returned_mem hthreads hof hc hi (fun _ => Call.noConfusion)
  exact List.mem_map_of_mem (List.mem_flatMap.2 ⟨_, hpt, List.mem_singleton_self inv⟩)

/-- An id of the start, or of an invite that has been inserted, is inserted no more. -/
theorem Inv.known (h : Inv s₀ s pts) {id : InviteId}
    (hid : s₀.get id ≠ none ∨ id ∈ (pts.flatMap stored).map (·.id)) : ∀ x ∈ pts.flatMap unborn, x.id ≠ id := by
  rintro x hx rfl
  have hmoved : x ∈ pts.flatMap unborn ++ pts.flatMap taken := List.mem_append_left _ hx
  rcases h.conserved x.id hid with hget | htaken
  · exact hget (h.kept.apart hmoved)
  · have hsole := h.kept.sole
    rw [List.map_append, List.nodup_append] at hsole
    exact hsole.2.2 _ (List.mem_map_of_mem hx) _ htaken rfl

section

variable {ord : Nat → IterOrder} {calls : List Call} {before rest : List (Nat × Nat)} {i : Nat} {id : InviteId}
  {a : Answer}

/-- **A `close` that has returned leaves out** every id that was there when it began. -/
theorem closed_run (h : Agree s₀) (hf : Fresh s₀ calls)
    (hm : (begin s₀ calls).Meets (exec ord) (Pool.Respects ready) (before ++ rest))
    (hc : calls[i]? = some (.close id)) (hown : Interleave.own i (after ord s₀ calls before).log = [])
    (hid : s₀.get id ≠ none ∨ Inserted calls (after ord s₀ calls before) id)
    (ha : (after ord s₀ calls (before ++ rest)).threads[i]? = some (.done a)) :
    (after ord s₀ calls (before ++ rest)).state.store.get id = none := by
  obtain ⟨hbefore, hrest⟩ := hm.append
  obtain ⟨pts, hthreads, ⟨hinv, hof⟩, hsame⟩ := inv_run h hf hbefore
  have hpt : pts[i]? = some (.call (.close id)) := by
    rw [hsame i hown, List.getElem?_map, hc]
    rfl
  have hsought : Sought id i (after ord s₀ calls before).state.store pts :=
    ⟨hinv.known (hid.imp_right (Inserted.stored hthreads hof)), .inr ⟨_, hpt, rfl⟩⟩
  rw [after, Pool.run_append] at ha ⊢
  exact hsought.run hthreads hrest ha

/-- **An `expire_due` that has returned leaves out** every invite that was there and due when it began. -/
theorem expired_run (h : Agree s₀) (hf : Fresh s₀ calls) {t : Nat} {now : DateTime} {inv : Invite}
    (hm : (begin s₀ calls).Meets (exec ord) (Pool.Respects ready) (before ++ (i, t) :: rest))
    (hc : calls[i]? = some (.expireDue now)) (hown : Interleave.own i (after ord s₀ calls before).log = [])
    (hget : (after ord s₀ calls before).state.store.get id = some inv) (hdue : inv.expiresAt ≤ now)
    (ha : (after ord s₀ calls (before ++ (i, t) :: rest)).threads[i]? = some (.done a)) :
    (after ord s₀ calls (before ++ (i, t) :: rest)).state.store.get id = none := by
  obtain ⟨hbefore, -, hrest⟩ := hm.append
  obtain ⟨pts, hthreads, ⟨hinv, hof⟩, hsame⟩ := inv_run h hf hbefore
  have hpt : pts[i]? = some (.call (.expireDue now)) := by
    rw [hsame i hown, List.getElem?_map, hc]
    rfl
  -- the first section collects the ids that are due
  have hstep : (after ord s₀ calls before).step (exec ord) (i, t) = _ := Pool.step_points traces hthreads hpt rfl
  have hcollected : id ∈ (exec ord t (.collectDue now) (after ord s₀ calls before).state).1 := by
    have hentry : (⟨id, inv⟩ : (_ : InviteId) × Invite) ∈ (after ord s₀ calls before).state.store.byId.entries :=
      AList.mem_lookup_iff.1 hget
    have hvisited := ((ord t).perm (after ord s₀ calls before).state.store.byId.entries).mem_iff.2 hentry
    exact List.mem_map_of_mem (List.mem_filter.2 ⟨hvisited, decide_eq_true hdue⟩)
  have hsought : Sought id i ((after ord s₀ calls before).step (exec ord) (i, t)).state.store
      (pts.set i (.expiring now [] (exec ord t (.collectDue now) (after ord s₀ calls before).state).1)) := by
    rw [hstep]
    refine ⟨fun x hx => ?_, .inr ⟨_, List.getElem?_set_self (List.getElem?_eq_some_iff.1 hpt).1, hcollected⟩⟩
    obtain ⟨pt, hpt', hx⟩ := List.mem_flatMap.1 hx
    have hnew : ∀ y ∈ pts.flatMap unborn, y.id ≠ id := by
      rintro y hy rfl
      cases (hinv.kept.apart (List.mem_append_left _ hy)).symm.trans hget
    rcases List.mem_or_eq_of_mem_set hpt' with hmem | rfl
    · exact hnew x (List.mem_flatMap.2 ⟨pt, hmem, hx⟩)
    · cases hx
  rw [after, Pool.run_append] at ha ⊢
  exact hsought.run (congrArg Pool.threads hstep) hrest ha

end

/-- **The invite store's two maps never disagree.** -/
theorem invites_sound (ord : Nat → IterOrder) (s₀ : InviteStore) (calls : List Call) (h : Agree s₀)
    (hf : Fresh s₀ calls) (sched : List (Nat × Nat))
    (hm : (begin s₀ calls).Meets (exec ord) (Pool.Respects ready) sched) :
    Sound ord s₀ calls sched (after ord s₀ calls sched) := by
  obtain ⟨pts, hthreads, ⟨hinv, hof⟩, hsame⟩ := inv_run h hf hm
  have htook : took (after ord s₀ calls sched) = pts.flatMap (fun pt => got pt.code) := by
    unfold took
    rw [hthreads, List.flatMap_map]
  have hsole := (hinv.kept.subperm (entered_got_subperm pts)).sole
  rw [← htook, List.map_append, List.nodup_append] at hsole
  have happart : ∀ {inv}, inv ∈ took (after ord s₀ calls sched) →
      (after ord s₀ calls sched).state.store.get inv.id = none := fun hinv' =>
    hinv.kept.apart ((entered_got_subperm pts).subset (List.mem_append_right _ (htook ▸ hinv')))
  have hquiet : (after ord s₀ calls sched).Quiet →
      pts.flatMap entered = [] ∧ pts.flatMap taken = took (after ord s₀ calls sched) := by
    intro hq
    have hall : ∀ pt ∈ pts, (∃ a, pt.code = .done a) ∨ ∃ c, pt = .call c := fun pt hpt =>
      (hq.points hthreads hsame pt hpt).imp_right (fun hstart => by
        obtain ⟨c, -, rfl⟩ := List.mem_map.1 hstart
        exact ⟨c, rfl⟩)
    refine ⟨List.flatMap_eq_nil_iff.2 (fun pt hpt => (settled (hall pt hpt)).1), ?_⟩
    rw [htook]
    exact List.flatMap_congr (fun pt hpt => (settled (hall pt hpt)).2.symm)
  have hagree : (after ord s₀ calls sched).Quiet → Agree (after ord s₀ calls sched).state.store := by
    refine fun hq => ⟨hinv.kept.keyed, fun d k => ?_⟩
    have hexact := hinv.exact
    rw [(hquiet hq).1] at hexact
    exact hexact.settled hinv.kept d k
  have hout : ∀ {id}, (after ord s₀ calls sched).state.store.get id = none → Out (after ord s₀ calls sched) id := by
    refine fun hgone => ⟨hgone, fun hq d hopen => ?_⟩
    obtain ⟨inv, hget, -⟩ := ((hagree hq).opened d _).1 hopen
    rw [hgone] at hget
    cases hget
  refine ⟨hagree, ?_, fun hq id hid => ?_, ?_, ?_, ?_, ?_⟩
  · intro k k' inv inv' d hk hd hk' hd'
    have hopen := hinv.exact.stored hinv.kept hk hd
    have hopen' := hinv.exact.stored hinv.kept hk' hd'
    exact Option.some.inj (hopen.symm.trans hopen')
  · have hkept := hinv.conserved id (hid.imp_right (Inserted.stored hthreads hof))
    rw [(hquiet hq).2] at hkept
    cases hget : (after ord s₀ calls sched).state.store.get id with
    | some inv =>
      refine .inl ⟨Option.some_ne_none inv, List.count_eq_zero.2 (fun hmem => ?_)⟩
      obtain ⟨x, hx, rfl⟩ := List.mem_map.1 hmem
      rw [happart hx] at hget
      cases hget
    | none =>
      exact .inr ⟨rfl, List.count_eq_one_of_mem hsole.2.1 (hkept.resolve_left (fun hne => hne hget))⟩
  · rintro before rest i id a rfl hc hown hid ha
    exact hout (closed_run h hf hm hc hown hid ha)
  · rintro before i t rest now id inv a rfl hc hown hget hdue ha
    exact hout (expired_run h hf hm hc hown hget hdue ha)
  · exact fun id => List.nodup_iff_count_le_one.1 hsole.2.1 id
  · intro inv htaken
    refine ⟨happart htaken, fun d => ?_⟩
    exact hinv.exact.cleared hinv.kept (entered_got_subperm pts) (htook ▸ htaken) d

/-- An invite of dog 1 to dog 2. -/
def ring (id : InviteId) : Invite where
  id := id
  fromDog := ⟨1⟩
  toDog := ⟨2⟩
  mode := .portal
  state := .ringing
  createdAt := .unixEpoch
  expiresAt := .unixEpoch

theorem agree_empty : Agree {} where
  keyed h := by cases h
  opened _ _ := by
    refine ⟨fun h => ?_, fun ⟨_, h, _⟩ => ?_⟩
    · cases h
    · cases h

/-- An invite is inserted, an expiry and a close both go for it, and another thread looks for it while it is half
closed. -/
def contested : List Call := [.insert (ring ⟨7⟩), .expireDue .unixEpoch, .close ⟨7⟩, .forDog ⟨1⟩]

/-- The expiry collects the invite first, and the close is there before it. -/
def halfClosed : List (Nat × Nat) := [(0, 0), (0, 0), (1, 0), (2, 0), (1, 0), (3, 0), (3, 0), (2, 0)]

theorem invites_sound_closes : Agree (after (fun _ => .stored) {} contested halfClosed).state.store ∧
    Out (after (fun _ => .stored) {} contested halfClosed) ⟨7⟩ := by
  have hsound := invites_sound (fun _ => .stored) {} contested agree_empty ⟨by decide, by decide⟩ halfClosed (by decide)
  have hcollects : halfClosed = [(0, 0), (0, 0)] ++ (1, 0) :: halfClosed.drop 3 := rfl
  have hringing : (after (fun _ => .stored) {} contested [(0, 0), (0, 0)]).state.store.get ⟨7⟩ = some (ring ⟨7⟩) := rfl
  exact ⟨hsound.agree (by decide), hsound.expired hcollects rfl rfl hringing (le_refl _) rfl⟩

end InviteSections
end CanisLink
