import CanisLink.Memory
/-!
# Stores — what each store call leaves in the stores

`InviteStore` and `SessionStore` each keep an index from dogs to entries next to the entries themselves.  `Consistent`
says that the index knows every entry; every call keeps it.  The other lemmas read an entry back after a call.
-/
namespace CanisLink

theorem lookup_eq_none_of_not_mem {K V : Type} [DecidableEq K] {m : HashMap K V} {k : K} (h : k ∉ m) :
    m.lookup k = none :=
  AList.lookup_eq_none.2 h

/-! ## Invites -/

namespace InviteStore

/-- Entries lie under their own id, and the index knows both dogs of each. -/
structure Consistent (s : InviteStore) : Prop where
  keyed : ∀ {id inv}, s.get id = some inv → inv.id = id
  indexed : ∀ {id inv d}, s.get id = some inv → inv.hasDog d → s.openForDog.lookup d = some id

theorem insert_ok {s s' : InviteStore} {inv : Invite} (h : s.insert inv = .ok s') :
    s.openForDog.lookup inv.fromDog = none ∧ s.openForDog.lookup inv.toDog = none ∧ s' = { s with
      openForDog := (s.openForDog.insert inv.fromDog inv.id).insert inv.toDog inv.id
      byId := s.byId.insert inv.id inv } := by
  unfold insert at h
  split at h
  · cases h
  · rename_i hb
    rw [not_or] at hb
    exact ⟨lookup_eq_none_of_not_mem hb.1, lookup_eq_none_of_not_mem hb.2, (Except.ok.inj h).symm⟩

theorem get_insert {s s' : InviteStore} {inv : Invite} (h : s.insert inv = .ok s') (k : InviteId) :
    s'.get k = if k = inv.id then some inv else s.get k := by
  rw [(insert_ok h).2.2]
  exact HashMap.lookup_insert _ _ _ _

theorem close_fst (s : InviteStore) (id : InviteId) : (s.close id).1 = s.get id := by
  unfold close get
  split
  · rename_i h; rw [h]
  · rename_i h; rw [h]

theorem get_close (s : InviteStore) (id k : InviteId) : (s.close id).2.get k = if k = id then none else s.get k := by
  unfold close
  split
  · rename_i h
    by_cases hk : k = id
    · rw [if_pos hk, hk]; exact h
    · rw [if_neg hk]
  · exact HashMap.lookup_erase _ _ _

theorem inviteTimes_close (s : InviteStore) (id : InviteId) : (s.close id).2.inviteTimes = s.inviteTimes := by
  unfold close
  split <;> rfl

theorem inviteTimes_closeAll : ∀ (ids : List InviteId) (s : InviteStore),
    (closeAll ids s).2.inviteTimes = s.inviteTimes
  | [], _ => rfl
  | id :: ids, s => by
    have hclose := inviteTimes_close s id
    unfold closeAll
    split
    · rename_i inv s' h
      rw [h] at hclose
      exact (inviteTimes_closeAll ids s').trans hclose
    · rename_i s' h
      rw [h] at hclose
      exact (inviteTimes_closeAll ids s').trans hclose

theorem get_closeAll (ids : List InviteId) (s : InviteStore) (k : InviteId) :
    (closeAll ids s).2.get k = if k ∈ ids then none else s.get k := by
  induction ids generalizing s with
  | nil => rfl
  | cons id ids ih =>
    have hc := get_close s id k
    rw [closeAll]
    split <;> (rename_i s' hs; rw [hs] at hc; simp only [ih, hc, List.mem_cons]; split <;> simp_all)

theorem mem_closeAll (ids : List InviteId) (s : InviteStore) (inv : Invite) :
    inv ∈ (closeAll ids s).1 ↔ ∃ id ∈ ids, s.get id = some inv := by
  induction ids generalizing s with
  | nil => simp [closeAll]
  | cons id ids ih =>
    have hf := close_fst s id
    have hg := get_close s id
    rw [closeAll]
    split
    · rename_i inv' s' hs
      rw [hs] at hf hg
      simp only [List.mem_cons, ih, hg, exists_eq_or_imp, ← hf, Option.some.injEq]
      constructor
      · rintro (rfl | ⟨k, hk, h⟩)
        · exact .inl rfl
        · split at h
          · cases h
          · exact .inr ⟨k, hk, h⟩
      · rintro (h | ⟨k, hk, h⟩)
        · exact .inl h.symm
        · by_cases hkid : k = id
          · rw [hkid, ← hf] at h
            exact .inl (Option.some.inj h).symm
          · exact .inr ⟨k, hk, by rw [if_neg hkid]; exact h⟩
    · rename_i s' hs
      rw [hs] at hf hg
      simp only [List.mem_cons, ih, hg, exists_eq_or_imp, ← hf]
      constructor
      · rintro ⟨k, hk, h⟩
        split at h
        · cases h
        · exact .inr ⟨k, hk, h⟩
      · rintro (h | ⟨k, hk, h⟩)
        · cases h
        · by_cases hkid : k = id
          · rw [hkid, ← hf] at h; cases h
          · exact ⟨k, hk, by rw [if_neg hkid]; exact h⟩

theorem mem_due (ord : IterOrder) (s : InviteStore) (now : DateTime) (k : InviteId) :
    k ∈ ((ord.visit s.byId.entries).filter (fun p => decide (now ≥ p.2.expiresAt))).map (·.1) ↔
      ∃ inv, s.get k = some inv ∧ inv.expiresAt ≤ now := by
  simp only [List.mem_map, List.mem_filter, ord.mem_visit, decide_eq_true_eq]
  constructor
  · rintro ⟨⟨k', inv⟩, ⟨h, hd⟩, rfl⟩
    exact ⟨inv, AList.mem_lookup_iff.2 h, hd⟩
  · rintro ⟨inv, h, hd⟩
    exact ⟨⟨k, inv⟩, ⟨AList.mem_lookup_iff.1 h, hd⟩, rfl⟩

/-- **Expiry keeps exactly the entries that are not due.** -/
theorem get_expireDue (ord : IterOrder) (s : InviteStore) (now : DateTime) (k : InviteId) :
    (s.expireDue ord now).2.get k = (s.get k).filter (fun inv => !isExpired inv now) := by
  rw [expireDue, get_closeAll]
  simp only [mem_due]
  cases hk : s.get k with
  | none => simp
  | some inv =>
    by_cases hd : inv.expiresAt ≤ now
    · rw [if_pos ⟨inv, rfl, hd⟩]
      simp [Option.filter, isExpired, hd]
    · rw [if_neg (by rintro ⟨inv', h, hd'⟩; cases h; exact hd hd')]
      simp [Option.filter, isExpired, hd]

theorem mem_expireDue (ord : IterOrder) (s : InviteStore) (now : DateTime) (inv : Invite) :
    inv ∈ (s.expireDue ord now).1 ↔ ∃ id, s.get id = some inv ∧ inv.expiresAt ≤ now := by
  rw [expireDue, mem_closeAll]
  simp only [mem_due]
  constructor
  · rintro ⟨id, ⟨inv', h, hd⟩, h'⟩
    rw [h] at h'
    cases h'
    exact ⟨id, h, hd⟩
  · rintro ⟨id, h, hd⟩
    exact ⟨id, ⟨inv, h, hd⟩, h⟩

theorem get_invitesLastHour (s : InviteStore) (d : DogId) (now : DateTime) (k : InviteId) :
    (s.invitesLastHour d now).2.get k = s.get k := by
  unfold invitesLastHour
  split <;> rfl

namespace Consistent

theorem empty : Consistent {} where
  keyed h := by cases h
  indexed h := by cases h

theorem insert {s s' : InviteStore} {inv : Invite} (hs : s.Consistent) (h : s.insert inv = .ok s') : s'.Consistent := by
  obtain ⟨hf, ht, rfl⟩ := insert_ok h
  have hg := get_insert h
  constructor
  · intro k x hk
    rw [hg] at hk
    split at hk
    · rename_i e; rw [← Option.some.inj hk, e]
    · exact hs.keyed hk
  · intro k x d hk hd
    rw [hg] at hk
    simp only [HashMap.lookup_insert]
    split at hk
    · rename_i e
      cases hk
      rcases hd with rfl | rfl
      · by_cases hft : inv.fromDog = inv.toDog
        · rw [if_pos hft, e]
        · rw [if_neg hft, if_pos rfl, e]
      · rw [if_pos rfl, e]
    · have hi := hs.indexed hk hd
      rw [if_neg (by rintro rfl; rw [ht] at hi; cases hi), if_neg (by rintro rfl; rw [hf] at hi; cases hi)]
      exact hi

theorem close {s : InviteStore} (hs : s.Consistent) (id : InviteId) : (s.close id).2.Consistent := by
  have hg := get_close s id
  constructor
  · intro k x hk
    rw [hg] at hk
    split at hk
    · cases hk
    · exact hs.keyed hk
  · intro k x d hk hd
    rw [hg] at hk
    split at hk
    · cases hk
    · rename_i hne
      have hi := hs.indexed hk hd
      unfold InviteStore.close
      split
      · exact hi
      · rename_i inv hinv
        have hn : ∀ d', inv.hasDog d' → d ≠ d' := by
          rintro d' hd' rfl
          rw [hs.indexed hinv hd'] at hi
          exact hne (Option.some.inj hi).symm
        simp only [HashMap.lookup_erase]
        rw [if_neg (hn _ (.inr rfl)), if_neg (hn _ (.inl rfl))]
        exact hi

theorem closeAll : ∀ (ids : List InviteId) {s : InviteStore}, s.Consistent → (closeAll ids s).2.Consistent
  | [], _, hs => hs
  | id :: ids, s, hs => by
    have hc := hs.close id
    rw [InviteStore.closeAll]
    split
    · rename_i inv s' h
      rw [h] at hc
      exact closeAll ids hc
    · rename_i s' h
      rw [h] at hc
      exact closeAll ids hc

theorem expireDue {s : InviteStore} (hs : s.Consistent) (ord : IterOrder) (now : DateTime) :
    (s.expireDue ord now).2.Consistent := closeAll _ hs

theorem not_hasDog {s : InviteStore} (hs : s.Consistent) {d : DogId} (h : s.forDog d = none) {id : InviteId}
    {inv : Invite}
    (hg : s.get id = some inv) : ¬ inv.hasDog d := by
  intro hd
  unfold forDog at h
  rw [hs.indexed hg hd] at h
  exact absurd (h.symm.trans hg) (by simp)

theorem unique {s : InviteStore} (hs : s.Consistent) {d : DogId} {k k' : InviteId} {inv inv' : Invite}
    (h : s.get k = some inv) (hd : inv.hasDog d) (h' : s.get k' = some inv') (hd' : inv'.hasDog d) : k = k' :=
  Option.some.inj ((hs.indexed h hd).symm.trans (hs.indexed h' hd'))

end Consistent
end InviteStore

/-! ## Sessions -/

namespace SessionStore

/-- Entries lie under their own id, the index knows both dogs of each, and each has its media flags. -/
structure Consistent (s : SessionStore) : Prop where
  keyed : ∀ {id x}, s.get id = some x → x.id = id
  indexed : ∀ {id x d}, s.get id = some x → x.hasDog d → s.byDog.lookup d = some id
  flagged : ∀ {id x}, s.get id = some x → ∃ e, s.media.lookup id = some e

theorem insert_ok {s s' : SessionStore} {x : SessionRecord} (h : s.insert x = .ok s') :
    s.byDog.lookup x.dogA = none ∧ s.byDog.lookup x.dogB = none ∧ s' = {
      byDog := (s.byDog.insert x.dogA x.id).insert x.dogB x.id
      media := s.media.insert x.id { mediaA := false, mediaB := false }
      byId := s.byId.insert x.id x } := by
  unfold insert at h
  split at h
  · cases h
  · rename_i hb
    rw [not_or] at hb
    exact ⟨lookup_eq_none_of_not_mem hb.1, lookup_eq_none_of_not_mem hb.2, (Except.ok.inj h).symm⟩

theorem insert_free {s : SessionStore} {x : SessionRecord} (ha : s.byDog.lookup x.dogA = none)
    (hb : s.byDog.lookup x.dogB = none) : ∃ s', s.insert x = .ok s' :=
  ⟨_, if_neg (not_or.2 ⟨AList.lookup_eq_none.1 ha, AList.lookup_eq_none.1 hb⟩)⟩

theorem get_insert {s s' : SessionStore} {x : SessionRecord} (h : s.insert x = .ok s') (k : SessionId) :
    s'.get k = if k = x.id then some x else s.get k := by
  rw [(insert_ok h).2.2]
  exact HashMap.lookup_insert _ _ _ _

theorem update_fst (s : SessionStore) (id : SessionId) (f : SessionRecord → SessionRecord) :
    (s.update id f).1 = (s.get id).map f := by
  unfold update get
  split
  · rename_i h; rw [h]; rfl
  · rename_i x h; rw [h]; rfl

theorem get_update (s : SessionStore) (id k : SessionId) (f : SessionRecord → SessionRecord) :
    (s.update id f).2.get k = if k = id then (s.get k).map f else s.get k := by
  unfold update
  split
  · rename_i h
    by_cases hk : k = id
    · subst hk
      rw [if_pos rfl]
      show s.byId.lookup k = (s.byId.lookup k).map f
      rw [h]; rfl
    · rw [if_neg hk]
  · rename_i x h
    refine (HashMap.lookup_insert _ _ _ _).trans ?_
    by_cases hk : k = id
    · subst hk
      rw [if_pos rfl, if_pos rfl]
      show some (f x) = (s.byId.lookup k).map f
      rw [h]; rfl
    · rw [if_neg hk, if_neg hk]; rfl

theorem get_endSession (s : SessionStore) (id k : SessionId) :
    (s.endSession id).2.get k = if k = id then none else s.get k := by
  unfold endSession
  split
  · rename_i h
    by_cases hk : k = id
    · rw [if_pos hk, hk]; exact h
    · rw [if_neg hk]
  · exact HashMap.lookup_erase _ _ _

theorem mem_all {ord : IterOrder} {s : SessionStore} {x : SessionRecord} : x ∈ s.all ord ↔ ∃ id, s.get id = some x :=
  HashMap.mem_values

/-- The flags after one side reports `ready`. -/
def mark (x : SessionRecord) (dog : DogId) (ready : Bool) (e : SessionExtra) : Option SessionExtra :=
  if dog = x.dogA then some { e with mediaA := ready }
  else if dog = x.dogB then some { e with mediaB := ready }
  else none

/-- The record after the flags `e` are stored. -/
def promote (e : SessionExtra) (x : SessionRecord) : SessionRecord :=
  if e.mediaA && e.mediaB then { x with state := .active } else x

theorem promote_eq_or (e : SessionExtra) (x : SessionRecord) :
    promote e x = x ∨ promote e x = { x with state := .active } := by
  unfold promote
  split
  · exact .inr rfl
  · exact .inl rfl

@[simp] theorem promote_id (e : SessionExtra) (x : SessionRecord) : (promote e x).id = x.id := by
  rcases promote_eq_or e x with h | h <;> rw [h]
@[simp] theorem promote_dogA (e : SessionExtra) (x : SessionRecord) : (promote e x).dogA = x.dogA := by
  rcases promote_eq_or e x with h | h <;> rw [h]
@[simp] theorem promote_dogB (e : SessionExtra) (x : SessionRecord) : (promote e x).dogB = x.dogB := by
  rcases promote_eq_or e x with h | h <;> rw [h]

/-- **What `set_media_ready` can do**: nothing, or store the marked flags and promote the session that has both. -/
theorem setMediaReady_cases (s : SessionStore) (id : SessionId) (dog : DogId) (ready : Bool) :
    (s.setMediaReady id dog ready = (none, s) ∧
      ∀ x e, s.get id = some x → s.media.lookup id = some e → mark x dog ready e = none) ∨
    ∃ x e e' s', s.get id = some x ∧ s.media.lookup id = some e ∧ mark x dog ready e = some e' ∧
      s.setMediaReady id dog ready = (some (e'.mediaA && e'.mediaB, promote e' x), s') ∧
      s'.byDog = s.byDog ∧ s'.media = s.media.insert id e' ∧
      ∀ k, s'.get k = if k = id then some (promote e' x) else s.get k := by
  unfold setMediaReady
  split
  · rename_i x e hx he
    cases hm : mark x dog ready e with
    | none =>
      refine .inl ⟨?_, fun y f hy hf => ?_⟩
      · unfold mark at hm
        simp only [hm]
      · cases hx.symm.trans hy
        cases he.symm.trans hf
        exact hm
    | some e' =>
      right
      unfold mark at hm
      have hx' : s.byId.lookup id = some x := hx
      cases hb : (e'.mediaA && e'.mediaB) with
      | false =>
        have hp : promote e' x = x := by unfold promote; rw [hb]; rfl
        refine ⟨x, e, e', { s with media := s.media.insert id e' }, hx, he, hm, ?_, rfl, rfl, fun k => ?_⟩
        · simp only [hm, hb, hp, Bool.false_eq_true, if_false, get, hx', Option.map_some]
        · by_cases hk : k = id
          · rw [if_pos hk, hk, hp]; exact hx
          · rw [if_neg hk]; rfl
      | true =>
        have hp : promote e' x = { x with state := .active } := by unfold promote; rw [hb]; rfl
        refine ⟨x, e, e',
          { s with media := s.media.insert id e', byId := s.byId.insert id { x with state := .active } },
          hx, he, hm, ?_, rfl, rfl, fun k => ?_⟩
        · simp only [hm, hb, hp, if_true, update, hx', get, HashMap.lookup_insert, Option.map_some]
        · rw [hp]; exact HashMap.lookup_insert _ _ _ _
  · rename_i hnone
    exact .inl ⟨rfl, fun y f hy hf => absurd hf (hnone y f hy)⟩

namespace Consistent

theorem empty : Consistent {} where
  keyed h := by cases h
  indexed h := by cases h
  flagged h := by cases h

theorem insert {s s' : SessionStore} {x : SessionRecord} (hs : s.Consistent) (h : s.insert x = .ok s') :
    s'.Consistent := by
  obtain ⟨ha, hb, rfl⟩ := insert_ok h
  have hg := get_insert h
  constructor
  · intro k y hk
    rw [hg] at hk
    split at hk
    · rename_i e; rw [← Option.some.inj hk, e]
    · exact hs.keyed hk
  · intro k y d hk hd
    rw [hg] at hk
    simp only [HashMap.lookup_insert]
    split at hk
    · rename_i e
      cases hk
      rcases hd with rfl | rfl
      · by_cases hab : x.dogA = x.dogB
        · rw [if_pos hab, e]
        · rw [if_neg hab, if_pos rfl, e]
      · rw [if_pos rfl, e]
    · have hi := hs.indexed hk hd
      rw [if_neg (by rintro rfl; rw [hb] at hi; cases hi), if_neg (by rintro rfl; rw [ha] at hi; cases hi)]
      exact hi
  · intro k y hk
    simp only [HashMap.lookup_insert]
    split
    · exact ⟨_, rfl⟩
    · rename_i e
      rw [hg, if_neg e] at hk
      exact hs.flagged hk

/-- A change of one entry that keeps its id and its dogs. -/
theorem amend {s s' : SessionStore} (hs : s.Consistent) {id : SessionId} {x x' : SessionRecord} (hx : s.get id = some x)
    (hid : x'.id = x.id) (ha : x'.dogA = x.dogA) (hb : x'.dogB = x.dogB)
    (hg : ∀ k, s'.get k = if k = id then some x' else s.get k) (hdog : s'.byDog = s.byDog)
    (hmedia : ∀ {k y}, s.get k = some y → ∃ e, s'.media.lookup k = some e) : s'.Consistent := by
  constructor
  · intro k y hk
    rw [hg] at hk
    split at hk
    · rename_i e; rw [← Option.some.inj hk, hid, hs.keyed hx, e]
    · exact hs.keyed hk
  · intro k y d hk hd
    rw [hg] at hk
    rw [hdog]
    split at hk
    · rename_i e
      cases hk
      rw [e]
      refine hs.indexed hx ?_
      rcases hd with h | h
      · exact .inl (ha ▸ h)
      · exact .inr (hb ▸ h)
    · exact hs.indexed hk hd
  · intro k y hk
    rw [hg] at hk
    split at hk
    · rename_i e; rw [e]; exact hmedia hx
    · exact hmedia hk

theorem update {s : SessionStore} (hs : s.Consistent) (id : SessionId) {f : SessionRecord → SessionRecord}
    (hf : ∀ x, (f x).id = x.id ∧ (f x).dogA = x.dogA ∧ (f x).dogB = x.dogB) : (s.update id f).2.Consistent := by
  cases hx : s.get id with
  | none =>
    have : (s.update id f).2 = s := by
      unfold SessionStore.update
      rw [show s.byId.lookup id = none from hx]
    rw [this]; exact hs
  | some x =>
    obtain ⟨hid, ha, hb⟩ := hf x
    refine hs.amend hx hid ha hb (fun k => ?_) ?_ ?_
    · rw [get_update]
      by_cases hk : k = id
      · rw [if_pos hk, if_pos hk, hk, hx]; rfl
      · rw [if_neg hk, if_neg hk]
    · unfold SessionStore.update
      rw [show s.byId.lookup id = some x from hx]
    · unfold SessionStore.update
      rw [show s.byId.lookup id = some x from hx]
      exact hs.flagged

theorem setMediaReady {s : SessionStore} (hs : s.Consistent) (id : SessionId) (dog : DogId) (ready : Bool) :
    (s.setMediaReady id dog ready).2.Consistent := by
  rcases setMediaReady_cases s id dog ready with ⟨h, -⟩ | ⟨x, e, e', s', hx, he, hm, h, hd, hmed, hg⟩
  · rw [h]; exact hs
  · rw [h]
    refine hs.amend hx (by simp) (by simp) (by simp) hg hd (fun {k y} hk => ?_)
    rw [hmed, HashMap.lookup_insert]
    split
    · exact ⟨_, rfl⟩
    · exact hs.flagged hk

theorem endSession {s : SessionStore} (hs : s.Consistent) (id : SessionId) : (s.endSession id).2.Consistent := by
  have hg := get_endSession s id
  constructor
  · intro k x hk
    rw [hg] at hk
    split at hk
    · cases hk
    · exact hs.keyed hk
  · intro k x d hk hd
    rw [hg] at hk
    split at hk
    · cases hk
    · rename_i hne
      have hi := hs.indexed hk hd
      unfold SessionStore.endSession
      split
      · exact hi
      · rename_i y hy
        have hn : ∀ d', y.hasDog d' → d ≠ d' := by
          rintro d' hd' rfl
          rw [hs.indexed hy hd'] at hi
          exact hne (Option.some.inj hi).symm
        simp only [HashMap.lookup_erase]
        rw [if_neg (hn _ (.inr rfl)), if_neg (hn _ (.inl rfl))]
        exact hi
  · intro k x hk
    rw [hg] at hk
    split at hk
    · cases hk
    · rename_i hne
      unfold SessionStore.endSession
      split
      · exact hs.flagged hk
      · simp only [HashMap.lookup_erase]
        rw [if_neg hne]
        exact hs.flagged hk

theorem not_hasDog {s : SessionStore} (hs : s.Consistent) {d : DogId} (h : s.forDog d = none) {id : SessionId}
    {x : SessionRecord} (hg : s.get id = some x) : ¬ x.hasDog d := by
  intro hd
  unfold forDog at h
  rw [hs.indexed hg hd] at h
  exact absurd (h.symm.trans hg) (by simp)

theorem unique {s : SessionStore} (hs : s.Consistent) {d : DogId} {k k' : SessionId} {x x' : SessionRecord}
    (h : s.get k = some x) (hd : x.hasDog d) (h' : s.get k' = some x') (hd' : x'.hasDog d) : k = k' :=
  Option.some.inj ((hs.indexed h hd).symm.trans (hs.indexed h' hd'))

end Consistent
end SessionStore

/-! ## Policies -/

namespace PolicyStore

theorem ensure_fst (s : PolicyStore) (d : DogId) : (s.ensure d).1 = s.current d := by
  unfold ensure current
  split
  · rename_i p h; rw [h]; rfl
  · rename_i h; rw [h]; rfl

theorem current_ensure (s : PolicyStore) (d d' : DogId) : (s.ensure d).2.current d' = s.current d' := by
  unfold ensure
  split
  · rfl
  · rename_i h
    unfold current
    rw [HashMap.lookup_insert]
    by_cases hd : d' = d
    · rw [if_pos hd, hd, h]; rfl
    · rw [if_neg hd]

theorem current_set (s : PolicyStore) (p : DogPolicy) (d : DogId) :
    (s.set p).current d = if d = p.dogId then p else s.current d := by
  unfold set current
  rw [HashMap.lookup_insert]
  split <;> rfl

theorem current_bindTerminal (s : PolicyStore) (t : TerminalId) (d d' : DogId) :
    (s.bindTerminal t d).current d' = s.current d' := by
  unfold bindTerminal
  rw [current_ensure]
  rfl

end PolicyStore
end CanisLink
