import CanisLink.SavedSessions
/-!
# InvitesKept — a restart gives the open invites back

Only the tick deletes the rows of the invites that expire: `create_invite`, `incoming_invite` and `accept` sweep the
store and leave the rows.  A row left so comes before the row of a later invite of the same dogs, and the next restart
opens the old invite and finds the new one busy.  While no invite is made over such a row, and the clock is in the years
whose dates read back, a restart at any time finds the open invites as they were.
-/
namespace CanisLink

/-- The dogs between whom a call gets through. -/
def calledBy (st : AppState) (s : Server) (a : Arrival) : Option (DogId × DogId) :=
  match a.req with
  | .createInvite h b => (callThrough st s.world (a.clock 0) h b).map (fun peer => (b.dogId, peer))
  | _ => none

/-- **No row is left of the dogs** between whom a call gets through. -/
def NoStaleRow (st : AppState) (s : Server) (a : Arrival) : Prop :=
  ∀ dogs ∈ calledBy st s a, ∀ r ∈ s.world.db.invites, ∀ inv ∈ inviteOfRow st.formats (a.clock 0) r,
    isExpired inv (a.clock 0) = true → ¬ inv.hasDog dogs.1 ∧ ¬ inv.hasDog dogs.2

instance (st : AppState) (s : Server) (a : Arrival) : Decidable (NoStaleRow st s a) :=
  inferInstanceAs (Decidable (∀ _ ∈ _, _))

/-- The clock is in the years 0000 to 9999, and so is the end of a ring that begins then. -/
def Arrival.InCalendar (a : Arrival) : Prop :=
  ∀ k, (a.clock k).FourDigitYear ∧ ∀ t ∈ (a.clock k).plus (milliseconds RING_TIMEOUT_MS), t.FourDigitYear

/-! ## The index of sessions -/

namespace SessionStore

/-- The index knows no session that is gone, and every id has been drawn. -/
structure Sound (s : SessionStore) (u : Uuid) : Prop where
  peopled : s.Peopled
  drawn : ∀ {k x}, s.get k = some x → k.uuid < u

namespace Sound

variable {s s' : SessionStore} {u u' : Uuid}

theorem later (h : s.Sound u) (hu : u ≤ u') : s.Sound u' := ⟨h.peopled, fun hx => Nat.lt_of_lt_of_le (h.drawn hx) hu⟩

theorem insert (h : s.Sound u) {x : SessionRecord} (hi : s.insert x = .ok s') (hx : u ≤ x.id.uuid ∧ x.id.uuid < u') :
    s'.Sound u' := by
  have hg := get_insert hi
  constructor
  · intro d id hd
    rw [byDog_insert hi] at hd
    rw [hg]
    split at hd
    · rename_i hxd
      rw [if_pos (Option.some.inj hd).symm]
      exact ⟨x, rfl, hxd⟩
    · obtain ⟨y, hy, hyd⟩ := h.peopled hd
      have hne : id ≠ x.id := by
        rintro rfl
        exact absurd (h.drawn hy) (Nat.not_lt.2 hx.1)
      rw [if_neg hne]
      exact ⟨y, hy, hyd⟩
  · intro k y hy
    rw [hg] at hy
    split at hy
    · rename_i hk
      rw [hk]
      exact hx.2
    · exact Nat.lt_trans (h.drawn hy) (Nat.lt_of_le_of_lt hx.1 hx.2)

theorem amend (h : s.Sound u) {id : SessionId} {x x' : SessionRecord} (hx : s.get id = some x)
    (hg : ∀ k, s'.get k = if k = id then some x' else s.get k) (hdogs : ∀ d, x.hasDog d → x'.hasDog d)
    (hdog : s'.byDog = s.byDog) : s'.Sound u := by
  constructor
  · intro d k hd
    rw [hdog] at hd
    obtain ⟨y, hy, hyd⟩ := h.peopled hd
    rw [hg]
    split
    · rename_i hk
      rw [hk, hx] at hy
      cases hy
      exact ⟨x', rfl, hdogs d hyd⟩
    · exact ⟨y, hy, hyd⟩
  · intro k y hy
    rw [hg] at hy
    split at hy
    · rename_i hk
      rw [hk]
      exact h.drawn hx
    · exact h.drawn hy

theorem endSession (h : s.Sound u) (id : SessionId) : (s.endSession id).2.Sound u := by
  have hg := get_endSession s id
  constructor
  · intro d k hd
    rw [hg]
    cases hx : s.get id with
    | none =>
      have hsame : (s.endSession id).2 = s := by
        unfold SessionStore.endSession
        rw [show s.byId.lookup id = none from hx]
      rw [hsame] at hd
      obtain ⟨y, hy, hyd⟩ := h.peopled hd
      have hne : k ≠ id := by
        rintro rfl
        cases hx.symm.trans hy
      rw [if_neg hne]
      exact ⟨y, hy, hyd⟩
    | some x =>
      have hdog : (s.endSession id).2.byDog = (s.byDog.erase x.dogA).erase x.dogB := by
        unfold SessionStore.endSession
        rw [show s.byId.lookup id = some x from hx]
      rw [hdog, HashMap.lookup_erase, HashMap.lookup_erase] at hd
      split at hd
      · cases hd
      · rename_i hB
        split at hd
        · cases hd
        · rename_i hA
          obtain ⟨y, hy, hyd⟩ := h.peopled hd
          have hne : k ≠ id := by
            rintro rfl
            cases hx.symm.trans hy
            exact hyd.elim (fun e => hA e.symm) (fun e => hB e.symm)
          rw [if_neg hne]
          exact ⟨y, hy, hyd⟩
  · intro k y hy
    rw [hg] at hy
    split at hy
    · cases hy
    · exact h.drawn hy

theorem endSession_ledger (st : AppState) {l : Ledger} (h : l.sessions.Sound u) (id : SessionId) :
    (l.endSession st id).sessions.Sound u := by
  unfold Ledger.endSession
  rw [Ledger.save_sessions]
  exact h.endSession id

theorem endAll (st : AppState) : ∀ (ids : List SessionId) {l : Ledger}, l.sessions.Sound u →
    (l.endAll st ids).sessions.Sound u
  | [], _, h => h
  | id :: ids, _, h => endAll st ids (h.endSession_ledger st id)

end Sound
end SessionStore

theorem Handled.sound {st : AppState} {κ : Nat → DateTime} {n : Nat} {u : Uuid} {w : World} {r : Request} {l : Ledger}
    (h : Handled st κ n u w r l) (hu : w.nextUuid ≤ u) (hs : w.data.sessions.Sound w.nextUuid) :
    l.sessions.Sound u := by
  cases h with
  | rang => rw [Ledger.save_sessions]; exact hs.later hu
  | cancelled => rw [Ledger.save_sessions]; exact hs.later hu
  | began through begins drawn inserted =>
    rw [Ledger.save_sessions, Ledger.save_sessions]
    exact hs.insert inserted drawn
  | @marked h i b dog both x s caller set =>
    rw [Ledger.save_sessions]
    rcases SessionStore.setMediaReady_cases w.data.sessions ⟨i⟩ dog (b.ready.getD true) with
      ⟨hn, -⟩ | ⟨y, e, e', s', hy, -, -, hset, hdog, -, hg⟩
    · rw [hn] at set
      cases set
    · rw [hset] at set
      cases set
      refine (hs.amend hy hg (fun d hd => ?_) hdog).later hu
      unfold SessionRecord.hasDog
      rw [SessionStore.promote_dogA, SessionStore.promote_dogB]
      exact hd
  | @renewed h i b dog x deadline caller found party extended =>
    rw [Ledger.save_sessions]
    have hg : ∀ k, (w.data.sessions.update ⟨i⟩ (fun s => { s with segmentDeadlineAt := deadline })).2.get k =
        if k = ⟨i⟩ then some { x with segmentDeadlineAt := deadline } else w.data.sessions.get k := fun k => by
      rw [SessionStore.get_update]
      split
      · rename_i hk
        rw [hk, found]
        rfl
      · rfl
    refine (hs.amend found hg (fun d hd => hd) ?_).later hu
    show (SessionStore.update _ _ _).2.byDog = _
    unfold SessionStore.update
    split <;> rfl
  | ended => exact (hs.endSession_ledger st (l := w.ledger) _).later hu
  | stopped => exact (hs.endSession_ledger st _).later hu
  | ticked => exact (SessionStore.Sound.endAll st _ ((Ledger.dropAll_sessions st _ _).symm ▸ hs)).later hu
  | _ => exact hs.later hu

/-! ## The loop of `load_into` -/

/-- No id and no dog in common. -/
def Invite.Apart (inv inv' : Invite) : Prop := inv.id ≠ inv'.id ∧ ∀ d, inv.hasDog d → ¬ inv'.hasDog d

instance : Std.Symm Invite.Apart := ⟨fun _ _ h => ⟨h.1.symm, fun d hd hd' => h.2 d hd' hd⟩⟩

namespace InviteStore

theorem openForDog_insert {s s' : InviteStore} {inv : Invite} (h : s.insert inv = .ok s') (d : DogId) :
    s'.openForDog.lookup d = if inv.hasDog d then some inv.id else s.openForDog.lookup d := by
  rw [(insert_ok h).2.2]
  simp only [HashMap.lookup_insert, Invite.hasDog, eq_comm (b := d)]
  by_cases ha : d = inv.fromDog
  · simp [ha]
  · by_cases hb : d = inv.toDog
    · simp [hb]
    · simp [ha, hb]

end InviteStore

/-- What a store reopened from the invites `invs` has. -/
structure Reopened (s : InviteStore) (invs : List Invite) : Prop where
  get : ∀ {k inv}, s.get k = some inv ↔ inv ∈ invs ∧ inv.id = k
  openForDog : ∀ {d k}, s.openForDog.lookup d = some k → ∃ inv ∈ invs, inv.hasDog d

namespace Reopened

theorem empty : Reopened {} [] where
  get := ⟨fun h => (by cases h), fun h => absurd h.1 List.not_mem_nil⟩
  openForDog h := by cases h

variable {s : InviteStore} {invs : List Invite} {inv : Invite}

/-- An invite apart from those before it goes in. -/
theorem snoc (h : Reopened s invs) (hv : ∀ inv' ∈ invs, inv'.Apart inv) :
    ∃ s', s.insert inv = .ok s' ∧ Reopened s' (invs ++ [inv]) := by
  have hfree : ∀ d, inv.hasDog d → d ∉ s.openForDog := fun d hd hmem => by
    obtain ⟨k, hk⟩ := Option.isSome_iff_exists.1 (AList.lookup_isSome.2 hmem)
    obtain ⟨inv', hinv', hd'⟩ := h.openForDog hk
    exact (hv inv' hinv').2 d hd' hd
  obtain ⟨s', hs⟩ : ∃ s', s.insert inv = .ok s' :=
    ⟨_, if_neg (not_or.2 ⟨hfree _ (.inl rfl), hfree _ (.inr rfl)⟩)⟩
  refine ⟨s', hs, fun {k x} => ?_, fun {d k} hk => ?_⟩
  · rw [InviteStore.get_insert hs]
    by_cases hk : k = inv.id
    · rw [if_pos hk, Option.some_inj]
      refine ⟨fun e => e ▸ ⟨List.mem_append_right _ (List.mem_singleton.2 rfl), hk.symm⟩, fun ⟨hx, hid⟩ => ?_⟩
      rcases List.mem_append.1 hx with hx | hx
      · exact absurd (hid.trans hk) (hv x hx).1
      · exact (List.mem_singleton.1 hx).symm
    · rw [if_neg hk, h.get]
      refine ⟨fun ⟨hx, hid⟩ => ⟨List.mem_append_left _ hx, hid⟩, fun ⟨hx, hid⟩ => ⟨?_, hid⟩⟩
      rcases List.mem_append.1 hx with hx | hx
      · exact hx
      · rw [List.mem_singleton.1 hx] at hid
        exact absurd hid.symm hk
  · rw [InviteStore.openForDog_insert hs] at hk
    split at hk
    · rename_i hd
      exact ⟨inv, List.mem_append_right _ (List.mem_singleton.2 rfl), hd⟩
    · obtain ⟨x, hx, hd⟩ := h.openForDog hk
      exact ⟨x, List.mem_append_left _ hx, hd⟩

/-- **The loop reopens every row**, as its texts read back, if no two rows have an id or a dog in common. -/
theorem loop {F : Formats} (hF : F.LawfulIds) (now : DateTime) {invs : List Invite} (hp : invs.Pairwise Invite.Apart) :
    ∃ s, (invs.map (inviteRow F)).foldlM (loadInvite F now) {} = some s ∧
      Reopened s (invs.map (Invite.reread F now)) := by
  suffices ∀ s invs v, Reopened s (invs.map (Invite.reread F now)) → (∀ v' ∈ invs, Invite.Apart v' v) →
      ∃ s', loadInvite F now s (inviteRow F v) = some s' ∧ Reopened s' ((invs ++ [v]).map (Invite.reread F now)) from
    foldlM_rows this invs [] .empty hp
  intro s invs v h hv
  have hapart : ∀ v' ∈ invs.map (Invite.reread F now), v'.Apart (v.reread F now) := List.forall_mem_map.2 hv
  obtain ⟨s₁, hs₁, hsnoc⟩ := h.snoc hapart
  refine ⟨s₁, ?_, by rw [List.map_append]; exact hsnoc⟩
  unfold loadInvite
  rw [inviteOfRow_inviteRow hF]
  simp only [Option.bind_eq_bind, Option.bind_some, hs₁]
  rfl

end Reopened

/-! ## The rows of the open invites -/

/-- The rows are those of the open invites and of some that have expired by `t`, no two of them with a dog in common and
none with a dog in session, and their dates read back. -/
structure OpenRows (F : Formats) (l : Ledger) (t : DateTime) (invs : List Invite) : Prop where
  rows : l.inviteRows = invs.map (inviteRow F)
  apart : invs.Pairwise Invite.Apart
  keyed : ∀ {k inv}, l.invites k = some inv → inv.id = k
  saved : ∀ {k inv}, l.invites k = some inv → inv ∈ invs
  live : ∀ inv ∈ invs, l.invites inv.id = some inv ∨ inv.expiresAt ≤ t
  free : ∀ inv ∈ invs, ∀ {k x d}, l.sessions.get k = some x → inv.hasDog d → ¬ x.hasDog d
  dated : ∀ inv ∈ invs, ∀ t ∈ inv.dates, t.FourDigitYear

theorem filter_inviteRows {F : Formats} (hF : F.LawfulIds) (id : InviteId) (invs : List Invite) :
    (invs.map (inviteRow F)).filter (fun r => decide (r.inviteId ≠ F.uuid id.uuid)) =
      (invs.filter (fun inv => decide (inv.id ≠ id))).map (inviteRow F) :=
  filter_key_ne (inviteRow F) (·.inviteId) (·.id) (fun id => F.uuid id.uuid)
    (fun _ _ => ⟨fun h => congrArg InviteId.mk (hF.uuid_inj.1 h), fun h => by rw [← h]; rfl⟩) id invs

namespace OpenRows

variable {F : Formats} {l l' : Ledger} {t t' : DateTime} {invs : List Invite}

theorem later (h : OpenRows F l t invs) (ht : t ≤ t') : OpenRows F l t' invs :=
  { h with live := fun inv hinv => (h.live inv hinv).imp id (fun hle => le_trans hle ht) }

theorem congr (h : OpenRows F l t invs) (hi : l'.invites = l.invites) (hr : l'.inviteRows = l.inviteRows)
    (hs : ∀ {k y}, l'.sessions.get k = some y → ∃ x, l.sessions.get k = some x ∧ ∀ d, y.hasDog d → x.hasDog d) :
    OpenRows F l' t invs where
  rows := hr.trans h.rows
  apart := h.apart
  keyed := hi ▸ h.keyed
  saved := hi ▸ h.saved
  live := hi ▸ h.live
  free inv hinv _ _ d hy hd hyd := by
    obtain ⟨x, hx, hxy⟩ := hs hy
    exact h.free inv hinv hx hd (hxy d hyd)
  dated := h.dated

theorem expire (h : OpenRows F l t invs) {now : DateTime} (hnow : now ≤ t) : OpenRows F (l.expire now) t invs where
  rows := h.rows
  apart := h.apart
  keyed hk := h.keyed (Option.filter_eq_some_iff.1 hk).1
  saved hk := h.saved (Option.filter_eq_some_iff.1 hk).1
  live inv hinv := by
    rcases h.live inv hinv with hopen | hle
    · by_cases hexp : inv.expiresAt ≤ now
      · exact .inr (le_trans hexp hnow)
      · refine .inl (Option.filter_eq_some_iff.2 ⟨hopen, ?_⟩)
        simpa [isExpired] using hexp
    · exact .inr hle
  free := h.free
  dated := h.dated

theorem cut (hF : F.LawfulIds) (h : OpenRows F l t invs) {id : InviteId}
    (hi : ∀ k, l'.invites k = if k = id then none else l.invites k)
    (hr : l'.inviteRows = l.inviteRows.filter (fun r => decide (r.inviteId ≠ F.uuid id.uuid)))
    (hs : ∀ inv ∈ invs, inv.id ≠ id → ∀ {k x d}, l'.sessions.get k = some x → inv.hasDog d → ¬ x.hasDog d) :
    OpenRows F l' t (invs.filter (fun inv => decide (inv.id ≠ id))) where
  rows := by rw [hr, h.rows, filter_inviteRows hF]
  apart := h.apart.filter _
  keyed {k inv} hk := by
    rw [hi] at hk
    split at hk
    · cases hk
    · exact h.keyed hk
  saved {k inv} hk := by
    rw [hi] at hk
    split at hk
    · cases hk
    · rename_i hne
      exact List.mem_filter.2 ⟨h.saved hk, decide_eq_true (by rw [h.keyed hk]; exact hne)⟩
  live inv hinv := by
    obtain ⟨hinv, hne⟩ := List.mem_filter.1 hinv
    rw [hi, if_neg (of_decide_eq_true hne)]
    exact h.live inv hinv
  free inv hinv := by
    obtain ⟨hinv, hne⟩ := List.mem_filter.1 hinv
    exact hs inv hinv (of_decide_eq_true hne)
  dated inv hinv := h.dated inv (List.mem_filter.1 hinv).1

/-- The rows read back as they are. -/
theorem reread (hF : F.Lawful) (h : OpenRows F l t invs) {inv : Invite} (hinv : inv ∈ invs) (now : DateTime) :
    inv.reread F now = inv := Invite.reread_eq (fun u hu => hF.parse_rfc3339 u (h.dated inv hinv u hu)) now

/-- A new invite, and its row, of dogs that have no row and are in no session. -/
theorem ring (h : OpenRows F l t invs) (hF : F.LawfulIds) {inv : Invite}
    (hi : ∀ k, l'.invites k = if k = inv.id then some inv else l.invites k)
    (hr : l'.inviteRows = replaceRow (·.inviteId) (inviteRow F inv) l.inviteRows)
    (hs : l'.sessions = l.sessions) (hnew : ∀ inv' ∈ invs, ∀ d, inv'.hasDog d → ¬ inv.hasDog d)
    (hfree : ∀ {k x d}, l.sessions.get k = some x → inv.hasDog d → ¬ x.hasDog d)
    (hdated : ∀ t ∈ inv.dates, t.FourDigitYear) :
    OpenRows F l' t (invs.filter (fun inv' => decide (inv'.id ≠ inv.id)) ++ [inv]) where
  rows := by
    rw [hr, h.rows, List.map_append, ← filter_inviteRows hF]
    rfl
  apart := by
    refine List.pairwise_append.2 ⟨h.apart.filter _, List.pairwise_singleton .., fun x hx y hy => ?_⟩
    obtain ⟨hx, hne⟩ := List.mem_filter.1 hx
    rw [List.mem_singleton.1 hy]
    exact ⟨of_decide_eq_true hne, hnew x hx⟩
  keyed {k x} hk := by
    rw [hi] at hk
    split at hk
    · rename_i hid
      rw [← Option.some.inj hk, hid]
    · exact h.keyed hk
  saved {k x} hk := by
    rw [hi] at hk
    split at hk
    · rw [← Option.some.inj hk]
      exact List.mem_append_right _ (List.mem_singleton.2 rfl)
    · rename_i hne
      exact List.mem_append_left _ (List.mem_filter.2 ⟨h.saved hk, decide_eq_true (by rw [h.keyed hk]; exact hne)⟩)
  live x hx := by
    rw [hi]
    rcases List.mem_append.1 hx with hx | hx
    · obtain ⟨hx, hne⟩ := List.mem_filter.1 hx
      rw [if_neg (of_decide_eq_true hne)]
      exact h.live x hx
    · rw [List.mem_singleton.1 hx, if_pos rfl]
      exact .inl rfl
  free x hx := by
    rw [hs]
    rcases List.mem_append.1 hx with hx | hx
    · exact h.free x (List.mem_filter.1 hx).1
    · rw [List.mem_singleton.1 hx]
      exact hfree
  dated x hx := by
    rcases List.mem_append.1 hx with hx | hx
    · exact h.dated x (List.mem_filter.1 hx).1
    · rw [List.mem_singleton.1 hx]
      exact hdated

theorem dropAll {st : AppState} (hp : st.pool = true) (hF : st.formats.LawfulIds) : ∀ (ids : List InviteId) {l : Ledger}
    {invs : List Invite}, OpenRows st.formats l t invs → Table.invites ∈ l.tables →
      (∀ {k inv}, l.invites k = some inv → inv.id ∉ ids) → ∃ invs', OpenRows st.formats (l.dropAll st ids) t invs'
  | [], _, invs, h, _, _ => ⟨invs, h⟩
  | id :: ids, l, invs, h, ht, hclosed => by
    have hrow := Ledger.deleteInvite_rows hp ht id
    have hcut : OpenRows st.formats (l.save st (.deleteInvite id)) t
        (invs.filter (fun inv => decide (inv.id ≠ id))) := by
      rw [hrow]
      refine h.cut hF (fun k => ?_) rfl (fun inv hinv _ => h.free inv hinv)
      split
      · rename_i hk
        refine Option.eq_none_iff_forall_ne_some.2 (fun inv hinv => hclosed hinv ?_)
        rw [h.keyed hinv, hk]
        exact List.mem_cons_self
      · rfl
    refine dropAll hp hF ids hcut (by rw [Ledger.save_tables]; exact ht) (fun {k inv} hinv hmem => ?_)
    rw [Ledger.save_invites] at hinv
    exact hclosed hinv (List.mem_cons_of_mem id hmem)

end OpenRows

/-- The dogs of a call that gets through are in no open invite and in no session. -/
theorem callThrough_free {st : AppState} {w : World} {now : DateTime} {h : HeaderMap} {b : CreateInviteBody}
    {peer d : DogId}
    (hc : callThrough st w now h b = some peer) (hd : d = b.dogId ∨ d = peer) :
    (w.data.invites.expireDue st.order now).2.forDog d = none ∧ w.data.sessions.forDog d = none := by
  have hfree : ∀ {d}, (((w.data.invites.expireDue st.order now).2.forDog d).isNone &&
      (w.data.sessions.forDog d).isNone) = true →
      (w.data.invites.expireDue st.order now).2.forDog d = none ∧ w.data.sessions.forDog d = none := fun h => by
    rw [Bool.and_eq_true, Option.isNone_iff_eq_none, Option.isNone_iff_eq_none] at h
    exact h
  unfold callThrough at hc
  dsimp only at hc
  split at hc
  · rename_i hguard
    split at hc
    · split at hc
      · rename_i hpeer
        cases hc
        rcases hd with rfl | rfl
        · exact hfree (Bool.and_eq_true_iff.1 hguard).2
        · exact hfree (Bool.and_eq_true_iff.1 hpeer).2
      · cases hc
    · cases hc
  · cases hc

section

variable {st : AppState} {κ : Nat → DateTime} {n : Nat} {u : Uuid} {w : World} {t : DateTime} {r : Request} {l : Ledger}
  {invs : List Invite}

/-- **A call over no stale row** gets through between dogs that have no row at all. -/
theorem dogs_unlisted (hF : st.formats.Lawful) (hc : w.Consistent) (h : OpenRows st.formats w.ledger t invs)
    (htime : t ≤ κ 0) {hd : HeaderMap} {b : CreateInviteBody} {inv : Invite}
    (hstale : NoStaleRow st ⟨w, t⟩ ⟨.createInvite hd b, κ⟩) (through : callThrough st w (κ 0) hd b = some inv.toDog)
    (caller : inv.fromDog = b.dogId) {inv' : Invite} (hinv' : inv' ∈ invs) {d : DogId} (hd' : inv'.hasDog d) :
    ¬ inv.hasDog d := by
  intro hdog
  have hdog : d = b.dogId ∨ d = inv.toDog := hdog.imp (fun e => e.symm.trans caller) Eq.symm
  by_cases hexp : isExpired inv' (κ 0) = true
  · have hrow : inviteRow st.formats inv' ∈ w.db.invites := by
      rw [show w.db.invites = invs.map (inviteRow st.formats) from h.rows]
      exact List.mem_map_of_mem hinv'
    have hcalled : calledBy st ⟨w, t⟩ ⟨.createInvite hd b, κ⟩ = some (b.dogId, inv.toDog) :=
      congrArg (Option.map (fun peer => (b.dogId, peer))) through
    have hread : inviteOfRow st.formats (κ 0) (inviteRow st.formats inv') = some inv' :=
      (inviteOfRow_inviteRow hF.toLawfulIds _ _).trans (congrArg some (h.reread hF hinv' _))
    obtain ⟨hfrom, hto⟩ := hstale _ hcalled _ hrow inv' hread hexp
    rcases hdog with rfl | rfl
    · exact hfrom hd'
    · exact hto hd'
  · -- not expired, so still open
    have hopen : w.data.invites.get inv'.id = some inv' := by
      refine (h.live inv' hinv').resolve_right (fun hle => hexp ?_)
      exact decide_eq_true (le_trans hle htime)
    have hget : (w.data.invites.expireDue st.order (κ 0)).2.get inv'.id = some inv' := by
      rw [InviteStore.get_expireDue, hopen]
      simp [Option.filter, hexp]
    exact (hc.invites.expireDue st.order (κ 0)).not_hasDog (callThrough_free through hdog).1 hget hd'

theorem accept_free (hs : w.data.sessions.Sound w.nextUuid) (h : OpenRows st.formats w.ledger t invs) {now : DateTime}
    {hd : HeaderMap} {i : Uuid} {b : JsonBody} {dog : DogId} {inv : Invite}
    (through : acceptThrough st w now hd i b = some (dog, inv)) :
    inv ∈ invs ∧ inv.id = ⟨i⟩ ∧ ∀ d, inv.hasDog d → w.data.sessions.byDog.lookup d = none := by
  have hget : w.ledger.invites ⟨i⟩ = some inv := (acceptThrough_some through).2.1
  refine ⟨h.saved hget, h.keyed hget, fun d hdog => Option.eq_none_iff_forall_ne_some.2 (fun k hk => ?_)⟩
  obtain ⟨x, hx, hxd⟩ := hs.peopled hk
  exact h.free inv (h.saved hget) hx hdog hxd

theorem OpenRows.expired_closed (h : OpenRows st.formats w.ledger t invs) {now : DateTime} {k : InviteId} {inv : Invite}
    (hk : (w.ledger.expire now).invites k = some inv) :
    inv.id ∉ (w.data.invites.expireDue st.order now).1.map (·.id) := by
  intro hmem
  obtain ⟨inv', hinv', hid⟩ := List.mem_map.1 hmem
  obtain ⟨k', hk', hdue⟩ := (InviteStore.mem_expireDue _ _ _ _).1 hinv'
  obtain ⟨hopen, hnot⟩ := Option.filter_eq_some_iff.1 hk
  have hkk : k' = k := ((h.keyed hk').symm.trans hid).trans (h.keyed hopen)
  rw [hkk] at hk'
  cases hk'.symm.trans hopen
  simp [isExpired, hdue] at hnot

/-- **A request keeps the rows those of the open invites.** -/
theorem Handled.openRows (hp : st.pool = true) (hF : st.formats.Lawful) (ht : ∀ t, t ∈ w.db.tables) (hc : w.Consistent)
    (hs : w.data.sessions.Sound w.nextUuid) (htime : t ≤ κ 0) (hκ : Monotone κ) (hcal : Arrival.InCalendar ⟨r, κ⟩)
    (hstale : NoStaleRow st ⟨w, t⟩ ⟨r, κ⟩) (h : OpenRows st.formats w.ledger t invs) (hh : Handled st κ n u w r l) :
    ∃ invs', OpenRows st.formats l (κ n) invs' := by
  have ht' : ∀ t, t ∈ w.ledger.tables := ht
  have hend : κ 0 ≤ κ n := hκ (Nat.zero_le n)
  have hnow := h.later (le_trans htime hend)
  have hold : r.isAccept = false → ∀ {k y}, l.sessions.get k = some y →
      ∃ x, w.ledger.sessions.get k = some x ∧ ∀ d, y.hasDog d → x.hasDog d := fun hr {k y} hy => by
    rcases hh.session hy with ⟨x, hx, hl⟩ | ⟨hd, i, b, dog, inv, rfl, -⟩
    · exact ⟨x, hx, fun d => (hl.hasDog d).1⟩
    · cases hr
  cases hh with
  | aside => exact ⟨invs, hnow⟩
  | swept handler expires within => exact ⟨invs, hnow.expire (hκ within)⟩
  | @rang hd b inv through caller drawn made =>
    have hdated : ∀ t ∈ inv.dates, t.FourDigitYear := by
      obtain ⟨k, hcreated, hexpires⟩ := made
      simp only [Invite.dates, List.forall_mem_cons, List.not_mem_nil, false_implies, implies_true, and_true]
      exact ⟨hcreated ▸ (hcal k).1, (hcal k).2 _ hexpires⟩
    have hsess : ∀ {k x d}, w.data.sessions.get k = some x → inv.hasDog d → ¬ x.hasDog d := fun {k x d} hx hdog => by
      have hdog : d = b.dogId ∨ d = inv.toDog := hdog.imp (fun e => e.symm.trans caller) Eq.symm
      exact hc.sessions.not_hasDog (callThrough_free through hdog).2 hx
    rw [Ledger.saveInvite_rows (l := (w.ledger.expire (κ 0)).ring inv) hp (ht' _)]
    exact ⟨_, (hnow.expire hend).ring hF.toLawfulIds (fun _ => rfl) rfl rfl
      (fun inv' hinv' d => dogs_unlisted hF hc h htime hstale through caller hinv') hsess hdated⟩
  | @cancelled hd i b dog inv caller found party =>
    rw [Ledger.deleteInvite_rows (l := w.ledger.close ⟨i⟩) hp (ht' _)]
    exact ⟨_, hnow.cut hF.toLawfulIds (fun _ => rfl) rfl (fun inv hinv _ => h.free inv hinv)⟩
  | @clashed hd i b dog inv x e through begins clash =>
    -- the store does know its dogs, so there is no clash
    obtain ⟨-, -, hfree⟩ := accept_free hs h through
    obtain ⟨s, hins⟩ := SessionStore.insert_free (begins.dogA ▸ hfree _ (.inl rfl)) (begins.dogB ▸ hfree _ (.inr rfl))
    cases clash.symm.trans hins
  | @began hd i b dog inv x s through begins drawn inserted =>
    obtain ⟨hinv, hid, -⟩ := accept_free hs h through
    rw [Ledger.deleteInvite_rows (l := ((w.ledger.expire (κ 0)).close ⟨i⟩).setSessions s) hp (ht' _),
      Ledger.saveSession_rows (l := { ((w.ledger.expire (κ 0)).close ⟨i⟩).setSessions s with inviteRows := _ }) hp
        (ht' _)]
    refine ⟨_, (hnow.expire hend).cut hF.toLawfulIds (fun _ => rfl) rfl (fun inv' hinv' hne {k y d} hy hdog hyd => ?_)⟩
    have hg := (SessionStore.get_insert inserted k).symm.trans hy
    split at hg
    · cases hg
      have hxd : inv.hasDog d := hyd.imp (fun e => begins.dogA ▸ e) (fun e => begins.dogB ▸ e)
      exact (h.apart.forall hinv' hinv (fun e => hne (e ▸ hid))).2 d hdog hxd
    · exact h.free inv' hinv' hg hdog hyd
  | @marked hd i b dog both x s caller set =>
    refine ⟨invs, hnow.congr (Ledger.save_invites st _ _) ?_ (hold rfl)⟩
    rw [Ledger.saveSession_rows (l := w.ledger.setSessions s) hp (ht' _)]
    rfl
  | @renewed hd i b dog x deadline caller found party extended =>
    refine ⟨invs, hnow.congr (Ledger.save_invites st _ _) ?_ (hold rfl)⟩
    rw [Ledger.saveSession_rows (l := w.ledger.setSessions (w.data.sessions.update ⟨i⟩ (fun s =>
      { s with segmentDeadlineAt := deadline })).2) hp (ht' _)]
    rfl
  | ended => exact ⟨invs, hnow.congr (Ledger.save_invites st _ _) (Ledger.endSession_inviteRows st _ _) (hold rfl)⟩
  | stopped => exact ⟨invs, hnow.congr (Ledger.save_invites st _ _) (Ledger.endSession_inviteRows st _ _) (hold rfl)⟩
  | @ticked xs all =>
    obtain ⟨invs', hdrop⟩ := OpenRows.dropAll hp hF.toLawfulIds _ (hnow.expire hend) (ht' _) h.expired_closed
    refine ⟨invs', hdrop.congr (Ledger.endAll_invites st _ _) (Ledger.endAll_inviteRows st _ _) (fun {k y} hy => ?_)⟩
    rw [Ledger.dropAll_sessions]
    exact hold rfl hy
  | _ => exact ⟨invs, hnow.congr rfl rfl (hold rfl)⟩

end

/-! ## Over a life -/

/-- The row is of a session between the same dogs. -/
def Saved.SameDogs (v : Saved) (x : SessionRecord) (_ : SessionExtra) : Prop :=
  v.session.dogA = x.dogA ∧ v.session.dogB = x.dogB

theorem sameDogs_keep (st : AppState) (κ : Nat → DateTime) (w : World) (r : Request) :
    RowsKeep Saved.SameDogs st κ w r where
  began _ _ _ := ⟨rfl, rfl⟩
  marked _ _ _ _ _ := ⟨rfl, rfl⟩
  renewed _ _ _ _ _ _ _ := ⟨rfl, rfl⟩

theorem sameDogs_reload {F : Formats} {v : Saved} {x : SessionRecord} {e : SessionExtra} (now : DateTime)
    (_ : v.SameDogs x e) : v.SameDogs (SessionStore.promote v.flags (v.session.reread F now)) v.flags :=
  ⟨(SessionStore.promote_dogA _ (v.session.reread F now)).symm,
    (SessionStore.promote_dogB _ (v.session.reread F now)).symm⟩

/-- The invites after a restart are those of the rows. -/
theorem OpenRows.reopened {st : AppState} {Cond : Server → Arrival → Prop} {s : Server} {invs : List Invite}
    (hF : st.formats.Lawful) (hs : Lives st Cond s) (h : OpenRows st.formats s.world.ledger s.time invs)
    {now : DateTime}
    {data : AppData} (hd : loadInto st.formats now s.world.db {} = some data) : Reopened data.invites invs := by
  have hload := (hs.reloaded hF.toLawfulIds hd).1
  rw [show s.world.db.invites = invs.map (inviteRow st.formats) from h.rows] at hload
  obtain ⟨s', hs', hr⟩ := Reopened.loop hF.toLawfulIds now h.apart
  cases hload.symm.trans hs'
  rwa [List.map_congr_left (fun inv hinv => h.reread hF hinv now), List.map_id'] at hr

section

variable {st : AppState} {s : Server}

theorem Lives.sessions_before {Cond : Server → Arrival → Prop} (hF : st.formats.LawfulIds) (h : Lives st Cond s)
    {xs : List Saved} (hx : SessionRows Saved.SameDogs st.formats s.world.ledger xs) {now : DateTime} {data : AppData}
    (hd : loadInto st.formats now s.world.db {} = some data) {k : SessionId} {y : SessionRecord}
    (hy : data.sessions.get k = some y) :
    ∃ x, s.world.data.sessions.get k = some x ∧ ∀ d, y.hasDog d → x.hasDog d := by
  obtain ⟨v', hv', rfl, rfl⟩ := (hx.restored hF h id hd).get.1 hy
  obtain ⟨v, hv, rfl⟩ := List.mem_map.1 hv'
  obtain ⟨x, e, hlive, -, hA, hB⟩ := hx.live v hv
  refine ⟨x, hlive, fun d hd => ?_⟩
  unfold SessionRecord.hasDog at hd ⊢
  rw [SessionStore.promote_dogA, SessionStore.promote_dogB] at hd
  rwa [← hA, ← hB]

/-- **A restart keeps the rows those of the open invites**: it opens the expired ones again. -/
theorem Lives.openRows_restart {Cond : Server → Arrival → Prop} {s' : Server} {now : DateTime} {invs : List Invite}
    (hp : st.pool = true) (hF : st.formats.Lawful) (h : Lives st Cond s) (hs : s.restart st now = some s')
    (hsound : s.world.data.sessions.Sound s.world.nextUuid) (hi : OpenRows st.formats s.world.ledger s.time invs) :
    s'.world.data.sessions.Sound s'.world.nextUuid ∧ ∃ invs, OpenRows st.formats s'.world.ledger s'.time invs := by
  obtain ⟨hdb, hu, -, hd⟩ := restart_db hs
  have hIds := hF.toLawfulIds
  obtain ⟨xs, hx⟩ := h.sessionRows hp hIds (fun s a _ => sameDogs_keep st a.clock s.world a.req) id sameDogs_reload
  have ho := hi.reopened hF h hd
  refine ⟨⟨(hx.restored hIds h id hd).peopled, fun hy => ?_⟩, invs, ?_, hi.apart, fun hk => (ho.get.1 hk).2,
    fun hk => (ho.get.1 hk).1, fun inv hinv => .inl (ho.get.2 ⟨hinv, rfl⟩), fun inv hinv k y d hy hdog hyd => ?_,
    hi.dated⟩
  · obtain ⟨x, hx, -⟩ := h.sessions_before hIds hx hd hy
    rw [hu]
    exact hsound.drawn hx
  · show s'.world.db.invites = _
    rw [hdb]
    exact hi.rows
  · obtain ⟨x, hx, hxd⟩ := h.sessions_before hIds hx hd hy
    exact hi.free inv hinv hx hdog (hxd d hyd)

/-- **The rows of the open invites, over a life.** -/
theorem Lives.openRows (hp : st.pool = true) (hF : st.formats.Lawful)
    (h : Lives st (fun s a => s.OnTime a ∧ a.InCalendar ∧ NoStaleRow st s a) s) :
    s.world.data.sessions.Sound s.world.nextUuid ∧ ∃ invs, OpenRows st.formats s.world.ledger s.time invs := by
  induction h with
  | first t =>
    refine ⟨⟨fun hk => (by cases hk), fun hx => (by cases hx)⟩, [], rfl, .nil, fun hk => ?_, fun hk => ?_,
      fun _ hinv => ?_, fun _ hinv => ?_, fun _ hinv => ?_⟩
    · cases hk
    · cases hk
    · cases hinv
    · cases hinv
    · cases hinv
  | @serve s a h hc ih =>
    obtain ⟨hs, invs, hi⟩ := ih
    have hh := Server.serve_handled st s a
    have hu : s.world.nextUuid ≤ (s.serve st a).world.nextUuid :=
      Server.serve_inv (I := fun w => s.world.nextUuid ≤ w.nextUuid)
        (fun c _ t w hw => Nat.le_trans hw (nextUuid_mono c)) (Nat.le_refl _)
    obtain ⟨⟨htime, hmono⟩, hcal, hstale⟩ := hc
    exact ⟨hh.sound hu hs, hh.openRows hp hF (h.whole hF.toLawfulIds).tables (h.consistent hF.toLawfulIds) hs htime
      hmono hcal hstale hi⟩
  | restart now h hnow hs ih =>
    obtain ⟨hsound, invs, hi⟩ := ih
    exact h.openRows_restart hp hF hs hsound hi

end

/-- **While no invite is made over a stale row, a restart finds the open invites**: at any time of any life whose clock
never goes back and shows a year of four digits, `load_into` opens exactly the invites that were open, as far as they
have not expired. -/
theorem invites_kept (st : AppState) (hp : st.pool = true) (hF : st.formats.Lawful) (s : Server)
    (h : Lives st (fun s a => s.OnTime a ∧ a.InCalendar ∧ NoStaleRow st s a) s) (now : DateTime) (hnow : s.time ≤ now) :
    ∃ data, loadInto st.formats now s.world.db {} = some data ∧ ∀ id inv, isExpired inv now = false →
      (data.invites.get id = some inv ↔ s.world.data.invites.get id = some inv) := by
  obtain ⟨s', hs⟩ := h.restarts hF.toLawfulIds now
  obtain ⟨-, -, -, hd⟩ := restart_db hs
  obtain ⟨-, invs, hi⟩ := h.openRows hp hF
  have ho := hi.reopened hF h hd
  refine ⟨s'.world.data, hd, fun id inv hlive => ho.get.trans ⟨?_, fun hopen => ⟨hi.saved hopen, hi.keyed hopen⟩⟩⟩
  rintro ⟨hinv, rfl⟩
  refine (hi.live inv hinv).resolve_right (fun hle => ?_)
  rw [isExpired, decide_eq_true (le_trans hle hnow)] at hlive
  cases hlive

theorem timed_inCalendar {st : AppState} : ∀ (rs : List (DateTime × Request)) (s : Server),
    (∀ r ∈ rs, r.1.FourDigitYear ∧ ∀ t ∈ r.1.plus (milliseconds RING_TIMEOUT_MS), t.FourDigitYear) →
      s.Meets st (fun _ a => a.InCalendar) (Server.timed rs)
  | [], _, _ => trivial
  | r :: rs, _, h => ⟨fun _ => h r List.mem_cons_self, timed_inCalendar rs _ (fun r' hr' => h r' (.tail _ hr'))⟩

/-- Dog 1 calls dog 2 at noon. -/
def firstCall : List (DateTime × Request) :=
  [.devBootstrapBond ⟨1⟩ ⟨2⟩ 1, stepOn 1 noon, stepOn 2 noon, callTo 1 2].map (fun r => (noon, r))

def calling : Server := Server.serveAll bench ⟨fresh, noon⟩ (Server.timed firstCall)

theorem invites_kept_calling : ∃ data, loadInto decimals noon calling.world.db {} = some data ∧ ∀ id inv,
    isExpired inv noon = false → (data.invites.get id = some inv ↔ calling.world.data.invites.get id = some inv) :=
  invites_kept bench rfl decimals_lawful calling
    (.serveAll (.first noon) (.and (Server.timed_onTime _ _ (by decide)) (.and (timed_inCalendar _ _ (by decide))
      (by decide +kernel)))) noon (by decide +kernel)

/-- A minute past noon. -/
def pastNoon : DateTime := epoch 43260

/-- Nobody answers, and dog 1 calls again a minute later. -/
def calls : List (DateTime × Request) :=
  firstCall ++ [stepOn 1 pastNoon, stepOn 2 pastNoon, callTo 1 2].map (fun r => (pastNoon, r))

/-- **A restart loses an invite that is ringing**: the row of the first call, which has expired, is still there and
comes first. -/
theorem invite_shadowed : ¬ ∀ (st : AppState) (s : Server) (now : DateTime), st.pool = true → st.formats.Lawful →
    Lives st Server.OnTime s → s.time ≤ now → ∃ data, loadInto st.formats now s.world.db {} = some data ∧
      ∀ id inv, isExpired inv now = false →
        (data.invites.get id = some inv ↔ s.world.data.invites.get id = some inv) := by
  intro h
  obtain ⟨data, hd, hkept⟩ := h bench (Server.serveAll bench ⟨fresh, noon⟩ (Server.timed calls)) pastNoon rfl
    decimals_lawful (.serveAll (.first noon) (Server.timed_onTime _ _ (by decide))) (by decide +kernel)
  let second : Invite := { id := ⟨1⟩, fromDog := ⟨1⟩, toDog := ⟨2⟩, mode := .portal, state := .ringing,
                           createdAt := pastNoon, expiresAt := epoch 43285 }
  have hopen : data.invites.get ⟨1⟩ = some second := (hkept ⟨1⟩ second (by decide)).2 (by decide +kernel)
  have hloaded := congrArg (Option.map (fun data => data.invites.get ⟨1⟩)) hd
  rw [Option.map_some, hopen] at hloaded
  revert hloaded
  decide +kernel

end CanisLink
