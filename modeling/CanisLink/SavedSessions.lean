import CanisLink.Handling
import CanisLink.Restart
/-!
# SavedSessions — the sessions table as the store's mirror

Handled one at a time, requests keep one row for each session.  What a row says of its session is a relation `R`: that
they are between the same dogs, which always holds, or that a restart gives the session and its flags back, which is
what `media_ready` and `again` may break.
-/
namespace CanisLink

/-- What a row of the sessions table was written from. -/
structure Saved where
  session : SessionRecord
  mediaA : Bool
  mediaB : Bool

namespace Saved

def row (F : Formats) (v : Saved) : SessionRow := sessionRow F v.session v.mediaA v.mediaB

/-- The flags after `load_into` has replayed those of the row; a dog in session with itself sets only the first. -/
def flags (v : Saved) : SessionExtra :=
  if v.session.dogA = v.session.dogB then ⟨v.mediaA || v.mediaB, false⟩ else ⟨v.mediaA, v.mediaB⟩

/-- What `load_into` reads at `now` from the row. -/
def reread (F : Formats) (now : DateTime) (v : Saved) : Saved := { v with session := v.session.reread F now }

theorem reread_eq {F : Formats} {v : Saved} (h : ∀ t ∈ v.session.dates, F.ReadsBack t) (now : DateTime) :
    v.reread F now = v := by
  unfold reread
  rw [SessionRecord.reread_eq h]

/-- No id and no dog in common. -/
def Apart (v v' : Saved) : Prop := v.session.id ≠ v'.session.id ∧ ∀ d, v.session.hasDog d → ¬ v'.session.hasDog d

end Saved

/-! ## Stores that differ in one session -/

namespace SessionStore

/-- `s'` is `s` with the session `x` and its flags `e` under `id`. -/
structure Put (s : SessionStore) (id : SessionId) (x : SessionRecord) (e : SessionExtra) (s' : SessionStore) :
    Prop where
  get : ∀ k, s'.get k = if k = id then some x else s.get k
  media : ∀ k, s'.media.lookup k = if k = id then some e else s.media.lookup k

/-- Every dog the index knows is in a session. -/
def Peopled (s : SessionStore) : Prop := ∀ {d id}, s.byDog.lookup d = some id → ∃ x, s.get id = some x ∧ x.hasDog d

section

variable {s s' s'' : SessionStore} {id : SessionId} {x y : SessionRecord} {e e' : SessionExtra}

theorem Put.trans (h : Put s id x e s') (h' : Put s' id y e' s'') : Put s id y e' s'' where
  get k := by
    rw [h'.get, h.get]
    split <;> rfl
  media k := by
    rw [h'.media, h.media]
    split <;> rfl

theorem put_insert (h : s.insert x = .ok s') : Put s x.id x ⟨false, false⟩ s' where
  get := get_insert h
  media k := by
    rw [(insert_ok h).2.2]
    exact HashMap.lookup_insert _ _ _ _

theorem put_update {f : SessionRecord → SessionRecord} (hx : s.get id = some x) (he : s.media.lookup id = some e) :
    Put s id (f x) e (s.update id f).2 where
  get k := by
    rw [get_update]
    split
    · rename_i hk
      rw [hk, hx]
      rfl
    · rfl
  media k := by
    have hm : (s.update id f).2.media = s.media := by unfold update; split <;> rfl
    rw [hm]
    split
    · rename_i hk
      rw [hk, he]
    · rfl

/-- A side of a session there reports ready: its flags are marked, and the session is promoted if it has both. -/
theorem put_setMediaReady {dog : DogId} {ready : Bool} (hx : s.get id = some x) (he : s.media.lookup id = some e)
    (hm : mark x dog ready e = some e') : Put s id (promote e' x) e' (s.setMediaReady id dog ready).2 ∧
      (s.setMediaReady id dog ready).2.byDog = s.byDog ∧
      (s.setMediaReady id dog ready).1 = some (e'.mediaA && e'.mediaB, promote e' x) := by
  rcases setMediaReady_cases s id dog ready with ⟨-, hnone⟩ | ⟨y, f, f', s', hy, hf, hm', h, hd, hmed, hg⟩
  · rw [hnone x e hx he] at hm
    cases hm
  · cases hx.symm.trans hy
    cases he.symm.trans hf
    cases hm.symm.trans hm'
    rw [h]
    refine ⟨⟨hg, fun k => ?_⟩, hd, rfl⟩
    rw [hmed]
    exact HashMap.lookup_insert _ _ _ _

theorem byDog_insert (h : s.insert x = .ok s') (d : DogId) :
    s'.byDog.lookup d = if x.hasDog d then some x.id else s.byDog.lookup d := by
  rw [(insert_ok h).2.2]
  simp only [HashMap.lookup_insert, SessionRecord.hasDog, eq_comm (b := d)]
  by_cases ha : d = x.dogA
  · simp [ha]
  · by_cases hb : d = x.dogB
    · simp [hb]
    · simp [ha, hb]

end
end SessionStore

open SessionStore (promote mark Put)

/-! ## The loop of `load_into` -/

/-- **One pass of the loop**, for a session of dogs the store does not know. -/
theorem restoreSession_free {s : SessionStore} (v : Saved) (ha : s.byDog.lookup v.session.dogA = none)
    (hb : s.byDog.lookup v.session.dogB = none) :
    Put s v.session.id (promote v.flags v.session) v.flags (restoreSession s v.session v.mediaA v.mediaB) ∧
      ∀ d, (restoreSession s v.session v.mediaA v.mediaB).byDog.lookup d =
        if v.session.hasDog d then some v.session.id else s.byDog.lookup d := by
  obtain ⟨s₁, h₁⟩ := SessionStore.insert_free ha hb
  have hdog := SessionStore.byDog_insert h₁
  have hput := SessionStore.put_insert h₁
  unfold restoreSession
  rw [h₁]
  dsimp only
  -- the first side: nothing to promote yet
  obtain ⟨s₂, h₂, hput₂, hdog₂⟩ : ∃ s₂, (if v.mediaA = true then (s₁.setMediaReady v.session.id v.session.dogA true).2
      else s₁) = s₂ ∧ Put s v.session.id v.session ⟨v.mediaA, false⟩ s₂ ∧ s₂.byDog = s₁.byDog := by
    refine ⟨_, rfl, ?_⟩
    cases hma : v.mediaA with
    | false => exact ⟨hput, rfl⟩
    | true =>
      have hmark : mark v.session v.session.dogA true ⟨false, false⟩ = some ⟨true, false⟩ := if_pos rfl
      obtain ⟨h, hd, -⟩ := SessionStore.put_setMediaReady (by rw [hput.get, if_pos rfl])
        (by rw [hput.media, if_pos rfl]) hmark
      exact ⟨hput.trans h, hd⟩
  rw [h₂]
  cases hmb : v.mediaB with
  | false =>
    have hflags : v.flags = ⟨v.mediaA, false⟩ := by
      unfold Saved.flags
      split <;> simp [hmb]
    have hp : promote ⟨v.mediaA, false⟩ v.session = v.session := by simp [promote]
    rw [hflags, hp]
    exact ⟨hput₂, fun d => by rw [if_neg Bool.false_ne_true, hdog₂]; exact hdog d⟩
  | true =>
    have hmark : mark v.session v.session.dogB true ⟨v.mediaA, false⟩ = some v.flags := by
      unfold mark Saved.flags
      by_cases hab : v.session.dogA = v.session.dogB
      · simp [hab, hmb]
      · simp [hab, Ne.symm hab, hmb]
    obtain ⟨h, hd, -⟩ := SessionStore.put_setMediaReady (by rw [hput₂.get, if_pos rfl])
      (by rw [hput₂.media, if_pos rfl]) hmark
    exact ⟨hput₂.trans h, fun d => by rw [if_pos rfl, hd, hdog₂]; exact hdog d⟩

/-- What a store restored from the rows `xs` has: each session as its row has it, promoted and flagged. -/
structure Restored (s : SessionStore) (xs : List Saved) : Prop where
  get : ∀ {k y}, s.get k = some y ↔ ∃ v ∈ xs, v.session.id = k ∧ promote v.flags v.session = y
  media : ∀ {k e}, s.media.lookup k = some e ↔ ∃ v ∈ xs, v.session.id = k ∧ v.flags = e
  byDog : ∀ {d k}, s.byDog.lookup d = some k ↔ ∃ v ∈ xs, v.session.id = k ∧ v.session.hasDog d

namespace Restored

theorem empty : Restored {} [] where
  get := ⟨fun h => (by cases h), fun ⟨_, h, _⟩ => absurd h List.not_mem_nil⟩
  media := ⟨fun h => (by cases h), fun ⟨_, h, _⟩ => absurd h List.not_mem_nil⟩
  byDog := ⟨fun h => (by cases h), fun ⟨_, h, _⟩ => absurd h List.not_mem_nil⟩

variable {s : SessionStore} {xs : List Saved} {v : Saved}

theorem snoc (h : Restored s xs) (hv : ∀ v' ∈ xs, v'.Apart v) :
    Restored (restoreSession s v.session v.mediaA v.mediaB) (xs ++ [v]) := by
  have hfree : ∀ d, v.session.hasDog d → s.byDog.lookup d = none := fun d hd => by
    refine Option.eq_none_iff_forall_ne_some.2 (fun k hk => ?_)
    obtain ⟨v', hv', -, hd'⟩ := h.byDog.1 hk
    exact (hv v' hv').2 d hd' hd
  obtain ⟨hput, hdog⟩ := restoreSession_free v (hfree _ (.inl rfl)) (hfree _ (.inr rfl))
  -- an entry is the new one, or lies under the id of an earlier row
  have hentry : ∀ {P : Saved → Prop} {k : SessionId}, (∃ w ∈ xs ++ [v], w.session.id = k ∧ P w) ↔
      if k = v.session.id then P v else ∃ w ∈ xs, w.session.id = k ∧ P w := by
    intro P k
    simp only [List.mem_append, List.mem_singleton, or_and_right, exists_or, exists_eq_left]
    split
    · rename_i hk
      refine ⟨fun hor => hor.elim (fun ⟨w, hw, hid, _⟩ => absurd (hid.trans hk) (hv w hw).1) And.right,
        fun hP => .inr ⟨hk.symm, hP⟩⟩
    · rename_i hk
      exact ⟨fun hor => hor.resolve_right (fun hv => hk hv.1.symm), .inl⟩
  constructor
  · intro k y
    rw [hentry, hput.get]
    split
    · exact Option.some_inj
    · exact h.get
  · intro k e
    rw [hentry, hput.media]
    split
    · exact Option.some_inj
    · exact h.media
  · intro d k
    rw [hentry, hdog]
    by_cases hd : v.session.hasDog d
    · rw [if_pos hd]
      by_cases hk : k = v.session.id
      · rw [if_pos hk, hk]
        exact ⟨fun _ => hd, fun _ => rfl⟩
      · rw [if_neg hk]
        exact ⟨fun e => absurd (Option.some.inj e).symm hk, fun ⟨w, hw, _, hd'⟩ => absurd hd ((hv w hw).2 d hd')⟩
    · rw [if_neg hd]
      by_cases hk : k = v.session.id
      · rw [if_pos hk, h.byDog]
        exact ⟨fun ⟨w, hw, hid, _⟩ => absurd (hid.trans hk) (hv w hw).1, fun hd' => absurd hd' hd⟩
      · rw [if_neg hk]
        exact h.byDog

theorem peopled (h : Restored s xs) : s.Peopled := fun {d k} hk => by
  obtain ⟨v, hv, hid, hd⟩ := h.byDog.1 hk
  refine ⟨promote v.flags v.session, h.get.2 ⟨v, hv, hid, rfl⟩, ?_⟩
  unfold SessionRecord.hasDog
  rw [SessionStore.promote_dogA, SessionStore.promote_dogB]
  exact hd

/-- **The loop restores every row**, as its texts read back, if no two rows have an id or a dog in common. -/
theorem loop {F : Formats} (hF : F.LawfulIds) (now : DateTime) {xs : List Saved} (hp : xs.Pairwise Saved.Apart) :
    ∃ s, (xs.map (Saved.row F)).foldlM (loadSession F now) {} = some s ∧ Restored s (xs.map (Saved.reread F now)) := by
  suffices ∀ s xs v, Restored s (xs.map (Saved.reread F now)) → (∀ v' ∈ xs, Saved.Apart v' v) →
      ∃ s', loadSession F now s (v.row F) = some s' ∧ Restored s' ((xs ++ [v]).map (Saved.reread F now)) from
    foldlM_rows this xs [] .empty hp
  intro s xs v h hv
  have hapart : ∀ v' ∈ xs.map (Saved.reread F now), v'.Apart (v.reread F now) := List.forall_mem_map.2 hv
  refine ⟨_, ?_, by rw [List.map_append]; exact h.snoc hapart⟩
  unfold loadSession Saved.row
  rw [sessionOfRow_sessionRow hF]
  show some (restoreSession s _ (decide (flag v.mediaA ≠ 0)) (decide (flag v.mediaB ≠ 0))) = _
  rw [flag_ne_zero, flag_ne_zero]
  rfl

end Restored

/-! ## One row for each session -/

/-- Each session in memory has one row, which says `R` of it and its flags, and each row has its session. -/
structure SessionRows (R : Saved → SessionRecord → SessionExtra → Prop) (F : Formats) (l : Ledger) (xs : List Saved) :
    Prop where
  rows : l.sessionRows = xs.map (Saved.row F)
  distinct : xs.Pairwise (fun v v' => v.session.id ≠ v'.session.id)
  live : ∀ v ∈ xs, ∃ x e, l.sessions.get v.session.id = some x ∧ l.sessions.media.lookup v.session.id = some e ∧ R v x e
  saved : ∀ {id x}, l.sessions.get id = some x → ∃ v ∈ xs, v.session.id = id
  stray : ∀ {id}, l.sessions.get id = none → l.sessions.media.lookup id = none

/-- What `R` must hold of for the row a request writes, in the world it finds. -/
structure RowsKeep (R : Saved → SessionRecord → SessionExtra → Prop) (st : AppState) (κ : Nat → DateTime) (w : World)
    (r : Request) : Prop where
  began : ∀ {h i b dog inv x}, r = .acceptInvite h i b → acceptThrough st w (κ 0) h i b = some (dog, inv) →
    Begins w (κ 0) dog inv x → R ⟨x, false, false⟩ x ⟨false, false⟩
  marked : ∀ {h i b dog v x e e'}, r = .mediaReady h i b → jsonCaller st h b = some dog →
    w.data.sessions.get ⟨i⟩ = some x → R v x e → mark x dog (b.ready.getD true) e = some e' →
      R ⟨promote e' x, (e'.mediaA && e'.mediaB) || decide (dog = x.dogA),
          (e'.mediaA && e'.mediaB) || decide (dog = x.dogB)⟩
        (promote e' x) e'
  renewed : ∀ {h i b dog v x e deadline}, r = .again h i b → jsonCaller st h b = some dog →
    w.data.sessions.get ⟨i⟩ = some x → w.data.sessions.media.lookup ⟨i⟩ = some e → x.hasDog dog →
    extendSegment (κ 2) (w.data.policies.current dog).segmentSec x.maxEndAt = some deadline → R v x e →
      R ⟨{ x with segmentDeadlineAt := deadline }, true, true⟩ { x with segmentDeadlineAt := deadline } e

theorem filter_rows {F : Formats} (hF : F.LawfulIds) (id : SessionId) (xs : List Saved) :
    (xs.map (Saved.row F)).filter (fun r => decide (r.sessionId ≠ F.uuid id.uuid)) =
      (xs.filter (fun v => decide (v.session.id ≠ id))).map (Saved.row F) :=
  filter_key_ne (Saved.row F) (·.sessionId) (·.session.id) (fun id => F.uuid id.uuid)
    (fun _ _ => ⟨fun h => congrArg SessionId.mk (hF.uuid_inj.1 h), fun h => by rw [← h]; rfl⟩) id xs

namespace SessionRows

variable {R : Saved → SessionRecord → SessionExtra → Prop} {F : Formats} {l l' : Ledger} {xs : List Saved}

theorem empty {l : Ledger} (hs : l.sessions = {}) (hr : l.sessionRows = []) : SessionRows R F l [] where
  rows := hr
  distinct := .nil
  live _ h := absurd h List.not_mem_nil
  saved h := by rw [hs] at h; cases h
  stray _ := by rw [hs]; rfl

theorem congr (h : SessionRows R F l xs) (hs : l'.sessions = l.sessions) (hr : l'.sessionRows = l.sessionRows) :
    SessionRows R F l' xs := by
  obtain ⟨rows, distinct, live, saved, stray⟩ := h
  rw [← hs] at live saved stray
  exact ⟨hr.trans rows, distinct, live, saved, stray⟩

theorem put (hF : F.LawfulIds) (h : SessionRows R F l xs) {v : Saved} {id : SessionId} {x : SessionRecord}
    {e : SessionExtra}
    (hid : v.session.id = id) (hput : Put l.sessions id x e l'.sessions)
    (hr : l'.sessionRows = replaceRow (·.sessionId) (v.row F) l.sessionRows) (hR : R v x e) :
    SessionRows R F l' (xs.filter (fun v' => decide (v'.session.id ≠ v.session.id)) ++ [v]) := by
  subst hid
  refine ⟨?_, ?_, fun v' hv' => ?_, fun {id y} hy => ?_, fun {id} hn => ?_⟩
  · rw [hr, h.rows, List.map_append, ← filter_rows hF]
    rfl
  · refine List.pairwise_append.2 ⟨h.distinct.filter _, List.pairwise_singleton .., fun v' hv' v'' hv'' => ?_⟩
    rw [List.mem_singleton.1 hv'']
    exact of_decide_eq_true (List.mem_filter.1 hv').2
  · rw [hput.get, hput.media]
    rcases List.mem_append.1 hv' with hv' | hv'
    · obtain ⟨hv', hne⟩ := List.mem_filter.1 hv'
      rw [if_neg (of_decide_eq_true hne), if_neg (of_decide_eq_true hne)]
      exact h.live v' hv'
    · rw [List.mem_singleton.1 hv', if_pos rfl, if_pos rfl]
      exact ⟨x, e, rfl, rfl, hR⟩
  · by_cases hid : id = v.session.id
    · exact ⟨v, List.mem_append_right _ (List.mem_singleton.2 rfl), hid.symm⟩
    · rw [hput.get, if_neg hid] at hy
      obtain ⟨v', hv', rfl⟩ := h.saved hy
      exact ⟨v', List.mem_append_left _ (List.mem_filter.2 ⟨hv', decide_eq_true hid⟩), rfl⟩
  · rw [hput.get] at hn
    rw [hput.media]
    split at hn
    · cases hn
    · rename_i hid
      rw [if_neg hid]
      exact h.stray hn

variable {st : AppState}

theorem endSession (hp : st.pool = true) (hF : st.formats.LawfulIds) (h : SessionRows R st.formats l xs)
    (ht : Table.sessions ∈ l.tables) (id : SessionId) :
    SessionRows R st.formats (l.endSession st id) (xs.filter (fun v => decide (v.session.id ≠ id))) := by
  have hl : l.endSession st id = { l.setSessions (l.sessions.endSession id).2 with
      sessionRows := l.sessionRows.filter (fun r => decide (r.sessionId ≠ st.formats.uuid id.uuid)) } :=
    Ledger.deleteSession_rows (l := l.setSessions (l.sessions.endSession id).2) hp ht id
  have hget := SessionStore.get_endSession l.sessions id
  have hmedia : ∀ k, (l.sessions.endSession id).2.media.lookup k =
      if k = id then none else l.sessions.media.lookup k := by
    intro k
    unfold SessionStore.endSession
    split
    · rename_i hnone
      split
      · rename_i hk
        rw [hk]
        exact h.stray hnone
      · rfl
    · exact HashMap.lookup_erase _ _ _
  rw [hl]
  refine ⟨?_, h.distinct.filter _, fun v hv => ?_, fun {k x} hx => ?_, fun {k} hn => ?_⟩
  · show l.sessionRows.filter _ = _
    rw [h.rows, filter_rows hF]
  · obtain ⟨hv, hne⟩ := List.mem_filter.1 hv
    obtain ⟨x, e, hx, he, hR⟩ := h.live v hv
    refine ⟨x, e, ?_, ?_, hR⟩
    · exact (hget _).trans (by rw [if_neg (of_decide_eq_true hne), hx])
    · exact (hmedia _).trans (by rw [if_neg (of_decide_eq_true hne), he])
  · have hx := (hget k).symm.trans hx
    split at hx
    · cases hx
    · rename_i hk
      obtain ⟨v, hv, rfl⟩ := h.saved hx
      exact ⟨v, List.mem_filter.2 ⟨hv, decide_eq_true hk⟩, rfl⟩
  · have hn := (hget k).symm.trans hn
    refine (hmedia k).trans ?_
    split
    · rfl
    · rename_i hk
      rw [if_neg hk] at hn
      exact h.stray hn

theorem endAll (hp : st.pool = true) (hF : st.formats.LawfulIds) : ∀ (ids : List SessionId) {l : Ledger}
    {xs : List Saved}, Table.sessions ∈ l.tables → SessionRows R st.formats l xs →
    ∃ xs', SessionRows R st.formats (l.endAll st ids) xs'
  | [], _, xs, _, h => ⟨xs, h⟩
  | id :: ids, l, _, ht, h => endAll hp hF ids (by
      unfold Ledger.endSession
      rw [Ledger.save_tables]
      exact ht) (SessionRows.endSession hp hF h ht id)

/-- **A request keeps one row for each session.** -/
theorem handled (hp : st.pool = true) (hF : st.formats.LawfulIds) {w : World} (ht : ∀ t, t ∈ w.db.tables)
    (hc : w.Consistent) (h : SessionRows R st.formats w.ledger xs) {κ : Nat → DateTime} {n : Nat} {u : Uuid}
    {r : Request} {l : Ledger} (keep : RowsKeep R st κ w r) (hh : Handled st κ n u w r l) :
    ∃ xs', SessionRows R st.formats l xs' := by
  have ht' : ∀ t, t ∈ w.ledger.tables := ht
  cases hh with
  | @rang hd b inv through caller drawn =>
    rw [Ledger.saveInvite_rows (l := (w.ledger.expire (κ 0)).ring inv) hp (ht' _)]
    exact ⟨xs, h.congr rfl rfl⟩
  | @cancelled hd i b dog inv caller found party =>
    rw [Ledger.deleteInvite_rows (l := w.ledger.close ⟨i⟩) hp (ht' _)]
    exact ⟨xs, h.congr rfl rfl⟩
  | @began hd i b dog inv x s through begins drawn inserted =>
    rw [Ledger.deleteInvite_rows (l := ((w.ledger.expire (κ 0)).close ⟨i⟩).setSessions s) hp (ht' _),
      Ledger.saveSession_rows (l := { ((w.ledger.expire (κ 0)).close ⟨i⟩).setSessions s with inviteRows := _ }) hp
        (ht' _)]
    exact ⟨_, h.put (v := ⟨x, false, false⟩) hF rfl (SessionStore.put_insert inserted) rfl
      (keep.began rfl through begins)⟩
  | @marked hd i b dog both x s caller set =>
    rw [Ledger.saveSession_rows (l := w.ledger.setSessions s) hp (ht' _)]
    rcases SessionStore.setMediaReady_cases w.data.sessions ⟨i⟩ dog (b.ready.getD true) with
      ⟨hn, -⟩ | ⟨y, e, e', s', hy, he, hm, -⟩
    · rw [hn] at set
      cases set
    · obtain ⟨hput, -, hfst⟩ := SessionStore.put_setMediaReady hy he hm
      rw [set] at hput hfst
      cases hfst
      have hid : (promote e' y).id = ⟨i⟩ := (SessionStore.promote_id _ _).trans (hc.sessions.keyed hy)
      obtain ⟨v, hv, hvid⟩ := h.saved hy
      obtain ⟨y', f, hy', hf, hR⟩ := h.live v hv
      rw [hvid] at hy' hf
      cases hy.symm.trans hy'
      cases he.symm.trans hf
      rw [SessionStore.promote_dogA, SessionStore.promote_dogB]
      exact ⟨_, h.put (v := ⟨promote e' y, _, _⟩) hF hid hput rfl (keep.marked rfl caller hy hR hm)⟩
  | @renewed hd i b dog x deadline caller found party extended =>
    have hrow := Ledger.saveSession_rows (l := w.ledger.setSessions
      (w.data.sessions.update ⟨i⟩ (fun s => { s with segmentDeadlineAt := deadline })).2) hp (ht' _)
    rw [hrow]
    obtain ⟨v, hv, hvid⟩ := h.saved found
    obtain ⟨x', e, hx', he, hR⟩ := h.live v hv
    rw [hvid] at hx' he
    cases found.symm.trans hx'
    have hid : x.id = ⟨i⟩ := hc.sessions.keyed found
    have hput := SessionStore.put_update (f := fun s => { s with segmentDeadlineAt := deadline }) found he
    exact ⟨_, h.put (v := ⟨{ x with segmentDeadlineAt := deadline }, true, true⟩) hF hid hput rfl
      (keep.renewed rfl caller found he party extended hR)⟩
  | ended => exact ⟨_, SessionRows.endSession hp hF h (ht' _) _⟩
  | @stopped hd d x =>
    have hset : SessionRows R st.formats
        (w.ledger.setPolicy { w.data.policies.current d with emergencyStop := true }) xs :=
      h.congr rfl rfl
    exact ⟨_, SessionRows.endSession hp hF hset (ht' _) x.id⟩
  | ticked =>
    refine SessionRows.endAll hp hF _ ?_ (h.congr (Ledger.dropAll_sessions st _ _) (Ledger.dropAll_sessionRows st _ _))
    rw [Ledger.dropAll_tables]
    exact ht' _
  | _ => exact ⟨xs, h.congr rfl rfl⟩

/-- Rows of sessions between the same dogs have no dog in common. -/
theorem apart (h : SessionRows R F l xs) (hc : l.sessions.Consistent)
    (hR : ∀ {v x e}, R v x e → v.session.dogA = x.dogA ∧ v.session.dogB = x.dogB) : xs.Pairwise Saved.Apart := by
  refine h.distinct.imp_of_mem (fun {v v'} hv hv' hne => ⟨hne, fun d hd hd' => hne ?_⟩)
  obtain ⟨x, e, hx, -, hr⟩ := h.live v hv
  obtain ⟨x', e', hx', -, hr'⟩ := h.live v' hv'
  obtain ⟨ha, hb⟩ := hR hr
  obtain ⟨ha', hb'⟩ := hR hr'
  unfold SessionRecord.hasDog at hd hd'
  rw [ha, hb] at hd
  rw [ha', hb'] at hd'
  exact hc.unique hx hd hx' hd'

end SessionRows

/-- The rows a store was restored from at `now` are its rows. -/
theorem Restored.sessionRows {R : Saved → SessionRecord → SessionExtra → Prop} {F : Formats} {l : Ledger}
    {xs : List Saved} {now : DateTime} (h : Restored l.sessions (xs.map (Saved.reread F now)))
    (hr : l.sessionRows = xs.map (Saved.row F)) (hp : xs.Pairwise Saved.Apart)
    (hR : ∀ v ∈ xs, R v (promote v.flags (v.session.reread F now)) v.flags) : SessionRows R F l xs where
  rows := hr
  distinct := hp.imp And.left
  live v hv := ⟨_, _, h.get.2 ⟨v.reread F now, List.mem_map_of_mem hv, rfl, rfl⟩,
    h.media.2 ⟨v.reread F now, List.mem_map_of_mem hv, rfl, rfl⟩, hR v hv⟩
  saved hx := by
    obtain ⟨v', hv', hid, -⟩ := h.get.1 hx
    obtain ⟨v, hv, rfl⟩ := List.mem_map.1 hv'
    exact ⟨v, hv, hid⟩
  stray {id} hn := by
    refine Option.eq_none_iff_forall_ne_some.2 (fun e he => ?_)
    obtain ⟨v, hv, hid, -⟩ := h.media.1 he
    rw [h.get.2 ⟨v, hv, hid, rfl⟩] at hn
    cases hn

section

variable {R : Saved → SessionRecord → SessionExtra → Prop} {st : AppState} {Cond : Server → Arrival → Prop} {s : Server}

/-- **A restart restores the sessions of the rows**, as their texts read back. -/
theorem SessionRows.restored {xs : List Saved} (hF : st.formats.LawfulIds) (hs : Lives st Cond s)
    (h : SessionRows R st.formats s.world.ledger xs)
    (dogs : ∀ {v x e}, R v x e → v.session.dogA = x.dogA ∧ v.session.dogB = x.dogB) {now : DateTime} {data : AppData}
    (hd : loadInto st.formats now s.world.db {} = some data) :
    Restored data.sessions (xs.map (Saved.reread st.formats now)) := by
  have hload := (hs.reloaded hF hd).2
  rw [show s.world.db.sessions = xs.map (Saved.row st.formats) from h.rows] at hload
  obtain ⟨s', hs', hr⟩ := Restored.loop hF now (h.apart (hs.consistent hF).sessions dogs)
  cases hload.symm.trans hs'
  exact hr

/-- **One row for each session, over a life.** -/
theorem Lives.sessionRows (hp : st.pool = true) (hF : st.formats.LawfulIds)
    (keep : ∀ s a, Cond s a → RowsKeep R st a.clock s.world a.req)
    (dogs : ∀ {v x e}, R v x e → v.session.dogA = x.dogA ∧ v.session.dogB = x.dogB)
    (reload : ∀ {v x e} now, R v x e → R v (promote v.flags (v.session.reread st.formats now)) v.flags)
    (h : Lives st Cond s) :
    ∃ xs, SessionRows R st.formats s.world.ledger xs := by
  induction h with
  | first t => exact ⟨[], .empty rfl rfl⟩
  | @serve s a h hc ih =>
    obtain ⟨xs, hx⟩ := ih
    exact hx.handled hp hF (h.whole hF).tables (h.consistent hF) (keep s a hc) (Server.serve_handled st s a)
  | @restart s s' now h hnow hs ih =>
    obtain ⟨xs, hx⟩ := ih
    obtain ⟨hdb, -, -, hd⟩ := restart_db hs
    have hr := hx.restored hF h dogs hd
    refine ⟨xs, Restored.sessionRows (l := s'.world.ledger) hr ?_ (hx.apart (h.consistent hF).sessions dogs)
      (fun v hv => ?_)⟩
    · show s'.world.db.sessions = _
      rw [hdb]
      exact hx.rows
    · obtain ⟨x, e, -, -, hR⟩ := hx.live v hv
      exact reload now hR

end
end CanisLink
