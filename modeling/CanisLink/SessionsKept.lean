import CanisLink.SavedSessions
/-!
# SessionsKept — a restart gives the live sessions back

The row of a session is written by `accept`, `media_ready` and `again`, and the last two do not write the flags the
store has: `media_ready` writes the caller's side as ready whatever the caller said, `again` writes both sides.  A date
past the year 9999, which a long enough `max_session_sec` makes, does not read back either.  While no un-ready is
reported, no session renewed before its media is ready and no such date stored, a restart at any time finds the sessions
and their flags as they were.
-/
namespace CanisLink

open SessionStore (promote mark)

/-- What a party to a session says by `media_ready`. -/
def saidReady (st : AppState) (s : Server) (a : Arrival) : Option Bool :=
  match a.req with
  | .mediaReady h i b => do
    let dog ← jsonCaller st h b
    let x ← s.world.data.sessions.get ⟨i⟩
    if x.hasDog dog then some (b.ready.getD true) else none
  | _ => none

/-- The session that a party to it renews by `again`, and its flags. -/
def renewedBy (st : AppState) (s : Server) (a : Arrival) : Option (SessionRecord × SessionExtra) :=
  match a.req with
  | .again h i b => do
    let dog ← jsonCaller st h b
    let x ← s.world.data.sessions.get ⟨i⟩
    let e ← s.world.data.sessions.media.lookup ⟨i⟩
    let _ ← extendSegment (a.clock 2) (s.world.data.policies.current dog).segmentSec x.maxEndAt
    if x.hasDog dog then some (x, e) else none
  | _ => none

/-- **The row will have the flags of the store**: a party to a session reports ready, not un-ready, and renews only when
the media of both sides is ready. -/
def MediaSaved (st : AppState) (s : Server) (a : Arrival) : Prop :=
  (∀ ready ∈ saidReady st s a, ready = true) ∧
    ∀ xe ∈ renewedBy st s a, xe.2.mediaA = true ∧ (xe.2.mediaB = true ∨ xe.1.dogA = xe.1.dogB)

instance (st : AppState) (s : Server) (a : Arrival) : Decidable (MediaSaved st s a) :=
  inferInstanceAs (Decidable (_ ∧ _))

/-- The dates a request stores: those of the session that an accept begins, and the deadline that `again` sets. -/
def storedDates (st : AppState) (s : Server) (a : Arrival) : List DateTime :=
  match a.req with
  | .acceptInvite h i b =>
    match acceptThrough st s.world (a.clock 0) h i b with
    | some (dog, _) =>
      let pol := s.world.data.policies.current dog
      a.clock 0 :: (((seconds (asI64 pol.maxSessionSec)).bind (a.clock 0).plus).toList ++
        ((seconds (asI64 pol.segmentSec)).bind (a.clock 0).plus).toList)
    | none => []
  | .again h i b => Option.toList (do
    let dog ← jsonCaller st h b
    let x ← s.world.data.sessions.get ⟨i⟩
    extendSegment (a.clock 2) (s.world.data.policies.current dog).segmentSec x.maxEndAt)
  | _ => []

/-- **The dates read back**: none that a request stores is outside the years 0000 to 9999. -/
def DatesSaved (st : AppState) (s : Server) (a : Arrival) : Prop := ∀ t ∈ storedDates st s a, t.FourDigitYear

instance (st : AppState) (s : Server) (a : Arrival) : Decidable (DatesSaved st s a) :=
  inferInstanceAs (Decidable (∀ _ ∈ _, _))

namespace Saved

/-- The row gives the session and its flags back. -/
structure Exact (v : Saved) (x : SessionRecord) (e : SessionExtra) : Prop where
  session : v.session = x
  flags : v.flags = e
  promoted : promote e x = x
  dated : ∀ t ∈ x.dates, t.FourDigitYear

/-- A row written with the flags of the store, of a session that is active if both sides are ready. -/
theorem exact_of_flags {x : SessionRecord} {e : SessionExtra} {ma mb : Bool} (hp : promote e x = x)
    (ht : ∀ t ∈ x.dates, t.FourDigitYear) (ha : e.mediaA = (ma || (decide (x.dogA = x.dogB) && mb)))
    (hb : e.mediaB = (!decide (x.dogA = x.dogB) && mb)) : Exact ⟨x, ma, mb⟩ x e := by
  refine ⟨rfl, ?_, hp, ht⟩
  unfold flags
  obtain ⟨a, b⟩ := e
  dsimp only at ha hb ⊢
  subst ha hb
  by_cases hab : x.dogA = x.dogB
  · rw [if_pos hab]
    simp [hab]
  · rw [if_neg hab]
    simp [hab]

theorem Exact.dogs {v : Saved} {x : SessionRecord} {e : SessionExtra} (h : v.Exact x e) :
    v.session.dogA = x.dogA ∧ v.session.dogB = x.dogB := by
  rw [h.session]
  exact ⟨rfl, rfl⟩

theorem Exact.reread {F : Formats} (hF : F.Lawful) {v : Saved} {x : SessionRecord} {e : SessionExtra} (h : v.Exact x e)
    (now : DateTime) : promote v.flags (v.session.reread F now) = x := by
  rw [h.session, h.flags, SessionRecord.reread_eq (fun t ht => hF.parse_rfc3339 t (h.dated t ht)), h.promoted]

theorem Exact.reload {F : Formats} (hF : F.Lawful) {v : Saved} {x : SessionRecord} {e : SessionExtra} (now : DateTime)
    (h : v.Exact x e) : v.Exact (promote v.flags (v.session.reread F now)) v.flags := by
  rw [h.reread hF, h.flags]
  exact h

/-- A dog in session with itself sets only the first flag. -/
theorem Exact.alone {v : Saved} {x : SessionRecord} {e : SessionExtra} (h : v.Exact x e) (hab : x.dogA = x.dogB) :
    e.mediaB = false := by
  rw [← h.flags, Saved.flags, h.session, if_pos hab]

end Saved

theorem dates_promote (e : SessionExtra) (x : SessionRecord) : (promote e x).dates = x.dates := by
  unfold promote
  split <;> rfl

theorem promote_promote (e : SessionExtra) (x : SessionRecord) : promote e (promote e x) = promote e x := by
  unfold promote
  split <;> rfl

theorem mark_party {x : SessionRecord} {dog : DogId} {ready : Bool} {e e' : SessionExtra}
    (hm : mark x dog ready e = some e') : x.hasDog dog := by
  unfold mark at hm
  split at hm
  · rename_i hA
    exact .inl hA.symm
  · split at hm
    · rename_i hB
      exact .inr hB.symm
    · cases hm

namespace Saved.Exact

variable {v : Saved} {x : SessionRecord} {e e' : SessionExtra}

/-- **A row of a side that is ready is exact.** -/
theorem marked (h : v.Exact x e) {dog : DogId} (hm : mark x dog true e = some e') :
    Exact ⟨promote e' x, (e'.mediaA && e'.mediaB) || decide (dog = x.dogA),
      (e'.mediaA && e'.mediaB) || decide (dog = x.dogB)⟩ (promote e' x) e' := by
  have hparty := mark_party hm
  unfold mark at hm
  by_cases hA : dog = x.dogA
  · rw [if_pos hA] at hm
    cases hm
    refine exact_of_flags (promote_promote _ _) (dates_promote _ x ▸ h.dated) (by simp [hA]) ?_
    rw [SessionStore.promote_dogA, SessionStore.promote_dogB]
    by_cases hab : x.dogA = x.dogB
    · simp [hab, h.alone hab]
    · simp [hA, hab]
  · have hB : dog = x.dogB := hparty.elim (fun h => absurd h.symm hA) Eq.symm
    rw [if_neg hA, if_pos hB] at hm
    cases hm
    have hab : x.dogA ≠ x.dogB := fun h => hA (hB.trans h.symm)
    refine exact_of_flags (promote_promote _ _) (dates_promote _ x ▸ h.dated) ?_ ?_
    · simp [hab, hB, Ne.symm hab]
    · simp [hab, hB]

/-- **A row of a renewed session is exact**, if its media is ready on both sides. -/
theorem renewed (h : v.Exact x e) {deadline : DateTime} (ht : deadline.FourDigitYear) (hA : e.mediaA = true)
    (hB : e.mediaB = true ∨ x.dogA = x.dogB) :
    Exact ⟨{ x with segmentDeadlineAt := deadline }, true, true⟩ { x with segmentDeadlineAt := deadline } e := by
  refine exact_of_flags ?_ ?_ (by simp [hA]) ?_
  · have hp := h.promoted
    unfold promote at hp ⊢
    split
    · rename_i hboth
      rw [if_pos hboth] at hp
      rw [← hp]
    · rfl
  · have hdated := h.dated
    simp only [SessionRecord.dates, List.forall_mem_cons] at hdated ⊢
    exact ⟨hdated.1, hdated.2.1, ht, hdated.2.2.2⟩
  · by_cases hab : x.dogA = x.dogB
    · simp [hab, h.alone hab]
    · simpa [hab] using hB

end Saved.Exact

/-- **While flags and dates are saved, every row stays exact.** -/
theorem exact_keep {st : AppState} {s : Server} {a : Arrival} (hc : MediaSaved st s a ∧ DatesSaved st s a) :
    RowsKeep Saved.Exact st a.clock s.world a.req where
  began {h i b dog inv x} hreq hthrough hx := by
    refine Saved.exact_of_flags (by simp [promote]) ?_ (by simp) (by simp)
    have hdates : storedDates st s a = x.dates := by
      unfold storedDates
      simp only [hreq, hthrough]
      rw [hx.maxEndAt, hx.segmentDeadlineAt, ← hx.startedAt]
      rfl
    exact hdates ▸ hc.2
  marked {h i b dog v x e e'} hreq hcaller hx hv hm := by
    have hsaid : saidReady st s a = some (b.ready.getD true) := by
      unfold saidReady
      simp only [hreq, hcaller, hx, Option.bind_eq_bind, Option.bind_some, if_pos (mark_party hm)]
    rw [hc.1.1 _ hsaid] at hm
    exact hv.marked hm
  renewed {h i b dog v x e deadline} hreq hcaller hx he hparty hext hv := by
    have hrenewed : renewedBy st s a = some (x, e) := by
      unfold renewedBy
      simp only [hreq, hcaller, hx, he, hext, Option.bind_eq_bind, Option.bind_some, if_pos hparty]
    obtain ⟨hA, hB⟩ : e.mediaA = true ∧ (e.mediaB = true ∨ x.dogA = x.dogB) := hc.1.2 _ hrenewed
    have hdate : deadline ∈ storedDates st s a := by
      unfold storedDates
      simp [hreq, hcaller, hx, hext]
    exact hv.renewed (hc.2 _ hdate) hA hB

/-- **While flags and dates are saved, a restart finds the live sessions**: at any time of any life, `load_into` gives
exactly the sessions there were, each with its record and its flags. -/
theorem sessions_kept (st : AppState) (hp : st.pool = true) (hF : st.formats.Lawful) (s : Server)
    (h : Lives st (fun s a => MediaSaved st s a ∧ DatesSaved st s a) s) (now : DateTime) :
    ∃ data, loadInto st.formats now s.world.db {} = some data ∧ ∀ id,
      data.sessions.get id = s.world.data.sessions.get id ∧
        data.sessions.media.lookup id = s.world.data.sessions.media.lookup id := by
  obtain ⟨s', hs⟩ := h.restarts hF.toLawfulIds now
  obtain ⟨-, -, -, hd⟩ := restart_db hs
  obtain ⟨xs, hx⟩ := h.sessionRows hp hF.toLawfulIds (fun _ _ => exact_keep) Saved.Exact.dogs (Saved.Exact.reload hF)
  have hr := hx.restored hF.toLawfulIds h Saved.Exact.dogs hd
  refine ⟨s'.world.data, hd, fun id => ?_⟩
  cases hg : s.world.data.sessions.get id with
  | none =>
    have hnot : ∀ v ∈ xs, v.session.id ≠ id := by
      rintro v hv rfl
      obtain ⟨x, e, hlive, -⟩ := hx.live v hv
      cases hg.symm.trans hlive
    refine ⟨Option.eq_none_iff_forall_ne_some.2 (fun y hy => ?_), ?_⟩
    · obtain ⟨v', hv', hid, -⟩ := hr.get.1 hy
      obtain ⟨v, hv, rfl⟩ := List.mem_map.1 hv'
      exact hnot v hv hid
    · refine (Option.eq_none_iff_forall_ne_some.2 (fun e he => ?_)).trans (hx.stray hg).symm
      obtain ⟨v', hv', hid, -⟩ := hr.media.1 he
      obtain ⟨v, hv, rfl⟩ := List.mem_map.1 hv'
      exact hnot v hv hid
  | some y =>
    obtain ⟨v, hv, rfl⟩ := hx.saved hg
    obtain ⟨x, e, hlive, he, hR⟩ := hx.live v hv
    cases hg.symm.trans hlive
    have he : s.world.data.sessions.media.lookup v.session.id = some e := he
    have hread : v.reread st.formats now ∈ xs.map (Saved.reread st.formats now) := List.mem_map_of_mem hv
    refine ⟨hr.get.2 ⟨_, hread, rfl, hR.reread hF now⟩, ?_⟩
    rw [he]
    exact hr.media.2 ⟨_, hread, rfl, hR.flags⟩

/-- Dogs 1 and 2 meet, both report ready, and dog 1 renews. -/
def renewal : Server :=
  Server.serveAll bench ⟨fresh, noon⟩ (Server.timed (meeting ++ [.mediaReady (device 1) 1 (jsonBody 1),
    .mediaReady (device 2) 1 (jsonBody 2), .again (device 1) 1 (jsonBody 1)].map (fun r => (noon, r))))

theorem sessions_kept_renewal : ∃ data, loadInto decimals noon renewal.world.db {} = some data ∧ ∀ id,
    data.sessions.get id = renewal.world.data.sessions.get id ∧
      data.sessions.media.lookup id = renewal.world.data.sessions.media.lookup id :=
  sessions_kept bench rfl decimals_lawful renewal (.serveAll (.first noon) (by decide +kernel)) noon

/-- Dogs 1 and 2 meet, and dog 1 reports that it is not ready. -/
def unready : Server :=
  Server.serveAll bench ⟨fresh, noon⟩
    (Server.timed (meeting ++ [(noon, .mediaReady (device 1) 1 { jsonBody 1 with ready := some false })]))

/-- **A restart makes a dog ready**: dog 1 has reported that it is not, and its row says that it is. -/
theorem unready_forgotten : ¬ ∀ (st : AppState) (s : Server) (now : DateTime), st.pool = true → st.formats.Lawful →
    Lives st (fun _ _ => True) s → ∃ data, loadInto st.formats now s.world.db {} = some data ∧ ∀ id,
      data.sessions.get id = s.world.data.sessions.get id ∧
        data.sessions.media.lookup id = s.world.data.sessions.media.lookup id := by
  intro h
  obtain ⟨data, hd, hkept⟩ := h bench unready noon rfl decimals_lawful (.serveAll (.first noon) (by decide +kernel))
  have hmedia := congrArg (Option.map (fun data => data.sessions.media.lookup ⟨1⟩)) hd
  rw [Option.map_some, (hkept ⟨1⟩).2] at hmedia
  revert hmedia
  decide +kernel

end CanisLink
