import CanisLink.SessionCustody
import CanisLink.Moments
/-!
# MediaReady — the media handshake

`set_media_ready` sets the flag of its dog under one lock and the state under another, later.  A session becomes active
through a thread that saw both flags set, and only so.  Of two threads that set the two flags, the one that is second at
`media` sees both, and makes the session active before it returns.
-/
namespace CanisLink
namespace SessionSections

open Interleave (Prog Pool Step getElem?_middle pair_sublist forall_middle map_middle)
open Point

/-- The session as `accept_invite_handler` leaves it in the store. -/
structure Accepted (s : SessionStore) (x : SessionRecord) : Prop where
  stored : s.get x.id = some x
  negotiating : x.state = .negotiating
  apart : x.dogA ≠ x.dogB
  unset : s.media.lookup x.id = some { mediaA := false, mediaB := false }

theorem accepted_insert {s s' : SessionStore} {x : SessionRecord} (h : s.insert x = .ok s')
    (hx : x.state = .negotiating) (hab : x.dogA ≠ x.dogB) : Accepted s' x := by
  unfold SessionStore.insert at h
  split at h
  · cases h
  · cases h
    exact ⟨AList.lookup_insert _, hx, hab, AList.lookup_insert _⟩

/-- `again` sets a new deadline and nothing else. -/
def extended (newDeadline : DateTime) (s : SessionRecord) : SessionRecord := { s with segmentDeadlineAt := newDeadline }

/-- The call leaves the handshake of a session to the others: it inserts no session under this id, and an `update` of it
keeps state and dogs. -/
def Call.Leaves (id : SessionId) : Call → Prop
  | insert session => session.id ≠ id
  | update id' f => id' = id → ∀ y, (f y).state = y.state ∧ (f y).dogA = y.dogA ∧ (f y).dogB = y.dogB
  | _ => True

theorem leaves_extended (id id' : SessionId) (newDeadline : DateTime) :
    (Call.update id' (extended newDeadline)).Leaves id := fun _ _ => ⟨rfl, rfl, rfl⟩

/-! ## What a section does to one session -/

/-- What becomes of the record of `id`. -/
def Section.record (id : SessionId) : Section → Option SessionRecord → Option SessionRecord
  | insertById session, o => if id = session.id then some session else o
  | updateById id' f, o => if id = id' then o.map f else o
  | removeById id', o => if id = id' then none else o
  | _, o => o

/-- What becomes of the flags of `id`. -/
def Section.flags (id : SessionId) : Section → Option SessionExtra → Option SessionExtra
  | insertMedia session, o => if id = session.id then some { mediaA := false, mediaB := false } else o
  | removeMedia id', o => if id = id' then none else o
  | markMedia id' sess dog ready, o => if id = id' then (o.bind (SessionStore.mark sess dog ready)).or o else o
  | _, o => o

theorem get_exec (c : Section) (l : Locked) (id : SessionId) :
    (exec () c l).2.store.get id = c.record id (l.store.get id) := by
  cases c with
  | insertByDog session =>
    simp only [exec]
    split <;> rfl
  | insertById session => exact HashMap.lookup_insert session.id id session l.store.byId
  | updateById id' f =>
    simp only [exec, Section.record, SessionStore.update, SessionStore.get]
    cases hx : l.store.byId.lookup id' with
    | none =>
      by_cases he : id = id'
      · subst he
        simp only [hx, if_true, Option.map_none]
      · simp only [if_neg he]
    | some x =>
      refine (HashMap.lookup_insert id' id (f x) l.store.byId).trans ?_
      by_cases he : id = id'
      · subst he
        simp only [hx, if_true, Option.map_some]
      · simp only [if_neg he]
  | removeById id' =>
    simp only [exec, Section.record, SessionStore.get]
    cases hx : l.store.byId.lookup id' with
    | none =>
      by_cases he : id = id'
      · subst he
        simp only [hx, if_true]
      · simp only [if_neg he]
    | some x => exact HashMap.lookup_erase id' id l.store.byId
  | markMedia id' sess dog ready =>
    simp only [exec]
    split <;> rfl
  | _ => rfl

theorem lookup_media_exec (c : Section) (l : Locked) (id : SessionId) :
    (exec () c l).2.store.media.lookup id = c.flags id (l.store.media.lookup id) := by
  cases c with
  | insertByDog session =>
    simp only [exec]
    split <;> rfl
  | insertMedia session => exact HashMap.lookup_insert session.id id { mediaA := false, mediaB := false } l.store.media
  | updateById id' f =>
    simp only [exec, SessionStore.update]
    split <;> rfl
  | removeById id' =>
    simp only [exec]
    split <;> rfl
  | removeMedia id' => exact HashMap.lookup_erase id' id l.store.media
  | markMedia id' sess dog ready =>
    simp only [exec, Section.flags]
    cases hm : (l.store.media.lookup id').bind (SessionStore.mark sess dog ready) with
    | none =>
      by_cases he : id = id'
      · subst he
        simp only [hm, if_true, Option.none_or]
      · simp only [if_neg he]
    | some e =>
      refine (HashMap.lookup_insert id' id e l.store.media).trans ?_
      by_cases he : id = id'
      · subst he
        simp only [hm, if_true, Option.some_or]
      · simp only [if_neg he]
  | _ => rfl

variable {x y : SessionRecord} {id : SessionId} {s : SessionStore} {log : List (Step Section.Resp Unit)}
  {pt pt' : Point} {pts a b : List Point} {c : Section} {f : c.Resp → Point} {o : Option SessionRecord}

theorem record_next (hn : pt.next = some ⟨c, f⟩) (hl : pt.of.Leaves id) (hy : c.record id o = some y) :
    ∃ y₀, o = some y₀ ∧ y.dogA = y₀.dogA ∧ y.dogB = y₀.dogB ∧ (y₀.state = .active → y.state = .active) ∧
      (y.state = .active → y₀.state = .active ∨ ∃ dog ready, pt = .activating id dog ready) ∧
      ∀ dog ready, pt = .activating id dog ready → y.state = .active := by
  cases pt with
  | call cl =>
    cases cl with
    | update id' g =>
      cases hn
      simp only [Section.record] at hy
      split at hy
      · rename_i he
        obtain ⟨y₀, rfl, rfl⟩ := Option.map_eq_some_iff.1 hy
        obtain ⟨hstate, hdogA, hdogB⟩ := hl he.symm y₀
        rw [hstate]
        exact ⟨y₀, rfl, hdogA, hdogB, fun h => h, fun h => .inl h, fun _ _ h => by cases h⟩
      · exact ⟨y, hy, rfl, rfl, fun h => h, fun h => .inl h, fun _ _ h => by cases h⟩
    | endSession id' =>
      cases hn
      simp only [Section.record] at hy
      split at hy
      · cases hy
      · exact ⟨y, hy, rfl, rfl, fun h => h, fun h => .inl h, fun _ _ h => by cases h⟩
    | _ => cases hn; exact ⟨y, hy, rfl, rfl, fun h => h, fun h => .inl h, fun _ _ h => by cases h⟩
  | storing session =>
    cases hn
    simp only [Section.record] at hy
    rw [if_neg (fun he => hl he.symm)] at hy
    exact ⟨y, hy, rfl, rfl, fun h => h, fun h => .inl h, fun _ _ h => by cases h⟩
  | activating id' dog ready =>
    cases hn
    simp only [Section.record] at hy
    split at hy
    · rename_i he
      obtain ⟨y₀, rfl, rfl⟩ := Option.map_eq_some_iff.1 hy
      exact ⟨y₀, rfl, rfl, rfl, fun _ => rfl, fun _ => .inr ⟨dog, ready, he ▸ rfl⟩, fun _ _ _ => rfl⟩
    · rename_i hne
      refine ⟨y, hy, rfl, rfl, fun h => h, fun h => .inl h, fun dog' ready' h => ?_⟩
      cases h
      exact absurd rfl hne
  | returned cl r => cases hn
  | _ => cases hn; exact ⟨y, hy, rfl, rfl, fun h => h, fun h => .inl h, fun _ _ h => by cases h⟩

/-! ## Not early -/

/-- Some thread has set a flag of `id` and seen both set. -/
def SeenBoth (id : SessionId) (log : List (Step Section.Resp Unit)) : Prop :=
  ∃ i t sess dog ready, ⟨i, t, .markMedia id sess dog ready, some true⟩ ∈ log

theorem SeenBoth.append (h : SeenBoth id log) (log' : List (Step Section.Resp Unit)) : SeenBoth id (log ++ log') := by
  obtain ⟨i, t, sess, dog, ready, hmem⟩ := h
  exact ⟨i, t, sess, dog, ready, List.mem_append_left log' hmem⟩

/-- Who is active, or about to be made so, has been seen with both flags. -/
structure NotEarly (id : SessionId) (s : SessionStore) (log : List (Step Section.Resp Unit)) (pts : List Point) :
    Prop where
  active : ∀ y, s.get id = some y → y.state = .active → SeenBoth id log
  activating : ∀ dog ready, .activating id dog ready ∈ pts → SeenBoth id log

theorem activating_next {dog : DogId} {ready : Bool} {r : c.Resp} (hn : pt.next = some ⟨c, f⟩)
    (hr : f r = .activating id dog ready) (i : Nat) (t : Unit) :
    ∃ sess, (⟨i, t, c, r⟩ : Step Section.Resp Unit) = ⟨i, t, .markMedia id sess dog ready, some true⟩ := by
  cases pt with
  | call cl =>
    cases cl with
    | insert session => cases hn; cases r <;> cases hr
    | forDog d => cases hn; cases r <;> cases hr
    | endSession id' => cases hn; cases r <;> cases hr
    | setMediaReady id' d rd => cases hn; cases r <;> cases hr
    | _ => cases hn; cases hr
  | marking id' d rd sess =>
    cases hn
    cases r with
    | none => cases hr
    | some both =>
      cases both with
      | false => cases hr
      | true =>
        cases hr
        exact ⟨sess, rfl⟩
  | returned cl r => cases hn
  | _ => cases hn; cases hr

theorem NotEarly.step {l : Locked} (h : NotEarly id l.store log (a ++ pt :: b)) (hn : pt.next = some ⟨c, f⟩)
    (hl : pt.of.Leaves id) (i : Nat) (t : Unit) : NotEarly id (exec () c l).2.store
      (log ++ [⟨i, t, c, (exec () c l).1⟩]) (a ++ f (exec () c l).1 :: b) where
  active y hy hactive := by
    rw [get_exec] at hy
    obtain ⟨y₀, hy₀, -, -, -, hback, -⟩ := record_next hn hl hy
    rcases hback hactive with hold | ⟨dog, ready, rfl⟩
    · exact (h.active y₀ hy₀ hold).append _
    · exact (h.activating dog ready (by simp)).append _
  activating dog ready hmem := by
    rw [List.mem_append, List.mem_cons] at hmem
    rcases hmem with hmem | hmem | hmem
    · exact (h.activating dog ready (List.mem_append_left _ hmem)).append _
    · obtain ⟨sess, he⟩ := activating_next hn hmem.symm i t
      exact ⟨i, t, sess, dog, ready, List.mem_append_right log (he ▸ List.mem_singleton_self _)⟩
    · exact (h.activating dog ready (List.mem_append_right _ (List.mem_cons_of_mem pt hmem))).append _

/-! ## Not lost -/

/-- The thread has set its flag of `id` and knows whether both were set. -/
def Point.Told (id : SessionId) : Point → Option Bool → Prop
  | activating id' _ _, r => id' = id ∧ r = some true
  | answering id' _ _ both, r => id' = id ∧ r = some both
  | returned (.setMediaReady id' _ _) (.marked o), r => id' = id ∧ o.map (·.1) = r
  | _, _ => False

/-- The thread is past its visit to the flags of `id`. -/
def Point.Past (id : SessionId) : Point → Prop
  | activating id' _ _ => id' = id
  | answering id' _ _ _ => id' = id
  | returned (.setMediaReady id' _ _) _ => id' = id
  | _ => False

/-- The thread has not taken `x` out of the store, and has read its dogs as they are. -/
def Point.Calm (x : SessionRecord) : Point → Prop
  | ending id _ => id ≠ x.id
  | clearing id _ => id ≠ x.id
  | marking id _ _ sess => id = x.id → sess.dogA = x.dogA ∧ sess.dogB = x.dogB
  | _ => True

/-- The flags of the dogs that have been to `media` are set. -/
def Shows (x : SessionRecord) (log : List (Step Section.Resp Unit)) (e : SessionExtra) : Prop :=
  ∀ {i t sess dog ready r}, ⟨i, t, .markMedia x.id sess dog ready, r⟩ ∈ log →
    (dog = x.dogA → e.mediaA = true) ∧ (dog = x.dogB → e.mediaB = true)

/-- The second of the two dogs at `media` sees both flags. -/
def Second (x : SessionRecord) (e e' : Step Section.Resp Unit) : Prop :=
  ∀ {i t sess dog ready r i' t' sess' dog' ready' r'}, e = ⟨i, t, .markMedia x.id sess dog ready, r⟩ →
    e' = ⟨i', t', .markMedia x.id sess' dog' ready', r'⟩ → x.hasDog dog → x.hasDog dog' → dog ≠ dog' → r' = some true

/-- **While the session is there** and no dog calls with `ready` false: its flags are those of the dogs that have been
to `media`, every thread knows what it was told there, and the session is active once one that saw both flags has gone
on. -/
structure Meeting (x : SessionRecord) (s : SessionStore) (log : List (Step Section.Resp Unit)) (pts : List Point) :
    Prop where
  stored : ∃ y, s.get x.id = some y ∧ y.dogA = x.dogA ∧ y.dogB = x.dogB
  flags : ∃ e, s.media.lookup x.id = some e ∧ Shows x log e
  calm : ∀ pt ∈ pts, pt.Calm x
  told : ∀ {i t sess dog ready r}, ⟨i, t, .markMedia x.id sess dog ready, r⟩ ∈ log →
    ∃ pt, pts[i]? = some pt ∧ pt.of = .setMediaReady x.id dog ready ∧ pt.Told x.id r
  past : ∀ {i pt}, pts[i]? = some pt → pt.Past x.id →
    ∃ t sess dog ready r, ⟨i, t, .markMedia x.id sess dog ready, r⟩ ∈ log
  settled : ∀ pt ∈ pts, pt.Told x.id (some true) → (∀ dog ready, pt ≠ .activating x.id dog ready) →
    ∀ y, s.get x.id = some y → y.state = .active
  second : log.Pairwise (Second x)

theorem told_next {l : Locked} {r : Option Bool} (hn : pt.next = some ⟨c, f⟩) (h : pt.Told id r)
    (hs : l.store.get id = some y) : (f (exec () c l).1).Told id r := by
  cases pt with
  | activating id' dog ready => cases hn; exact h
  | answering id' dog ready both =>
    cases hn
    obtain ⟨rfl, rfl⟩ := h
    simp only [exec, hs]
    exact ⟨rfl, rfl⟩
  | returned cl r => cases hn
  | _ => cases h

theorem told_back {r : c.Resp} (hn : pt.next = some ⟨c, f⟩) (h : (f r).Told id (some true)) :
    pt.Told id (some true) ∨ ∃ dog ready sess, pt = .marking id dog ready sess := by
  cases pt with
  | call cl =>
    cases cl with
    | insert session => cases hn; cases r <;> cases h
    | forDog d => cases hn; cases r <;> cases h
    | endSession id' => cases hn; cases r <;> cases h
    | setMediaReady id' d rd =>
      cases hn
      cases r with
      | none => cases h.2
      | some sess => cases h
    | _ => cases hn; cases h
  | marking id' dog ready sess =>
    cases hn
    cases r with
    | none => cases h.2
    | some both =>
      cases both with
      | false => cases h.2
      | true => exact .inr ⟨dog, ready, sess, by rw [h.1]⟩
  | activating id' dog ready => cases hn; exact .inl h
  | answering id' dog ready both =>
    cases hn
    obtain ⟨rfl, he⟩ := h
    rw [Option.map_map] at he
    obtain ⟨s, -, rfl⟩ := Option.map_eq_some_iff.1 he
    exact .inl ⟨rfl, rfl⟩
  | returned cl r => cases hn
  | _ => cases hn; cases h

theorem past_next {l : Locked} (hn : pt.next = some ⟨c, f⟩) (h : (f (exec () c l).1).Past id)
    (hs : l.store.get id = some y) : pt.Past id ∨ ∃ dog ready sess, pt = .marking id dog ready sess := by
  cases pt with
  | call cl =>
    cases cl with
    | insert session => cases hn; generalize (exec () _ l).1 = r at h; cases r <;> cases h
    | forDog d => cases hn; generalize (exec () _ l).1 = r at h; cases r <;> cases h
    | endSession id' => cases hn; generalize (exec () _ l).1 = r at h; cases r <;> cases h
    | setMediaReady id' d rd =>
      cases hn
      simp only [exec] at h
      cases hx : l.store.get id' with
      | none =>
        rw [hx] at h
        obtain rfl : id' = id := h
        rw [hs] at hx
        cases hx
      | some sess =>
        rw [hx] at h
        cases h
    | _ => cases hn; cases h
  | marking id' dog ready sess =>
    refine .inr ⟨dog, ready, sess, ?_⟩
    cases hn
    generalize (exec () _ l).1 = r at h
    cases r with
    | none =>
      obtain rfl : id' = id := h
      rfl
    | some both =>
      cases both <;>
      · obtain rfl : id' = id := h
        rfl
  | activating id' dog ready => cases hn; exact .inl h
  | answering id' dog ready both => cases hn; exact .inl h
  | returned cl r => cases hn
  | _ => cases hn; cases h

theorem marking_of_next {r : c.Resp} {i j : Nat} {t t' : Unit} {sess : SessionRecord} {dog : DogId} {ready : Bool}
    {r' : Option Bool} (hn : pt.next = some ⟨c, f⟩)
    (he : (⟨i, t, .markMedia id sess dog ready, r'⟩ : Step Section.Resp Unit) = ⟨j, t', c, r⟩) :
    pt = .marking id dog ready sess := by
  cases he
  cases pt with
  | call cl => cases cl <;> cases hn
  | marking id' d rd sess' => cases hn; rfl
  | _ => cases hn

/-- A thread that takes a session out takes another one, and one that reads `x` reads its dogs. -/
theorem calm_next {l : Locked} (hn : pt.next = some ⟨c, f⟩) (h : pt.Calm x) (hs : l.store.get x.id = some y)
    (hA : y.dogA = x.dogA) (hB : y.dogB = x.dogB) (hlive : c.record x.id (some y) ≠ none) :
    (f (exec () c l).1).Calm x := by
  cases pt with
  | call cl =>
    cases cl with
    | insert session => cases hn; generalize (exec () _ l).1 = r; cases r <;> trivial
    | forDog d => cases hn; generalize (exec () _ l).1 = r; cases r <;> trivial
    | endSession id' =>
      cases hn
      have hne : id' ≠ x.id := fun he => hlive (by simp only [Section.record, he, if_true])
      generalize (exec () _ l).1 = r
      cases r with
      | none => trivial
      | some z => exact hne
    | setMediaReady id' d rd =>
      cases hn
      simp only [exec]
      cases hx : l.store.get id' with
      | none => trivial
      | some sess =>
        rintro rfl
        obtain rfl : y = sess := Option.some.inj (hs.symm.trans hx)
        exact ⟨hA, hB⟩
    | _ => cases hn; trivial
  | ending id' z => cases hn; exact h
  | marking id' dog ready sess =>
    cases hn
    generalize (exec () _ l).1 = r
    cases r with
    | none => trivial
    | some both => cases both <;> trivial
  | returned cl r => cases hn
  | _ => cases hn; trivial

theorem flags_next {e : Option SessionExtra} (hn : pt.next = some ⟨c, f⟩) (hl : pt.of.Leaves x.id) (h : pt.Calm x)
    (hm : ∀ dog ready sess, pt ≠ .marking x.id dog ready sess) : c.flags x.id e = e := by
  cases pt with
  | call cl => cases cl <;> cases hn <;> rfl
  | inserting session => cases hn; exact if_neg (fun he => hl he.symm)
  | clearing id' z => cases hn; exact if_neg (fun he => h he.symm)
  | marking id' dog ready sess =>
    have hne : x.id ≠ id' := fun he => hm dog ready sess (he ▸ rfl)
    cases hn
    exact if_neg hne
  | returned cl r => cases hn
  | _ => cases hn; rfl

/-- Setting a flag leaves the other as it is. -/
theorem mark_sets {sess : SessionRecord} {dog : DogId} {ready : Bool} (e : SessionExtra) (hab : x.dogA ≠ x.dogB)
    (hA : sess.dogA = x.dogA) (hB : sess.dogB = x.dogB) (hready : x.hasDog dog → ready = true) :
    ∃ e', (SessionStore.mark sess dog ready e).or (some e) = some e' ∧
      (e.mediaA = true ∨ dog = x.dogA → e'.mediaA = true) ∧ (e.mediaB = true ∨ dog = x.dogB → e'.mediaB = true) ∧
      (x.hasDog dog → SessionStore.mark sess dog ready e = some e') := by
  unfold SessionStore.mark
  rw [hA, hB]
  by_cases hdA : dog = x.dogA
  · obtain rfl := hready (.inl hdA.symm)
    rw [if_pos hdA]
    refine ⟨{ e with mediaA := true }, rfl, fun _ => rfl, fun hb => ?_, fun _ => rfl⟩
    exact hb.resolve_right (fun hdB => hab (hdA.symm.trans hdB))
  · rw [if_neg hdA]
    by_cases hdB : dog = x.dogB
    · obtain rfl := hready (.inr hdB.symm)
      rw [if_pos hdB]
      exact ⟨{ e with mediaB := true }, rfl, fun ha => ha.resolve_right hdA, fun _ => rfl, fun _ => rfl⟩
    · rw [if_neg hdB]
      refine ⟨e, rfl, fun ha => ha.resolve_right hdA, fun hb => hb.resolve_right hdB, ?_⟩
      rintro (h | h)
      · exact absurd h.symm hdA
      · exact absurd h.symm hdB

/-- A section that does not visit the flags of `x`. -/
theorem Meeting.aside {l : Locked} (h : Meeting x l.store log (a ++ pt :: b)) (hn : pt.next = some ⟨c, f⟩)
    (hl : pt.of.Leaves x.id) (hm : ∀ dog ready sess, pt ≠ .marking x.id dog ready sess)
    (hlive : (exec () c l).2.store.get x.id ≠ none) (t : Unit) : Meeting x (exec () c l).2.store
      (log ++ [⟨a.length, t, c, (exec () c l).1⟩]) (a ++ f (exec () c l).1 :: b) := by
  obtain ⟨y₀, hy₀, hA, hB⟩ := h.stored
  obtain ⟨e, he, hshows⟩ := h.flags
  have hrecord := get_exec c l x.id
  obtain ⟨y, hy⟩ := Option.ne_none_iff_exists'.1 hlive
  rw [hy, hy₀] at hrecord
  obtain ⟨y₁, hy₁, hdogA, hdogB, hstays, -, hactivated⟩ := record_next hn hl hrecord.symm
  obtain rfl : y₀ = y₁ := Option.some.inj hy₁
  have hcalm : pt.Calm x := h.calm pt (by simp)
  -- the new step of the log is not a visit to the flags
  have hold : ∀ {i t' sess dog ready r}, ⟨i, t', .markMedia x.id sess dog ready, r⟩ ∈
      log ++ [(⟨a.length, t, c, (exec () c l).1⟩ : Step Section.Resp Unit)] →
      ⟨i, t', .markMedia x.id sess dog ready, r⟩ ∈ log := by
    intro i t' sess dog ready r hmem
    rcases List.mem_append.1 hmem with hmem | hmem
    · exact hmem
    · exact absurd (marking_of_next hn (List.mem_singleton.1 hmem)) (hm dog ready sess)
  have hhere : (a ++ pt :: b)[a.length]? = some pt := by simp
  have hhere' : (a ++ f (exec () c l).1 :: b)[a.length]? = some (f (exec () c l).1) := by simp
  refine ⟨⟨y, hy, hdogA.trans hA, hdogB.trans hB⟩, ⟨e, ?_, fun hmem => hshows (hold hmem)⟩, ?_,
    fun {i t' sess dog ready r} hmem => ?_, fun {i pt'} hi hpast => ?_, fun pt' hpt htold hnot y' hy' => ?_, ?_⟩
  · rw [lookup_media_exec, he]
    exact flags_next hn hl hcalm hm
  · exact forall_middle h.calm (calm_next hn hcalm hy₀ hA hB (hrecord ▸ Option.some_ne_none y))
  · obtain ⟨pt₀, hi, hof, htold⟩ := h.told (hold hmem)
    by_cases hlen : i = a.length
    · subst hlen
      obtain rfl : pt = pt₀ := Option.some.inj (hhere.symm.trans hi)
      exact ⟨_, hhere', (of_next hn _).trans hof, told_next hn htold hy₀⟩
    · exact ⟨pt₀, (getElem?_middle pt _ hlen).trans hi, hof, htold⟩
  · have hpast₀ : ∃ pt₀, (a ++ pt :: b)[i]? = some pt₀ ∧ pt₀.Past x.id := by
      by_cases hlen : i = a.length
      · subst hlen
        obtain rfl := Option.some.inj (hhere'.symm.trans hi)
        rcases past_next hn hpast hy₀ with hp | ⟨dog, ready, sess, hp⟩
        · exact ⟨pt, hhere, hp⟩
        · exact absurd hp (hm dog ready sess)
      · exact ⟨pt', (getElem?_middle pt _ hlen).symm.trans hi, hpast⟩
    obtain ⟨pt₀, hi₀, hp⟩ := hpast₀
    obtain ⟨t', sess, dog, ready, r, hmem⟩ := h.past hi₀ hp
    exact ⟨t', sess, dog, ready, r, List.mem_append_left _ hmem⟩
  · obtain rfl : y = y' := Option.some.inj (hy.symm.trans hy')
    refine forall_middle (Q := fun pt' => pt'.Told x.id (some true) → (∀ dog ready, pt' ≠ .activating x.id dog ready) →
      y.state = .active) (fun pt' hpt htold hnot => hstays (h.settled pt' hpt htold hnot y₀ hy₀)) (fun htold _ => ?_)
      pt' hpt htold hnot
    rcases told_back hn htold with hknew | ⟨dog, ready, sess, hp⟩
    · by_cases hact : ∃ dog ready, pt = .activating x.id dog ready
      · obtain ⟨dog, ready, hp⟩ := hact
        exact hactivated dog ready hp
      · have hnot₀ : ∀ dog ready, pt ≠ .activating x.id dog ready := fun dog ready hp => hact ⟨dog, ready, hp⟩
        exact hstays (h.settled pt (by simp) hknew hnot₀ y₀ hy₀)
    · exact absurd hp (hm dog ready sess)
  · rw [List.pairwise_append]
    refine ⟨h.second, List.pairwise_singleton _ _, fun e₁ _ e₂ he₂ => ?_⟩
    intro i t₁ sess dog ready r i' t' sess' dog' ready' r' _ hmark
    rw [List.mem_singleton.1 he₂] at hmark
    exact absurd (marking_of_next hn hmark.symm) (hm dog' ready' sess')

theorem Meeting.mark {l : Locked} {dog : DogId} {ready : Bool} {sess : SessionRecord}
    (h : Meeting x l.store log (a ++ .marking x.id dog ready sess :: b))
    (hn : Point.next (.marking x.id dog ready sess) = some ⟨c, f⟩) (hab : x.dogA ≠ x.dogB)
    (hready : x.hasDog dog → ready = true) (t : Unit) : Meeting x (exec () c l).2.store
      (log ++ [⟨a.length, t, c, (exec () c l).1⟩]) (a ++ f (exec () c l).1 :: b) := by
  obtain ⟨e, he, hshows⟩ := h.flags
  obtain ⟨hA, hB⟩ := h.calm (.marking x.id dog ready sess) (by simp) rfl
  obtain ⟨e', he', hsetA, hsetB, hsome⟩ := mark_sets e hab hA hB hready
  have hget := get_exec c l x.id
  have hmedia := lookup_media_exec c l x.id
  have hof := of_next hn (exec () c l).1
  cases hn
  have hget : (exec () (.markMedia x.id sess dog ready) l).2.store.get x.id = l.store.get x.id := hget
  rw [he, Section.flags, if_pos rfl, Option.bind_some, he'] at hmedia
  have hresp : x.hasDog dog → (exec () (.markMedia x.id sess dog ready) l).1 = some (e'.mediaA && e'.mediaB) := by
    intro hd
    have hbind : (l.store.media.lookup x.id).bind (SessionStore.mark sess dog ready) = some e' := by
      rw [he, Option.bind_some, hsome hd]
    simp only [exec, hbind]
  generalize hr : (exec () (.markMedia x.id sess dog ready) l).1 = r at hresp hof ⊢
  have hhere' : ∀ pt', (a ++ pt' :: b)[a.length]? = some pt' := by simp
  refine ⟨by rw [hget]; exact h.stored, ⟨e', hmedia, fun {i t' sess' dog' ready' r'} hmem => ?_⟩, ?_,
    fun {i t' sess' dog' ready' r'} hmem => ?_, fun {i pt'} hi hpast => ?_, fun pt' hpt htold hnot y' hy' => ?_, ?_⟩
  · rcases List.mem_append.1 hmem with hmem | hmem
    · exact ⟨fun hd => hsetA (.inl ((hshows hmem).1 hd)), fun hd => hsetB (.inl ((hshows hmem).2 hd))⟩
    · cases List.mem_singleton.1 hmem
      exact ⟨fun hd => hsetA (.inr hd), fun hd => hsetB (.inr hd)⟩
  · refine forall_middle h.calm ?_
    cases r with
    | none => trivial
    | some both => cases both <;> trivial
  · rcases List.mem_append.1 hmem with hmem | hmem
    · obtain ⟨pt₀, hi, hof₀, htold⟩ := h.told hmem
      have hlen : i ≠ a.length := by
        rintro rfl
        obtain rfl := Option.some.inj ((hhere' _).symm.trans hi)
        exact htold
      exact ⟨pt₀, (getElem?_middle _ _ hlen).trans hi, hof₀, htold⟩
    · cases List.mem_singleton.1 hmem
      refine ⟨_, hhere' _, hof, ?_⟩
      cases r with
      | none => exact ⟨rfl, rfl⟩
      | some both => cases both <;> exact ⟨rfl, rfl⟩
  · by_cases hlen : i = a.length
    · subst hlen
      exact ⟨t, sess, dog, ready, r, List.mem_append_right _ (List.mem_singleton_self _)⟩
    · obtain ⟨t', sess', dog', ready', r', hmem⟩ := h.past ((getElem?_middle _ _ hlen).symm.trans hi) hpast
      exact ⟨t', sess', dog', ready', r', List.mem_append_left _ hmem⟩
  · rw [hget] at hy'
    refine forall_middle h.settled (fun htold hnot _ _ => ?_) pt' hpt htold hnot y' hy'
    cases r with
    | none => cases htold.2
    | some both =>
      cases both with
      | false => cases htold.2
      | true => exact absurd rfl (hnot dog ready)
  · rw [List.pairwise_append]
    refine ⟨h.second, List.pairwise_singleton _ _, fun e₁ he₁ e₂ he₂ => ?_⟩
    intro i t₁ sess₁ dog₁ ready₁ r₁ i' t' sess' dog' ready' r' hfirst hsecond hd₁ hd hne
    rw [List.mem_singleton.1 he₂] at hsecond
    cases hsecond
    rw [hresp hd]
    -- the flag of the first dog is set, and so is this one
    obtain ⟨hfA, hfB⟩ := hshows (hfirst ▸ he₁)
    have hbothA : e'.mediaA = true := by
      rcases hd with hd | hd
      · exact hsetA (.inr hd.symm)
      · refine hsetA (.inl (hfA ?_))
        exact (hd₁.resolve_right (fun hB₁ => hne (hB₁.symm.trans hd))).symm
    have hbothB : e'.mediaB = true := by
      rcases hd with hd | hd
      · refine hsetB (.inl (hfB ?_))
        exact (hd₁.resolve_left (fun hA₁ => hne (hA₁.symm.trans hd))).symm
      · exact hsetB (.inr hd.symm)
    rw [hbothA, hbothB]
    rfl

/-- Once a session is out of the store it stays out. -/
theorem get_back {l : Locked} (hn : pt.next = some ⟨c, f⟩) (hl : pt.of.Leaves id)
    (h : (exec () c l).2.store.get id ≠ none) : l.store.get id ≠ none := by
  obtain ⟨y, hy⟩ := Option.ne_none_iff_exists'.1 h
  rw [get_exec] at hy
  obtain ⟨y₀, hy₀, -⟩ := record_next hn hl hy
  rw [hy₀]
  exact Option.some_ne_none y₀

/-- **One section** keeps the meeting going. -/
theorem Meeting.step {l : Locked} (h : Meeting x l.store log (a ++ pt :: b)) (hn : pt.next = some ⟨c, f⟩)
    (hl : pt.of.Leaves x.id) (hab : x.dogA ≠ x.dogB)
    (hready : ∀ dog, x.hasDog dog → pt.of ≠ .setMediaReady x.id dog false)
    (hlive : (exec () c l).2.store.get x.id ≠ none) (t : Unit) : Meeting x (exec () c l).2.store
      (log ++ [⟨a.length, t, c, (exec () c l).1⟩]) (a ++ f (exec () c l).1 :: b) := by
  by_cases hm : ∃ dog ready sess, pt = .marking x.id dog ready sess
  · obtain ⟨dog, ready, sess, rfl⟩ := hm
    refine h.mark hn hab (fun hd => ?_) t
    cases ready with
    | false => exact absurd rfl (hready dog hd)
    | true => rfl
  · exact h.aside hn hl (fun dog ready sess he => hm ⟨dog, ready, sess, he⟩) hlive t

/-! ## Runs -/

variable {s₀ : SessionStore} {calls : List Call} {sched : List (Nat × Unit)}

theorem of_middle (hof : (a ++ pt :: b).map Point.of = calls) (hn : pt.next = some ⟨c, f⟩) (r : c.Resp) :
    pt.of ∈ calls ∧ (a ++ f r :: b).map Point.of = calls := by
  refine ⟨hof ▸ List.mem_map_of_mem (by simp), ?_⟩
  exact (map_middle (of_next hn r) a b).trans hof

/-- **No session is active before both flags were set.** -/
theorem notEarly_run (h : Accepted s₀ x) (hl : ∀ c ∈ calls, c.Leaves x.id)
    (hm : (begin s₀ calls).Meets exec (Pool.Respects ready) sched) :
    ∃ pts, NotEarly x.id ((begin s₀ calls).run exec sched).state.store ((begin s₀ calls).run exec sched).log pts := by
  have hbegin : NotEarly x.id s₀ [] (calls.map .call) := by
    refine ⟨fun y hy hactive => ?_, fun dog ready hmem => ?_⟩
    · obtain rfl : x = y := Option.some.inj (h.stored.symm.trans hy)
      rw [h.negotiating] at hactive
      cases hactive
    · obtain ⟨c, -, hc⟩ := List.mem_map.1 hmem
      cases hc
  obtain ⟨pts, -, hend, -⟩ := Pool.run_points
    (J := fun l log pts => NotEarly x.id l.store log pts ∧ pts.map Point.of = calls) traces
    (fun l log a pt b t c f hJ hn _ => by
      obtain ⟨hmem, hof⟩ := of_middle hJ.2 hn (exec t c l).1
      exact ⟨hJ.1.step hn (hl pt.of hmem) a.length t, hof⟩)
    sched (begin s₀ calls) (calls.map .call) (begin_threads s₀ calls) ⟨hbegin, of_begun calls⟩ hm
  exact ⟨pts, hend.1⟩

/-- A thread that saw both flags set did so at a moment when both were. -/
theorem SeenBoth.moment (h : SeenBoth id ((begin s₀ calls).run exec sched).log) : ∃ earlier, earlier <+: sched ∧
    ((begin s₀ calls).run exec earlier).state.store.media.lookup id = some { mediaA := true, mediaB := true } := by
  obtain ⟨i, t, sess, dog, ready, hmem⟩ := h
  rcases Pool.mem_log_run hmem with hmem | ⟨before, hle, hnext, hresp⟩
  · cases hmem
  · refine ⟨before ++ [(i, t)], hle, ?_⟩
    rw [Pool.run_snoc, Pool.state_step hnext, lookup_media_exec]
    simp only [exec] at hresp
    generalize ((begin s₀ calls).run exec before).state.store.media.lookup id = o at hresp
    simp only [Section.flags, if_true]
    cases ho : o.bind (SessionStore.mark sess dog ready) with
    | none =>
      rw [ho] at hresp
      cases hresp
    | some e =>
      rw [ho] at hresp
      obtain ⟨hA, hB⟩ := (Bool.and_eq_true_iff).1 (Option.some.inj hresp).symm
      obtain ⟨mediaA, mediaB⟩ := e
      cases hA
      cases hB
      rfl

/-- **The later of two dogs at the flags sees both**, over every run in which no dog calls with `ready` false. -/
theorem meeting_run (h : Accepted s₀ x) (hl : ∀ c ∈ calls, c.Leaves x.id)
    (hready : ∀ c ∈ calls, ∀ dog, x.hasDog dog → c ≠ .setMediaReady x.id dog false)
    (hm : (begin s₀ calls).Meets exec (Pool.Respects ready) sched)
    (hlive : ((begin s₀ calls).run exec sched).state.store.get x.id ≠ none) :
    ∃ pts, ((begin s₀ calls).run exec sched).threads = pts.map code ∧ pts.map Point.of = calls ∧
      Meeting x ((begin s₀ calls).run exec sched).state.store ((begin s₀ calls).run exec sched).log pts := by
  have hbegin : Meeting x s₀ [] (calls.map .call) := by
    have hcall : ∀ pt ∈ calls.map Point.call, ∃ c, pt = .call c := fun pt hpt => by
      obtain ⟨c, -, rfl⟩ := List.mem_map.1 hpt
      exact ⟨c, rfl⟩
    refine ⟨⟨x, h.stored, rfl, rfl⟩, ⟨_, h.unset, fun he => absurd he List.not_mem_nil⟩, fun pt hpt => ?_,
      fun he => absurd he List.not_mem_nil, fun {i pt} hi hp => ?_, fun pt hpt htold => ?_, List.Pairwise.nil⟩
    · obtain ⟨c, rfl⟩ := hcall pt hpt
      trivial
    · obtain ⟨c, rfl⟩ := hcall pt (List.mem_of_getElem? hi)
      cases hp
    · obtain ⟨c, rfl⟩ := hcall pt hpt
      cases htold
  obtain ⟨pts, hthreads, ⟨hend, hof⟩, -⟩ := Pool.run_points
    (J := fun l log pts => (l.store.get x.id ≠ none → Meeting x l.store log pts) ∧ pts.map Point.of = calls) traces
    (fun l log a pt b t c f hJ hn _ => by
      obtain ⟨hmem, hof⟩ := of_middle hJ.2 hn (exec t c l).1
      refine ⟨fun hnew => ?_, hof⟩
      exact (hJ.1 (get_back hn (hl pt.of hmem) hnew)).step hn (hl pt.of hmem) h.apart (hready pt.of hmem) hnew t)
    sched (begin s₀ calls) (calls.map .call) (begin_threads s₀ calls) ⟨fun _ => hbegin, of_begun calls⟩ hm
  exact ⟨pts, hthreads, hof, hend hlive⟩

/-- Call `i` visited the flags of `id` before call `j` did. -/
def Before (log : List (Step Section.Resp Unit)) (id : SessionId) (i j : Nat) : Prop :=
  ∃ t sess dog ready r t' sess' dog' ready' r', List.Sublist
    [⟨i, t, .markMedia id sess dog ready, r⟩, ⟨j, t', .markMedia id sess' dog' ready', r'⟩] log

/-- Call `i` has returned, and reported both. -/
def ReportedBoth (p : SessionPool) (i : Nat) : Prop := ∃ s, p.threads[i]? = some (.done (.marked (some (true, s))))

/-- Of two calls the later at the flags has reported both. -/
def LaterReportedBoth (p : SessionPool) (id : SessionId) (i j : Nat) : Prop :=
  (Before p.log id i j ∨ Before p.log id j i) ∧ (Before p.log id i j → ReportedBoth p j) ∧
    (Before p.log id j i → ReportedBoth p i)

/-- **The media handshake is not early**: a session is active only if both flags were set at some moment before.  **And
it is not lost**: when both dogs' calls have returned, the session is active, and the later of them reported both. -/
structure Handshake (s₀ : SessionStore) (calls : List Call) (x : SessionRecord) (sched : List (Nat × Unit))
    (p : SessionPool) : Prop where
  notEarly : ∀ y, p.state.store.get x.id = some y → y.state = .active → ∃ earlier, earlier <+: sched ∧
    ((begin s₀ calls).run exec earlier).state.store.media.lookup x.id = some { mediaA := true, mediaB := true }
  notLost : ∀ i j, calls[i]? = some (.setMediaReady x.id x.dogA true) →
    calls[j]? = some (.setMediaReady x.id x.dogB true) →
    (∀ c ∈ calls, ∀ dog, x.hasDog dog → c ≠ .setMediaReady x.id dog false) → p.state.store.get x.id ≠ none →
    (∃ r, p.threads[i]? = some (.done r)) → (∃ r, p.threads[j]? = some (.done r)) →
    (∃ y, p.state.store.get x.id = some y ∧ y.state = .active) ∧ LaterReportedBoth p x.id i j

theorem past_of_done {dog : DogId} {ready : Bool} {r : Answer} (h : pt.code = .done r)
    (hof : pt.of = .setMediaReady id dog ready) : pt.Past id := by
  rw [point_of_done h, hof]
  rfl

theorem reported_of_told {r : Answer} (h : pt.code = .done r) (ht : pt.Told id (some true)) :
    ∃ s, r = .marked (some (true, s)) := by
  rw [point_of_done h] at ht
  generalize pt.of = cl at ht
  cases cl with
  | setMediaReady id' dog ready =>
    cases r with
    | marked o =>
      obtain ⟨⟨both, s⟩, rfl, rfl⟩ := Option.map_eq_some_iff.1 ht.2
      exact ⟨s, rfl⟩
    | _ => cases ht
  | _ => cases r <;> cases ht

/-- The call that made a visit, and what its thread was told. -/
theorem Meeting.visitor {p : SessionPool} (h : Meeting x p.state.store p.log pts) (hthreads : p.threads = pts.map code)
    (hof : pts.map Point.of = calls) {i : Nat} {t : Unit} {sess : SessionRecord} {dog : DogId} {ready : Bool}
    {r : Option Bool} (hmem : ⟨i, t, .markMedia x.id sess dog ready, r⟩ ∈ p.log) :
    calls[i]? = some (.setMediaReady x.id dog ready) ∧ ∃ pt ∈ pts, pt.Told x.id r ∧ p.threads[i]? = some pt.code := by
  obtain ⟨pt, hpt, hcall, htold⟩ := h.told hmem
  refine ⟨?_, pt, List.mem_of_getElem? hpt, htold, ?_⟩
  · rw [← hof, List.getElem?_map, hpt, ← hcall]
    rfl
  · rw [hthreads, List.getElem?_map, hpt]
    rfl

/-- A call that has returned has visited the flags. -/
theorem Meeting.visit {p : SessionPool} (h : Meeting x p.state.store p.log pts) (hthreads : p.threads = pts.map code)
    (hof : pts.map Point.of = calls) {i : Nat} {dog : DogId} {ready : Bool} {r : Answer}
    (hi : calls[i]? = some (.setMediaReady x.id dog ready)) (hr : p.threads[i]? = some (.done r)) :
    ∃ t sess dog' ready' r', ⟨i, t, .markMedia x.id sess dog' ready', r'⟩ ∈ p.log := by
  rw [hthreads, List.getElem?_map, Option.map_eq_some_iff] at hr
  obtain ⟨pt, hpt, hcode⟩ := hr
  rw [← hof, List.getElem?_map, hpt] at hi
  exact h.past hpt (past_of_done hcode (Option.some.inj hi))

/-- **The later call**, by the other dog, has reported both, and the session is active. -/
theorem Meeting.later {p : SessionPool} (h : Meeting x p.state.store p.log pts) (hthreads : p.threads = pts.map code)
    (hof : pts.map Point.of = calls) {i j : Nat} {dog dog' : DogId} {r : Answer} (hd : x.hasDog dog)
    (hd' : x.hasDog dog') (hne : dog ≠ dog') (hi : calls[i]? = some (.setMediaReady x.id dog true))
    (hj : calls[j]? = some (.setMediaReady x.id dog' true)) (hr : p.threads[j]? = some (.done r))
    (hb : Before p.log x.id i j) : ReportedBoth p j ∧ ∃ y, p.state.store.get x.id = some y ∧ y.state = .active := by
  obtain ⟨t, sess, d, ready, ri, t', sess', d', ready', rj, hsub⟩ := hb
  obtain ⟨hcall, -⟩ := h.visitor hthreads hof (hsub.subset List.mem_cons_self)
  obtain ⟨hcall', pt, hpt, htold, hthread⟩ :=
    h.visitor hthreads hof (hsub.subset (List.mem_cons_of_mem _ List.mem_cons_self))
  cases hi.symm.trans hcall
  cases hj.symm.trans hcall'
  obtain rfl : rj = some true := List.pairwise_iff_forall_sublist.1 h.second hsub rfl rfl hd hd' hne
  have hcode : pt.code = .done r := Option.some.inj (hthread.symm.trans hr)
  obtain ⟨s, rfl⟩ := reported_of_told hcode htold
  obtain ⟨y, hy, -⟩ := h.stored
  refine ⟨⟨s, hr⟩, y, hy, h.settled pt hpt htold (fun dog ready he => ?_) y hy⟩
  rw [point_of_done hcode] at he
  cases he

/-- **The media handshake neither fires early nor gets lost.** -/
theorem handshake (s₀ : SessionStore) (x : SessionRecord) (h : Accepted s₀ x) (calls : List Call)
    (hl : ∀ c ∈ calls, c.Leaves x.id) (sched : List (Nat × Unit))
    (hm : (begin s₀ calls).Meets exec (Pool.Respects ready) sched) :
    Handshake s₀ calls x sched ((begin s₀ calls).run exec sched) where
  notEarly y hy hactive := by
    obtain ⟨pts, hpts⟩ := notEarly_run h hl hm
    exact (hpts.active y hy hactive).moment
  notLost i j hi hj hready hlive hdi hdj := by
    obtain ⟨pts, hthreads, hof, hmeet⟩ := meeting_run h hl hready hm hlive
    generalize (begin s₀ calls).run exec sched = p at hdi hdj hthreads hmeet ⊢
    obtain ⟨r, hr⟩ := hdi
    obtain ⟨r', hr'⟩ := hdj
    have hAB := hmeet.later hthreads hof (.inl rfl) (.inr rfl) h.apart hi hj hr'
    have hBA := hmeet.later hthreads hof (.inr rfl) (.inl rfl) (Ne.symm h.apart) hj hi hr
    have horder : Before p.log x.id i j ∨ Before p.log x.id j i := by
      obtain ⟨t, sess, dog, ready, o, hmem⟩ := hmeet.visit hthreads hof hi hr
      obtain ⟨t', sess', dog', ready', o', hmem'⟩ := hmeet.visit hthreads hof hj hr'
      have hne : (⟨i, t, .markMedia x.id sess dog ready, o⟩ : Step Section.Resp Unit) ≠
          ⟨j, t', .markMedia x.id sess' dog' ready', o'⟩ := by
        intro he
        cases he
        injection Option.some.inj (hi.symm.trans hj) with _ hdog
        exact h.apart hdog
      exact (pair_sublist hne hmem hmem').imp (fun hs => ⟨_, _, _, _, _, _, _, _, _, _, hs⟩)
        (fun hs => ⟨_, _, _, _, _, _, _, _, _, _, hs⟩)
    refine ⟨?_, horder, fun hb => (hAB hb).1, fun hb => (hBA hb).1⟩
    rcases horder with hb | hb
    · exact (hAB hb).2
    · exact (hBA hb).2

/-- The store after the accept. -/
def negotiating : SessionStore where
  byId := ({} : HashMap SessionId SessionRecord).insert ⟨7⟩ (paired ⟨7⟩)
  byDog := (({} : HashMap DogId SessionId).insert ⟨1⟩ ⟨7⟩).insert ⟨2⟩ ⟨7⟩
  media := ({} : HashMap SessionId SessionExtra).insert ⟨7⟩ { mediaA := false, mediaB := false }

/-- Both dogs read the session, then both set their flags, and `again` goes between. -/
def bothReady : List Call :=
  [.setMediaReady ⟨7⟩ ⟨1⟩ true, .setMediaReady ⟨7⟩ ⟨2⟩ true, .update ⟨7⟩ (extended ⟨1, by decide, by decide⟩)]

theorem handshake_both : LaterReportedBoth ((begin negotiating bothReady).run exec
    [(0, ()), (1, ()), (1, ()), (0, ()), (1, ()), (2, ()), (0, ()), (0, ())]) ⟨7⟩ 0 1 :=
  ((handshake negotiating (paired ⟨7⟩) (accepted_insert (s := {}) rfl rfl (by decide)) bothReady
    (by
      simp only [bothReady, List.forall_mem_cons]
      exact ⟨trivial, trivial, leaves_extended _ _ _, List.forall_mem_nil _⟩)
    [(0, ()), (1, ()), (1, ()), (0, ()), (1, ()), (2, ()), (0, ()), (0, ())] (by decide)).notLost 0 1 rfl rfl
    (by simp [bothReady]) (by decide) ⟨_, rfl⟩ ⟨_, rfl⟩).2

end SessionSections
end CanisLink
