import CanisLink.SessionSections
import CanisLink.Custody
/-!
# SessionCustody — the session store's three maps agree

A session is at any time in `by_id`, or with the one thread that is inserting it or has taken it out.  Both `by_dog` and
`media` are indexes in the sense of `Custody`: each has the entries of the sessions in `by_id` and of those whose thread
has made them and not cleared them yet.  `update` and `set_media_ready` change entries that are there and make none.
-/
namespace CanisLink
namespace SessionSections

open Interleave (Prog Pool Step map_middle)
open Custody (Kept Exact flatMap_subperm flatMap_begun flatMap_begun_nil)
open Point

/-! ## The invariant -/

/-- The entries of `by_dog`. -/
def entriesOf (s : SessionStore) (d : DogId) (k : SessionId) : Prop := s.byDog.lookup d = some k

/-- The entries of `media`. -/
def flagsOf (s : SessionStore) (_ : Unit) (k : SessionId) : Prop := k ∈ s.media

/-- `end` works on the session of its id. -/
def Point.Named : Point → Prop
  | ending id s => s.id = id
  | clearing id s => s.id = id
  | _ => True

/-- **Every session is in one place**, and the two other maps have what goes with it. -/
structure Inv (s : SessionStore) (pts : List Point) : Prop where
  kept : Kept SessionRecord.id s.get (pts.flatMap unborn ++ pts.flatMap taken)
  dogs : Exact SessionRecord.id SessionRecord.hasDog s.get (pts.flatMap entered) (entriesOf s)
  media : Exact SessionRecord.id (fun _ _ => True) s.get (pts.flatMap flagged) (flagsOf s)
  named : ∀ pt ∈ pts, pt.Named

/-- An `update` whose closure keeps the id and the dogs, as one that changes only the state or the deadlines does. -/
def Call.Keeps : Call → Prop
  | update _ f => ∀ x, (f x).id = x.id ∧ (f x).dogA = x.dogA ∧ (f x).dogB = x.dogB
  | _ => True

variable {s : SessionStore} {pt pt' : Point} {pts rest : List Point} {x : SessionRecord} {id : SessionId}

theorem Inv.perm (h : Inv s pts) {pts' : List Point} (hp : pts'.Perm pts) : Inv s pts' where
  kept := h.kept.subperm ((hp.flatMap_right unborn).append (hp.flatMap_right taken)).subperm
  dogs := h.dogs.perm (hp.flatMap_right entered)
  media := h.media.perm (hp.flatMap_right flagged)
  named pt hpt := h.named pt (hp.mem_iff.1 hpt)

theorem entered_subperm (pts : List Point) :
    List.Subperm (pts.flatMap entered) (pts.flatMap unborn ++ pts.flatMap taken) := by
  refine (flatMap_subperm (fun pt => ?_) pts).trans (List.flatMap_append_perm pts unborn taken).symm.subperm
  cases pt with
  | call c => cases c <;> exact List.nil_subperm
  | inserting session => exact List.Subperm.refl _
  | storing session => exact List.Subperm.refl _
  | ending id s => exact List.Subperm.refl _
  | _ => exact List.nil_subperm

theorem flagged_subperm (pts : List Point) :
    List.Subperm (pts.flatMap flagged) (pts.flatMap unborn ++ pts.flatMap taken) := by
  refine (flatMap_subperm (fun pt => ?_) pts).trans (List.flatMap_append_perm pts unborn taken).symm.subperm
  cases pt with
  | call c => cases c <;> exact List.nil_subperm
  | storing session => exact List.Subperm.refl _
  | ending id s => exact List.Subperm.refl _
  | clearing id s => exact List.Subperm.refl _
  | _ => exact List.nil_subperm

theorem get_insert_byId (s : SessionStore) (x : SessionRecord) (id k : SessionId) :
    ({ s with byId := s.byId.insert id x } : SessionStore).get k = if k = id then some x else s.get k :=
  HashMap.lookup_insert id k x s.byId

theorem get_erase_byId (s : SessionStore) (id k : SessionId) :
    ({ s with byId := s.byId.erase id } : SessionStore).get k = if k = id then none else s.get k :=
  HashMap.lookup_erase id k s.byId

theorem Inv.named_cons (h : Inv s (pt :: rest)) (hn : pt'.Named) : ∀ p ∈ pt' :: rest, p.Named := by
  intro p hp
  rcases List.mem_cons.1 hp with rfl | hp
  · exact hn
  · exact h.named p (List.mem_cons_of_mem pt hp)

theorem Inv.stay (h : Inv s (pt :: rest)) (hu : (unborn pt').Sublist (unborn pt)) (ht : taken pt' = taken pt)
    (he : entered pt' = entered pt) (hf : flagged pt' = flagged pt) (hn : pt'.Named) : Inv s (pt' :: rest) where
  kept := by
    refine h.kept.subperm (List.Sublist.subperm ?_)
    rw [List.flatMap_cons, List.flatMap_cons, List.flatMap_cons, List.flatMap_cons, ht]
    exact (hu.append_right _).append_right _
  dogs := by
    rw [List.flatMap_cons, he]
    exact h.dogs
  media := by
    rw [List.flatMap_cons, hf]
    exact h.media
  named := h.named_cons hn

theorem Inv.enterDogs (h : Inv s (.call (.insert x) :: rest)) (ha : x.dogA ∉ s.byDog) (hb : x.dogB ∉ s.byDog) :
    Inv { s with byDog := (s.byDog.insert x.dogA x.id).insert x.dogB x.id } (.inserting x :: rest) where
  kept := h.kept
  dogs := h.dogs.enter (fun d k => HashMap.lookup_insert_two ha hb x.id k d)
  media := h.media
  named := h.named_cons trivial

theorem Inv.enterMedia (h : Inv s (.inserting x :: rest)) (e : SessionExtra) :
    Inv { s with media := s.media.insert x.id e } (.storing x :: rest) where
  kept := h.kept
  dogs := h.dogs
  media := h.media.enter (fun _ k => by
    unfold flagsOf
    rw [AList.mem_insert, or_comm, and_true])
  named := h.named_cons trivial

theorem Inv.store (h : Inv s (.storing x :: rest)) : Inv { s with byId := s.byId.insert x.id x }
    (.returned (.insert x) (.inserted (.ok ())) :: rest) where
  kept := Kept.deposit (x := x) h.kept (get_insert_byId s x x.id)
  dogs := Exact.deposit (x := x) h.dogs (h.kept.apart List.mem_cons_self) (get_insert_byId s x x.id)
  media := Exact.deposit (x := x) h.media (h.kept.apart List.mem_cons_self) (get_insert_byId s x x.id)
  named := h.named_cons trivial

theorem Inv.amend (h : Inv s pts) {f : SessionRecord → SessionRecord}
    (hf : ∀ x, (f x).id = x.id ∧ (f x).dogA = x.dogA ∧ (f x).dogB = x.dogB) : Inv (s.update id f).2 pts := by
  unfold SessionStore.update
  cases hx : s.byId.lookup id with
  | none => exact h
  | some x =>
    obtain rfl : x.id = id := h.kept.keyed hx
    obtain ⟨hid, ha, hb⟩ := hf x
    have hget := get_insert_byId s (f x) x.id
    refine ⟨h.kept.amend hx hid hget, ?_, ?_, h.named⟩
    · refine h.dogs.amend h.kept (entered_subperm pts).subset hx hid (fun d => ?_) hget
      unfold SessionRecord.hasDog
      rw [ha, hb]
    · exact h.media.amend h.kept (flagged_subperm pts).subset hx hid (fun _ => Iff.rfl) hget

theorem Inv.take (h : Inv s (.call (.endSession id) :: rest)) (hx : s.byId.lookup id = some x) :
    Inv { s with byId := s.byId.erase id } (.ending id x :: rest) := by
  obtain rfl : x.id = id := h.kept.keyed hx
  refine ⟨?_, h.dogs.withdraw hx (get_erase_byId s x.id), h.media.withdraw hx (get_erase_byId s x.id),
    h.named_cons rfl⟩
  exact (h.kept.withdraw hx (get_erase_byId s x.id)).subperm List.perm_middle.subperm

theorem Inv.clearDogs (h : Inv s (.ending id x :: rest)) :
    Inv { s with byDog := (s.byDog.erase x.dogA).erase x.dogB } (.clearing id x :: rest) where
  kept := h.kept
  dogs := by
    have hsub := entered_subperm (.ending id x :: rest)
    have hdogs := h.dogs.entries h.kept hsub.subset List.mem_cons_self
    exact Exact.leave h.kept hsub h.dogs (fun d k => HashMap.lookup_erase_two hdogs k d)
  media := h.media
  named := by
    have hname : x.id = id := h.named (.ending id x) List.mem_cons_self
    exact h.named_cons (show (Point.clearing id x).Named from hname)

theorem Inv.clearMedia (h : Inv s (.clearing id x :: rest)) : Inv { s with media := s.media.erase id }
    (.returned (.endSession id) (.ended (some x)) :: rest) where
  kept := h.kept
  dogs := h.dogs
  media := by
    obtain rfl : x.id = id := h.named _ List.mem_cons_self
    refine Exact.leave h.kept (flagged_subperm (.clearing x.id x :: rest)) h.media (fun _ k => ?_)
    unfold flagsOf
    rw [AList.mem_erase, and_comm]
  named := h.named_cons trivial

theorem Inv.mark (h : Inv s pts) {extra : SessionExtra} (hid : id ∈ s.media) :
    Inv { s with media := s.media.insert id extra } pts where
  kept := h.kept
  dogs := h.dogs
  media e k := by
    have hmem : k ∈ s.media.insert id extra ↔ k ∈ s.media := by
      rw [AList.mem_insert]
      refine ⟨?_, .inr⟩
      rintro (rfl | hk)
      · exact hid
      · exact hk
    exact hmem.trans (h.media e k)
  named := h.named

/-- **One section** keeps every session in one place. -/
theorem Inv.step {l : Locked} {c : Section} {f : c.Resp → Point} (h : Inv l.store (pt :: rest)) (hk : pt.of.Keeps)
    (hn : pt.next = some ⟨c, f⟩) : Inv (exec () c l).2.store (f (exec () c l).1 :: rest) := by
  cases pt with
  | call cl =>
    cases cl with
    | insert session =>
      cases hn
      simp only [exec]
      split
      · exact h.stay (List.nil_sublist _) rfl rfl rfl trivial
      · rename_i hfree
        exact h.enterDogs (fun hmem => hfree (.inl hmem)) (fun hmem => hfree (.inr hmem))
    | get id =>
      cases hn
      exact h.stay (List.nil_sublist _) rfl rfl rfl trivial
    | forDog dog =>
      cases hn
      simp only [exec]
      cases l.store.byDog.lookup dog with
      | none => exact h.stay (List.nil_sublist _) rfl rfl rfl trivial
      | some id => exact h.stay (List.nil_sublist _) rfl rfl rfl trivial
    | update id g =>
      cases hn
      exact (h.amend hk).stay (List.nil_sublist _) rfl rfl rfl trivial
    | endSession id =>
      cases hn
      simp only [exec]
      split
      · exact h.stay (List.nil_sublist _) rfl rfl rfl trivial
      · rename_i x hx
        exact h.take hx
    | setMediaReady id dog ready =>
      cases hn
      simp only [exec]
      cases l.store.get id with
      | none => exact h.stay (List.nil_sublist _) rfl rfl rfl trivial
      | some sess => exact h.stay (List.nil_sublist _) rfl rfl rfl trivial
  | inserting session =>
    cases hn
    exact h.enterMedia { mediaA := false, mediaB := false }
  | storing session =>
    cases hn
    exact h.store
  | finding dog id =>
    cases hn
    exact h.stay (List.nil_sublist _) rfl rfl rfl trivial
  | ending id x =>
    cases hn
    exact h.clearDogs
  | clearing id x =>
    cases hn
    exact h.clearMedia
  | marking id dog ready sess =>
    cases hn
    simp only [exec]
    split
    · exact h.stay (List.nil_sublist _) rfl rfl rfl trivial
    · rename_i extra hextra
      -- the flags are set only where there are some
      have hid : id ∈ l.store.media := by
        obtain ⟨e, he, -⟩ := Option.bind_eq_some_iff.1 hextra
        exact AList.lookup_isSome.1 (Option.isSome_of_eq_some he)
      simp only [Option.elim_some]
      split
      · exact (h.mark hid).stay (List.nil_sublist _) rfl rfl rfl trivial
      · exact (h.mark hid).stay (List.nil_sublist _) rfl rfl rfl trivial
  | activating id dog ready =>
    cases hn
    have hactive : Inv (l.store.update id activate).2 _ := h.amend (fun _ => ⟨rfl, rfl, rfl⟩)
    exact hactive.stay (List.nil_sublist _) rfl rfl rfl trivial
  | answering id dog ready both =>
    cases hn
    exact h.stay (List.nil_sublist _) rfl rfl rfl trivial
  | returned cl a => cases hn

/-! ## Runs -/

/-- The three maps agree: each session has flags and its two dogs' entries, and there are no others. -/
structure Agree (s : SessionStore) : Prop where
  keyed : ∀ {k x}, s.get k = some x → x.id = k
  dogs : ∀ d k, s.byDog.lookup d = some k ↔ ∃ x, s.get k = some x ∧ x.hasDog d
  media : ∀ k, k ∈ s.media ↔ ∃ x, s.get k = some x

def Call.inserts : Call → List SessionRecord
  | insert session => [session]
  | _ => []

/-- The ids of the sessions to be inserted are new and distinct. -/
structure Fresh (s₀ : SessionStore) (calls : List Call) : Prop where
  apart : ((calls.flatMap Call.inserts).map (·.id)).Nodup
  new : ∀ x ∈ calls.flatMap Call.inserts, s₀.get x.id = none

theorem inv_begin {s₀ : SessionStore} {calls : List Call} (h : Agree s₀) (hf : Fresh s₀ calls) :
    Inv s₀ (calls.map .call) := by
  have hunborn : (calls.map Point.call).flatMap unborn = calls.flatMap Call.inserts :=
    flatMap_begun (fun c => by cases c <;> rfl) calls
  have htaken : (calls.map Point.call).flatMap taken = [] := flatMap_begun_nil (fun _ => rfl) calls
  have hentered : (calls.map Point.call).flatMap entered = [] := flatMap_begun_nil (fun _ => rfl) calls
  have hflagged : (calls.map Point.call).flatMap flagged = [] := flatMap_begun_nil (fun _ => rfl) calls
  refine ⟨⟨h.keyed, ?_, ?_⟩, ?_, ?_, ?_⟩
  · rw [hunborn, htaken, List.append_nil]
    exact hf.apart
  · intro x hx
    rw [hunborn, htaken, List.append_nil] at hx
    exact hf.new x hx
  · rw [hentered]
    exact Custody.exact_settled h.keyed h.dogs
  · rw [hflagged]
    refine Custody.exact_settled h.keyed (fun _ k => (h.media k).trans ?_)
    simp only [and_true]
  · intro pt hpt
    obtain ⟨c, -, rfl⟩ := List.mem_map.1 hpt
    trivial

/-- What the sections of `end` that have been run tell of the threads that ran them. -/
structure Logged (log : List (Step Section.Resp Unit)) (pts : List Point) : Prop where
  took : ∀ {i t id x}, ⟨i, t, .removeById id, some x⟩ ∈ log → x.id = id ∧ x ∈ pts.flatMap taken
  cleared : ∀ {i t x}, ⟨i, t, .removeByDog x, ()⟩ ∈ log → x ∈ pts.flatMap cleared
  purged : ∀ {i t id}, ⟨i, t, .removeMedia id, ()⟩ ∈ log → ∃ x ∈ pts.flatMap purged, x.id = id

/-- What a thread has moved it does not put back. -/
theorem moved_next {c : Section} {f : c.Resp → Point} (h : pt.next = some ⟨c, f⟩) (r : c.Resp) :
    taken pt ⊆ taken (f r) ∧ Point.cleared pt ⊆ Point.cleared (f r) ∧ Point.purged pt ⊆ Point.purged (f r) := by
  cases pt with
  | returned cl a => cases h
  | call cl => cases cl <;> cases h <;> exact ⟨List.nil_subset _, List.nil_subset _, List.nil_subset _⟩
  | ending id x => cases h; exact ⟨List.Subset.refl _, List.nil_subset _, List.nil_subset _⟩
  | clearing id x => cases h; exact ⟨List.Subset.refl _, List.Subset.refl _, List.nil_subset _⟩
  | _ => cases h; exact ⟨List.nil_subset _, List.nil_subset _, List.nil_subset _⟩

theorem Logged.step {log : List (Step Section.Resp Unit)} {a b : List Point} {c : Section} {f : c.Resp → Point}
    (h : Logged log (a ++ pt :: b)) (hn : pt.next = some ⟨c, f⟩) (i : Nat) (t : Unit) (r : c.Resp)
    (hnamed : pt.Named) (hnamed' : (f r).Named) : Logged (log ++ [⟨i, t, c, r⟩]) (a ++ f r :: b) := by
  obtain ⟨htaken, hcleared, hpurged⟩ := moved_next hn r
  have hmono : ∀ g : Point → List SessionRecord, g pt ⊆ g (f r) →
      (a ++ pt :: b).flatMap g ⊆ (a ++ f r :: b).flatMap g := by
    intro g hg x hx
    rw [List.flatMap_append, List.flatMap_cons, List.mem_append, List.mem_append] at hx ⊢
    exact hx.imp_right (Or.imp_left (fun hmem => hg hmem))
  have hhere : ∀ (g : Point → List SessionRecord) {x}, x ∈ g (f r) → x ∈ (a ++ f r :: b).flatMap g := fun g x hx =>
    List.mem_flatMap.2 ⟨f r, by simp, hx⟩
  refine ⟨fun {i' t' id x} he => ?_, fun {i' t' x} he => ?_, fun {i' t' id} he => ?_⟩
  · rcases List.mem_append.1 he with he | he
    · exact ⟨(h.took he).1, hmono taken htaken (h.took he).2⟩
    · cases List.mem_singleton.1 he
      cases pt with
      | call cl => cases cl <;> cases hn; exact ⟨hnamed', hhere taken (List.mem_singleton_self x)⟩
      | _ => cases hn
  · rcases List.mem_append.1 he with he | he
    · exact hmono Point.cleared hcleared (h.cleared he)
    · cases List.mem_singleton.1 he
      cases pt with
      | call cl => cases cl <;> cases hn
      | ending id y => cases hn; exact hhere Point.cleared (List.mem_singleton_self x)
      | _ => cases hn
  · rcases List.mem_append.1 he with he | he
    · obtain ⟨x, hx, hid⟩ := h.purged he
      exact ⟨x, hmono Point.purged hpurged hx, hid⟩
    · cases List.mem_singleton.1 he
      cases pt with
      | call cl => cases cl <;> cases hn
      | clearing id y => cases hn; exact ⟨y, hhere Point.purged (List.mem_singleton_self y), hnamed⟩
      | _ => cases hn

/-- **Every run** keeps every session in one place. -/
theorem inv_run {s₀ : SessionStore} {calls : List Call} (h : Agree s₀) (hf : Fresh s₀ calls)
    (hk : ∀ c ∈ calls, c.Keeps) {sched : List (Nat × Unit)}
    (hm : (begin s₀ calls).Meets exec (Pool.Respects ready) sched) :
    ∃ pts, ((begin s₀ calls).run exec sched).threads = pts.map code ∧
      (Inv ((begin s₀ calls).run exec sched).state.store pts ∧ pts.map Point.of = calls ∧
        Logged ((begin s₀ calls).run exec sched).log pts) ∧
      ∀ i, Interleave.own i ((begin s₀ calls).run exec sched).log = [] →
        pts[i]? = (calls.map Point.call)[i]? := by
  refine Pool.run_points (J := fun s log pts => Inv s.store pts ∧ pts.map Point.of = calls ∧ Logged log pts) traces
    (fun s log a pt b t c f hJ hn _ => ?_) sched (begin s₀ calls) (calls.map .call) (begin_threads s₀ calls)
    ⟨inv_begin h hf, of_begun calls, ?_⟩ hm
  · obtain ⟨hinv, hof, hlog⟩ := hJ
    have hkeeps : pt.of.Keeps := by
      refine hk pt.of (hof ▸ List.mem_map_of_mem ?_)
      simp
    have hstep := (hinv.perm List.perm_middle.symm).step hkeeps hn
    have hnamed : pt.Named := hinv.named pt (by simp)
    refine ⟨hstep.perm List.perm_middle, ?_, hlog.step hn _ _ _ hnamed (hstep.named _ List.mem_cons_self)⟩
    exact (map_middle (of_next hn _) a b).trans hof
  · exact ⟨fun he => absurd he List.not_mem_nil, fun he => absurd he List.not_mem_nil,
      fun he => absurd he List.not_mem_nil⟩

/-- **What every run leaves.**  With no call in progress the three maps agree, and at any moment a dog is in at most one
session.  From the section on in which `end` takes a session out of a map, that map has nothing of it. -/
structure Sound (p : SessionPool) : Prop where
  agree : p.Quiet → Agree p.state.store
  once : ∀ {k k' x x' d}, p.state.store.get k = some x → x.hasDog d → p.state.store.get k' = some x' →
    x'.hasDog d → k = k'
  gone : ∀ {i t id x}, ⟨i, t, .removeById id, some x⟩ ∈ p.log → p.state.store.get id = none
  freed : ∀ {i t x}, ⟨i, t, .removeByDog x, ()⟩ ∈ p.log → ∀ d, p.state.store.byDog.lookup d ≠ some x.id
  purged : ∀ {i t id}, ⟨i, t, .removeMedia id, ()⟩ ∈ p.log → id ∉ p.state.store.media
  ended : ∀ {i : Nat} {x : SessionRecord}, p.threads[i]? = some (.done (.ended (some x))) →
    p.state.store.get x.id = none ∧ x.id ∉ p.state.store.media ∧ ∀ d, p.state.store.byDog.lookup d ≠ some x.id

/-- A session cleared from a map is not one that its thread still has in that map. -/
theorem entered_cleared_subperm (pts : List Point) :
    List.Subperm (pts.flatMap entered ++ pts.flatMap Point.cleared) (pts.flatMap unborn ++ pts.flatMap taken) := by
  refine (List.flatMap_append_perm pts entered _).subperm.trans ((flatMap_subperm (fun pt => ?_) pts).trans
    (List.flatMap_append_perm pts unborn taken).symm.subperm)
  cases pt with
  | call c => cases c <;> exact List.nil_subperm
  | inserting session => exact List.Subperm.refl _
  | storing session => exact List.Subperm.refl _
  | ending id s => exact List.Subperm.refl _
  | clearing id s => exact List.Subperm.refl _
  | returned c a => cases a <;> exact List.Subperm.refl _
  | _ => exact List.nil_subperm

theorem flagged_purged_subperm (pts : List Point) :
    List.Subperm (pts.flatMap flagged ++ pts.flatMap Point.purged) (pts.flatMap unborn ++ pts.flatMap taken) := by
  refine (List.flatMap_append_perm pts flagged _).subperm.trans ((flatMap_subperm (fun pt => ?_) pts).trans
    (List.flatMap_append_perm pts unborn taken).symm.subperm)
  cases pt with
  | call c => cases c <;> exact List.nil_subperm
  | storing session => exact List.Subperm.refl _
  | ending id s => exact List.Subperm.refl _
  | clearing id s => exact List.Subperm.refl _
  | returned c a => cases a <;> exact List.Subperm.refl _
  | _ => exact List.nil_subperm

/-- **The session store's three maps never disagree**, and no call brings an ended session back. -/
theorem sessions_sound (s₀ : SessionStore) (calls : List Call) (h : Agree s₀) (hf : Fresh s₀ calls)
    (hk : ∀ c ∈ calls, c.Keeps) (sched : List (Nat × Unit))
    (hm : (begin s₀ calls).Meets exec (Pool.Respects ready) sched) : Sound ((begin s₀ calls).run exec sched) := by
  obtain ⟨pts, hthreads, ⟨hinv, -, hlog⟩, hsame⟩ := inv_run h hf hk hm
  generalize (begin s₀ calls).run exec sched = p at hthreads hinv hlog hsame ⊢
  have hgone : ∀ {x}, x ∈ pts.flatMap taken → p.state.store.get x.id = none := fun hx =>
    hinv.kept.apart (List.mem_append_right _ hx)
  have hfreed : ∀ {x}, x ∈ pts.flatMap Point.cleared → ∀ d, p.state.store.byDog.lookup d ≠ some x.id := by
    intro x hx
    have hleft := hinv.dogs.cleared hinv.kept (entered_cleared_subperm pts) hx
    exact hleft
  have hpurged : ∀ {x}, x ∈ pts.flatMap Point.purged → x.id ∉ p.state.store.media := by
    intro x hx
    have hleft := hinv.media.cleared hinv.kept (flagged_purged_subperm pts) hx
    exact hleft ()
  have hquiet : p.Quiet → pts.flatMap entered = [] ∧ pts.flatMap flagged = [] := by
    intro hq
    have hnil : ∀ pt ∈ pts, entered pt = [] ∧ flagged pt = [] := by
      intro pt hpt
      rcases hq.points hthreads hsame pt hpt with ⟨a, ha⟩ | hstart
      · rw [point_of_done ha]
        exact ⟨rfl, rfl⟩
      · obtain ⟨c, -, rfl⟩ := List.mem_map.1 hstart
        exact ⟨rfl, rfl⟩
    exact ⟨List.flatMap_eq_nil_iff.2 (fun pt hpt => (hnil pt hpt).1),
      List.flatMap_eq_nil_iff.2 (fun pt hpt => (hnil pt hpt).2)⟩
  refine ⟨fun hq => ⟨hinv.kept.keyed, fun d k => ?_, fun k => ?_⟩, ?_, fun he => ?_, fun he => ?_, fun he => ?_,
    fun {i x} hi => ?_⟩
  · have hdogs := hinv.dogs
    rw [(hquiet hq).1] at hdogs
    exact hdogs.settled hinv.kept d k
  · have hmedia := hinv.media
    rw [(hquiet hq).2] at hmedia
    refine (hmedia.settled hinv.kept () k).trans ?_
    simp only [and_true]
  · intro k k' x x' d hx hd hx' hd'
    have hdog := hinv.dogs.stored hinv.kept hx hd
    have hdog' := hinv.dogs.stored hinv.kept hx' hd'
    exact Option.some.inj (hdog.symm.trans hdog')
  · obtain ⟨rfl, hx⟩ := hlog.took he
    exact hgone hx
  · exact hfreed (hlog.cleared he)
  · obtain ⟨x, hx, rfl⟩ := hlog.purged he
    exact hpurged hx
  · -- a thread that has returned a session has taken it and cleared it from everywhere
    rw [hthreads, List.getElem?_map, Option.map_eq_some_iff] at hi
    obtain ⟨pt, hpt, hcode⟩ := hi
    have hmem := List.mem_of_getElem? hpt
    rw [point_of_done hcode] at hmem
    have hx : ∀ g : Point → List SessionRecord, g (.returned pt.of (.ended (some x))) = [x] → x ∈ pts.flatMap g :=
      fun g hg => List.mem_flatMap.2 ⟨_, hmem, hg ▸ List.mem_singleton_self x⟩
    exact ⟨hgone (hx taken rfl), hpurged (hx Point.purged rfl), hfreed (hx Point.cleared rfl)⟩

/-- A session of dogs 1 and 2. -/
def paired (id : SessionId) : SessionRecord where
  id := id
  inviteId := ⟨1⟩
  dogA := ⟨1⟩
  dogB := ⟨2⟩
  mode := .portal
  state := .negotiating
  startedAt := .unixEpoch
  maxEndAt := .unixEpoch
  segmentDeadlineAt := .unixEpoch

theorem agree_empty : Agree {} where
  keyed h := by cases h
  dogs _ _ := by
    refine ⟨fun h => ?_, fun ⟨_, h, _⟩ => ?_⟩
    · cases h
    · cases h
  media _ := by
    refine ⟨fun h => ?_, fun ⟨_, h⟩ => ?_⟩
    · cases h
    · cases h

/-- `set_media_ready` reads the session before `end` takes it, and sets a flag after; then the dogs are free again. -/
theorem sessions_sound_race : Agree ((begin {} [.insert (paired ⟨7⟩), .endSession ⟨7⟩, .setMediaReady ⟨7⟩ ⟨1⟩ true]).run
    exec [(0, ()), (0, ()), (0, ()), (2, ()), (1, ()), (2, ()), (1, ()), (1, ()), (2, ())]).state.store :=
  (sessions_sound {} [.insert (paired ⟨7⟩), .endSession ⟨7⟩, .setMediaReady ⟨7⟩ ⟨1⟩ true] agree_empty
    ⟨by decide, by decide⟩ (by simp [Call.Keeps])
    [(0, ()), (0, ()), (0, ()), (2, ()), (1, ()), (2, ()), (1, ()), (1, ()), (2, ())] (by decide)).agree (by decide)

end SessionSections
end CanisLink
