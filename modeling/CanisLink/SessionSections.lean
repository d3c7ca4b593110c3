import CanisLink.Stores
import CanisLink.Points
/-!
# SessionSections — the session store, lock by lock

`SessionStore` keeps three maps under three locks.  `insert` holds `by_dog` while it visits `media` and `by_id`; `end`
takes the record out of `by_id`, lets go, and then holds `by_dog` while it visits `media`; `set_media_ready` visits
`by_id`, `media`, `by_id` and `by_id` again and holds none of them in between.  A call here is a program of these
visits.
-/
namespace CanisLink
namespace SessionSections

open Interleave (Prog Pool Traces)

/-- The store, and whether a thread between two sections holds the lock of `by_dog`.  No other lock is held so. -/
structure Locked where
  store : SessionStore := {}
  byDogHeld : Bool := false

/-! ## The sections -/

/-- What is done under a lock without letting go. -/
inductive Section
  /-- `insert`: look for the two dogs and enter them; keeps the lock unless one is busy. -/
  | insertByDog (session : SessionRecord)
  /-- `insert`, still under `by_dog`. -/
  | insertMedia (session : SessionRecord)
  /-- `insert`, still under `by_dog`: lets go of both. -/
  | insertById (session : SessionRecord)
  | getById (id : SessionId)
  | getByDog (dog : DogId)
  | updateById (id : SessionId) (f : SessionRecord → SessionRecord)
  | removeById (id : SessionId)
  /-- `end`: clear the two dogs; keeps the lock. -/
  | removeByDog (s : SessionRecord)
  /-- `end`, still under `by_dog`: lets go of both. -/
  | removeMedia (id : SessionId)
  /-- `set_media_ready`: set the flag of `dog`, a dog of `sess`; whether both are set then. -/
  | markMedia (id : SessionId) (sess : SessionRecord) (dog : DogId) (ready : Bool)

/-- What a section answers; `insertByDog` whether a dog is busy. -/
abbrev Section.Resp : Section → Type
  | insertByDog _ => Bool
  | insertMedia _ => Unit
  | insertById _ => Unit
  | getById _ => Option SessionRecord
  | getByDog _ => Option SessionId
  | updateById _ _ => Option SessionRecord
  | removeById _ => Option SessionRecord
  | removeByDog _ => Unit
  | removeMedia _ => Unit
  | markMedia _ _ _ _ => Option Bool

/-- A section runs in one piece. -/
def exec (_ : Unit) : (c : Section) → Locked → c.Resp × Locked
  | .insertByDog session, s =>
    if session.dogA ∈ s.store.byDog ∨ session.dogB ∈ s.store.byDog then (true, s)
    else (false, { store := { s.store with
      byDog := (s.store.byDog.insert session.dogA session.id).insert session.dogB session.id }, byDogHeld := true })
  | .insertMedia session, s =>
    ((), { s with store := { s.store with
      media := s.store.media.insert session.id { mediaA := false, mediaB := false } } })
  | .insertById session, s =>
    ((), { store := { s.store with byId := s.store.byId.insert session.id session }, byDogHeld := false })
  | .getById id, s => (s.store.get id, s)
  | .getByDog dog, s => (s.store.byDog.lookup dog, s)
  | .updateById id f, s => ((s.store.update id f).1, { s with store := (s.store.update id f).2 })
  | .removeById id, s =>
    match s.store.byId.lookup id with
    | none => (none, s)
    | some x => (some x, { s with store := { s.store with byId := s.store.byId.erase id } })
  | .removeByDog x, s =>
    ((), { store := { s.store with byDog := (s.store.byDog.erase x.dogA).erase x.dogB }, byDogHeld := true })
  | .removeMedia id, s =>
    ((), { store := { s.store with media := s.store.media.erase id }, byDogHeld := false })
  | .markMedia id sess dog ready, s =>
    match (s.store.media.lookup id).bind (SessionStore.mark sess dog ready) with
    | none => (none, s)
    | some extra =>
      (some (extra.mediaA && extra.mediaB), { s with store := { s.store with media := s.store.media.insert id extra } })

/-- A section that takes the lock of `by_dog` waits until nobody holds it. -/
def ready : Section → Locked → Bool
  | .insertByDog _, s => !s.byDogHeld
  | .getByDog _, s => !s.byDogHeld
  | .removeByDog _, s => !s.byDogHeld
  | _, _ => true

/-! ## The calls -/

abbrev Sections (α : Type) : Type := Prog Section.Resp α

def insertByDog (session : SessionRecord) : Sections Bool := Prog.op (Section.insertByDog session)
def insertMedia (session : SessionRecord) : Sections Unit := Prog.op (Section.insertMedia session)
def insertById (session : SessionRecord) : Sections Unit := Prog.op (Section.insertById session)
def getById (id : SessionId) : Sections (Option SessionRecord) := Prog.op (Section.getById id)
def getByDog (dog : DogId) : Sections (Option SessionId) := Prog.op (Section.getByDog dog)
def updateById (id : SessionId) (f : SessionRecord → SessionRecord) : Sections (Option SessionRecord) :=
  Prog.op (Section.updateById id f)
def removeById (id : SessionId) : Sections (Option SessionRecord) := Prog.op (Section.removeById id)
def removeByDog (s : SessionRecord) : Sections Unit := Prog.op (Section.removeByDog s)
def removeMedia (id : SessionId) : Sections Unit := Prog.op (Section.removeMedia id)
def markMedia (id : SessionId) (sess : SessionRecord) (dog : DogId) (ready : Bool) : Sections (Option Bool) :=
  Prog.op (Section.markMedia id sess dog ready)

def insert (session : SessionRecord) : Sections (Except String Unit) := do
  if ← insertByDog session then return .error "busy"
  insertMedia session
  insertById session
  return .ok ()

def get (id : SessionId) : Sections (Option SessionRecord) := getById id

def forDog (dog : DogId) : Sections (Option SessionRecord) := do
  match ← getByDog dog with
  | none => return none
  | some id => get id

def update (id : SessionId) (f : SessionRecord → SessionRecord) : Sections (Option SessionRecord) := updateById id f

def endSession (id : SessionId) : Sections (Option SessionRecord) := do
  match ← removeById id with
  | none => return none
  | some s => do
    removeByDog s
    removeMedia id
    return some s

/-- `s.state = SessionState::Active`. -/
def activate (s : SessionRecord) : SessionRecord := { s with state := .active }

def setMediaReady (id : SessionId) (dog : DogId) (ready : Bool) : Sections (Option (Bool × SessionRecord)) := do
  match ← get id with
  | none => return none
  | some sess => do
    match ← markMedia id sess dog ready with
    | none => return none
    | some both => do
      if both then
        let _ ← update id activate
      return (← get id).map (fun s => (both, s))

/-- A call of the store by some thread, and its answer. -/
inductive Call
  | insert (session : SessionRecord)
  | get (id : SessionId)
  | forDog (dog : DogId)
  | update (id : SessionId) (f : SessionRecord → SessionRecord)
  | endSession (id : SessionId)
  | setMediaReady (id : SessionId) (dog : DogId) (ready : Bool)

inductive Answer
  | inserted (r : Except String Unit)
  | found (o : Option SessionRecord)
  | updated (o : Option SessionRecord)
  | ended (o : Option SessionRecord)
  | marked (o : Option (Bool × SessionRecord))

def Call.run : Call → Sections Answer
  | insert session => return .inserted (← SessionSections.insert session)
  | get id => return .found (← SessionSections.get id)
  | forDog dog => return .found (← SessionSections.forDog dog)
  | update id f => return .updated (← SessionSections.update id f)
  | endSession id => return .ended (← SessionSections.endSession id)
  | setMediaReady id dog ready => return .marked (← SessionSections.setMediaReady id dog ready)

/-! ## A call alone -/

/-- The call in one step, as the store has it. -/
def Call.whole (s : SessionStore) : Call → Answer × SessionStore
  | insert session =>
    match s.insert session with
    | .error e => (.inserted (.error e), s)
    | .ok s' => (.inserted (.ok ()), s')
  | get id => (.found (s.get id), s)
  | forDog dog => (.found (s.forDog dog), s)
  | update id f => (.updated (s.update id f).1, (s.update id f).2)
  | endSession id => (.ended (s.endSession id).1, (s.endSession id).2)
  | setMediaReady id dog ready => (.marked (s.setMediaReady id dog ready).1, (s.setMediaReady id dog ready).2)

/-- **A call alone does what the call in one step does.** -/
theorem eval_run (κ : Nat → Unit) (s : Locked) (c : Call) (hfree : s.byDogHeld = false) : c.run.eval exec κ s =
    ((c.whole s.store).1, { store := (c.whole s.store).2, byDogHeld := false }) := by
  obtain ⟨store, held⟩ := s
  obtain rfl : held = false := hfree
  cases c with
  | insert session =>
    unfold Call.run Call.whole insert SessionStore.insert
    simp only [insertByDog, insertMedia, insertById, Prog.op_bind, Prog.pure_eq]
    by_cases hbusy : session.dogA ∈ store.byDog ∨ session.dogB ∈ store.byDog
    · rw [if_pos hbusy, Prog.call_bind, Prog.eval_call]
      simp only [exec, if_pos hbusy]
      rfl
    · rw [if_neg hbusy, Prog.call_bind, Prog.eval_call]
      simp only [exec, if_neg hbusy]
      rfl
  | get id => rfl
  | forDog dog =>
    unfold Call.run Call.whole forDog SessionStore.forDog
    simp only [getByDog, get, getById, Prog.op_bind, Prog.pure_eq]
    rw [Prog.call_bind, Prog.eval_call]
    simp only [exec]
    cases hd : store.byDog.lookup dog with
    | none => rfl
    | some id => rfl
  | update id f => rfl
  | endSession id =>
    unfold Call.run Call.whole endSession SessionStore.endSession
    simp only [removeById, removeByDog, removeMedia, Prog.op_bind, Prog.pure_eq]
    rw [Prog.call_bind, Prog.eval_call]
    simp only [exec]
    cases hx : store.byId.lookup id with
    | none => rfl
    | some x => rfl
  | setMediaReady id dog ready =>
    unfold Call.run Call.whole setMediaReady SessionStore.setMediaReady
    simp only [get, getById, markMedia, Prog.op_bind, Prog.pure_eq]
    rw [Prog.call_bind, Prog.eval_call]
    simp only [exec]
    cases hx : store.get id with
    | none => rfl
    | some sess =>
      simp only [Prog.call_bind, Prog.eval_call, exec]
      cases hm : store.media.lookup id with
      | none => rfl
      | some extra =>
        have hmark : (if dog = sess.dogA then some { extra with mediaA := ready }
            else if dog = sess.dogB then some { extra with mediaB := ready } else none) =
              SessionStore.mark sess dog ready extra := rfl
        simp only [hmark, Option.bind_some]
        cases SessionStore.mark sess dog ready extra with
        | none => rfl
        | some e =>
          simp only
          cases hboth : (e.mediaA && e.mediaB) with
          | false => rfl
          | true => rfl

/-! ## Where a thread is -/

/-- A thread at a call, between two sections of one, or back from one. -/
inductive Point
  | call (c : Call)
  /-- The dogs are entered. -/
  | inserting (session : SessionRecord)
  /-- The flags are there as well. -/
  | storing (session : SessionRecord)
  | finding (dog : DogId) (id : SessionId)
  /-- The record is out of `by_id`. -/
  | ending (id : SessionId) (s : SessionRecord)
  /-- The dogs are cleared as well. -/
  | clearing (id : SessionId) (s : SessionRecord)
  /-- The record is read. -/
  | marking (id : SessionId) (dog : DogId) (ready : Bool) (sess : SessionRecord)
  /-- The flag is set, and both are. -/
  | activating (id : SessionId) (dog : DogId) (ready : Bool)
  /-- The record is to be read again. -/
  | answering (id : SessionId) (dog : DogId) (ready : Bool) (both : Bool)
  | returned (c : Call) (a : Answer)

namespace Point

/-- The call it is about. -/
def of : Point → Call
  | call c => c
  | inserting session => .insert session
  | storing session => .insert session
  | finding dog _ => .forDog dog
  | ending id _ => .endSession id
  | clearing id _ => .endSession id
  | marking id dog ready _ => .setMediaReady id dog ready
  | activating id dog ready => .setMediaReady id dog ready
  | answering id dog ready _ => .setMediaReady id dog ready
  | returned c _ => c

/-- What is left of the call. -/
def code : Point → Sections Answer
  | call c => c.run
  | inserting session => do
    insertMedia session
    insertById session
    return .inserted (.ok ())
  | storing session => do
    insertById session
    return .inserted (.ok ())
  | finding _ id => return .found (← get id)
  | ending id s => do
    removeByDog s
    removeMedia id
    return .ended (some s)
  | clearing id s => do
    removeMedia id
    return .ended (some s)
  | marking id dog ready sess => do
    match ← markMedia id sess dog ready with
    | none => return .marked none
    | some both => do
      if both then
        let _ ← update id activate
      return .marked ((← get id).map (fun s => (both, s)))
  | activating id _ _ => do
    let _ ← update id activate
    return .marked ((← get id).map (fun s => (true, s)))
  | answering id _ _ both => return .marked ((← get id).map (fun s => (both, s)))
  | returned _ a => return a

/-- The next section and where its answer leads to. -/
def next : Point → Option ((c : Section) × (c.Resp → Point))
  | call (.insert session) => some ⟨.insertByDog session, fun busy =>
      if busy then returned (.insert session) (.inserted (.error "busy")) else inserting session⟩
  | call (.get id) => some ⟨.getById id, fun o => returned (.get id) (.found o)⟩
  | call (.forDog dog) => some ⟨.getByDog dog, fun o => o.elim (returned (.forDog dog) (.found none)) (finding dog)⟩
  | call (.update id f) => some ⟨.updateById id f, fun o => returned (.update id f) (.updated o)⟩
  | call (.endSession id) => some ⟨.removeById id, fun o =>
      o.elim (returned (.endSession id) (.ended none)) (ending id)⟩
  | call (.setMediaReady id dog ready) => some ⟨.getById id, fun o =>
      o.elim (returned (.setMediaReady id dog ready) (.marked none)) (marking id dog ready)⟩
  | inserting session => some ⟨.insertMedia session, fun _ => storing session⟩
  | storing session => some ⟨.insertById session, fun _ => returned (.insert session) (.inserted (.ok ()))⟩
  | finding dog id => some ⟨.getById id, fun o => returned (.forDog dog) (.found o)⟩
  | ending id s => some ⟨.removeByDog s, fun _ => clearing id s⟩
  | clearing id s => some ⟨.removeMedia id, fun _ => returned (.endSession id) (.ended (some s))⟩
  | marking id dog ready sess => some ⟨.markMedia id sess dog ready, fun o =>
      o.elim (returned (.setMediaReady id dog ready) (.marked none))
        (fun both => if both then activating id dog ready else answering id dog ready false)⟩
  | activating id dog ready => some ⟨.updateById id activate, fun _ => answering id dog ready true⟩
  | answering id dog ready both => some ⟨.getById id, fun o =>
      returned (.setMediaReady id dog ready) (.marked (o.map (fun s => (both, s))))⟩
  | returned _ _ => none

/-- **The points trace the calls.** -/
theorem traces : Traces code next where
  done {pt} h := by
    cases pt with
    | returned c a => exact ⟨_, rfl⟩
    | call c => cases c <;> cases h
    | _ => cases h
  call {pt c f} h := by
    cases pt with
    | call cl =>
      cases cl with
      | insert session =>
        cases h
        refine congrArg (Prog.call _) (funext fun busy => ?_)
        cases busy <;> rfl
      | forDog dog =>
        cases h
        refine congrArg (Prog.call _) (funext fun o => ?_)
        cases o <;> rfl
      | endSession id =>
        cases h
        refine congrArg (Prog.call _) (funext fun o => ?_)
        cases o <;> rfl
      | setMediaReady id dog ready =>
        cases h
        refine congrArg (Prog.call _) (funext fun o => ?_)
        cases o with
        | none => rfl
        | some sess =>
          refine congrArg (Prog.call _) (funext fun marked => ?_)
          cases marked with
          | none => rfl
          | some both => cases both <;> rfl
      | _ => cases h; rfl
    | marking id dog ready sess =>
      cases h
      refine congrArg (Prog.call _) (funext fun o => ?_)
      cases o with
      | none => rfl
      | some both => cases both <;> rfl
    | returned c a => cases h
    | _ => cases h; rfl

theorem of_next {pt : Point} {c : Section} {f : c.Resp → Point} (h : pt.next = some ⟨c, f⟩) (r : c.Resp) :
    (f r).of = pt.of := by
  cases pt with
  | call cl =>
    cases cl with
    | insert session => cases h; cases r <;> rfl
    | forDog dog => cases h; cases r <;> rfl
    | endSession id => cases h; cases r <;> rfl
    | setMediaReady id dog ready => cases h; cases r <;> rfl
    | _ => cases h; rfl
  | marking id dog ready sess =>
    cases h
    cases r with
    | none => rfl
    | some both => cases both <;> rfl
  | returned cl a => cases h
  | _ => cases h; rfl

theorem point_of_done {pt : Point} {a : Answer} (h : pt.code = .done a) : pt = .returned pt.of a := by
  have hnext : pt.next = none := by
    cases hn : pt.next with
    | none => rfl
    | some cf =>
      rw [traces.call hn] at h
      cases h
  cases pt with
  | call c => cases c <;> cases hnext
  | returned c a' =>
    cases h
    rfl
  | _ => cases hnext

/-- A session that is not in the store yet. -/
def unborn : Point → List SessionRecord
  | call (.insert session) => [session]
  | inserting session => [session]
  | storing session => [session]
  | _ => []

/-- The session that the call has taken out of the store. -/
def taken : Point → List SessionRecord
  | ending _ s => [s]
  | clearing _ s => [s]
  | returned _ (.ended o) => o.toList
  | _ => []

/-- The session whose dogs are entered while it is not in the store. -/
def entered : Point → List SessionRecord
  | inserting session => [session]
  | storing session => [session]
  | ending _ s => [s]
  | _ => []

/-- The session that has flags while it is not in the store. -/
def flagged : Point → List SessionRecord
  | storing session => [session]
  | ending _ s => [s]
  | clearing _ s => [s]
  | _ => []

/-- The session that the call has cleared from `by_dog`. -/
def cleared : Point → List SessionRecord
  | clearing _ s => [s]
  | returned _ (.ended o) => o.toList
  | _ => []

/-- The session that the call has cleared from `media` as well. -/
def purged : Point → List SessionRecord
  | returned _ (.ended o) => o.toList
  | _ => []

end Point

/-! ## The threads -/

abbrev SessionPool : Type := Pool Section.Resp Answer Locked Unit

/-- Every call is made by a thread of its own; none has begun. -/
def begin (s₀ : SessionStore) (calls : List Call) : SessionPool := Pool.start { store := s₀ } (calls.map Call.run)

theorem begin_threads (s₀ : SessionStore) (calls : List Call) :
    (begin s₀ calls).threads = (calls.map Point.call).map Point.code := by
  rw [List.map_map]
  rfl

theorem of_begun (calls : List Call) : (calls.map Point.call).map Point.of = calls := by
  rw [List.map_map]
  exact List.map_id _

end SessionSections
end CanisLink
