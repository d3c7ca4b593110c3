import CanisLink.Memory
import CanisLink.Points
/-!
# InviteSections — the invite store, lock by lock

`InviteStore` keeps its two maps under two locks and no call holds both from its beginning to its end, so here a call is
a program of the sections it runs under them.  `insert` and `for_dog` hold `open_for_dog` while they visit `by_id`;
`close` takes an invite out of `by_id`, lets go, and clears `open_for_dog` later; `expire_due` collects ids and closes
them one by one.
-/
namespace CanisLink
namespace InviteSections

open Interleave (Prog Pool Step Traces)

/-- The store, and whether a thread between two sections holds the lock of `open_for_dog`.  `by_id` is never held so. -/
structure Locked where
  store : InviteStore := {}
  openHeld : Bool := false

/-! ## The sections -/

/-- What is done under a lock without letting go. -/
inductive Section
  /-- `insert`: look for the two dogs and enter them; keeps the lock unless one is busy. -/
  | insertOpen (invite : Invite)
  /-- `insert`, still under `open_for_dog`: store the invite; lets go of both. -/
  | insertById (invite : Invite)
  | getById (id : InviteId)
  /-- `for_dog`: the dog's id; keeps the lock if there is one. -/
  | forDogOpen (dog : DogId)
  /-- `for_dog`, still under `open_for_dog`. -/
  | forDogById (id : InviteId)
  | removeById (id : InviteId)
  | removeOpen (inv : Invite)
  | collectDue (now : DateTime)

/-- What a section answers; `insertOpen` whether a dog is busy. -/
abbrev Section.Resp : Section → Type
  | insertOpen _ => Bool
  | insertById _ => Unit
  | getById _ => Option Invite
  | forDogOpen _ => Option InviteId
  | forDogById _ => Option Invite
  | removeById _ => Option Invite
  | removeOpen _ => Unit
  | collectDue _ => List InviteId

/-- A section runs in one piece.  The `n`-th of the orders `ord` is the one its hash map is walked in. -/
def exec (ord : Nat → IterOrder) (n : Nat) : (c : Section) → Locked → c.Resp × Locked
  | .insertOpen invite, s =>
    if invite.fromDog ∈ s.store.openForDog ∨ invite.toDog ∈ s.store.openForDog then (true, s)
    else (false, {
      store := { s.store with
        openForDog := (s.store.openForDog.insert invite.fromDog invite.id).insert invite.toDog invite.id }
      openHeld := true })
  | .insertById invite, s =>
    ((), { store := { s.store with byId := s.store.byId.insert invite.id invite }, openHeld := false })
  | .getById id, s => (s.store.byId.lookup id, s)
  | .forDogOpen dog, s =>
    match s.store.openForDog.lookup dog with
    | none => (none, s)
    | some id => (some id, { s with openHeld := true })
  | .forDogById id, s => (s.store.byId.lookup id, { s with openHeld := false })
  | .removeById id, s =>
    match s.store.byId.lookup id with
    | none => (none, s)
    | some inv => (some inv, { s with store := { s.store with byId := s.store.byId.erase id } })
  | .removeOpen inv, s =>
    ((), { s with store := { s.store with openForDog := (s.store.openForDog.erase inv.fromDog).erase inv.toDog } })
  | .collectDue now, s =>
    ((((ord n).visit s.store.byId.entries).filter (fun p => decide (now ≥ p.2.expiresAt))).map (·.1), s)

/-- A section that takes the lock of `open_for_dog` waits until nobody holds it. -/
def ready : Section → Locked → Bool
  | .insertOpen _, s => !s.openHeld
  | .forDogOpen _, s => !s.openHeld
  | .removeOpen _, s => !s.openHeld
  | _, _ => true

/-! ## The calls -/

abbrev Sections (α : Type) : Type := Prog Section.Resp α

def insertOpen (invite : Invite) : Sections Bool := Prog.op (Section.insertOpen invite)
def insertById (invite : Invite) : Sections Unit := Prog.op (Section.insertById invite)
def getById (id : InviteId) : Sections (Option Invite) := Prog.op (Section.getById id)
def forDogOpen (dog : DogId) : Sections (Option InviteId) := Prog.op (Section.forDogOpen dog)
def forDogById (id : InviteId) : Sections (Option Invite) := Prog.op (Section.forDogById id)
def removeById (id : InviteId) : Sections (Option Invite) := Prog.op (Section.removeById id)
def removeOpen (inv : Invite) : Sections Unit := Prog.op (Section.removeOpen inv)
def collectDue (now : DateTime) : Sections (List InviteId) := Prog.op (Section.collectDue now)

def insert (invite : Invite) : Sections (Except String Unit) := do
  if ← insertOpen invite then return .error "busy"
  insertById invite
  return .ok ()

def get (id : InviteId) : Sections (Option Invite) := getById id

def forDog (dog : DogId) : Sections (Option Invite) := do
  match ← forDogOpen dog with
  | none => return none
  | some id => forDogById id

def close (id : InviteId) : Sections (Option Invite) := do
  match ← removeById id with
  | none => return none
  | some inv => do
    removeOpen inv
    return some inv

/-- `due.into_iter().filter_map(|id| self.close(id)).collect()`, with what is collected so far. -/
def closeDue (out : List Invite) : List InviteId → Sections (List Invite)
  | [] => return out
  | id :: due => do
    match ← close id with
    | none => closeDue out due
    | some inv => closeDue (out ++ [inv]) due

def expireDue (now : DateTime) : Sections (List Invite) := do
  let due ← collectDue now
  closeDue [] due

/-- A call of the store by some thread, and its answer. -/
inductive Call
  | insert (invite : Invite)
  | get (id : InviteId)
  | forDog (dog : DogId)
  | close (id : InviteId)
  | expireDue (now : DateTime)

inductive Answer
  | inserted (r : Except String Unit)
  | found (o : Option Invite)
  | closed (o : Option Invite)
  | expired (l : List Invite)

/-- The invites the call has taken out of the store. -/
def Answer.took : Answer → List Invite
  | closed o => o.toList
  | expired l => l
  | _ => []

def Call.run : Call → Sections Answer
  | insert invite => return .inserted (← InviteSections.insert invite)
  | get id => return .found (← InviteSections.get id)
  | forDog dog => return .found (← InviteSections.forDog dog)
  | close id => return .closed (← InviteSections.close id)
  | expireDue now => return .expired (← InviteSections.expireDue now)

/-! ## A call alone -/

/-- The call in one step, as the store has it. -/
def Call.whole (ord : IterOrder) (s : InviteStore) : Call → Answer × InviteStore
  | insert invite =>
    match s.insert invite with
    | .error e => (.inserted (.error e), s)
    | .ok s' => (.inserted (.ok ()), s')
  | get id => (.found (s.get id), s)
  | forDog dog => (.found (s.forDog dog), s)
  | close id => (.closed (s.close id).1, (s.close id).2)
  | expireDue now => (.expired (s.expireDue ord now).1, (s.expireDue ord now).2)

section

variable (ord : Nat → IterOrder) (κ : Nat → Nat) (s : Locked)

theorem eval_close (id : InviteId) : ((close id).eval (exec ord) κ s).1 = (s.store.close id).1 ∧
    ((close id).eval (exec ord) κ s).2 = { s with store := (s.store.close id).2 } := by
  unfold InviteStore.close close
  simp only [removeById, removeOpen, Prog.op_bind, Prog.eval_call, exec]
  cases s.store.byId.lookup id with
  | none => exact ⟨rfl, rfl⟩
  | some inv => exact ⟨rfl, rfl⟩

theorem eval_closeDue : ∀ (due : List InviteId) (out : List Invite) (κ : Nat → Nat) (s : Locked),
    ((closeDue out due).eval (exec ord) κ s).1 = out ++ (InviteStore.closeAll due s.store).1 ∧
      ((closeDue out due).eval (exec ord) κ s).2 = { s with store := (InviteStore.closeAll due s.store).2 }
  | [], out, _, s => ⟨(List.append_nil out).symm, rfl⟩
  | id :: due, out, κ, s => by
    obtain ⟨hr, hs⟩ := eval_close ord κ s id
    unfold closeDue InviteStore.closeAll
    rw [Prog.eval_bind, hr, hs]
    cases hc : s.store.close id with
    | mk o store =>
      cases o with
      | none => exact eval_closeDue due out _ _
      | some inv =>
        obtain ⟨hr', hs'⟩ := eval_closeDue due (out ++ [inv]) (fun n => κ (n + (close id).steps (exec ord) κ s))
          { s with store := store }
        exact ⟨hr'.trans (by simp), hs'⟩

/-- **A call alone does what the call in one step does.** -/
theorem eval_run (c : Call) (hfree : s.openHeld = false) : c.run.eval (exec ord) κ s =
    ((c.whole (ord (κ 0)) s.store).1, { store := (c.whole (ord (κ 0)) s.store).2, openHeld := false }) := by
  obtain ⟨store, held⟩ := s
  obtain rfl : held = false := hfree
  cases c with
  | insert invite =>
    unfold Call.run Call.whole insert InviteStore.insert
    simp only [insertOpen, insertById, Prog.op_bind, Prog.pure_eq]
    by_cases hbusy : invite.fromDog ∈ store.openForDog ∨ invite.toDog ∈ store.openForDog
    · rw [if_pos hbusy, Prog.call_bind, Prog.eval_call]
      simp only [exec, if_pos hbusy]
      rfl
    · rw [if_neg hbusy, Prog.call_bind, Prog.eval_call]
      simp only [exec, if_neg hbusy]
      rfl
  | get id => rfl
  | forDog dog =>
    unfold Call.run Call.whole forDog InviteStore.forDog
    simp only [forDogOpen, forDogById, Prog.op_bind, Prog.pure_eq]
    rw [Prog.call_bind, Prog.eval_call]
    simp only [exec]
    cases hd : store.openForDog.lookup dog with
    | none => rfl
    | some id => rfl
  | close id =>
    obtain ⟨hr, hs⟩ := eval_close ord κ ⟨store, false⟩ id
    unfold Call.run Call.whole
    rw [Prog.eval_bind, hr, hs]
    rfl
  | expireDue now =>
    unfold Call.run Call.whole expireDue InviteStore.expireDue
    simp only [collectDue, Prog.op_bind]
    rw [Prog.call_bind, Prog.eval_call, Prog.eval_bind]
    simp only [exec]
    obtain ⟨hr, hs⟩ := eval_closeDue ord
      ((((ord (κ 0)).visit store.byId.entries).filter (fun p => decide (now ≥ p.2.expiresAt))).map (·.1)) []
      (fun n => κ (n + 1)) ⟨store, false⟩
    rw [hr, hs]
    rfl

end

/-! ## Where a thread is -/

/-- A thread at a call, between two sections of one, or back from one. -/
inductive Point
  | call (c : Call)
  | inserting (invite : Invite)
  | finding (dog : DogId) (id : InviteId)
  | closing (id : InviteId) (inv : Invite)
  | expiring (now : DateTime) (out : List Invite) (due : List InviteId)
  | expiringOne (now : DateTime) (out : List Invite) (inv : Invite) (due : List InviteId)
  | returned (c : Call) (a : Answer)

namespace Point

/-- The call it is about. -/
def of : Point → Call
  | call c => c
  | inserting invite => .insert invite
  | finding dog _ => .forDog dog
  | closing id _ => .close id
  | expiring now _ _ => .expireDue now
  | expiringOne now _ _ _ => .expireDue now
  | returned c _ => c

/-- What is left of the call. -/
def code : Point → Sections Answer
  | call c => c.run
  | inserting invite => do
    insertById invite
    return .inserted (.ok ())
  | finding _ id => return .found (← forDogById id)
  | closing _ inv => do
    removeOpen inv
    return .closed (some inv)
  | expiring _ out due => return .expired (← closeDue out due)
  | expiringOne _ out inv due => do
    removeOpen inv
    return .expired (← closeDue (out ++ [inv]) due)
  | returned _ a => return a

/-- The next section and where its answer leads to. -/
def next : Point → Option ((c : Section) × (c.Resp → Point))
  | call (.insert invite) => some ⟨.insertOpen invite, fun busy =>
      if busy then returned (.insert invite) (.inserted (.error "busy")) else inserting invite⟩
  | call (.get id) => some ⟨.getById id, fun o => returned (.get id) (.found o)⟩
  | call (.forDog dog) => some ⟨.forDogOpen dog, fun o =>
      o.elim (returned (.forDog dog) (.found none)) (finding dog)⟩
  | call (.close id) => some ⟨.removeById id, fun o => o.elim (returned (.close id) (.closed none)) (closing id)⟩
  | call (.expireDue now) => some ⟨.collectDue now, fun due => expiring now [] due⟩
  | inserting invite => some ⟨.insertById invite, fun _ => returned (.insert invite) (.inserted (.ok ()))⟩
  | finding dog id => some ⟨.forDogById id, fun o => returned (.forDog dog) (.found o)⟩
  | closing id inv => some ⟨.removeOpen inv, fun _ => returned (.close id) (.closed (some inv))⟩
  | expiring now out (id :: due) => some ⟨.removeById id, fun o =>
      o.elim (expiring now out due) (fun inv => expiringOne now out inv due)⟩
  | expiring _ _ [] => none
  | expiringOne now out inv due => some ⟨.removeOpen inv, fun _ => expiring now (out ++ [inv]) due⟩
  | returned _ _ => none

/-- **The points trace the calls.** -/
theorem traces : Traces code next where
  done {pt} h := by
    cases pt with
    | expiring now out due =>
      cases due with
      | nil => exact ⟨_, rfl⟩
      | cons id due => cases h
    | returned c a => exact ⟨_, rfl⟩
    | call c => cases c <;> cases h
    | _ => cases h
  call {pt c f} h := by
    cases pt with
    | call cl =>
      cases cl with
      | insert invite =>
        cases h
        refine congrArg (Prog.call _) (funext fun busy => ?_)
        cases busy <;> rfl
      | forDog dog =>
        cases h
        refine congrArg (Prog.call _) (funext fun o => ?_)
        cases o <;> rfl
      | close id =>
        cases h
        refine congrArg (Prog.call _) (funext fun o => ?_)
        cases o <;> rfl
      | _ => cases h; rfl
    | expiring now out due =>
      cases due with
      | nil => cases h
      | cons id due =>
        cases h
        refine congrArg (Prog.call _) (funext fun o => ?_)
        cases o <;> rfl
    | returned c a => cases h
    | _ => cases h; rfl

theorem of_next {pt : Point} {c : Section} {f : c.Resp → Point} (h : pt.next = some ⟨c, f⟩) (r : c.Resp) :
    (f r).of = pt.of := by
  cases pt with
  | call cl =>
    cases cl with
    | insert invite => cases h; cases r <;> rfl
    | forDog dog => cases h; cases r <;> rfl
    | close id => cases h; cases r <;> rfl
    | _ => cases h; rfl
  | expiring now out due =>
    cases due with
    | nil => cases h
    | cons id due => cases h; cases r <;> rfl
  | returned cl a => cases h
  | _ => cases h; rfl

/-- An invite that is not in the store yet. -/
def unborn : Point → List Invite
  | call (.insert invite) => [invite]
  | inserting invite => [invite]
  | _ => []

/-- The invites that the call has taken out of the store. -/
def taken : Point → List Invite
  | closing _ inv => [inv]
  | expiring _ out _ => out
  | expiringOne _ out inv _ => inv :: out
  | returned _ a => a.took
  | _ => []

/-- The invite whose dogs are entered while it is not in the store. -/
def entered : Point → List Invite
  | inserting invite => [invite]
  | closing _ inv => [inv]
  | expiringOne _ _ inv _ => [inv]
  | _ => []

/-- The id whose `close` has been to `by_id`. -/
def closes : Point → List InviteId
  | closing id _ => [id]
  | returned (.close id) _ => [id]
  | _ => []

/-- The invite that `insert` has stored. -/
def stored : Point → List Invite
  | returned (.insert invite) (.inserted (.ok ())) => [invite]
  | _ => []

end Point

end InviteSections
end CanisLink
