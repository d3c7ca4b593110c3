import Mathlib.Logic.Function.Basic
/-!
# Broadcast — a channel that hands each message to those who listen

A message is queued for exactly the receivers subscribed when it is sent, and each takes its own queue in order.  There
is no history: who subscribes later hears only what is sent from then on.
-/
namespace Broadcast

/-- What each subscribed receiver has still to take. -/
structure Channel (ι M : Type) where
  queue : ι → Option (List M)

namespace Channel

variable {ι M : Type}

/-- A channel without receivers. -/
def new : Channel ι M := ⟨fun _ => none⟩

def send (c : Channel ι M) (m : M) : Channel ι M := ⟨fun i => (c.queue i).map (· ++ [m])⟩

@[simp] theorem queue_new (i : ι) : (new : Channel ι M).queue i = none := rfl
@[simp] theorem queue_send (c : Channel ι M) (m : M) (j : ι) : (c.send m).queue j = (c.queue j).map (· ++ [m]) := rfl

variable [DecidableEq ι]

def subscribe (c : Channel ι M) (i : ι) : Channel ι M := ⟨Function.update c.queue i (some [])⟩

/-- The next message of a receiver. -/
def recv (c : Channel ι M) (i : ι) : Option (M × Channel ι M) :=
  match c.queue i with
  | some (m :: rest) => some (m, ⟨Function.update c.queue i (some rest)⟩)
  | _ => none

variable {c c' : Channel ι M} {i : ι} {m : M}

@[simp] theorem queue_subscribe (j : ι) : (c.subscribe i).queue j = if j = i then some [] else c.queue j :=
  Function.update_apply ..

/-- What is taken is the head of the own queue; the others keep theirs. -/
theorem recv_eq_some (h : c.recv i = some (m, c')) :
    ∃ rest, c.queue i = some (m :: rest) ∧ ∀ j, c'.queue j = if j = i then some rest else c.queue j := by
  unfold recv at h
  split at h
  · rename_i rest hq
    cases h
    exact ⟨rest, hq, fun j => Function.update_apply ..⟩
  · cases h

theorem recv_eq_none (h : c.recv i = none) : c.queue i = none ∨ c.queue i = some [] := by
  unfold recv at h
  split at h
  · cases h
  · rename_i hne
    cases hq : c.queue i with
    | none => exact .inl rfl
    | some q =>
      cases q with
      | nil => exact .inr rfl
      | cons m rest => exact absurd hq (hne m rest)

end Channel

end Broadcast
