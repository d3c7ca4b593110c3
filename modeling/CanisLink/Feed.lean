import Mathlib.Data.List.Infix
/-!
# Feed — a broadcast channel that keeps only its last messages

A channel of capacity `cap` keeps the last `cap` of what was sent on it.  A receiver stands at a position of all that
was sent: it takes the message there or, when that one is no longer kept, is told how many it has missed and moves on to
the oldest one that is.  What it has taken is in order, and ends with the newest messages whenever it has caught up.
-/
namespace Feed

variable {M : Type}

/-- What a receiver is answered. -/
inductive Recv (M : Type)
  | message (m : M)
  | lagged (n : Nat)
  | empty
deriving DecidableEq

/-- Where a receiver began and stands, what it has taken and how much it was told it missed. -/
structure Receiver (M : Type) where
  start : Nat
  pos : Nat
  taken : List M := []
  missed : Nat := 0

/-- A receiver begins after all that was sent before. -/
def subscribe (sent : List M) : Receiver M := { start := sent.length, pos := sent.length }

namespace Receiver

variable (cap : Nat) (sent : List M) (r : Receiver M)

def recv : Recv M × Receiver M :=
  if r.pos + cap < sent.length then
    (.lagged (sent.length - cap - r.pos),
      { r with pos := sent.length - cap, missed := r.missed + (sent.length - cap - r.pos) })
  else
    match sent[r.pos]? with
    | some m => (.message m, { r with pos := r.pos + 1, taken := r.taken ++ [m] })
    | none => (.empty, r)

/-- What a receiver has taken of the messages sent. -/
structure Follows : Prop where
  begun : r.start ≤ r.pos
  within : r.pos ≤ sent.length
  sub : r.taken.Sublist ((sent.take r.pos).drop r.start)
  count : r.taken.length + r.missed = r.pos - r.start
  /-- Since it missed something last, it has taken every message. -/
  latest : ∃ g, r.start ≤ g ∧ g ≤ r.pos ∧ (g = r.start ∨ g + cap ≤ sent.length) ∧ (sent.take r.pos).drop g <:+ r.taken

variable {cap sent r}

/-- **A receiver is too far behind, takes the message at its place, or has taken all.** -/
theorem recv_cases (cap : Nat) (sent : List M) (r : Receiver M) :
    (r.pos + cap < sent.length ∧ r.recv cap sent = (.lagged (sent.length - cap - r.pos),
      { r with pos := sent.length - cap, missed := r.missed + (sent.length - cap - r.pos) })) ∨
    (∃ m, sent[r.pos]? = some m ∧
      r.recv cap sent = (.message m, { r with pos := r.pos + 1, taken := r.taken ++ [m] })) ∨
    (sent.length ≤ r.pos ∧ r.recv cap sent = (.empty, r)) := by
  unfold recv
  split
  · rename_i hbehind
    exact .inl ⟨hbehind, rfl⟩
  · cases hm : sent[r.pos]? with
    | some m => exact .inr (.inl ⟨m, rfl, rfl⟩)
    | none => exact .inr (.inr ⟨List.getElem?_eq_none_iff.1 hm, rfl⟩)

/-- Where a receiver began stays. -/
@[simp] theorem recv_start : (r.recv cap sent).2.start = r.start := by
  rcases recv_cases cap sent r with ⟨-, hr⟩ | ⟨m, -, hr⟩ | ⟨-, hr⟩ <;> rw [hr]

theorem follows_subscribe (cap : Nat) (sent : List M) : (subscribe sent).Follows cap sent where
  begun := le_refl _
  within := le_refl _
  sub := List.nil_sublist _
  count := (Nat.sub_self _).symm
  latest := ⟨sent.length, le_refl _, le_refl _, .inl rfl, by simp [subscribe]⟩

theorem Follows.append (h : r.Follows cap sent) (ms : List M) : r.Follows cap (sent ++ ms) := by
  have htake : (sent ++ ms).take r.pos = sent.take r.pos := List.take_append_of_le_length h.within
  obtain ⟨g, hstart, hpos, hgap, hsuffix⟩ := h.latest
  refine ⟨h.begun, ?_, ?_, h.count, g, hstart, hpos, ?_, ?_⟩
  · rw [List.length_append]
    exact h.within.trans (Nat.le_add_right _ _)
  · rw [htake]
    exact h.sub
  · rw [List.length_append]
    exact hgap.imp_right (fun hg => hg.trans (Nat.le_add_right _ _))
  · rw [htake]
    exact hsuffix

/-- The messages up to the next place. -/
theorem drop_take_succ {m : M} {n k : Nat} (hm : sent[n]? = some m) (hk : k ≤ n) :
    (sent.take (n + 1)).drop k = (sent.take n).drop k ++ [m] := by
  have hn : n < sent.length := (List.getElem?_eq_some_iff.1 hm).1
  rw [List.take_add_one, hm, Option.toList_some, List.drop_append_of_le_length]
  rw [List.length_take]
  omega

theorem Follows.recv (h : r.Follows cap sent) : (r.recv cap sent).2.Follows cap sent := by
  have hbegun := h.begun
  obtain ⟨g, hstart, hpos, hgap, hsuffix⟩ := h.latest
  rcases recv_cases cap sent r with ⟨hbehind, hr⟩ | ⟨m, hm, hr⟩ | ⟨-, hr⟩
  · -- what is skipped lies between the two places
    rw [hr]
    have hsub : ((sent.take r.pos).drop r.start).Sublist ((sent.take (sent.length - cap)).drop r.start) := by
      refine List.Sublist.drop ?_ _
      exact (List.take_prefix_take_left (by omega)).sublist
    refine ⟨?_, Nat.sub_le _ _, h.sub.trans hsub, ?_, sent.length - cap, ?_, le_refl _, .inr ?_, ?_⟩
    · show r.start ≤ sent.length - cap
      omega
    · have hcount := h.count
      show r.taken.length + (r.missed + (sent.length - cap - r.pos)) = sent.length - cap - r.start
      omega
    · show r.start ≤ sent.length - cap
      omega
    · omega
    · rw [List.drop_take, Nat.sub_self, List.take_zero]
      exact List.nil_suffix
  · rw [hr]
    refine ⟨Nat.le_succ_of_le hbegun, (List.getElem?_eq_some_iff.1 hm).1, ?_, ?_, g, hstart, Nat.le_succ_of_le hpos,
      hgap, ?_⟩
    · show (r.taken ++ [m]).Sublist ((sent.take (r.pos + 1)).drop r.start)
      rw [drop_take_succ hm hbegun]
      exact h.sub.append (List.Sublist.refl _)
    · have hcount := h.count
      show (r.taken ++ [m]).length + r.missed = r.pos + 1 - r.start
      rw [List.length_append, List.length_singleton]
      omega
    · show (sent.take (r.pos + 1)).drop g <:+ r.taken ++ [m]
      rw [drop_take_succ hm hpos]
      obtain ⟨front, hfront⟩ := hsuffix
      exact ⟨front, by rw [← hfront, List.append_assoc]⟩
  · rw [hr]
    exact h

/-! ## What was sent since a receiver began -/

section

variable {before told : List M}

/-- The part of it that lies before the receiver's place. -/
theorem since_eq (hstart : r.start = before.length) (hbegun : r.start ≤ r.pos) :
    ((before ++ told).take r.pos).drop r.start = told.take (r.pos - before.length) := by
  rw [hstart] at hbegun ⊢
  rw [List.take_append, List.drop_append, List.drop_of_length_le (by rw [List.length_take]; omega), List.nil_append,
    List.length_take, Nat.min_eq_right hbegun, Nat.sub_self, List.drop_zero]

/-- **What a receiver takes is sent since it began**, in order and none twice. -/
theorem Follows.taken_sublist (h : r.Follows cap (before ++ told)) (hstart : r.start = before.length) :
    r.taken.Sublist told := by
  have hsub := h.sub
  rw [since_eq hstart h.begun] at hsub
  exact hsub.trans (List.take_sublist _ _)

/-- Each message is taken, missed or still to come. -/
theorem Follows.counted (h : r.Follows cap (before ++ told)) (hstart : r.start = before.length) :
    r.taken.length + r.missed + ((before ++ told).length - r.pos) = told.length := by
  have hbegun := h.begun
  have hwithin := h.within
  have hcount := h.count
  rw [List.length_append] at hwithin ⊢
  omega

/-- **A receiver that has missed nothing has taken all, up to its place.** -/
theorem Follows.taken_prefix (h : r.Follows cap (before ++ told)) (hstart : r.start = before.length)
    (hmissed : r.missed = 0) : r.taken <+: told := by
  have heq : r.taken = ((before ++ told).take r.pos).drop r.start := by
    refine h.sub.eq_of_length ?_
    have hcount := h.count
    have hwithin := h.within
    rw [List.length_drop, List.length_take]
    omega
  rw [heq, since_eq hstart h.begun]
  exact List.take_prefix _ _

/-- **A receiver that has caught up has just taken the messages that are kept.** -/
theorem Follows.newest_taken (h : r.Follows cap (before ++ told)) (hstart : r.start = before.length)
    (hup : r.pos = (before ++ told).length) : told.drop (told.length - cap) <:+ r.taken := by
  obtain ⟨g, hbegun, -, hgap, hsuffix⟩ := h.latest
  rw [hup, List.take_length, List.drop_append, List.drop_of_length_le (by omega), List.nil_append] at hsuffix
  rw [List.length_append] at hgap
  exact (List.drop_suffix_drop_left _ (by omega)).trans hsuffix

end

end Receiver
end Feed
