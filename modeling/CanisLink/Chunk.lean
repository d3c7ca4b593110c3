/-!
# Chunk — draining a streaming decoder

`pop` takes one item off the front of a buffer, or returns none and a buffer it may have trimmed.  `drain` pops until
none; `feed` drains after each chunk that arrives.  `pop` is `Incremental` when later bytes do not change what it did
with the earlier ones.  It `Rests` on a buffer when popping again does nothing.

`feed_independent_iff`: every way of cutting a stream gives the same items and the same rest exactly when draining the
whole stream ends at rest.
-/
namespace Chunk

variable {B F : Type} {pop : List B → Option F × List B}

/-- Later bytes do not change what a pop did, and an item takes at least one byte. -/
structure Incremental (pop : List B → Option F × List B) : Prop where
  shorter : ∀ {x f y}, pop x = (some f, y) → y.length < x.length
  some_append : ∀ {x f y}, pop x = (some f, y) → ∀ z, pop (x ++ z) = (some f, y ++ z)
  rest_append : ∀ {x y}, pop x = (none, y) → pop y = (none, y) → ∀ z, pop (x ++ z) = pop (y ++ z)
  trim_append : ∀ {x y}, pop x = (none, y) → pop y ≠ (none, y) →
    ∀ z, pop (x ++ z) = (none, y ++ z) ∧ pop (y ++ z) ≠ (none, y ++ z)

/-- Popping does nothing. -/
def Rests (pop : List B → Option F × List B) (x : List B) : Prop := pop x = (none, x)

/-- `while let Some(f) = pop() { frames.push(f) }`, at most `n` times. -/
def popLoop (pop : List B → Option F × List B) : Nat → List B → List F × List B
  | 0, x => ([], x)
  | n + 1, x =>
    match pop x with
    | (some f, y) => (f :: (popLoop pop n y).1, (popLoop pop n y).2)
    | (none, y) => ([], y)

/-- The loop run to its end: each item takes a byte, so one turn more than there are bytes is enough. -/
def drain (pop : List B → Option F × List B) (x : List B) : List F × List B := popLoop pop (x.length + 1) x

/-- The items of the chunks in turn, and what is left in the buffer. -/
def feed (pop : List B → Option F × List B) : List B → List (List B) → List F × List B
  | buf, [] => ([], buf)
  | buf, c :: cs =>
    ((drain pop (buf ++ c)).1 ++ (feed pop (drain pop (buf ++ c)).2 cs).1, (feed pop (drain pop (buf ++ c)).2 cs).2)

theorem popLoop_fuel (h : Incremental pop) : ∀ (n m : Nat) (x : List B), x.length < n → x.length < m →
    popLoop pop n x = popLoop pop m x
  | 0, _, _, hn, _ => absurd hn (by omega)
  | _, 0, _, _, hm => absurd hm (by omega)
  | n + 1, m + 1, x, hn, hm => by
    unfold popLoop
    cases hx : pop x with
    | mk f y =>
      cases f with
      | none => rfl
      | some f =>
        have hlt := h.shorter hx
        simp only
        rw [popLoop_fuel h n m y (by omega) (by omega)]

theorem drain_some (h : Incremental pop) {x : List B} {f : F} {y : List B} (hx : pop x = (some f, y)) :
    drain pop x = (f :: (drain pop y).1, (drain pop y).2) := by
  have hlt := h.shorter hx
  have hy : popLoop pop x.length y = drain pop y := popLoop_fuel h _ _ y hlt (by omega)
  unfold drain
  rw [popLoop, hx]
  simp only [hy]
  rfl

theorem drain_none {x y : List B} (hx : pop x = (none, y)) : drain pop x = ([], y) := by
  unfold drain
  rw [popLoop, hx]

theorem drain_of_rests {x : List B} (hx : Rests pop x) : drain pop x = ([], x) := drain_none hx

/-- **At rest, draining goes on where it stopped.** -/
theorem drain_append (h : Incremental pop) (x z : List B) (hq : Rests pop (drain pop x).2) :
    drain pop (x ++ z) = ((drain pop x).1 ++ (drain pop ((drain pop x).2 ++ z)).1,
      (drain pop ((drain pop x).2 ++ z)).2) := by
  induction hn : x.length using Nat.strongRecOn generalizing x with
  | ind n ih =>
    cases hx : pop x with
    | mk f y =>
      cases f with
      | some f =>
        have hlt := h.shorter hx
        rw [drain_some h hx] at hq ⊢
        rw [drain_some h (h.some_append hx z), ih y.length (by omega) y hq rfl]
        rfl
      | none =>
        rw [drain_none hx] at hq ⊢
        have hz := h.rest_append hx hq z
        simp only [List.nil_append]
        cases hyz : pop (y ++ z) with
        | mk g w =>
          rw [hyz] at hz
          cases g with
          | none => rw [drain_none hyz, drain_none hz]
          | some g => rw [drain_some h hyz, drain_some h hz]

/-- **A stream that is drained to rest was at rest after each prefix.** -/
theorem rests_prefix (h : Incremental pop) (x z : List B) (hq : Rests pop (drain pop (x ++ z)).2) :
    Rests pop (drain pop x).2 := by
  induction hn : x.length using Nat.strongRecOn generalizing x with
  | ind n ih =>
    cases hx : pop x with
    | mk f y =>
      cases f with
      | some f =>
        have hlt := h.shorter hx
        rw [drain_some h (h.some_append hx z)] at hq
        rw [drain_some h hx]
        exact ih y.length (by omega) y hq rfl
      | none =>
        rw [drain_none hx]
        by_cases hy : pop y = (none, y)
        · exact hy
        · obtain ⟨h1, h2⟩ := h.trim_append hx hy z
          rw [drain_none h1] at hq
          exact absurd hq h2

/-- **Fed in any chunks, a stream that is drained to rest gives what it gives whole.** -/
theorem feed_eq_drain (h : Incremental pop) : ∀ (cs : List (List B)) (buf : List B), Rests pop buf →
    Rests pop (drain pop (buf ++ cs.flatten)).2 → feed pop buf cs = drain pop (buf ++ cs.flatten)
  | [], buf, hb, _ => by
    rw [List.flatten_nil, List.append_nil, drain_of_rests hb]
    rfl
  | c :: cs, buf, _, hq => by
    rw [List.flatten_cons, ← List.append_assoc] at hq ⊢
    have hc : Rests pop (drain pop (buf ++ c)).2 := rests_prefix h _ _ hq
    rw [drain_append h _ _ hc] at hq ⊢
    rw [feed, feed_eq_drain h cs _ hc hq]

/-- **Cutting does not matter exactly when the whole stream is drained to rest**: otherwise one more, empty, chunk
already changes the buffer. -/
theorem feed_independent_iff (h : Incremental pop) (h0 : Rests pop []) (b : List B) :
    (∀ cs ds : List (List B), cs.flatten = b → ds.flatten = b → feed pop [] cs = feed pop [] ds) ↔
      Rests pop (drain pop b).2 := by
  constructor
  · intro hind
    have he := hind [b] [b, []] (by simp) (by simp)
    simp only [feed, List.nil_append, List.append_nil, Prod.mk.injEq] at he
    obtain ⟨h1, h2⟩ := he
    cases hr : pop (drain pop b).2 with
    | mk f y =>
      cases f with
      | some f =>
        rw [drain_some h hr] at h1
        exact absurd (congrArg List.length h1) (by simp only [List.length_append, List.length_cons]; omega)
      | none =>
        rw [drain_none hr] at h2
        simp only at h2
        rw [← h2] at hr
        exact hr
  · intro hq cs ds hcs hds
    have key : ∀ es : List (List B), es.flatten = b → feed pop [] es = drain pop b := fun es hes => by
      rw [feed_eq_drain h es [] h0 (by rw [hes]; exact hq), hes, List.nil_append]
    rw [key cs hcs, key ds hds]

end Chunk
