import CanisLink.Moments
import Mathlib.Order.Basic
/-!
# Clients — programs that come in while others run, and what a client may be told

A pool may be given new programs at any time: the run is that of the pool that had them from the start.  A client is a
program whose calls are answered from outside; `Prog.Under` states what it comes to when every answer is one that was
allowed at the moment it came, moments being ordered and answers never forgotten.
-/
namespace Interleave

variable {C : Type} {R : C → Type} {α β σ τ ι : Type}

namespace Pool

/-- A program comes in. -/
def spawn (p : Pool R α σ τ) (q : Prog R α) : Pool R α σ τ := { p with threads := p.threads ++ [q] }

@[simp] theorem spawn_state (p : Pool R α σ τ) (q : Prog R α) : (p.spawn q).state = p.state := rfl
@[simp] theorem spawn_log (p : Pool R α σ τ) (q : Prog R α) : (p.spawn q).log = p.log := rfl
@[simp] theorem spawn_threads (p : Pool R α σ τ) (q : Prog R α) : (p.spawn q).threads = p.threads ++ [q] := rfl

theorem start_append (s : σ) (ps : List (Prog R α)) (q : Prog R α) :
    (start s (ps ++ [q]) : Pool R α σ τ) = (start s ps).spawn q := rfl

variable (exec : τ → (c : C) → σ → R c × σ)

theorem length_step (p : Pool R α σ τ) (l : Nat × τ) : (p.step exec l).threads.length = p.threads.length := by
  rcases step_cases exec p l with h | ⟨c, k, -, h⟩
  · rw [h]
  · rw [h, List.length_set]

theorem step_spawn {p : Pool R α σ τ} {l : Nat × τ} (h : l.1 < p.threads.length) (q : Prog R α) :
    (p.spawn q).step exec l = (p.step exec l).spawn q := by
  unfold step
  rw [spawn_threads, List.getElem?_append_left h]
  split
  · unfold spawn
    rw [List.set_append_left _ _ h]
  · rfl

/-- **A program that comes in after a run might have been there from the start.** -/
theorem run_spawn (q : Prog R α) : ∀ {sched : List (Nat × τ)} {p : Pool R α σ τ},
    (∀ l ∈ sched, l.1 < p.threads.length) → (p.spawn q).run exec sched = (p.run exec sched).spawn q
  | [], _, _ => rfl
  | l :: sched, p, h => by
    obtain ⟨hl, hsched⟩ := List.forall_mem_cons.1 h
    rw [run_cons, run_cons, step_spawn exec hl]
    refine run_spawn q (fun m hm => ?_)
    rw [length_step]
    exact hsched m hm

/-- The schedule of the calls that were made. -/
def made (p : Pool R α σ τ) : List (Nat × τ) := p.log.map (fun e => (e.tid, e.input))

theorem made_step (p : Pool R α σ τ) (l : Nat × τ) : p.step exec l = p ∨ (p.step exec l).made = p.made ++ [l] := by
  rcases step_cases exec p l with h | ⟨c, k, -, h⟩
  · exact .inl h
  · right
    rw [h]
    unfold made
    rw [List.map_append]
    rfl

end Pool

/-! ## Clients -/

namespace Prog

variable [Preorder ι]

/-- Whatever answers the calls get, each of them allowed at the moment it comes, the program comes to what `E` allows at
the moment of its last answer. -/
def Under (A : ι → (c : C) → R c → Prop) (E : ι → α → Prop) : Prog R α → ι → Prop
  | done a, n => E n a
  | call c k, n => ∀ m, n ≤ m → ∀ r, A m c r → (k r).Under A E m

variable {A : ι → (c : C) → R c → Prop} {E : ι → α → Prop}

theorem Under.bind {E' : ι → β → Prop} {f : α → Prog R β} : ∀ {p : Prog R α} {n : ι}, p.Under A E n →
    (∀ m a, n ≤ m → E m a → (f a).Under A E' m) → (p >>= f).Under A E' n
  | done _, _, hp, hf => hf _ _ (le_refl _) hp
  | call _ _, _, hp, hf => fun m hm r hr => (hp m hm r hr).bind (fun m' a hm' => hf m' a (hm.trans hm'))

end Prog
end Interleave
