import CanisLink.Effects
import CanisLink.Moments
/-!
# Requests — concurrent requests seen at the moments of a run

The handlers of a list of requests run as a pool.  `reached` is the pool after a schedule; the lemmas say what the call
made at a moment leaves in the state and in the log.
-/
namespace CanisLink

open Interleave (Pool Step own)

/-- The pool after a schedule. -/
def reached (st : AppState) (w : World) (reqs : List Request) (sched : List (Nat × DateTime)) : ApiPool :=
  (Pool.start w (reqs.map (handle st)) : ApiPool).run (exec st) sched

/-- Nothing is asked of the calls of a handler. -/
def AnyCall (_ : List ApiStep) (_ : Call) : Prop := True

section

variable {st : AppState} {reqs : List Request} {w : World}

/-- The call made at a moment is in the log of the program that made it. -/
theorem mem_own_of_next {before sched : List (Nat × DateTime)} {i : Nat} {t : DateTime} {c : Call}
    (h : before ++ [(i, t)] <+: sched) (hn : (reached st w reqs before).next i = some c) :
    (⟨i, t, c, (exec st t c (reached st w reqs before).state).1⟩ : ApiStep) ∈ own i (reached st w reqs sched).log :=
  Interleave.mem_own.2 ⟨Pool.mem_log_of_next h hn, rfl⟩

theorem reached_snoc {before : List (Nat × DateTime)} {l : Nat × DateTime} {c : Call}
    (hn : (reached st w reqs before).next l.1 = some c) :
    (reached st w reqs (before ++ [l])).state = (exec st l.2 c (reached st w reqs before).state).2 := by
  unfold reached
  rw [Pool.run_snoc]
  exact Pool.state_step hn

/-- A moment at which the state changes: some call is made. -/
theorem next_of_changed {before : List (Nat × DateTime)} {l : Nat × DateTime}
    (h : (reached st w reqs (before ++ [l])).state ≠ (reached st w reqs before).state) :
    ∃ c, (reached st w reqs before).next l.1 = some c := by
  refine @Pool.next_of_step_ne _ _ _ _ _ (exec st) _ _ (fun hs => h ?_)
  unfold reached at hs ⊢
  rw [Pool.run_snoc, hs]

end
end CanisLink
