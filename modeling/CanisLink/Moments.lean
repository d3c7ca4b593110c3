import CanisLink.Points
/-!
# Moments — what happens between two moments of a run

A moment of a run is the pool after a part of the schedule.  Every step of the log was taken at a moment, and the other
way round; a condition on all steps is one on all moments; and what holds at one moment and not at a later one was ended
by a step between them.
-/
namespace Interleave

variable {C : Type} {R : C → Type} {α σ τ : Type} {exec : τ → (c : C) → σ → R c × σ}

namespace Pool

theorem next_some {p : Pool R α σ τ} {i : Nat} {c : C} (h : p.next i = some c) :
    ∃ k, p.threads[i]? = some (.call c k) := by
  unfold next at h
  split at h
  · rename_i c' k hi
    cases h
    exact ⟨k, hi⟩
  · cases h

/-- What program `i` has returned. -/
def result (p : Pool R α σ τ) (i : Nat) : Option α :=
  match p.threads[i]? with
  | some (.done a) => some a
  | _ => none

theorem result_eq_some {p : Pool R α σ τ} {i : Nat} {a : α} :
    p.result i = some a ↔ p.threads[i]? = some (.done a) := by
  unfold result
  split
  · rename_i b h
    rw [h]
    simp
  · rename_i h
    exact iff_of_false (by simp) (h a)

/-- The step of a program that has a call to make. -/
theorem step_call {p : Pool R α σ τ} {l : Nat × τ} {c : C} {k : R c → Prog R α}
    (h : p.threads[l.1]? = some (.call c k)) : p.step exec l =
      ⟨(exec l.2 c p.state).2, p.threads.set l.1 (k (exec l.2 c p.state).1),
        p.log ++ [⟨l.1, l.2, c, (exec l.2 c p.state).1⟩]⟩ := by
  unfold step
  rw [h]

/-- A step that is one: the program has a call to make. -/
theorem next_of_step_ne {p : Pool R α σ τ} {l : Nat × τ} (h : p.step exec l ≠ p) : ∃ c, p.next l.1 = some c := by
  rcases step_cases exec p l with hs | ⟨c, k, hl, -⟩
  · exact absurd hs h
  · exact ⟨c, next_eq hl⟩

theorem state_step {p : Pool R α σ τ} {l : Nat × τ} {c : C} (h : p.next l.1 = some c) :
    (p.step exec l).state = (exec l.2 c p.state).2 := by
  obtain ⟨k, hk⟩ := next_some h
  rw [step_call hk]

theorem log_step {p : Pool R α σ τ} {l : Nat × τ} {c : C} (h : p.next l.1 = some c) :
    (p.step exec l).log = p.log ++ [⟨l.1, l.2, c, (exec l.2 c p.state).1⟩] := by
  obtain ⟨k, hk⟩ := next_some h
  rw [step_call hk]

@[simp] theorem run_snoc (p : Pool R α σ τ) (a : List (Nat × τ)) (l : Nat × τ) :
    p.run exec (a ++ [l]) = (p.run exec a).step exec l := by
  rw [run_append]
  rfl

/-- What every call keeps, every run keeps. -/
theorem run_state {I : σ → Prop} (hI : ∀ t (c : C) s, I s → I (exec t c s).2) : ∀ (sched : List (Nat × τ))
    {p : Pool R α σ τ}, I p.state → I (p.run exec sched).state
  | [], _, h => h
  | l :: sched, p, h => by
    refine run_state hI sched ?_
    rcases step_cases exec p l with hs | ⟨c, k, -, hs⟩
    · rw [hs]
      exact h
    · rw [hs]
      exact hI l.2 c p.state h

theorem Follows.run {Q : Nat → List (Step R τ) → C → Prop} {E : Nat → List (Step R τ) → α → Prop} :
    ∀ {p : Pool R α σ τ}, p.Follows Q E → ∀ sched : List (Nat × τ), (p.run exec sched).Follows Q E
  | _, h, [] => h
  | _, h, l :: sched => Follows.run (h.step l) sched

/-- A condition on every step is one on every moment. -/
theorem meets_iff {Cond : Pool R α σ τ → Nat × τ → Prop} : ∀ {sched : List (Nat × τ)} {p : Pool R α σ τ},
    p.Meets exec Cond sched ↔ ∀ before l, before ++ [l] <+: sched → Cond (p.run exec before) l
  | [], p => by
    refine iff_of_true trivial (fun before l h => ?_)
    have hnil := List.prefix_nil.1 h
    simp at hnil
  | l :: sched, p => by
    unfold Meets
    rw [meets_iff]
    constructor
    · rintro ⟨hl, hrest⟩ before l' h
      cases before with
      | nil =>
        obtain ⟨rfl, -⟩ := List.cons_prefix_cons.1 h
        exact hl
      | cons m before =>
        obtain ⟨rfl, h'⟩ := List.cons_prefix_cons.1 h
        exact hrest before l' h'
    · intro h
      refine ⟨h [] l (List.cons_prefix_cons.2 ⟨rfl, List.nil_prefix⟩), fun before l' h' => ?_⟩
      exact h (l :: before) l' (List.cons_prefix_cons.2 ⟨rfl, h'⟩)

/-- The log of a moment is part of every later one. -/
theorem log_mono {a b : List (Nat × τ)} (h : a <+: b) (p : Pool R α σ τ) : (p.run exec a).log ⊆ (p.run exec b).log := by
  obtain ⟨c, rfl⟩ := h
  rw [run_append]
  exact (log_prefix_run c _).subset

/-- The step taken at a moment is in the log of the run. -/
theorem mem_log_of_next {p : Pool R α σ τ} {before sched : List (Nat × τ)} {l : Nat × τ} {c : C}
    (h : before ++ [l] <+: sched) (hn : (p.run exec before).next l.1 = some c) :
    (⟨l.1, l.2, c, (exec l.2 c (p.run exec before).state).1⟩ : Step R τ) ∈ (p.run exec sched).log := by
  refine log_mono h p ?_
  rw [run_snoc, log_step hn]
  exact List.mem_append_right _ (List.mem_singleton_self _)

/-- **Every step of a log was taken at some moment.** -/
theorem mem_log_run {p : Pool R α σ τ} {e : Step R τ} : ∀ {sched : List (Nat × τ)}, e ∈ (p.run exec sched).log →
    e ∈ p.log ∨ ∃ before, before ++ [(e.tid, e.input)] <+: sched ∧ (p.run exec before).next e.tid = some e.cmd ∧
      e.resp = (exec e.input e.cmd (p.run exec before).state).1 := by
  intro sched
  induction sched using List.reverseRecOn with
  | nil => exact .inl
  | append_singleton sched l ih =>
    intro h
    rw [run_snoc] at h
    have hearlier : e ∈ (p.run exec sched).log → e ∈ p.log ∨ ∃ before, before ++ [(e.tid, e.input)] <+: sched ++ [l] ∧
        (p.run exec before).next e.tid = some e.cmd ∧ e.resp = (exec e.input e.cmd (p.run exec before).state).1 := by
      intro he
      refine (ih he).imp_right (fun ⟨before, hle, hrest⟩ => ?_)
      exact ⟨before, hle.trans (List.prefix_append _ _), hrest⟩
    rcases step_cases exec (p.run exec sched) l with hs | ⟨c, k, hl, hs⟩
    · rw [hs] at h
      exact hearlier h
    · rw [hs] at h
      rcases List.mem_append.1 h with h | h
      · exact hearlier h
      · obtain rfl := List.mem_singleton.1 h
        exact .inr ⟨sched, List.prefix_refl _, next_eq hl, rfl⟩

/-- A program with no call to make makes none. -/
theorem own_run_of_idle {i : Nat} : ∀ (sched : List (Nat × τ)) {p : Pool R α σ τ}, p.next i = none →
    own i (p.run exec sched).log = own i p.log
  | [], _, _ => rfl
  | l :: sched, p, h => by
    rw [run_cons]
    rcases step_cases exec p l with hs | ⟨c, k, hl, hs⟩
    · rw [hs]
      exact own_run_of_idle sched h
    · have hne : l.1 ≠ i := by
        rintro rfl
        rw [next_eq hl] at h
        cases h
      have hidle : (p.step exec l).next i = none := by
        unfold next
        rw [hs, List.getElem?_set_ne hne]
        exact h
      rw [own_run_of_idle sched hidle, hs, own_snoc_ne hne]

/-- **A program's first call** is made when the schedule first names it. -/
theorem lookup_of_first {i : Nat} {e : Step R τ} : ∀ (sched : List (Nat × τ)) {p : Pool R α σ τ}, own i p.log = [] →
    (own i (p.run exec sched).log).head? = some e → sched.lookup i = some e.input
  | [], p, hnone, h => by
    rw [run_nil, hnone] at h
    cases h
  | l :: sched, p, hnone, h => by
    rw [List.lookup_cons]
    by_cases hl : i = l.1
    · rw [beq_iff_eq.2 hl]
      show some l.2 = _
      subst hl
      cases hn : p.next l.1 with
      | none =>
        rw [own_run_of_idle _ hn, hnone] at h
        cases h
      | some c =>
        have hfirst : [⟨l.1, l.2, c, (exec l.2 c p.state).1⟩] <+: own l.1 (p.run exec (l :: sched)).log := by
          refine List.IsPrefix.trans ?_ ((log_prefix_run sched (p.step exec l)).filter _)
          show _ <+: own l.1 (p.step exec l).log
          rw [log_step hn, own_snoc_self, hnone]
          exact List.prefix_refl _
        obtain ⟨rest, hrest⟩ := hfirst
        rw [← hrest] at h
        exact congrArg some (congrArg Step.input (Option.some.inj h))
    · rw [beq_eq_false_iff_ne.2 hl]
      refine lookup_of_first sched ?_ h
      rcases step_cases exec p l with hs | ⟨c, k, -, hs⟩
      · rw [hs]
        exact hnone
      · rw [hs, own_snoc_ne (Ne.symm hl)]
        exact hnone

/-- **What holds at one moment and not at a later one is ended by a step between them.** -/
theorem exists_leaving {P : Pool R α σ τ → Prop} {p : Pool R α σ τ} {earlier : List (Nat × τ)}
    (h : P (p.run exec earlier)) : ∀ later : List (Nat × τ), ¬ P (p.run exec (earlier ++ later)) →
      ∃ before l, earlier <+: before ∧ before ++ [l] <+: earlier ++ later ∧ P (p.run exec before) ∧
        ¬ P (p.run exec (before ++ [l])) := by
  intro later
  induction later using List.reverseRecOn with
  | nil =>
    intro hend
    rw [List.append_nil] at hend
    exact absurd h hend
  | append_singleton later l ih =>
    intro hend
    rw [← List.append_assoc] at hend ⊢
    by_cases hbefore : P (p.run exec (earlier ++ later))
    · exact ⟨earlier ++ later, l, List.prefix_append _ _, List.prefix_refl _, hbefore, hend⟩
    · obtain ⟨before, l', hpre, hle, hP, hnP⟩ := ih hbefore
      exact ⟨before, l', hpre, hle.trans (List.prefix_append _ _), hP, hnP⟩

end Pool
end Interleave
