import CanisLink.Moments
/-!
# Erase — programs whose calls nobody sees

States are alike when no call tells them apart.  A program whose calls leave states alike can be erased from any run of
many programs: every other program still makes the same calls and is given the same answers.
-/
namespace Interleave

variable {C : Type} {R : C → Type} {α σ τ : Type}

/-- No call tells states apart that `E` relates, and a call of `S` leaves a state that `E` relates to the one before. -/
structure Blind (exec : τ → (c : C) → σ → R c × σ) (S : C → Prop) (E : σ → σ → Prop) : Prop where
  congr : ∀ (t : τ) (c : C) {s s' : σ}, E s s' → (exec t c s).1 = (exec t c s').1 ∧ E (exec t c s).2 (exec t c s').2
  hidden : ∀ (t : τ) (c : C) {s s' : σ}, S c → E s s' → E (exec t c s).2 s'

namespace Pool

/-- But for the programs of `hide`, which make calls of `S` only, the two pools are alike. -/
structure Erased (S : C → Prop) (E : σ → σ → Prop) (hide : Nat → Bool) (p p' : Pool R α σ τ) : Prop where
  state : E p.state p'.state
  hidden : ∀ i q, hide i = true → p.threads[i]? = some q → q.All S
  threads : ∀ i, hide i = false → p.threads[i]? = p'.threads[i]?
  told : ∀ i, hide i = false → own i p.log = own i p'.log

variable {exec : τ → (c : C) → σ → R c × σ} {S : C → Prop} {E : σ → σ → Prop} {hide : Nat → Bool}
  {p p' : Pool R α σ τ} {l : Nat × τ}

/-- A step of a hidden program. -/
theorem Erased.skip (hB : Blind exec S E) (h : p.Erased S E hide p') (hl : hide l.1 = true) :
    (p.step exec l).Erased S E hide p' := by
  have hne : ∀ i, hide i = false → l.1 ≠ i := by
    rintro i hi rfl
    rw [hl] at hi
    cases hi
  rcases step_cases exec p l with hs | ⟨c, k, hthread, hs⟩
  · rw [hs]
    exact h
  · obtain ⟨hc, hk⟩ := h.hidden l.1 _ hl hthread
    rw [hs]
    refine ⟨hB.hidden l.2 c hc h.state, fun i q hi hq => ?_, fun i hi => ?_, fun i hi => ?_⟩
    · rw [List.getElem?_set] at hq
      split at hq
      · split at hq
        · obtain rfl := Option.some.inj hq
          exact hk _
        · cases hq
      · exact h.hidden i q hi hq
    · rw [List.getElem?_set_ne (hne i hi)]
      exact h.threads i hi
    · rw [own_snoc_ne (hne i hi)]
      exact h.told i hi

/-- A step of another program, which both pools take. -/
theorem Erased.both (hB : Blind exec S E) (h : p.Erased S E hide p') (hl : hide l.1 = false) :
    (p.step exec l).Erased S E hide (p'.step exec l) := by
  have hsame := h.threads l.1 hl
  rcases step_cases exec p l with hs | ⟨c, k, hthread, hs⟩
  · have hs' : p'.step exec l = p' := by
      rcases step_cases exec p' l with hs' | ⟨c, k, hthread', -⟩
      · exact hs'
      · rw [step_call (hsame.trans hthread')] at hs
        exact absurd (congrArg (fun q : Pool R α σ τ => q.log.length) hs) (by simp)
    rw [hs, hs']
    exact h
  · obtain ⟨hanswer, hstate⟩ := hB.congr l.2 c h.state
    rw [hs, step_call (hsame.symm.trans hthread), ← hanswer]
    refine ⟨hstate, fun i q hi hq => ?_, fun i hi => ?_, fun i hi => ?_⟩
    · have hne : l.1 ≠ i := by
        rintro rfl
        rw [hl] at hi
        cases hi
      rw [List.getElem?_set_ne hne] at hq
      exact h.hidden i q hi hq
    · by_cases hi' : l.1 = i
      · subst hi'
        rw [List.getElem?_set_self (List.getElem?_eq_some_iff.1 hthread).1,
          List.getElem?_set_self (List.getElem?_eq_some_iff.1 (hsame.symm.trans hthread)).1]
      · rw [List.getElem?_set_ne hi', List.getElem?_set_ne hi']
        exact h.threads i hi
    · by_cases hi' : l.1 = i
      · subst hi'
        rw [own_snoc_self, own_snoc_self, h.told l.1 hi]
      · rw [own_snoc_ne hi', own_snoc_ne hi']
        exact h.told i hi

/-- **Erasing the steps of the hidden programs from a run.** -/
theorem Erased.run (hB : Blind exec S E) : ∀ (sched : List (Nat × τ)) {p p' : Pool R α σ τ}, p.Erased S E hide p' →
    (p.run exec sched).Erased S E hide (p'.run exec (sched.filter (fun l => !hide l.1)))
  | [], _, _, h => h
  | l :: sched, p, p', h => by
    cases hl : hide l.1 with
    | true =>
      rw [List.filter_cons_of_neg (by simp [hl])]
      exact Erased.run hB sched (h.skip hB hl)
    | false =>
      rw [List.filter_cons_of_pos (by simp [hl])]
      exact Erased.run hB sched (h.both hB hl)

/-- A pool before any step. -/
theorem Erased.start {s : σ} {ps : List (Prog R α)} (hE : E s s)
    (hS : ∀ i q, hide i = true → ps[i]? = some q → q.All S) :
    (start s ps : Pool R α σ τ).Erased S E hide (start s ps) :=
  ⟨hE, hS, fun _ _ => rfl, fun _ _ => rfl⟩

end Pool
end Interleave
