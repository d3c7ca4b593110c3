import Mathlib.Logic.Relation
/-!
# Machine — systems that take one enabled action at a time

`step s a` is the state after the action `a`, none when `a` is not enabled at `s`.  `Always` and `Meets` speak of the
states and the steps of one run; `Ends Q s` says that `Q` holds wherever a run from `s` can go no further.  A measure
that every step lowers bounds the length of the runs, so that each of them can be completed.
-/
namespace Machine

open Relation (ReflTransGen)

variable {σ α : Type} (step : σ → α → Option σ)

/-- One step, whatever the action. -/
def Next (s s' : σ) : Prop := ∃ a, step s a = some s'

/-- No action is enabled. -/
def Quiet (s : σ) : Prop := ∀ a, step s a = none

def Ends (Q : σ → Prop) (s : σ) : Prop := ∀ t, ReflTransGen (Next step) s t → Quiet step t → Q t

/-- Every state of the run. -/
def Always (P : σ → Prop) : σ → List α → Prop
  | s, [] => P s
  | s, a :: as => P s ∧ ∀ s', step s a = some s' → Always P s' as

/-- Every step of the run. -/
def Meets (Cond : σ → α → Prop) : σ → List α → Prop
  | _, [] => True
  | s, a :: as => ∀ s', step s a = some s' → Cond s a ∧ Meets Cond s' as

variable {step}

theorem Quiet.not_step {s s' : σ} {a : α} (hq : Quiet step s) (h : step s a = some s') : False := by
  rw [hq] at h
  cases h

theorem Always.head {P : σ → Prop} : ∀ {as : List α} {s : σ}, Always step P s as → P s
  | [], _, h => h
  | _ :: _, _, h => h.1

theorem Always.last {P : σ → Prop} : ∀ {as : List α} {s t : σ}, Always step P s as → as.foldlM step s = some t → P t
  | [], _, _, h, ht => by
    cases ht
    exact h
  | _ :: _, _, _, h, ht => by
    rw [List.foldlM_cons] at ht
    obtain ⟨s', hstep, hrest⟩ := Option.bind_eq_some_iff.1 ht
    exact (h.2 s' hstep).last hrest

theorem Always.congr {I P Q : σ → Prop} (hI : ∀ {s a s'}, I s → step s a = some s' → I s')
    (h : ∀ s, I s → (P s ↔ Q s)) : ∀ (as : List α) (s : σ), I s → (Always step P s as ↔ Always step Q s as)
  | [], s, hs => h s hs
  | _ :: as, s, hs =>
    and_congr (h s hs) (forall_congr' (fun s' => forall_congr' (fun hstep => Always.congr hI h as s' (hI hs hstep))))

/-- **A property that survives a step exactly under a condition** holds along a run exactly when every step meets it. -/
theorem always_iff_meets {I P : σ → Prop} {Cond : σ → α → Prop} (hI : ∀ {s a s'}, I s → step s a = some s' → I s')
    (h : ∀ {s a s'}, I s → P s → step s a = some s' → (P s' ↔ Cond s a)) :
    ∀ (as : List α) (s : σ), I s → P s → (Always step P s as ↔ Meets step Cond s as)
  | [], _, _, hp => iff_of_true hp trivial
  | a :: as, s, hs, hp => by
    refine (and_iff_right hp).trans (forall_congr' (fun s' => forall_congr' (fun hstep => ?_)))
    constructor
    · intro hall
      have hp' := hall.head
      exact ⟨(h hs hp hstep).1 hp', (always_iff_meets hI h as s' (hI hs hstep) hp').1 hall⟩
    · rintro ⟨hc, hm⟩
      exact (always_iff_meets hI h as s' (hI hs hstep) ((h hs hp hstep).2 hc)).2 hm

theorem run_inv {I : σ → Prop} (hI : ∀ {s a s'}, I s → step s a = some s' → I s') : ∀ {as : List α} {s t : σ}, I s →
    as.foldlM step s = some t → I t
  | [], _, _, h, ht => by
    cases ht
    exact h
  | _ :: _, _, _, h, ht => by
    rw [List.foldlM_cons] at ht
    obtain ⟨s', hstep, hrest⟩ := Option.bind_eq_some_iff.1 ht
    exact run_inv hI (hI h hstep) hrest

/-- What every step keeps, holds wherever a run ends. -/
theorem ends_of_kept {J Q : σ → Prop} (hJ : ∀ {s a s'}, J s → step s a = some s' → J s')
    (h : ∀ s, J s → Quiet step s → Q s) {s : σ} (hs : J s) : Ends step Q s := by
  intro t hrun
  refine h t ?_
  induction hrun with
  | refl => exact hs
  | tail _ hnext ih =>
    obtain ⟨a, hstep⟩ := hnext
    exact hJ ih hstep

/-! ## Runs come to an end -/

/-- **Each step costs something**, so a run is no longer than what its first state has to spend. -/
theorem length_add_le (μ : σ → Nat) (hμ : ∀ {s a s'}, step s a = some s' → μ s' < μ s) :
    ∀ (as : List α) {s t : σ}, as.foldlM step s = some t → as.length + μ t ≤ μ s
  | [], s, t, h => by
    cases h
    exact Nat.le_of_eq (Nat.zero_add _)
  | a :: as, s, t, h => by
    rw [List.foldlM_cons] at h
    obtain ⟨s', hstep, hrest⟩ := Option.bind_eq_some_iff.1 h
    have hlt := hμ hstep
    have hle := length_add_le μ hμ as hrest
    rw [List.length_cons]
    omega

theorem exists_quiet (μ : σ → Nat) (hμ : ∀ {s a s'}, step s a = some s' → μ s' < μ s) (s : σ) :
    ∃ t, ReflTransGen (Next step) s t ∧ Quiet step t := by
  induction hn : μ s using Nat.strongRecOn generalizing s with
  | ind n ih =>
    by_cases hq : Quiet step s
    · exact ⟨s, .refl, hq⟩
    · obtain ⟨a, ha⟩ := Classical.not_forall.1 hq
      obtain ⟨s', hstep⟩ := Option.ne_none_iff_exists'.1 ha
      obtain ⟨t, hrun, ht⟩ := ih (μ s') (hn ▸ hμ hstep) s' rfl
      exact ⟨t, .head ⟨a, hstep⟩ hrun, ht⟩

/-- What every step keeps is not ended by a run: some run ends in it. -/
theorem not_ends_of_kept (μ : σ → Nat) (hμ : ∀ {s a s'}, step s a = some s' → μ s' < μ s) {K Q : σ → Prop}
    (hK : ∀ {s a s'}, K s → step s a = some s' → K s') (h : ∀ s, K s → ¬ Q s) {s : σ} (hs : K s) : ¬ Ends step Q s := by
  intro hends
  obtain ⟨t, hrun, hq⟩ := exists_quiet μ hμ s
  exact ends_of_kept (Q := fun t => ¬ Q t) hK (fun t ht _ => h t ht) hs t hrun hq (hends t hrun hq)

end Machine
