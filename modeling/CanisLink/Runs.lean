import Mathlib.Data.List.SplitBy
import Mathlib.Data.List.Induction
/-!
# Runs — the maximal runs of a sequence

`runs v l` cuts a list where the value of `v` changes.  One more item either joins the last run or starts a new one
(`runs_snoc`).  `lastOk` is the value of the last run that passes a test, which one more run either replaces or not.
-/
namespace Runs

variable {α β : Type} [DecidableEq β] (v : α → β)

/-- The maximal runs of equal value. -/
def runs (l : List α) : List (List α) := l.splitBy (fun a b => decide (v a = v b))

variable {v}

theorem runs_flatten (l : List α) : (runs v l).flatten = l := List.flatten_splitBy _ l

theorem value_of_mem {l : List α} {a : α} {run : List α} (h : a :: run ∈ runs v l) : ∀ b ∈ a :: run, v a = v b := by
  have hchain : (a :: run).IsChain (fun x y => v x = v y) :=
    (List.isChain_of_mem_splitBy h).imp (fun _ _ hxy => of_decide_eq_true hxy)
  have : Trans (fun x y => v x = v y) (fun x y => v x = v y) (fun x y : α => v x = v y) := ⟨Eq.trans⟩
  intro b hb
  rcases List.mem_cons.1 hb with rfl | hb
  · rfl
  · exact (List.pairwise_cons.1 hchain.pairwise).1 b hb

theorem runs_snoc_same {l : List α} {gs : List (List α)} {a : α} {run : List α} (hl : runs v l = gs ++ [a :: run])
    {x : α} (hx : v a = v x) : runs v (l ++ [x]) = gs ++ [a :: (run ++ [x])] := by
  have hvalue : ∀ b ∈ a :: run, v a = v b := value_of_mem (l := l) (by rw [hl]; simp)
  unfold runs at hl ⊢
  obtain ⟨hflat, hnil, hchain, hcut⟩ := List.splitBy_eq_iff.1 hl
  rw [List.splitBy_eq_iff]
  refine ⟨?_, ?_, ?_, ?_⟩
  · rw [hflat]
    simp
  · intro hmem
    rcases List.mem_append.1 hmem with hmem | hmem
    · exact hnil (List.mem_append_left _ hmem)
    · simp at hmem
  · intro g hg
    rcases List.mem_append.1 hg with hg | hg
    · exact hchain g (List.mem_append_left _ hg)
    · rw [List.mem_singleton.1 hg, ← List.cons_append, List.isChain_append]
      refine ⟨hchain _ (by simp), List.isChain_singleton x, fun y hy z hz => ?_⟩
      have hy := hvalue y (List.mem_of_mem_getLast? hy)
      cases hz
      exact decide_eq_true (hy.symm.trans hx)
  · rw [List.isChain_append] at hcut ⊢
    refine ⟨hcut.1, List.isChain_singleton _, fun g hg g' hg' => ?_⟩
    cases hg'
    obtain ⟨ha, _, hne⟩ := hcut.2.2 g hg _ rfl
    exact ⟨ha, List.cons_ne_nil _ _, hne⟩

theorem runs_snoc_new {l : List α} {gs : List (List α)} {a : α} {run : List α} (hl : runs v l = gs ++ [a :: run])
    {x : α} (hx : v a ≠ v x) : runs v (l ++ [x]) = gs ++ [a :: run] ++ [[x]] := by
  have hvalue : ∀ b ∈ a :: run, v a = v b := value_of_mem (l := l) (by rw [hl]; simp)
  rw [← hl]
  refine List.splitBy_append_cons [] (fun y hy => decide_eq_false ?_)
  have hlast : y ∈ (a :: run).getLast? := by
    rw [← runs_flatten (v := v) l, hl, List.flatten_append, List.getLast?_append] at hy
    simpa using hy
  rw [← hvalue y (List.mem_of_mem_getLast? hlast)]
  exact hx

/-! ## The last run that passes -/

variable (v) in
/-- The value of the last run that passes the test, or `d`. -/
def lastOk (ok : List α → Bool) (d : β) (gs : List (List α)) : β :=
  (((gs.filter ok).getLast?.bind List.head?).map v).getD d

omit [DecidableEq β] in
theorem lastOk_snoc (ok : List α → Bool) (d : β) (gs : List (List α)) (a : α) (run : List α) :
    lastOk v ok d (gs ++ [a :: run]) = if ok (a :: run) then v a else lastOk v ok d gs := by
  unfold lastOk
  rw [List.filter_append]
  by_cases h : ok (a :: run) = true
  · rw [List.filter_cons_of_pos h, List.getLast?_append, if_pos h]
    rfl
  · rw [List.filter_cons_of_neg h, if_neg h, List.filter_nil, List.append_nil]

end Runs
