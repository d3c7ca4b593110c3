import Mathlib.Data.List.Induction
/-!
# Keyed — items that carry a key, of which the last counts

Each item of a list is read as a key and a value, or as nothing.  `last` is the value under a key: that of the last
item with the key.  It is what is left of a list that is taken into a map item by item (`view_foldlM`), and what an
upsert by primary key changes (`last_upsert`).
-/
namespace Keyed

variable {ρ κ ν ι σ : Type} [DecidableEq κ] (read : ρ → Option (κ × ν))

/-- The value of an item, if it has the key. -/
def entry (k : κ) (r : ρ) : Option ν := ((read r).filter (fun e => decide (e.1 = k))).map (·.2)

/-- The value of the last item with the key. -/
def last (k : κ) (rows : List ρ) : Option ν := rows.foldl (fun v r => (entry read k r).or v) none

variable {read} {k : κ} {r : ρ}

theorem entry_some {k' : κ} {v : ν} (h : read r = some (k', v)) : entry read k r = if k' = k then some v else none := by
  unfold entry
  rw [h]
  by_cases hk : k' = k
  · simp [hk]
  · simp [hk]

theorem entry_none (h : read r = none) : entry read k r = none := by
  unfold entry
  rw [h]
  rfl

@[simp] theorem last_nil : last read k [] = none := rfl

theorem last_snoc (rows : List ρ) (r : ρ) : last read k (rows ++ [r]) = (entry read k r).or (last read k rows) := by
  unfold last
  rw [List.foldl_append]
  rfl

theorem last_append (l : List ρ) : ∀ l' : List ρ, last read k (l ++ l') = (last read k l').or (last read k l) := by
  intro l'
  induction l' using List.reverseRecOn with
  | nil => rw [List.append_nil]; rfl
  | append_singleton l' r ih => rw [← List.append_assoc, last_snoc, last_snoc, ih, Option.or_assoc]

theorem last_cons (r : ρ) (rows : List ρ) : last read k (r :: rows) = (last read k rows).or (entry read k r) := by
  rw [← List.singleton_append, last_append, ← List.nil_append [r], last_snoc, last_nil, Option.or_none]

theorem exists_of_last {v : ν} : ∀ {rows : List ρ}, last read k rows = some v → ∃ r ∈ rows, read r = some (k, v)
  | [], h => nomatch h
  | r :: rows, h => by
    rw [last_cons] at h
    cases hl : last read k rows with
    | some v' =>
      rw [hl] at h
      cases h
      obtain ⟨r', hr', hread⟩ := exists_of_last hl
      exact ⟨r', List.mem_cons_of_mem r hr', hread⟩
    | none =>
      rw [hl, Option.none_or] at h
      obtain ⟨e, he, rfl⟩ := Option.map_eq_some_iff.1 h
      obtain ⟨hread, hk⟩ := Option.filter_eq_some_iff.1 he
      exact ⟨r, List.mem_cons_self, by rw [hread, ← of_decide_eq_true hk]⟩

theorem last_filter {p : ρ → Bool} : ∀ {rows : List ρ}, (∀ r ∈ rows, p r = false → entry read k r = none) →
    last read k (rows.filter p) = last read k rows
  | [], _ => rfl
  | r :: rows, h => by
    have ih := last_filter (fun r' hr' => h r' (List.mem_cons_of_mem r hr'))
    rw [List.filter_cons]
    split
    · rw [last_cons, last_cons, ih]
    · rename_i hp
      rw [ih, last_cons, h r List.mem_cons_self (by simpa using hp), Option.or_none]

/-- **An upsert by primary key**: the new item counts for the key it is read with. -/
theorem last_upsert [DecidableEq ι] {key : ρ → ι} {rows : List ρ} {row : ρ}
    (h : ∀ r ∈ rows, key r = key row → entry read k row = none → entry read k r = none) :
    last read k (rows.filter (fun r => decide (key r ≠ key row)) ++ [row]) =
      (entry read k row).or (last read k rows) := by
  rw [last_snoc]
  cases he : entry read k row with
  | some v => rfl
  | none =>
    rw [last_filter (fun r hr hp => h r hr (by simpa using hp) he)]

/-- **A map that takes in item after item** is left with the last of each key. -/
theorem view_foldlM (view : σ → Option ν) {f : σ → ρ → Option σ}
    (hf : ∀ s r s', f s r = some s' → view s' = (entry read k r).or (view s)) :
    ∀ {rows : List ρ} {s s' : σ}, rows.foldlM f s = some s' → view s' = (last read k rows).or (view s)
  | [], _, _, h => by cases h; rfl
  | r :: rows, s, s', h => by
    rw [List.foldlM_cons] at h
    obtain ⟨s₁, h₁, h⟩ := Option.bind_eq_some_iff.1 h
    rw [view_foldlM view hf h, hf s r s₁ h₁, last_cons, Option.or_assoc]

end Keyed
