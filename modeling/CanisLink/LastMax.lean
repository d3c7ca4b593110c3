import Mathlib.Data.List.Induction
import Mathlib.Order.Lattice
/-!
# LastMax — the last item with the greatest key

`keep` is how a store takes items that carry a number: a new item replaces the old one unless its key is smaller.
`lastMax_eq_some_iff` says which item is left of a list: the last of those whose key is the greatest.
-/
namespace LastMax

variable {α κ : Type} [LinearOrder κ] (key : α → κ)

/-- Take a new item unless its key is smaller. -/
def keep (cur : Option α) (x : α) : Option α :=
  match cur with
  | some e => if key x < key e then some e else some x
  | none => some x

/-- The item left after the items of a list. -/
def lastMax (l : List α) : Option α := l.foldl (keep key) none

/-- `x` is the last of the items with the greatest key. -/
def IsLastMax (l : List α) (x : α) : Prop :=
  ∃ pre post, l = pre ++ x :: post ∧ (∀ y ∈ pre, key y ≤ key x) ∧ ∀ y ∈ post, key y < key x

variable {key} {l : List α} {x : α}

theorem lastMax_snoc (l : List α) (y : α) : lastMax key (l ++ [y]) = keep key (lastMax key l) y := by
  unfold lastMax
  rw [List.foldl_append]
  rfl

theorem exists_lastMax : ∀ {l : List α}, l ≠ [] → ∃ x, lastMax key l = some x := by
  intro l
  induction l using List.reverseRecOn with
  | nil => exact fun h => absurd rfl h
  | append_singleton l y ih =>
    intro _
    rw [lastMax_snoc]
    cases lastMax key l with
    | none => exact ⟨y, rfl⟩
    | some e =>
      unfold keep
      dsimp only
      split
      · exact ⟨e, rfl⟩
      · exact ⟨y, rfl⟩

theorem isLastMax_of_eq (h : lastMax key l = some x) : IsLastMax key l x := by
  induction l using List.reverseRecOn generalizing x with
  | nil => cases h
  | append_singleton l y ih =>
    rw [lastMax_snoc] at h
    cases hl : lastMax key l with
    | none =>
      rw [hl] at h
      cases h
      refine ⟨l, [], rfl, fun z hz => ?_, nofun⟩
      obtain ⟨w, hw⟩ : ∃ w, lastMax key l = some w := exists_lastMax (List.ne_nil_of_mem hz)
      rw [hl] at hw
      cases hw
    | some e =>
      rw [hl] at h
      obtain ⟨pre, post, rfl, hpre, hpost⟩ := ih hl
      unfold keep at h
      dsimp only at h
      split at h
      · rename_i hlt
        cases h
        refine ⟨pre, post ++ [y], by simp, hpre, fun z hz => ?_⟩
        rcases List.mem_append.1 hz with hz | hz
        · exact hpost z hz
        · rw [List.mem_singleton.1 hz]
          exact hlt
      · rename_i hge
        cases h
        have hle : key e ≤ key y := not_lt.1 hge
        refine ⟨pre ++ e :: post, [], rfl, fun z hz => ?_, nofun⟩
        rcases List.mem_append.1 hz with hz | hz
        · exact le_trans (hpre z hz) hle
        · rcases List.mem_cons.1 hz with rfl | hz
          · exact hle
          · exact le_trans (le_of_lt (hpost z hz)) hle

/-- Items with smaller keys change nothing. -/
theorem foldl_keep_of_lt : ∀ {post : List α}, (∀ y ∈ post, key y < key x) → post.foldl (keep key) (some x) = some x
  | [], _ => rfl
  | y :: post, h => by
    have hy : keep key (some x) y = some x := if_pos (h y List.mem_cons_self)
    rw [List.foldl_cons, hy]
    exact foldl_keep_of_lt (fun z hz => h z (List.mem_cons_of_mem y hz))

/-- **What is left of a list is the last of the items with the greatest key.** -/
theorem lastMax_eq_some_iff : lastMax key l = some x ↔ IsLastMax key l x := by
  refine ⟨isLastMax_of_eq, ?_⟩
  rintro ⟨pre, post, rfl, hpre, hpost⟩
  have hx : keep key (lastMax key pre) x = some x := by
    cases hl : lastMax key pre with
    | none => rfl
    | some e =>
      obtain ⟨pre', post', rfl, -, -⟩ := isLastMax_of_eq hl
      exact if_neg (not_lt.2 (hpre e (by simp)))
  unfold lastMax at hx ⊢
  rw [List.foldl_append, List.foldl_cons, hx]
  exact foldl_keep_of_lt hpost

/-! ## Items told apart by their keys -/

theorem IsLastMax.mem (h : IsLastMax key l x) : x ∈ l := by
  obtain ⟨pre, post, rfl, -, -⟩ := h
  simp

theorem IsLastMax.le (h : IsLastMax key l x) : ∀ y ∈ l, key y ≤ key x := by
  obtain ⟨pre, post, rfl, hpre, hpost⟩ := h
  intro y hy
  rcases List.mem_append.1 hy with hy | hy
  · exact hpre y hy
  · rcases List.mem_cons.1 hy with rfl | hy
    · exact le_refl _
    · exact le_of_lt (hpost y hy)

/-- **Where no two items share a key, order and repetitions do not matter.** -/
theorem isLastMax_iff (hinj : ∀ y ∈ l, ∀ z ∈ l, key y = key z → y = z) :
    IsLastMax key l x ↔ x ∈ l ∧ ∀ y ∈ l, key y ≤ key x := by
  refine ⟨fun h => ⟨h.mem, h.le⟩, ?_⟩
  rintro ⟨hx, hmax⟩
  obtain ⟨z, hz⟩ : ∃ z, lastMax key l = some z := exists_lastMax (List.ne_nil_of_mem hx)
  have hlast := isLastMax_of_eq hz
  have hkey : key x = key z := le_antisymm (hlast.le x hx) (hmax z hlast.mem)
  rw [hinj x hx z hlast.mem hkey]
  exact hlast

end LastMax
