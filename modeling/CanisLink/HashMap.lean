import Mathlib.Data.List.AList
/-!
# HashMap — key-value maps whose iteration order is unspecified

A `HashMap` is Mathlib's `AList`: at most one entry per key.  The order in which a hash map is iterated is not
specified, so it is an `IterOrder`, any function that rearranges a list of entries.
-/
namespace CanisLink

abbrev HashMap (K V : Type) := AList (fun _ : K => V)

/-- The order in which the entries of a map are visited. -/
structure IterOrder where
  visit : {α : Type} → List α → List α
  perm : ∀ {α : Type} (l : List α), (visit l).Perm l

/-- The entries as they are stored. -/
def IterOrder.stored : IterOrder := ⟨fun l => l, fun _ => .refl _⟩

theorem IterOrder.mem_visit (ord : IterOrder) {α : Type} {l : List α} {a : α} : a ∈ ord.visit l ↔ a ∈ l :=
  (ord.perm l).mem_iff

namespace HashMap

variable {K V : Type} [DecidableEq K]

/-- `map.values()`. -/
def values (ord : IterOrder) (m : HashMap K V) : List V := (ord.visit m.entries).map (·.2)

theorem mem_values {ord : IterOrder} {m : HashMap K V} {v : V} : v ∈ m.values ord ↔ ∃ k, m.lookup k = some v := by
  simp only [values, List.mem_map, ord.mem_visit]
  constructor
  · rintro ⟨⟨k, v'⟩, h, rfl⟩
    exact ⟨k, AList.mem_lookup_iff.2 h⟩
  · rintro ⟨k, h⟩
    exact ⟨⟨k, v⟩, AList.mem_lookup_iff.1 h, rfl⟩

theorem lookup_insert (k k' : K) (v : V) (m : HashMap K V) :
    AList.lookup k' (AList.insert k v m) = if k' = k then some v else AList.lookup k' m := by
  by_cases h : k' = k
  · subst h; simp [AList.lookup_insert]
  · simp [h, AList.lookup_insert_ne h]

theorem lookup_erase (k k' : K) (m : HashMap K V) :
    AList.lookup k' (AList.erase k m) = if k' = k then none else AList.lookup k' m := by
  by_cases h : k' = k
  · subst h; simp [AList.lookup_erase]
  · simp [h, AList.lookup_erase_ne h]

theorem lookup_insert_two {a b : K} {m : HashMap K V} (ha : a ∉ m) (hb : b ∉ m) (v v' : V) (k : K) :
    AList.lookup k ((m.insert a v).insert b v) = some v' ↔ m.lookup k = some v' ∨ (v' = v ∧ (a = k ∨ b = k)) := by
  rw [lookup_insert, lookup_insert]
  by_cases hk : k = b
  · rw [if_pos hk, hk, AList.lookup_eq_none.2 hb]
    simp [eq_comm]
  · rw [if_neg hk]
    by_cases hk' : k = a
    · rw [if_pos hk', hk', AList.lookup_eq_none.2 ha]
      simp [eq_comm]
    · rw [if_neg hk']
      simp [Ne.symm hk, Ne.symm hk']

theorem lookup_erase_two {a b : K} {m : HashMap K V} {v : V} (hkeys : ∀ k, m.lookup k = some v ↔ a = k ∨ b = k)
    (v' : V) (k : K) : AList.lookup k ((m.erase a).erase b) = some v' ↔ m.lookup k = some v' ∧ v' ≠ v := by
  rw [lookup_erase, lookup_erase]
  by_cases hv : a = k ∨ b = k
  · have hgone : (if k = b then none else if k = a then none else m.lookup k) = none := by
      rcases hv with rfl | rfl
      · rw [if_pos rfl]
        exact ite_self none
      · rw [if_pos rfl]
    rw [hgone, (hkeys k).2 hv]
    simp [eq_comm]
  · have hne : k ≠ b ∧ k ≠ a := ⟨fun h => hv (.inr h.symm), fun h => hv (.inl h.symm)⟩
    rw [if_neg hne.1, if_neg hne.2]
    refine ⟨fun hk => ⟨hk, ?_⟩, And.left⟩
    rintro rfl
    exact hv ((hkeys k).1 hk)

theorem perm_of_lookup_eq {m m' : HashMap K V} (h : ∀ k, m.lookup k = m'.lookup k) : m.entries.Perm m'.entries :=
  List.lookup_ext m.nodupKeys m'.nodupKeys (fun k v => by
    have hk : m.entries.dlookup k = m'.entries.dlookup k := h k
    rw [hk])

end HashMap
end CanisLink
