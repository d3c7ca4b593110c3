import Mathlib.Data.List.Nodup
import Mathlib.Data.List.Perm.Subperm
/-!
# Custody — records that move between a table and the threads at work on them

A record is in one place at a time: in the table, or with one thread that is putting it in or taking it out.  `Kept`
says so of a table and the list of records the threads have.  An index over the records (`Exact`) has the entries of
those in the table and of those whose threads have entered them and not cleared them yet.  A record that is only moved
leaves the index exact.
-/
namespace Custody

variable {K V E : Type} {key : V → K} {main main' : K → Option V} {held held' flagged flagged' : List V}

/-- The table is keyed, and no two records, in the table or held, have the same key. -/
structure Kept (key : V → K) (main : K → Option V) (held : List V) : Prop where
  keyed : ∀ {k x}, main k = some x → key x = k
  sole : (held.map key).Nodup
  apart : ∀ {x}, x ∈ held → main (key x) = none

/-- The record is in the table or flagged. -/
def Listed (key : V → K) (main : K → Option V) (flagged : List V) (x : V) : Prop := main (key x) = some x ∨ x ∈ flagged

/-- The index has just the entries of the records that are listed. -/
def Exact (key : V → K) (need : V → E → Prop) (main : K → Option V) (flagged : List V) (aux : E → K → Prop) : Prop :=
  ∀ e k, aux e k ↔ ∃ x, Listed key main flagged x ∧ key x = k ∧ need x e

variable {need : V → E → Prop} {aux aux' : E → K → Prop} {x : V}

/-! ## The table -/

theorem Kept.subperm (h : Kept key main held) (hs : List.Subperm held' held) : Kept key main held' where
  keyed := h.keyed
  sole := by
    obtain ⟨l, hperm, hsub⟩ := hs
    exact (hperm.map key).nodup_iff.1 ((hsub.map key).nodup h.sole)
  apart hx := h.apart (hs.subset hx)

section

variable [DecidableEq K]

theorem Kept.deposit (h : Kept key main (x :: held)) (hm : ∀ k, main' k = if k = key x then some x else main k) :
    Kept key main' held where
  keyed {k y} hy := by
    rw [hm] at hy
    split at hy
    · rename_i hk
      cases hy
      exact hk.symm
    · exact h.keyed hy
  sole := (List.nodup_cons.1 h.sole).2
  apart {y} hy := by
    have hne : key y ≠ key x := fun he =>
      (List.nodup_cons.1 h.sole).1 (he ▸ List.mem_map_of_mem hy)
    rw [hm, if_neg hne]
    exact h.apart (List.mem_cons_of_mem x hy)

theorem Kept.withdraw (h : Kept key main held) (hx : main (key x) = some x)
    (hm : ∀ k, main' k = if k = key x then none else main k) : Kept key main' (x :: held) where
  keyed {k y} hy := by
    rw [hm] at hy
    split at hy
    · cases hy
    · exact h.keyed hy
  sole := by
    rw [List.map_cons, List.nodup_cons]
    refine ⟨fun hmem => ?_, h.sole⟩
    obtain ⟨y, hy, he⟩ := List.mem_map.1 hmem
    have := h.apart hy
    rw [he, hx] at this
    cases this
  apart {y} hy := by
    rw [hm]
    split
    · rfl
    · rename_i hne
      rcases List.mem_cons.1 hy with rfl | hy
      · exact absurd rfl hne
      · exact h.apart hy

theorem Kept.amend (h : Kept key main held) {k : K} {y : V} (hx : main k = some x) (hkey : key y = key x)
    (hm : ∀ k', main' k' = if k' = k then some y else main k') : Kept key main' held where
  keyed {k' z} hz := by
    rw [hm] at hz
    split at hz
    · rename_i hk
      cases hz
      rw [hkey, h.keyed hx, hk]
    · exact h.keyed hz
  sole := h.sole
  apart {z} hz := by
    have hne : key z ≠ k := by
      rintro rfl
      rw [h.apart hz] at hx
      cases hx
    rw [hm, if_neg hne]
    exact h.apart hz

end

theorem Kept.listed_inj (h : Kept key main held) (hf : flagged ⊆ held) {y : V} (hx : Listed key main flagged x)
    (hy : Listed key main flagged y) (he : key x = key y) : x = y := by
  rcases hx with hx | hx
  · rcases hy with hy | hy
    · rw [he, hy] at hx
      exact (Option.some.inj hx).symm
    · rw [he, h.apart (hf hy)] at hx
      cases hx
  · rcases hy with hy | hy
    · rw [← he, h.apart (hf hx)] at hy
      cases hy
    · exact List.inj_on_of_nodup_map h.sole (hf hx) (hf hy) he

/-! ## An index -/

theorem Exact.congr (h : Exact key need main flagged aux)
    (hl : ∀ x, Listed key main' flagged' x ↔ Listed key main flagged x) : Exact key need main' flagged' aux := by
  intro e k
  rw [h e k]
  simp only [hl]

theorem Exact.perm (h : Exact key need main flagged aux) (hp : flagged'.Perm flagged) :
    Exact key need main flagged' aux := h.congr (fun _ => or_congr_right hp.mem_iff)

theorem listed_deposit [DecidableEq K] (hx : main (key x) = none)
    (hm : ∀ k, main' k = if k = key x then some x else main k) (y : V) :
    Listed key main' flagged y ↔ Listed key main (x :: flagged) y := by
  unfold Listed
  rw [hm, List.mem_cons]
  by_cases hk : key y = key x
  · rw [if_pos hk, hk, hx]
    simp only [Option.some.injEq, reduceCtorEq, false_or, eq_comm]
  · have hne : y ≠ x := fun h => hk (congrArg key h)
    rw [if_neg hk]
    simp only [hne, false_or]

theorem Exact.deposit [DecidableEq K] (h : Exact key need main (x :: flagged) aux) (hx : main (key x) = none)
    (hm : ∀ k, main' k = if k = key x then some x else main k) : Exact key need main' flagged aux :=
  h.congr (listed_deposit hx hm)

theorem Exact.withdraw [DecidableEq K] (h : Exact key need main flagged aux) (hx : main (key x) = some x)
    (hm : ∀ k, main' k = if k = key x then none else main k) : Exact key need main' (x :: flagged) aux := by
  have hback : ∀ k, main k = if k = key x then some x else main' k := by
    intro k
    rw [hm]
    split
    · rename_i hk
      rw [hk, hx]
    · rfl
  have hnone : main' (key x) = none := by rw [hm, if_pos rfl]
  exact h.congr (fun y => (listed_deposit hnone hback y).symm)

theorem Exact.amend [DecidableEq K] (hk : Kept key main held) (h : Exact key need main flagged aux)
    (hf : flagged ⊆ held) {y : V} (hx : main (key x) = some x) (hkey : key y = key x)
    (hneed : ∀ e, need y e ↔ need x e) (hm : ∀ k, main' k = if k = key x then some y else main k) :
    Exact key need main' flagged aux := by
  intro e k
  rw [h e k]
  have hother : ∀ z, key z ≠ key x → (Listed key main' flagged z ↔ Listed key main flagged z) := by
    intro z hz
    unfold Listed
    rw [hm, if_neg hz]
  have hsole : ∀ z, key z = key x → (Listed key main flagged z ↔ z = x) := by
    intro z hz
    exact ⟨fun hl => hk.listed_inj hf hl (.inl hx) hz, fun he => .inl (he ▸ hx)⟩
  have hsole' : ∀ z, key z = key x → (Listed key main' flagged z ↔ z = y) := by
    intro z hz
    unfold Listed
    rw [hm, if_pos hz]
    refine ⟨?_, fun he => .inl (congrArg some he.symm)⟩
    rintro (he | hmem)
    · exact (Option.some.inj he).symm
    · have := hk.apart (hf hmem)
      rw [hz, hx] at this
      cases this
  constructor
  · rintro ⟨z, hz, rfl, hn⟩
    by_cases hkz : key z = key x
    · obtain rfl := (hsole z hkz).1 hz
      exact ⟨y, (hsole' y hkey).2 rfl, hkey, (hneed e).2 hn⟩
    · exact ⟨z, (hother z hkz).2 hz, rfl, hn⟩
  · rintro ⟨z, hz, rfl, hn⟩
    by_cases hkz : key z = key x
    · obtain rfl := (hsole' z hkz).1 hz
      exact ⟨x, .inl hx, hkz.symm, (hneed e).1 hn⟩
    · exact ⟨z, (hother z hkz).1 hz, rfl, hn⟩

theorem Exact.enter (h : Exact key need main flagged aux)
    (haux : ∀ e k, aux' e k ↔ aux e k ∨ (k = key x ∧ need x e)) : Exact key need main (x :: flagged) aux' := by
  intro e k
  rw [haux, h e k]
  constructor
  · rintro (⟨y, hy, hky, hn⟩ | ⟨rfl, hn⟩)
    · exact ⟨y, hy.imp_right (List.mem_cons_of_mem x), hky, hn⟩
    · exact ⟨x, .inr List.mem_cons_self, rfl, hn⟩
  · rintro ⟨y, hy, hky, hn⟩
    rcases hy with hy | hy
    · exact .inl ⟨y, .inl hy, hky, hn⟩
    · rcases List.mem_cons.1 hy with rfl | hy
      · exact .inr ⟨hky.symm, hn⟩
      · exact .inl ⟨y, .inr hy, hky, hn⟩

theorem Exact.leave (hk : Kept key main held) (hf : List.Subperm (x :: flagged) held)
    (h : Exact key need main (x :: flagged) aux) (haux : ∀ e k, aux' e k ↔ aux e k ∧ k ≠ key x) :
    Exact key need main flagged aux' := by
  have hsole : key x ∉ flagged.map key := (List.nodup_cons.1 (hk.subperm hf).sole).1
  intro e k
  rw [haux, h e k]
  constructor
  · rintro ⟨⟨y, hy, rfl, hn⟩, hne⟩
    rcases hy with hy | hy
    · exact ⟨y, .inl hy, rfl, hn⟩
    · rcases List.mem_cons.1 hy with rfl | hy
      · exact absurd rfl hne
      · exact ⟨y, .inr hy, rfl, hn⟩
  · rintro ⟨y, hy, rfl, hn⟩
    refine ⟨⟨y, hy.imp_right (List.mem_cons_of_mem x), rfl, hn⟩, fun he => ?_⟩
    rcases hy with hy | hy
    · rw [he, hk.apart (hf.subset List.mem_cons_self)] at hy
      cases hy
    · exact hsole (he ▸ List.mem_map_of_mem hy)

/-- The entries of a flagged record, where an entry leads to one key. -/
theorem Exact.entries (hk : Kept key main held) (hf : flagged ⊆ held) (h : Exact key need main flagged aux)
    (hx : x ∈ flagged) (e : E) : aux e (key x) ↔ need x e := by
  rw [h e (key x)]
  constructor
  · rintro ⟨y, hy, hky, hn⟩
    obtain rfl := hk.listed_inj hf hy (.inr hx) hky
    exact hn
  · exact fun hn => ⟨x, .inr hx, rfl, hn⟩

theorem Exact.stored (h : Exact key need main flagged aux) (hk : Kept key main held) {k : K} {e : E}
    (hx : main k = some x) (hn : need x e) : aux e k :=
  (h e k).2 ⟨x, .inl (hk.keyed hx ▸ hx), hk.keyed hx, hn⟩

/-- A record that a thread has left with no entries has none. -/
theorem Exact.cleared {left : List V} (hk : Kept key main held) (hs : List.Subperm (flagged ++ left) held)
    (h : Exact key need main flagged aux) (hx : x ∈ left) (e : E) : ¬ aux e (key x) := by
  have hsole := (hk.subperm hs).sole
  rw [List.map_append, List.nodup_append] at hsole
  have happart := hk.apart (hs.subset (List.mem_append_right flagged hx))
  intro he
  obtain ⟨y, hy | hy, hky, -⟩ := (h e (key x)).1 he
  · rw [hky, happart] at hy
    cases hy
  · exact hsole.2.2 _ (List.mem_map_of_mem hy) _ (List.mem_map_of_mem hx) hky

/-- With nothing flagged the index is the table's own. -/
theorem Exact.settled (hk : Kept key main held) (h : Exact key need main [] aux) (e : E) (k : K) :
    aux e k ↔ ∃ x, main k = some x ∧ need x e := by
  refine (h e k).trans (exists_congr (fun x => ?_))
  constructor
  · rintro ⟨hx | hx, rfl, hn⟩
    · exact ⟨hx, hn⟩
    · cases hx
  · rintro ⟨hx, hn⟩
    obtain rfl := hk.keyed hx
    exact ⟨.inl hx, rfl, hn⟩

/-- A table that its index matches is one nobody is at work on. -/
theorem exact_settled (hkeyed : ∀ {k x}, main k = some x → key x = k)
    (h : ∀ e k, aux e k ↔ ∃ x, main k = some x ∧ need x e) : Exact key need main [] aux := by
  intro e k
  refine (h e k).trans (exists_congr (fun x => ?_))
  constructor
  · rintro ⟨hx, hn⟩
    obtain rfl := hkeyed hx
    exact ⟨.inl hx, rfl, hn⟩
  · rintro ⟨hx | hx, rfl, hn⟩
    · exact ⟨hx, hn⟩
    · cases hx

/-! ## What the threads have between them -/

section

variable {P : Type} {f g : P → List V}

theorem flatMap_subperm (h : ∀ pt, List.Subperm (f pt) (g pt)) : ∀ pts : List P,
    List.Subperm (pts.flatMap f) (pts.flatMap g)
  | [] => List.Subperm.refl _
  | pt :: pts => (h pt).append (flatMap_subperm h pts)

/-- Threads that have not begun have what they were given. -/
theorem flatMap_begun {C : Type} {start : C → P} {given : C → List V} (h : ∀ c, f (start c) = given c) (cs : List C) :
    (cs.map start).flatMap f = cs.flatMap given := by
  rw [List.flatMap_map]
  exact congrArg (fun g => cs.flatMap g) (funext h)

theorem flatMap_begun_nil {C : Type} {W : Type} {start : C → P} {f : P → List W} (h : ∀ c, f (start c) = [])
    (cs : List C) : (cs.map start).flatMap f = [] := by
  rw [List.flatMap_map, List.flatMap_eq_nil_iff]
  exact fun c _ => h c

end

end Custody
