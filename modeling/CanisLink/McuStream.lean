import CanisLink.Mcu
/-!
# McuStream — what a decoder does with a whole byte stream

`tryPop_cases` says once what one pop can do.  From it `tryPop` is incremental in the sense of `Chunk`, so the decoder
gives the same frames and the same rest for every chunking exactly of the streams it drains to rest; `Intact` says
which streams those are without running the decoder.
-/
namespace CanisLink
namespace FrameDecoder

open Chunk (Incremental Rests drain feed)

/-! ## The magic -/

/-- What `findMagic` leaves: fewer than two bytes, or bytes that start with the magic. -/
theorem findMagic_found : ∀ x : List UInt8, (findMagic x).length < 2 ∨ ∃ r, findMagic x = MAGIC0 :: MAGIC1 :: r
  | [] => .inl (by simp [findMagic])
  | [_] => .inl (by simp [findMagic])
  | a :: b :: r => by
    by_cases h : a = MAGIC0 ∧ b = MAGIC1
    · obtain ⟨rfl, rfl⟩ := h
      exact .inr ⟨r, findMagic_magic r⟩
    · rw [findMagic_skip h]
      exact findMagic_found (b :: r)

theorem findMagic_of_short {x : List UInt8} (h : x.length < 2) : findMagic x = x := by
  match x, h with
  | [], _ => rfl
  | [_], _ => rfl

theorem findMagic_findMagic (x : List UInt8) : findMagic (findMagic x) = findMagic x := by
  rcases findMagic_found x with h | ⟨r, h⟩
  · exact findMagic_of_short h
  · rw [h, findMagic_magic]

theorem findMagic_append : ∀ x z : List UInt8, findMagic (x ++ z) = findMagic (findMagic x ++ z)
  | [], _ => rfl
  | [_], _ => rfl
  | a :: b :: r, z => by
    by_cases h : a = MAGIC0 ∧ b = MAGIC1
    · obtain ⟨rfl, rfl⟩ := h
      rw [findMagic_magic]
    · rw [findMagic_skip h, List.cons_append, List.cons_append, findMagic_skip h]
      exact findMagic_append (b :: r) z

theorem length_findMagic_le : ∀ x : List UInt8, (findMagic x).length ≤ x.length
  | [] => Nat.le_refl _
  | [_] => Nat.le_refl _
  | a :: b :: r => by
    by_cases h : a = MAGIC0 ∧ b = MAGIC1
    · obtain ⟨rfl, rfl⟩ := h
      exact Nat.le_of_eq (congrArg List.length (findMagic_magic r))
    · rw [findMagic_skip h]
      exact Nat.le_succ_of_le (length_findMagic_le (b :: r))

/-- No magic pair starts within `g` when `r` follows it. -/
def Noise (g r : List UInt8) : Prop := ∀ i < g.length, ¬ [MAGIC0, MAGIC1] <+: (g ++ r).drop i

theorem Noise.tail {a : UInt8} {g r : List UInt8} (h : Noise (a :: g) r) : Noise g r := fun i hi => by
  have := h (i + 1) (by simpa using hi)
  simpa using this

theorem Noise.cons {a b : UInt8} {g r t : List UInt8} (he : g ++ r = b :: t) (hab : ¬ (a = MAGIC0 ∧ b = MAGIC1))
    (h : Noise g r) : Noise (a :: g) r := by
  intro i hi hp
  cases i with
  | zero =>
    rw [List.cons_append, List.drop_zero, he] at hp
    obtain ⟨t', ht⟩ := hp
    simp only [List.cons_append, List.nil_append, List.cons.injEq] at ht
    exact hab ⟨ht.1.symm, ht.2.1.symm⟩
  | succ i =>
    rw [List.cons_append, List.drop_succ_cons] at hp
    exact h i (by simpa using hi) hp

theorem findMagic_noise : ∀ g r : List UInt8, Noise g (MAGIC0 :: r) →
    findMagic (g ++ MAGIC0 :: r) = findMagic (MAGIC0 :: r)
  | [], _, _ => rfl
  | a :: g, r, h => by
    have hne : ∃ b t, g ++ MAGIC0 :: r = b :: t := by
      cases g with
      | nil => exact ⟨_, _, rfl⟩
      | cons b g => exact ⟨b, _, rfl⟩
    obtain ⟨b, t, hbt⟩ := hne
    have hab : ¬ (a = MAGIC0 ∧ b = MAGIC1) := by
      rintro ⟨rfl, rfl⟩
      refine h 0 (by simp) ⟨t, ?_⟩
      show MAGIC0 :: MAGIC1 :: t = MAGIC0 :: (g ++ MAGIC0 :: r)
      rw [hbt]
    rw [List.cons_append, hbt, findMagic_skip hab, ← hbt]
    exact findMagic_noise g r h.tail

theorem findMagic_split : ∀ x : List UInt8, ∃ g, x = g ++ findMagic x ∧ Noise g (findMagic x)
  | [] => ⟨[], rfl, fun i hi => absurd hi (by simp)⟩
  | [_] => ⟨[], rfl, fun i hi => absurd hi (by simp)⟩
  | a :: b :: r => by
    by_cases h : a = MAGIC0 ∧ b = MAGIC1
    · obtain ⟨rfl, rfl⟩ := h
      exact ⟨[], by rw [findMagic_magic]; rfl, fun i hi => absurd hi (by simp)⟩
    · obtain ⟨g, hg, hn⟩ := findMagic_split (b :: r)
      rw [findMagic_skip h]
      exact ⟨a :: g, by rw [List.cons_append, ← hg], Noise.cons hg.symm h hn⟩

/-! ## One pop -/

/-- The bytes after a magic pair do not make up type, length, payload and checksum yet. -/
def Incomplete (r : List UInt8) : Prop := r.length < 3 ∨ r.length < 3 + (r.getD 1 0).toNat

/-- A whole candidate frame: its bytes after the magic are type, length, payload, checksum. -/
structure Whole (r : List UInt8) (ty len : UInt8) (payload : List UInt8) (c : UInt8) (z : List UInt8) : Prop where
  eq : r = ty :: len :: (payload ++ c :: z)
  length : payload.length = len.toNat

theorem incomplete_or_whole (r : List UInt8) : Incomplete r ∨ ∃ ty len payload c z, Whole r ty len payload c z := by
  by_cases h : Incomplete r
  · exact .inl h
  · unfold Incomplete at h
    right
    match r, h with
    | [], h => simp at h
    | [_], h => simp at h
    | ty :: len :: t, h =>
      simp only [List.length_cons, List.getD_cons_succ, List.getD_cons_zero, not_or, Nat.not_lt] at h
      have hlt : len.toNat < t.length := by omega
      refine ⟨ty, len, t.take len.toNat, t[len.toNat], t.drop (len.toNat + 1), ?_, ?_⟩
      · rw [← List.drop_eq_getElem_cons hlt, List.take_append_drop]
      · rw [List.length_take]; omega

theorem tryPop_short {x : List UInt8} (h : (findMagic x).length < 2) : tryPop x = (none, findMagic x) := by
  unfold tryPop
  simp only
  rw [if_pos (by omega)]

theorem tryPop_incomplete {x r : List UInt8} (hx : findMagic x = MAGIC0 :: MAGIC1 :: r) (h : Incomplete r) :
    tryPop x = (none, MAGIC0 :: MAGIC1 :: r) := by
  unfold tryPop
  simp only [hx, List.length_cons, List.getD_cons_succ]
  unfold Incomplete at h
  by_cases h5 : r.length + 1 + 1 < 5
  · rw [if_pos h5]
  · rw [if_neg h5, if_pos (by omega)]

theorem tryPop_whole {x r : List UInt8} {ty len : UInt8} {payload : List UInt8} {c : UInt8} {z : List UInt8}
    (hx : findMagic x = MAGIC0 :: MAGIC1 :: r) (h : Whole r ty len payload c z) :
    tryPop x =
      if c ≠ checksum (ty :: len :: payload) then (none, MAGIC1 :: r)
      else match MsgType.fromU8 ty with
        | none => (none, MAGIC0 :: MAGIC1 :: r)
        | some msg => (some { msg, payload }, z) := by
  have hl := h.length
  unfold tryPop
  simp only [hx, h.eq, List.length_cons, List.getD_cons_succ, List.getD_cons_zero, List.length_append]
  rw [if_neg (by omega), if_neg (by omega)]
  have hc : (payload ++ c :: z).getD len.toNat 0 = c := by
    rw [List.getD_eq_getElem?_getD, List.getElem?_append_right (by omega), hl, Nat.sub_self]
    rfl
  have hp : (payload ++ c :: z).take len.toNat = payload := by rw [← hl, List.take_left]
  have hd : (payload ++ c :: z).drop (1 + len.toNat) = z := by
    rw [← hl, Nat.add_comm, ← List.drop_drop, List.drop_left]
    rfl
  have e4 : 4 + len.toNat = len.toNat + 1 + 1 + 1 + 1 := by omega
  have e5 : 5 + len.toNat = (1 + len.toNat) + 1 + 1 + 1 + 1 := by omega
  cases MsgType.fromU8 ty <;>
    simp only [e4, e5, List.getD_cons_succ, List.take_succ_cons, List.drop_succ_cons, List.drop_zero, hc, hp, hd]

/-- **What one pop can do**: wait for more bytes, drop the first byte of a candidate with a wrong checksum, stop at a
frame of unknown type, or take a frame. -/
theorem tryPop_cases (x : List UInt8) :
    ((findMagic x).length < 2 ∧ tryPop x = (none, findMagic x)) ∨
    ∃ r, findMagic x = MAGIC0 :: MAGIC1 :: r ∧
      ((Incomplete r ∧ tryPop x = (none, findMagic x)) ∨
      ∃ ty len payload c z, Whole r ty len payload c z ∧
        ((c ≠ checksum (ty :: len :: payload) ∧ tryPop x = (none, MAGIC1 :: r)) ∨
        (c = checksum (ty :: len :: payload) ∧
          ((MsgType.fromU8 ty = none ∧ tryPop x = (none, findMagic x)) ∨
          ∃ msg, MsgType.fromU8 ty = some msg ∧ tryPop x = (some { msg, payload }, z))))) := by
  rcases findMagic_found x with h | ⟨r, hr⟩
  · exact .inl ⟨h, tryPop_short h⟩
  · refine .inr ⟨r, hr, ?_⟩
    rcases incomplete_or_whole r with hi | ⟨ty, len, payload, c, z, hw⟩
    · exact .inl ⟨hi, by rw [hr]; exact tryPop_incomplete hr hi⟩
    · refine .inr ⟨ty, len, payload, c, z, hw, ?_⟩
      have hpop := tryPop_whole hr hw
      by_cases hc : c = checksum (ty :: len :: payload)
      · rw [if_neg (fun hn => hn hc)] at hpop
        refine .inr ⟨hc, ?_⟩
        cases hm : MsgType.fromU8 ty with
        | none => rw [hm] at hpop; exact .inl ⟨rfl, by rw [hr]; exact hpop⟩
        | some msg => rw [hm] at hpop; exact .inr ⟨msg, rfl, hpop⟩
      · rw [if_pos hc] at hpop
        exact .inl ⟨hc, hpop⟩

theorem tryPop_findMagic (x : List UInt8) : tryPop (findMagic x) = tryPop x := by
  unfold tryPop
  rw [findMagic_findMagic]

theorem Whole.append {r : List UInt8} {ty len : UInt8} {payload : List UInt8} {c : UInt8} {z : List UInt8}
    (h : Whole r ty len payload c z) (w : List UInt8) : Whole (r ++ w) ty len payload c (z ++ w) :=
  ⟨by rw [h.eq]; simp, h.length⟩

theorem findMagic_append_of_found {x r : List UInt8} (h : findMagic x = MAGIC0 :: MAGIC1 :: r) (w : List UInt8) :
    findMagic (x ++ w) = MAGIC0 :: MAGIC1 :: (r ++ w) := by
  rw [findMagic_append, h]
  exact findMagic_magic _

/-- After a byte of a candidate is dropped, the next pop drops at least one more. -/
theorem resync_not_rests (r : List UInt8) (hr : r ≠ []) : tryPop (MAGIC1 :: r) ≠ (none, MAGIC1 :: r) := by
  obtain ⟨b, t, rfl⟩ := List.exists_cons_of_ne_nil hr
  have hlen : (findMagic (MAGIC1 :: b :: t)).length < (MAGIC1 :: b :: t).length := by
    rw [findMagic_skip (by rintro ⟨h, -⟩; exact absurd h (by decide))]
    exact Nat.lt_succ_of_le (length_findMagic_le _)
  have hle : ∀ y, tryPop (MAGIC1 :: b :: t) = (none, y) → y.length < (MAGIC1 :: b :: t).length := by
    intro y hy
    rcases tryPop_cases (MAGIC1 :: b :: t) with ⟨-, h⟩ | ⟨r', hr', h⟩
    · rw [h] at hy; cases hy; exact hlen
    · have hl := hlen
      rw [hr'] at hl
      simp only [List.length_cons] at hl ⊢
      rcases h with ⟨-, h⟩ | ⟨ty, len, payload, c, z, hw, ⟨-, h⟩ | ⟨-, ⟨-, h⟩ | ⟨msg, -, h⟩⟩⟩
      · rw [h] at hy; cases hy; rw [hr']; simp only [List.length_cons]; omega
      · rw [h] at hy; cases hy; simp only [List.length_cons]; omega
      · rw [h] at hy; cases hy; rw [hr']; simp only [List.length_cons]; omega
      · rw [h] at hy; cases hy
  intro hn
  exact absurd (hle _ hn) (by omega)

/-- **The frame decoder is incremental.** -/
theorem incremental : Incremental tryPop where
  shorter := by
    intro x f y hx
    have hle := length_findMagic_le x
    rcases tryPop_cases x with
      ⟨-, h⟩ | ⟨r, hr, ⟨-, h⟩ | ⟨ty, len, payload, c, z, hw, ⟨-, h⟩ | ⟨-, ⟨-, h⟩ | ⟨msg, -, h⟩⟩⟩⟩
    all_goals rw [h] at hx; cases hx
    rw [hr, hw.eq] at hle
    simp only [List.length_cons, List.length_append] at hle
    omega
  some_append := by
    intro x f y hx w
    rcases tryPop_cases x with
      ⟨-, h⟩ | ⟨r, hr, ⟨-, h⟩ | ⟨ty, len, payload, c, z, hw, ⟨-, h⟩ | ⟨hc, ⟨-, h⟩ | ⟨msg, hm, h⟩⟩⟩⟩
    all_goals rw [h] at hx; cases hx
    rw [tryPop_whole (findMagic_append_of_found hr w) (hw.append w), if_neg (fun hn => hn hc), hm]
  rest_append := by
    intro x y hx hy w
    have hxy : findMagic x = y := by
      rcases tryPop_cases x with
        ⟨-, h⟩ | ⟨r, hr, ⟨-, h⟩ | ⟨ty, len, payload, c, z, hw, ⟨-, h⟩ | ⟨hc, ⟨-, h⟩ | ⟨msg, hm, h⟩⟩⟩⟩
      · rw [h] at hx; cases hx; rfl
      · rw [h] at hx; cases hx; rfl
      · rw [h] at hx; cases hx
        exact absurd hy (resync_not_rests r (by rw [hw.eq]; simp))
      · rw [h] at hx; cases hx; rfl
      · rw [h] at hx; cases hx
    rw [← tryPop_findMagic, findMagic_append, hxy, tryPop_findMagic]
  trim_append := by
    intro x y hx hy w
    have hself : ∀ {y}, y = findMagic x → tryPop x = (none, y) → tryPop y = (none, y) := fun he h => by
      rw [he, tryPop_findMagic, ← he, h]
    rcases tryPop_cases x with
      ⟨-, h⟩ | ⟨r, hr, ⟨-, h⟩ | ⟨ty, len, payload, c, z, hw, ⟨hc, h⟩ | ⟨hc, ⟨-, h⟩ | ⟨msg, hm, h⟩⟩⟩⟩
    · rw [h] at hx; cases hx; exact absurd (hself rfl h) hy
    · rw [h] at hx; cases hx; exact absurd (hself rfl h) hy
    · rw [h] at hx; cases hx
      refine ⟨?_, resync_not_rests (r ++ w) (by rw [hw.eq]; simp)⟩
      rw [tryPop_whole (findMagic_append_of_found hr w) (hw.append w), if_pos hc]
      rfl
    · rw [h] at hx; cases hx; exact absurd (hself rfl h) hy
    · rw [h] at hx; cases hx

theorem rests_nil : Rests tryPop [] := rfl

/-- A stream that is drained to rest gives, however pushed, what it gives whole. -/
theorem pushAll_eq_drain {cs : List (List UInt8)} (h : Rests tryPop (drain tryPop cs.flatten).2) :
    pushAll [] cs = drain tryPop cs.flatten := Chunk.feed_eq_drain incremental cs [] rests_nil h

end FrameDecoder
end CanisLink
