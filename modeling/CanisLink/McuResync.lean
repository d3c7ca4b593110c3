import CanisLink.McuLink
/-!
# McuResync — noise before the frames, and one corrupted byte among them

Encoded frames come out as they went in, behind any bytes without a magic pair.  A single changed byte always breaks the
checksum; `tryPop` then drops one byte and returns none, which ends the loop of `push`, so what follows a corrupted
frame stays in the buffer.
-/
namespace CanisLink
namespace FrameDecoder

open Chunk (Rests drain feed)

/-- The frames as they are written, one after another. -/
def encoded (fs : List Frame) : List UInt8 := (fs.map (fun f => encode f.msg f.payload)).flatten

theorem encoded_cons (f : Frame) (fs : List Frame) : encoded (f :: fs) = encode f.msg f.payload ++ encoded fs := rfl

/-! ## Noise -/

/-- The first byte of a frame completes no magic pair. -/
theorem Noise.before_magic {g : List UInt8} (h : ¬ [MAGIC0, MAGIC1] <:+: g) (r : List UInt8) :
    Noise g (MAGIC0 :: r) := by
  rintro i hi ⟨t, ht⟩
  have hdrop : (g ++ MAGIC0 :: r).drop i = g.drop i ++ MAGIC0 :: r := List.drop_append_of_le_length (Nat.le_of_lt hi)
  rw [hdrop] at ht
  cases hg : g.drop i with
  | nil => exact absurd (List.drop_eq_nil_iff.1 hg) (Nat.not_le_of_lt hi)
  | cons a rest =>
    rw [hg] at ht
    cases rest with
    | nil =>
      injection ht with _ ht
      injection ht with hpair _
      exact absurd hpair (by decide)
    | cons b rest =>
      injection ht with ha ht
      injection ht with hb _
      refine h ⟨g.take i, rest, ?_⟩
      rw [ha, hb, List.append_assoc]
      exact (congrArg (g.take i ++ ·) hg.symm).trans (List.take_append_drop i g)

theorem Noise.of_not_infix {g : List UInt8} (h : ¬ [MAGIC0, MAGIC1] <:+: g) : Noise g [] := by
  intro i _ hp
  rw [List.append_nil] at hp
  exact h (hp.isInfix.trans (List.drop_suffix i g).isInfix)

/-- One pop of a stream that starts, after noise, with an encoded frame. -/
theorem tryPop_encode {f : Frame} (hf : f.payload.length ≤ 255) {g : List UInt8} (hg : ¬ [MAGIC0, MAGIC1] <:+: g)
    (z : List UInt8) : tryPop (g ++ (encode f.msg f.payload ++ z)) = (some f, z) := by
  rw [encode_eq f.msg f.payload hf]
  have hp := tryPop_wire (z := z) ⟨f.msg.code, f.payload, hf⟩ (Noise.before_magic hg _)
  rw [MsgType.fromU8_code] at hp
  exact hp

/-- **Draining takes every encoded frame off the front.** -/
theorem drain_encoded : ∀ {fs : List Frame}, (∀ f ∈ fs, f.payload.length ≤ 255) → ∀ z : List UInt8,
    drain tryPop (encoded fs ++ z) = (fs ++ (drain tryPop z).1, (drain tryPop z).2)
  | [], _, _ => rfl
  | f :: fs, h, z => by
    have hp := tryPop_encode (h f List.mem_cons_self) (g := []) (by decide) (encoded fs ++ z)
    rw [List.nil_append] at hp
    rw [encoded_cons, List.append_assoc, Chunk.drain_some incremental hp,
      drain_encoded (fun f' hf' => h f' (List.mem_cons_of_mem f hf')) z]
    rfl

/-- However pushed, encoded frames come out to the last. -/
theorem pushAll_of_encoded {fs : List Frame} (h : ∀ f ∈ fs, f.payload.length ≤ 255) {cs : List (List UInt8)}
    (hcs : cs.flatten = encoded fs) : pushAll [] cs = (fs, []) := by
  have hdrain := drain_encoded h []
  rw [List.append_nil, Chunk.drain_of_rests rests_nil, List.append_nil] at hdrain
  rw [pushAll_eq_drain (by rw [hcs, hdrain]; exact rests_nil), hcs, hdrain]

theorem drain_noise {g : List UInt8} (hg : ¬ [MAGIC0, MAGIC1] <:+: g) : drain tryPop g = ([], findMagic g) :=
  Chunk.drain_none (tryPop_short ((noise_nil_iff g).1 (Noise.of_not_infix hg)))

/-- **Decoding undoes encoding**, behind any bytes without a magic pair and however the stream is chunked. -/
theorem pushAll_encoded (g : List UInt8) (hg : ¬ [MAGIC0, MAGIC1] <:+: g) (fs : List Frame)
    (hfs : ∀ f ∈ fs, f.payload.length ≤ 255) (cs : List (List UInt8)) (hcs : cs.flatten = g ++ encoded fs) :
    (pushAll [] cs).1 = fs ∧ (fs ≠ [] → (pushAll [] cs).2 = []) := by
  have hdrain : drain tryPop (g ++ encoded fs) = (fs, if fs = [] then findMagic g else []) := by
    cases fs with
    | nil =>
      have hnil : g ++ encoded [] = g := List.append_nil g
      rw [hnil, drain_noise hg, if_pos rfl]
    | cons f fs =>
      have hp := tryPop_encode (hfs f List.mem_cons_self) hg (encoded fs)
      have hrest := drain_encoded (fun f' hf' => hfs f' (List.mem_cons_of_mem f hf')) []
      rw [List.append_nil, Chunk.drain_of_rests rests_nil, List.append_nil] at hrest
      rw [encoded_cons, Chunk.drain_some incremental hp, hrest, if_neg (List.cons_ne_nil f fs)]
  have hrests : Rests tryPop (drain tryPop cs.flatten).2 := by
    rw [hcs]
    cases fs with
    | nil =>
      have hnil : g ++ encoded [] = g := List.append_nil g
      rw [hnil]
      exact (Intact.quiet (Noise.of_not_infix hg)).rests
    | cons f fs =>
      rw [hdrain, if_neg (List.cons_ne_nil f fs)]
      exact rests_nil
  rw [pushAll_eq_drain hrests, hcs, hdrain]
  exact ⟨rfl, fun hne => if_neg hne⟩

/-- Half a magic pair before a frame whose payload is a magic pair, cut inside the magic. -/
theorem pushAll_encoded_led : (pushAll [] [[0xCA, 0xCA], [0x15, 0x10, 0x02, 0xCA], [0x15, 0xCD]]).1 =
    [⟨.led, [0xCA, 0x15]⟩] :=
  (pushAll_encoded [0xCA] (by decide) [⟨.led, [0xCA, 0x15]⟩] (by decide) _ (by decide)).1

/-! ## One corrupted byte -/

theorem foldl_xor (a : UInt8) : ∀ (bytes : List UInt8) (c : UInt8),
    bytes.foldl (fun a b => a ^^^ b) (a ^^^ c) = a ^^^ bytes.foldl (fun a b => a ^^^ b) c
  | [], _ => rfl
  | b :: bytes, c => by
    rw [List.foldl_cons, List.foldl_cons, UInt8.xor_assoc]
    exact foldl_xor a bytes (c ^^^ b)

theorem checksum_cons (b : UInt8) (bytes : List UInt8) : checksum (b :: bytes) = b ^^^ checksum bytes := by
  unfold checksum
  rw [List.foldl_cons, UInt8.xor_comm]
  exact foldl_xor b bytes 0

/-- A frame is right if everything after its magic, the checksum with it, adds up to zero. -/
theorem checksum_snoc_eq_zero (bytes : List UInt8) (c : UInt8) : checksum (bytes ++ [c]) = 0 ↔ c = checksum bytes := by
  have hsnoc : checksum (bytes ++ [c]) = checksum bytes ^^^ c := by
    unfold checksum
    rw [List.foldl_append]
    rfl
  rw [hsnoc, UInt8.xor_eq_zero_iff]
  exact eq_comm

/-- **A changed byte changes the checksum**, wherever it is. -/
theorem checksum_set {b : UInt8} : ∀ {bytes : List UInt8} {i : Nat}, i < bytes.length → bytes[i]? ≠ some b →
    checksum (bytes.set i b) ≠ checksum bytes
  | [], i, hi, _ => absurd hi (Nat.not_lt_zero i)
  | a :: bytes, 0, _, hne => by
    rw [List.set_cons_zero, checksum_cons, checksum_cons]
    intro h
    exact hne (congrArg some ((UInt8.xor_left_inj _).1 h).symm)
  | a :: bytes, i + 1, hi, hne => by
    rw [List.set_cons_succ, checksum_cons, checksum_cons]
    intro h
    exact checksum_set (Nat.lt_of_succ_lt_succ hi) hne ((UInt8.xor_right_inj _).1 h)

/-- One byte of a frame is changed: its type, a payload byte or its checksum. -/
def Corrupted (w c : List UInt8) : Prop :=
  ∃ i b, (i = 2 ∨ 4 ≤ i) ∧ i < w.length ∧ w[i]? ≠ some b ∧ c = w.set i b

/-- A corrupted frame is a frame of the same length with a wrong checksum. -/
theorem Corrupted.whole {f : WireFrame} {c : List UInt8} (h : Corrupted f.bytes c) (z : List UInt8) :
    ∃ r ty payload sum, c ++ z = MAGIC0 :: MAGIC1 :: r ∧
      Whole r ty (UInt8.ofNat f.payload.length) payload sum z ∧
      sum ≠ checksum (ty :: UInt8.ofNat f.payload.length :: payload) := by
  obtain ⟨i, b, hi, hlt, hne, rfl⟩ := h
  have hright : checksum (f.ty :: UInt8.ofNat f.payload.length :: (f.payload ++ [f.sum])) = 0 :=
    (checksum_snoc_eq_zero (f.ty :: UInt8.ofNat f.payload.length :: f.payload) f.sum).2 rfl
  have hlen : (UInt8.ofNat f.payload.length).toNat = f.payload.length := by
    rw [UInt8.toNat_ofNat', Nat.mod_eq_of_lt (Nat.lt_succ_of_le f.short)]
  rcases hi with rfl | hi
  · refine ⟨_, b, f.payload, f.sum, rfl, ⟨by simp, hlen.symm⟩, fun hsum => ?_⟩
    have hwrong : checksum ((f.ty :: UInt8.ofNat f.payload.length :: (f.payload ++ [f.sum])).set 0 b) ≠ _ :=
      checksum_set (Nat.succ_pos _) hne
    exact hwrong (((checksum_snoc_eq_zero (b :: UInt8.ofNat f.payload.length :: f.payload) f.sum).2 hsum).trans
      hright.symm)
  · obtain ⟨k, rfl⟩ := Nat.exists_eq_add_of_le' hi
    obtain ⟨payload, sum, hset⟩ : ∃ payload sum, (f.payload ++ [f.sum]).set k b = payload ++ [sum] := by
      refine ⟨_, _, (List.dropLast_concat_getLast ?_).symm⟩
      exact List.ne_nil_of_length_pos (by simp)
    have hpayload : payload.length = f.payload.length := by
      have := congrArg List.length hset
      simpa using this.symm
    refine ⟨f.ty :: UInt8.ofNat f.payload.length :: ((f.payload ++ [f.sum]).set k b ++ z), f.ty, payload, sum, rfl,
      ⟨by rw [hset]; simp, by rw [hpayload, hlen]⟩, fun hsum => ?_⟩
    have hwrong := checksum_set (b := b) (i := k + 2) (Nat.succ_lt_succ_iff.1 (Nat.succ_lt_succ_iff.1 hlt)) hne
    rw [List.set_cons_succ, List.set_cons_succ, hset] at hwrong
    exact hwrong (((checksum_snoc_eq_zero (f.ty :: UInt8.ofNat f.payload.length :: payload) sum).2 hsum).trans
      hright.symm)

/-- A corrupted frame gives none, and so ends the loop. -/
theorem drain_corrupted {f : Frame} (hf : f.payload.length ≤ 255) {c : List UInt8}
    (hc : Corrupted (encode f.msg f.payload) c) (z : List UInt8) : (drain tryPop (c ++ z)).1 = [] := by
  rw [encode_eq f.msg f.payload hf] at hc
  obtain ⟨r, ty, payload, sum, hr, hw, hsum⟩ := hc.whole z
  have hpop : tryPop (c ++ z) = (none, MAGIC1 :: r) := by
    rw [hr]
    exact (tryPop_whole (findMagic_magic r) hw).trans (if_pos hsum)
  rw [Chunk.drain_none hpop]

/-- **One corrupted frame costs only itself exactly when nothing follows it**: the frames before it are returned, those
behind it are not. -/
theorem push_corrupted_iff (before : List Frame) (f : Frame) (after : List Frame) (c : List UInt8)
    (hfits : ∀ f' ∈ before ++ f :: after, f'.payload.length ≤ 255) (hc : Corrupted (encode f.msg f.payload) c) :
    (push [] (encoded before ++ (c ++ encoded after))).1 = before ++ after ↔ after = [] := by
  have hout : (push [] (encoded before ++ (c ++ encoded after))).1 = before := by
    have hbefore : ∀ f' ∈ before, f'.payload.length ≤ 255 := fun f' hf' => hfits f' (List.mem_append_left _ hf')
    unfold push
    rw [List.nil_append, drain_encoded hbefore, drain_corrupted (hfits f (by simp)) hc, List.append_nil]
  rw [hout]
  exact List.self_eq_append_right

theorem push_corrupted_last :
    (push [] (encoded [⟨.ping, []⟩] ++ ([0xCA, 0x15, 0x10, 0x01, 0x07, 0x17] ++ encoded []))).1 =
    [⟨.ping, []⟩] ++ [] :=
  (push_corrupted_iff [⟨.ping, []⟩] ⟨.led, [0x06]⟩ [] _ (by decide)
    ⟨4, 0x07, .inr (Nat.le_refl 4), by decide, by decide, by decide⟩).2 rfl

/-- A corrupted LED frame before a ping: the ping stays in the buffer. -/
theorem push_corrupted_costs : ¬ ∀ (before : List Frame) (f : Frame) (after : List Frame) (c : List UInt8),
    (∀ f' ∈ before ++ f :: after, f'.payload.length ≤ 255) → Corrupted (encode f.msg f.payload) c →
    ¬ [MAGIC0, MAGIC1] <:+: c.drop 1 → (push [] (encoded before ++ (c ++ encoded after))).1 = before ++ after := by
  intro h
  have := h [] ⟨.led, [0x06]⟩ [⟨.ping, []⟩] [0xCA, 0x15, 0x10, 0x01, 0x07, 0x17] (by decide)
    ⟨4, 0x07, .inr (Nat.le_refl 4), by decide, by decide, by decide⟩ (by decide)
  revert this
  decide

end FrameDecoder
end CanisLink
