import CanisLink.McuResync
import CanisLink.Sensed
import CanisLink.UartRuns
/-!
# Firmware — the reference MCU port and the edge

`canis_encode_sense` of `firmware/mcu` is C, the decoder and the pipeline of the edge are Rust.  What the one writes the
others read: every reading, in order, however the UART cuts the bytes, each at the instant of the push that brings its
last byte.
-/
namespace CanisLink

open SensePipeline (fedBy)

/-! ## The C side -/

/-- `xor_csum` of the `n` bytes from `b` on. -/
def xorCsum (b : Nat → UInt8) : Nat → UInt8
  | 0 => 0
  | n + 1 => xorCsum b n ^^^ b n

/-- `canis_encode_sense`: the caller's buffer, written over. -/
def canisEncodeSense (forceDeciN tofMm : UInt16) (flags : UInt8) (out : Vector UInt8 13) : Vector UInt8 13 :=
  let out := out.set 0 MAGIC0
  let out := out.set 1 MAGIC1
  let out := out.set 2 0x01
  let out := out.set 3 8
  let out := out.set 4 (forceDeciN &&& 0xff).toUInt8
  let out := out.set 5 (forceDeciN >>> 8).toUInt8
  let out := out.set 6 (tofMm &&& 0xff).toUInt8
  let out := out.set 7 (tofMm >>> 8).toUInt8
  let out := out.set 8 flags
  let out := ((out.set 11 0).set 10 0).set 9 0
  out.set 12 (xorCsum (fun i => out.toArray.getD (2 + i) 0) 10)

/-- A reading of the sensors. -/
structure Reading where
  forceDeciN : UInt16
  tofMm : UInt16
  flags : UInt8

def Reading.payload (r : Reading) : SensePayload :=
  { forceDeciN := r.forceDeciN, tofMm := r.tofMm, flags := r.flags, pad := (0, 0, 0) }

/-- The bytes written for some readings, each into a buffer that holds anything. -/
def mcuBytes (rs : List (Reading × Vector UInt8 13)) : List UInt8 :=
  (rs.map (fun r => (canisEncodeSense r.1.forceDeciN r.1.tofMm r.1.flags r.2).toList)).flatten

theorem loByte (v : UInt16) : (v &&& 0xff).toUInt8 = v.toUInt8 := by
  apply UInt8.toNat_inj.1
  have hmask : v.toNat % 256 &&& 255 = v.toNat % 256 % 2 ^ 8 := Nat.and_two_pow_sub_one_eq_mod _ 8
  simp [hmask]

theorem hiByte (v : UInt16) : (v >>> 8).toUInt8 = (v / 256).toUInt8 := by
  congr 1
  apply UInt16.toNat_inj.1
  simp [Nat.shiftRight_eq_div_pow]

/-- **The two encoders agree**: the C one writes what the Rust one returns, whatever was in the buffer. -/
theorem canisEncodeSense_eq (r : Reading) (out : Vector UInt8 13) :
    (canisEncodeSense r.forceDeciN r.tofMm r.flags out).toList = encode .sense r.payload.toBytes := by
  obtain ⟨⟨l⟩, hl⟩ := out
  match l, hl with
  | [_, _, _, _, _, _, _, _, _, _, _, _, last], _ =>
    unfold canisEncodeSense
    rw [loByte, loByte, hiByte, hiByte]
    extract_lets out0 out1 out2 out3 out4 out5 out6 out7 out8 filled
    -- the buffer before its checksum
    have hfilled : filled = ⟨#[MAGIC0, MAGIC1, 1, 8, r.forceDeciN.toUInt8, (r.forceDeciN / 256).toUInt8,
        r.tofMm.toUInt8, (r.tofMm / 256).toUInt8, r.flags, 0, 0, 0, last], rfl⟩ := rfl
    rw [hfilled]
    rfl

/-! ## The Rust side -/

theorem PresenceFilter.update_shows (f : PresenceFilter) (s : SenseSample) :
    (f.update s).2.lastForceN = s.forceN ∧ (f.update s).2.lastTof = s.tofMm := by
  rw [update_snd]
  unfold settled marked
  dsimp only
  split <;> split <;> [exact ⟨rfl, rfl⟩; skip; exact ⟨rfl, rfl⟩; skip] <;> split <;> exact ⟨rfl, rfl⟩

/-- The reading as a sample at that time. -/
def Reading.sampleAt (r : Reading) (tMs : UInt64) : SenseSample where
  forceN := r.payload.forceN
  tofMm := if r.tofMm = 0 then none else some r.tofMm
  motion := r.payload.motion
  tMs := tMs

/-- What the pushes are for the pipeline. -/
def pushOps (pushes : List (List UInt8 × UInt64)) : List EdgeOp := pushes.map (fun c => .ingestUart c.1 c.2)

theorem le_saturatingAdd (a b : UInt64) : a ≤ saturatingAdd a b := by
  unfold saturatingAdd
  split
  · assumption
  · rw [UInt64.le_iff_toNat_le]
    have := a.toNat_lt
    exact Nat.le_of_lt_succ this

namespace SensePipeline

theorem pushFrames_clock : ∀ (frs : List Frame) (p : SensePipeline), (p.pushFrames frs).2.tMs = p.tMs
  | [], _ => rfl
  | fr :: frs, p => by
    unfold pushFrames
    split
    · exact pushFrames_clock frs p
    · split
      · exact pushFrames_clock frs p
      · exact pushFrames_clock frs _

/-- The force and the distance that each snapshot shows. -/
theorem pushFrames_shows : ∀ (frs : List Frame) (p : SensePipeline),
    (p.pushFrames frs).1.map (fun s => (s.forceN, s.tofMm)) =
      (frs.filterMap (sampleOf p.tMs)).map (fun s => (s.forceN, s.tofMm))
  | [], _ => rfl
  | fr :: frs, p => by
    unfold pushFrames
    split
    · rename_i hmsg
      rw [List.filterMap_cons_none (by simp [sampleOf, hmsg])]
      exact pushFrames_shows frs p
    · rename_i hmsg
      split
      · rename_i hpayload
        rw [List.filterMap_cons_none (by simp [sampleOf, hpayload])]
        exact pushFrames_shows frs p
      · rename_i s hpayload
        rw [List.filterMap_cons_some (by rw [sampleOf, if_neg hmsg, hpayload]; rfl), List.map_cons, List.map_cons]
        refine congrArg₂ List.cons ?_ (pushFrames_shows frs _)
        exact Prod.ext (PresenceFilter.update_shows _ _).1 (PresenceFilter.update_shows _ _).2

theorem pushAll_snd : ∀ (pushes : List (List UInt8 × UInt64)) (p : SensePipeline),
    (p.pushAll pushes).2 = (pushOps pushes).foldl fedBy p
  | [], _ => rfl
  | c :: pushes, p => pushAll_snd pushes (p.pushBytes c.1 c.2).2

theorem pushAll_shows : ∀ (pushes : List (List UInt8 × UInt64)) (p : SensePipeline),
    (p.pushAll pushes).1.map (fun s => (s.forceN, s.tofMm)) =
      (p.samples (pushOps pushes)).map (fun s => (s.forceN, s.tofMm))
  | [], _ => rfl
  | c :: pushes, p => by
    show ((p.pushBytes c.1 c.2).1 ++ _).map _ = (p.samplesIn _ ++ _).map _
    rw [List.map_append, List.map_append, pushAll_shows pushes]
    exact congrArg (· ++ _) (pushFrames_shows _ _)

end SensePipeline

/-! ## Along the UART -/

/-- The bytes of a reading. -/
abbrev Reading.bytes (r : Reading) : List UInt8 := encode .sense r.payload.toBytes

/-- **When the pipeline reads the frames of the MCU**, 13 bytes each: with its clock at `t` and `had` bytes of a frame
in, a push puts the clock on by its `dt_ms` and completes the frames whose last byte it brings. -/
def instants (t : UInt64) (had : Nat) : List (List UInt8 × UInt64) → List UInt64
  | [] => []
  | c :: pushes => List.replicate ((had + c.1.length) / 13) (saturatingAdd t c.2) ++
      instants (saturatingAdd t c.2) ((had + c.1.length) % 13) pushes

/-- The instants do not go back. -/
theorem instants_sorted : ∀ (pushes : List (List UInt8 × UInt64)) (t : UInt64) (had : Nat),
    (instants t had pushes).Pairwise (· ≤ ·) ∧ ∀ u ∈ instants t had pushes, t ≤ u
  | [], _, _ => ⟨.nil, fun _ hu => absurd hu List.not_mem_nil⟩
  | c :: pushes, t, had => by
    obtain ⟨hsorted, hlater⟩ := instants_sorted pushes (saturatingAdd t c.2) ((had + c.1.length) % 13)
    have hnow : ∀ u ∈ List.replicate ((had + c.1.length) / 13) (saturatingAdd t c.2), u = saturatingAdd t c.2 :=
      fun u hu => List.eq_of_mem_replicate hu
    have hsame : (List.replicate ((had + c.1.length) / 13) (saturatingAdd t c.2)).Pairwise (· ≤ ·) :=
      List.pairwise_replicate.2 (.inr (UInt64.le_refl _))
    refine ⟨List.pairwise_append.2 ⟨hsame, hsorted, fun u hu => ?_⟩, fun u hu => ?_⟩
    · rw [hnow u hu]
      exact hlater
    · rcases List.mem_append.1 hu with hu | hu
      · rw [hnow u hu]
        exact le_saturatingAdd t c.2
      · exact UInt64.le_trans (le_saturatingAdd t c.2) (hlater u hu)

/-- A frame that is not whole yet stays in the buffer. -/
theorem drain_partial {r : Reading} {z : List UInt8} (hz : z <+: r.bytes) (hshort : z.length < 13) :
    Chunk.drain FrameDecoder.tryPop z = ([], z) := by
  refine Chunk.drain_none ?_
  match z, hz, hshort with
  | [], _, _ => rfl
  | [_], _, _ => exact FrameDecoder.tryPop_short (by rw [FrameDecoder.findMagic_of_short] <;> exact Nat.lt_succ_self 1)
  | _ :: _ :: x, ⟨w, hw⟩, hshort =>
    have hw : _ :: _ :: (x ++ w) = MAGIC0 :: MAGIC1 :: 1 :: 8 ::
        (r.payload.toBytes ++ [checksum (1 :: 8 :: r.payload.toBytes)]) := hw
    obtain ⟨rfl, rfl, hx⟩ : _ = MAGIC0 ∧ _ = MAGIC1 ∧ _ := by simpa only [List.cons.injEq] using hw
    refine FrameDecoder.tryPop_incomplete (FrameDecoder.findMagic_magic x) ?_
    match x, hx, hshort with
    | [], _, _ => exact .inl (by simp)
    | [_], _, _ => exact .inl (by simp)
    | _ :: len :: x, hx, hshort =>
      obtain rfl : len = 8 := (List.cons.inj (List.cons.inj hx).2).1
      refine .inr ?_
      simp only [List.length_cons, List.getD_cons_succ, List.getD_cons_zero] at hshort ⊢
      show _ < 11
      omega

/-- A prefix of the frames of some readings: those that are whole, and the bytes of the next. -/
theorem whole_frames {rs : List Reading} {x w : List UInt8} (h : x ++ w = (rs.map Reading.bytes).flatten) :
    x.length / 13 ≤ rs.length ∧ ∃ z, x = ((rs.take (x.length / 13)).map Reading.bytes).flatten ++ z ∧
      z.length = x.length % 13 ∧ z ++ w = ((rs.drop (x.length / 13)).map Reading.bytes).flatten := by
  have hlength : ∀ rs : List Reading, ((rs.map Reading.bytes).flatten).length = 13 * rs.length := by
    intro rs
    induction rs with
    | nil => rfl
    | cons r rs ih =>
      rw [List.map_cons, List.flatten_cons, List.length_append, ih, List.length_cons]
      show 13 + _ = _
      omega
  have hle : x.length ≤ 13 * rs.length := by
    rw [← hlength, ← h, List.length_append]
    exact Nat.le_add_right _ _
  have hsplit : (rs.map Reading.bytes).flatten = ((rs.take (x.length / 13)).map Reading.bytes).flatten ++
      ((rs.drop (x.length / 13)).map Reading.bytes).flatten := by
    rw [← List.flatten_append, ← List.map_append, List.take_append_drop]
  have htake : (((rs.take (x.length / 13)).map Reading.bytes).flatten).length = 13 * (x.length / 13) := by
    rw [hlength, List.length_take]
    omega
  obtain ⟨z, hz⟩ : ((rs.take (x.length / 13)).map Reading.bytes).flatten <+: x :=
    List.prefix_of_prefix_length_le (hsplit ▸ List.prefix_append _ _) (h ▸ List.prefix_append _ _) (by omega)
  have hrest : ((rs.take (x.length / 13)).map Reading.bytes).flatten ++ (z ++ w) =
      ((rs.take (x.length / 13)).map Reading.bytes).flatten ++
        ((rs.drop (x.length / 13)).map Reading.bytes).flatten := by
    rw [← List.append_assoc, hz, h, hsplit]
  have hsum := congrArg List.length hz
  rw [List.length_append, htake] at hsum
  exact ⟨by omega, z, hz.symm, by omega, List.append_cancel_left hrest⟩

/-- The frame of a reading. -/
abbrev Reading.frame (r : Reading) : Frame := ⟨.sense, r.payload.toBytes⟩

/-- **A push of bytes of such a stream** takes the whole frames off and keeps the rest. -/
theorem push_frames {rs : List Reading} {buf data w : List UInt8}
    (h : buf ++ data ++ w = (rs.map Reading.bytes).flatten) :
    (buf.length + data.length) / 13 ≤ rs.length ∧ ∃ z,
      FrameDecoder.push buf data = ((rs.take ((buf.length + data.length) / 13)).map Reading.frame, z) ∧
      z.length = (buf.length + data.length) % 13 ∧
      z ++ w = ((rs.drop ((buf.length + data.length) / 13)).map Reading.bytes).flatten := by
  obtain ⟨hk, z, hx, hz, hrest⟩ := whole_frames h
  rw [List.length_append] at hk hx hz hrest
  refine ⟨hk, z, ?_, hz, hrest⟩
  have hpartial : Chunk.drain FrameDecoder.tryPop z = ([], z) := by
    cases hdrop : rs.drop ((buf.length + data.length) / 13) with
    | nil =>
      rw [hdrop] at hrest
      rw [(List.append_eq_nil_iff.1 hrest).1]
      rfl
    | cons r rs =>
      rw [hdrop, List.map_cons, List.flatten_cons] at hrest
      have hshort : z.length < 13 := hz ▸ Nat.mod_lt _ (by omega)
      exact drain_partial (List.prefix_of_prefix_length_le (hrest ▸ List.prefix_append z w) (List.prefix_append _ _)
        (Nat.le_of_lt hshort)) hshort
  have hfits : ∀ f ∈ (rs.take ((buf.length + data.length) / 13)).map Reading.frame, f.payload.length ≤ 255 := by
    simp only [List.forall_mem_map]
    intro r _
    show 8 ≤ 255
    omega
  have hencoded : FrameDecoder.encoded ((rs.take ((buf.length + data.length) / 13)).map Reading.frame) =
      ((rs.take ((buf.length + data.length) / 13)).map Reading.bytes).flatten := by
    unfold FrameDecoder.encoded
    rw [List.map_map]
    rfl
  unfold FrameDecoder.push
  rw [hx, ← hencoded, FrameDecoder.drain_encoded hfits, hpartial, List.append_nil]

/-- The samples of readings that come in at one instant. -/
theorem filterMap_frames (rs : List Reading) (t : UInt64) :
    (rs.map Reading.frame).filterMap (sampleOf t) = rs.map (·.sampleAt t) := by
  rw [List.filterMap_map, ← List.filterMap_eq_map]
  refine List.filterMap_congr (fun r _ => ?_)
  show sampleOf t r.frame = _
  unfold sampleOf
  rw [if_neg (by simp), SensePayload.fromBytes_toBytes]
  rfl

theorem sampleAt_replicate : ∀ (rs : List Reading) (t : UInt64),
    List.zipWith Reading.sampleAt rs (List.replicate rs.length t) = rs.map (·.sampleAt t)
  | [], _ => rfl
  | r :: rs, t => congrArg (r.sampleAt t :: ·) (sampleAt_replicate rs t)

/-- **The samples are those of the readings, at the instants of the pushes.** -/
theorem samples_instants : ∀ (pushes : List (List UInt8 × UInt64)) (p : SensePipeline) (rs : List Reading),
    p.decoder.length < 13 → p.decoder ++ (pushes.map Prod.fst).flatten = (rs.map Reading.bytes).flatten →
    p.samples (pushOps pushes) = List.zipWith Reading.sampleAt rs (instants p.tMs p.decoder.length pushes) ∧
      (instants p.tMs p.decoder.length pushes).length = rs.length
  | [], p, rs, hshort, hbytes => by
    cases rs with
    | nil => exact ⟨rfl, rfl⟩
    | cons r rs =>
      have hlength := congrArg List.length hbytes
      rw [List.map_cons, List.flatten_cons, List.length_append, List.length_append] at hlength
      have hframe : r.bytes.length = 13 := rfl
      simp only [List.map_nil, List.flatten_nil, List.length_nil] at hlength
      omega
  | c :: pushes, p, rs, hshort, hbytes => by
    rw [List.map_cons, List.flatten_cons, ← List.append_assoc] at hbytes
    obtain ⟨hk, z, hpush, hz, hrest⟩ := push_frames hbytes
    have hpushed : (p.pushBytes c.1 c.2).2.decoder = z := by
      rw [SensePipeline.pushBytes_decoder, hpush]
    have hclock : (p.pushBytes c.1 c.2).2.tMs = saturatingAdd p.tMs c.2 := SensePipeline.pushFrames_clock _ _
    have hshort : (p.pushBytes c.1 c.2).2.decoder.length < 13 := by
      rw [hpushed, hz]
      exact Nat.mod_lt _ (by omega)
    obtain ⟨hsamples, hlength⟩ := samples_instants pushes (p.pushBytes c.1 c.2).2 _ hshort (hpushed ▸ hrest)
    rw [hpushed, hclock, hz] at hsamples hlength
    show (FrameDecoder.push p.decoder c.1).1.filterMap (sampleOf (saturatingAdd p.tMs c.2)) ++
      (p.pushBytes c.1 c.2).2.samples (pushOps pushes) = List.zipWith _ rs (List.replicate _ _ ++ _) ∧
      (List.replicate _ _ ++ _).length = _
    generalize (p.decoder.length + c.1.length) / 13 = k at hk hpush hsamples hlength ⊢
    have htake : (rs.take k).length = (List.replicate k (saturatingAdd p.tMs c.2)).length := by
      rw [List.length_take_of_le hk, List.length_replicate]
    refine ⟨?_, ?_⟩
    · have hnow := sampleAt_replicate (rs.take k) (saturatingAdd p.tMs c.2)
      rw [htake, List.length_replicate] at hnow
      have hzip : List.zipWith Reading.sampleAt (rs.take k ++ rs.drop k) (List.replicate k (saturatingAdd p.tMs c.2) ++
          instants (saturatingAdd p.tMs c.2) ((p.decoder.length + c.1.length) % 13) pushes) = _ :=
        List.zipWith_append htake
      rw [List.take_append_drop] at hzip
      rw [hpush, filterMap_frames, hsamples, hzip, hnow]
    · rw [List.length_append, hlength, List.length_replicate, List.length_drop]
      omega

/-! ## Together -/

/-- **From the C encoder to the debounced flag.**  However the UART cuts the bytes the MCU writes, the edge makes one
snapshot of every reading, in order, and its filter is fed these readings, each at the instant of the push that brought
its last byte: the saturating sum of the `dt_ms` of the pushes up to it. -/
theorem firmware_sensed (rs : List (Reading × Vector UInt8 13)) (pushes : List (List UInt8 × UInt64))
    (hbytes : (pushes.map Prod.fst).flatten = mcuBytes rs) :
    (SensePipeline.pushAll {} pushes).1.map (fun s => (s.forceN, s.tofMm)) =
        rs.map (fun r => (r.1.payload.forceN, if r.1.tofMm = 0 then none else some r.1.tofMm)) ∧
      (instants 0 0 pushes).length = rs.length ∧ (instants 0 0 pushes).Pairwise (· ≤ ·) ∧
      (SensePipeline.pushAll {} pushes).2.filter.present =
        PresenceConfig.lastConfirmed {} (List.zipWith Reading.sampleAt (rs.map Prod.fst) (instants 0 0 pushes)) := by
  have hframes : (pushes.map Prod.fst).flatten = ((rs.map Prod.fst).map Reading.bytes).flatten := by
    rw [hbytes]
    unfold mcuBytes
    rw [List.map_map]
    exact congrArg List.flatten (List.map_congr_left (fun r _ => canisEncodeSense_eq r.1 r.2))
  obtain ⟨hsamples, hlength⟩ := samples_instants pushes {} (rs.map Prod.fst) (Nat.zero_lt_succ 12) hframes
  refine ⟨?_, hlength.trans (List.length_map _), (instants_sorted pushes 0 0).1, ?_⟩
  · rw [SensePipeline.pushAll_shows, hsamples, List.map_zipWith, ← List.map_uncurry_zip_eq_zipWith]
    have hzip := congrArg (List.map (fun r : Reading => (r.payload.forceN, if r.tofMm = 0 then none else some r.tofMm)))
      (List.map_fst_zip (Nat.le_of_eq hlength.symm))
    rw [List.map_map, List.map_map] at hzip
    exact hzip
  · rw [SensePipeline.pushAll_snd, SensePipeline.new_present]
    exact congrArg _ hsamples

/-- A dog of 120 N at 350 mm, twice. -/
def twoReadings : List (Reading × Vector UInt8 13) :=
  [(⟨1200, 350, 1⟩, Vector.replicate 13 0xCA), (⟨1200, 350, 1⟩, Vector.replicate 13 0x15)]

/-- The first frame is whole with the second push, the other with the third, 850 ms later. -/
def cutFrames : List (List UInt8 × UInt64) :=
  [((mcuBytes twoReadings).take 5, 50), (((mcuBytes twoReadings).drop 5).take 13, 50),
    ((mcuBytes twoReadings).drop 18, 850)]

theorem firmware_sensed_cut :
    (SensePipeline.pushAll {} cutFrames).1.map (fun s => (s.forceN, s.tofMm)) = [(120, some 350), (120, some 350)] ∧
      (SensePipeline.pushAll {} cutFrames).2.filter.present = true := by
  obtain ⟨hshown, -, -, hpresent⟩ := firmware_sensed twoReadings cutFrames (by decide +kernel)
  exact ⟨hshown.trans (by decide +kernel), hpresent.trans (by decide +kernel)⟩

end CanisLink
