import CanisLink.McuStream
import Mathlib.Data.List.TakeWhile
/-!
# McuLink — chunks and unknown types on the UART link

`Intact` says, without running the decoder, which streams give the same frames and the same rest however they are
chunked: those where no candidate with a wrong checksum is reached.  A stream of well-formed frames is always intact;
it is read to its end exactly when every type is known.
-/
namespace CanisLink
namespace FrameDecoder

open Chunk (Rests drain feed)

/-- A well-formed frame of any type: what an encoder of another firmware version may send. -/
structure WireFrame where
  ty : UInt8
  payload : List UInt8
  short : payload.length ≤ 255

namespace WireFrame

/-- The checksum covers type, length and payload. -/
def sum (f : WireFrame) : UInt8 := checksum (f.ty :: UInt8.ofNat f.payload.length :: f.payload)

def bytes (f : WireFrame) : List UInt8 :=
  MAGIC0 :: MAGIC1 :: f.ty :: UInt8.ofNat f.payload.length :: (f.payload ++ [f.sum])

/-- The frame the decoder knows, if any. -/
def known (f : WireFrame) : Option Frame := (MsgType.fromU8 f.ty).map (fun msg => ⟨msg, f.payload⟩)

theorem whole (f : WireFrame) (z : List UInt8) :
    Whole (f.ty :: UInt8.ofNat f.payload.length :: (f.payload ++ f.sum :: z)) f.ty (UInt8.ofNat f.payload.length)
      f.payload f.sum z := by
  refine ⟨rfl, ?_⟩
  rw [UInt8.toNat_ofNat', Nat.mod_eq_of_lt (Nat.lt_succ_of_le f.short)]

theorem bytes_append (f : WireFrame) (z : List UInt8) :
    f.bytes ++ z = MAGIC0 :: MAGIC1 :: f.ty :: UInt8.ofNat f.payload.length :: (f.payload ++ f.sum :: z) := by
  simp [bytes]

end WireFrame

theorem encode_eq (msg : MsgType) (payload : List UInt8) (h : payload.length ≤ 255) :
    encode msg payload = (WireFrame.mk msg.code payload h).bytes := by
  simp [encode, WireFrame.bytes, WireFrame.sum]

theorem whole_wire {r : List UInt8} {ty len : UInt8} {payload : List UInt8} {z : List UInt8}
    (h : Whole r ty len payload (checksum (ty :: len :: payload)) z) :
    ∃ f : WireFrame, f.ty = ty ∧ f.payload = payload ∧ MAGIC0 :: MAGIC1 :: r = f.bytes ++ z := by
  have hlt := len.toNat_lt
  have hlen : UInt8.ofNat payload.length = len := by rw [h.length, UInt8.ofNat_toNat]
  refine ⟨⟨ty, payload, by rw [h.length]; omega⟩, rfl, rfl, ?_⟩
  rw [WireFrame.bytes_append]
  simp only [WireFrame.sum, hlen]
  rw [← h.eq]

/-! ## Streams without a corrupted candidate -/

/-- **The streams where no candidate with a wrong checksum is reached**: after bytes without a magic pair the stream
ends, or has a frame that is not whole yet, or a frame of unknown type (whatever follows), or a frame of known type and
an intact stream. -/
inductive Intact : List UInt8 → Prop
  | quiet {g} (hg : Noise g []) : Intact g
  | waiting {g r} (hg : Noise g (MAGIC0 :: MAGIC1 :: r)) (hr : Incomplete r) : Intact (g ++ MAGIC0 :: MAGIC1 :: r)
  | unknown {g z} (f : WireFrame) (hg : Noise g (f.bytes ++ z)) (hf : MsgType.fromU8 f.ty = none) :
      Intact (g ++ (f.bytes ++ z))
  | known {g z} (f : WireFrame) (hg : Noise g (f.bytes ++ z)) (hf : MsgType.fromU8 f.ty ≠ none) (hz : Intact z) :
      Intact (g ++ (f.bytes ++ z))

theorem Noise.nil (r : List UInt8) : Noise [] r := fun _ hi => absurd hi (Nat.not_lt_zero _)

/-- Bytes without a magic pair end in fewer than two bytes for the decoder, and the other way round. -/
theorem noise_nil_iff (b : List UInt8) : Noise b [] ↔ (findMagic b).length < 2 := by
  obtain ⟨g, hg, hn⟩ := findMagic_split b
  constructor
  · intro h
    rcases findMagic_found b with hs | ⟨r, hr⟩
    · exact hs
    · refine absurd ⟨r, ?_⟩ (h g.length (by rw [hg, hr, List.length_append]; simp))
      rw [List.append_nil, hg, hr, List.drop_left]
      rfl
  · intro hs i hi hp
    rw [List.append_nil] at hp
    by_cases hig : i < g.length
    · rw [hg] at hp
      exact hn i hig hp
    · have hl := hp.length_le
      rw [List.length_drop] at hl
      have := congrArg List.length hg
      rw [List.length_append] at this
      simp only [List.length_cons, List.length_nil] at hl
      omega

theorem findMagic_of_noise {g : List UInt8} (r : List UInt8) (h : Noise g (MAGIC0 :: MAGIC1 :: r)) :
    findMagic (g ++ MAGIC0 :: MAGIC1 :: r) = MAGIC0 :: MAGIC1 :: r := by
  rw [findMagic_noise g _ h, findMagic_magic]

theorem rests_of_tryPop {x : List UInt8} (h : tryPop x = (none, findMagic x)) : Rests tryPop (findMagic x) := by
  show tryPop (findMagic x) = _
  rw [tryPop_findMagic, h]

/-- One pop of a stream that starts, after noise, with a well-formed frame. -/
theorem tryPop_wire {g z : List UInt8} (f : WireFrame) (hg : Noise g (f.bytes ++ z)) :
    tryPop (g ++ (f.bytes ++ z)) =
      match MsgType.fromU8 f.ty with
      | none => (none, f.bytes ++ z)
      | some msg => (some ⟨msg, f.payload⟩, z) := by
  rw [f.bytes_append] at hg ⊢
  refine ((tryPop_whole (findMagic_of_noise _ hg) (f.whole z)).trans (if_neg (fun hn => hn rfl))).trans ?_
  cases MsgType.fromU8 f.ty <;> rfl

theorem Intact.rests {b : List UInt8} (h : Intact b) : Rests tryPop (drain tryPop b).2 := by
  induction h with
  | @quiet g hg =>
    have hp := tryPop_short ((noise_nil_iff g).1 hg)
    rw [Chunk.drain_none hp]
    exact rests_of_tryPop hp
  | @waiting g r hg hr =>
    have hm := findMagic_of_noise r hg
    have hp := tryPop_incomplete hm hr
    rw [Chunk.drain_none hp, ← hm]
    exact rests_of_tryPop (by rw [hp, hm])
  | @unknown g z f hg hf =>
    have hp := tryPop_wire f hg
    rw [hf] at hp
    have h0 := tryPop_wire f (g := []) (Noise.nil (f.bytes ++ z))
    rw [hf] at h0
    rw [Chunk.drain_none hp]
    exact h0
  | @known g z f hg hf hz ih =>
    obtain ⟨msg, hm⟩ := Option.ne_none_iff_exists'.1 hf
    have hp := tryPop_wire f hg
    rw [hm] at hp
    rw [Chunk.drain_some incremental hp]
    exact ih

/-- By induction on the stream: `tryPop_cases` gives each form of an intact stream in turn, and a wrong checksum leaves
a buffer that does not rest. -/
theorem intact_of_rests (b : List UInt8) (h : Rests tryPop (drain tryPop b).2) : Intact b := by
  induction hn : b.length using Nat.strongRecOn generalizing b with
  | ind n ih =>
    obtain ⟨g, hg, hnoise⟩ := findMagic_split b
    rcases tryPop_cases b with ⟨hs, -⟩ | ⟨r, hr, ⟨hi, -⟩ | ⟨ty, len, payload, c, z, hw, hrest⟩⟩
    · exact .quiet ((noise_nil_iff b).2 hs)
    · rw [hr] at hg hnoise
      rw [hg]
      exact .waiting hnoise hi
    · rcases hrest with ⟨-, hp⟩ | ⟨rfl, hrest⟩
      · rw [Chunk.drain_none hp] at h
        exact absurd h (resync_not_rests r (by rw [hw.eq]; simp))
      · obtain ⟨f, hty, -, hf⟩ := whole_wire hw
        rw [hr, hf] at hg hnoise
        rcases hrest with ⟨hm, -⟩ | ⟨msg, hm, hp⟩
        · rw [hg]
          exact .unknown f hnoise (by rw [hty]; exact hm)
        · rw [Chunk.drain_some incremental hp] at h
          have hz := ih z.length (by rw [← hn]; exact incremental.shorter hp) z h rfl
          rw [hg]
          exact .known f hnoise (by rw [hty, hm]; exact Option.some_ne_none _) hz

theorem intact_iff_rests (b : List UInt8) : Intact b ↔ Rests tryPop (drain tryPop b).2 :=
  ⟨Intact.rests, intact_of_rests b⟩

/-- **Cutting a stream into pushes matters exactly when a candidate with a wrong checksum is reached.** -/
theorem pushAll_independent_iff (b : List UInt8) :
    (∀ cs ds : List (List UInt8), cs.flatten = b → ds.flatten = b → pushAll [] cs = pushAll [] ds) ↔ Intact b := by
  rw [intact_iff_rests]
  exact Chunk.feed_independent_iff incremental rests_nil b

/-- A corrupted frame and a ping in one push: the ping stays in the buffer.  In two pushes it is returned. -/
theorem pushAll_depends : ¬ ∀ (b : List UInt8) (cs ds : List (List UInt8)), cs.flatten = b → ds.flatten = b →
    pushAll [] cs = pushAll [] ds := by
  intro h
  have := h [0xCA, 0x15, 0x01, 0x00, 0xFF, 0xCA, 0x15, 0x7E, 0x00, 0x7E]
    [[0xCA, 0x15, 0x01, 0x00, 0xFF, 0xCA, 0x15, 0x7E, 0x00, 0x7E]]
    [[0xCA, 0x15, 0x01, 0x00, 0xFF], [0xCA, 0x15, 0x7E, 0x00, 0x7E]] rfl rfl
  revert this
  decide

/-! ## Streams of well-formed frames -/

/-- The bytes of the frames, one after another. -/
def stream (fs : List WireFrame) : List UInt8 := (fs.map WireFrame.bytes).flatten

theorem stream_cons (f : WireFrame) (fs : List WireFrame) : stream (f :: fs) = [] ++ (f.bytes ++ stream fs) := rfl

theorem stream_intact : ∀ fs : List WireFrame, Intact (stream fs)
  | [] => .quiet (Noise.nil [])
  | f :: fs => by
    rw [stream_cons]
    by_cases hf : MsgType.fromU8 f.ty = none
    · exact .unknown f (Noise.nil _) hf
    · exact .known f (Noise.nil _) hf (stream_intact fs)

/-- Draining takes the frames up to the first unknown type and stops there. -/
theorem drain_stream : ∀ fs : List WireFrame, drain tryPop (stream fs) =
    ((fs.takeWhile (fun f => (MsgType.fromU8 f.ty).isSome)).filterMap WireFrame.known,
      stream (fs.dropWhile (fun f => (MsgType.fromU8 f.ty).isSome)))
  | [] => rfl
  | f :: fs => by
    have hp := tryPop_wire f (Noise.nil (f.bytes ++ stream fs))
    rw [stream_cons]
    cases hm : MsgType.fromU8 f.ty with
    | none =>
      rw [hm] at hp
      rw [Chunk.drain_none hp, List.takeWhile_cons, List.dropWhile_cons, hm]
      rfl
    | some msg =>
      rw [hm] at hp
      rw [Chunk.drain_some incremental hp, drain_stream fs, List.takeWhile_cons, List.dropWhile_cons, hm]
      simp only [Option.isSome_some, if_true, List.filterMap_cons, WireFrame.known, hm, Option.map_some]

theorem stream_eq_nil {fs : List WireFrame} : stream fs = [] ↔ fs = [] := by
  cases fs with
  | nil => simp [stream]
  | cons f fs => simp [stream, WireFrame.bytes]

/-- **However chunked, frames are read to the end of the stream exactly when every type is known**; the first frame of
an unknown type stays in the buffer with everything after it. -/
theorem pushAll_frames_iff (fs : List WireFrame) (cs : List (List UInt8)) (h : cs.flatten = stream fs) :
    pushAll [] cs = (fs.filterMap WireFrame.known, []) ↔ ∀ f ∈ fs, MsgType.fromU8 f.ty ≠ none := by
  have hd : pushAll [] cs = drain tryPop (stream fs) := by
    rw [pushAll_eq_drain (by rw [h]; exact (stream_intact fs).rests), h]
  rw [hd, drain_stream]
  constructor
  · intro he f hf
    have hnil := stream_eq_nil.1 (Prod.mk.inj he).2
    have := List.dropWhile_eq_nil_iff.1 hnil f hf
    exact Option.isSome_iff_ne_none.1 this
  · intro hall
    have hsome : ∀ f ∈ fs, (MsgType.fromU8 f.ty).isSome = true := fun f hf => Option.isSome_iff_ne_none.2 (hall f hf)
    rw [List.dropWhile_eq_nil_iff.2 hsome, List.takeWhile_eq_self_iff.2 hsome]
    rfl

theorem pushAll_frames_ping : pushAll [] [[0xCA, 0x15], [0x7E, 0x00, 0x7E]] = ([⟨.ping, []⟩], []) :=
  (pushAll_frames_iff [⟨0x7E, [], by decide⟩] [[0xCA, 0x15], [0x7E, 0x00, 0x7E]] (by decide)).2 (by decide)

/-- A well-formed frame of type 0x03 and a ping: neither leaves the buffer. -/
theorem pushAll_frames_stall : ¬ ∀ (fs : List WireFrame) (cs : List (List UInt8)), cs.flatten = stream fs →
    pushAll [] cs = (fs.filterMap WireFrame.known, []) := by
  intro h
  have := h [⟨0x03, [], by decide⟩, ⟨0x7E, [], by decide⟩]
    [[0xCA, 0x15, 0x03, 0x00, 0x03, 0xCA, 0x15, 0x7E, 0x00, 0x7E]] (by decide)
  revert this
  decide

end FrameDecoder
end CanisLink
