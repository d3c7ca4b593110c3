import CanisLink.Chunk
import CanisLink.Protocol
/-!
# Mcu — the UART frames of `crates/protocol/src/mcu.rs`

A frame is magic, type, length, payload, and the XOR of everything after the magic.  `tryPop` looks for the magic, then
for a whole frame; on a wrong checksum it drops one byte and gives up, and on an unknown type it gives up where it is.
The payloads the edge reads, those of sense and button frames, read back as they were written.
-/
namespace CanisLink

def MAGIC0 : UInt8 := 0xCA
def MAGIC1 : UInt8 := 0x15

inductive MsgType
  | sense | button | led | ping | pong
deriving DecidableEq, Repr

/-- `msg as u8`. -/
def MsgType.code : MsgType → UInt8
  | sense => 0x01
  | button => 0x02
  | led => 0x10
  | ping => 0x7E
  | pong => 0x7F

def MsgType.fromU8 (v : UInt8) : Option MsgType :=
  if v = 0x01 then some .sense
  else if v = 0x02 then some .button
  else if v = 0x10 then some .led
  else if v = 0x7E then some .ping
  else if v = 0x7F then some .pong
  else none

theorem MsgType.fromU8_code (m : MsgType) : fromU8 m.code = some m := by cases m <;> decide

/-- 8-byte sense payload. -/
structure SensePayload where
  /-- Force in 0.1 N units. -/
  forceDeciN : UInt16
  /-- ToF distance mm (0 = invalid). -/
  tofMm : UInt16
  /-- Bit0 motion recent. -/
  flags : UInt8
  pad : UInt8 × UInt8 × UInt8
deriving DecidableEq

/-- `u16::from_le_bytes`. -/
def u16FromLeBytes (lo hi : UInt8) : UInt16 := lo.toUInt16 + hi.toUInt16 * 256

/-- `to_le_bytes`. -/
def u16ToLeBytes (v : UInt16) : List UInt8 := [v.toUInt8, (v / 256).toUInt8]

theorem u16FromLeBytes_toLeBytes (v : UInt16) : u16FromLeBytes v.toUInt8 (v / 256).toUInt8 = v := by
  have hv := v.toNat_lt
  apply UInt16.toNat_inj.1
  simp [u16FromLeBytes]
  omega

namespace SensePayload

def forceN (p : SensePayload) : Rat := roundF32 (p.forceDeciN.toNat / 10)

def motion (p : SensePayload) : Bool := decide (p.flags &&& 1 ≠ 0)

def toBytes (p : SensePayload) : List UInt8 :=
  u16ToLeBytes p.forceDeciN ++ u16ToLeBytes p.tofMm ++ [p.flags, p.pad.1, p.pad.2.1, p.pad.2.2]

def fromBytes : List UInt8 → Option SensePayload
  | b0 :: b1 :: b2 :: b3 :: b4 :: b5 :: b6 :: b7 :: _ =>
    some { forceDeciN := u16FromLeBytes b0 b1, tofMm := u16FromLeBytes b2 b3, flags := b4, pad := (b5, b6, b7) }
  | _ => none

theorem fromBytes_toBytes (p : SensePayload) : fromBytes p.toBytes = some p := by
  simp only [toBytes, u16ToLeBytes, List.cons_append, List.nil_append, fromBytes, u16FromLeBytes_toLeBytes]

end SensePayload

/-- Button payload: pad index + event. -/
structure ButtonPayload where
  /-- 0=Call, 1=Play, 2=Again, 3=Done -/
  pad : UInt8
  /-- 1=press, 2=release, 3=hold -/
  event : UInt8
  holdMs : UInt16
deriving DecidableEq

namespace ButtonPayload

def toBytes (b : ButtonPayload) : List UInt8 := [b.pad, b.event] ++ u16ToLeBytes b.holdMs

def fromBytes : List UInt8 → Option ButtonPayload
  | b0 :: b1 :: b2 :: b3 :: _ => some { pad := b0, event := b1, holdMs := u16FromLeBytes b2 b3 }
  | _ => none

theorem fromBytes_toBytes (b : ButtonPayload) : fromBytes b.toBytes = some b := by
  simp only [toBytes, u16ToLeBytes, List.cons_append, List.nil_append, fromBytes, u16FromLeBytes_toLeBytes]

end ButtonPayload

def checksum (bytes : List UInt8) : UInt8 := bytes.foldl (fun a b => a ^^^ b) 0

/-- Encode a frame; the source asserts that the payload has at most 255 bytes. -/
def encode (msg : MsgType) (payload : List UInt8) : List UInt8 :=
  let out := MAGIC0 :: MAGIC1 :: msg.code :: UInt8.ofNat payload.length :: payload
  out ++ [checksum (out.drop 2)]

structure Frame where
  msg : MsgType
  payload : List UInt8
deriving DecidableEq, Repr

/-- Streaming frame decoder: its one field, the bytes not yet consumed. -/
abbrev FrameDecoder := List UInt8

namespace FrameDecoder

/-- The loop that looks for the magic. -/
def findMagic : FrameDecoder → FrameDecoder
  | b0 :: b1 :: rest => if b0 = MAGIC0 ∧ b1 = MAGIC1 then b0 :: b1 :: rest else findMagic (b1 :: rest)
  | buf => buf

theorem findMagic_magic (r : List UInt8) : findMagic (MAGIC0 :: MAGIC1 :: r) = MAGIC0 :: MAGIC1 :: r := by
  simp [findMagic]

theorem findMagic_skip {a b : UInt8} (h : ¬ (a = MAGIC0 ∧ b = MAGIC1)) (r : List UInt8) :
    findMagic (a :: b :: r) = findMagic (b :: r) := by
  rw [findMagic, if_neg h]

def tryPop (buf : FrameDecoder) : Option Frame × FrameDecoder :=
  let buf := findMagic buf
  if buf.length < 5 then (none, buf)
  else
    let plen := (buf.getD 3 0).toNat
    let total := 5 + plen
    if buf.length < total then (none, buf)
    else
      let csum := buf.getD (4 + plen) 0
      let expect := checksum ((buf.take (4 + plen)).drop 2)
      -- resync
      if csum ≠ expect then (none, buf.drop 1)
      else
        match MsgType.fromU8 (buf.getD 2 0) with
        | none => (none, buf)
        | some msg => (some { msg, payload := (buf.take (4 + plen)).drop 4 }, buf.drop total)

def push (buf : FrameDecoder) (data : List UInt8) : List Frame × FrameDecoder := Chunk.drain tryPop (buf ++ data)

/-- The frames of several `push` calls in turn. -/
def pushAll (buf : FrameDecoder) (chunks : List (List UInt8)) : List Frame × FrameDecoder :=
  Chunk.feed tryPop buf chunks

end FrameDecoder
end CanisLink
