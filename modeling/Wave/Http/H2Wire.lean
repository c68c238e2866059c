import Wave.Lib.Bytes

/-! # HTTP/2 frames on the wire (`http/wire/h2.rs`)

`Frame` is one as a peer writes it; `parseHeader_append` reads its header back. -/

namespace Wave.Http.H2Wire

open Lib

def FRAME_HEADER_LEN : Nat := 9

def FRAME_DATA : UInt8 := 0x0
def FRAME_HEADERS : UInt8 := 0x1

def FLAG_END_STREAM : UInt8 := 0x1
def FLAG_END_HEADERS : UInt8 := 0x4
def FLAG_PADDED : UInt8 := 0x8

structure Header where
  length : Nat
  ftype : UInt8
  flags : UInt8
  streamId : Nat
deriving DecidableEq

namespace Header

def endStream (h : Header) : Bool := h.flags &&& FLAG_END_STREAM != 0
def padded (h : Header) : Bool := h.flags &&& FLAG_PADDED != 0

end Header

def be24 (n : Nat) : Bytes := [UInt8.ofNat (n / 65536), UInt8.ofNat (n / 256), UInt8.ofNat n]

def parseHeader (buf : Bytes) : Option Header :=
  if buf.length < FRAME_HEADER_LEN then none
  else
    some
      { length := (buf.at0 0).toNat * 65536 + (buf.at0 1).toNat * 256 + (buf.at0 2).toNat
        ftype := buf.at0 3
        flags := buf.at0 4
        streamId :=
          (buf.at0 5).toNat % 128 * 16777216 + (buf.at0 6).toNat * 65536 + (buf.at0 7).toNat * 256 +
            (buf.at0 8).toNat }

/-- Nine bytes of header; `word` is the stream with the reserved bit before it. -/
def head (length : Nat) (ftype flags : UInt8) (word : UInt32) : Bytes :=
  be24 length ++ [ftype, flags] ++ Bytes.be32 word

@[simp] theorem length_head (length : Nat) (ftype flags : UInt8) (word : UInt32) :
    (head length ftype flags word).length = FRAME_HEADER_LEN := rfl

structure Frame where
  ftype : UInt8
  flags : UInt8
  word : UInt32
  payload : Bytes
  short : payload.length < 2 ^ 24

namespace Frame

def id (f : Frame) : Nat := f.word.toNat % 2 ^ 31

def header (f : Frame) : Header where
  length := f.payload.length
  ftype := f.ftype
  flags := f.flags
  streamId := f.id

def encode (f : Frame) : Bytes := head f.payload.length f.ftype f.flags f.word ++ f.payload

end Frame

theorem parseHeader_short {buf : Bytes} (h : buf.length < FRAME_HEADER_LEN) : parseHeader buf = none :=
  if_pos h

theorem parseHeader_head {n : Nat} (hn : n < 2 ^ 24) (ftype flags : UInt8) (word : UInt32) (more : Bytes) :
    parseHeader (head n ftype flags word ++ more) =
      some { length := n, ftype := ftype, flags := flags, streamId := word.toNat % 2 ^ 31 } := by
  have hlen : ¬(head n ftype flags word ++ more).length < FRAME_HEADER_LEN := by
    rw [length_append, length_head]
    omega
  have hw := word.toNat_lt
  rw [parseHeader, if_neg hlen]
  simp only [head, be24, Bytes.be32, Bytes.at0, cons_append, nil_append, List.getD_cons_zero,
    List.getD_cons_succ, UInt8.toNat_ofNat', UInt32.toNat_toUInt8, UInt32.toNat_shiftRight,
    Nat.shiftRight_eq_div_pow, Option.some.injEq, Header.mk.injEq, true_and]
  constructor
  · omega
  · rw [show UInt32.toNat 24 % 32 = 24 from rfl, show UInt32.toNat 16 % 32 = 16 from rfl,
      show UInt32.toNat 8 % 32 = 8 from rfl]
    omega

theorem parseHeader_append (f : Frame) (more : Bytes) :
    parseHeader (head f.payload.length f.ftype f.flags f.word ++ more) = some f.header :=
  parseHeader_head f.short f.ftype f.flags f.word more

/-- A buffer with more of a frame behind it has less than its header, or its header and the front of its
payload. -/
theorem front_of_frame {buf ahead more : Bytes} {f : Frame} (h : buf ++ ahead = f.encode ++ more) :
    buf.length < FRAME_HEADER_LEN ∨
      ∃ b, buf = head f.payload.length f.ftype f.flags f.word ++ b ∧ b ++ ahead = f.payload ++ more := by
  by_cases hlen : buf.length < FRAME_HEADER_LEN
  · exact Or.inl hlen
  · rw [Frame.encode, append_assoc] at h
    obtain ⟨b, hb, hb'⟩ | ⟨b, hb, hb'⟩ := append_eq_append_iff.mp h
    · have hle : b = [] := by
        have := congrArg List.length hb
        rw [length_append, length_head] at this
        exact length_eq_zero_iff.mp (by omega)
      subst hle
      rw [append_nil] at hb
      exact Or.inr ⟨[], by rw [hb, append_nil], by rw [hb']; rfl⟩
    · exact Or.inr ⟨b, hb, hb'.symm⟩

end Wave.Http.H2Wire
