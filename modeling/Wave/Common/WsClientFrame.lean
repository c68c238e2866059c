import Wave.Common.WsSentFrame

/-! # Frames as a client sends them

A masked frame with a length of at most 16 bits, and what the header decoder makes of it. -/

namespace Wave.Common

open Lib

/-- A frame a client may send, of a length that the 16-bit form holds. -/
structure ClientFrame where
  fin : Bool
  opcode : UInt8
  mask : FixedBytes 4
  payload : Bytes
  opcode_valid : wsIsValidOpcode opcode = true
  control : wsIsControlOpcode opcode = true → fin = true ∧ payload.length ≤ 125
  short : payload.length ≤ 65535

namespace ClientFrame

def lengthBytes (n : Nat) : Bytes :=
  if n ≤ 125 then [0x80 ||| UInt8.ofNat n] else 0xFE :: Bytes.be16 (UInt16.ofNat n)

def encode (f : ClientFrame) : Bytes :=
  ((if f.fin then 0x80 else 0) ||| f.opcode) ::
    (lengthBytes f.payload.length ++ (f.mask.1 ++ wsMaskApply f.mask.1 f.payload))

def header (f : ClientFrame) : WsHeader where
  fin := f.fin
  opcode := f.opcode
  masked := true
  maskKey := f.mask.1
  headerLen := 1 + (lengthBytes f.payload.length).length + 4
  payloadLen := f.payload.length

end ClientFrame

open ClientFrame

section

variable (f : ClientFrame)

def ClientFrame.sent : SentFrame := ⟨f.fin, f.opcode, f.payload, f.opcode_valid, f.control⟩

theorem lengthBytes_sent :
    SentFrame.lengthBytes (SentFrame.maskBit (some f.mask)) f.payload.length = lengthBytes f.payload.length := by
  have hbit : SentFrame.maskBit (some f.mask) = 0x80 := rfl
  have hlong : (0x80 : UInt8) ||| 126 = 0xFE := by decide
  unfold SentFrame.lengthBytes lengthBytes
  rw [if_pos f.short, hbit, hlong]

theorem encode_sent : f.sent.encode (some f.mask) = f.encode := by
  have hlen := lengthBytes_sent f
  simp only [SentFrame.encode, SentFrame.head, encode, ClientFrame.sent, hlen, cons_append, append_assoc]
  rfl

theorem header_sent : f.sent.header (some f.mask) = f.header := by
  have hlen := lengthBytes_sent f
  have hmask := f.mask.2
  simp only [SentFrame.header, SentFrame.head, header, ClientFrame.sent, hlen, SentFrame.keyBytes, Option.elim,
    Option.isSome_some, length_cons, length_append, hmask, WsHeader.mk.injEq, true_and, and_true]
  omega

theorem length_encode :
    f.encode.length = f.header.headerLen + f.header.payloadLen := by
  rw [← encode_sent, ← header_sent]
  exact f.sent.length_encode _

theorem wsDecodeHeader_encode (more : Bytes) :
    wsDecodeHeader (f.encode ++ more) = .ok f.header := by
  have hshort : f.sent.payload.length ≤ 65535 := f.short
  rw [← encode_sent, ← header_sent]
  exact f.sent.wsDecodeHeader_encode _ (by omega) more

end

/-- A frame cut short is waited for: its header is incomplete, or it gives a length that has not arrived. -/
theorem wsDecodeHeader_cut {f : ClientFrame} {p q : Bytes} (h : p ++ q = f.encode) (hq : q ≠ []) :
    wsDecodeHeader p = .incomplete ∨
      (wsDecodeHeader p = .ok f.header ∧ p.length < f.header.headerLen + f.header.payloadLen) := by
  have hshort : f.sent.payload.length ≤ 65535 := f.short
  rw [← header_sent]
  exact f.sent.wsDecodeHeader_cut (by omega) (h.trans (encode_sent f).symm) hq

end Wave.Common
