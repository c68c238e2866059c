import Wave.Common.WsSentFrame

/-! # The client's frames (`common/ws_core.rs`) -/

namespace Wave.Common

open Lib

/-- What the code runs on: its byte order, and the largest value of a `usize`. -/
structure Target where
  order : ByteOrder
  usizeMax : Nat
  word : usizeMax < 2 ^ 64

def Target.isizeMax (t : Target) : Nat := t.usizeMax / 2

def wput (cap : Nat) (out b : Bytes) : Option Bytes := if out.length + b.length > cap then none else some (out ++ b)

/-- `ws_frame`, into `cap` bytes: what is written, or nothing when the frame does not fit. -/
def wsFrame (t : Target) (cap : Nat) (opcode : UInt8) (payload : Bytes) (mask : FixedBytes 4) : Option Bytes := do
  let first ← if cap = 0 then none else some [0x80 ||| (opcode &&& 0x0F)]
  let n := payload.length
  let length ←
    if n < 126 then wput cap first [0x80 ||| UInt8.ofNat n]
    else if n < 65536 then do
      let form ← wput cap first [0x80 ||| 126]
      wput cap form (Bytes.be16 (UInt16.ofNat n))
    else do
      let form ← wput cap first [0x80 ||| 127]
      wput cap form (Bytes.be64 (UInt64.ofNat n))
  let head ← wput cap length mask.1
  if head.length + n > cap then none else some (head ++ wsMaskWords t.order mask.1 payload)

structure WsFrame where
  fin : Bool
  opcode : UInt8
  masked : Bool
  payloadStart : Nat
  payloadEnd : Nat
  total : Nat

/-- `ws_parse_frame_checked`: the first frame of a buffer, once all of it is there. -/
def wsParseFrameChecked (t : Target) (buf : Bytes) : WsParse WsFrame :=
  match wsDecodeHeader buf with
  | .incomplete => .incomplete
  | .invalid => .invalid
  | .ok h =>
    if h.payloadLen > t.usizeMax then .invalid
    else if h.headerLen + h.payloadLen > t.usizeMax then .invalid
    else if buf.length < h.headerLen + h.payloadLen then .incomplete
    else
      .ok { fin := h.fin, opcode := h.opcode, masked := h.masked, payloadStart := h.headerLen,
            payloadEnd := h.headerLen + h.payloadLen, total := h.headerLen + h.payloadLen }

theorem wput_bind {α : Type} (cap : Nat) (out b : Bytes) (next : Bytes → Option α) :
    (wput cap out b).bind next = if out.length + b.length > cap then none else next (out ++ b) := by
  unfold wput
  split <;> rfl

theorem wput_wput {α : Type} (cap : Nat) (out a b : Bytes) (next : Bytes → Option α) :
    ((wput cap out a).bind fun out => (wput cap out b).bind next) = (wput cap out (a ++ b)).bind next := by
  simp only [wput_bind, length_append, append_assoc]
  by_cases ha : out.length + a.length > cap
  · rw [if_pos ha, if_pos (by omega)]
  · rw [if_neg ha, Nat.add_assoc]

theorem SentFrame.firstByte_fin (f : SentFrame) (h : f.fin = true) : 0x80 ||| (f.opcode &&& 0x0F) = f.firstByte := by
  unfold firstByte
  rw [h, if_pos rfl]
  rcases f.opcode_cases with h | h | h | h | h | h <;> rw [h] <;> rfl

theorem wput_mask (cap : Nat) (front : Bytes) {payload : Bytes} {n : Nat} (hn : payload.length = n)
    (mask : FixedBytes 4) :
    ((wput cap front mask.1).bind fun head => if head.length + n > cap then none else some (head ++ payload)) =
      if front.length + 4 + n ≤ cap then some (front ++ mask.1 ++ payload) else none := by
  have hmask := mask.2
  rw [wput_bind, length_append, hmask]
  by_cases hfit : front.length + 4 + n ≤ cap
  · rw [if_neg (by omega), if_neg (by omega), if_pos hfit]
  · rw [if_neg hfit]
    split
    · rfl
    · rw [if_pos (by omega)]

theorem wsFrame_eq (t : Target) (cap : Nat) (f : SentFrame) (hfin : f.fin = true) (mask : FixedBytes 4) :
    wsFrame t cap f.opcode f.payload mask =
      if (f.encode (some mask)).length ≤ cap then some (f.encode (some mask)) else none := by
  have hmasked := length_wsMaskApply mask.1 f.payload
  have hbytes : f.encode (some mask) = [f.firstByte] ++ SentFrame.lengthBytes 0x80 f.payload.length ++ mask.1 ++
      wsMaskApply mask.1 f.payload := by
    simp [SentFrame.encode, SentFrame.head, SentFrame.maskBit, SentFrame.keyBytes, SentFrame.masked]
  have hlen : (f.encode (some mask)).length =
      ([f.firstByte] ++ SentFrame.lengthBytes 0x80 f.payload.length).length + 4 + f.payload.length := by
    rw [hbytes, length_append, length_append, mask.2, hmasked]
  -- The length bytes are written at once or behind the byte that gives their form.
  have hwhole : wsFrame t cap f.opcode f.payload mask =
      if cap = 0 then none
      else (wput cap [f.firstByte] (SentFrame.lengthBytes 0x80 f.payload.length)).bind fun length =>
        (wput cap length mask.1).bind fun head =>
          if head.length + f.payload.length > cap then none else some (head ++ wsMaskApply mask.1 f.payload) := by
    unfold wsFrame SentFrame.lengthBytes
    rw [f.firstByte_fin hfin, wsMaskWords_eq]
    by_cases hcap : cap = 0
    · rw [if_pos hcap, if_pos hcap]
      rfl
    · rw [if_neg hcap, if_neg hcap]
      simp only [bind, bind_some]
      by_cases h125 : f.payload.length < 126
      · rw [if_pos h125, if_pos (by omega)]
      · rw [if_neg h125, if_neg (show ¬ f.payload.length ≤ 125 by omega)]
        by_cases h16 : f.payload.length < 65536
        · rw [if_pos h16, if_pos (by omega)]
          exact wput_wput ..
        · rw [if_neg h16, if_neg (by omega)]
          exact wput_wput ..
  rw [hwhole, hlen]
  by_cases hcap : cap = 0
  · rw [if_pos hcap, if_neg (by omega)]
  · rw [if_neg hcap, wput_bind, wput_mask cap _ hmasked, hbytes]
    by_cases hfirst : [f.firstByte].length + (SentFrame.lengthBytes 0x80 f.payload.length).length > cap
    · rw [if_pos hfirst, if_neg (by rw [length_append]; omega)]
    · rw [if_neg hfirst]

variable (t : Target) {f : SentFrame} {key : Option (FixedBytes 4)}

theorem payload_small (t : Target) (h : (f.encode key).length ≤ t.isizeMax) : f.payload.length < 2 ^ 63 := by
  have hword := t.word
  have hlen := f.length_encode key
  have hpayload : (f.header key).payloadLen = f.payload.length := rfl
  unfold Target.isizeMax at h
  omega

theorem wsParseFrameChecked_encode (h : (f.encode key).length ≤ t.isizeMax) (more : Bytes) :
    wsParseFrameChecked t (f.encode key ++ more) =
      .ok { fin := f.fin, opcode := f.opcode, masked := key.isSome, payloadStart := (f.head key).length,
            payloadEnd := (f.encode key).length, total := (f.encode key).length } := by
  have hlen := f.length_encode key
  have hfit : (f.header key).headerLen + (f.header key).payloadLen ≤ t.usizeMax := by
    unfold Target.isizeMax at h
    omega
  unfold wsParseFrameChecked
  rw [f.wsDecodeHeader_encode key (payload_small t h) more]
  dsimp only
  rw [if_neg (by omega), if_neg (by omega), if_neg (by rw [length_append]; omega), ← hlen]
  rfl

theorem wsParseFrameChecked_cut (h : (f.encode key).length ≤ t.isizeMax) {p q : Bytes} (hp : p ++ q = f.encode key)
    (hq : q ≠ []) : wsParseFrameChecked t p = .incomplete := by
  have hlen := f.length_encode key
  have hfit : (f.header key).headerLen + (f.header key).payloadLen ≤ t.usizeMax := by
    unfold Target.isizeMax at h
    omega
  unfold wsParseFrameChecked
  rcases f.wsDecodeHeader_cut (payload_small t h) hp hq with hi | ⟨ho, hshort⟩
  · rw [hi]
  · rw [ho]
    dsimp only
    rw [if_neg (by omega), if_neg (by omega), if_pos hshort]

end Wave.Common
