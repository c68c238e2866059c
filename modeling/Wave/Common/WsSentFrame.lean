import Wave.Common.WsFrame
import Mathlib.Data.List.Infix

/-! # Frames as RFC 6455 lets them be sent

A frame written out with the shortest length form, masked or not, and what the header decoder makes of it.
The decoder reads every such frame back, waits for a cut one or gives a length that has not arrived, and
never changes what it said of a buffer when more bytes come. -/

namespace Wave.Common

open Lib

variable {buf : Bytes} {len7 : UInt8}

inductive ByteOrder where
  | little
  | big
deriving DecidableEq

/-- `u32::from_ne_bytes` -/
def ByteOrder.fromNe : ByteOrder → UInt8 → UInt8 → UInt8 → UInt8 → UInt32
  | .little => Bytes.u32le
  | .big => Bytes.u32be

/-- `u32::to_ne_bytes` -/
def ByteOrder.toNe : ByteOrder → UInt32 → Bytes
  | .little => Bytes.le32
  | .big => Bytes.be32

/-- `ws_mask_apply`: whole words of the target's order, then what `chunks_exact_mut` leaves. -/
def wsMaskWords (order : ByteOrder) (key : Bytes) : Bytes → Bytes
  | a :: b :: c :: d :: rest =>
    order.toNe (order.fromNe a b c d ^^^
      order.fromNe (Bytes.at0 key 0) (Bytes.at0 key 1) (Bytes.at0 key 2) (Bytes.at0 key 3)) ++
      wsMaskWords order key rest
  | rest => rest.mapIdx fun i b => b ^^^ Bytes.at0 key i

theorem toNe_xor (order : ByteOrder) (a b c d k l m n : UInt8) :
    order.toNe (order.fromNe a b c d ^^^ order.fromNe k l m n) = [a ^^^ k, b ^^^ l, c ^^^ m, d ^^^ n] := by
  have hle : ∀ v : UInt32, Bytes.le32 v = (Bytes.be32 v).reverse := fun _ => rfl
  cases order with
  | little =>
    change Bytes.le32 (Bytes.u32be d c b a ^^^ Bytes.u32be n m l k) = _
    rw [hle, Bytes.be32_xor, Bytes.be32_u32be, Bytes.be32_u32be]
    rfl
  | big =>
    change Bytes.be32 (Bytes.u32be a b c d ^^^ Bytes.u32be k l m n) = _
    rw [Bytes.be32_xor, Bytes.be32_u32be, Bytes.be32_u32be]
    rfl

theorem wsMaskWords_eq (order : ByteOrder) (key buf : Bytes) :
    wsMaskWords order key buf = wsMaskApply key buf := by
  fun_induction wsMaskWords order key buf with
  | case1 a b c d rest ih =>
    rw [ih, toNe_xor]
    simp [wsMaskApply, List.mapIdx_cons, Bytes.at0, Nat.add_assoc]
  | case2 rest hshort =>
    unfold wsMaskApply
    have hlen : rest.length < 4 := by
      obtain _ | ⟨a, _ | ⟨b, _ | ⟨c, _ | ⟨d, rest⟩⟩⟩⟩ := rest
      iterate 4 simp
      exact absurd rfl (hshort a b c d rest)
    refine List.ext_getElem (by simp) fun i h1 h2 => ?_
    have hi : i < rest.length := by simpa using h1
    simp [Bytes.at0, Nat.mod_eq_of_lt (hi.trans hlen)]

structure SentFrame where
  fin : Bool
  opcode : UInt8
  payload : Bytes
  opcode_valid : wsIsValidOpcode opcode = true
  control : wsIsControlOpcode opcode = true → fin = true ∧ payload.length ≤ 125

namespace SentFrame

def firstByte (f : SentFrame) : UInt8 := (if f.fin then 0x80 else 0) ||| f.opcode

def lengthBytes (bit : UInt8) (n : Nat) : Bytes :=
  if n ≤ 125 then [bit ||| UInt8.ofNat n]
  else if n ≤ 65535 then (bit ||| 126) :: Bytes.be16 (UInt16.ofNat n)
  else (bit ||| 127) :: Bytes.be64 (UInt64.ofNat n)

def maskBit (key : Option (FixedBytes 4)) : UInt8 := if key.isSome then 0x80 else 0

def keyBytes (key : Option (FixedBytes 4)) : Bytes := key.elim [] (·.1)

def masked (key : Option (FixedBytes 4)) (payload : Bytes) : Bytes :=
  key.elim payload (wsMaskApply ·.1 payload)

def head (f : SentFrame) (key : Option (FixedBytes 4)) : Bytes :=
  f.firstByte :: (lengthBytes (maskBit key) f.payload.length ++ keyBytes key)

def encode (f : SentFrame) (key : Option (FixedBytes 4)) : Bytes := f.head key ++ masked key f.payload

def header (f : SentFrame) (key : Option (FixedBytes 4)) : WsHeader where
  fin := f.fin
  opcode := f.opcode
  masked := key.isSome
  maskKey := key.elim [0, 0, 0, 0] (·.1)
  headerLen := (f.head key).length
  payloadLen := f.payload.length

end SentFrame

theorem length_wsMaskApply (key buf : Bytes) : (wsMaskApply key buf).length = buf.length := by
  simp [wsMaskApply]

theorem wsMaskApply_wsMaskApply (key buf : Bytes) : wsMaskApply key (wsMaskApply key buf) = buf := by
  apply List.ext_getElem
  · simp [wsMaskApply]
  · intro i h1 h2
    simp only [wsMaskApply, List.getElem_mapIdx, UInt8.xor_assoc, UInt8.xor_self, UInt8.xor_zero]

namespace SentFrame

variable (f : SentFrame) (key : Option (FixedBytes 4))

theorem length_masked (payload : Bytes) : (masked key payload).length = payload.length := by
  cases key with
  | none => rfl
  | some k => exact length_wsMaskApply k.1 payload

theorem length_encode : (f.encode key).length = (f.header key).headerLen + (f.header key).payloadLen := by
  rw [encode, length_append, length_masked]
  rfl

theorem length_head_le : (f.head key).length ≤ 14 := by
  have hkey : (keyBytes key).length ≤ 4 := by
    cases key with
    | none => exact Nat.zero_le 4
    | some k => exact k.2.le
  have hlen : (lengthBytes (maskBit key) f.payload.length).length ≤ 9 := by
    unfold lengthBytes
    split
    · simp
    · split <;> simp [Bytes.be64]
  simp only [head, length_cons, length_append]
  omega

theorem opcode_cases :
    f.opcode = WS_OP_CONTINUATION ∨ f.opcode = WS_OP_TEXT ∨ f.opcode = WS_OP_BINARY ∨
      f.opcode = WS_OP_CLOSE ∨ f.opcode = WS_OP_PING ∨ f.opcode = WS_OP_PONG := by
  have h := f.opcode_valid
  simpa [wsIsValidOpcode, or_assoc] using h

theorem firstByte_spec :
    decide (f.firstByte &&& 0x80 ≠ 0) = f.fin ∧ f.firstByte &&& 0x0F = f.opcode ∧ f.firstByte &&& 0x70 = 0 := by
  unfold firstByte
  rcases opcode_cases f with h | h | h | h | h | h <;> cases f.fin <;> rw [h] <;> decide

theorem secondByte_spec (set : Bool) : ∀ n : Fin 128,
    decide (((if set then 0x80 else 0) ||| UInt8.ofNat n.val) &&& 0x80 ≠ 0) = set ∧
      ((if set then 0x80 else 0) ||| UInt8.ofNat n.val) &&& 0x7F = UInt8.ofNat n.val := by
  cases set <;> decide

theorem u16be_length {n : Nat} (h : n ≤ 65535) :
    (Bytes.u16be (UInt16.ofNat n >>> 8).toUInt8 (UInt16.ofNat n).toUInt8).toNat = n := by
  rw [Bytes.u16be_be16]
  simp
  omega

theorem control_check (h : f.payload.length ≤ 125 → len7 ≤ 125) :
    (wsIsControlOpcode f.opcode && (!f.fin || decide (len7 > 125))) = false := by
  by_cases hc : wsIsControlOpcode f.opcode = true
  · obtain ⟨hfin, hlen⟩ := f.control hc
    have := h hlen
    simp [hc, hfin, this]
  · simp [hc]

theorem wsLength_lengthBytes {n : Nat} (hn : n < 2 ^ 63) (b0 : UInt8) (tail : Bytes) :
    ∃ (len7 : UInt8) (rest : Bytes), lengthBytes (maskBit key) n = (maskBit key ||| len7) :: rest ∧
      (n ≤ 125 → len7 ≤ 125) ∧ decide ((maskBit key ||| len7) &&& 0x80 ≠ 0) = key.isSome ∧
      (maskBit key ||| len7) &&& 0x7F = len7 ∧
      wsLength len7 (b0 :: (lengthBytes (maskBit key) n ++ tail)) =
        .ok (1 + (lengthBytes (maskBit key) n).length, n) := by
  unfold lengthBytes
  by_cases h125 : n ≤ 125
  · obtain ⟨hm, h7⟩ := secondByte_spec key.isSome ⟨n, by omega⟩
    have hnat : (UInt8.ofNat n).toNat = n := UInt8.toNat_ofNat_of_lt (by change _ < 256; omega)
    have hne : ∀ m : UInt8, 125 < m.toNat → UInt8.ofNat n ≠ m := by
      rintro m hm rfl
      omega
    rw [if_pos h125]
    refine ⟨UInt8.ofNat n, [], rfl, fun _ => ?_, hm, h7, ?_⟩
    · rw [UInt8.le_iff_toNat_le, hnat]
      exact h125
    · rw [wsLength, if_neg (hne 126 (by decide)), if_neg (hne 127 (by decide)), hnat]
      rfl
  · rw [if_neg h125]
    by_cases h16 : n ≤ 65535
    · obtain ⟨hm, h7⟩ := secondByte_spec key.isSome 126
      rw [if_pos h16]
      refine ⟨126, _, rfl, fun h => absurd h h125, hm, h7, ?_⟩
      have hread := u16be_length h16
      rw [wsLength, if_pos rfl, if_neg (by simp)]
      change (if (Bytes.u16be (UInt16.ofNat n >>> 8).toUInt8 (UInt16.ofNat n).toUInt8).toNat < 126 then
        WsParse.invalid else .ok (4, (Bytes.u16be (UInt16.ofNat n >>> 8).toUInt8 (UInt16.ofNat n).toUInt8).toNat)) = _
      rw [hread, if_neg (by omega)]
      rfl
    · obtain ⟨hm, h7⟩ := secondByte_spec key.isSome 127
      rw [if_neg h16]
      refine ⟨127, _, rfl, fun h => absurd h h125, hm, h7, ?_⟩
      have hnat : (UInt64.ofNat n).toNat = n := UInt64.toNat_ofNat_of_lt (by change _ < 2 ^ 64; omega)
      have hslice : Bytes.slice (b0 :: ((maskBit key ||| 127) :: Bytes.be64 (UInt64.ofNat n) ++ tail)) 2 10 =
          Bytes.be64 (UInt64.ofNat n) := rfl
      rw [wsLength, if_neg (by decide), if_pos rfl, if_neg (by simp [Bytes.be64]; omega), hslice, Bytes.value_be64, hnat]
      dsimp only
      rw [if_neg (by omega)]
      rfl

theorem wsMaskKey_keyBytes (front tail : Bytes) :
    wsMaskKey key.isSome front.length (front ++ (keyBytes key ++ tail)) =
      .ok ((front ++ keyBytes key).length, key.elim [0, 0, 0, 0] (·.1)) := by
  cases key with
  | none => simp [wsMaskKey, keyBytes]
  | some k =>
    have hk := k.2
    have hslice : Bytes.slice (front ++ (k.1 ++ tail)) front.length (front.length + k.1.length) = k.1 :=
      Bytes.slice_middle front k.1 tail
    rw [hk] at hslice
    rw [wsMaskKey, Option.isSome_some, if_pos rfl, if_neg (by simp [keyBytes, hk])]
    simp only [keyBytes, Option.elim, hslice, length_append, hk]

theorem wsDecodeHeader_head (hn : f.payload.length < 2 ^ 63) (tail : Bytes) :
    wsDecodeHeader (f.head key ++ tail) = .ok (f.header key) := by
  obtain ⟨hfin, hop, hrsv⟩ := firstByte_spec f
  obtain ⟨len7, rest, hbytes, hle, hm, h7, hlength⟩ := wsLength_lengthBytes key hn f.firstByte (keyBytes key ++ tail)
  have hkey := wsMaskKey_keyBytes key (f.firstByte :: lengthBytes (maskBit key) f.payload.length) tail
  have hc := control_check f hle
  have hsmall := length_head_le f key
  have hbuf : f.head key ++ tail =
      f.firstByte :: (lengthBytes (maskBit key) f.payload.length ++ (keyBytes key ++ tail)) := by
    simp [head]
  have h0 : ∀ l : Bytes, Bytes.at0 (f.firstByte :: l) 0 = f.firstByte := fun _ => rfl
  have h1 : ∀ l : Bytes, Bytes.at0 (f.firstByte :: (lengthBytes (maskBit key) f.payload.length ++ l)) 1 =
      maskBit key ||| len7 := by
    intro l
    rw [hbytes]
    rfl
  have hlen2 : ¬ (f.firstByte :: (lengthBytes (maskBit key) f.payload.length ++ (keyBytes key ++ tail))).length < 2 := by
    rw [hbytes]
    simp
  rw [cons_append, length_cons, Nat.add_comm] at hkey
  rw [hbuf]
  unfold wsDecodeHeader
  rw [if_neg hlen2]
  simp only [h0, h1, hfin, hop, hm, h7, hrsv, hc, f.opcode_valid, hlength, hkey]
  rw [if_neg (by decide), if_neg (by decide), if_neg (by decide), if_neg]
  · rfl
  · change ¬ (f.head key).length + f.payload.length ≥ 2 ^ 64
    omega

theorem wsDecodeHeader_encode (hn : f.payload.length < 2 ^ 63) (more : Bytes) :
    wsDecodeHeader (f.encode key ++ more) = .ok (f.header key) := by
  rw [encode, append_assoc]
  exact wsDecodeHeader_head f key hn _

end SentFrame

theorem le_length_of_wsLength {r : Nat × Nat} (h2 : 2 ≤ buf.length) (h : wsLength len7 buf = .ok r) : r.1 ≤ buf.length := by
  unfold wsLength at h
  dsimp only at h
  split at h
  · split at h
    · cases h
    · split at h
      · cases h
      · cases h
        omega
  · split at h
    · split at h
      · cases h
      · split at h
        · cases h
        · cases h
          omega
    · cases h
      exact h2

theorem le_length_of_wsMaskKey {masked : Bool} {len : Nat} {r : Nat × Bytes} (hlen : len ≤ buf.length)
    (h : wsMaskKey masked len buf = .ok r) : r.1 ≤ buf.length := by
  unfold wsMaskKey at h
  split at h
  · split at h
    · cases h
    · cases h
      omega
  · cases h
    exact hlen

theorem two_le_of_wsLength {r : Nat × Nat} (h : wsLength len7 buf = .ok r) :
    2 ≤ r.1 := by
  unfold wsLength at h
  dsimp only at h
  split at h
  · split at h
    · cases h
    · split at h
      · cases h
      · cases h
        simp
  · split at h
    · split at h
      · cases h
      · split at h
        · cases h
        · cases h
          simp
    · cases h
      simp

theorem le_of_wsMaskKey {masked : Bool} {len : Nat} {r : Nat × Bytes} (h : wsMaskKey masked len buf = .ok r) : len ≤ r.1 := by
  unfold wsMaskKey at h
  split at h
  · split at h
    · cases h
    · cases h
      simp
  · cases h
    exact le_rfl

theorem wsDecodeHeader_inv {hd : WsHeader} (h : wsDecodeHeader buf = .ok hd) :
    2 ≤ buf.length ∧ ∃ len7 len n masked key, wsLength len7 buf = .ok (len, n) ∧
      wsMaskKey masked len buf = .ok (hd.headerLen, key) := by
  unfold wsDecodeHeader at h
  dsimp only at h
  split at h
  · cases h
  next hlen2 =>
    split at h
    · cases h
    split at h
    · cases h
    split at h
    · cases h
    split at h
    · cases h
    · cases h
    next len n hlen =>
      split at h
      · cases h
      · cases h
      next hl key hkey =>
        split at h
        · cases h
        · cases h
          exact ⟨Nat.le_of_not_lt hlen2, _, len, n, _, key, hlen, hkey⟩

theorem two_le_headerLen {hd : WsHeader} (h : wsDecodeHeader buf = .ok hd) : 2 ≤ hd.headerLen := by
  obtain ⟨-, len7, len, n, masked, key, hlen, hkey⟩ := wsDecodeHeader_inv h
  exact (two_le_of_wsLength hlen).trans (le_of_wsMaskKey hkey)

theorem headerLen_le {hd : WsHeader} (h : wsDecodeHeader buf = .ok hd) : hd.headerLen ≤ buf.length := by
  obtain ⟨h2, len7, len, n, masked, key, hlen, hkey⟩ := wsDecodeHeader_inv h
  exact le_length_of_wsMaskKey (le_length_of_wsLength h2 hlen) hkey

theorem at0_append {p q : Bytes} {i : Nat} (h : i < p.length) : Bytes.at0 (p ++ q) i = Bytes.at0 p i := by
  simp [Bytes.at0, List.getD_eq_getElem?_getD, List.getElem?_append_left h]

theorem slice_append {p q : Bytes} {i j : Nat} (h : j ≤ p.length) : Bytes.slice (p ++ q) i j = Bytes.slice p i j := by
  unfold Bytes.slice
  by_cases hij : i ≤ j
  · rw [drop_append_of_le_length (by omega), take_append_of_le_length (by simp; omega)]
  · rw [show j - i = 0 by omega, take_zero, take_zero]

theorem wsLength_append {p q : Bytes} (h : wsLength len7 p ≠ .incomplete) :
    wsLength len7 (p ++ q) = wsLength len7 p := by
  unfold wsLength at h ⊢
  by_cases h126 : len7 = 126
  · rw [if_pos h126] at h ⊢
    rw [if_pos h126]
    by_cases hlen : p.length < 4
    · exact absurd (if_pos hlen) h
    · rw [if_neg hlen, if_neg (by simp; omega), at0_append (by omega), at0_append (by omega)]
  · rw [if_neg h126] at h ⊢
    rw [if_neg h126]
    by_cases h127 : len7 = 127
    · rw [if_pos h127] at h ⊢
      rw [if_pos h127]
      by_cases hlen : p.length < 10
      · exact absurd (if_pos hlen) h
      · rw [if_neg hlen, if_neg (by simp; omega), slice_append (by omega)]
    · rw [if_neg h127, if_neg h127]

theorem wsMaskKey_append {masked : Bool} {len : Nat} {p q : Bytes} (h : wsMaskKey masked len p ≠ .incomplete) :
    wsMaskKey masked len (p ++ q) = wsMaskKey masked len p := by
  unfold wsMaskKey at h ⊢
  cases masked with
  | false => rfl
  | true =>
    simp only [if_true] at h ⊢
    by_cases hlen : p.length < len + 4
    · exact absurd (if_pos hlen) h
    · rw [if_neg hlen, if_neg (by simp; omega), slice_append (by omega)]

/-- What the decoder said of a buffer it still says when more has arrived, unless it asked for more. -/
theorem wsDecodeHeader_append {p q : Bytes} (h : wsDecodeHeader p ≠ .incomplete) :
    wsDecodeHeader (p ++ q) = wsDecodeHeader p := by
  unfold wsDecodeHeader at h ⊢
  by_cases hlen : p.length < 2
  · exact absurd (if_pos hlen) h
  rw [if_neg hlen] at h ⊢
  rw [if_neg (by simp; omega), at0_append (by omega), at0_append (by omega)]
  dsimp only at h ⊢
  split at h
  next hr => rw [if_pos hr, if_pos hr]
  next hr =>
    rw [if_neg hr, if_neg hr]
    split at h
    next ho => rw [if_pos ho, if_pos ho]
    next ho =>
      rw [if_neg ho, if_neg ho]
      split at h
      next hc => rw [if_pos hc, if_pos hc]
      next hc =>
        rw [if_neg hc, if_neg hc]
        have hl : wsLength (Bytes.at0 p 1 &&& 127) p ≠ .incomplete := by
          intro hi
          rw [hi] at h
          exact h rfl
        rw [wsLength_append hl]
        cases hlp : wsLength (Bytes.at0 p 1 &&& 127) p with
        | incomplete => exact absurd hlp hl
        | invalid => rfl
        | ok r =>
          dsimp only
          rw [hlp] at h
          have hk : wsMaskKey (decide (Bytes.at0 p 1 &&& 128 ≠ 0)) r.1 p ≠ .incomplete := by
            intro hi
            dsimp only at h
            rw [hi] at h
            exact h rfl
          rw [wsMaskKey_append hk]

theorem SentFrame.wsDecodeHeader_front (f : SentFrame) {key : Option (FixedBytes 4)} {p q : Bytes}
    (hn : f.payload.length < 2 ^ 63) (h : p ++ q = f.encode key) :
    wsDecodeHeader p = if p.length < (f.head key).length then .incomplete else .ok (f.header key) := by
  by_cases hi : wsDecodeHeader p = .incomplete
  · rw [hi, if_pos]
    by_contra hlong
    obtain ⟨tail, htail⟩ : ∃ tail, f.head key ++ tail = p :=
      List.prefix_of_prefix_length_le (prefix_append _ _) ⟨q, h⟩ (Nat.le_of_not_lt hlong)
    rw [← htail, f.wsDecodeHeader_head key hn tail] at hi
    cases hi
  · have ho : wsDecodeHeader p = .ok (f.header key) := by
      rw [← wsDecodeHeader_append (q := q) hi, h]
      simpa using f.wsDecodeHeader_encode key hn []
    have hle : (f.head key).length ≤ p.length := headerLen_le ho
    rw [ho, if_neg (Nat.not_lt.mpr hle)]

theorem SentFrame.wsDecodeHeader_cut {f : SentFrame} {key : Option (FixedBytes 4)} {p q : Bytes}
    (hn : f.payload.length < 2 ^ 63) (h : p ++ q = f.encode key) (hq : q ≠ []) :
    wsDecodeHeader p = .incomplete ∨
      (wsDecodeHeader p = .ok (f.header key) ∧
        p.length < (f.header key).headerLen + (f.header key).payloadLen) := by
  have hread := f.wsDecodeHeader_front hn h
  have hpos := length_pos_of_ne_nil hq
  split at hread
  · exact .inl hread
  · refine .inr ⟨hread, ?_⟩
    rw [← f.length_encode key, ← h, length_append]
    omega

end Wave.Common
