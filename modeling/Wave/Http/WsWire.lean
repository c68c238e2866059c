import Wave.Http.Ws
import Wave.Common.WsCore

/-! # Frames on the wire (`http/wire/ws.rs`) -/

namespace Wave.Http.Wire

open Lib Common

/-- `write_frame`: nothing when the frame does not fit. -/
def writeFrame (cap : Nat) (fin : Bool) (opcode : UInt8) (payload : Bytes) : Bytes :=
  let n := payload.length
  if n > 65535 then []
  else
    let headerLen := if n ≤ 125 then 2 else 4
    if cap < headerLen + n then []
    else
      let length := if n ≤ 125 then [UInt8.ofNat n] else 126 :: Bytes.be16 (UInt16.ofNat n)
      ((if fin then 0x80 else 0) ||| (opcode &&& 0x0F)) :: (length ++ payload)

def writeFrameMasked (t : Target) (cap : Nat) (fin : Bool) (opcode : UInt8) (payload : Bytes)
    (maskKey : FixedBytes 4) : Bytes :=
  let n := payload.length
  if n > 65535 then []
  else
    let extendedLen := if n ≤ 125 then 0 else 2
    let headerLen := 2 + extendedLen + 4
    if cap < headerLen + n then []
    else
      let length := if n ≤ 125 then [0x80 ||| UInt8.ofNat n] else (0x80 ||| 126) :: Bytes.be16 (UInt16.ofNat n)
      ((if fin then 0x80 else 0) ||| (opcode &&& 0x0F)) ::
        (length ++ maskKey.1 ++ wsMaskWords t.order maskKey.1 payload)

def unmask (t : Target) (payload maskKey : Bytes) : Bytes := wsMaskWords t.order maskKey payload

theorem firstByte_eq (f : SentFrame) : (if f.fin then 0x80 else 0) ||| (f.opcode &&& 0x0F) = f.firstByte := by
  unfold SentFrame.firstByte
  rcases f.opcode_cases with h | h | h | h | h | h <;> rw [h] <;> rfl

theorem writeFrame_eq (cap : Nat) (f : SentFrame) (h : writeFrame cap f.fin f.opcode f.payload ≠ []) :
    writeFrame cap f.fin f.opcode f.payload = f.encode none ∧ (f.encode none).length ≤ cap ∧
      f.payload.length ≤ 65535 := by
  have hzero : ∀ b : UInt8, 0 ||| b = b := fun b => UInt8.zero_or
  unfold writeFrame at h ⊢
  dsimp only at h ⊢
  rw [firstByte_eq] at h ⊢
  by_cases hlong : f.payload.length > 65535
  · exact absurd (if_pos hlong) h
  rw [if_neg hlong] at h ⊢
  by_cases hcap : cap < (if f.payload.length ≤ 125 then 2 else 4) + f.payload.length
  · exact absurd (if_pos hcap) h
  rw [if_neg hcap]
  have hlength : SentFrame.lengthBytes (SentFrame.maskBit none) f.payload.length =
      if f.payload.length ≤ 125 then [UInt8.ofNat f.payload.length]
      else 126 :: Bytes.be16 (UInt16.ofNat f.payload.length) := by
    unfold SentFrame.lengthBytes
    rw [if_pos (show f.payload.length ≤ 65535 by omega)]
    change (if f.payload.length ≤ 125 then [0 ||| UInt8.ofNat f.payload.length] else _) = _
    rw [hzero]
    rfl
  have hbytes : f.encode none = f.firstByte :: ((if f.payload.length ≤ 125 then [UInt8.ofNat f.payload.length]
      else 126 :: Bytes.be16 (UInt16.ofNat f.payload.length)) ++ f.payload) := by
    rw [← hlength]
    simp [SentFrame.encode, SentFrame.head, SentFrame.keyBytes, SentFrame.masked]
  refine ⟨hbytes.symm, ?_, Nat.le_of_not_gt hlong⟩
  rw [hbytes]
  split at hcap <;> rename_i hn <;> simp [hn] <;> omega

theorem writeFrameMasked_eq (t : Target) (cap : Nat) (f : SentFrame) (key : FixedBytes 4)
    (h : writeFrameMasked t cap f.fin f.opcode f.payload key ≠ []) :
    writeFrameMasked t cap f.fin f.opcode f.payload key = f.encode (some key) ∧
      (f.encode (some key)).length ≤ cap ∧ f.payload.length ≤ 65535 := by
  have hmask := key.2
  have hmasked := length_wsMaskApply key.1 f.payload
  unfold writeFrameMasked at h ⊢
  dsimp only at h ⊢
  rw [firstByte_eq, wsMaskWords_eq] at h ⊢
  by_cases hlong : f.payload.length > 65535
  · exact absurd (if_pos hlong) h
  rw [if_neg hlong] at h ⊢
  by_cases hcap : cap < 2 + (if f.payload.length ≤ 125 then 0 else 2) + 4 + f.payload.length
  · exact absurd (if_pos hcap) h
  rw [if_neg hcap]
  have hlength : SentFrame.lengthBytes (SentFrame.maskBit (some key)) f.payload.length =
      if f.payload.length ≤ 125 then [0x80 ||| UInt8.ofNat f.payload.length]
      else (0x80 ||| 126) :: Bytes.be16 (UInt16.ofNat f.payload.length) := by
    unfold SentFrame.lengthBytes
    rw [if_pos (show f.payload.length ≤ 65535 by omega)]
    rfl
  have hbytes : f.encode (some key) = f.firstByte :: ((if f.payload.length ≤ 125 then
      [0x80 ||| UInt8.ofNat f.payload.length] else (0x80 ||| 126) :: Bytes.be16 (UInt16.ofNat f.payload.length)) ++
        key.1 ++ wsMaskApply key.1 f.payload) := by
    rw [← hlength]
    simp [SentFrame.encode, SentFrame.head, SentFrame.keyBytes, SentFrame.masked]
  refine ⟨hbytes.symm, ?_, Nat.le_of_not_gt hlong⟩
  rw [hbytes]
  split at hcap <;> rename_i hn <;> simp [hn, hmask, hmasked] <;> omega

/-- `parse_frame` and `unmask` give a written frame back, whatever stands behind it; its front is waited for. -/
def ServerReads (t : Target) (out : Bytes) (fin : Bool) (opcode : UInt8) (payload : Bytes) : Prop :=
  ∃ h : WsHeader, h.fin = fin ∧ h.opcode = opcode ∧ h.headerLen + h.payloadLen = out.length ∧
    (∀ more, parseFrame (out ++ more) = .ok h ∧
      unmask t (Bytes.slice (out ++ more) h.headerLen (h.headerLen + h.payloadLen)) h.maskKey = payload) ∧
    ∀ p q, p ++ q = out → parseFrame p = if p.length < h.headerLen then .incomplete else .ok h

/-- `ws_parse_frame_checked` gives a frame that was written without a mask back, with the length that was
written. -/
def ClientReads (t : Target) (out : Bytes) (fin : Bool) (opcode : UInt8) (payload : Bytes) : Prop :=
  ∃ w : WsFrame, w.fin = fin ∧ w.opcode = opcode ∧ w.masked = false ∧ w.total = out.length ∧
    ∀ more, wsParseFrameChecked t (out ++ more) = .ok w ∧
      Bytes.slice (out ++ more) w.payloadStart w.payloadEnd = payload

/-- `ws_parse_frame_checked` waits for the rest of a frame cut short. -/
def WaitsFor (t : Target) (out : Bytes) : Prop :=
  ∀ p q, p ++ q = out → q ≠ [] → wsParseFrameChecked t p = .incomplete

variable {t : Target} {f : SentFrame} {key : Option (FixedBytes 4)}

theorem slice_payload (f : SentFrame) (key : Option (FixedBytes 4)) (more : Bytes) :
    Bytes.slice (f.encode key ++ more) (f.head key).length (f.encode key).length =
      SentFrame.masked key f.payload := by
  have hslice := Bytes.slice_middle (f.head key) (SentFrame.masked key f.payload) more
  rwa [← append_assoc, ← length_append] at hslice

theorem unmask_masked (t : Target) (key : Option (FixedBytes 4)) (payload : Bytes) :
    unmask t (SentFrame.masked key payload) (key.elim [0, 0, 0, 0] (·.1)) = payload := by
  unfold unmask
  rw [wsMaskWords_eq]
  cases key with
  | some k => exact wsMaskApply_wsMaskApply k.1 payload
  | none =>
    have hzero : ∀ i : Nat, ([0, 0, 0, 0] : Bytes)[i % 4]?.getD 0 = 0 := by
      intro i
      have hlt : i % 4 < 4 := Nat.mod_lt _ (by decide)
      generalize i % 4 = j at hlt
      match j, hlt with
      | 0, _ | 1, _ | 2, _ | 3, _ => rfl
    refine List.ext_getElem (by simp [wsMaskApply, SentFrame.masked]) fun i h1 h2 => ?_
    simp [wsMaskApply, SentFrame.masked, hzero]

theorem serverReads_encode (h : f.payload.length < 2 ^ 32) : ServerReads t (f.encode key) f.fin f.opcode f.payload := by
  have hsmall : f.payload.length < 2 ^ 63 := by omega
  have hparse : ∀ {buf : Bytes}, wsDecodeHeader buf = .ok (f.header key) → parseFrame buf = .ok (f.header key) := by
    intro buf hbuf
    unfold parseFrame
    rw [hbuf]
    exact if_neg (Nat.not_le.mpr h)
  refine ⟨f.header key, rfl, rfl, (f.length_encode key).symm, fun more => ⟨?_, ?_⟩, fun p q hp => ?_⟩
  · exact hparse (f.wsDecodeHeader_encode key hsmall more)
  · rw [← f.length_encode key]
    exact (congrArg (unmask t · _) (slice_payload f key more)).trans (unmask_masked t key f.payload)
  · have hfront := f.wsDecodeHeader_front hsmall hp
    by_cases hshort : p.length < (f.head key).length
    · rw [if_pos hshort] at hfront
      unfold parseFrame
      rw [hfront]
      exact (if_pos hshort).symm
    · rw [if_neg hshort] at hfront
      exact (hparse hfront).trans (if_neg hshort).symm

theorem clientReads_encode (h : (f.encode none).length ≤ t.isizeMax) :
    ClientReads t (f.encode none) f.fin f.opcode f.payload :=
  ⟨_, rfl, rfl, rfl, rfl, fun more => ⟨wsParseFrameChecked_encode t h more, slice_payload f none more⟩⟩

theorem waitsFor_encode (h : (f.encode key).length ≤ t.isizeMax) : WaitsFor t (f.encode key) :=
  fun _ _ hp hq => wsParseFrameChecked_cut t h hp hq

theorem parseFrame_huge (hbig : 2 ^ 32 ≤ f.payload.length) (hsmall : f.payload.length < 2 ^ 63) (more : Bytes) :
    parseFrame (f.encode key ++ more) = .invalid := by
  unfold parseFrame
  rw [f.wsDecodeHeader_encode key hsmall more]
  exact if_pos hbig

/-- The frame of each writer comes back with FIN, opcode, payload and length, but for a masked payload of four
gigabytes. What the decoder said of a buffer stands when more arrives. -/
theorem frames_read_back (t : Target) (f : SentFrame) (key : FixedBytes 4) (cap : Nat) (hcap : cap ≤ t.isizeMax) :
    (∀ out, wsFrame t cap f.opcode f.payload key = some out → WaitsFor t out ∧
      if f.payload.length < 2 ^ 32 then ServerReads t out true f.opcode f.payload
      else ∀ more, parseFrame (out ++ more) = .invalid) ∧
    (∀ out, writeFrameMasked t cap f.fin f.opcode f.payload key = out → out ≠ [] →
      WaitsFor t out ∧ ServerReads t out f.fin f.opcode f.payload) ∧
    (∀ out, writeFrame cap f.fin f.opcode f.payload = out → out ≠ [] →
      WaitsFor t out ∧ ClientReads t out f.fin f.opcode f.payload ∧ ServerReads t out f.fin f.opcode f.payload) ∧
    ∀ p q, wsDecodeHeader p ≠ .incomplete → wsDecodeHeader (p ++ q) = wsDecodeHeader p := by
  refine ⟨fun out hout => ?_, fun out hout hne => ?_, fun out hout hne => ?_, fun p q => wsDecodeHeader_append⟩
  · -- `ws_frame` sets FIN whatever the frame.
    let whole : SentFrame := ⟨true, f.opcode, f.payload, f.opcode_valid, fun h => ⟨rfl, (f.control h).2⟩⟩
    have hwrite := wsFrame_eq t cap whole rfl key
    rw [hwrite] at hout
    split at hout
    · next hfit =>
      cases hout
      have hroom := hfit.trans hcap
      refine ⟨waitsFor_encode hroom, ?_⟩
      split
      · next hsmall => exact serverReads_encode (f := whole) hsmall
      · next hbig => exact parseFrame_huge (f := whole) (Nat.le_of_not_lt hbig) (payload_small t hroom)
    · cases hout
  · obtain ⟨heq, hfit, hshort⟩ := writeFrameMasked_eq t cap f key (hout ▸ hne)
    rw [← hout, heq]
    exact ⟨waitsFor_encode (hfit.trans hcap), serverReads_encode (by omega)⟩
  · obtain ⟨heq, hfit, hshort⟩ := writeFrame_eq cap f (hout ▸ hne)
    rw [← hout, heq]
    exact ⟨waitsFor_encode (hfit.trans hcap), clientReads_encode (hfit.trans hcap), serverReads_encode (by omega)⟩

def wideTarget : Target := ⟨.little, 2 ^ 64 - 1, by decide⟩

theorem frames_read_back_text :
    (WaitsFor wideTarget [0x81, 0x82, 1, 2, 3, 4, 0x69, 0x6B] ∧
      ServerReads wideTarget [0x81, 0x82, 1, 2, 3, 4, 0x69, 0x6B] true WS_OP_TEXT [0x68, 0x69]) ∧
    ClientReads wideTarget [0x01, 0x02, 0x68, 0x69] false WS_OP_TEXT [0x68, 0x69] := by
  let whole : SentFrame := ⟨true, WS_OP_TEXT, [0x68, 0x69], rfl, nofun⟩
  let part : SentFrame := ⟨false, WS_OP_TEXT, [0x68, 0x69], rfl, nofun⟩
  have hcap : 64 ≤ wideTarget.isizeMax := by decide
  obtain ⟨-, hmasked, -⟩ := frames_read_back wideTarget whole ⟨[1, 2, 3, 4], rfl⟩ 64 hcap
  obtain ⟨-, -, hplain, -⟩ := frames_read_back wideTarget part ⟨[1, 2, 3, 4], rfl⟩ 64 hcap
  exact ⟨hmasked _ (by decide) nofun, (hplain [0x01, 0x02, 0x68, 0x69] (by decide) nofun).2.1⟩

/-- A frame that `ws_frame` writes and `parse_frame` refuses, and the front of one of which `parse_frame` gives the
header. -/
theorem huge_frame_refused :
    (∃ out, wsFrame wideTarget (2 ^ 32 + 14) WS_OP_BINARY (List.replicate (2 ^ 32) 0) ⟨[1, 2, 3, 4], rfl⟩ = some out ∧
      parseFrame out = .invalid) ∧
    writeFrameMasked wideTarget 64 true WS_OP_BINARY [0] ⟨[1, 2, 3, 4], rfl⟩ = [0x82, 0x81, 1, 2, 3, 4] ++ [1] ∧
      parseFrame [0x82, 0x81, 1, 2, 3, 4] ≠ .incomplete := by
  refine ⟨?_, by decide, by decide⟩
  generalize hn : 2 ^ 32 = n
  let huge : SentFrame := ⟨true, WS_OP_BINARY, List.replicate n 0, rfl, nofun⟩
  have hlen : huge.payload.length = n := length_replicate
  have hhead := huge.length_head_le (some ⟨[1, 2, 3, 4], rfl⟩)
  have hwhole := huge.length_encode (some ⟨[1, 2, 3, 4], rfl⟩)
  have hwrite := wsFrame_eq wideTarget (n + 14) huge rfl ⟨[1, 2, 3, 4], rfl⟩
  rw [if_pos (by rw [hwhole]; change (huge.head _).length + huge.payload.length ≤ _; omega)] at hwrite
  refine ⟨_, hwrite, ?_⟩
  have hrefused : parseFrame (huge.encode (some ⟨[1, 2, 3, 4], rfl⟩) ++ []) = .invalid :=
    parseFrame_huge (by omega) (by omega) []
  simpa using hrefused

end Wave.Http.Wire
