import Wave.Common.SmtpCore

/-! # Base64, written and read (`common/smtp_core.rs`, `common/mime.rs`)

The reader takes padding or none, and half of it too: `b64Decode_iff` says that this is all it takes and should not. -/

namespace Wave.Common

open Lib

variable {v : Nat}

variable {room : Nat} {c : UInt8}

def isFiller (c : UInt8) : Bool := c = 0x0D || c = 0x0A || isBlank c

def b64Value (c : UInt8) : Option Nat :=
  if 0x41 ≤ c && c ≤ 0x5A then some (c.toNat - 0x41)
  else if 0x61 ≤ c && c ≤ 0x7A then some (c.toNat - 0x61 + 26)
  else if 0x30 ≤ c && c ≤ 0x39 then some (c.toNat - 0x30 + 52)
  else if c = 0x2B then some 62
  else if c = 0x2F then some 63
  else none

def quadBytes (q0 q1 q2 q3 : Nat) : Bytes :=
  let triple := q0 * 262144 + q1 * 4096 + q2 * 64 + q3
  [UInt8.ofNat (triple / 65536), UInt8.ofNat (triple / 256), UInt8.ofNat triple]

/-- The group in hand holds `quad`, the symbols of it so far. -/
structure B64State where
  out : Bytes := []
  quad : List Nat := []
  padding : Nat := 0

def emitQuad (room : Nat) (quad : List Nat) (padding : Nat) (out : Bytes) : Option Bytes :=
  let count := 3 - padding
  if padding > 3 || out.length + count > room then none
  else some (out ++ (quadBytes (quad.getD 0 0) (quad.getD 1 0) (quad.getD 2 0) (quad.getD 3 0)).take count)

def B64State.push (room : Nat) (s : B64State) (v padding : Nat) : Option B64State :=
  if s.quad.length + 1 = 4 then
    (emitQuad room (s.quad ++ [v]) padding s.out).map fun out => { out := out, quad := [], padding := padding }
  else some { s with quad := s.quad ++ [v], padding := padding }

def b64Step (room : Nat) (s : B64State) (b : UInt8) : Option B64State :=
  if isFiller b then some s
  else if b = 0x3D then
    if s.padding + 1 > 2 || s.quad.length < 2 then none else s.push room 0 (s.padding + 1)
  else
    match b64Value b with
    | none => none
    | some v => if s.padding > 0 then none else s.push room v 0

def b64Finish (room : Nat) (s : B64State) : Option Bytes :=
  if s.quad.length = 0 then some s.out
  else if s.quad.length = 1 then none
  else emitQuad room s.quad (4 - s.quad.length) s.out

def b64Decode (room : Nat) (input : Bytes) : Option Bytes :=
  (input.foldlM (b64Step room) {}).bind (b64Finish room)

def b64Text (s : Bytes) : Bytes := s.filter fun c => !isFiller c

def isPad (c : UInt8) : Bool := c = 0x3D

def symbols (t : Bytes) : Bytes := t.filter fun c => !isPad c

/-- The bits of the last symbol that the encoding of so many bytes does not use, as a unit. -/
def unusedUnit (len : Nat) : Nat := if len % 3 = 1 then 16 else if len % 3 = 2 then 4 else 1

def AgreeAbove (unit : Nat) (s t : Bytes) : Prop :=
  s = t ∨ ∃ init c d v w, s = init ++ [c] ∧ t = init ++ [d] ∧ b64Value c = some v ∧ b64Value d = some w ∧
    v / unit = w / unit

/-- The encoding of `y`, with its padding or with none, up to the bits that its last symbol does not use. -/
def EncodingOf (y t : Bytes) : Prop :=
  ∃ body pad, t = body ++ pad ∧ AgreeAbove (unusedUnit y.length) body (symbols (smtpB64Encode y)) ∧
    (pad = [] ∨ pad = (smtpB64Encode y).filter isPad)

/-- Two symbols past whole groups, and one of the two padding signs they need. -/
def PartialPad (t : Bytes) : Prop :=
  ∃ u, t = u ++ [0x3D] ∧ (∀ c ∈ u, (b64Value c).isSome) ∧ u.length % 4 = 2

theorem b64Value_base64Char (n : Nat) : b64Value (base64Char n) = some (n % 64) := by
  have hall : ∀ k : Fin 64, b64Value (BASE64.at0 k) = some k.val := by decide +kernel
  exact hall ⟨n % 64, Nat.mod_lt _ (by decide)⟩

theorem base64Char_of_value (h : b64Value c = some v) : v < 64 ∧ base64Char v = c := by
  have hall : ∀ c : UInt8, ∀ v ∈ b64Value c, v < 64 ∧ base64Char v = c := of_every_byte (by decide +kernel)
  exact hall c v h

theorem symbol_kind (h : b64Value c = some v) : isFiller c = false ∧ c ≠ 0x3D := by
  obtain ⟨hlt, rfl⟩ := base64Char_of_value h
  have hall : ∀ k : Fin 64, isFiller (base64Char k) = false ∧ base64Char k ≠ 0x3D := by decide +kernel
  exact hall ⟨v, hlt⟩

theorem base64Char_mod (n : Nat) : base64Char (n % 64) = base64Char n := by
  rw [base64Char, base64Char, Nat.mod_mod]

/-! ## Runs of the reader -/

def b64Run (room : Nat) (s : B64State) (t : Bytes) : Option Bytes :=
  (t.foldlM (b64Step room) s).bind (b64Finish room)

theorem b64Run_nil (room : Nat) (s : B64State) : b64Run room s [] = b64Finish room s := rfl

theorem b64Run_cons (room : Nat) (s : B64State) (c : UInt8) (t : Bytes) :
    b64Run room s (c :: t) = (b64Step room s c).bind fun s => b64Run room s t := by
  rw [b64Run, foldlM_cons]
  cases b64Step room s c <;> rfl

theorem b64Run_text (room : Nat) (s : B64State) (t : Bytes) : b64Run room s t = b64Run room s (b64Text t) := by
  induction t generalizing s with
  | nil => rfl
  | cons c t ih =>
    cases hc : isFiller c with
    | true =>
      rw [b64Run_cons, show b64Text (c :: t) = b64Text t from List.filter_cons_of_neg (by simp [hc])]
      rw [b64Step, hc, if_pos rfl]
      exact ih s
    | false =>
      rw [show b64Text (c :: t) = c :: b64Text t from List.filter_cons_of_pos (by simp [hc]), b64Run_cons, b64Run_cons]
      exact congrArg _ (funext ih)

theorem b64Step_symbol {s : B64State} (h : b64Value c = some v) :
    b64Step room s c = if s.padding > 0 then none else s.push room v 0 := by
  obtain ⟨hfiller, hpad⟩ := symbol_kind h
  rw [b64Step, hfiller, if_neg false_ne_true, if_neg hpad, h]

theorem b64Step_pad (room : Nat) (s : B64State) :
    b64Step room s 0x3D =
      if s.padding + 1 > 2 || s.quad.length < 2 then none else s.push room 0 (s.padding + 1) := by
  rw [b64Step, if_neg (by decide), if_pos rfl]

theorem b64Run_quad {out t : Bytes} {c0 c1 c2 c3 : UInt8} {v0 v1 v2 v3 : Nat}
    (h0 : b64Value c0 = some v0) (h1 : b64Value c1 = some v1) (h2 : b64Value c2 = some v2)
    (h3 : b64Value c3 = some v3) :
    b64Run room { out := out } (c0 :: c1 :: c2 :: c3 :: t) =
      if out.length + 3 > room then none else b64Run room { out := out ++ quadBytes v0 v1 v2 v3 } t := by
  simp only [b64Run_cons, b64Step_symbol h0, b64Step_symbol h1, b64Step_symbol h2, b64Step_symbol h3, B64State.push,
    emitQuad, length_nil, nil_append]
  simp only [gt_iff_lt, Nat.lt_irrefl, if_false, Nat.reduceAdd, Nat.reduceEqDiff, bind_some]
  by_cases hroom : room < out.length + 3
  · simp [hroom]
  · simp [hroom, quadBytes]

theorem b64Run_two {out t : Bytes} {c0 c1 : UInt8} {v0 v1 : Nat} (h0 : b64Value c0 = some v0)
    (h1 : b64Value c1 = some v1) :
    b64Run room { out := out } (c0 :: c1 :: t) = b64Run room { out := out, quad := [v0, v1] } t := by
  simp only [b64Run_cons, b64Step_symbol h0, b64Step_symbol h1, B64State.push, gt_iff_lt, Nat.lt_irrefl, if_false,
    length_nil, length_cons, Nat.reduceAdd, Nat.reduceEqDiff, bind_some, nil_append,
    cons_append]

theorem b64Run_three {out t : Bytes} {c2 : UInt8} {v0 v1 v2 : Nat} (h2 : b64Value c2 = some v2) :
    b64Run room { out := out, quad := [v0, v1] } (c2 :: t) = b64Run room { out := out, quad := [v0, v1, v2] } t := by
  simp only [b64Run_cons, b64Step_symbol h2, B64State.push, gt_iff_lt, Nat.lt_irrefl, if_false, length_nil,
    length_cons, Nat.reduceAdd, Nat.reduceEqDiff, bind_some, nil_append, cons_append]

theorem b64Run_two_end (room : Nat) (out : Bytes) (v0 v1 : Nat) :
    b64Run room { out := out, quad := [v0, v1] } [] =
      if out.length + 1 > room then none else some (out ++ [UInt8.ofNat ((v0 * 262144 + v1 * 4096) / 65536)]) := by
  by_cases hroom : out.length + 1 > room <;> simp [b64Run_nil, b64Finish, emitQuad, quadBytes, hroom]

theorem b64Run_three_end (room : Nat) (out : Bytes) (v0 v1 v2 : Nat) :
    b64Run room { out := out, quad := [v0, v1, v2] } [] =
      if out.length + 2 > room then none
      else some (out ++ [UInt8.ofNat ((v0 * 262144 + v1 * 4096 + v2 * 64) / 65536),
        UInt8.ofNat ((v0 * 262144 + v1 * 4096 + v2 * 64) / 256)]) := by
  by_cases hroom : out.length + 2 > room <;> simp [b64Run_nil, b64Finish, emitQuad, quadBytes, hroom]

theorem b64Run_two_pad (room : Nat) (out t : Bytes) (v0 v1 : Nat) :
    b64Run room { out := out, quad := [v0, v1] } (0x3D :: t) =
      b64Run room { out := out, quad := [v0, v1, 0], padding := 1 } t := by
  rw [b64Run_cons, b64Step_pad]
  rfl

theorem b64Run_half (room : Nat) (out : Bytes) (v0 v1 : Nat) :
    b64Run room { out := out, quad := [v0, v1, 0], padding := 1 } [] =
      if out.length + 2 > room then none
      else some (out ++ [UInt8.ofNat ((v0 * 262144 + v1 * 4096) / 65536),
        UInt8.ofNat ((v0 * 262144 + v1 * 4096) / 256)]) := by
  by_cases hroom : out.length + 2 > room <;> simp [b64Run_nil, b64Finish, emitQuad, quadBytes, hroom]

theorem b64Run_two_pads (room : Nat) (out t : Bytes) (v0 v1 : Nat) :
    b64Run room { out := out, quad := [v0, v1, 0], padding := 1 } (0x3D :: t) =
      if out.length + 1 > room then none
      else b64Run room
        { out := out ++ [UInt8.ofNat ((v0 * 262144 + v1 * 4096) / 65536)], quad := [], padding := 2 } t := by
  rw [b64Run_cons, b64Step_pad]
  by_cases hroom : out.length + 1 > room <;> simp [B64State.push, emitQuad, quadBytes, hroom]

theorem b64Run_three_pad (room : Nat) (out t : Bytes) (v0 v1 v2 : Nat) :
    b64Run room { out := out, quad := [v0, v1, v2] } (0x3D :: t) =
      if out.length + 2 > room then none
      else b64Run room { out := out ++ [UInt8.ofNat ((v0 * 262144 + v1 * 4096 + v2 * 64) / 65536),
        UInt8.ofNat ((v0 * 262144 + v1 * 4096 + v2 * 64) / 256)], quad := [], padding := 1 } t := by
  rw [b64Run_cons, b64Step_pad]
  by_cases hroom : out.length + 2 > room <;> simp [B64State.push, emitQuad, quadBytes, hroom]

theorem b64Run_closed {room padding : Nat} {out t y : Bytes} (hpad : padding > 0)
    (ht : ∀ c ∈ t, isFiller c = false) (h : b64Run room { out := out, quad := [], padding := padding } t = some y) :
    t = [] ∧ y = out := by
  cases t with
  | nil => exact ⟨rfl, (Option.some.inj h).symm⟩
  | cons c t =>
    exfalso
    rw [b64Run_cons, b64Step, ht c mem_cons_self, if_neg false_ne_true] at h
    by_cases hc : c = 0x3D
    · rw [if_pos hc, if_pos (by simp)] at h
      cases h
    · rw [if_neg hc] at h
      cases hv : b64Value c with
      | none => simp [hv] at h
      | some v => simp [hv, hpad] at h

theorem base64Char_eq {v n : Nat} (h : b64Value c = some v) (hn : n % 64 = v) : base64Char n = c := by
  rw [← base64Char_mod, hn]
  exact (base64Char_of_value h).2

theorem smtpB64Encode_quad {c0 c1 c2 c3 : UInt8} {v0 v1 v2 v3 : Nat} (y : Bytes) (h0 : b64Value c0 = some v0)
    (h1 : b64Value c1 = some v1) (h2 : b64Value c2 = some v2) (h3 : b64Value c3 = some v3) :
    smtpB64Encode (quadBytes v0 v1 v2 v3 ++ y) = c0 :: c1 :: c2 :: c3 :: smtpB64Encode y := by
  obtain ⟨l0, -⟩ := base64Char_of_value h0
  obtain ⟨l1, -⟩ := base64Char_of_value h1
  obtain ⟨l2, -⟩ := base64Char_of_value h2
  obtain ⟨l3, -⟩ := base64Char_of_value h3
  obtain ⟨w, hw⟩ : ∃ w, w = v0 * 262144 + v1 * 4096 + v2 * 64 + v3 := ⟨_, rfl⟩
  have hword : (UInt8.ofNat (w / 65536)).toNat * 65536 + (UInt8.ofNat (w / 256)).toNat * 256 +
      (UInt8.ofNat w).toNat = w := by
    simp only [UInt8.toNat_ofNat']
    omega
  rw [quadBytes, ← hw]
  show base64Char (_ / 262144) :: base64Char (_ / 4096) :: base64Char (_ / 64) :: base64Char _ :: _ = _
  rw [hword, base64Char_eq h0 (by omega), base64Char_eq h1 (by omega), base64Char_eq h2 (by omega),
    base64Char_eq h3 (by omega)]
  rfl

theorem smtpB64Encode_one {c0 c1 : UInt8} {v0 v1 : Nat} (h0 : b64Value c0 = some v0) (h1 : b64Value c1 = some v1) :
    smtpB64Encode [UInt8.ofNat ((v0 * 262144 + v1 * 4096) / 65536)] =
      [c0, base64Char (v1 / 16 * 16), 0x3D, 0x3D] := by
  obtain ⟨l0, -⟩ := base64Char_of_value h0
  obtain ⟨l1, -⟩ := base64Char_of_value h1
  have hbyte : (UInt8.ofNat ((v0 * 262144 + v1 * 4096) / 65536)).toNat = v0 * 4 + v1 / 16 := by
    simp only [UInt8.toNat_ofNat']
    omega
  rw [smtpB64Encode, hbyte, base64Char_eq h0 (by omega), ← base64Char_mod (_ / 4096),
    show (v0 * 4 + v1 / 16) * 65536 / 4096 % 64 = v1 / 16 * 16 from by omega]

theorem smtpB64Encode_two {c0 c1 c2 : UInt8} {v0 v1 v2 : Nat} (h0 : b64Value c0 = some v0)
    (h1 : b64Value c1 = some v1) (h2 : b64Value c2 = some v2) :
    smtpB64Encode [UInt8.ofNat ((v0 * 262144 + v1 * 4096 + v2 * 64) / 65536),
        UInt8.ofNat ((v0 * 262144 + v1 * 4096 + v2 * 64) / 256)] =
      [c0, c1, base64Char (v2 / 4 * 4), 0x3D] := by
  obtain ⟨l0, -⟩ := base64Char_of_value h0
  obtain ⟨l1, -⟩ := base64Char_of_value h1
  obtain ⟨l2, -⟩ := base64Char_of_value h2
  obtain ⟨w, hw⟩ : ∃ w, w = (v0 * 262144 + v1 * 4096 + v2 * 64) / 256 := ⟨_, rfl⟩
  have hword : (UInt8.ofNat (w / 256)).toNat * 65536 + (UInt8.ofNat w).toNat * 256 = w * 256 := by
    simp only [UInt8.toNat_ofNat']
    omega
  rw [show (v0 * 262144 + v1 * 4096 + v2 * 64) / 65536 = w / 256 from by omega, ← hw, smtpB64Encode, hword, base64Char_eq h0 (by omega), base64Char_eq h1 (by omega), ← base64Char_mod (_ / 64),
    show w * 256 / 64 % 64 = v2 / 4 * 4 from by omega]

theorem symbols_symbol (h : b64Value c = some v) (t : Bytes) : symbols (c :: t) = c :: symbols t :=
  List.filter_cons_of_pos (by simp [isPad, (symbol_kind h).2])

theorem symbols_pad (t : Bytes) : symbols (0x3D :: t) = symbols t := List.filter_cons_of_neg (by decide)

theorem pads_symbol (h : b64Value c = some v) (t : Bytes) :
    (c :: t).filter isPad = t.filter isPad :=
  List.filter_cons_of_neg (by simp [isPad, (symbol_kind h).2])

/-! ## What is read is an encoding -/

theorem encodingOf_one {c0 c1 : UInt8} {v0 v1 : Nat} {pad : Bytes} (h0 : b64Value c0 = some v0)
    (h1 : b64Value c1 = some v1) (hpad : pad = [] ∨ pad = [0x3D, 0x3D]) :
    EncodingOf [UInt8.ofNat ((v0 * 262144 + v1 * 4096) / 65536)] (c0 :: c1 :: pad) := by
  have hlow := b64Value_base64Char (v1 / 16 * 16)
  have hlt := (base64Char_of_value h1).1
  refine ⟨[c0, c1], pad, rfl, .inr ⟨[c0], c1, base64Char (v1 / 16 * 16), v1, _, rfl, ?_, h1, hlow, ?_⟩, ?_⟩
  · rw [smtpB64Encode_one h0 h1, symbols_symbol h0, symbols_symbol hlow]
    rfl
  · show v1 / 16 = v1 / 16 * 16 % 64 / 16
    omega
  · rw [smtpB64Encode_one h0 h1, pads_symbol h0, pads_symbol hlow]
    exact hpad

theorem encodingOf_two {c0 c1 c2 : UInt8} {v0 v1 v2 : Nat} {pad : Bytes} (h0 : b64Value c0 = some v0)
    (h1 : b64Value c1 = some v1) (h2 : b64Value c2 = some v2) (hpad : pad = [] ∨ pad = [0x3D]) :
    EncodingOf [UInt8.ofNat ((v0 * 262144 + v1 * 4096 + v2 * 64) / 65536),
      UInt8.ofNat ((v0 * 262144 + v1 * 4096 + v2 * 64) / 256)] (c0 :: c1 :: c2 :: pad) := by
  have hlow := b64Value_base64Char (v2 / 4 * 4)
  have hlt := (base64Char_of_value h2).1
  refine ⟨[c0, c1, c2], pad, rfl,
    .inr ⟨[c0, c1], c2, base64Char (v2 / 4 * 4), v2, _, rfl, ?_, h2, hlow, ?_⟩, ?_⟩
  · rw [smtpB64Encode_two h0 h1 h2, symbols_symbol h0, symbols_symbol h1, symbols_symbol hlow]
    rfl
  · show v2 / 4 = v2 / 4 * 4 % 64 / 4
    omega
  · rw [smtpB64Encode_two h0 h1 h2, pads_symbol h0, pads_symbol h1, pads_symbol hlow]
    exact hpad

theorem AgreeAbove.append {unit : Nat} {s t : Bytes} (h : AgreeAbove unit s t) (front : Bytes) :
    AgreeAbove unit (front ++ s) (front ++ t) := by
  rcases h with rfl | ⟨init, c, d, v, w, rfl, rfl, hrest⟩
  · exact .inl rfl
  · exact .inr ⟨front ++ init, c, d, v, w, (append_assoc _ _ _).symm, (append_assoc _ _ _).symm, hrest⟩

theorem encodingOf_quad {c0 c1 c2 c3 : UInt8} {v0 v1 v2 v3 : Nat} {y t : Bytes} (h0 : b64Value c0 = some v0)
    (h1 : b64Value c1 = some v1) (h2 : b64Value c2 = some v2) (h3 : b64Value c3 = some v3) (h : EncodingOf y t) :
    EncodingOf (quadBytes v0 v1 v2 v3 ++ y) (c0 :: c1 :: c2 :: c3 :: t) := by
  obtain ⟨body, pad, rfl, hagree, hpad⟩ := h
  have hunit : unusedUnit (quadBytes v0 v1 v2 v3 ++ y).length = unusedUnit y.length := by
    have hlen : (quadBytes v0 v1 v2 v3 ++ y).length = y.length + 3 := rfl
    rw [unusedUnit, unusedUnit, hlen, Nat.add_mod_right]
  refine ⟨[c0, c1, c2, c3] ++ body, pad, rfl, ?_, ?_⟩
  · rw [hunit, smtpB64Encode_quad y h0 h1 h2 h3, symbols_symbol h0, symbols_symbol h1, symbols_symbol h2,
      symbols_symbol h3]
    exact hagree.append [c0, c1, c2, c3]
  · rw [smtpB64Encode_quad y h0 h1 h2 h3, pads_symbol h0, pads_symbol h1, pads_symbol h2, pads_symbol h3]
    exact hpad

theorem PartialPad.quad {c0 c1 c2 c3 : UInt8} {v0 v1 v2 v3 : Nat} {t : Bytes} (h0 : b64Value c0 = some v0)
    (h1 : b64Value c1 = some v1) (h2 : b64Value c2 = some v2) (h3 : b64Value c3 = some v3) (h : PartialPad t) :
    PartialPad (c0 :: c1 :: c2 :: c3 :: t) := by
  obtain ⟨u, rfl, hu, hlen⟩ := h
  refine ⟨c0 :: c1 :: c2 :: c3 :: u, rfl, ?_, ?_⟩
  · simpa [h0, h1, h2, h3] using hu
  · simp only [length_cons]
    omega

theorem b64Run_symbol {s : B64State} {t y : Bytes} (hc : isFiller c = false)
    (hquad : s.quad.length < 2) (h : b64Run room s (c :: t) = some y) : ∃ v, b64Value c = some v := by
  rw [b64Run_cons, b64Step, hc, if_neg false_ne_true] at h
  by_cases hpad : c = 0x3D
  · rw [if_pos hpad, if_pos (by simp [hquad])] at h
    cases h
  · rw [if_neg hpad] at h
    cases hv : b64Value c with
    | none => simp [hv] at h
    | some v => exact ⟨v, rfl⟩

theorem b64Run_sign {s : B64State} {t y : Bytes} (hc : isFiller c = false) (h : b64Run room s (c :: t) = some y) : c = 0x3D ∨ ∃ v, b64Value c = some v ∧ s.padding = 0 := by
  rw [b64Run_cons, b64Step, hc, if_neg false_ne_true] at h
  by_cases hpad : c = 0x3D
  · exact .inl hpad
  · rw [if_neg hpad] at h
    cases hv : b64Value c with
    | none => simp [hv] at h
    | some v =>
      by_cases hp : s.padding > 0
      · simp [hv, hp] at h
      · exact .inr ⟨v, rfl, by omega⟩

theorem encodingOf_run (n : Nat) {out t y : Bytes} (hn : t.length ≤ n)
    (ht : ∀ c ∈ t, isFiller c = false) (h : b64Run room { out := out } t = some y) :
    ∃ y', y = out ++ y' ∧ (EncodingOf y' t ∨ PartialPad t) := by
  induction n generalizing out t with
  | zero =>
    obtain rfl := eq_nil_of_length_eq_zero (Nat.le_zero.mp hn)
    exact ⟨[], by rw [append_nil]; exact (Option.some.inj h).symm, .inl ⟨[], [], rfl, .inl rfl, .inl rfl⟩⟩
  | succ n ih =>
    match t, hn, ht, h with
    | [], _, _, h =>
      exact ⟨[], by rw [append_nil]; exact (Option.some.inj h).symm, .inl ⟨[], [], rfl, .inl rfl, .inl rfl⟩⟩
    | [c0], _, ht, h =>
      obtain ⟨v0, h0⟩ := b64Run_symbol (ht c0 (by simp)) (by simp) h
      rw [b64Run_cons, b64Step_symbol h0] at h
      exact absurd h (by simp [B64State.push, b64Run_nil, b64Finish])
    | c0 :: c1 :: t, hn, ht, h =>
      obtain ⟨v0, h0⟩ := b64Run_symbol (ht c0 (by simp)) (by simp) h
      have h1 : ∃ v1, b64Value c1 = some v1 := by
        rw [b64Run_cons, b64Step_symbol h0] at h
        exact b64Run_symbol (ht c1 (by simp)) (by simp) (s := { out := out, quad := [v0] }) h
      obtain ⟨v1, h1⟩ := h1
      rw [b64Run_two h0 h1] at h
      match t, hn, ht, h with
      | [], _, _, h =>
        rw [b64Run_two_end] at h
        split_ifs at h
        exact ⟨_, (Option.some.inj h).symm, .inl (encodingOf_one h0 h1 (.inl rfl))⟩
      | c2 :: t, hn, ht, h =>
        rcases b64Run_sign (ht c2 (by simp)) h with rfl | ⟨v2, h2, -⟩
        · rw [b64Run_two_pad] at h
          match t, ht, h with
          | [], _, h =>
            rw [b64Run_half] at h
            split_ifs at h
            exact ⟨_, (Option.some.inj h).symm, .inr ⟨[c0, c1], rfl, by simp [h0, h1], rfl⟩⟩
          | c3 :: t, ht, h =>
            rcases b64Run_sign (ht c3 (by simp)) h with rfl | ⟨_, _, hp⟩
            · rw [b64Run_two_pads] at h
              split_ifs at h
              obtain ⟨rfl, rfl⟩ := b64Run_closed (by decide) (fun c hc => ht c (by simp [hc])) h
              exact ⟨_, rfl, .inl (encodingOf_one h0 h1 (.inr rfl))⟩
            · cases hp
        · rw [b64Run_three h2] at h
          match t, hn, ht, h with
          | [], _, _, h =>
            rw [b64Run_three_end] at h
            split_ifs at h
            exact ⟨_, (Option.some.inj h).symm, .inl (encodingOf_two h0 h1 h2 (.inl rfl))⟩
          | c3 :: t, hn, ht, h =>
            rcases b64Run_sign (ht c3 (by simp)) h with rfl | ⟨v3, h3, -⟩
            · rw [b64Run_three_pad] at h
              split_ifs at h
              obtain ⟨rfl, rfl⟩ := b64Run_closed (by decide) (fun c hc => ht c (by simp [hc])) h
              exact ⟨_, rfl, .inl (encodingOf_two h0 h1 h2 (.inr rfl))⟩
            · rw [← b64Run_three h2, ← b64Run_two h0 h1, b64Run_quad h0 h1 h2 h3] at h
              split_ifs at h
              obtain ⟨y', rfl, hy⟩ := ih (by simp only [length_cons] at hn; omega)
                (fun c hc => ht c (by simp [hc])) h
              exact ⟨_, append_assoc _ _ _, hy.imp (encodingOf_quad h0 h1 h2 h3) (.quad h0 h1 h2 h3)⟩

theorem encode_one (a : UInt8) : ∃ c0 c1 v0 v1, b64Value c0 = some v0 ∧ b64Value c1 = some v1 ∧
    smtpB64Encode [a] = [c0, c1, 0x3D, 0x3D] ∧ UInt8.ofNat ((v0 * 262144 + v1 * 4096) / 65536) = a := by
  have ha := a.toNat_lt
  refine ⟨_, _, _, _, b64Value_base64Char (a.toNat * 65536 / 262144), b64Value_base64Char (a.toNat * 65536 / 4096),
    rfl, ?_⟩
  apply UInt8.toNat.inj
  rw [UInt8.toNat_ofNat']
  omega

theorem encode_two (a b : UInt8) : ∃ c0 c1 c2 v0 v1 v2, b64Value c0 = some v0 ∧ b64Value c1 = some v1 ∧
    b64Value c2 = some v2 ∧ smtpB64Encode [a, b] = [c0, c1, c2, 0x3D] ∧
      UInt8.ofNat ((v0 * 262144 + v1 * 4096 + v2 * 64) / 65536) = a ∧
        UInt8.ofNat ((v0 * 262144 + v1 * 4096 + v2 * 64) / 256) = b := by
  have ha := a.toNat_lt
  have hb := b.toNat_lt
  refine ⟨_, _, _, _, _, _, b64Value_base64Char ((a.toNat * 65536 + b.toNat * 256) / 262144),
    b64Value_base64Char ((a.toNat * 65536 + b.toNat * 256) / 4096),
    b64Value_base64Char ((a.toNat * 65536 + b.toNat * 256) / 64), rfl, ?_, ?_⟩
  · apply UInt8.toNat.inj
    rw [UInt8.toNat_ofNat']
    omega
  · apply UInt8.toNat.inj
    rw [UInt8.toNat_ofNat']
    omega

theorem encode_three (a b c : UInt8) (rest : Bytes) : ∃ c0 c1 c2 c3 v0 v1 v2 v3, b64Value c0 = some v0 ∧
    b64Value c1 = some v1 ∧ b64Value c2 = some v2 ∧ b64Value c3 = some v3 ∧
      smtpB64Encode (a :: b :: c :: rest) = c0 :: c1 :: c2 :: c3 :: smtpB64Encode rest ∧
        quadBytes v0 v1 v2 v3 = [a, b, c] := by
  have ha := a.toNat_lt
  have hb := b.toNat_lt
  have hc := c.toNat_lt
  obtain ⟨w, hw⟩ : ∃ w, w = a.toNat * 65536 + b.toNat * 256 + c.toNat := ⟨_, rfl⟩
  refine ⟨_, _, _, _, _, _, _, _, b64Value_base64Char (w / 262144), b64Value_base64Char (w / 4096),
    b64Value_base64Char (w / 64), b64Value_base64Char w, by rw [hw]; rfl, ?_⟩
  have hword : w / 262144 % 64 * 262144 + w / 4096 % 64 * 4096 + w / 64 % 64 * 64 + w % 64 = w := by omega
  rw [quadBytes, hword]
  simp only [List.cons.injEq, and_true]
  refine ⟨?_, ?_, ?_⟩ <;> apply UInt8.toNat.inj <;> rw [UInt8.toNat_ofNat'] <;> omega

theorem b64Run_encode {out x : Bytes} (hroom : out.length + x.length ≤ room) :
    b64Run room { out := out } (smtpB64Encode x) = some (out ++ x) ∧
      b64Run room { out := out } (symbols (smtpB64Encode x)) = some (out ++ x) := by
  induction x using smtpB64Encode.induct generalizing out with
  | case1 =>
    rw [append_nil]
    exact ⟨rfl, rfl⟩
  | case2 a =>
    obtain ⟨c0, c1, v0, v1, h0, h1, hencode, rfl⟩ := encode_one a
    have hlen : ¬out.length + 1 > room := by simpa using hroom
    rw [hencode, symbols_symbol h0, symbols_symbol h1, symbols_pad, symbols_pad]
    constructor
    · rw [b64Run_two h0 h1, b64Run_two_pad, b64Run_two_pads, if_neg hlen]
      rfl
    · rw [b64Run_two h0 h1, show symbols [] = [] from rfl, b64Run_two_end, if_neg hlen]
  | case3 a b =>
    obtain ⟨c0, c1, c2, v0, v1, v2, h0, h1, h2, hencode, rfl, rfl⟩ := encode_two a b
    have hlen : ¬out.length + 2 > room := by simpa using hroom
    rw [hencode, symbols_symbol h0, symbols_symbol h1, symbols_symbol h2, symbols_pad]
    constructor
    · rw [b64Run_two h0 h1, b64Run_three h2, b64Run_three_pad, if_neg hlen]
      rfl
    · rw [b64Run_two h0 h1, b64Run_three h2, show symbols [] = [] from rfl, b64Run_three_end, if_neg hlen]
  | case4 a b c rest ih =>
    obtain ⟨c0, c1, c2, c3, v0, v1, v2, v3, h0, h1, h2, h3, hencode, hbytes⟩ := encode_three a b c rest
    simp only [length_cons] at hroom
    obtain ⟨hwhole, hbare⟩ := @ih (out ++ [a, b, c]) (by
      rw [length_append, length_cons, length_cons, length_singleton]
      omega)
    have hlen : ¬out.length + 3 > room := by omega
    rw [hencode, symbols_symbol h0, symbols_symbol h1, symbols_symbol h2, symbols_symbol h3, b64Run_quad h0 h1 h2 h3,
      b64Run_quad h0 h1 h2 h3, if_neg hlen, if_neg hlen, hbytes, hwhole, hbare, append_assoc]
    exact ⟨rfl, rfl⟩

/-! ## Half of the padding -/

theorem b64Run_ragged (n : Nat) {out u : Bytes} (hn : u.length ≤ n) (hu : ∀ c ∈ u, (b64Value c).isSome)
    (hlen : u.length % 4 = 2) (hroom : out.length + u.length ≤ room) :
    ∃ y, b64Run room { out := out } (u ++ [0x3D]) = some (out ++ y) ∧ (y.length * 4 + 2) / 3 = u.length + 1 := by
  induction n generalizing out u with
  | zero => omega
  | succ n ih =>
    match u, hn, hu, hlen, hroom with
    | [c0, c1], _, hu, _, hroom =>
      obtain ⟨v0, h0⟩ := isSome_iff_exists.mp (hu c0 (by simp))
      obtain ⟨v1, h1⟩ := isSome_iff_exists.mp (hu c1 (by simp))
      refine ⟨[UInt8.ofNat ((v0 * 262144 + v1 * 4096) / 65536), UInt8.ofNat ((v0 * 262144 + v1 * 4096) / 256)],
        ?_, by simp⟩
      rw [cons_append, cons_append, nil_append, b64Run_two h0 h1, b64Run_two_pad, b64Run_half,
        if_neg (by simpa using hroom)]
    | c0 :: c1 :: c2 :: c3 :: u, hn, hu, hlen, hroom =>
      obtain ⟨v0, h0⟩ := isSome_iff_exists.mp (hu c0 (by simp))
      obtain ⟨v1, h1⟩ := isSome_iff_exists.mp (hu c1 (by simp))
      obtain ⟨v2, h2⟩ := isSome_iff_exists.mp (hu c2 (by simp))
      obtain ⟨v3, h3⟩ := isSome_iff_exists.mp (hu c3 (by simp))
      simp only [length_cons] at hn hlen hroom
      obtain ⟨y, hrun, hcount⟩ := @ih (out ++ quadBytes v0 v1 v2 v3) u (by omega)
        (fun c hc => hu c (by simp [hc])) (by omega)
        (by rw [length_append]; simp only [quadBytes, length_cons, length_nil]; omega)
      refine ⟨quadBytes v0 v1 v2 v3 ++ y, ?_, ?_⟩
      · simp only [cons_append]
        rw [b64Run_quad h0 h1 h2 h3, if_neg (by omega), hrun, append_assoc]
      · show ((y.length + 3) * 4 + 2) / 3 = u.length + 4 + 1
        omega
    | [], _, _, hlen, _ => cases hlen
    | [_], _, _, hlen, _ => cases hlen
    | [_, _, _], _, _, hlen, _ => cases hlen

theorem length_symbols (y : Bytes) :
    (symbols (smtpB64Encode y)).length = (y.length * 4 + 2) / 3 ∧
      ((smtpB64Encode y).filter isPad).length = if y.length % 3 = 2 then 1 else if y.length % 3 = 1 then 2 else 0 := by
  induction y using smtpB64Encode.induct with
  | case1 => exact ⟨rfl, rfl⟩
  | case2 a =>
    obtain ⟨c0, c1, v0, v1, h0, h1, hencode, -⟩ := encode_one a
    rw [hencode, symbols_symbol h0, symbols_symbol h1, pads_symbol h0, pads_symbol h1]
    exact ⟨by simp [symbols, isPad], rfl⟩
  | case3 a b =>
    obtain ⟨c0, c1, c2, v0, v1, v2, h0, h1, h2, hencode, -⟩ := encode_two a b
    rw [hencode, symbols_symbol h0, symbols_symbol h1, symbols_symbol h2, pads_symbol h0, pads_symbol h1,
      pads_symbol h2]
    exact ⟨by simp [symbols, isPad], rfl⟩
  | case4 a b c rest ih =>
    obtain ⟨c0, c1, c2, c3, v0, v1, v2, v3, h0, h1, h2, h3, hencode, -⟩ := encode_three a b c rest
    rw [hencode, symbols_symbol h0, symbols_symbol h1, symbols_symbol h2, symbols_symbol h3, pads_symbol h0,
      pads_symbol h1, pads_symbol h2, pads_symbol h3, ih.2]
    refine ⟨?_, ?_⟩
    · rw [length_cons, length_cons, length_cons, length_cons, ih.1]
      simp only [length_cons]
      omega
    · simp only [length_cons, Nat.add_assoc, Nat.reduceAdd, Nat.add_mod_right]

theorem AgreeAbove.length {unit : Nat} {s t : Bytes} (h : AgreeAbove unit s t) : s.length = t.length := by
  rcases h with rfl | ⟨init, c, d, v, w, rfl, rfl, -⟩
  · rfl
  · rw [length_append, length_append]
    rfl

theorem AgreeAbove.not_sign {unit : Nat} {u t : Bytes} (h : AgreeAbove unit (u ++ [0x3D]) (symbols t)) : False := by
  rcases h with h | ⟨init, c, d, v, w, hs, -, hc, -⟩
  · have hmem : (0x3D : UInt8) ∈ symbols t := h ▸ mem_append_right _ (mem_singleton.mpr rfl)
    exact absurd (mem_filter.mp hmem).2 (by decide)
  · obtain ⟨-, hlast⟩ := List.append_inj' hs rfl
    rw [← List.singleton_inj.mp hlast] at hc
    have hnone : b64Value 0x3D = none := by decide
    exact absurd (hnone.symm.trans hc) (by simp)

theorem not_encodingOf_partial {u y : Bytes} (hcount : (y.length * 4 + 2) / 3 = u.length + 1) :
    ¬EncodingOf y (u ++ [0x3D]) := by
  rintro ⟨body, pad, hsplit, hagree, hpad⟩
  obtain ⟨hsymbols, hpads⟩ := length_symbols y
  have hlen := congrArg List.length hsplit
  rw [length_append, length_append, hagree.length, hsymbols, hcount, length_singleton] at hlen
  obtain rfl : pad = [] := eq_nil_of_length_eq_zero (by omega)
  rw [append_nil] at hsplit
  rw [← hsplit] at hagree
  exact hagree.not_sign

theorem text_filler (s : Bytes) : ∀ c ∈ b64Text s, isFiller c = false := fun c hc => by
  simpa using (mem_filter.mp hc).2

/-- Written text is read back with white space anywhere, padded or not; what is read is an encoding, just when it does
not end in half of the padding it needs. -/
theorem b64Decode_iff (s : Bytes) :
    (∀ x room, x.length ≤ room → b64Text s = smtpB64Encode x ∨ b64Text s = symbols (smtpB64Encode x) →
        b64Decode room s = some x) ∧
      ((∀ room y, b64Decode room s = some y → EncodingOf y (b64Text s)) ↔ ¬PartialPad (b64Text s)) := by
  have hrun : ∀ room, b64Decode room s = b64Run room {} (b64Text s) := fun room => b64Run_text room {} s
  refine ⟨fun x room hroom htext => ?_, fun h hpartial => ?_, fun hwhole room y h => ?_⟩
  · have hencode := @b64Run_encode room [] x (by simpa using hroom)
    rw [hrun]
    rcases htext with htext | htext <;> rw [htext]
    · exact hencode.1
    · exact hencode.2
  · obtain ⟨u, htext, hu, hlen⟩ := hpartial
    obtain ⟨y, hy, hcount⟩ := @b64Run_ragged u.length u.length [] u (Nat.le_refl _) hu hlen
      (by simp)
    refine not_encodingOf_partial hcount (htext ▸ h u.length y ?_)
    rw [hrun, htext]
    exact hy
  · rw [hrun] at h
    obtain ⟨y', rfl, hencoding | hpartial⟩ := encodingOf_run _ (Nat.le_refl _) (text_filler s) h
    · exact hencoding
    · exact absurd hpartial hwhole

/-- Half of the padding makes a byte that was never encoded. -/
theorem b64Decode_half_padding :
    ¬∀ (s : Bytes) (room : Nat) (y : Bytes), b64Decode room s = some y → EncodingOf y (b64Text s) := by
  intro h
  exact not_encodingOf_partial (u := ascii "QQ") (y := [0x41, 0]) (by decide)
    (h (ascii "QQ=") 2 [0x41, 0] (by decide))

end Wave.Common
