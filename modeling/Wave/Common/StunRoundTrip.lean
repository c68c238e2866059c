import Wave.Common.StunCore
import Mathlib.Tactic.IntervalCases

/-! # A STUN message, built and read (`common/stun_core.rs`) -/

namespace Wave.Common.Stun

open Lib Lib.Bytes Common.Turn

theorem method_high {method : UInt16} (hm : method < 4096) :
    method.toBitVec[12] = false ∧ method.toBitVec[13] = false ∧ method.toBitVec[14] = false ∧
      method.toBitVec[15] = false := by
  have hlt : method.toNat < 2 ^ 12 := hm
  have hbit : ∀ i, 12 ≤ i → method.toBitVec.getLsbD i = false := fun i hi =>
    Nat.testBit_lt_two_pow (Nat.lt_of_lt_of_le hlt (Nat.pow_le_pow_right (by decide) hi))
  exact ⟨hbit 12 (by decide), hbit 13 (by decide), hbit 14 (by decide), hbit 15 (by decide)⟩

theorem class_high {cls : UInt8} (hc : cls < 4) (i : Nat) (hi : 2 ≤ i) : cls.toBitVec.getLsbD i = false := by
  have hlt : cls.toNat < 2 ^ 2 := hc
  exact Nat.testBit_lt_two_pow (Nat.lt_of_lt_of_le hlt (Nat.pow_le_pow_right (by decide) hi))

theorem messageType_read {cls : UInt8} (hc : cls < 4) {method : UInt16} (hm : method < 4096) :
    (stunMessageType cls method >>> 8).toUInt8 &&& 0xC0 = 0 ∧
      (((stunMessageType cls method >>> 7) &&& (0x02 : UInt16)) |||
        ((stunMessageType cls method >>> 4) &&& (0x01 : UInt16))).toUInt8 = cls ∧
      (stunMessageType cls method &&& (0x000F : UInt16)) ||| ((stunMessageType cls method >>> 1) &&& (0x0070 : UInt16)) |||
        ((stunMessageType cls method >>> 2) &&& (0x0F80 : UInt16)) = method := by
  obtain ⟨h12, h13, h14, h15⟩ := method_high hm
  unfold stunMessageType
  refine ⟨?_, ?_, ?_⟩
  · apply UInt8.toBitVec_inj.mp
    apply BitVec.eq_of_getLsbD_eq
    intro i hi
    interval_cases i <;> simp [*]
  · apply UInt8.toBitVec_inj.mp
    apply BitVec.eq_of_getLsbD_eq
    intro i hi
    have hbit := class_high hc i
    interval_cases i <;> simp_all
  · apply UInt16.toBitVec_inj.mp
    apply BitVec.eq_of_getLsbD_eq
    intro i hi
    interval_cases i <;> simp [*]

section Reading

variable {cls : UInt8} {method : UInt16} {length : Nat} {txn body pre rest : Bytes}

theorem length_headerBytes (cls : UInt8) (method : UInt16) (length : Nat) (htxn : txn.length = 12) :
    (headerBytes cls method length txn).length = STUN_HEADER_LEN := by
  simp only [headerBytes, length_append, length_be16, length_be32, htxn, STUN_HEADER_LEN]

theorem u16be_ofNat {n : Nat} (h : n ≤ U16_MAX) : (UInt16.ofNat n).toNat = n :=
  UInt16.toNat_ofNat_of_lt' (Nat.lt_of_le_of_lt h (by decide))

theorem parse_headerBytes (hc : cls < 4) (hm : method < 4096) (htxn : txn.length = 12)
    (hmax : body.length ≤ U16_MAX) (hwords : body.length % 4 = 0) :
    parseStunHeader (headerBytes cls method body.length txn ++ body) = some ⟨cls, method, body.length, txn⟩ := by
  obtain ⟨htop, hcls, hmethod⟩ := messageType_read hc hm
  have hhead := length_headerBytes cls method body.length htxn
  have htyp : u16be (at0 (headerBytes cls method body.length txn ++ body) 0)
      (at0 (headerBytes cls method body.length txn ++ body) 1) = stunMessageType cls method := u16be_be16 _
  have hlen : (u16be (at0 (headerBytes cls method body.length txn ++ body) 2)
      (at0 (headerBytes cls method body.length txn ++ body) 3)).toNat = body.length :=
    (congrArg UInt16.toNat (u16be_be16 _)).trans (u16be_ofNat hmax)
  have hmagic : u32be (at0 (headerBytes cls method body.length txn ++ body) 4)
      (at0 (headerBytes cls method body.length txn ++ body) 5) (at0 (headerBytes cls method body.length txn ++ body) 6)
      (at0 (headerBytes cls method body.length txn ++ body) 7) = STUN_MAGIC := u32be_be32 _
  have hstun : stunIsPlausible (headerBytes cls method body.length txn ++ body) = true := by
    unfold stunIsPlausible
    rw [hmagic, decide_eq_true rfl, Bool.and_true, and_eq_true, decide_eq_true_eq, decide_eq_true_eq,
      length_append, hhead]
    exact ⟨Nat.le_add_right _ _, htop⟩
  have htail : slice (headerBytes cls method body.length txn ++ body) 8 20 = txn := by
    change (txn ++ body).take 12 = txn
    rw [← htxn, take_left]
  unfold parseStunHeader
  dsimp only
  rw [hstun, hlen, htyp, htail, hcls, hmethod, if_neg (show ¬ (!true) = true by decide), if_neg]
  rw [not_or, not_not, length_append, hhead, Nat.not_lt]
  exact ⟨hwords, le_rfl⟩

theorem nextAttribute_bytes (a : UInt16 × Bytes) (hlen : a.2.length ≤ U16_MAX) (pre rest : Bytes) (total : Nat)
    (htotal : pre.length + (attributeBytes a).length ≤ total) :
    nextAttribute (pre ++ (attributeBytes a ++ rest)) pre.length total =
      .attr a.1 (pre.length + 4) a.2.length (pre.length + (attributeBytes a).length) := by
  have hpad := le_pad4 a.2.length
  have htyp : u16be (at0 (pre ++ (attributeBytes a ++ rest)) pre.length)
      (at0 (pre ++ (attributeBytes a ++ rest)) (pre.length + 1)) = a.1 := by
    rw [← Nat.add_zero pre.length, at0_behind, Nat.add_zero, at0_behind]
    exact u16be_be16 _
  have hlength : (u16be (at0 (pre ++ (attributeBytes a ++ rest)) (pre.length + 2))
      (at0 (pre ++ (attributeBytes a ++ rest)) (pre.length + 3))).toNat = a.2.length := by
    rw [at0_behind, at0_behind]
    exact (congrArg UInt16.toNat (u16be_be16 _)).trans (u16be_ofNat hlen)
  rw [length_attributeBytes] at htotal ⊢
  unfold nextAttribute
  dsimp only
  rw [htyp, hlength, if_neg (by omega), if_neg (by omega), if_neg (by omega), if_neg (by omega), Nat.add_assoc]

/-- Where the attributes are, one behind the other from `at_` on. -/
def spans (at_ : Nat) : List (UInt16 × Bytes) → List (UInt16 × Nat × Nat)
  | [] => []
  | a :: attrs => (a.1, at_ + 4, a.2.length) :: spans (at_ + (attributeBytes a).length) attrs

def values (buf : Bytes) (found : List (UInt16 × Nat × Nat)) : List (UInt16 × Bytes) :=
  found.map fun a => (a.1, slice buf a.2.1 (a.2.1 + a.2.2))

theorem spans_append (at_ : Nat) (a b : List (UInt16 × Bytes)) :
    spans at_ (a ++ b) = spans at_ a ++ spans (at_ + (a.flatMap attributeBytes).length) b := by
  induction a generalizing at_ with
  | nil => rfl
  | cons x a ih =>
    rw [cons_append, spans, ih, spans, cons_append, flatMap_cons, length_append, Nat.add_assoc]

theorem walk_bytes {attrs : List (UInt16 × Bytes)} (hlen : ∀ a ∈ attrs, a.2.length ≤ U16_MAX) (pre : Bytes) :
    walk (pre ++ attrs.flatMap attributeBytes) (pre ++ attrs.flatMap attributeBytes).length pre.length =
      (spans pre.length attrs, .stop) := by
  induction attrs generalizing pre with
  | nil =>
    have hstop : nextAttribute (pre ++ []) pre.length (pre ++ []).length = .stop :=
      if_pos (by rw [append_nil])
    rw [flatMap_nil, walk_over (by rw [hstop]; nofun), hstop]
    rfl
  | cons a attrs ih =>
    rw [forall_mem_cons] at hlen
    have hnext := nextAttribute_bytes a hlen.1 pre (attrs.flatMap attributeBytes)
      (pre ++ (attributeBytes a ++ attrs.flatMap attributeBytes)).length
      (by rw [length_append, length_append]; omega)
    have hrest := ih hlen.2 (pre ++ attributeBytes a)
    have hbehind : (pre ++ attributeBytes a).length = pre.length + (attributeBytes a).length := length_append
    rw [append_assoc, hbehind] at hrest
    rw [flatMap_cons, walk_attr hnext, hrest]
    rfl

theorem values_bytes (attrs : List (UInt16 × Bytes)) (pre rest : Bytes) :
    values (pre ++ (attrs.flatMap attributeBytes ++ rest)) (spans pre.length attrs) = attrs := by
  induction attrs generalizing pre with
  | nil => rfl
  | cons a attrs ih =>
    have hvalue : slice (pre ++ (attributeBytes a ++ (attrs.flatMap attributeBytes ++ rest))) (pre.length + 4)
        (pre.length + 4 + a.2.length) = a.2 := by
      have hmiddle := slice_middle (pre ++ (be16 a.1 ++ be16 (UInt16.ofNat a.2.length))) a.2
        (List.replicate (pad4 a.2.length - a.2.length) 0 ++ (attrs.flatMap attributeBytes ++ rest))
      simp only [attributeBytes, append_assoc, length_append, length_be16] at hmiddle ⊢
      exact hmiddle
    have hrest := ih (pre ++ attributeBytes a)
    rw [append_assoc, length_append] at hrest
    rw [flatMap_cons, append_assoc, spans]
    rw [values, map_cons, hvalue]
    exact congrArg _ hrest

theorem find_spans {typ : UInt16} {attrs : List (UInt16 × Bytes)} (h : ∀ a ∈ attrs, a.1 ≠ typ) (at_ : Nat) :
    (spans at_ attrs).find? (·.1 = typ) = none := by
  induction attrs generalizing at_ with
  | nil => rfl
  | cons a attrs ih =>
    rw [forall_mem_cons] at h
    rw [spans, List.find?_cons, decide_eq_false h.1]
    exact ih h.2 _

end Reading

section Message

variable (sha1 : Sha1) (cls : UInt8) (method : UInt16) (txn key : Bytes) (attrs : List (UInt16 × Bytes))

def listed : Bytes := attrs.flatMap attributeBytes

def integrityOf : UInt16 × Bytes :=
  (ATTR_MESSAGE_INTEGRITY,
    (stunHmacSha1 sha1 key (headerBytes cls method ((listed attrs).length + 24) txn ++ listed attrs)).1)

def fingerprintOf : UInt16 × Bytes :=
  (ATTR_FINGERPRINT, be32 (crc32 (headerBytes cls method ((listed attrs).length + 32) txn ++
    (listed attrs ++ attributeBytes (integrityOf sha1 cls method txn key attrs))) ^^^ 0x5354554E))

def sealed : List (UInt16 × Bytes) :=
  attrs ++ [integrityOf sha1 cls method txn key attrs, fingerprintOf sha1 cls method txn key attrs]

variable {sha1 cls method txn key attrs}

theorem integrityOf_length : (integrityOf sha1 cls method txn key attrs).2.length = 20 :=
  (stunHmacSha1 sha1 key (headerBytes cls method ((listed attrs).length + 24) txn ++ listed attrs)).2

theorem fingerprintOf_length : (fingerprintOf sha1 cls method txn key attrs).2.length = 4 := length_be32 _

theorem length_integrityOf : (attributeBytes (integrityOf sha1 cls method txn key attrs)).length = 24 := by
  rw [length_attributeBytes, integrityOf_length]
  rfl

theorem length_fingerprintOf : (attributeBytes (fingerprintOf sha1 cls method txn key attrs)).length = 8 := by
  rw [length_attributeBytes, fingerprintOf_length]
  rfl

theorem sealed_bytes :
    listed (sealed sha1 cls method txn key attrs) =
      listed attrs ++ (attributeBytes (integrityOf sha1 cls method txn key attrs) ++
        attributeBytes (fingerprintOf sha1 cls method txn key attrs)) := by
  simp [listed, sealed, flatMap_append]

theorem length_sealed :
    (listed (sealed sha1 cls method txn key attrs)).length = (listed attrs).length + 32 := by
  rw [sealed_bytes, length_append, length_append, length_integrityOf, length_fingerprintOf]

theorem messageLength_eq : messageLength attrs = STUN_HEADER_LEN + ((listed attrs).length + 32) := rfl

theorem build_bytes (htxn : txn.length = 12) {out : Bytes} (hfits : messageLength attrs ≤ STUN_SCRATCH)
    (hroom : messageLength attrs ≤ out.length) :
    ∃ w, buildMessage sha1 cls method txn key attrs out = some w ∧ w.pos = messageLength attrs ∧
      w.out.take w.pos = headerBytes cls method ((listed attrs).length + 32) txn ++
        listed (sealed sha1 cls method txn key attrs) := by
  rw [messageLength_eq] at hfits hroom ⊢
  have h20 : STUN_HEADER_LEN = 20 := rfl
  have h1500 : STUN_SCRATCH = 1500 := rfl
  have hmax : U16_MAX = 65535 := rfl
  obtain ⟨w₀, hbuild₀, hw₀, hout₀⟩ := holds_header cls method htxn out (by omega)
  have hpos₀ : w₀.pos = STUN_HEADER_LEN := hw₀.pos
  obtain ⟨w₁, hbuild₁, hw₁, hout₁⟩ := holds_attributes hw₀ attrs
    (by rw [← listed]; omega) (by rw [← listed]; omega)
  rw [nil_append, ← listed] at hw₁
  have hpos₁ := hw₁.pos
  -- the integrity: the length it will make, then the attribute over what is there
  obtain ⟨w₂, hbuild₂, hw₂, hpos₂, hout₂⟩ := holds_length hw₁ htxn (w₁.pos + 4 + STUN_INTEGRITY_LEN)
    (by omega) (by rw [STUN_INTEGRITY_LEN]; omega)
  have htotal₂ : w₁.pos + 4 + STUN_INTEGRITY_LEN - STUN_HEADER_LEN = (listed attrs).length + 24 := by
    rw [STUN_INTEGRITY_LEN]
    omega
  rw [htotal₂] at hw₂
  obtain ⟨w₃, hbuild₃, hw₃, hout₃⟩ := holds_attribute hw₂ (integrityOf sha1 cls method txn key attrs)
    (by rw [length_integrityOf]; omega) (by rw [integrityOf_length]; decide)
  have hpos₃ := hw₃.pos
  rw [length_append, length_integrityOf] at hpos₃
  -- the fingerprint: in the same way
  obtain ⟨w₄, hbuild₄, hw₄, hpos₄, hout₄⟩ := holds_length hw₃ htxn (w₃.pos + 4 + 4) (by omega) (by omega)
  have htotal₄ : w₃.pos + 4 + 4 - STUN_HEADER_LEN = (listed attrs).length + 32 := by omega
  rw [htotal₄] at hw₄
  obtain ⟨w₅, hbuild₅, hw₅, hout₅⟩ := holds_attribute hw₄ (fingerprintOf sha1 cls method txn key attrs)
    (by rw [length_fingerprintOf]; omega) (by rw [fingerprintOf_length]; decide)
  have hintegrity : appendMessageIntegrity sha1 key w₁ = some w₃ := by
    rw [appendMessageIntegrity, if_neg (by rw [STUN_INTEGRITY_LEN]; omega), hbuild₂, bind_eq_bind,
      bind_some, hw₂.bytes]
    exact hbuild₃
  have hfingerprint : appendFingerprint w₃ = some w₅ := by
    rw [appendFingerprint, if_neg (by omega), hbuild₄, bind_eq_bind, bind_some, hw₄.bytes]
    exact hbuild₅
  refine ⟨w₅, ?_, ?_, ?_⟩
  · rw [buildMessage, hbuild₀, bind_eq_bind, bind_some, hbuild₁, bind_some, hintegrity]
    exact hfingerprint
  · rw [hw₅.pos, length_append, length_append, length_integrityOf, length_fingerprintOf]
  · rw [hw₅.bytes, sealed_bytes, append_assoc]

theorem listed_words (attrs : List (UInt16 × Bytes)) : (listed attrs).length % 4 = 0 := by
  induction attrs with
  | nil => rfl
  | cons a attrs ih =>
    rw [listed] at ih
    rw [listed, flatMap_cons, length_append, length_attributeBytes, pad4]
    omega

theorem listed_values (h : (listed attrs).length ≤ U16_MAX) : ∀ a ∈ attrs, a.2.length ≤ U16_MAX := by
  induction attrs with
  | nil => exact nofun
  | cons a attrs ih =>
    have hpad := le_pad4 a.2.length
    rw [listed, flatMap_cons, length_append, length_attributeBytes] at h
    rw [forall_mem_cons]
    exact ⟨by omega, ih (by rw [listed]; omega)⟩

theorem find_behind {typ : UInt16} {a : UInt16 × Bytes} (h : ∀ b ∈ attrs, b.1 ≠ typ) (ha : a.1 = typ)
    (rest : List (UInt16 × Bytes)) (at_ : Nat) :
    (spans at_ (attrs ++ a :: rest)).find? (·.1 = typ) = some (a.1, at_ + (listed attrs).length + 4, a.2.length) := by
  rw [spans_append, List.find?_append, find_spans h, Option.none_or, spans, List.find?_cons, decide_eq_true ha, listed]

/-- The FINGERPRINT over a message that has `attrs` so far. -/
def fingerprintOver (cls : UInt8) (method : UInt16) (txn : Bytes) (attrs : List (UInt16 × Bytes)) : UInt16 × Bytes :=
  (ATTR_FINGERPRINT,
    be32 (crc32 (headerBytes cls method ((listed attrs).length + 8) txn ++ listed attrs) ^^^ 0x5354554E))

theorem fingerprintOver_length : (fingerprintOver cls method txn attrs).2.length = 4 := length_be32 _

theorem length_fingerprintOver : (attributeBytes (fingerprintOver cls method txn attrs)).length = 8 := by
  rw [length_attributeBytes, fingerprintOver_length]
  rfl

theorem listed_concat (a : UInt16 × Bytes) : listed (attrs ++ [a]) = listed attrs ++ attributeBytes a := by
  simp [listed, flatMap_append]

theorem fingerprint_verified (cls : UInt8) (method : UInt16) (htxn : txn.length = 12) (h : ∀ a ∈ attrs, a.1 ≠ ATTR_FINGERPRINT)
    (hmax : (listed attrs).length + 8 ≤ U16_MAX) :
    verifyFingerprint (headerBytes cls method ((listed attrs).length + 8) txn ++
      listed (attrs ++ [fingerprintOver cls method txn attrs])) ⟨cls, method, (listed attrs).length + 8, txn⟩ = true := by
  have hhead := length_headerBytes cls method ((listed attrs).length + 8) htxn
  have hlength : (listed (attrs ++ [fingerprintOver cls method txn attrs])).length = (listed attrs).length + 8 := by
    rw [listed_concat, length_append, length_fingerprintOver]
  have hfind : findAttribute (headerBytes cls method ((listed attrs).length + 8) txn ++
      listed (attrs ++ [fingerprintOver cls method txn attrs])) ⟨cls, method, (listed attrs).length + 8, txn⟩
        ATTR_FINGERPRINT = some (STUN_HEADER_LEN + (listed attrs).length + 4, STUN_FINGERPRINT_LEN) := by
    have hwalk := walk_bytes (listed_values (by rw [hlength]; exact hmax))
      (headerBytes cls method ((listed attrs).length + 8) txn)
    rw [← listed, length_append, hhead, hlength] at hwalk
    rw [findAttribute_walk, hwalk, find_behind h rfl, fingerprintOver_length]
    rfl
  have hlen : (headerBytes cls method ((listed attrs).length + 8) txn ++ listed attrs).length =
      STUN_HEADER_LEN + (listed attrs).length := by
    rw [length_append, hhead]
  unfold verifyFingerprint
  simp only [hfind]
  rw [if_neg (not_not.mpr rfl), Nat.add_sub_cancel, listed_concat, ← append_assoc, ← hlen, take_left,
    decide_eq_true_eq]
  rw [Nat.add_assoc, Nat.add_assoc, Nat.add_assoc, at0_behind, at0_behind, at0_behind, at0_behind]
  exact (u32be_be32 _).symm

variable (sha1 cls method key attrs)

def received (txn : Bytes) : Bytes :=
  headerBytes cls method ((listed attrs).length + 32) txn ++ listed (sealed sha1 cls method txn key attrs)

variable {sha1 cls method key attrs}

theorem received_walk (htxn : txn.length = 12) (hfits : messageLength attrs ≤ STUN_SCRATCH) :
    walk (received sha1 cls method key attrs txn) (STUN_HEADER_LEN + ((listed attrs).length + 32)) STUN_HEADER_LEN =
      (spans STUN_HEADER_LEN (sealed sha1 cls method txn key attrs), .stop) := by
  have hhead := length_headerBytes cls method ((listed attrs).length + 32) htxn
  have hmax : (listed (sealed sha1 cls method txn key attrs)).length ≤ U16_MAX := by
    have h1500 : STUN_SCRATCH = 1500 := rfl
    have h65535 : U16_MAX = 65535 := rfl
    rw [messageLength_eq] at hfits
    rw [length_sealed]
    omega
  have hwalk := walk_bytes (listed_values hmax) (headerBytes cls method ((listed attrs).length + 32) txn)
  rw [← listed, length_append, hhead, length_sealed] at hwalk
  exact hwalk

theorem received_values (htxn : txn.length = 12) :
    values (received sha1 cls method key attrs txn) (spans STUN_HEADER_LEN (sealed sha1 cls method txn key attrs)) =
      sealed sha1 cls method txn key attrs := by
  have hvalues := values_bytes (sealed sha1 cls method txn key attrs)
    (headerBytes cls method ((listed attrs).length + 32) txn) []
  rw [length_headerBytes cls method _ htxn, append_nil] at hvalues
  exact hvalues

theorem integrityOf_bytes : attributeBytes (integrityOf sha1 cls method txn key attrs) =
    be16 ATTR_MESSAGE_INTEGRITY ++ (be16 (UInt16.ofNat 20) ++ (integrityOf sha1 cls method txn key attrs).2) := by
  rw [attributeBytes, integrityOf_length]
  exact congrArg (be16 ATTR_MESSAGE_INTEGRITY ++ ·) (congrArg (be16 (UInt16.ofNat 20) ++ ·) (append_nil _))

/-- The integrity holds whatever is listed behind it, and whatever length the header says by then. -/
theorem integrity_verified (rest : List (UInt16 × Bytes)) (htxn : txn.length = 12)
    (hfits : STUN_HEADER_LEN + (listed attrs).length ≤ STUN_SCRATCH) (h : ∀ a ∈ attrs, a.1 ≠ ATTR_MESSAGE_INTEGRITY)
    {message : List (UInt16 × Bytes)} (hmessage : message = attrs ++ integrityOf sha1 cls method txn key attrs :: rest)
    (hmax : (listed message).length ≤ U16_MAX) :
    verifyMessageIntegrity sha1 (headerBytes cls method (listed message).length txn ++ listed message)
      ⟨cls, method, (listed message).length, txn⟩ key = true := by
  have h20 : STUN_HEADER_LEN = 20 := rfl
  have h1500 : STUN_SCRATCH = 1500 := rfl
  have h65535 : U16_MAX = 65535 := rfl
  have hhead := fun length => length_headerBytes cls method length htxn
  set total := (listed message).length with htotal
  have hbytes : listed message = listed attrs ++ (attributeBytes (integrityOf sha1 cls method txn key attrs) ++ listed rest) := by
    rw [hmessage]
    simp [listed, flatMap_append]
  have hfind : findAttribute (headerBytes cls method total txn ++ listed message) ⟨cls, method, total, txn⟩
      ATTR_MESSAGE_INTEGRITY = some (STUN_HEADER_LEN + (listed attrs).length + 4, STUN_INTEGRITY_LEN) := by
    have hwalk := walk_bytes (listed_values hmax) (headerBytes cls method total txn)
    rw [← listed, length_append, hhead] at hwalk
    rw [findAttribute_walk, hwalk, hmessage, find_behind h rfl, integrityOf_length]
    rfl
  have hlen : ∀ length, (headerBytes cls method length txn ++ listed attrs).length = STUN_HEADER_LEN + (listed attrs).length :=
    fun length => by rw [length_append, hhead]
  have hfront : (headerBytes cls method total txn ++ listed message).take (STUN_HEADER_LEN + (listed attrs).length) =
      headerBytes cls method total txn ++ listed attrs := by
    rw [hbytes, ← append_assoc, ← hlen total, take_left]
  have hvalue : slice (headerBytes cls method total txn ++ listed message) (STUN_HEADER_LEN + (listed attrs).length + 4)
      (STUN_HEADER_LEN + (listed attrs).length + 4 + STUN_INTEGRITY_LEN) =
        (integrityOf sha1 cls method txn key attrs).2 := by
    have hmiddle := slice_middle
      (headerBytes cls method total txn ++ (listed attrs ++ (be16 ATTR_MESSAGE_INTEGRITY ++ be16 (UInt16.ofNat 20))))
      (integrityOf sha1 cls method txn key attrs).2 (listed rest)
    rw [hbytes, integrityOf_bytes]
    simp only [length_append, hhead, length_be16, integrityOf_length, append_assoc] at hmiddle ⊢
    rw [STUN_INTEGRITY_LEN, Nat.add_assoc STUN_HEADER_LEN]
    exact hmiddle
  have hmiddle : (listed attrs).length + 24 ≤ total := by
    rw [htotal, hbytes, length_append, length_append, length_integrityOf]
    omega
  unfold verifyMessageIntegrity
  simp only [hfind]
  have hstart : STUN_HEADER_LEN + (listed attrs).length + 4 - 4 = STUN_HEADER_LEN + (listed attrs).length := by omega
  have hcovered : STUN_HEADER_LEN + (listed attrs).length + 4 + STUN_INTEGRITY_LEN - STUN_HEADER_LEN =
      (listed attrs).length + 24 := by
    rw [STUN_INTEGRITY_LEN]
    omega
  have hscratch : (splice (headerBytes cls method total txn ++ listed attrs ++
      List.replicate (STUN_SCRATCH - (STUN_HEADER_LEN + (listed attrs).length)) 0) 2
      (be16 (UInt16.ofNat ((listed attrs).length + 24)))).take (STUN_HEADER_LEN + (listed attrs).length) =
        headerBytes cls method ((listed attrs).length + 24) txn ++ listed attrs := by
    rw [append_assoc, splice_length, ← append_assoc, ← hlen ((listed attrs).length + 24), take_left]
  rw [if_neg (not_not.mpr rfl), hstart, if_neg (by omega), if_neg (by omega), hcovered, if_neg (by omega), hfront,
    hscratch, hvalue, decide_eq_true_eq, foldl_or_eq_zero]
  exact ⟨rfl, (xorWith_eq_zero rfl).mpr rfl⟩

theorem received_integrity (htxn : txn.length = 12) (hfits : messageLength attrs ≤ STUN_SCRATCH)
    (h : ∀ a ∈ attrs, a.1 ≠ ATTR_MESSAGE_INTEGRITY) :
    verifyMessageIntegrity sha1 (received sha1 cls method key attrs txn)
      ⟨cls, method, (listed attrs).length + 32, txn⟩ key = true := by
  have h20 : STUN_HEADER_LEN = 20 := rfl
  have h1500 : STUN_SCRATCH = 1500 := rfl
  have h65535 : U16_MAX = 65535 := rfl
  rw [messageLength_eq] at hfits
  have hlength : (listed (sealed sha1 cls method txn key attrs)).length = (listed attrs).length + 32 := length_sealed
  have hverified := integrity_verified [fingerprintOf sha1 cls method txn key attrs] htxn (by omega) h
    (show sealed sha1 cls method txn key attrs = _ from rfl) (by omega)
  rw [hlength] at hverified
  exact hverified

theorem received_fingerprint (htxn : txn.length = 12) (hfits : messageLength attrs ≤ STUN_SCRATCH)
    (h : ∀ a ∈ attrs, a.1 ≠ ATTR_FINGERPRINT) :
    verifyFingerprint (received sha1 cls method key attrs txn) ⟨cls, method, (listed attrs).length + 32, txn⟩ =
      true := by
  have hbefore : ∀ a ∈ attrs ++ [integrityOf sha1 cls method txn key attrs], a.1 ≠ ATTR_FINGERPRINT := by
    rw [forall_mem_append, forall_mem_singleton]
    exact ⟨h, show ATTR_MESSAGE_INTEGRITY ≠ ATTR_FINGERPRINT by decide⟩
  have hlength : (listed (attrs ++ [integrityOf sha1 cls method txn key attrs])).length + 8 =
      (listed attrs).length + 32 := by
    rw [listed_concat, length_append, length_integrityOf]
  have hover : fingerprintOver cls method txn (attrs ++ [integrityOf sha1 cls method txn key attrs]) =
      fingerprintOf sha1 cls method txn key attrs := by
    rw [fingerprintOver, hlength, listed_concat]
    rfl
  have hmax : (listed attrs).length + 32 ≤ U16_MAX := by
    have h1500 : STUN_SCRATCH ≤ U16_MAX := by decide
    rw [messageLength_eq] at hfits
    omega
  have hverified := fingerprint_verified cls method htxn hbefore (by rw [hlength]; exact hmax)
  rw [hlength, hover, append_assoc] at hverified
  exact hverified

end Message

/-- A message that fits is built, and read as what it was built from, with both checks. The walk over any datagram
ends, stays in the message, and does not depend on what is behind it. -/
theorem message_read (sha1 : Sha1) :
    (∀ (cls : UInt8) (method : UInt16) (txn : FixedBytes 12) (key : Bytes) (attrs : List (UInt16 × Bytes)) (out : Bytes),
      cls < 4 → method < 4096 → messageLength attrs ≤ STUN_SCRATCH → messageLength attrs ≤ out.length →
        ∃ w header mac fingerprint, buildMessage sha1 cls method txn.1 key attrs out = some w ∧
          parseStunHeader (w.out.take w.pos) = some header ∧
          (header.cls = cls ∧ header.method = method ∧ header.txn = txn.1 ∧
            STUN_HEADER_LEN + header.length = messageLength attrs ∧ w.pos = messageLength attrs) ∧
          (walk (w.out.take w.pos) (STUN_HEADER_LEN + header.length) STUN_HEADER_LEN).2 = .stop ∧
          values (w.out.take w.pos)
              (walk (w.out.take w.pos) (STUN_HEADER_LEN + header.length) STUN_HEADER_LEN).1 =
            attrs ++ [(ATTR_MESSAGE_INTEGRITY, mac), (ATTR_FINGERPRINT, fingerprint)] ∧
          ((∀ a ∈ attrs, a.1 ≠ ATTR_MESSAGE_INTEGRITY) →
            verifyMessageIntegrity sha1 (w.out.take w.pos) header key = true) ∧
          ((∀ a ∈ attrs, a.1 ≠ ATTR_FINGERPRINT) → verifyFingerprint (w.out.take w.pos) header = true)) ∧
      ∀ (buf : Bytes) (header : StunHeader), parseStunHeader buf = some header →
        STUN_HEADER_LEN + header.length ≤ buf.length ∧
          (∀ a ∈ (walk buf (STUN_HEADER_LEN + header.length) STUN_HEADER_LEN).1,
            STUN_HEADER_LEN + 4 ≤ a.2.1 ∧ a.2.1 + a.2.2 ≤ STUN_HEADER_LEN + header.length) ∧
          (∀ rest at_, nextAttribute (buf.take (STUN_HEADER_LEN + header.length) ++ rest) at_
            (STUN_HEADER_LEN + header.length) = nextAttribute buf at_ (STUN_HEADER_LEN + header.length)) ∧
          ∀ typ, findAttribute buf header typ =
            ((walk buf (STUN_HEADER_LEN + header.length) STUN_HEADER_LEN).1.find? (·.1 = typ)).map (·.2) := by
  constructor
  · intro cls method txn key attrs out hc hm hfits hroom
    obtain ⟨w, hbuild, hpos, hbytes⟩ : ∃ w, buildMessage sha1 cls method txn.1 key attrs out = some w ∧
        w.pos = messageLength attrs ∧ w.out.take w.pos = received sha1 cls method key attrs txn.1 :=
      build_bytes txn.2 hfits hroom
    have hwalk : walk (received sha1 cls method key attrs txn.1) (STUN_HEADER_LEN + ((listed attrs).length + 32))
        STUN_HEADER_LEN = (spans STUN_HEADER_LEN (sealed sha1 cls method txn.1 key attrs), .stop) :=
      received_walk txn.2 hfits
    have hmax : (listed attrs).length + 32 ≤ U16_MAX := by
      have h1500 : STUN_SCRATCH ≤ U16_MAX := by decide
      rw [messageLength_eq] at hfits
      omega
    have hparse : parseStunHeader (received sha1 cls method key attrs txn.1) =
        some ⟨cls, method, (listed attrs).length + 32, txn.1⟩ := by
      have hwhole := parse_headerBytes hc hm txn.2
        (by rw [length_sealed]; exact hmax) (listed_words (sealed sha1 cls method txn.1 key attrs))
      rw [length_sealed] at hwhole
      exact hwhole
    refine ⟨w, ⟨cls, method, (listed attrs).length + 32, txn.1⟩, (integrityOf sha1 cls method txn.1 key attrs).2,
      (fingerprintOf sha1 cls method txn.1 key attrs).2, hbuild, ?_, ⟨rfl, rfl, rfl, rfl, hpos⟩, ?_, ?_, ?_, ?_⟩
    · rw [hbytes, hparse]
    · rw [hbytes]
      exact congrArg (·.2) hwalk
    · rw [hbytes, hwalk, received_values txn.2]
      rfl
    · rw [hbytes]
      exact received_integrity txn.2 hfits
    · rw [hbytes]
      exact received_fingerprint txn.2 hfits
  · intro buf header h
    have hlength : STUN_HEADER_LEN + header.length ≤ buf.length := by
      unfold parseStunHeader at h
      dsimp only at h
      split_ifs at h with hstun hlen
      cases h
      rw [not_or, Nat.not_lt] at hlen
      exact hlen.2
    exact ⟨hlength, walk_inside STUN_HEADER_LEN, fun rest at_ => nextAttribute_take hlength rest,
      findAttribute_walk buf header⟩

theorem message_read_username :
    ∃ w header, buildMessage (fun _ => .zero 20) 0 1 (.zero 12 : FixedBytes 12).1 [1] [(0x0006, [0x61, 0x62])]
        (List.replicate 1500 0) = some w ∧ parseStunHeader (w.out.take w.pos) = some header ∧
      verifyMessageIntegrity (fun _ => .zero 20) (w.out.take w.pos) header [1] = true ∧
      verifyFingerprint (w.out.take w.pos) header = true := by
  obtain ⟨w, header, mac, fingerprint, hbuild, hparse, -, -, -, hintegrity, hfingerprint⟩ :=
    (message_read fun _ => .zero 20).1 0 1 (.zero 12) [1] [(0x0006, [0x61, 0x62])] (List.replicate 1500 0) (by decide)
      (by decide) (by decide) (by rw [length_replicate]; decide)
  exact ⟨w, header, hbuild, hparse, hintegrity (by decide), hfingerprint (by decide)⟩

/-- An attribute of the list is taken for the integrity when it has that type. -/
theorem integrity_listed :
    messageLength [(ATTR_MESSAGE_INTEGRITY, [])] ≤ 1500 ∧
      ((buildMessage (fun _ => .zero 20) 0 1 (.zero 12 : FixedBytes 12).1 [1] [(ATTR_MESSAGE_INTEGRITY, [])]
        (List.replicate 1500 0)).bind fun w => (parseStunHeader (w.out.take w.pos)).map fun header =>
          verifyMessageIntegrity (fun _ => .zero 20) (w.out.take w.pos) header [1]) = some false := by
  decide +kernel

end Wave.Common.Stun
