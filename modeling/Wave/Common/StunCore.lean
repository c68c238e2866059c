import Wave.Common.Turn

/-! # STUN messages (`common/stun_core.rs`)

A message is a header and attributes, the last two computed over what is in front of them. -/

namespace Wave.Common.Stun

open Lib Lib.Bytes Common.Turn

def ATTR_MESSAGE_INTEGRITY : UInt16 := 0x0008
def STUN_INTEGRITY_LEN : Nat := 20
def STUN_FINGERPRINT_LEN : Nat := 4

def STUN_SCRATCH : Nat := 1500

abbrev Sha1 := Bytes → FixedBytes 20

/-- HMAC-SHA-1 over as much of `data` as the scratch holds. -/
def stunHmacSha1 (sha1 : Sha1) (key data : Bytes) : FixedBytes 20 :=
  let k := if key.length > 64 then (sha1 key).1 else key
  let k := k ++ List.replicate (64 - k.length) 0
  let inner := sha1 (xorWith (List.replicate 64 0x36) k ++ data.take STUN_SCRATCH)
  sha1 (xorWith (List.replicate 64 0x5c) k ++ inner.1)

def appendMessageIntegrity (sha1 : Sha1) (key : Bytes) (w : Written) : Option Written :=
  if w.pos + 4 + STUN_INTEGRITY_LEN > w.out.length then none
  else do
    let w ← stunSetLength w (w.pos + 4 + STUN_INTEGRITY_LEN)
    appendAttribute ATTR_MESSAGE_INTEGRITY (stunHmacSha1 sha1 key (w.out.take w.pos)).1 w

/-- Over the message up to the attribute, with the length as it was when the sender computed it. -/
def verifyMessageIntegrity (sha1 : Sha1) (buf : Bytes) (header : StunHeader) (key : Bytes) : Bool :=
  match findAttribute buf header ATTR_MESSAGE_INTEGRITY with
  | none => false
  | some (at_, len) =>
    if len ≠ STUN_INTEGRITY_LEN then false
    else
      let attrStart := at_ - 4
      if attrStart > STUN_SCRATCH then false
      else
        let covered := attrStart + 4 + STUN_INTEGRITY_LEN
        if covered < STUN_HEADER_LEN then false
        else if covered - STUN_HEADER_LEN > U16_MAX then false
        else
          let scratch := buf.take attrStart ++ List.replicate (STUN_SCRATCH - attrStart) 0
          let scratch := splice scratch 2 (be16 (UInt16.ofNat (covered - STUN_HEADER_LEN)))
          let expected := stunHmacSha1 sha1 key (scratch.take attrStart)
          (xorWith expected.1 (slice buf at_ (at_ + STUN_INTEGRITY_LEN))).foldl (· ||| ·) 0 = 0

def verifyFingerprint (buf : Bytes) (header : StunHeader) : Bool :=
  match findAttribute buf header ATTR_FINGERPRINT with
  | none => false
  | some (at_, len) =>
    if len ≠ STUN_FINGERPRINT_LEN then false
    else
      let claimed := u32be (at0 buf at_) (at0 buf (at_ + 1)) (at0 buf (at_ + 2)) (at0 buf (at_ + 3))
      crc32 (buf.take (at_ - 4)) ^^^ 0x5354554E = claimed

section Walk

variable {buf : Bytes} {at_ total : Nat} {typ : UInt16} {valueAt len next : Nat}

/-- An attribute is behind where it was looked for and within the message, and so is its value. -/
theorem nextAttribute_inside (h : nextAttribute buf at_ total = .attr typ valueAt len next) :
    valueAt = at_ + 4 ∧ valueAt + len ≤ next ∧ next ≤ total := by
  have hpad := le_pad4 len
  unfold nextAttribute at h
  dsimp only at h
  split_ifs at h
  all_goals cases h
  · exact ⟨rfl, by omega, le_rfl⟩
  · exact ⟨rfl, by omega, by omega⟩

/-- The attributes from `at_` on: the type of each and where its value is; and how the walk ends. -/
def walk (buf : Bytes) (total at_ : Nat) : List (UInt16 × Nat × Nat) × AttrScan :=
  match _h : nextAttribute buf at_ total with
  | .attr typ valueAt len next => ((typ, valueAt, len) :: (walk buf total next).1, (walk buf total next).2)
  | .stop => ([], .stop)
  | .malformed => ([], .malformed)
termination_by total - at_
decreasing_by
  all_goals
    have hinside := nextAttribute_inside _h
    omega

theorem walk_attr (h : nextAttribute buf at_ total = .attr typ valueAt len next) :
    walk buf total at_ = ((typ, valueAt, len) :: (walk buf total next).1, (walk buf total next).2) := by
  rw [walk]
  split
  next h' => rw [h] at h'; cases h'; rfl
  next h' => rw [h] at h'; cases h'
  next h' => rw [h] at h'; cases h'

theorem walk_over (h : ∀ typ valueAt len next, nextAttribute buf at_ total ≠ .attr typ valueAt len next) :
    walk buf total at_ = ([], nextAttribute buf at_ total) := by
  rw [walk]
  split
  next h' => exact absurd h' (h _ _ _ _)
  next h' => rw [h']
  next h' => rw [h']

/-- What holds of a walk: of one that is over, and of one that goes on when it holds of the rest. -/
theorem walk_induction {P : Nat → List (UInt16 × Nat × Nat) × AttrScan → Prop}
    (hover : ∀ at_, (∀ typ valueAt len next, nextAttribute buf at_ total ≠ .attr typ valueAt len next) →
      P at_ ([], nextAttribute buf at_ total))
    (hattr : ∀ at_ typ valueAt len next, nextAttribute buf at_ total = .attr typ valueAt len next →
      P next (walk buf total next) → P at_ ((typ, valueAt, len) :: (walk buf total next).1, (walk buf total next).2))
    (at_ : Nat) : P at_ (walk buf total at_) := by
  induction hn : total - at_ using Nat.strong_induction_on generalizing at_ with
  | h n ih =>
    by_cases h : ∃ typ valueAt len next, nextAttribute buf at_ total = .attr typ valueAt len next
    · obtain ⟨typ, valueAt, len, next, h⟩ := h
      have hinside := nextAttribute_inside h
      rw [walk_attr h]
      exact hattr _ _ _ _ _ h (ih _ (by omega) next rfl)
    · simp only [not_exists] at h
      rw [walk_over h]
      exact hover _ h

theorem walk_inside (at_ : Nat) :
    ∀ a ∈ (walk buf total at_).1, at_ + 4 ≤ a.2.1 ∧ a.2.1 + a.2.2 ≤ total := by
  refine walk_induction (P := fun at_ w => ∀ a ∈ w.1, at_ + 4 ≤ a.2.1 ∧ a.2.1 + a.2.2 ≤ total) ?_ ?_ at_
  · exact fun _ _ => nofun
  · intro at_ typ valueAt len next h ih
    have hinside := nextAttribute_inside h
    rw [forall_mem_cons]
    refine ⟨⟨by dsimp only; omega, by dsimp only; omega⟩, fun a ha => ?_⟩
    have := ih a ha
    omega

theorem nextAttribute_take (htotal : total ≤ buf.length) (rest : Bytes) :
    nextAttribute (buf.take total ++ rest) at_ total = nextAttribute buf at_ total := by
  have hbyte : ∀ i < total, at0 (buf.take total ++ rest) i = at0 buf i := by
    intro i hi
    have hlen : i < (buf.take total).length := by
      rw [length_take]
      omega
    rw [at0, at0, List.getD_eq_getElem?_getD, List.getElem?_append_left hlen, List.getElem?_take, if_pos hi,
      List.getD_eq_getElem?_getD]
  unfold nextAttribute
  by_cases hend : at_ ≥ total
  · rw [if_pos hend, if_pos hend]
  · rw [if_neg hend, if_neg hend]
    by_cases hshort : at_ + 4 > total
    · rw [if_pos hshort, if_pos hshort]
    · rw [if_neg hshort, if_neg hshort, hbyte at_ (by omega), hbyte (at_ + 1) (by omega), hbyte (at_ + 2) (by omega),
        hbyte (at_ + 3) (by omega)]

theorem findAttributeFrom_walk (typ : UInt16) {fuel : Nat} (hfuel : total - at_ < fuel) :
    findAttributeFrom buf total typ fuel at_ = ((walk buf total at_).1.find? (·.1 = typ)).map (·.2) := by
  induction fuel generalizing at_ with
  | zero => omega
  | succ fuel ih =>
    rw [findAttributeFrom]
    split
    next found valueAt len next h =>
      have hinside := nextAttribute_inside h
      rw [walk_attr h, List.find?_cons]
      by_cases hfound : found = typ
      · rw [if_pos hfound, decide_eq_true hfound]
        rfl
      · rw [if_neg hfound, decide_eq_false hfound]
        exact ih (by omega)
    next h => rw [walk_over (by rw [h]; nofun)]; rfl
    next h => rw [walk_over (by rw [h]; nofun)]; rfl

theorem findAttribute_walk (buf : Bytes) (header : StunHeader) (typ : UInt16) :
    findAttribute buf header typ =
      ((walk buf (STUN_HEADER_LEN + header.length) STUN_HEADER_LEN).1.find? (·.1 = typ)).map (·.2) := by
  exact findAttributeFrom_walk typ (by omega)

end Walk

def headerBytes (cls : UInt8) (method : UInt16) (length : Nat) (txn : Bytes) : Bytes :=
  be16 (stunMessageType cls method) ++ (be16 (UInt16.ofNat length) ++ (be32 STUN_MAGIC ++ txn))

def attributeBytes (a : UInt16 × Bytes) : Bytes :=
  be16 a.1 ++ (be16 (UInt16.ofNat a.2.length) ++ (a.2 ++ List.replicate (pad4 a.2.length - a.2.length) 0))

def appendAttributes (attrs : List (UInt16 × Bytes)) (w : Written) : Option Written :=
  attrs.foldlM (fun w a => appendAttribute a.1 a.2 w) w

def buildMessage (sha1 : Sha1) (cls : UInt8) (method : UInt16) (txn key : Bytes) (attrs : List (UInt16 × Bytes))
    (out : Bytes) : Option Written := do
  let w ← writeStunHeader cls method txn out
  let w ← appendAttributes attrs w
  let w ← appendMessageIntegrity sha1 key w
  appendFingerprint w

def messageLength (attrs : List (UInt16 × Bytes)) : Nat :=
  STUN_HEADER_LEN + (attrs.flatMap attributeBytes).length + (4 + STUN_INTEGRITY_LEN) + (4 + STUN_FINGERPRINT_LEN)

theorem length_attributeBytes (a : UInt16 × Bytes) : (attributeBytes a).length = 4 + pad4 a.2.length := by
  have hpad := le_pad4 a.2.length
  simp only [attributeBytes, length_append, length_be16, length_replicate]
  omega

/-- A buffer with a message written into it, whose header says `length`. -/
structure Holds (w : Written) (cls : UInt8) (method : UInt16) (length : Nat) (txn body : Bytes) : Prop where
  pos : w.pos = STUN_HEADER_LEN + body.length
  fits : w.pos ≤ w.out.length
  bytes : w.out.take w.pos = headerBytes cls method length txn ++ body

section Writers

variable {cls : UInt8} {method : UInt16} {length : Nat} {txn body : Bytes} {w : Written}

theorem take_splice {b : Bytes} {i : Nat} (new : Bytes) (h : i ≤ b.length) :
    (splice b i new).take (i + new.length) = b.take i ++ new := by
  have hlen : (b.take i ++ new).length = i + new.length := by
    rw [length_append, length_take]
    omega
  rw [splice, ← hlen, take_left]

theorem holds_header (cls : UInt8) (method : UInt16) (htxn : txn.length = 12) (out : Bytes)
    (hroom : STUN_HEADER_LEN ≤ out.length) :
    ∃ w, writeStunHeader cls method txn out = some w ∧ Holds w cls method 0 txn [] ∧ w.out.length = out.length := by
  have hw : writeStunHeader cls method txn out = some
      { out := splice out 0 (be16 (stunMessageType cls method) ++ be16 0 ++ be32 STUN_MAGIC ++ txn)
        pos := STUN_HEADER_LEN } := if_neg (Nat.not_lt.mpr hroom)
  obtain ⟨-, hlen⟩ := writeStunHeader_some htxn hw
  have hbytes : (be16 (stunMessageType cls method) ++ be16 0 ++ be32 STUN_MAGIC ++ txn).length = STUN_HEADER_LEN := by
    rw [length_append, htxn]
    rfl
  refine ⟨_, hw, ⟨rfl, hlen.symm ▸ hroom, ?_⟩, hlen⟩
  have htake := take_splice (be16 (stunMessageType cls method) ++ be16 0 ++ be32 STUN_MAGIC ++ txn)
    (Nat.zero_le out.length)
  rw [hbytes, Nat.zero_add, take_zero, nil_append] at htake
  rw [htake, append_nil]
  simp [headerBytes]

theorem holds_attribute (hw : Holds w cls method length txn body) (a : UInt16 × Bytes)
    (hroom : w.pos + (attributeBytes a).length ≤ w.out.length) (hlen : a.2.length ≤ U16_MAX) :
    ∃ w', appendAttribute a.1 a.2 w = some w' ∧ Holds w' cls method length txn (body ++ attributeBytes a) ∧
      w'.out.length = w.out.length := by
  rw [length_attributeBytes] at hroom
  have hw' : appendAttribute a.1 a.2 w = some
      { out := splice w.out w.pos (be16 a.1 ++ be16 (UInt16.ofNat a.2.length) ++ a.2 ++
          List.replicate (pad4 a.2.length - a.2.length) 0)
        pos := w.pos + 4 + pad4 a.2.length } := if_neg (by omega)
  obtain ⟨hpos, hout⟩ := appendAttribute_some hw'
  have hbytes : be16 a.1 ++ be16 (UInt16.ofNat a.2.length) ++ a.2 ++ List.replicate (pad4 a.2.length - a.2.length) 0 =
      attributeBytes a := by simp [attributeBytes]
  refine ⟨_, hw', ⟨?_, by rw [hpos, hout]; omega, ?_⟩, hout⟩
  · rw [length_append, length_attributeBytes, hpos, hw.pos]
    omega
  · have htake := take_splice (attributeBytes a) hw.fits
    rw [length_attributeBytes, ← Nat.add_assoc, hw.bytes, append_assoc] at htake
    rw [← htake, ← hbytes]

theorem holds_attributes (hw : Holds w cls method length txn body) (attrs : List (UInt16 × Bytes))
    (hroom : w.pos + (attrs.flatMap attributeBytes).length ≤ w.out.length)
    (hlen : (attrs.flatMap attributeBytes).length ≤ U16_MAX) :
    ∃ w', appendAttributes attrs w = some w' ∧ Holds w' cls method length txn (body ++ attrs.flatMap attributeBytes) ∧
      w'.out.length = w.out.length := by
  induction attrs generalizing w body with
  | nil => exact ⟨w, rfl, by rw [flatMap_nil, append_nil]; exact hw, rfl⟩
  | cons a attrs ih =>
    have hpad := le_pad4 a.2.length
    have ha := length_attributeBytes a
    rw [flatMap_cons, length_append] at hroom hlen
    obtain ⟨w₁, happend, hw₁, hout₁⟩ := holds_attribute hw a (by omega) (by omega)
    have hpos : w₁.pos = w.pos + (attributeBytes a).length := by
      rw [hw₁.pos, hw.pos, length_append, Nat.add_assoc]
    obtain ⟨w₂, hrest, hw₂, hout₂⟩ := ih hw₁ (by omega) (by omega)
    refine ⟨w₂, ?_, ?_, hout₂.trans hout₁⟩
    · rw [appendAttributes, foldlM_cons, happend]
      exact hrest
    · rw [flatMap_cons, ← append_assoc]
      exact hw₂

theorem splice_length (cls : UInt8) (method : UInt16) (old new : Nat) (txn rest : Bytes) :
    splice (headerBytes cls method old txn ++ rest) 2 (be16 (UInt16.ofNat new)) =
      headerBytes cls method new txn ++ rest := by
  have hmiddle : splice (be16 (stunMessageType cls method) ++ (be16 (UInt16.ofNat old) ++
      (be32 STUN_MAGIC ++ (txn ++ rest)))) (be16 (stunMessageType cls method)).length (be16 (UInt16.ofNat new)) =
        be16 (stunMessageType cls method) ++ (be16 (UInt16.ofNat new) ++ (be32 STUN_MAGIC ++ (txn ++ rest))) :=
    splice_middle rfl
  rw [length_be16] at hmiddle
  simp only [headerBytes, append_assoc]
  exact hmiddle

theorem holds_length (hw : Holds w cls method length txn body) (htxn : txn.length = 12) (total : Nat)
    (hlow : STUN_HEADER_LEN ≤ total) (hhigh : total - STUN_HEADER_LEN ≤ U16_MAX) :
    ∃ w', stunSetLength w total = some w' ∧ Holds w' cls method (total - STUN_HEADER_LEN) txn body ∧
      w'.pos = w.pos ∧ w'.out.length = w.out.length := by
  have hpos := hw.pos
  have hfits := hw.fits
  have hset : stunSetLength w total =
      some { w with out := splice w.out 2 (be16 (UInt16.ofNat (total - STUN_HEADER_LEN))) } := by
    rw [stunSetLength, if_neg (by omega), if_neg (by omega)]
  have hout := (stunSetLength_some hset).2
  refine ⟨_, hset, ⟨hpos, by rw [hout]; exact hfits, ?_⟩, rfl, hout⟩
  have hlen : (headerBytes cls method (total - STUN_HEADER_LEN) txn ++ body).length = w.pos := by
    simp only [headerBytes, length_append, length_be16, length_be32, htxn, hpos, STUN_HEADER_LEN]
  have hsplit := take_append_drop w.pos w.out
  rw [hw.bytes, append_assoc] at hsplit
  dsimp only
  rw [← hsplit, splice_length, ← append_assoc, ← hlen, take_left]

end Writers

end Wave.Common.Stun
