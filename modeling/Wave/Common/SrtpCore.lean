import Wave.Lib.Bytes

/-! # SRTP packet protection (`common/srtp_core.rs`)

AES, AES-GCM and SHA-1 are a parameter, `SdkCrypto`, of which `SdkCrypto.Lawful` is all that is ever
assumed. A function returns what the source returns, with the buffer as it stands then. -/

namespace Wave.Common.SrtpCore

open Lib Lib.Bytes

variable {index : UInt64} {ssrc : UInt32}

/-- The primitives of `sdk/crypto/aes_gcm.rs` and `sdk/crypto/sha1.rs` that this file calls. -/
structure SdkCrypto where
  aes128EcbEncryptBlock : (key block : Bytes) → Bytes
  /-- `AesGcm::new_128(key).encrypt(nonce, aad, data)`: the ciphertext and the tag. -/
  gcmEncrypt : (key nonce aad data : Bytes) → Bytes × Bytes
  /-- `decrypt`: the plaintext, or `none` with the data left as it was. -/
  gcmDecrypt : (key nonce aad data tag : Bytes) → Option Bytes
  sha1 : Bytes → Bytes
  length_aes : ∀ k b, (aes128EcbEncryptBlock k b).length = 16
  length_gcmEncrypt : ∀ k n a d, (gcmEncrypt k n a d).1.length = d.length
  length_gcmTag : ∀ k n a d, (gcmEncrypt k n a d).2.length = 16
  length_gcmDecrypt : ∀ k n a d t p, gcmDecrypt k n a d t = some p → p.length = d.length
  length_sha1 : ∀ d, (sha1 d).length = 20

/-- Decryption undoes encryption under the same key, nonce and AAD. -/
def SdkCrypto.Lawful (sdk : SdkCrypto) : Prop :=
  ∀ k n a d, sdk.gcmDecrypt k n a (sdk.gcmEncrypt k n a d).1 (sdk.gcmEncrypt k n a d).2 = some d

structure SrtpReplay where
  highest : UInt64 := 0
  bitmap : UInt64 := 0
  initialized : Bool := false
deriving DecidableEq

/-- `accept`: the window afterwards and the verdict. -/
def SrtpReplay.accept (w : SrtpReplay) (index : UInt64) : SrtpReplay × Bool :=
  if !w.initialized then ({ highest := index, bitmap := 1, initialized := true }, true)
  else if index > w.highest then
    let shift := index - w.highest
    ({ w with
        highest := index
        bitmap := if shift ≥ 64 then 1 else (w.bitmap <<< shift) ||| 1 }, true)
  else
    let back := w.highest - index
    if back ≥ 64 || (w.bitmap &&& ((1 : UInt64) <<< back)) != 0 then (w, false)
    else ({ w with bitmap := w.bitmap ||| ((1 : UInt64) <<< back) }, true)

def SrtpReplay.highest? (w : SrtpReplay) : Option UInt64 :=
  if w.initialized then some w.highest else none

theorem SrtpReplay.accept_refused {w w' : SrtpReplay} (h : w.accept index = (w', false)) : w' = w := by
  unfold SrtpReplay.accept at h
  split at h
  · simp at h
  · split at h
    · simp at h
    · dsimp only at h
      split at h
      · exact (Prod.mk.inj h).1.symm
      · simp at h

def estimateRoc (lastIndex : UInt64) (sequence : UInt16) : UInt64 :=
  let lastSeq := lastIndex.toUInt16
  let lastRoc := lastIndex >>> 16
  if sequence < 0x8000 ∧ lastSeq > 0x8000 ∧ lastRoc > 0 then lastRoc - 1
  else if sequence > 0x8000 ∧ lastSeq < 0x8000 then lastRoc + 1
  else lastRoc

def packetIndex (roc : UInt32) (sequence : UInt16) : UInt64 :=
  (roc.toUInt64 <<< 16) ||| sequence.toUInt64

def SRTP_AUTH_TAG_LEN : Nat := 16
def SRTP_AES_CM_TAG_LEN : Nat := 10

section
variable (sdk : SdkCrypto)

/-- The `while written < out.len()` loop of `derive`: `head` is the salt with
the label folded in, `ctr` the two counter bytes after it. -/
def deriveLoop (masterKey head : Bytes) : (fuel : Nat) → (ctr : UInt16) → (left : Nat) → Bytes
  | 0, _, _ => []
  | fuel + 1, ctr, left =>
    if left = 0 then []
    else
      let block := sdk.aes128EcbEncryptBlock masterKey (head ++ be16 ctr)
      let take := min 16 left
      block.take take ++ deriveLoop masterKey head fuel (ctr + 1) (left - take)

/-- `counter[7] ^= label`. -/
def kdfHead (salt : Bytes) (label : UInt8) : Bytes := salt.modify 7 (· ^^^ label)

/-- `derive(master_key, salt, label, out)` for an `out` of `n` bytes. -/
def derive (masterKey salt : Bytes) (label : UInt8) (n : Nat) : Bytes :=
  deriveLoop sdk masterKey (kdfHead salt label) n 0 n

structure CmSessionKeys where
  encKey : Bytes
  authKey : Bytes
  sessionSalt : Bytes

def deriveAesCmSessionKeys (masterKey masterSalt : Bytes) : CmSessionKeys where
  encKey := derive sdk masterKey masterSalt 0x00 16
  authKey := derive sdk masterKey masterSalt 0x01 20
  sessionSalt := derive sdk masterKey masterSalt 0x02 14

/-- The session key and salt; the 12-byte master salt is padded with zeros to 14. -/
def deriveAeadKeySalt (masterKey masterSalt : Bytes) (keyLabel saltLabel : UInt8) : Bytes × Bytes :=
  let kdfSalt := masterSalt ++ [0, 0]
  (derive sdk masterKey kdfSalt keyLabel 16, derive sdk masterKey kdfSalt saltLabel 12)

/-- `00 00 || SSRC || ROC || SEQ`, XOR the salt. -/
def gcmNonce (masterSalt : Bytes) (ssrc : UInt32) (index : UInt64) : Bytes :=
  xorWith masterSalt (([0, 0] : Bytes) ++ be32 ssrc ++ be32 (index >>> 16).toUInt32 ++ be16 index.toUInt16)

def AUTH_INPUT_MAX : Nat := 1600

/-- Past the scratch size the source returns with the caller's zeroed output untouched. -/
def hmacSha1 (key data : Bytes) : Bytes :=
  let block := if key.length > 64 then sdk.sha1 key ++ List.replicate 44 0
    else key ++ List.replicate (64 - key.length) 0
  if 64 + data.length > AUTH_INPUT_MAX then List.replicate 20 0
  else
    let innerHash := sdk.sha1 (block.map (· ^^^ 0x36) ++ data)
    sdk.sha1 (block.map (· ^^^ 0x5c) ++ innerHash)

/-- The salt with SSRC and the low half of the index folded in, and the block
number over its last four bytes. -/
def cmCounter (salt : Bytes) (ssrc : UInt32) (index : UInt64) (blockNo : UInt32) : Bytes :=
  xorWith (salt.take 12) (([0, 0, 0, 0] : Bytes) ++ be32 ssrc ++ be32 index.toUInt32) ++ be32 blockNo

def aesCmXorLoop (key salt : Bytes) (ssrc : UInt32) (index : UInt64) :
    (fuel : Nat) → (blockNo : UInt32) → (data : Bytes) → Bytes
  | 0, _, data => data
  | fuel + 1, blockNo, data =>
    if data = [] then []
    else
      let stream := sdk.aes128EcbEncryptBlock key (cmCounter salt ssrc index blockNo)
      xorWith (data.take 16) stream ++
        aesCmXorLoop key salt ssrc index fuel (blockNo + 1) (data.drop 16)

def aesCmXor (key salt : Bytes) (ssrc : UInt32) (index : UInt64) (data : Bytes) : Bytes :=
  aesCmXorLoop sdk key salt ssrc index data.length 0 data

/-- What the AES-CM profile authenticates: the packet so far and the rollover counter. -/
def cmTag (authKey : Bytes) (index : UInt64) (body : Bytes) : Bytes :=
  (hmacSha1 sdk authKey (body ++ be32 (index >>> 16).toUInt32)).take SRTP_AES_CM_TAG_LEN

def protectAesCmSha180 (encKey authKey salt : Bytes) (ssrc : UInt32) (index : UInt64)
    (packet : Bytes) (headerLen plainLen : Nat) : Option Nat × Bytes :=
  if headerLen > plainLen ∨ plainLen > packet.length - SRTP_AES_CM_TAG_LEN then (none, packet)
  else
    -- the payload is enciphered before the scratch bound is looked at
    let enciphered := splice packet headerLen
      (aesCmXor sdk encKey salt ssrc index (slice packet headerLen plainLen))
    if plainLen + 4 > AUTH_INPUT_MAX then (none, enciphered)
    else
      (some (plainLen + SRTP_AES_CM_TAG_LEN),
        splice enciphered plainLen (cmTag sdk authKey index (enciphered.take plainLen)))

def unprotectAesCmSha180 (encKey authKey salt : Bytes) (ssrc : UInt32) (index : UInt64)
    (packet : Bytes) (headerLen : Nat) : Option Nat × Bytes :=
  if packet.length ≤ SRTP_AES_CM_TAG_LEN then (none, packet)
  else
    let plainLen := packet.length - SRTP_AES_CM_TAG_LEN
    if headerLen > plainLen then (none, packet)
    else if plainLen + 4 > AUTH_INPUT_MAX then (none, packet)
    else if cmTag sdk authKey index (packet.take plainLen) ≠ packet.drop plainLen then
      (none, packet)
    else
      (some plainLen, splice packet headerLen
        (aesCmXor sdk encKey salt ssrc index (slice packet headerLen plainLen)))

def GCM_AAD_MAX : Nat := 256

def protectAes128Gcm (masterKey masterSalt : Bytes) (ssrc : UInt32) (index : UInt64)
    (packet : Bytes) (headerLen plainLen : Nat) : Option Nat × Bytes :=
  if headerLen > plainLen ∨ plainLen > packet.length - SRTP_AUTH_TAG_LEN then (none, packet)
  else if headerLen > GCM_AAD_MAX then (none, packet)
  else
    let (ciphertext, tag) := sdk.gcmEncrypt masterKey (gcmNonce masterSalt ssrc index)
      (packet.take headerLen) (slice packet headerLen plainLen)
    (some (plainLen + SRTP_AUTH_TAG_LEN), splice (splice packet headerLen ciphertext) plainLen tag)

def unprotectAes128Gcm (masterKey masterSalt : Bytes) (ssrc : UInt32) (index : UInt64)
    (packet : Bytes) (headerLen : Nat) : Option Nat × Bytes :=
  if packet.length ≤ SRTP_AUTH_TAG_LEN then (none, packet)
  else
    let plainLen := packet.length - SRTP_AUTH_TAG_LEN
    if headerLen > plainLen then (none, packet)
    else if headerLen > GCM_AAD_MAX then (none, packet)
    else
      match sdk.gcmDecrypt masterKey (gcmNonce masterSalt ssrc index) (packet.take headerLen)
          (slice packet headerLen plainLen) (packet.drop plainLen) with
      | none => (none, packet)
      | some plain => (some plainLen, splice packet headerLen plain)

theorem gcmNonce_seq {salt : Bytes} {i j : UInt64} (hs : salt.length = 12)
    (h : gcmNonce salt ssrc i = gcmNonce salt ssrc j) : i.toUInt16 = j.toUInt16 := by
  have hin := xorWith_cancel_left (by rw [hs]; rfl) (by rw [hs]; rfl) h
  exact be16_injective (List.append_inj_right' hin rfl)

theorem length_deriveLoop (masterKey head : Bytes) (fuel : Nat) (ctr : UInt16) (left : Nat)
    (h : left ≤ 16 * fuel) : (deriveLoop sdk masterKey head fuel ctr left).length = left := by
  induction fuel generalizing ctr left with
  | zero => simp only [deriveLoop, length_nil]; omega
  | succ fuel ih =>
    simp only [deriveLoop]
    split
    · simp [*]
    · rw [length_append, length_take, sdk.length_aes, ih _ _ (by omega)]
      omega

theorem length_derive (masterKey salt : Bytes) (label : UInt8) (n : Nat) :
    (derive sdk masterKey salt label n).length = n :=
  length_deriveLoop sdk masterKey _ n 0 n (by omega)

theorem length_hmacSha1 (key data : Bytes) : (hmacSha1 sdk key data).length = 20 := by
  simp only [hmacSha1]
  split <;> simp [sdk.length_sha1]

theorem length_cmTag (authKey : Bytes) (index : UInt64) (body : Bytes) :
    (cmTag sdk authKey index body).length = SRTP_AES_CM_TAG_LEN := by
  simp [cmTag, length_hmacSha1, SRTP_AES_CM_TAG_LEN]

theorem length_aesCmXorLoop (key salt : Bytes) (ssrc : UInt32) (index : UInt64) (fuel : Nat)
    (blockNo : UInt32) (data : Bytes) :
    (aesCmXorLoop sdk key salt ssrc index fuel blockNo data).length = data.length := by
  induction fuel generalizing blockNo data with
  | zero => rfl
  | succ fuel ih =>
    simp only [aesCmXorLoop]
    split
    · simp [*]
    · simp only [length_append, length_xorWith, length_take, sdk.length_aes, ih,
        length_drop]
      omega

private theorem aesCmXorLoop_append (key salt : Bytes) (ssrc : UInt32) (index : UInt64) (fuel : Nat)
    (blockNo : UInt32) {first rest : Bytes} (hfirst : first ≠ [])
    (hlen : first.length = 16 ∨ (first.length < 16 ∧ rest = [])) :
    aesCmXorLoop sdk key salt ssrc index (fuel + 1) blockNo (first ++ rest) =
      xorWith first (sdk.aes128EcbEncryptBlock key (cmCounter salt ssrc index blockNo)) ++
        aesCmXorLoop sdk key salt ssrc index fuel (blockNo + 1) rest := by
  simp only [aesCmXorLoop, append_eq_nil_iff, hfirst, false_and, if_false]
  rcases hlen with h | ⟨h, rfl⟩
  · rw [take_append_of_le_length (by omega), drop_append_of_le_length (by omega),
      take_of_length_le (by omega), drop_of_length_le (by omega), nil_append]
  · simp only [append_nil]
    rw [take_of_length_le (by omega), drop_of_length_le (by omega)]

theorem aesCmXorLoop_involutive (key salt : Bytes) (ssrc : UInt32) (index : UInt64) (fuel : Nat)
    (blockNo : UInt32) (data : Bytes) :
    aesCmXorLoop sdk key salt ssrc index fuel blockNo
      (aesCmXorLoop sdk key salt ssrc index fuel blockNo data) = data := by
  induction fuel generalizing blockNo data with
  | zero => rfl
  | succ fuel ih =>
    by_cases hd : data = []
    · simp [aesCmXorLoop, hd]
    -- both passes meet the same block boundaries, so each block meets its own key stream twice
    have hpos : 0 < data.length := length_pos_iff.mpr hd
    have hstep : aesCmXorLoop sdk key salt ssrc index (fuel + 1) blockNo data =
        xorWith (data.take 16) (sdk.aes128EcbEncryptBlock key (cmCounter salt ssrc index blockNo)) ++
          aesCmXorLoop sdk key salt ssrc index fuel (blockNo + 1) (data.drop 16) := by
      simp [aesCmXorLoop, hd]
    rw [hstep, aesCmXorLoop_append, xorWith_xorWith_cancel, ih, take_append_drop]
    · rw [sdk.length_aes, length_take]; omega
    · rw [← length_pos_iff, length_xorWith, sdk.length_aes, length_take]; omega
    · rw [length_xorWith, sdk.length_aes, length_take]
      by_cases h16 : 16 ≤ data.length
      · left; omega
      · right
        refine ⟨by omega, ?_⟩
        rw [drop_of_length_le (by omega), ← length_eq_zero_iff, length_aesCmXorLoop]
        rfl

@[simp] theorem length_aesCmXor (key salt : Bytes) (ssrc : UInt32) (index : UInt64) (data : Bytes) :
    (aesCmXor sdk key salt ssrc index data).length = data.length :=
  length_aesCmXorLoop sdk key salt ssrc index _ _ data

theorem aesCmXor_involutive (key salt : Bytes) (ssrc : UInt32) (index : UInt64) (data : Bytes) :
    aesCmXor sdk key salt ssrc index (aesCmXor sdk key salt ssrc index data) = data := by
  have h := aesCmXorLoop_involutive sdk key salt ssrc index data.length 0 data
  rw [aesCmXor, length_aesCmXor]
  exact h

theorem protectAesCmSha180_eq (encKey authKey salt : Bytes) (ssrc : UInt32) (index : UInt64)
    (header payload room rest : Bytes) (hroom : room.length = SRTP_AES_CM_TAG_LEN)
    (hmax : header.length + payload.length + 4 ≤ AUTH_INPUT_MAX) :
    let cipher := aesCmXor sdk encKey salt ssrc index payload
    protectAesCmSha180 sdk encKey authKey salt ssrc index (header ++ (payload ++ (room ++ rest)))
        header.length (header.length + payload.length) =
      (some (header.length + payload.length + SRTP_AES_CM_TAG_LEN),
        header ++ cipher ++ (cmTag sdk authKey index (header ++ cipher) ++ rest)) := by
  intro cipher
  have hcl : cipher.length = payload.length := length_aesCmXor ..
  have hfit : ¬ (header.length > header.length + payload.length ∨ header.length + payload.length >
      (header ++ (payload ++ (room ++ rest))).length - SRTP_AES_CM_TAG_LEN) := by
    simp only [length_append, hroom]; omega
  have hmid : splice (header ++ (payload ++ (room ++ rest))) header.length cipher =
      (header ++ cipher) ++ (room ++ rest) := by
    rw [splice_middle hcl, append_assoc]
  have hlen : header.length + payload.length = (header ++ cipher).length := by
    rw [length_append, hcl]
  rw [protectAesCmSha180, if_neg hfit]
  simp only [slice_middle]
  rw [if_neg (by omega), hmid, hlen, take_left, splice_middle]
  rw [length_cmTag, hroom]

theorem unprotectAesCmSha180_protected (encKey authKey salt : Bytes) (ssrc : UInt32)
    (index : UInt64) (header payload : Bytes)
    (hmax : header.length + payload.length + 4 ≤ AUTH_INPUT_MAX)
    (hpos : 0 < header.length + payload.length) :
    let cipher := aesCmXor sdk encKey salt ssrc index payload
    let tag := cmTag sdk authKey index (header ++ cipher)
    unprotectAesCmSha180 sdk encKey authKey salt ssrc index (header ++ cipher ++ tag) header.length =
      (some (header.length + payload.length), header ++ (payload ++ tag)) := by
  intro cipher tag
  have hcl : cipher.length = payload.length := length_aesCmXor ..
  have htl : tag.length = SRTP_AES_CM_TAG_LEN := length_cmTag ..
  have hplain : (header ++ cipher ++ tag).length - SRTP_AES_CM_TAG_LEN =
      header.length + cipher.length := by
    simp only [length_append, htl]; omega
  have hlen : header.length + cipher.length = (header ++ cipher).length := by simp
  have hslice : slice (header ++ cipher ++ tag) header.length (header.length + cipher.length) =
      cipher := by
    rw [append_assoc, slice_middle]
  rw [unprotectAesCmSha180, if_neg (by simp only [length_append, htl]; omega)]
  simp only [hplain]
  rw [if_neg (by omega), if_neg (by omega), hslice, hlen, take_left, drop_left]
  simp only [ne_eq, not_true_eq_false, if_false, tag, cipher]
  rw [append_assoc, aesCmXor_involutive, splice_middle hcl.symm, length_append, hcl]

theorem unprotectAesCmSha180_accepted {encKey authKey salt packet : Bytes} {headerLen n : Nat}
    (h : (unprotectAesCmSha180 sdk encKey authKey salt ssrc index packet headerLen).1 = some n) :
    n = packet.length - SRTP_AES_CM_TAG_LEN ∧
      cmTag sdk authKey index (packet.take n) = packet.drop n := by
  unfold unprotectAesCmSha180 at h
  split at h
  · cases h
  · dsimp only at h
    split at h
    · cases h
    · split at h
      · cases h
      · split at h
        · cases h
        · rename_i htag
          obtain rfl := Option.some.inj h
          exact ⟨rfl, not_not.mp htag⟩

theorem protectAes128Gcm_eq (masterKey masterSalt : Bytes) (ssrc : UInt32) (index : UInt64)
    (header payload room rest : Bytes) (hroom : room.length = SRTP_AUTH_TAG_LEN)
    (haad : header.length ≤ GCM_AAD_MAX) :
    let sealed := sdk.gcmEncrypt masterKey (gcmNonce masterSalt ssrc index) header payload
    protectAes128Gcm sdk masterKey masterSalt ssrc index (header ++ (payload ++ (room ++ rest)))
        header.length (header.length + payload.length) =
      (some (header.length + payload.length + SRTP_AUTH_TAG_LEN),
        header ++ sealed.1 ++ (sealed.2 ++ rest)) := by
  intro box
  have hcl : box.1.length = payload.length := sdk.length_gcmEncrypt ..
  have htl : box.2.length = room.length := by rw [hroom]; exact sdk.length_gcmTag ..
  have hfit : ¬ (header.length > header.length + payload.length ∨ header.length + payload.length >
      (header ++ (payload ++ (room ++ rest))).length - SRTP_AUTH_TAG_LEN) := by
    simp only [length_append, hroom]; omega
  have hlen : header.length + payload.length = (header ++ box.1).length := by
    rw [length_append, hcl]
  rw [protectAes128Gcm, if_neg hfit, if_neg (by omega)]
  simp only [slice_middle, take_left]
  rw [splice_middle hcl, ← append_assoc header box.1, hlen, splice_middle htl]

theorem unprotectAes128Gcm_protected (hsdk : sdk.Lawful) (masterKey masterSalt : Bytes)
    (ssrc : UInt32) (index : UInt64) (header payload : Bytes) (haad : header.length ≤ GCM_AAD_MAX)
    (hpos : 0 < header.length + payload.length) :
    let sealed := sdk.gcmEncrypt masterKey (gcmNonce masterSalt ssrc index) header payload
    unprotectAes128Gcm sdk masterKey masterSalt ssrc index (header ++ sealed.1 ++ sealed.2)
        header.length =
      (some (header.length + payload.length), header ++ (payload ++ sealed.2)) := by
  intro box
  have hcl : box.1.length = payload.length := sdk.length_gcmEncrypt ..
  have htl : box.2.length = SRTP_AUTH_TAG_LEN := sdk.length_gcmTag ..
  have hplain : (header ++ box.1 ++ box.2).length - SRTP_AUTH_TAG_LEN =
      header.length + box.1.length := by
    simp only [length_append, htl]; omega
  have hslice : slice (header ++ box.1 ++ box.2) header.length (header.length + box.1.length) =
      box.1 := by
    rw [append_assoc, slice_middle]
  have hdrop : (header ++ box.1 ++ box.2).drop (header.length + box.1.length) = box.2 := by
    rw [← length_append, drop_left]
  have htake : (header ++ box.1 ++ box.2).take header.length = header := by
    rw [append_assoc, take_left]
  rw [unprotectAes128Gcm, if_neg (by simp only [length_append, htl]; omega)]
  simp only [hplain]
  rw [if_neg (by omega), if_neg (by omega), hslice, hdrop, htake, hsdk]
  simp only [append_assoc]
  rw [splice_middle hcl.symm, hcl]

theorem unprotectAes128Gcm_accepted {masterKey masterSalt packet : Bytes} {headerLen n : Nat}
    (h : (unprotectAes128Gcm sdk masterKey masterSalt ssrc index packet headerLen).1 = some n) :
    n = packet.length - SRTP_AUTH_TAG_LEN ∧
      ∃ plain, sdk.gcmDecrypt masterKey (gcmNonce masterSalt ssrc index) (packet.take headerLen)
        (slice packet headerLen n) (packet.drop n) = some plain := by
  unfold unprotectAes128Gcm at h
  split at h
  · cases h
  · dsimp only at h
    split at h
    · cases h
    · split at h
      · cases h
      · split at h
        · cases h
        · rename_i plain hplain
          obtain rfl := Option.some.inj h
          exact ⟨rfl, plain, hplain⟩

end

end Wave.Common.SrtpCore
