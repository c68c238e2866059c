import Wave.Common.SrtpCore

/-! # Tags and buffers of the AES-CM profile

Between two bounds the tag is the front of twenty zero bytes, not an HMAC (`tag_iff`). -/

namespace Wave.Common.SrtpCore

open Lib Lib.Bytes

def hmacBlock (hash : Bytes → Bytes) (key : Bytes) : Bytes :=
  let key := if 64 < key.length then hash key else key
  key ++ List.replicate (64 - key.length) 0

def hmac (hash : Bytes → Bytes) (key data : Bytes) : Bytes :=
  hash ((hmacBlock hash key).map (· ^^^ 0x5c) ++ hash ((hmacBlock hash key).map (· ^^^ 0x36) ++ data))

/-- The tag of a packet: the first bytes of the HMAC over it and the rollover counter. -/
def srtpTag (sdk : SdkCrypto) (authKey : Bytes) (index : UInt64) (body : Bytes) : Bytes :=
  (hmac sdk.sha1 authKey (body ++ be32 (index >>> 16).toUInt32)).take SRTP_AES_CM_TAG_LEN

def NO_TAG : Bytes := List.replicate SRTP_AES_CM_TAG_LEN 0

def Silent (plainLen : Nat) : Prop := plainLen + 4 ≤ AUTH_INPUT_MAX ∧ AUTH_INPUT_MAX < 64 + (plainLen + 4)

instance (plainLen : Nat) : Decidable (Silent plainLen) := inferInstanceAs (Decidable (_ ∧ _))

section Tag

variable (sdk : SdkCrypto) {encKey authKey salt packet body : Bytes} {ssrc : UInt32} {index : UInt64}
  {headerLen plainLen n : Nat}

theorem hmacSha1_eq (key : Bytes) {data : Bytes} (h : 64 + data.length ≤ AUTH_INPUT_MAX) :
    hmacSha1 sdk key data = hmac sdk.sha1 key data := by
  have hblock : (if key.length > 64 then sdk.sha1 key ++ List.replicate 44 0
      else key ++ List.replicate (64 - key.length) 0) = hmacBlock sdk.sha1 key := by
    unfold hmacBlock
    split
    · dsimp only
      rw [sdk.length_sha1]
    · rfl
  unfold hmacSha1 hmac
  dsimp only
  rw [if_neg (Nat.not_lt.mpr h), hblock]

theorem cmTag_eq (h : 64 + (body.length + 4) ≤ AUTH_INPUT_MAX) : cmTag sdk authKey index body = srtpTag sdk authKey index body := by
  unfold cmTag srtpTag
  rw [hmacSha1_eq sdk authKey (by rw [length_append, length_be32]; exact h)]

theorem cmTag_silent (h : AUTH_INPUT_MAX < 64 + (body.length + 4)) : cmTag sdk authKey index body = NO_TAG := by
  have hlong : 64 + (body ++ be32 (index >>> 16).toUInt32).length > AUTH_INPUT_MAX := by
    rw [length_append, length_be32]
    exact h
  unfold cmTag hmacSha1
  dsimp only
  rw [if_pos hlong, List.take_replicate]
  rfl

theorem unprotect_some_iff :
    (unprotectAesCmSha180 sdk encKey authKey salt ssrc index packet headerLen).1 = some n ↔
      SRTP_AES_CM_TAG_LEN < packet.length ∧ n = packet.length - SRTP_AES_CM_TAG_LEN ∧ headerLen ≤ n ∧
        n + 4 ≤ AUTH_INPUT_MAX ∧ cmTag sdk authKey index (packet.take n) = packet.drop n := by
  unfold unprotectAesCmSha180
  split
  next hshort => exact iff_of_false nofun fun h => absurd h.1 (Nat.not_lt.mpr hshort)
  next hshort =>
    dsimp only
    split
    next hheader => exact iff_of_false nofun fun h => absurd (h.2.1 ▸ h.2.2.1) (Nat.not_le.mpr hheader)
    next hheader =>
      split
      next hmax => exact iff_of_false nofun fun h => absurd (h.2.1 ▸ h.2.2.2.1) (Nat.not_le.mpr hmax)
      next hmax =>
        split
        next htag => exact iff_of_false nofun fun h => htag (h.2.1 ▸ h.2.2.2.2)
        next htag =>
          constructor
          · intro h
            cases h
            exact ⟨Nat.not_le.mp hshort, rfl, Nat.not_lt.mp hheader, Nat.not_lt.mp hmax, not_not.mp htag⟩
          · rintro ⟨-, rfl, -⟩
            rfl

def enciphered (encKey salt : Bytes) (ssrc : UInt32) (index : UInt64) (packet : Bytes) (headerLen plainLen : Nat) : Bytes :=
  splice packet headerLen (aesCmXor sdk encKey salt ssrc index (slice packet headerLen plainLen))

theorem length_enciphered (hheader : headerLen ≤ plainLen) (hroom : plainLen ≤ packet.length) :
    (enciphered sdk encKey salt ssrc index packet headerLen plainLen).length = packet.length := by
  refine length_splice ?_
  rw [length_aesCmXor, length_slice_of_le hroom]
  omega

theorem protect_eq (hheader : headerLen ≤ plainLen) (hroom : plainLen ≤ packet.length - SRTP_AES_CM_TAG_LEN) :
    protectAesCmSha180 sdk encKey authKey salt ssrc index packet headerLen plainLen =
      if plainLen + 4 > AUTH_INPUT_MAX then (none, enciphered sdk encKey salt ssrc index packet headerLen plainLen)
      else
        (some (plainLen + SRTP_AES_CM_TAG_LEN),
          splice (enciphered sdk encKey salt ssrc index packet headerLen plainLen) plainLen
            (cmTag sdk authKey index ((enciphered sdk encKey salt ssrc index packet headerLen plainLen).take plainLen))) := by
  unfold protectAesCmSha180
  rw [if_neg (by omega)]
  rfl

theorem take_splice_tag (buffer tag : Bytes) (h : plainLen ≤ buffer.length) :
    (splice buffer plainLen tag).take plainLen = buffer.take plainLen ∧
      ((splice buffer plainLen tag).take (plainLen + tag.length)).drop plainLen = tag := by
  have hfront : (buffer.take plainLen).length = plainLen := length_take_of_le h
  unfold splice
  constructor
  · rw [append_assoc, take_append_of_le_length (by omega), take_of_length_le (by omega)]
  · rw [take_append_of_le_length (by rw [length_append]; omega),
      take_of_length_le (by rw [length_append]; omega), drop_append_of_le_length (by omega),
      drop_of_length_le (by omega), nil_append]

end Tag

/-- Block ciphers of any kind, a hash that is never zero, and an AEAD that hides nothing. -/
def plainSdk (aes : Bytes → Bytes → FixedBytes 16) : SdkCrypto where
  aes128EcbEncryptBlock k b := (aes k b).1
  gcmEncrypt _ _ _ d := (d, List.replicate 16 0)
  gcmDecrypt _ _ _ d _ := some d
  sha1 _ := List.replicate 20 1
  length_aes k b := (aes k b).2
  length_gcmEncrypt _ _ _ _ := rfl
  length_gcmTag _ _ _ _ := length_replicate
  length_gcmDecrypt _ _ _ _ _ _ h := by rw [Option.some.inj h]
  length_sha1 _ := length_replicate

def onesSdk : SdkCrypto := plainSdk fun _ _ => ⟨List.replicate 16 1, length_replicate⟩

theorem onesSdk_tag (authKey : Bytes) (index : UInt64) (body : Bytes) : srtpTag onesSdk authKey index body ≠ NO_TAG := by
  intro h
  cases h

/-- A packet is accepted with its tag only, and sent with it, exactly when its length is not one of those whose HMAC
is left out; or it is not accepted anyway. -/
theorem tag_iff (encKey authKey salt : Bytes) (ssrc : UInt32) (index : UInt64) (packet : Bytes) (headerLen plainLen : Nat) :
    ((∀ sdk n, (unprotectAesCmSha180 sdk encKey authKey salt ssrc index packet headerLen).1 = some n →
        packet.length = n + SRTP_AES_CM_TAG_LEN ∧ packet.drop n = srtpTag sdk authKey index (packet.take n)) ↔
      ¬ (Silent (packet.length - SRTP_AES_CM_TAG_LEN) ∧ headerLen ≤ packet.length - SRTP_AES_CM_TAG_LEN ∧
        packet.drop (packet.length - SRTP_AES_CM_TAG_LEN) = NO_TAG)) ∧
    ((∀ sdk n, (protectAesCmSha180 sdk encKey authKey salt ssrc index packet headerLen plainLen).1 = some n →
        n = plainLen + SRTP_AES_CM_TAG_LEN ∧
          let sent := (protectAesCmSha180 sdk encKey authKey salt ssrc index packet headerLen plainLen).2
          (sent.take n).drop plainLen = srtpTag sdk authKey index (sent.take plainLen)) ↔
      ¬ (Silent plainLen ∧ headerLen ≤ plainLen ∧ plainLen ≤ packet.length - SRTP_AES_CM_TAG_LEN)) := by
  have hten : SRTP_AES_CM_TAG_LEN = 10 := rfl
  have hmax : AUTH_INPUT_MAX = 1600 := rfl
  constructor
  · constructor
    · rintro hall ⟨⟨hfit, hlong⟩, hheader, htag⟩
      have hbody : (packet.take (packet.length - SRTP_AES_CM_TAG_LEN)).length = packet.length - SRTP_AES_CM_TAG_LEN :=
        length_take_of_le (Nat.sub_le _ _)
      have hsome : (unprotectAesCmSha180 onesSdk encKey authKey salt ssrc index packet headerLen).1 =
          some (packet.length - SRTP_AES_CM_TAG_LEN) := (unprotect_some_iff onesSdk).mpr ⟨by omega, rfl, hheader, hfit, by rw [cmTag_silent _ (by omega), htag]⟩
      exact onesSdk_tag _ _ _ ((hall onesSdk _ hsome).2.symm.trans htag)
    · intro hnot sdk n hsome
      obtain ⟨hlen, hn, hheader, hfit, htag⟩ := (unprotect_some_iff sdk).mp hsome
      refine ⟨by omega, ?_⟩
      have hbody : (packet.take n).length = n := length_take_of_le (by omega)
      rcases Nat.lt_or_ge AUTH_INPUT_MAX (64 + (n + 4)) with hlong | hshort
      · rw [cmTag_silent sdk (by rw [hbody]; exact hlong)] at htag
        subst hn
        exact absurd ⟨⟨hfit, hlong⟩, hheader, htag.symm⟩ hnot
      · rw [cmTag_eq sdk (by rw [hbody]; exact hshort)] at htag
        exact htag.symm
  · by_cases hpass : headerLen ≤ plainLen ∧ plainLen ≤ packet.length - SRTP_AES_CM_TAG_LEN
    swap
    · refine iff_of_true (fun sdk n hsome => ?_) fun h => hpass h.2
      unfold protectAesCmSha180 at hsome
      rw [if_pos (by omega)] at hsome
      cases hsome
    obtain ⟨hheader, hroom⟩ := hpass
    by_cases hfit : plainLen + 4 ≤ AUTH_INPUT_MAX
    swap
    · refine iff_of_true (fun sdk n hsome => ?_) fun h => hfit h.1.1
      rw [protect_eq sdk hheader hroom, if_pos (Nat.not_le.mp hfit)] at hsome
      cases hsome
    -- the packet is sent with the tag that was computed
    have hsent : ∀ sdk, ∃ body : Bytes, body.length = plainLen ∧
        (protectAesCmSha180 sdk encKey authKey salt ssrc index packet headerLen plainLen).1 =
          some (plainLen + SRTP_AES_CM_TAG_LEN) ∧
        let sent := (protectAesCmSha180 sdk encKey authKey salt ssrc index packet headerLen plainLen).2
        sent.take plainLen = body ∧ (sent.take (plainLen + SRTP_AES_CM_TAG_LEN)).drop plainLen = cmTag sdk authKey index body := by
      intro sdk
      have hlen : (enciphered sdk encKey salt ssrc index packet headerLen plainLen).length = packet.length :=
        length_enciphered sdk hheader (by omega)
      refine ⟨_, length_take_of_le (by rw [hlen]; omega), ?_⟩
      rw [protect_eq sdk hheader hroom, if_neg (Nat.not_lt.mpr hfit)]
      refine ⟨rfl, ?_⟩
      have hsplice := take_splice_tag (enciphered sdk encKey salt ssrc index packet headerLen plainLen)
        (cmTag sdk authKey index ((enciphered sdk encKey salt ssrc index packet headerLen plainLen).take plainLen))
        (show plainLen ≤ _ by rw [hlen]; omega)
      rw [length_cmTag] at hsplice
      exact hsplice
    rcases Nat.lt_or_ge AUTH_INPUT_MAX (64 + (plainLen + 4)) with hlong | hshort
    · refine iff_of_false (fun hall => ?_) fun h => h ⟨⟨hfit, hlong⟩, hheader, hroom⟩
      obtain ⟨body, hbody, hsome, htake, htag⟩ := hsent onesSdk
      have hclaim := (hall onesSdk _ hsome).2
      dsimp only at hclaim htake htag
      rw [htag, htake, cmTag_silent onesSdk (by rw [hbody]; exact hlong)] at hclaim
      exact onesSdk_tag _ _ _ hclaim.symm
    · refine iff_of_true (fun sdk n hn => ?_) fun h => absurd h.1.2 (Nat.not_lt.mpr hshort)
      obtain ⟨body, hbody, hsome, htake, htag⟩ := hsent sdk
      obtain rfl : n = plainLen + SRTP_AES_CM_TAG_LEN := Option.some.inj (hn.symm.trans hsome)
      refine ⟨rfl, ?_⟩
      dsimp only at htake htag ⊢
      rw [htag, htake, cmTag_eq sdk (by rw [hbody]; exact hshort)]

def zeroKey : Bytes := List.replicate 16 0
def zeroAuthKey : Bytes := List.replicate 20 0
def zeroSalt : Bytes := List.replicate 14 0

def zeroPacket : Bytes := List.replicate 1543 0

theorem length_zeroPacket : zeroPacket.length = 1543 := length_replicate

/-- A packet of zeros, of 1533 bytes and a tag, is accepted. -/
theorem zero_packet_accepted :
    (unprotectAesCmSha180 onesSdk zeroKey zeroAuthKey zeroSalt 0 0 zeroPacket 12).1 = some 1533 ∧
      zeroPacket.drop 1533 ≠ srtpTag onesSdk zeroAuthKey 0 (zeroPacket.take 1533) := by
  have hdrop : zeroPacket.drop 1533 = NO_TAG := List.drop_replicate
  have hlen : (zeroPacket.take 1533).length = 1533 :=
    length_take_of_le (by rw [length_zeroPacket]; omega)
  constructor
  · refine (unprotect_some_iff onesSdk).mpr ⟨?_, ?_, by omega, by decide, ?_⟩
    · rw [length_zeroPacket]
      decide
    · rw [length_zeroPacket]
      rfl
    · rw [hdrop]
      exact cmTag_silent onesSdk (by rw [hlen]; decide)
  · rw [hdrop]
    exact (onesSdk_tag _ _ _).symm

theorem ones_changes {key salt data : Bytes} {ssrc : UInt32} {index : UInt64} (h : data ≠ []) :
    aesCmXor onesSdk key salt ssrc index data ≠ data := by
  obtain ⟨b, rest, rfl⟩ := exists_cons_of_ne_nil h
  intro heq
  have hfirst : (b ^^^ 1) = b := (List.cons.inj heq).1
  revert hfirst
  exact of_every_byte (P := fun b => (b ^^^ 1) ≠ b) (by decide +kernel) b

theorem splice_ne {packet new : Bytes} {i j : Nat} (hi : i ≤ j) (hj : j ≤ packet.length) (hlen : new.length = j - i)
    (hne : new ≠ slice packet i j) : splice packet i new ≠ packet := by
  intro heq
  apply hne
  have hfront : (packet.take i).length = i := length_take_of_le (by omega)
  have hslice : slice (splice packet i new) i j = new := by
    have hmiddle := slice_middle (packet.take i) new (packet.drop (i + new.length))
    rw [hfront, hlen, Nat.add_sub_of_le hi] at hmiddle
    rw [splice, hlen, Nat.add_sub_of_le hi, append_assoc]
    exact hmiddle
  rw [← hslice, heq]

theorem splice_nil (packet : Bytes) (i : Nat) : splice packet i [] = packet := by
  rw [splice, append_nil, length_nil, Nat.add_zero, take_append_drop]

theorem enciphered_ne {encKey salt packet : Bytes} {ssrc : UInt32} {index : UInt64} {headerLen plainLen : Nat}
    (hheader : headerLen < plainLen) (hroom : plainLen ≤ packet.length) :
    enciphered onesSdk encKey salt ssrc index packet headerLen plainLen ≠ packet := by
  have hlen := length_slice_of_le (i := headerLen) hroom
  refine splice_ne (Nat.le_of_lt hheader) hroom ?_ (ones_changes ?_)
  · rw [length_aesCmXor, hlen]
  · exact ne_nil_of_length_pos (by omega)

/-- A refused packet stands as it was; but AES-CM protection leaves it so only with nothing to encipher or room in the
array. -/
theorem refused_unchanged_iff (encKey authKey salt masterSalt : Bytes) (ssrc : UInt32) (index : UInt64) (packet : Bytes)
    (headerLen plainLen : Nat) :
    ((∀ sdk, (protectAesCmSha180 sdk encKey authKey salt ssrc index packet headerLen plainLen).1 = none →
        (protectAesCmSha180 sdk encKey authKey salt ssrc index packet headerLen plainLen).2 = packet) ↔
      ¬ (headerLen < plainLen ∧ plainLen ≤ packet.length - SRTP_AES_CM_TAG_LEN ∧ AUTH_INPUT_MAX < plainLen + 4)) ∧
    ∀ sdk,
      ((unprotectAesCmSha180 sdk encKey authKey salt ssrc index packet headerLen).1 = none →
        (unprotectAesCmSha180 sdk encKey authKey salt ssrc index packet headerLen).2 = packet) ∧
      ((protectAes128Gcm sdk encKey masterSalt ssrc index packet headerLen plainLen).1 = none →
        (protectAes128Gcm sdk encKey masterSalt ssrc index packet headerLen plainLen).2 = packet) ∧
      ((unprotectAes128Gcm sdk encKey masterSalt ssrc index packet headerLen).1 = none →
        (unprotectAes128Gcm sdk encKey masterSalt ssrc index packet headerLen).2 = packet) := by
  constructor
  · by_cases hpass : headerLen ≤ plainLen ∧ plainLen ≤ packet.length - SRTP_AES_CM_TAG_LEN
    swap
    · refine iff_of_true (fun sdk _ => ?_) fun h => hpass ⟨Nat.le_of_lt h.1, h.2.1⟩
      unfold protectAesCmSha180
      rw [if_pos (by omega)]
    obtain ⟨hheader, hroom⟩ := hpass
    by_cases hfit : plainLen + 4 ≤ AUTH_INPUT_MAX
    · refine iff_of_true (fun sdk hnone => ?_) fun h => absurd h.2.2 (Nat.not_lt.mpr hfit)
      rw [protect_eq sdk hheader hroom, if_neg (Nat.not_lt.mpr hfit)] at hnone
      cases hnone
    have hstands : ∀ sdk, protectAesCmSha180 sdk encKey authKey salt ssrc index packet headerLen plainLen =
        (none, enciphered sdk encKey salt ssrc index packet headerLen plainLen) := fun sdk => by
      rw [protect_eq sdk hheader hroom, if_pos (Nat.not_le.mp hfit)]
    rcases Nat.lt_or_ge headerLen plainLen with hlt | hge
    · refine iff_of_false (fun hall => ?_) fun h => h ⟨hlt, hroom, Nat.not_le.mp hfit⟩
      have hsame := hall onesSdk (by rw [hstands])
      rw [hstands] at hsame
      exact enciphered_ne hlt (by omega) hsame
    · refine iff_of_true (fun sdk _ => ?_) fun h => absurd h.1 (Nat.not_lt.mpr hge)
      have hnil : slice packet headerLen plainLen = [] := by
        rw [slice, Nat.sub_eq_zero_of_le hge, take_zero]
      rw [hstands, enciphered, hnil]
      exact splice_nil packet headerLen
  · intro sdk
    refine ⟨fun hnone => ?_, fun hnone => ?_, fun hnone => ?_⟩
    · unfold unprotectAesCmSha180 at hnone ⊢
      split
      · rfl
      next hshort =>
        rw [if_neg hshort] at hnone
        dsimp only at hnone ⊢
        split
        · rfl
        next hheader =>
          rw [if_neg hheader] at hnone
          split
          · rfl
          next hmax =>
            rw [if_neg hmax] at hnone
            split
            · rfl
            next htag =>
              rw [if_neg htag] at hnone
              cases hnone
    · unfold protectAes128Gcm at hnone ⊢
      split
      · rfl
      next hroom =>
        rw [if_neg hroom] at hnone
        split
        · rfl
        next hheader =>
          rw [if_neg hheader] at hnone
          cases hnone
    · unfold unprotectAes128Gcm at hnone ⊢
      split
      · rfl
      next hshort =>
        rw [if_neg hshort] at hnone
        dsimp only at hnone ⊢
        split
        · rfl
        next hheader =>
          rw [if_neg hheader] at hnone
          split
          · rfl
          next haad =>
            rw [if_neg haad] at hnone
            split
            · rfl
            next plain hplain =>
              rw [hplain] at hnone
              cases hnone

/-- A packet of 1597 bytes is refused, with its payload enciphered. -/
theorem long_packet_enciphered :
    (protectAesCmSha180 onesSdk zeroKey zeroAuthKey zeroSalt 0 0 (zeroPacket ++ zeroPacket) 12 1597).1 = none ∧
      (protectAesCmSha180 onesSdk zeroKey zeroAuthKey zeroSalt 0 0 (zeroPacket ++ zeroPacket) 12 1597).2 ≠
        zeroPacket ++ zeroPacket := by
  have hlen : (zeroPacket ++ zeroPacket).length = 3086 := by
    rw [length_append, length_zeroPacket]
  have hroom : 1597 ≤ (zeroPacket ++ zeroPacket).length - SRTP_AES_CM_TAG_LEN := by
    rw [hlen]
    decide
  rw [protect_eq onesSdk (by omega) hroom, if_pos (by decide)]
  exact ⟨rfl, enciphered_ne (by omega) (by omega)⟩

end Wave.Common.SrtpCore
