import Wave.Rtp.Transmit

/-! # Which half of a DTLS-SRTP exporter each endpoint uses

Each endpoint uses the half its own role names both to send and to receive. -/

namespace Wave.Rtp

open Lib Lib.Bytes Common.SrtpCore Common.RtpCore

/-- The parameters `dtls_srtp_role` and `dtls_srtp_export`, adopted over `k`. -/
def installGcm (sdk : SdkCrypto) (k : SrtpKeys) (role : UInt8) (exporter : FixedBytes 56) :
    SrtpKeys :=
  SrtpKeys.installDtlsSrtpExport sdk
    { k with dtlsSrtpExport := exporter, dtlsSrtpExportSet := true, dtlsSrtpRole := role }

/-- The parameters `dtls_srtp_role` and `dtls_srtp_cm_export`, adopted over `k`. -/
def installCm (sdk : SdkCrypto) (k : SrtpKeys) (role : UInt8) (exporter : FixedBytes 60) :
    SrtpKeys :=
  SrtpKeys.installDtlsSrtpCmExport sdk
    { k with dtlsSrtpCmExport := exporter, dtlsSrtpCmExportSet := true, dtlsSrtpRole := role }

/-- A packet as `send_rtp_packet` hands it over: any header, index and SSRC, and a
payload the module sends. -/
structure RtpPacket where
  ssrc : UInt32
  index : UInt64
  header : Bytes
  payload : Bytes
  length_header : header.length = RTP_HEADER_SIZE
  sendable : Sendable payload

namespace RtpPacket

def buffer (p : RtpPacket) : Bytes :=
  p.header ++ (p.payload ++
    List.replicate (PKT_BUF_SIZE - (RTP_HEADER_SIZE + p.payload.length)) 0)

def plainLen (p : RtpPacket) : Nat := RTP_HEADER_SIZE + p.payload.length

end RtpPacket

def sealFor (sdk : SdkCrypto) (sender : SrtpKeys) (p : RtpPacket) : Bytes :=
  let sealed := sender.protectPacket sdk p.ssrc p.index p.buffer p.plainLen
  sealed.2.take (sealed.1.getD 0)

/-- What the sender seals the receiver opens, to the header and payload that went in. -/
def Understands (sdk : SdkCrypto) (sender receiver : SrtpKeys) (p : RtpPacket) : Prop :=
  let opened := receiver.unprotectPacket sdk p.ssrc p.index (sealFor sdk sender p)
  opened.1 = some p.plainLen ∧ opened.2.take p.plainLen = p.header ++ p.payload

def half (exporter : Bytes) (keyOff saltOff saltLen : Nat) : Bytes × Bytes :=
  (slice exporter keyOff (keyOff + 16), slice exporter saltOff (saltOff + saltLen))

def clientHalfGcm (exporter : FixedBytes 56) : Bytes × Bytes := half exporter.1 0 32 12
def serverHalfGcm (exporter : FixedBytes 56) : Bytes × Bytes := half exporter.1 16 44 12
def clientHalfCm (exporter : FixedBytes 60) : Bytes × Bytes := half exporter.1 0 32 14
def serverHalfCm (exporter : FixedBytes 60) : Bytes × Bytes := half exporter.1 16 46 14

/-- AES-GCM material as `derive_aead_key_salt` makes it from one half. -/
structure HoldsGcm (sdk : SdkCrypto) (k : SrtpKeys) (h : Bytes × Bytes) : Prop where
  ready : k.gcmReady = true
  key : k.srtpKey.1 = (deriveAeadKeySalt sdk h.1 h.2 0 2).1
  salt : k.srtpSalt.1 = (deriveAeadKeySalt sdk h.1 h.2 0 2).2

/-- AES-CM material as `derive_aes_cm_session_keys` makes it from one half. -/
structure HoldsCm (sdk : SdkCrypto) (k : SrtpKeys) (h : Bytes × Bytes) : Prop where
  ready : k.cmReady = true
  key : k.srtpKey.1 = (deriveAesCmSessionKeys sdk h.1 h.2).encKey
  auth : k.srtpAuthKey.1 = (deriveAesCmSessionKeys sdk h.1 h.2).authKey
  salt : k.srtpCmSalt.1 = (deriveAesCmSessionKeys sdk h.1 h.2).sessionSalt

section
variable (sdk : SdkCrypto) (k : SrtpKeys)

theorem installGcm_client (exporter : FixedBytes 56) :
    HoldsGcm sdk (installGcm sdk k 0 exporter) (clientHalfGcm exporter) :=
  ⟨rfl, rfl, rfl⟩

theorem installGcm_server (exporter : FixedBytes 56) :
    HoldsGcm sdk (installGcm sdk k 1 exporter) (serverHalfGcm exporter) :=
  ⟨rfl, rfl, rfl⟩

theorem installCm_client (exporter : FixedBytes 60) :
    HoldsCm sdk (installCm sdk k 0 exporter) (clientHalfCm exporter) :=
  ⟨rfl, rfl, rfl, rfl⟩

theorem installCm_server (exporter : FixedBytes 60) :
    HoldsCm sdk (installCm sdk k 1 exporter) (serverHalfCm exporter) :=
  ⟨rfl, rfl, rfl, rfl⟩

end

section
variable {sdk : SdkCrypto} {k : SrtpKeys} {h : Bytes × Bytes}

theorem not_cmReady (hk : HoldsGcm sdk k h) : ¬ k.cmReady = true := fun hcm => by
  have := SrtpKeys.cmReady_gcmReady k hcm
  rw [hk.ready] at this
  cases this

theorem sealFor_gcm (hk : k.gcmReady = true) (p : RtpPacket) :
    let box := sdk.gcmEncrypt k.srtpKey.1 (gcmNonce k.srtpSalt.1 p.ssrc p.index) p.header p.payload
    sealFor sdk k p = p.header ++ box.1 ++ box.2 := by
  intro box
  have hle := p.sendable.2
  have hm : SRTP_AUTH_TAG_LEN ≤ PKT_BUF_SIZE - (RTP_HEADER_SIZE + p.payload.length) := by
    have : PKT_BUF_SIZE = RTP_HEADER_SIZE + TX_MTU + SRTP_AUTH_TAG_LEN := rfl
    omega
  have hlen : (p.header ++ box.1 ++ box.2).length =
      RTP_HEADER_SIZE + p.payload.length + SRTP_AUTH_TAG_LEN := by
    rw [length_append, length_append, sdk.length_gcmEncrypt, sdk.length_gcmTag,
      p.length_header]
    rfl
  simp only [sealFor, RtpPacket.buffer, RtpPacket.plainLen]
  rw [protectPacket_gcm sdk hk p.length_header hm]
  simp only [getD_some]
  rw [← append_assoc, take_append_of_le_length (Nat.le_of_eq hlen.symm),
    take_of_length_le (Nat.le_of_eq hlen)]

theorem sealFor_cm (hk : k.cmReady = true) (p : RtpPacket) :
    let cipher := aesCmXor sdk k.srtpKey.1 k.srtpCmSalt.1 p.ssrc p.index p.payload
    sealFor sdk k p =
      p.header ++ cipher ++ cmTag sdk k.srtpAuthKey.1 p.index (p.header ++ cipher) := by
  intro cipher
  have hle := p.sendable.2
  have hm : SRTP_AES_CM_TAG_LEN ≤ PKT_BUF_SIZE - (RTP_HEADER_SIZE + p.payload.length) := by
    have : PKT_BUF_SIZE = RTP_HEADER_SIZE + TX_MTU + SRTP_AUTH_TAG_LEN := rfl
    have : SRTP_AES_CM_TAG_LEN ≤ SRTP_AUTH_TAG_LEN := by decide
    omega
  have hlen : (p.header ++ cipher ++ cmTag sdk k.srtpAuthKey.1 p.index (p.header ++ cipher)).length =
      RTP_HEADER_SIZE + p.payload.length + SRTP_AES_CM_TAG_LEN := by
    rw [length_append, length_append, length_aesCmXor, length_cmTag, p.length_header]
  simp only [sealFor, RtpPacket.buffer, RtpPacket.plainLen]
  rw [protectPacket_cm sdk hk p.length_header hle hm]
  simp only [getD_some]
  rw [← append_assoc, take_append_of_le_length (Nat.le_of_eq hlen.symm),
    take_of_length_le (Nat.le_of_eq hlen)]

theorem RtpPacket.fits (p : RtpPacket) : p.header.length + p.payload.length + 4 ≤ AUTH_INPUT_MAX := by
  have h1 := p.length_header
  have h2 := p.sendable.2
  simp only [RTP_HEADER_SIZE, TX_MTU, AUTH_INPUT_MAX] at *
  omega

theorem RtpPacket.plainLen_eq (p : RtpPacket) :
    p.header.length + p.payload.length = p.plainLen := by
  rw [p.length_header]; rfl

theorem RtpPacket.plainLen_pos (p : RtpPacket) : 0 < p.header.length + p.payload.length := by
  have := p.sendable.1
  omega

theorem take_plainLen (p : RtpPacket) (tag : Bytes) :
    (p.header ++ (p.payload ++ tag)).take p.plainLen = p.header ++ p.payload := by
  rw [← append_assoc, ← p.plainLen_eq, ← length_append, take_left]

theorem understands_gcm {k' : SrtpKeys} (hsdk : sdk.Lawful) (hk : HoldsGcm sdk k h)
    (hk' : HoldsGcm sdk k' h) (p : RtpPacket) : Understands sdk k k' p := by
  have haad : p.header.length ≤ GCM_AAD_MAX := by rw [p.length_header]; decide
  have hopen := unprotectAes128Gcm_protected sdk hsdk k'.srtpKey.1 k'.srtpSalt.1 p.ssrc p.index
    p.header p.payload haad p.plainLen_pos
  unfold Understands
  rw [sealFor_gcm hk.ready, SrtpKeys.unprotectPacket, if_neg (not_cmReady hk'), hk.key, hk.salt,
    ← hk'.key, ← hk'.salt, ← p.length_header, hopen]
  exact ⟨congrArg some p.plainLen_eq, take_plainLen p _⟩

theorem understands_cm {k' : SrtpKeys} (hk : HoldsCm sdk k h) (hk' : HoldsCm sdk k' h)
    (p : RtpPacket) : Understands sdk k k' p := by
  have hopen := unprotectAesCmSha180_protected sdk k'.srtpKey.1 k'.srtpAuthKey.1 k'.srtpCmSalt.1
    p.ssrc p.index p.header p.payload p.fits p.plainLen_pos
  unfold Understands
  rw [sealFor_cm hk.ready, SrtpKeys.unprotectPacket, if_pos hk'.ready, hk.key, hk.salt, hk.auth,
    ← hk'.key, ← hk'.salt, ← hk'.auth, ← p.length_header, hopen]
  exact ⟨congrArg some p.plainLen_eq, take_plainLen p _⟩

end

/-- Sixteen bytes that mark one key and block, and sixteen others for the rest. -/
def markBlock (key block : Bytes) (k b : Bytes) : Bytes :=
  if k = key ∧ b = block then List.replicate 16 0 else List.replicate 16 1

def keyTag (k : Bytes) : Bytes := (k ++ List.replicate 16 0).take 16

theorem length_keyTag (k : Bytes) : (keyTag k).length = 16 := by
  simp [keyTag]

/-- AES that marks one block; an AEAD whose tag is the key; a hash that repeats
the first byte it reads. -/
def marking (key block : Bytes) : SdkCrypto where
  aes128EcbEncryptBlock := markBlock key block
  gcmEncrypt k _ _ d := (d, keyTag k)
  gcmDecrypt k _ _ d t := if t = keyTag k then some d else none
  sha1 d := List.replicate 20 (d.headD 0)
  length_aes k b := by unfold markBlock; split <;> rfl
  length_gcmEncrypt _ _ _ _ := rfl
  length_gcmTag k _ _ _ := length_keyTag k
  length_gcmDecrypt k n a d t p h := by
    split at h
    · rw [Option.some.inj h]
    · cases h
  length_sha1 _ := length_replicate

theorem marking_lawful (key block : Bytes) : (marking key block).Lawful := by
  intro k n a d
  simp [marking]

/-- The block `derive` enciphers first. -/
def firstBlock (salt : Bytes) (label : UInt8) : Bytes := kdfHead salt label ++ be16 0

theorem kdfHead_injective {salt salt' : Bytes} {label : UInt8}
    (h : kdfHead salt label = kdfHead salt' label) : salt = salt' := by
  have hinv : ∀ b : Bytes, kdfHead (kdfHead b label) label = b := by
    intro b
    unfold kdfHead
    apply List.ext_getElem?
    intro i
    simp only [List.getElem?_modify]
    split
    · cases b[i]? with
      | none => rfl
      | some x =>
        change some (x ^^^ label ^^^ label) = some x
        rw [UInt8.xor_assoc, UInt8.xor_self, UInt8.xor_zero]
    · simp
  rw [← hinv salt, h, hinv]

theorem firstBlock_injective {salt salt' : Bytes} {label : UInt8}
    (h : firstBlock salt label = firstBlock salt' label) : salt = salt' :=
  kdfHead_injective (List.append_cancel_right h)

section
variable (sdk : SdkCrypto)

theorem derive_head (masterKey salt : Bytes) (label : UInt8) {n : Nat} (hn : 16 ≤ n) :
    ∃ rest, derive sdk masterKey salt label n =
      sdk.aes128EcbEncryptBlock masterKey (firstBlock salt label) ++ rest := by
  have hlen := sdk.length_aes masterKey (kdfHead salt label ++ be16 0)
  obtain ⟨m, rfl⟩ : ∃ m, n = m + 1 := ⟨n - 1, by omega⟩
  refine ⟨deriveLoop sdk masterKey (kdfHead salt label) m (0 + 1) (m + 1 - 16), ?_⟩
  simp only [derive, deriveLoop, Nat.add_eq_zero_iff, one_ne_zero, and_false, if_false,
    Nat.min_eq_left hn]
  rw [take_of_length_le (by omega)]
  rfl

theorem derive_one_block (masterKey salt : Bytes) (label : UInt8) :
    derive sdk masterKey salt label 16 =
      sdk.aes128EcbEncryptBlock masterKey (firstBlock salt label) := by
  obtain ⟨rest, h⟩ := derive_head sdk masterKey salt label (Nat.le_refl 16)
  have hlen := congrArg List.length h
  rw [length_derive, length_append, sdk.length_aes] at hlen
  rw [h, length_eq_zero_iff.mp (show rest.length = 0 by omega), append_nil]

end

theorem markBlock_other {half other : Bytes × Bytes} (label : UInt8) (hne : other ≠ half) :
    markBlock half.1 (firstBlock half.2 label) other.1 (firstBlock other.2 label) =
      List.replicate 16 1 := by
  rw [markBlock, if_neg]
  rintro ⟨hkey, hblock⟩
  exact hne (Prod.ext hkey (firstBlock_injective hblock))

theorem markBlock_self (half : Bytes × Bytes) (label : UInt8) :
    markBlock half.1 (firstBlock half.2 label) half.1 (firstBlock half.2 label) =
      List.replicate 16 0 := by
  rw [markBlock, if_pos ⟨rfl, rfl⟩]

theorem not_understands_gcm {k k' : SrtpKeys} {h h' : Bytes × Bytes} (hne : h ≠ h')
    (hk : HoldsGcm (marking h.1 (firstBlock (h.2 ++ [0, 0]) 0)) k h)
    (hk' : HoldsGcm (marking h.1 (firstBlock (h.2 ++ [0, 0]) 0)) k' h') (p : RtpPacket) :
    ¬ Understands (marking h.1 (firstBlock (h.2 ++ [0, 0]) 0)) k k' p := by
  generalize hsdk : marking h.1 (firstBlock (h.2 ++ [0, 0]) 0) = sdk at *
  have hkey : k.srtpKey.1 = List.replicate 16 0 := by
    rw [hk.key, deriveAeadKeySalt, derive_one_block, ← hsdk]
    exact markBlock_self (h.1, h.2 ++ [0, 0]) 0
  have hkey' : k'.srtpKey.1 = List.replicate 16 1 := by
    rw [hk'.key, deriveAeadKeySalt, derive_one_block, ← hsdk]
    change markBlock (h.1, h.2 ++ [0, 0]).1 _ (h'.1, h'.2 ++ [0, 0]).1 _ = _
    refine markBlock_other 0 ?_
    intro heq
    have hsalt := List.append_cancel_right (Prod.mk.inj heq).2
    exact hne (Prod.ext (Prod.mk.inj heq).1.symm hsalt.symm)
  rintro ⟨hopen, -⟩
  have htag : sdk.gcmEncrypt k.srtpKey.1 (gcmNonce k.srtpSalt.1 p.ssrc p.index) p.header
      p.payload = (p.payload, keyTag (List.replicate 16 0)) := by
    rw [hkey, ← hsdk]; rfl
  rw [sealFor_gcm hk.ready, htag, SrtpKeys.unprotectPacket, if_neg (not_cmReady hk')] at hopen
  obtain ⟨hlen, plain, hplain⟩ := unprotectAes128Gcm_accepted sdk hopen
  have hdrop : (p.header ++ p.payload ++ keyTag (List.replicate 16 0)).drop p.plainLen =
      keyTag (List.replicate 16 0) := by
    rw [← p.plainLen_eq, ← length_append, drop_left]
  rw [hdrop, hkey', ← hsdk] at hplain
  -- the tag shows the sender's zeros where the receiver looks for its own ones
  simp only [marking] at hplain
  rw [if_neg (by decide)] at hplain
  cases hplain

theorem hmacSha1_marking (key block : Bytes) {authKey data : Bytes} {b : UInt8} {rest : Bytes}
    (hkey : authKey = b :: rest) (hlen : authKey.length = 20)
    (hdata : 64 + data.length ≤ AUTH_INPUT_MAX) :
    hmacSha1 (marking key block) authKey data = List.replicate 20 (b ^^^ 0x5c) := by
  rw [hmacSha1, if_neg (by omega), if_neg (by omega)]
  subst hkey
  rfl

theorem not_understands_cm {k k' : SrtpKeys} {h h' : Bytes × Bytes} (hne : h ≠ h')
    (hk : HoldsCm (marking h.1 (firstBlock h.2 1)) k h)
    (hk' : HoldsCm (marking h.1 (firstBlock h.2 1)) k' h') (p : RtpPacket) :
    ¬ Understands (marking h.1 (firstBlock h.2 1)) k k' p := by
  generalize hsdk : marking h.1 (firstBlock h.2 1) = sdk at *
  have hkey : ∃ rest, k.srtpAuthKey.1 = 0 :: rest := by
    obtain ⟨rest, hrest⟩ := derive_head sdk h.1 h.2 1 (n := 20) (by decide)
    refine ⟨List.replicate 15 0 ++ rest, ?_⟩
    rw [hk.auth, deriveAesCmSessionKeys, hrest, ← hsdk]
    exact congrArg (· ++ rest) (markBlock_self h 1)
  have hkey' : ∃ rest, k'.srtpAuthKey.1 = 1 :: rest := by
    obtain ⟨rest, hrest⟩ := derive_head sdk h'.1 h'.2 1 (n := 20) (by decide)
    refine ⟨List.replicate 15 1 ++ rest, ?_⟩
    rw [hk'.auth, deriveAesCmSessionKeys, hrest, ← hsdk]
    exact congrArg (· ++ rest) (markBlock_other 1 hne.symm)
  obtain ⟨rest, hrest⟩ := hkey
  obtain ⟨rest', hrest'⟩ := hkey'
  rintro ⟨hopen, -⟩
  rw [sealFor_cm hk.ready, SrtpKeys.unprotectPacket, if_pos hk'.ready] at hopen
  obtain ⟨-, htag⟩ := unprotectAesCmSha180_accepted sdk hopen
  generalize hc : aesCmXor sdk k.srtpKey.1 k.srtpCmSalt.1 p.ssrc p.index p.payload = cipher at htag
  have hbody : p.plainLen = (p.header ++ cipher).length := by
    rw [length_append, ← hc, length_aesCmXor, p.plainLen_eq]
  rw [hbody, take_left, drop_left] at htag
  have hfit : 64 + (p.header ++ cipher ++ be32 (p.index >>> 16).toUInt32).length ≤
      AUTH_INPUT_MAX := by
    have := p.sendable.2
    rw [length_append, ← hbody, RtpPacket.plainLen]
    simp only [length_be32, RTP_HEADER_SIZE, TX_MTU, AUTH_INPUT_MAX] at *
    omega
  rw [cmTag, cmTag, ← hsdk, hmacSha1_marking _ _ hrest' k'.srtpAuthKey.2 hfit,
    hmacSha1_marking _ _ hrest k.srtpAuthKey.2 hfit] at htag
  revert htag
  decide

/-- Two endpoints understand each other both ways, whatever lawful primitives they share. -/
def BothWays (endpoint : SdkCrypto → UInt8 → SrtpKeys) (p : RtpPacket) : Prop :=
  ∀ sdk : SdkCrypto, sdk.Lawful →
    Understands sdk (endpoint sdk 0) (endpoint sdk 1) p ∧
      Understands sdk (endpoint sdk 1) (endpoint sdk 0) p

/-- **Endpoints with opposite roles understand each other exactly when the halves of the exporter coincide**, for
either profile. -/
theorem opposite_roles_understand_iff (exporter : FixedBytes 56) (cmExporter : FixedBytes 60)
    (k₀ k₁ : SrtpKeys) (p : RtpPacket) :
    (BothWays (fun sdk role => installGcm sdk (if role = 0 then k₀ else k₁) role exporter) p ↔
      clientHalfGcm exporter = serverHalfGcm exporter) ∧
    (BothWays (fun sdk role => installCm sdk (if role = 0 then k₀ else k₁) role cmExporter) p ↔
      clientHalfCm cmExporter = serverHalfCm cmExporter) := by
  refine ⟨⟨fun hboth => ?_, fun heq sdk hsdk => ?_⟩, ⟨fun hboth => ?_, fun heq sdk hsdk => ?_⟩⟩
  · by_contra hne
    exact not_understands_gcm hne (installGcm_client _ k₀ exporter) (installGcm_server _ k₁ exporter)
      p (hboth _ (marking_lawful _ _)).1
  · have h0 := installGcm_client sdk k₀ exporter
    have h1 := installGcm_server sdk k₁ exporter
    rw [heq] at h0
    exact ⟨understands_gcm hsdk h0 h1 p, understands_gcm hsdk h1 h0 p⟩
  · by_contra hne
    exact not_understands_cm hne (installCm_client _ k₀ cmExporter)
      (installCm_server _ k₁ cmExporter) p (hboth _ (marking_lawful _ _)).1
  · have h0 := installCm_client sdk k₀ cmExporter
    have h1 := installCm_server sdk k₁ cmExporter
    rw [heq] at h0
    exact ⟨understands_cm h0 h1 p, understands_cm h1 h0 p⟩

/-- An exporter of 56 bytes whose client key is zeros and whose server key is ones. -/
def unequalExporter : FixedBytes 56 :=
  ⟨List.replicate 16 0 ++ List.replicate 16 1 ++ List.replicate 24 0, rfl⟩

def firstPacket : RtpPacket where
  ssrc := 0x46585254
  index := 0
  header := [0x80, 0, 0, 0, 0, 0, 0, 160, 0x46, 0x58, 0x52, 0x54]
  payload := [0xD5]
  length_header := rfl
  sendable := by decide

/-- Installed with opposite roles, the exporter leaves a client and a server that
do not understand each other. -/
theorem opposite_roles_unequal_exporter :
    ¬ BothWays (fun sdk role => installGcm sdk {} role unequalExporter) firstPacket := by
  intro hboth
  have hne : clientHalfGcm unequalExporter ≠ serverHalfGcm unequalExporter := by decide
  exact not_understands_gcm hne (installGcm_client _ {} unequalExporter)
    (installGcm_server _ {} unequalExporter) firstPacket (hboth _ (marking_lawful _ _)).1

end Wave.Rtp
