import Wave.Lib.Paths
import Wave.Lib.Scan
import Mathlib.Data.List.TakeWhile

/-! # SIP messages (`common/sip_core.rs`)

What the builders of requests and responses write, and what is read back out of a received message. -/

namespace Wave.Common

open Lib

variable {text : Bytes}

variable {d : SipDialog}

structure SipDialog where
  localIp : UInt32
  peerIp : UInt32
  localPort : UInt16
  peerPort : UInt16
  rtpPort : UInt16
  cseq : UInt32
  fromTag : UInt16
  toTag : UInt16
  branch : UInt16
  callId : Bytes

def hexChar (v : UInt16) : UInt8 :=
  let d := (v &&& 0xF).toUInt8
  if d < 10 then 0x30 + d else 0x57 + d

def hex16 (v : UInt16) : Bytes :=
  [hexChar (v >>> 12), hexChar (v >>> 8), hexChar (v >>> 4), hexChar v]

def writeSdp (ip : UInt32) (port : UInt16) : Bytes :=
  ascii "v=0\r\no=- 0 0 IN IP4 " ++ dottedQuad ip ++ ascii "\r\ns=-\r\nc=IN IP4 " ++ dottedQuad ip ++
    ascii "\r\nt=0 0\r\nm=audio " ++ decimal port.toNat ++
    ascii " RTP/AVP 0\r\na=rtpmap:0 PCMU/8000\r\n"

def sdpContentLength (ip : UInt32) (port : UInt16) : Nat :=
  20 + 16 + 17 + 34 + (dottedQuad ip).length * 2 + (decimal port.toNat).length

def sdpBody (ip : UInt32) (port : UInt16) : Bytes :=
  ascii "Content-Type: application/sdp\r\nContent-Length: " ++ decimal (sdpContentLength ip port) ++
    ascii "\r\n\r\n" ++ writeSdp ip port

def NO_BODY : Bytes := ascii "Content-Length: 0\r\n\r\n"

def toWithOptionalTag (ip : UInt32) (tag : UInt16) : Bytes :=
  ascii "To: <sip:" ++ dottedQuad ip ++
    if tag ≠ 0 then ascii ">;tag=" ++ hex16 tag ++ ascii "\r\n" else ascii ">\r\n"

def requestFields (d : SipDialog) (toTag : UInt16) : Bytes :=
  ascii " sip:" ++ dottedQuad d.peerIp ++ ascii ":" ++ decimal d.peerPort.toNat ++
    ascii " SIP/2.0\r\nVia: SIP/2.0/UDP " ++ dottedQuad d.localIp ++ ascii ":" ++
    decimal d.localPort.toNat ++ ascii ";branch=z9hG4bK" ++ hex16 d.branch ++
    ascii "\r\nMax-Forwards: 70\r\nFrom: <sip:" ++ dottedQuad d.localIp ++ ascii ">;tag=" ++
    hex16 d.fromTag ++ ascii "\r\n" ++ toWithOptionalTag d.peerIp toTag

def requestHead (method : Bytes) (d : SipDialog) (toTag : UInt16) : Bytes :=
  method ++ requestFields d toTag

def responseHead (status : Bytes) (d : SipDialog) (fromTag : Option UInt16) (toTag : UInt16) : Bytes :=
  ascii "SIP/2.0 " ++ status ++ ascii "\r\nVia: SIP/2.0/UDP " ++ dottedQuad d.peerIp ++ ascii ":" ++
    decimal d.peerPort.toNat ++ ascii "\r\nFrom: <sip:" ++ dottedQuad d.peerIp ++
    (match fromTag with
      | some tag => ascii ">;tag=" ++ hex16 tag ++ ascii "\r\n"
      | none => ascii ">\r\n") ++
    ascii "To: <sip:" ++ dottedQuad d.localIp ++ ascii ">;tag=" ++ hex16 toTag ++ ascii "\r\n"

def CALL_ID : Bytes := ascii "Call-ID: "

def callIdAtHost (d : SipDialog) : Bytes := d.callId ++ ascii "@" ++ dottedQuad d.localIp

def cseqLine (d : SipDialog) (method : Bytes) : Bytes :=
  ascii "CSeq: " ++ decimal d.cseq.toNat ++ ascii " " ++ method ++ ascii "\r\n"

def contactLine (d : SipDialog) : Bytes :=
  ascii "Contact: <sip:" ++ dottedQuad d.localIp ++ ascii ":" ++ decimal d.localPort.toNat ++
    ascii ">\r\n"

def withCallId (head callId tail : Bytes) : Bytes :=
  head ++ (CALL_ID ++ (callId ++ (ascii "\r\n" ++ tail)))

def buildInvite (d : SipDialog) : Bytes :=
  withCallId (requestHead (ascii "INVITE") d 0) (callIdAtHost d)
    (cseqLine d (ascii "INVITE") ++ contactLine d ++ sdpBody d.localIp d.rtpPort)

def buildAck (d : SipDialog) : Bytes :=
  withCallId (requestHead (ascii "ACK") d d.toTag) (callIdAtHost d)
    (cseqLine d (ascii "ACK") ++ NO_BODY)

def buildBye (d : SipDialog) : Bytes :=
  withCallId (requestHead (ascii "BYE") d d.toTag) (callIdAtHost d)
    (cseqLine d (ascii "BYE") ++ NO_BODY)

def buildInviteOk (d : SipDialog) : Bytes :=
  withCallId (responseHead (ascii "200 OK") d (some d.toTag) d.fromTag) d.callId
    (cseqLine d (ascii "INVITE") ++ contactLine d ++ sdpBody d.localIp d.rtpPort)

def buildByeOk (d : SipDialog) : Bytes :=
  withCallId (responseHead (ascii "200 OK") d none d.fromTag) d.callId
    (cseqLine d (ascii "BYE") ++ NO_BODY)

def reasonPhrase (code : UInt16) : Bytes :=
  if code = 400 then ascii "Bad Request"
  else if code = 403 then ascii "Forbidden"
  else if code = 404 then ascii "Not Found"
  else if code = 486 then ascii "Busy Here"
  else if code = 487 then ascii "Request Terminated"
  else if code = 488 then ascii "Not Acceptable Here"
  else if code = 603 then ascii "Decline"
  else ascii "Declined"

def buildInviteStatus (d : SipDialog) (code : UInt16) : Bytes :=
  withCallId (responseHead (decimal code.toNat ++ ascii " " ++ reasonPhrase code) d none d.toTag)
    d.callId (cseqLine d (ascii "INVITE") ++ NO_BODY)

def isDigit (c : UInt8) : Bool := 0x30 ≤ c && c ≤ 0x39

def digitVal (c : UInt8) : UInt16 := (c - 0x30).toUInt16

def parseStatusCode (msg : Bytes) : UInt16 :=
  let d := (msg.drop 8).take 3
  if msg.length < 12 || !(ascii "SIP/2.0 ").isPrefixOf msg || !d.all isDigit then 0
  else d.foldl (fun v c => v * 10 + digitVal c) 0

/-- `parse_decimal_u16`: wrapping. -/
def parseDecimalU16 (buf : Bytes) : UInt16 :=
  (buf.takeWhile isDigit).foldl (fun v c => v * 10 + digitVal c) 0

def parseIp4Loop : Bytes → (octets : Bytes) → (val : UInt16) → Option (Bytes × UInt16)
  | [], octets, val => some (octets, val)
  | c :: cs, octets, val =>
    if octets.length ≥ 4 then some (octets, val)
    else if isDigit c then parseIp4Loop cs octets (val * 10 + digitVal c)
    else if c = 0x2E then
      if val > 255 then none else parseIp4Loop cs (octets ++ [val.toUInt8]) 0
    else some (octets, val)

def parseIp4 (buf : Bytes) : UInt32 :=
  match parseIp4Loop buf [] 0 with
  | none => 0
  | some (octets, val) =>
    match if octets.length < 4 ∧ val ≤ 255 then octets ++ [val.toUInt8] else octets with
    | [a, b, c, d] => Bytes.u32be a b c d
    | _ => 0

def hexVal16 (c : UInt8) : Option UInt16 :=
  if isDigit c then some (c - 0x30).toUInt16
  else if 0x61 ≤ c ∧ c ≤ 0x66 then some (c - 0x61 + 10).toUInt16
  else if 0x41 ≤ c ∧ c ≤ 0x46 then some (c - 0x41 + 10).toUInt16
  else none

def parseHex16Loop : Bytes → (val : UInt16) → UInt16
  | [], val => val
  | c :: cs, val =>
    match hexVal16 c with
    | some d => parseHex16Loop cs ((val <<< 4) ||| d)
    | none => val

def parseHex16 (buf : Bytes) : UInt16 := parseHex16Loop (buf.take 4) 0

structure SdpEndpoint where
  ip : Option UInt32
  port : UInt16
deriving DecidableEq

def parseSdpEndpoint (msg : Bytes) : Option SdpEndpoint :=
  (findPat (ascii "m=audio ") msg).bind fun mpos =>
    let port := parseDecimalU16 (msg.drop (mpos + 8))
    if port = 0 then none
    else some
      { port := port
        ip := (findPat (ascii "c=IN IP4 ") msg).bind fun cpos =>
          let v := parseIp4 (msg.drop (cpos + 9))
          if v ≠ 0 then some v else none }

def lineRest (buf : Bytes) : Bytes := buf.takeWhile fun c => c != 0x0D && c != 0x0A

def findCallId (msg : Bytes) : Option Bytes :=
  (findPat CALL_ID msg).map fun pos => lineRest (msg.drop (pos + 9))

def tagOnLine (msg : Bytes) : Option Nat → UInt16
  | none => 0
  | some start =>
    match findPat (ascii ";tag=") ((msg.drop start).takeWhile (· != 0x0D)) with
    | some rel => parseHex16 (msg.drop (start + rel + 5))
    | none => 0

def parseFromTag (msg : Bytes) : UInt16 := tagOnLine msg (findPat (ascii "From:") msg)

def parseToTag (msg : Bytes) : UInt16 :=
  tagOnLine msg ((findPat (ascii "\nTo:") msg).map (· + 1))

/-- The tag on a header line as it is written; the module reads its first four digits (`tagOnLine_eq`). -/
def tagText (msg : Bytes) : Option Nat → Option Bytes
  | none => none
  | some start =>
    let line := (msg.drop start).takeWhile (· != 0x0D)
    (findPat (ascii ";tag=") line).map fun rel => (line.drop (rel + 5)).takeWhile (· != 0x3B)

def fromTagText (msg : Bytes) : Option Bytes := tagText msg (findPat (ascii "From:") msg)

def toTagText (msg : Bytes) : Option Bytes := tagText msg ((findPat (ascii "\nTo:") msg).map (· + 1))

/-- Characters of numbers, hexadecimal ones and addresses. -/
def Numeral (text : Bytes) : Prop := ∀ c ∈ text, 46 ≤ c.toNat ∧ c.toNat ≤ 57 ∨ 97 ≤ c.toNat ∧ c.toNat ≤ 102

theorem hexChar_range (w : UInt16) : 48 ≤ (hexChar w).toNat ∧ (hexChar w).toNat ≤ 57 ∨
    97 ≤ (hexChar w).toNat ∧ (hexChar w).toNat ≤ 102 := by
  have hall : ∀ n : Fin 16, (fun c : UInt8 => 48 ≤ c.toNat ∧ c.toNat ≤ 57 ∨ 97 ≤ c.toNat ∧ c.toNat ≤ 102)
      (if UInt8.ofNat n.val < 10 then 0x30 + UInt8.ofNat n.val else 0x57 + UInt8.ofNat n.val) := by decide
  have hlt : (w &&& 0xF).toUInt8.toNat < 16 := by
    have hle : w.toNat &&& (0xF : UInt16).toNat ≤ 15 := Nat.and_le_right
    rw [UInt16.toNat_toUInt8, UInt16.toNat_and]
    exact Nat.lt_of_le_of_lt (Nat.mod_le _ _) (Nat.lt_succ_of_le hle)
  have hd := hall ⟨_, hlt⟩
  rw [UInt8.ofNat_toNat] at hd
  exact hd

theorem numeral_hex16 (v : UInt16) : Numeral (hex16 v) := by
  intro c hc
  simp only [hex16, mem_cons, not_mem_nil, or_false] at hc
  have hrange : ∀ w, c = hexChar w → 46 ≤ c.toNat ∧ c.toNat ≤ 57 ∨ 97 ≤ c.toNat ∧ c.toNat ≤ 102 := by
    rintro w rfl
    have := hexChar_range w
    omega
  rcases hc with h | h | h | h <;> exact hrange _ h

theorem numeral_decimal (n : Nat) : Numeral (decimal n) := fun _ hc => by
  have := mem_decimal hc
  omega

theorem numeral_dottedQuad (ip : UInt32) : Numeral (dottedQuad ip) := fun _ hc => .inl (mem_dottedQuad hc)

theorem Numeral.notMem (h : Numeral text) {x : UInt8}
    (hx : ¬(46 ≤ x.toNat ∧ x.toNat ≤ 57 ∨ 97 ≤ x.toNat ∧ x.toNat ≤ 102)) : x ∉ text := fun hmem => hx (h x hmem)

/-- The letters that the patterns sought begin with stand in no number. -/
theorem Numeral.apart (h : Numeral text) :
    Apart CALL_ID text ∧ Apart (ascii "From:") text ∧ Apart (ascii "\nTo:") text ∧ Apart (ascii ";tag=") text := by
  have hcall : CALL_ID = 0x43 :: ascii "all-ID: " := by decide
  have hfrom : ascii "From:" = 0x46 :: ascii "rom:" := by decide
  have hto : ascii "\nTo:" = 0x0A :: ascii "To:" := by decide
  have htag : ascii ";tag=" = 0x3B :: ascii "tag=" := by decide
  rw [hcall, hfrom, hto, htag]
  exact ⟨apart_of_notMem (h.notMem (by decide)), apart_of_notMem (h.notMem (by decide)),
    apart_of_notMem (h.notMem (by decide)), apart_of_notMem (h.notMem (by decide))⟩

/-- What closes an address, up to the line feed. -/
def tagEnd : Option UInt16 → Bytes
  | some tag => ascii ">;tag=" ++ (hex16 tag ++ ascii "\r")
  | none => ascii ">\r"

def tagLine (name : Bytes) (ip : UInt32) (tag : Option UInt16) : Bytes :=
  name ++ (dottedQuad ip ++ (tagEnd tag ++ ascii "\n"))

/-- A request up to its From line. -/
def requestVia (method : Bytes) (d : SipDialog) : Bytes :=
  method ++ (ascii " sip:" ++ (dottedQuad d.peerIp ++ (ascii ":" ++ (decimal d.peerPort.toNat ++
    (ascii " SIP/2.0\r\nVia: SIP/2.0/UDP " ++ (dottedQuad d.localIp ++ (ascii ":" ++
      (decimal d.localPort.toNat ++ (ascii ";branch=z9hG4bK" ++ hex16 d.branch)))))))))

/-- A response up to its From line. -/
def responseVia (d : SipDialog) : Bytes :=
  ascii "SIP/2.0 200 OK\r\nVia: SIP/2.0/UDP " ++
    (dottedQuad d.peerIp ++ (ascii ":" ++ decimal d.peerPort.toNat))

def FROM : Bytes := ascii "From: <sip:"
def TO : Bytes := ascii "To: <sip:"

theorem requestHead_eq (method : Bytes) (d : SipDialog) (toTag : UInt16) :
    requestHead method d toTag = requestVia method d ++ (ascii "\r\nMax-Forwards: 70\r\n" ++
      (tagLine FROM d.localIp (some d.fromTag) ++
        tagLine TO d.peerIp (if toTag = 0 then none else some toTag))) := by
  have hlead : ascii "\r\nMax-Forwards: 70\r\nFrom: <sip:" = ascii "\r\nMax-Forwards: 70\r\n" ++ FROM := by decide
  have hend : ascii "\r\n" = ascii "\r" ++ ascii "\n" := by decide
  have hnone : ascii ">\r\n" = ascii ">\r" ++ ascii "\n" := by decide
  unfold requestHead requestFields toWithOptionalTag requestVia tagLine
  rw [hlead, hend, hnone]
  split_ifs with h0 h1 <;> simp_all [tagEnd, append_assoc, TO]

theorem responseHead_eq (d : SipDialog) (fromTag : Option UInt16) (toTag : UInt16) :
    responseHead (ascii "200 OK") d fromTag toTag =
      responseVia d ++ (ascii "\r\n" ++ (tagLine FROM d.peerIp fromTag ++ tagLine TO d.localIp (some toTag))) := by
  have hvia : ascii "SIP/2.0 " ++ ascii "200 OK" ++ ascii "\r\nVia: SIP/2.0/UDP " =
      ascii "SIP/2.0 200 OK\r\nVia: SIP/2.0/UDP " := by decide
  have hlead : ascii "\r\nFrom: <sip:" = ascii "\r\n" ++ FROM := by decide
  have hend : ascii "\r\n" = ascii "\r" ++ ascii "\n" := by decide
  have hnone : ascii ">\r\n" = ascii ">\r" ++ ascii "\n" := by decide
  unfold responseHead responseVia tagLine
  rw [hvia, hlead]
  cases fromTag <;> simp only [tagEnd, hend, hnone, TO, append_assoc]

theorem apart_requestVia {pat method : Bytes} (hnum : ∀ text, Numeral text → Apart pat text)
    (hmethod : Apart pat method)
    (hlit : ∀ text ∈ [ascii " sip:", ascii ":", ascii " SIP/2.0\r\nVia: SIP/2.0/UDP ", ascii ";branch=z9hG4bK"],
      Apart pat text) (d : SipDialog) : Apart pat (requestVia method d) := by
  have h1 := hlit _ (by simp : ascii " sip:" ∈ _)
  have h2 := hlit _ (by simp : ascii ":" ∈ _)
  have h3 := hlit _ (by simp : ascii " SIP/2.0\r\nVia: SIP/2.0/UDP " ∈ _)
  have h4 := hlit _ (by simp : ascii ";branch=z9hG4bK" ∈ _)
  have hquad := fun ip => hnum _ (numeral_dottedQuad ip)
  have hdec := fun n => hnum _ (numeral_decimal n)
  exact hmethod.append (h1.append ((hquad _).append (h2.append ((hdec _).append (h3.append ((hquad _).append
    (h2.append ((hdec _).append (h4.append (hnum _ (numeral_hex16 _)))))))))))

theorem apart_responseVia {pat : Bytes} (hnum : ∀ text, Numeral text → Apart pat text)
    (hlead : Apart pat (ascii "SIP/2.0 200 OK\r\nVia: SIP/2.0/UDP ")) (hcolon : Apart pat (ascii ":"))
    (d : SipDialog) : Apart pat (responseVia d) :=
  hlead.append ((hnum _ (numeral_dottedQuad _)).append (hcolon.append (hnum _ (numeral_decimal _))))

theorem apart_tagEnd {pat : Bytes} (hnum : ∀ text, Numeral text → Apart pat text)
    (hlit : Apart pat (ascii ">;tag=") ∧ Apart pat (ascii "\r") ∧ Apart pat (ascii ">\r")) (tag : Option UInt16) :
    Apart pat (tagEnd tag) := by
  cases tag with
  | none => exact hlit.2.2
  | some tag => exact hlit.1.append ((hnum _ (numeral_hex16 tag)).append hlit.2.1)

theorem takeWhile_end {stop : UInt8} (h : stop ∉ text) (rest : Bytes) :
    (text ++ stop :: rest).takeWhile (· != stop) = text := by
  have hpos : ∀ c ∈ text, (c != stop) = true := fun c hc => bne_iff_ne.mpr fun heq => h (heq ▸ hc)
  rw [takeWhile_append_of_pos hpos]
  simp

theorem tagText_tagLine {pre name : Bytes} (hname : Apart (ascii ";tag=") name) (hcr : (0x0D : UInt8) ∉ name)
    (ip : UInt32) (tag : Option UInt16) (rest : Bytes) :
    tagText (pre ++ (tagLine name ip tag ++ rest)) (some pre.length) = tag.map hex16 := by
  have hquad := numeral_dottedQuad ip
  have hquadcr : (0x0D : UInt8) ∉ dottedQuad ip := hquad.notMem (by decide)
  have hclose : Apart (ascii ";tag=") (name ++ (dottedQuad ip ++ ascii ">")) :=
    hname.append (hquad.apart.2.2.2.append (by decide))
  have hgtcr : (0x0D : UInt8) ∉ ascii ">" := by decide
  unfold tagText
  dsimp only
  rw [drop_left, tagLine]
  cases tag with
  | none =>
    have hline : name ++ (dottedQuad ip ++ (tagEnd none ++ ascii "\n")) ++ rest =
        (name ++ (dottedQuad ip ++ ascii ">")) ++ 0x0D :: (ascii "\n" ++ rest) := by
      have hend : tagEnd none = ascii ">" ++ [0x0D] := by decide
      rw [hend]
      simp only [append_assoc, nil_append, cons_append]
    rw [hline, takeWhile_end (by simp [hcr, hquadcr, hgtcr]), findPat_none hclose]
    rfl
  | some tag =>
    have hhex := numeral_hex16 tag
    have hhexcr : (0x0D : UInt8) ∉ hex16 tag := hhex.notMem (by decide)
    have htagcr : (0x0D : UInt8) ∉ ascii ";tag=" := by decide
    have hline : name ++ (dottedQuad ip ++ (tagEnd (some tag) ++ ascii "\n")) ++ rest =
        ((name ++ (dottedQuad ip ++ ascii ">")) ++ (ascii ";tag=" ++ hex16 tag)) ++ 0x0D :: (ascii "\n" ++ rest) := by
      have hend : tagEnd (some tag) = ascii ">" ++ (ascii ";tag=" ++ (hex16 tag ++ [0x0D])) := by
        rw [tagEnd, show ascii ">;tag=" = ascii ">" ++ ascii ";tag=" by decide, show ascii "\r" = [0x0D] by decide,
          append_assoc]
      rw [hend]
      simp only [append_assoc, nil_append, cons_append]
    rw [hline, takeWhile_end (by simp [hcr, hquadcr, hgtcr, hhexcr, htagcr]), findPat_behind (by decide) hclose]
    have hdrop : ((name ++ (dottedQuad ip ++ ascii ">")) ++ (ascii ";tag=" ++ hex16 tag)).drop
        ((name ++ (dottedQuad ip ++ ascii ">")).length + 5) = hex16 tag := by
      rw [← drop_drop, drop_left]
      exact List.drop_left' (by decide)
    have hsemi : (0x3B : UInt8) ∉ hex16 tag := hhex.notMem (by decide)
    rw [map_some, hdrop, map_some]
    congr 1
    rw [List.takeWhile_eq_self_iff]
    exact fun c hc => bne_iff_ne.mpr fun heq => hsemi (heq ▸ hc)

theorem tagTexts (via lead : Bytes) (hfrom : Apart (ascii "From:") (via ++ lead))
    (hto : Apart (ascii "\nTo:") via) (hlead : Apart (ascii "\nTo:") (lead ++ FROM)) (fromIp toIp : UInt32)
    (fromTag toTag : Option UInt16) (rest : Bytes) :
    let msg := via ++ (lead ++ (tagLine FROM fromIp fromTag ++ tagLine TO toIp toTag)) ++ rest
    fromTagText msg = fromTag.map hex16 ∧ toTagText msg = toTag.map hex16 := by
  have hFROM : FROM = ascii "From:" ++ ascii " <sip:" := by decide
  intro msg
  constructor
  · have hsplit : msg = (via ++ lead) ++ (tagLine FROM fromIp fromTag ++ (tagLine TO toIp toTag ++ rest)) := by
      simp only [msg, append_assoc]
    have hfind : findPat (ascii "From:") msg = some (via ++ lead).length := by
      rw [hsplit, tagLine, hFROM]
      simp only [append_assoc]
      rw [← append_assoc via]
      exact findPat_behind (by decide) hfrom _
    rw [fromTagText, hfind, hsplit]
    exact tagText_tagLine (by decide) (by decide) fromIp fromTag _
  · have hbefore : Apart (ascii "\nTo:") (via ++ (lead ++ FROM ++ (dottedQuad fromIp ++ tagEnd fromTag))) :=
      hto.append (hlead.append ((numeral_dottedQuad fromIp).apart.2.2.1.append
        (apart_tagEnd (fun _ h => h.apart.2.2.1) (by decide) fromTag)))
    have hsplit : msg = (via ++ (lead ++ FROM ++ (dottedQuad fromIp ++ tagEnd fromTag)) ++ ascii "\n") ++
        (tagLine TO toIp toTag ++ rest) := by
      simp only [msg, tagLine, append_assoc]
    have hfind : findPat (ascii "\nTo:") msg =
        some (via ++ (lead ++ FROM ++ (dottedQuad fromIp ++ tagEnd fromTag))).length := by
      have hTO : ascii "\n" ++ TO = ascii "\nTo:" ++ ascii " <sip:" := by decide
      rw [hsplit, append_assoc, tagLine, append_assoc TO, ← append_assoc (ascii "\n") TO, hTO,
        append_assoc (ascii "\nTo:")]
      exact findPat_behind (by decide) hbefore _
    rw [toTagText, hfind, hsplit]
    have hlen : ((some (via ++ (lead ++ FROM ++ (dottedQuad fromIp ++ tagEnd fromTag))).length).map (· + 1)) =
        some (via ++ (lead ++ FROM ++ (dottedQuad fromIp ++ tagEnd fromTag)) ++ ascii "\n").length := by
      rw [@length_append _ _ (ascii "\n")]
      rfl
    rw [hlen]
    exact tagText_tagLine (by decide) (by decide) toIp toTag rest

def OneLine (text : Bytes) : Prop := ∀ c ∈ text, c ≠ 0x0D ∧ c ≠ 0x0A

theorem lineRest_append (h : OneLine text) (rest : Bytes) :
    lineRest (text ++ (ascii "\r\n" ++ rest)) = text := by
  induction text with
  | nil => rfl
  | cons c text ih =>
    have hc := h c mem_cons_self
    have hrest : OneLine text := fun x hx => h x (mem_cons_of_mem c hx)
    have hp : (c != 0x0D && c != 0x0A) = true := by simp [hc.1, hc.2]
    rw [cons_append, lineRest, takeWhile_cons_of_pos (p := fun c => c != 0x0D && c != 0x0A) hp]
    exact congrArg (c :: ·) (ih hrest)

theorem oneLine_lineRest (buf : Bytes) : OneLine (lineRest buf) := by
  intro c hc
  have := List.mem_takeWhile_imp hc
  simpa using this

theorem oneLine_hex16 (v : UInt16) : OneLine (hex16 v) := by
  have h := numeral_hex16 v
  exact fun c hc => ⟨fun heq => h.notMem (by decide) (heq ▸ hc), fun heq => h.notMem (by decide) (heq ▸ hc)⟩

theorem findCallId_withCallId {head callId : Bytes} (hhead : Apart CALL_ID head)
    (hid : OneLine callId) (tail : Bytes) : findCallId (withCallId head callId tail) = some callId := by
  have hfind : findPat CALL_ID (withCallId head callId tail) = some head.length :=
    findPat_behind (by decide) hhead _
  have hdrop : (withCallId head callId tail).drop (head.length + 9) =
      callId ++ (ascii "\r\n" ++ tail) := by
    rw [withCallId, ← drop_drop, drop_left]
    exact List.drop_left' (by decide)
  rw [findCallId, hfind, map_some, hdrop, lineRest_append hid]

theorem apart_tagLine {name : Bytes} (hname : Apart CALL_ID name) (ip : UInt32) (tag : Option UInt16) :
    Apart CALL_ID (tagLine name ip tag) :=
  hname.append ((numeral_dottedQuad ip).apart.1.append
    ((apart_tagEnd (fun _ h => h.apart.1) (by decide) tag).append (by decide)))

theorem oneLine_callIdAtHost (h : OneLine d.callId) : OneLine (callIdAtHost d) := by
  intro c hc
  simp only [callIdAtHost, mem_append] at hc
  rcases hc with (hc | hc) | hc
  · exact h c hc
  · rw [mem_singleton.mp hc]
    decide
  · have hrange := mem_dottedQuad hc
    refine ⟨?_, ?_⟩ <;> rintro rfl <;> simp at hrange

theorem reads_request {method callId : Bytes}
    (hmethod : Apart CALL_ID method ∧ Apart (ascii "From:") method ∧ Apart (ascii "\nTo:") method)
    (hid : OneLine callId) (d : SipDialog) (toTag : UInt16) (tail : Bytes) :
    let msg := withCallId (requestHead method d toTag) callId tail
    findCallId msg = some callId ∧ fromTagText msg = some (hex16 d.fromTag) ∧
      toTagText msg = if toTag = 0 then none else some (hex16 toTag) := by
  have hvia {pat : Bytes} (hnum : ∀ text, Numeral text → Apart pat text) (hm : Apart pat method) := apart_requestVia hnum hm
  intro msg
  refine ⟨findCallId_withCallId ?_ hid tail, ?_⟩
  · rw [requestHead_eq]
    exact (hvia (fun _ h => h.apart.1) hmethod.1 (by decide) d).append (.append (by decide)
      ((apart_tagLine (by decide) _ _).append (apart_tagLine (by decide) _ _)))
  · have htags := tagTexts (requestVia method d) (ascii "\r\nMax-Forwards: 70\r\n")
      ((hvia (fun _ h => h.apart.2.1) hmethod.2.1 (by decide) d).append (by decide))
      (hvia (fun _ h => h.apart.2.2.1) hmethod.2.2 (by decide) d) (by decide) d.localIp d.peerIp (some d.fromTag)
      (if toTag = 0 then none else some toTag) (CALL_ID ++ (callId ++ (ascii "\r\n" ++ tail)))
    rw [← requestHead_eq] at htags
    refine ⟨htags.1, htags.2.trans ?_⟩
    split <;> rfl

theorem reads_response {callId : Bytes} (hid : OneLine callId) (d : SipDialog) (fromTag : Option UInt16)
    (toTag : UInt16) (tail : Bytes) :
    let msg := withCallId (responseHead (ascii "200 OK") d fromTag toTag) callId tail
    findCallId msg = some callId ∧ fromTagText msg = fromTag.map hex16 ∧ toTagText msg = some (hex16 toTag) := by
  intro msg
  refine ⟨findCallId_withCallId ?_ hid tail, ?_⟩
  · rw [responseHead_eq]
    exact (apart_responseVia (fun _ h => h.apart.1) (by decide) (by decide) d).append (.append (by decide)
      ((apart_tagLine (by decide) _ _).append (apart_tagLine (by decide) _ _)))
  · have htags := tagTexts (responseVia d) (ascii "\r\n")
      ((apart_responseVia (fun _ h => h.apart.2.1) (by decide) (by decide) d).append (by decide))
      (apart_responseVia (fun _ h => h.apart.2.2.1) (by decide) (by decide) d) (by decide) d.peerIp d.localIp fromTag
      (some toTag) (CALL_ID ++ (callId ++ (ascii "\r\n" ++ tail)))
    rw [← responseHead_eq] at htags
    exact htags

theorem reads_buildInvite (h : OneLine d.callId) :
    findCallId (buildInvite d) = some (callIdAtHost d) ∧ fromTagText (buildInvite d) = some (hex16 d.fromTag) ∧
      toTagText (buildInvite d) = none :=
  reads_request (by decide) (oneLine_callIdAtHost h) d 0 _

theorem reads_buildAck (h : OneLine d.callId) :
    findCallId (buildAck d) = some (callIdAtHost d) ∧ fromTagText (buildAck d) = some (hex16 d.fromTag) ∧
      toTagText (buildAck d) = if d.toTag = 0 then none else some (hex16 d.toTag) :=
  reads_request (by decide) (oneLine_callIdAtHost h) d d.toTag _

theorem reads_buildBye (h : OneLine d.callId) :
    findCallId (buildBye d) = some (callIdAtHost d) ∧ fromTagText (buildBye d) = some (hex16 d.fromTag) ∧
      toTagText (buildBye d) = if d.toTag = 0 then none else some (hex16 d.toTag) :=
  reads_request (by decide) (oneLine_callIdAtHost h) d d.toTag _

theorem reads_buildInviteOk (h : OneLine d.callId) :
    findCallId (buildInviteOk d) = some d.callId ∧ fromTagText (buildInviteOk d) = some (hex16 d.toTag) ∧
      toTagText (buildInviteOk d) = some (hex16 d.fromTag) :=
  reads_response h d (some d.toTag) d.fromTag _

theorem reads_buildByeOk (h : OneLine d.callId) :
    findCallId (buildByeOk d) = some d.callId ∧ fromTagText (buildByeOk d) = none ∧
      toTagText (buildByeOk d) = some (hex16 d.fromTag) :=
  reads_response h d none d.fromTag _

theorem hexVal16_hexChar (w : UInt16) : hexVal16 (hexChar w) = some (w &&& 0xF) := by
  have hall : ∀ n : Fin 16, hexVal16 (if UInt8.ofNat n.val < 10 then 0x30 + UInt8.ofNat n.val
      else 0x57 + UInt8.ofNat n.val) = some (UInt8.ofNat n.val).toUInt16 := by decide
  have hlt : w.toNat &&& (0xF : UInt16).toNat < 16 := Nat.lt_succ_of_le Nat.and_le_right
  have hnat : (w &&& 0xF).toUInt8.toNat = w.toNat &&& (0xF : UInt16).toNat := by
    rw [UInt16.toNat_toUInt8, UInt16.toNat_and]
    omega
  have hd := hall ⟨_, hnat.trans_lt hlt⟩
  rw [UInt8.ofNat_toNat] at hd
  refine hd.trans (congrArg some (UInt16.toNat.inj ?_))
  rw [UInt8.toNat_toUInt16, hnat, UInt16.toNat_and]

theorem shift_or {x d : UInt16} (hx : x.toNat < 4096) (hd : d.toNat < 16) :
    ((x <<< 4) ||| d).toNat = x.toNat * 16 + d.toNat := by
  have hshift : (x <<< 4).toNat = x.toNat <<< 4 := by
    rw [UInt16.toNat_shiftLeft]
    simp only [UInt16.reduceToNat, Nat.reduceMod, Nat.shiftLeft_eq]
    omega
  rw [UInt16.toNat_or, hshift, ← Nat.shiftLeft_add_eq_or_of_lt (show d.toNat < 2 ^ 4 from hd), Nat.shiftLeft_eq]

theorem parseHex16_hex16 (v : UInt16) : parseHex16 (hex16 v) = v := by
  have hv := v.toNat_lt
  have hand (w : UInt16) : (w &&& 0xF).toNat = w.toNat % 16 := by
    rw [UInt16.toNat_and]
    exact Nat.and_two_pow_sub_one_eq_mod w.toNat 4
  have h1 : (v >>> 12 &&& 0xF).toNat = v.toNat / 4096 := by
    rw [hand, UInt16.toNat_shiftRight]
    simp only [UInt16.reduceToNat, Nat.reduceMod, Nat.shiftRight_eq_div_pow]
    omega
  have h2 : (v >>> 8 &&& 0xF).toNat = v.toNat / 256 % 16 := by
    rw [hand, UInt16.toNat_shiftRight]
    simp only [UInt16.reduceToNat, Nat.reduceMod, Nat.shiftRight_eq_div_pow]
  have h3 : (v >>> 4 &&& 0xF).toNat = v.toNat / 16 % 16 := by
    rw [hand, UInt16.toNat_shiftRight]
    simp only [UInt16.reduceToNat, Nat.reduceMod, Nat.shiftRight_eq_div_pow]
  have h4 := hand v
  unfold parseHex16 hex16
  simp only [take_succ_cons, take_zero, parseHex16Loop, hexVal16_hexChar]
  generalize v >>> 12 &&& 0xF = a at h1 ⊢
  generalize v >>> 8 &&& 0xF = b at h2 ⊢
  generalize v >>> 4 &&& 0xF = c at h3 ⊢
  generalize v &&& 0xF = d at h4 ⊢
  have e1 : ((0 : UInt16) <<< 4 ||| a).toNat = a.toNat := by
    rw [shift_or (by decide) (by omega)]
    simp
  have e2 := shift_or (x := (0 : UInt16) <<< 4 ||| a) (d := b) (by omega) (by omega)
  have e3 := shift_or (x := ((0 : UInt16) <<< 4 ||| a) <<< 4 ||| b) (d := c) (by omega) (by omega)
  have e4 := shift_or (x := (((0 : UInt16) <<< 4 ||| a) <<< 4 ||| b) <<< 4 ||| c) (d := d) (by omega) (by omega)
  apply UInt16.toNat.inj
  omega

theorem parseHex16Loop_takeWhile {stop : UInt8 → Bool} (hstop : ∀ c, stop c = false → hexVal16 c = none) (text : Bytes)
    (n : Nat) (val : UInt16) :
    parseHex16Loop ((text.takeWhile stop).take n) val = parseHex16Loop (text.take n) val := by
  induction text generalizing n val with
  | nil => rfl
  | cons c text ih =>
    cases n with
    | zero => rfl
    | succ n =>
      cases hc : stop c with
      | true =>
        rw [takeWhile_cons_of_pos hc, take_succ_cons, take_succ_cons, parseHex16Loop, parseHex16Loop]
        cases hexVal16 c with
        | none => rfl
        | some d => exact ih n _
      | false =>
        rw [takeWhile_cons_of_neg (by simp [hc]), take_succ_cons, parseHex16Loop, hstop c hc]
        simp [parseHex16Loop]

theorem drop_takeWhile {α : Type*} {p : α → Bool} {l : List α} {k : Nat} (h : k ≤ (l.takeWhile p).length) :
    (l.takeWhile p).drop k = (l.drop k).takeWhile p := by
  have hprefix : l.takeWhile p ++ l.dropWhile p = l := takeWhile_append_dropWhile
  have hall : ∀ c ∈ (l.takeWhile p).drop k, p c = true := fun c hc => List.mem_takeWhile_imp (List.mem_of_mem_drop hc)
  conv_rhs => rw [← hprefix, drop_append_of_le_length h, takeWhile_append_of_pos hall]
  have hend : (l.dropWhile p).takeWhile p = [] := by
    cases hd : l.dropWhile p with
    | nil => rfl
    | cons c cs =>
      have hc : p c = false := by
        have := List.head_dropWhile_not p (l := l) (by rw [hd]; exact cons_ne_nil c cs)
        simpa [hd] using this
      rw [takeWhile_cons_of_neg (by simp [hc])]
  rw [hend, append_nil]

/-- The module's tag is what the first four digits of the written one say. -/
theorem tagOnLine_eq (msg : Bytes) (start : Option Nat) :
    tagOnLine msg start = ((tagText msg start).map parseHex16).getD 0 := by
  cases start with
  | none => rfl
  | some start =>
    unfold tagOnLine tagText
    dsimp only
    cases hrel : findPat (ascii ";tag=") ((msg.drop start).takeWhile (· != 0x0D)) with
    | none => rfl
    | some rel =>
      have hle : rel + 5 ≤ ((msg.drop start).takeWhile (· != 0x0D)).length := findPat_le hrel
      have hcr : ∀ c : UInt8, (c != 0x0D) = false → hexVal16 c = none := by
        intro c hc
        rw [bne_eq_false_iff_eq.mp hc]
        decide
      have hsemi : ∀ c : UInt8, (c != 0x3B) = false → hexVal16 c = none := by
        intro c hc
        rw [bne_eq_false_iff_eq.mp hc]
        decide
      rw [map_some, map_some, getD_some, drop_takeWhile hle, drop_drop, ← Nat.add_assoc]
      unfold parseHex16
      rw [parseHex16Loop_takeWhile hsemi, parseHex16Loop_takeWhile hcr]

end Wave.Common
