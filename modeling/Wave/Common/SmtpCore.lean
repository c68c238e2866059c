import Wave.Lib.Scan
import Wave.Lib.Paths

/-! # The mail submission protocol (`common/smtp_core.rs`, `common/smtp_wire.rs`)

Reply lines, commands, transparency and phases. A message in spans is stuffed as in one piece (`stuff_append`). -/

namespace Wave.Common

open Lib

def isAsciiDigit (c : UInt8) : Bool := 0x30 ≤ c && c ≤ 0x39

structure ReplyLine where
  code : UInt16
  isFinal : Bool
  len : Nat

/-- One reply line at the head of `buf`: its code, whether it ends the reply, and its
length with the line end. -/
def smtpReplyLine (buf : Bytes) : Option ReplyLine :=
  (findPat (ascii "\r\n") buf).bind fun crlf =>
    if crlf < 3 then none
    else
      let d := buf.at0
      if !isAsciiDigit (d 0) || !isAsciiDigit (d 1) || !isAsciiDigit (d 2) then none
      else some
        { code := (d 0 - 0x30).toUInt16 * 100 + (d 1 - 0x30).toUInt16 * 10 + (d 2 - 0x30).toUInt16
          isFinal := crlf = 3 || d 3 ≠ 0x2D
          len := crlf + 2 }

def smtpReplyText (line : Bytes) : Bytes := (line.drop 4).take (line.length - 6)

def lower (c : UInt8) : UInt8 := if 0x41 ≤ c && c ≤ 0x5A then c + 0x20 else c

def eqIgnoreAsciiCase (a b : Bytes) : Bool := a.map lower = b.map lower

def isBlank (c : UInt8) : Bool := c = 0x20 || c = 0x09

def offersPlainLoop : (fuel : Nat) → Bytes → Bool
  | 0, _ => false
  | fuel + 1, rest =>
    let rest := rest.dropWhile isBlank
    let word := rest.takeWhile fun c => !(isBlank c || c = 0x0D)
    if word = [] then false
    else if eqIgnoreAsciiCase word (ascii "PLAIN") then true
    else offersPlainLoop fuel (rest.drop word.length)

/-- `smtp_offers_auth_plain`: the line offers `AUTH` with the mechanism `PLAIN`. -/
def smtpOffersAuthPlain (line : Bytes) : Bool :=
  let rest := line.drop 4
  if line.length < 4 || rest.length < 5 || !eqIgnoreAsciiCase (rest.take 4) (ascii "AUTH") ||
      !isBlank (Bytes.at0 rest 4) then false
  else offersPlainLoop rest.length (rest.drop 4)

def SMTP_SASL_MAX : Nat := 256

def BASE64 : Bytes := ascii "ABCDEFGHIJKLMNOPQRSTUVWXYZabcdefghijklmnopqrstuvwxyz0123456789+/"

def base64Char (n : Nat) : UInt8 := BASE64.at0 (n % 64)

def smtpB64Encode : Bytes → Bytes
  | [] => []
  | [a] =>
    let w := a.toNat * 65536
    [base64Char (w / 262144), base64Char (w / 4096), 0x3D, 0x3D]
  | [a, b] =>
    let w := a.toNat * 65536 + b.toNat * 256
    [base64Char (w / 262144), base64Char (w / 4096), base64Char (w / 64), 0x3D]
  | a :: b :: c :: rest =>
    let w := a.toNat * 65536 + b.toNat * 256 + c.toNat
    base64Char (w / 262144) :: base64Char (w / 4096) :: base64Char (w / 64) :: base64Char w ::
      smtpB64Encode rest

def smtpPut (room : Nat) (bytes : Bytes) : Option Bytes :=
  if bytes.length ≤ room then some bytes else none

def ehloLine (domain : Bytes) : Bytes := ascii "EHLO " ++ domain ++ ascii "\r\n"

def mailFromLine (addr : Bytes) : Bytes := ascii "MAIL FROM:<" ++ addr ++ ascii ">\r\n"

def rcptToLine (addr : Bytes) : Bytes := ascii "RCPT TO:<" ++ addr ++ ascii ">\r\n"

def dataLine : Bytes := ascii "DATA\r\n"

def quitLine : Bytes := ascii "QUIT\r\n"

def authPlainLine (user pass : Bytes) : Bytes :=
  ascii "AUTH PLAIN " ++ smtpB64Encode (0 :: user ++ 0 :: pass) ++ ascii "\r\n"

def plainEncodable (user pass : Bytes) : Bool :=
  user ≠ [] && !user.contains 0 && !pass.contains 0 && user.length + pass.length + 2 ≤ SMTP_SASL_MAX

def smtpAuthPlain (room : Nat) (user pass : Bytes) : Option Bytes :=
  if plainEncodable user pass then smtpPut room (authPlainLine user pass) else none

def stuff : (lineStart : Bool) → Bytes → Bytes
  | _, [] => []
  | lineStart, b :: rest =>
    if lineStart && b = 0x2E then 0x2E :: b :: stuff false rest else b :: stuff (b = 0x0A) rest

def lineStartAfter : (lineStart : Bool) → Bytes → Bool
  | lineStart, [] => lineStart
  | _, b :: rest => lineStartAfter (b = 0x0A) rest

theorem stuff_append (lineStart : Bool) (a b : Bytes) :
    stuff lineStart (a ++ b) = stuff lineStart a ++ stuff (lineStartAfter lineStart a) b := by
  induction a generalizing lineStart with
  | nil => rfl
  | cons c a ih =>
    simp only [cons_append, stuff, lineStartAfter]
    split_ifs with hdot
    · obtain ⟨-, rfl⟩ : lineStart = true ∧ c = 0x2E := by simpa using hdot
      rw [ih]
      rfl
    · rw [ih]
      rfl

theorem lineStartAfter_append (lineStart : Bool) (a b : Bytes) :
    lineStartAfter lineStart (a ++ b) = lineStartAfter (lineStartAfter lineStart a) b := by
  induction a generalizing lineStart with
  | nil => rfl
  | cons c a ih => exact ih _

/-- `smtp_body_chunk`: one span of a streamed message. -/
def smtpBodyChunk (room : Nat) (chunk : Bytes) (atLineStart : Bool) : Option (Bytes × Bool) :=
  (smtpPut room (stuff atLineStart chunk)).map fun out => (out, lineStartAfter atLineStart chunk)

/-- `smtp_body_end`: the end-of-data line, on a line of its own. -/
def smtpBodyEnd (endsWithCrlf : Bool) : Bytes :=
  (if endsWithCrlf then [] else ascii "\r\n") ++ ascii ".\r\n"

def endsCrlf (chunk : Bytes) : Bool := (ascii "\r\n").isSuffixOf chunk

inductive SmtpPhase where
  | disconnected
  | connecting
  | greet
  | ehlo
  | auth
  | mailFrom
  | rcptTo
  | data
  | body
  | quit
  | done
  | failed
deriving DecidableEq

inductive SmtpCmd where
  | sendEhlo
  | sendAuth
  | sendMailFrom
  | sendRcptTo
  | sendData
  | sendBody
  | sendQuit
  | complete
  | fail
deriving DecidableEq

def smtpReplyAccepts (phase : SmtpPhase) (code : UInt16) : Bool := phase = .body && code = 250

inductive SmtpAuthPlan where
  | none
  | plain
  | refuse
deriving DecidableEq

def smtpOnReply (phase : SmtpPhase) (code : UInt16) (auth : SmtpAuthPlan) : SmtpCmd × SmtpPhase :=
  match phase with
  | .greet => if code = 220 then (.sendEhlo, .ehlo) else (.fail, .failed)
  | .ehlo =>
    if code = 250 then
      match auth with
      | .none => (.sendMailFrom, .mailFrom)
      | .plain => (.sendAuth, .auth)
      | .refuse => (.fail, .failed)
    else (.fail, .failed)
  | .auth => if code = 235 then (.sendMailFrom, .mailFrom) else (.fail, .failed)
  | .mailFrom => if code = 250 then (.sendRcptTo, .rcptTo) else (.fail, .failed)
  | .rcptTo => if code = 250 then (.sendData, .data) else (.fail, .failed)
  | .data => if code = 354 then (.sendBody, .body) else (.fail, .failed)
  | .body => if code = 250 then (.sendQuit, .quit) else (.fail, .failed)
  | .quit => if code = 221 then (.complete, .done) else (.fail, .failed)
  | _ => (.fail, .failed)

inductive SmtpOutcome where
  | accepted
  | rejectedPerm
  | rejectedTemp
  | protocolError
  | connectFailed
  | timeout
  | closed
  | authUnavailable
deriving DecidableEq

def smtpClassifyCode (code : UInt16) : SmtpOutcome :=
  if 400 ≤ code ∧ code ≤ 499 then .rejectedTemp
  else if 500 ≤ code ∧ code ≤ 599 then .rejectedPerm
  else .protocolError

def SMTP_RES_HDR : Nat := 18

theorem smtpPut_of_le {room : Nat} {bytes : Bytes} (h : bytes.length ≤ room) :
    smtpPut room bytes = some bytes := if_pos h

theorem length_smtpB64Encode (l : Bytes) : (smtpB64Encode l).length ≤ 2 * l.length + 4 := by
  induction l using smtpB64Encode.induct with
  | case1 => exact Nat.zero_le _
  | case2 a => exact Nat.le_add_left _ _
  | case3 a b => exact Nat.le_add_left _ _
  | case4 a b c rest ih =>
    simp only [smtpB64Encode, length_cons]
    omega

theorem smtpBodyChunk_eq_some {room : Nat} {chunk out : Bytes} {atLineStart lineStart : Bool}
    (h : smtpBodyChunk room chunk atLineStart = some (out, lineStart)) :
    (stuff atLineStart chunk).length ≤ room ∧ stuff atLineStart chunk = out ∧
      lineStartAfter atLineStart chunk = lineStart := by
  unfold smtpBodyChunk smtpPut at h
  by_cases hfits : (stuff atLineStart chunk).length ≤ room
  · rw [if_pos hfits, map_some, Option.some.injEq, Prod.mk.injEq] at h
    exact ⟨hfits, h⟩
  · rw [if_neg hfits] at h
    cases h

theorem endsCrlf_append {chunk : Bytes} (gone : Bytes) (h : endsCrlf chunk = true) :
    endsCrlf (gone ++ chunk) = true := by
  rw [endsCrlf, List.isSuffixOf_iff_suffix] at h ⊢
  exact h.trans (List.suffix_append _ _)

end Wave.Common
