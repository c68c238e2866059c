import Wave.Lib.Paths

/-! # Signature Version 4 (`common/sigv4_core.rs`) -/

namespace Wave.Common

open Lib

abbrev Sha256 := Bytes → FixedBytes 32

def SV4_EMPTY_SHA256 : Bytes := ascii "e3b0c44298fc1c149afbf4c8996fb92427ae41e4649b934ca495991b7852b855"

def SV4_HEX : Bytes := ascii "0123456789abcdef"

def sv4Hmac (sha256 : Sha256) (key msg : Bytes) : FixedBytes 32 :=
  let k := if key.length > 64 then (sha256 key).1 else key
  let k := k ++ List.replicate (64 - k.length) 0
  let ih := sha256 (Bytes.xorWith (List.replicate 64 0x36) k ++ msg)
  sha256 (Bytes.xorWith (List.replicate 64 0x5c) k ++ ih.1)

def sv4Hex : Bytes → Nat → Bytes
  | [], _ => []
  | b :: data, room =>
    if room < 2 then []
    else SV4_HEX.at0 (b >>> 4).toNat :: SV4_HEX.at0 (b &&& 0xf).toNat :: sv4Hex data (room - 2)

def sv4Hex32 (d : FixedBytes 32) : Bytes := sv4Hex d.1 64

def sv4Hexval (c : UInt8) : Option UInt8 := Paths.hexVal c

def sv4Eq (a b : Bytes) : Bool :=
  if a.length ≠ b.length then false else (Bytes.xorWith a b).foldl (· ||| ·) 0 = 0

/-- Parts one behind the other into a buffer of `room` bytes; what does not fit is left out. -/
def fill (room : Nat) (parts : List Bytes) : Bytes :=
  parts.foldl (fun msg part => msg ++ part.take (room - msg.length)) []

def sv4ChunkSignature (sha256 : Sha256) (signingKey amzDate scopeDate region service previous : Bytes)
    (chunkHash : FixedBytes 32) : Bytes :=
  sv4Hex32 (sv4Hmac sha256 signingKey (fill 512
    [ascii "AWS4-HMAC-SHA256-PAYLOAD\n", amzDate, ascii "\n", scopeDate, ascii "/", region, ascii "/", service,
      ascii "/aws4_request\n", previous, ascii "\n", SV4_EMPTY_SHA256, ascii "\n", sv4Hex32 chunkHash]))

theorem length_sv4Hex (data : Bytes) {room : Nat} (h : 2 * data.length ≤ room) :
    (sv4Hex data room).length = 2 * data.length := by
  induction data generalizing room with
  | nil => rfl
  | cons b data ih =>
    rw [length_cons] at h
    rw [sv4Hex, if_neg (by omega), length_cons, length_cons, ih (by omega), length_cons]
    omega

theorem length_sv4Hex32 (d : FixedBytes 32) : (sv4Hex32 d).length = 64 := by
  rw [sv4Hex32, length_sv4Hex _ (by rw [d.2]), d.2]

theorem length_sv4ChunkSignature (sha256 : Sha256) (signingKey amzDate scopeDate region service previous : Bytes)
    (chunkHash : FixedBytes 32) :
    (sv4ChunkSignature sha256 signingKey amzDate scopeDate region service previous chunkHash).length = 64 :=
  length_sv4Hex32 _

theorem sv4Eq_iff (a b : Bytes) : sv4Eq a b = true ↔ a = b := by
  unfold sv4Eq
  split
  next h => exact iff_of_false false_ne_true fun heq => h (congrArg List.length heq)
  next h =>
    rw [not_not] at h
    rw [decide_eq_true_eq, Bytes.foldl_or_eq_zero, Bytes.xorWith_eq_zero h]
    exact and_iff_right rfl

end Wave.Common
