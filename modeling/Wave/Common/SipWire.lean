import Wave.Lib.Bytes

/-! # Commands and events of the call surface (`common/sip_wire.rs`) -/

namespace Wave.Common

open Lib

inductive SipOp where
  | dial
  | accept
  | reject
  | hangup
  | cancel
deriving DecidableEq

/-- `sip_cmd_is_known`, with the op it names. -/
def SipOp.ofByte (b : UInt8) : Option SipOp :=
  if b = 0x90 then some .dial
  else if b = 0x91 then some .accept
  else if b = 0x92 then some .reject
  else if b = 0x93 then some .hangup
  else if b = 0x94 then some .cancel
  else none

structure SipCommand where
  op : SipOp
  cid : UInt32
  code : UInt16 := 0
  peerIp : UInt32 := 0
  peerPort : UInt16 := 0
  mediaPort : UInt16 := 0

/-- `parse_sip_command` of a record read into a zeroed buffer; `none` for an unknown op. -/
def parseSipCommand (record : Bytes) : Option SipCommand :=
  let b := record.at0
  (SipOp.ofByte (b 0)).map fun op =>
    { op := op
      cid := Bytes.u32le (b 1) (b 2) (b 3) (b 4)
      code := Bytes.u16le (b 5) (b 6)
      peerIp := Bytes.u32be (b 7) (b 8) (b 9) (b 10)
      peerPort := Bytes.u16le (b 11) (b 12)
      mediaPort := Bytes.u16le (b 17) (b 18) }

inductive SipEventKind where
  | offered
  | provisional
  | established
  | rejected
  | timeout
  | failed
  | remoteHangup
  | localClosed
  | declined
deriving DecidableEq

structure SipEventRecord where
  cid : UInt32
  event : SipEventKind
  code : UInt16
  mediaIp : UInt32
  mediaPort : UInt16
  payloadType : UInt8
deriving DecidableEq

/-- `sip_event_is_terminal`: the event ends the call it describes. -/
def SipEventKind.isTerminal : SipEventKind → Bool
  | .rejected | .timeout | .failed | .remoteHangup | .localClosed | .declined => true
  | _ => false

end Wave.Common
