import Wave.Lib.Machine
import Wave.Rtp.Transmit
import Wave.Rtp.Receive

/-! # The module step (`module_step`)

One step reads what the environment holds for it, `StepInput`, and acts according to the phase. -/

namespace Wave.Rtp

open Lib Lib.Bytes Common.SrtpCore Common.RtpCore

inductive CtrlMsg where
  | setEndpoint (port : UInt16) (addr : UInt32)
  | start
  | stop
  | other
deriving DecidableEq

def decodeCtrl (buf : FixedBytes 8) : CtrlMsg :=
  let b := at0 buf.1
  if b 0 = 0x01 then .setEndpoint (u16le (b 2) (b 3)) (u32le (b 4) (b 5) (b 6) (b 7))
  else if b 0 = 0x02 then .start
  else if b 0 = 0x03 then .stop
  else .other

/-- What one step finds: a control message, the answers to its writes, the frames on `net_in` and the packets cut. -/
structure StepInput where
  ctrl : Option (FixedBytes 8) := none
  bindWritten : Bool := true
  netIn : List RxInput := []
  media : List TxPacket := []
  retryAccepted : Bool := true

def setEndpoint (s : RtpState) (port : UInt16) (addr : UInt32) : RtpState :=
  { s with peerIp := addr, peerPort := port, peer := {} }

def stepIdle (s : RtpState) (ctrl : Option (FixedBytes 8)) : RtpState × List RtpEvent :=
  match ctrl.map decodeCtrl with
  | some (.setEndpoint port addr) => (setEndpoint s port addr, [])
  | some .start =>
    if s.peerIp = 0 ∧ s.peer.name = none then (s, []) else ({ s with phase := .init }, [])
  | _ => (s, [])

def stepInit (s : RtpState) (bindWritten : Bool) : RtpState × List RtpEvent :=
  if !s.config.netOutWired then ({ s with phase := .error }, [])
  else if !bindWritten then (s, [])
  else ({ s with phase := .bindWait }, [.bind s.config.localPort])

def stepBindWait (s : RtpState) (netIn : List RxInput) : RtpState × List RtpEvent :=
  match s.config.netInWired, netIn with
  | true, inp :: _ =>
    match inp.frame.msg with
    | .error => ({ s with phase := .error }, [])
    | .bound ep port =>
      if inp.frame.payload.length < 3 ∨ port ≠ s.config.localPort then (s, [])
      else ({ s with epId := ep, phase := .running }, [])
    | _ => (s, [])
  | _, _ => (s, [])

def closeConnection (s : RtpState) : RtpState × List RtpEvent :=
  ({ s with
      epId := EP_NONE
      seqNum := 0
      timestamp := 0
      rxSources := List.replicate MAX_RX_SSRC {}
      packetsReceived := 0
      packetsLost := 0
      rxTruncated := 0
      pendingOut := none },
    if s.config.netOutWired ∧ s.epId ≠ EP_NONE then [.closeEndpoint s.epId] else [])

variable (sdk : SdkCrypto)

def stepMedia (s : RtpState) (inp : StepInput) : RtpState × List RtpEvent :=
  let tx := stepTx sdk s inp.media
  let rx := stepRx sdk tx.1 inp.retryAccepted inp.netIn
  (rx.1, tx.2 ++ rx.2)

def stepRunning (s : RtpState) (inp : StepInput) : RtpState × List RtpEvent :=
  match if s.config.ctrlMode then inp.ctrl.map decodeCtrl else none with
  | some .stop =>
    let closed := closeConnection s
    ({ closed.1 with phase := .idle }, closed.2)
  | some (.setEndpoint port addr) => stepMedia sdk (setEndpoint s port addr) inp
  | _ => stepMedia sdk s inp

def moduleStep (s : RtpState) (inp : StepInput) : RtpState × List RtpEvent :=
  match s.phase with
  | .idle => stepIdle s inp.ctrl
  | .init => stepInit s inp.bindWritten
  | .bindWait => stepBindWait s inp.netIn
  | .running => stepRunning sdk s inp
  | .error => (s, [])

def machine : Machine RtpState StepInput RtpEvent where
  step := moduleStep sdk

def ctrlGcmConfig : RtpConfig :=
  { ctrlMode := true, keys := { srtpKeySet := true, srtpSaltSet := true } }

def ctrlMessage (cmd : UInt8) : StepInput :=
  { ctrl := some ⟨[cmd, 0, 0, 0, 0, 0, 0, 0], rfl⟩ }

/-- `START`, the bind request and its answer. -/
def startInputs : List StepInput :=
  [ctrlMessage 0x02, {}, { netIn := [{ frame := { msg := .bound 7 5004, payload := [7, 0x8C, 0x13] } }] }]

def startedState : RtpState :=
  { moduleNew ctrlGcmConfig 0x0A000001 5004 {} with phase := .running, epId := 7 }

theorem startInputs_run :
    (machine sdk).run (moduleNew ctrlGcmConfig 0x0A000001 5004 {}) startInputs =
      (startedState, [.bind 5004]) := rfl

end Wave.Rtp
