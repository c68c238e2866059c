import Mathlib.Tactic.SplitIfs

/-! # The dialog machine (`common/sip_dialog.rs`)

What one event does in each state. Media starts on the way into `WaitAck` or `Active` (`onEvent_media`). -/

namespace Wave.Common

def SIP_MAX_RETRANSMIT : Nat := 7

inductive SipState where
  | ready
  | inviting
  | waitAck
  | active
  | byeSent
deriving DecidableEq

inductive SipEvent where
  | localInvite
  | localBye
  | rxInvite (answer : Bool)
  | rxAck
  | rxBye
  | rxResponse (code : UInt16)
  | timeout
deriving DecidableEq

inductive SipSend where
  | invite
  | ok
  | ack
  | bye
  | byeOk
  | retransmit
deriving DecidableEq

inductive MediaCmd where
  | none
  | start
  | stop
deriving DecidableEq

structure SipStep where
  send : Option SipSend := .none
  media : MediaCmd := .none
  resetTimer : Bool := false

structure SipDialogFsm where
  state : SipState := .ready
  retransmitCount : Nat := 0

namespace SipDialogFsm

def onTimeout (f : SipDialogFsm) : SipDialogFsm × SipStep :=
  if f.retransmitCount ≥ SIP_MAX_RETRANSMIT then ({ f with state := .ready }, {})
  else
    ({ f with retransmitCount := f.retransmitCount + 1 },
      { send := some .retransmit, resetTimer := true })

/-- A response to an `INVITE` of ours: provisional, success or refusal. -/
def onInviteResponse (f : SipDialogFsm) (code : UInt16) : SipDialogFsm × SipStep :=
  if 100 ≤ code ∧ code < 200 then ({ f with retransmitCount := 0 }, { resetTimer := true })
  else if 200 ≤ code ∧ code < 300 then
    ({ f with state := .active }, { send := some .ack, media := .start })
  else if code ≥ 300 then ({ f with state := .ready }, { send := some .ack })
  else (f, {})

/-- The answer to a `BYE` of ours. -/
def onByeResponse (f : SipDialogFsm) (code : UInt16) : SipDialogFsm × SipStep :=
  if code ≥ 200 then ({ f with state := .ready }, {}) else (f, {})

def onEvent (f : SipDialogFsm) (ev : SipEvent) : SipDialogFsm × SipStep :=
  match f.state, ev with
  | .ready, .localInvite =>
    ({ state := .inviting, retransmitCount := 0 }, { send := some .invite, resetTimer := true })
  | .ready, .rxInvite true =>
    ({ state := .waitAck, retransmitCount := 0 },
      { send := some .ok, media := .start, resetTimer := true })
  | .inviting, .rxResponse code => f.onInviteResponse code
  | .inviting, .timeout => f.onTimeout
  | .waitAck, .rxAck => ({ f with state := .active }, {})
  | .waitAck, .rxInvite _ => (f, { send := some .retransmit })
  | .waitAck, .timeout => f.onTimeout
  | .active, .localBye =>
    ({ state := .byeSent, retransmitCount := 0 },
      { send := some .bye, media := .stop, resetTimer := true })
  | .active, .rxBye => ({ f with state := .ready }, { send := some .byeOk, media := .stop })
  | .byeSent, .rxResponse code => f.onByeResponse code
  | .byeSent, .timeout => f.onTimeout
  | _, _ => (f, {})

end SipDialogFsm

def SipState.running : SipState → Bool
  | .waitAck | .active => true
  | _ => false

def SipState.retransmits : SipState → Bool
  | .inviting | .waitAck | .byeSent => true
  | _ => false

def SipDialogFsm.gaveUp (f : SipDialogFsm) (ev : SipEvent) : Bool :=
  f.state.retransmits && ev = .timeout && decide (f.retransmitCount ≥ SIP_MAX_RETRANSMIT)

theorem onEvent_media (f : SipDialogFsm) (ev : SipEvent)
    (h : f.state = .waitAck → f.gaveUp ev = false) :
    match (f.onEvent ev).2.media with
    | .none => (f.onEvent ev).1.state.running = f.state.running
    | .start => f.state.running = false ∧ (f.onEvent ev).1.state.running = true
    | .stop => f.state.running = true ∧ (f.onEvent ev).1.state.running = false := by
  obtain ⟨state, count⟩ := f
  cases state <;> cases ev
  case ready.rxInvite answer => cases answer <;> simp [SipDialogFsm.onEvent.eq_def, SipState.running]
  case inviting.rxResponse code =>
    simp only [SipDialogFsm.onEvent.eq_def, SipDialogFsm.onInviteResponse]
    split_ifs <;> simp [SipState.running]
  case inviting.timeout =>
    simp only [SipDialogFsm.onEvent.eq_def, SipDialogFsm.onTimeout]
    split_ifs <;> simp [SipState.running]
  case waitAck.timeout =>
    have hcount : ¬count ≥ SIP_MAX_RETRANSMIT := by
      simpa [SipDialogFsm.gaveUp, SipState.retransmits] using h rfl
    simp only [SipDialogFsm.onEvent.eq_def, SipDialogFsm.onTimeout]
    rw [if_neg hcount]
  case byeSent.rxResponse code =>
    simp only [SipDialogFsm.onEvent.eq_def, SipDialogFsm.onByeResponse]
    split_ifs <;> simp [SipState.running]
  case byeSent.timeout =>
    simp only [SipDialogFsm.onEvent.eq_def, SipDialogFsm.onTimeout]
    split_ifs <;> simp [SipState.running]
  all_goals simp [SipDialogFsm.onEvent.eq_def, SipState.running]

end Wave.Common
