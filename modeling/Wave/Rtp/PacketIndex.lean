import Wave.Rtp.Module
import Mathlib.Data.List.Nodup
import Mathlib.Data.List.Range

/-! # Packet indices over whole runs

A run whose sending steps are fresh hands over the indices `0, 1, 2, …` in order (`run_calls`). -/

namespace Wave.Rtp

open Lib Lib.Bytes Common.SrtpCore Common.RtpCore Common.Turn

variable {c : RtpConfig}

variable (sdk : SdkCrypto) {s : RtpState}

def RtpState.tx (s : RtpState) : RtpConfig × UInt16 × UInt32 := (s.config, s.seqNum, s.packetsSent)

theorem RtpState.tx_eq {s t : RtpState} (h : s.tx = t.tx) :
    s.config = t.config ∧ s.seqNum = t.seqNum ∧ s.packetsSent = t.packetsSent := by
  simpa [RtpState.tx] using h

@[simp] theorem emitStat_tx (s : RtpState) (record : Bytes) (accepted : Bool) :
    (emitStat s record accepted).1.tx = s.tx := by
  unfold emitStat
  split_ifs <;> rfl

theorem deliver_tx (s : RtpState) (i : Nat) (pkt : Bytes) (h : RtpHeader) (inp : RxInput) :
    (deliver s i pkt h inp).1.tx = s.tx ∧ calls (deliver s i pkt h inp).2.1 = [] := by
  generalize hs' : ({ s with
    packetsLost := s.packetsLost + lossOf (s.rxSources.getD i {}) h.seq
    rxSources := s.rxSources.set i { s.rxSources.getD i {} with lastSeq := h.seq }
    packetsReceived := s.packetsReceived + 1 } : RtpState) = s'
  have htx : s'.tx = s.tx := by rw [← hs']; rfl
  have hstat := emitStat_tx s' (putRtcpStatRxMeta h.seq h.timestamp h.ssrc) inp.statAccepted
  have hcalls := calls_emitStat s' (putRtcpStatRxMeta h.seq h.timestamp h.ssrc) inp.statAccepted
  rw [htx] at hstat
  simp only [deliver, hs']
  split
  · exact ⟨hstat, hcalls⟩
  · split
    · exact ⟨hstat, hcalls⟩
    · split
      · exact ⟨hstat, by rw [calls_append, hcalls]; rfl⟩
      · exact ⟨hstat, hcalls⟩

theorem stepRxOne_tx (s : RtpState) (inp : RxInput) :
    (stepRxOne sdk s inp).1.tx = s.tx ∧ calls (stepRxOne sdk s inp).2.1 = [] := by
  unfold stepRxOne
  split
  · exact ⟨rfl, rfl⟩
  · exact ⟨rfl, rfl⟩
  · exact ⟨rfl, rfl⟩
  · split
    · exact ⟨rfl, rfl⟩
    · split
      · exact ⟨rfl, rfl⟩
      · split
        · exact ⟨rfl, rfl⟩
        · exact deliver_tx _ _ _ _ _

theorem drainRx_tx (budget : Nat) (s : RtpState) (netIn : List RxInput) :
    (drainRx sdk budget s netIn).1.tx = s.tx ∧ calls (drainRx sdk budget s netIn).2 = [] := by
  induction budget generalizing s netIn with
  | zero => exact ⟨rfl, rfl⟩
  | succ budget ih =>
    cases netIn with
    | nil => exact ⟨rfl, rfl⟩
    | cons inp rest =>
      obtain ⟨htx, hcalls⟩ := stepRxOne_tx sdk s inp
      simp only [drainRx]
      split
      · exact ⟨htx, hcalls⟩
      · obtain ⟨hrest, hrestCalls⟩ := ih (stepRxOne sdk s inp).1 rest
        exact ⟨hrest.trans htx, by rw [calls_append, hcalls, hrestCalls]; rfl⟩

theorem stepRx_tx (s : RtpState) (retry : Bool) (netIn : List RxInput) :
    (stepRx sdk s retry netIn).1.tx = s.tx ∧ calls (stepRx sdk s retry netIn).2 = [] := by
  have hdrain : ∀ t : RtpState, (stepRx.drain sdk t netIn).1.tx = t.tx ∧
      calls (stepRx.drain sdk t netIn).2 = [] := by
    intro t
    unfold stepRx.drain
    split
    · exact ⟨rfl, rfl⟩
    · exact drainRx_tx sdk _ t netIn
  unfold stepRx
  split
  · split
    · exact ⟨rfl, rfl⟩
    · exact hdrain _
  · exact hdrain s

/-- The step transmits: the module runs and the step finds no `STOP`. -/
def Transmits (s : RtpState) (inp : StepInput) : Prop :=
  s.phase = .running ∧ ¬ (s.config.ctrlMode = true ∧ inp.ctrl.map decodeCtrl = some .stop)

instance (s : RtpState) (inp : StepInput) : Decidable (Transmits s inp) := by
  unfold Transmits; infer_instance

structure Quiet (s : RtpState) (r : RtpState × List RtpEvent) : Prop where
  calls : calls r.2 = []
  config : r.1.config = s.config
  packetsSent : r.1.packetsSent = s.packetsSent

theorem stepIdle_quiet (s : RtpState) (ctrl : Option (FixedBytes 8)) :
    Quiet s (stepIdle s ctrl) := by
  unfold stepIdle
  cases ctrl.map decodeCtrl with
  | none => exact ⟨rfl, rfl, rfl⟩
  | some msg =>
    cases msg with
    | setEndpoint port addr => exact ⟨rfl, rfl, rfl⟩
    | start =>
      dsimp only
      split_ifs <;> exact ⟨rfl, rfl, rfl⟩
    | stop => exact ⟨rfl, rfl, rfl⟩
    | other => exact ⟨rfl, rfl, rfl⟩

theorem stepInit_quiet (s : RtpState) (bindWritten : Bool) : Quiet s (stepInit s bindWritten) := by
  unfold stepInit
  split_ifs <;> exact ⟨rfl, rfl, rfl⟩

theorem stepBindWait_quiet (s : RtpState) (netIn : List RxInput) :
    Quiet s (stepBindWait s netIn) := by
  unfold stepBindWait
  split
  · split
    · exact ⟨rfl, rfl, rfl⟩
    · split_ifs <;> exact ⟨rfl, rfl, rfl⟩
    · exact ⟨rfl, rfl, rfl⟩
  · exact ⟨rfl, rfl, rfl⟩

theorem closeConnection_quiet (s : RtpState) : Quiet s (closeConnection s) := by
  refine ⟨?_, rfl, rfl⟩
  unfold closeConnection
  dsimp only
  split_ifs <;> rfl

theorem stepMedia_tx (s : RtpState) (inp : StepInput) :
    (stepMedia sdk s inp).1.tx = (stepTx sdk s inp.media).1.tx ∧
      calls (stepMedia sdk s inp).2 = calls (stepTx sdk s inp.media).2 := by
  obtain ⟨htx, hcalls⟩ := stepRx_tx sdk (stepTx sdk s inp.media).1 inp.retryAccepted inp.netIn
  exact ⟨htx, by rw [stepMedia, calls_append, hcalls, append_nil]⟩

theorem moduleStep_cases (s : RtpState) (inp : StepInput) :
    Quiet s (moduleStep sdk s inp) ∨
    (Transmits s inp ∧ ∃ t : RtpState, t.tx = s.tx ∧
      (moduleStep sdk s inp).1.tx = (stepTx sdk t inp.media).1.tx ∧
      calls (moduleStep sdk s inp).2 = calls (stepTx sdk t inp.media).2) := by
  cases hphase : s.phase with
  | idle => exact .inl (by rw [moduleStep, hphase]; exact stepIdle_quiet s inp.ctrl)
  | init => exact .inl (by rw [moduleStep, hphase]; exact stepInit_quiet s inp.bindWritten)
  | bindWait => exact .inl (by rw [moduleStep, hphase]; exact stepBindWait_quiet s inp.netIn)
  | error => exact .inl (by rw [moduleStep, hphase]; exact ⟨rfl, rfl, rfl⟩)
  | running =>
    rw [show moduleStep sdk s inp = stepRunning sdk s inp by rw [moduleStep, hphase]]
    have htransmit (h : (if s.config.ctrlMode = true then inp.ctrl.map decodeCtrl else none) ≠
        some .stop) : Transmits s inp := by
      refine ⟨hphase, fun hstop => h ?_⟩
      rw [if_pos hstop.1, hstop.2]
    unfold stepRunning
    cases hmsg : (if s.config.ctrlMode = true then inp.ctrl.map decodeCtrl else none) with
    | none => exact .inr ⟨htransmit (by simp [hmsg]), s, rfl, stepMedia_tx sdk s inp⟩
    | some msg =>
      cases msg with
      | stop => exact .inl ⟨(closeConnection_quiet s).calls, rfl, rfl⟩
      | setEndpoint port addr =>
        exact .inr ⟨htransmit (by simp [hmsg]), setEndpoint s port addr, rfl,
          stepMedia_tx sdk _ inp⟩
      | start => exact .inr ⟨htransmit (by simp [hmsg]), s, rfl, stepMedia_tx sdk s inp⟩
      | other => exact .inr ⟨htransmit (by simp [hmsg]), s, rfl, stepMedia_tx sdk s inp⟩

/-- The packets of a step that `send_rtp_packet` takes. -/
def sendables (media : List TxPacket) : List TxPacket :=
  media.filter fun p => decide (Sendable p.payload)

/-- The sequence was not set back, does not wrap, and advances with each packet. -/
def IndexFresh (s : RtpState) (inp : StepInput) : Prop :=
  s.config.keys.complete = true → Transmits s inp → sendables inp.media ≠ [] →
    s.seqNum.toNat = s.packetsSent.toNat ∧
      s.packetsSent.toNat + (sendables inp.media).length ≤ 65536 ∧
      ∀ p ∈ sendables inp.media, EnvelopeFits s.config p.payload.length

instance (s : RtpState) (inp : StepInput) : Decidable (IndexFresh s inp) := by
  unfold IndexFresh; infer_instance

def callAt (c : RtpConfig) (n : Nat) : ProtectCall :=
  { keys := c.keys, ssrc := c.ssrc, index := UInt64.ofNat n }

theorem sendTx_fresh {p : TxPacket} (hk : s.config.keys.complete = true)
    (hp : Sendable p.payload) (hfit : EnvelopeFits s.config p.payload.length)
    (hseq : s.seqNum.toNat = s.packetsSent.toNat) (hlt : s.packetsSent.toNat < 65536) :
    (sendTx sdk s p).1.config = s.config ∧
      (sendTx sdk s p).1.packetsSent.toNat = s.packetsSent.toNat + 1 ∧
      (s.packetsSent.toNat + 1 < 65536 →
        (sendTx sdk s p).1.seqNum.toNat = s.packetsSent.toNat + 1) ∧
      calls (sendTx sdk s p).2 = [callAt s.config s.packetsSent.toNat] := by
  generalize hs' : ({ s with timestamp := p.timestamp, txMarker := p.marker } : RtpState) = s'
  have htx : s'.tx = s.tx := by rw [← hs']; rfl
  obtain ⟨hc, hsq, hps⟩ := RtpState.tx_eq htx
  have hstep := sendRtpPacket_cases sdk s' p.payload p.statAccepted
  simp only [sendTx, hs']
  rcases hstep with ⟨h, -⟩ | ⟨-, h, -⟩ | ⟨-, -, e, he⟩
  · exact absurd hp h
  · rw [hc] at h; exact absurd hfit h
  · have hadv : (advanceAfterSend s' p.payload.length p.statAccepted).1.tx =
        (s.config, s.seqNum + 1, s.packetsSent + 1) := by
      rw [advanceAfterSend, emitStat_tx, ← hc, ← hsq, ← hps]
      rfl
    simp only [RtpState.tx, Prod.mk.injEq] at hadv
    rw [he]
    refine ⟨hadv.1, ?_, ?_, ?_⟩
    · rw [hadv.2.2, UInt32.toNat_add]
      change (s.packetsSent.toNat + 1) % 4294967296 = _
      omega
    · intro hlt'
      rw [hadv.2.1, UInt16.toNat_add]
      change (s.seqNum.toNat + 1) % 65536 = _
      omega
    · have hidx : s.seqNum.toUInt64 = UInt64.ofNat s.packetsSent.toNat := by
        apply UInt64.toNat.inj
        rw [UInt16.toNat_toUInt64, UInt64.toNat_ofNat', hseq]
        omega
      simp only [calls_append, calls_offerDatagram, append_nil, advanceAfterSend,
        calls_emitStat, calls_protectCalls, hc, hk, if_true]
      simp [callOf, callAt, hc, hsq, hidx]

theorem sendTx_ignored {p : TxPacket} (hp : ¬ Sendable p.payload) :
    (sendTx sdk s p).1.tx = s.tx ∧ calls (sendTx sdk s p).2 = [] := by
  rcases sendRtpPacket_cases sdk { s with timestamp := p.timestamp, txMarker := p.marker } p.payload
    p.statAccepted with ⟨-, h⟩ | ⟨h, -⟩ | ⟨h, -⟩
  · rw [sendTx, h]; exact ⟨rfl, rfl⟩
  · exact absurd h hp
  · exact absurd h hp

theorem stepTx_fresh (media : List TxPacket) (hk : s.config.keys.complete = true)
    (hseq : sendables media ≠ [] → s.seqNum.toNat = s.packetsSent.toNat)
    (hmax : s.packetsSent.toNat + (sendables media).length ≤ 65536)
    (hfit : ∀ p ∈ sendables media, EnvelopeFits s.config p.payload.length) :
    (stepTx sdk s media).1.config = s.config ∧
      (stepTx sdk s media).1.packetsSent.toNat =
        s.packetsSent.toNat + (sendables media).length ∧
      calls (stepTx sdk s media).2 =
        (List.range' s.packetsSent.toNat (sendables media).length).map (callAt s.config) := by
  induction media generalizing s with
  | nil => exact ⟨rfl, rfl, rfl⟩
  | cons p ps ih =>
    by_cases hp : Sendable p.payload
    · have hcons : sendables (p :: ps) = p :: sendables ps := by simp [sendables, hp]
      rw [hcons] at hseq hmax hfit ⊢
      simp only [length_cons] at hmax ⊢
      obtain ⟨hc, hcount, hnext, hcalls⟩ := sendTx_fresh sdk hk hp (hfit p (by simp))
        (hseq (by simp)) (by omega)
      have hrest := @ih (sendTx sdk s p).1 (by rw [hc]; exact hk)
        (fun hne => by
          have := length_pos_iff.mpr hne
          rw [hnext (by omega), hcount])
        (by omega) (fun q hq => by rw [hc]; exact hfit q (by simp [hq]))
      obtain ⟨hc', hcount', hcalls'⟩ := hrest
      refine ⟨hc'.trans hc, by rw [stepTx, hcount', hcount]; omega, ?_⟩
      rw [stepTx, calls_append, hcalls, hcalls', hc, hcount, List.range'_succ, map_cons,
        singleton_append]
    · have hcons : sendables (p :: ps) = sendables ps := by simp [sendables, hp]
      rw [hcons] at hseq hmax hfit ⊢
      obtain ⟨htx, hcalls⟩ := sendTx_ignored sdk (s := s) hp
      obtain ⟨hc, hsq, hps⟩ := RtpState.tx_eq htx
      obtain ⟨hc', hcount', hcalls'⟩ := @ih (sendTx sdk s p).1 (by rw [hc]; exact hk)
        (fun hne => by rw [hsq, hps]; exact hseq hne) (by rw [hps]; exact hmax)
        (fun q hq => by rw [hc]; exact hfit q hq)
      refine ⟨hc'.trans hc, by rw [stepTx, hcount', hps], ?_⟩
      rw [stepTx, calls_append, hcalls, hcalls', hc, hps, nil_append]

/-- The hand-overs so far are the indices below the packet count, in order. -/
structure IndexInv (c : RtpConfig) (s : RtpState) (log : List RtpEvent) : Prop where
  config : s.config = c
  bound : s.packetsSent.toNat ≤ 65536
  history : calls log = (List.range s.packetsSent.toNat).map (callAt c)

theorem moduleStep_indexInv (hk : c.keys.complete = true) (s : RtpState)
    (log : List RtpEvent) (inp : StepInput) (h : IndexInv c s log) (hfresh : IndexFresh s inp) :
    IndexInv c (moduleStep sdk s inp).1 (log ++ (moduleStep sdk s inp).2) := by
  obtain ⟨hc, hbound, hhist⟩ := h
  rcases moduleStep_cases sdk s inp with ⟨hcalls, hc', hps⟩ | ⟨htr, t, ht, htx, hcalls⟩
  · exact ⟨hc'.trans hc, by rw [hps]; exact hbound,
      by rw [calls_append, hcalls, append_nil, hps, hhist]⟩
  · obtain ⟨htc, htsq, htps⟩ := RtpState.tx_eq ht
    have hkt : t.config.keys.complete = true := by rw [htc, hc]; exact hk
    have hcond := hfresh (by rw [hc]; exact hk) htr
    have hmax : t.packetsSent.toNat + (sendables inp.media).length ≤ 65536 := by
      rw [htps]
      by_cases hne : sendables inp.media = []
      · rw [hne]; exact hbound
      · exact (hcond hne).2.1
    obtain ⟨hc', hcount, hcalls'⟩ := stepTx_fresh sdk inp.media hkt
      (fun hne => by rw [htsq, htps]; exact (hcond hne).1) hmax
      (fun p hp => by rw [htc]; exact (hcond (List.ne_nil_of_mem hp)).2.2 p hp)
    obtain ⟨hc'', -, hps'⟩ := RtpState.tx_eq htx
    refine ⟨by rw [hc'', hc', htc, hc], by rw [hps', hcount]; exact hmax, ?_⟩
    rw [calls_append, hhist, hcalls, hcalls', hps', hcount, htc, hc, htps, ← map_append,
      List.range_eq_range', List.range_eq_range', ← List.range'_append_1, Nat.zero_add]

theorem stepTx_incomplete (media : List TxPacket) (hk : s.config.keys.complete = false) :
    (stepTx sdk s media).1.config = s.config ∧ calls (stepTx sdk s media).2 = [] := by
  induction media generalizing s with
  | nil => exact ⟨rfl, rfl⟩
  | cons p ps ih =>
    have hsend : (sendTx sdk s p).1.config = s.config ∧ calls (sendTx sdk s p).2 = [] := by
      have hnone : calls (protectCalls { s with timestamp := p.timestamp, txMarker := p.marker }) =
          [] := by
        rw [calls_protectCalls, hk]; rfl
      rcases sendRtpPacket_cases sdk { s with timestamp := p.timestamp, txMarker := p.marker }
        p.payload p.statAccepted with ⟨-, h⟩ | ⟨-, -, h⟩ | ⟨-, -, e, h⟩
      · rw [sendTx, h]; exact ⟨rfl, rfl⟩
      · rw [sendTx, h]; exact ⟨rfl, hnone⟩
      · rw [sendTx, h]
        refine ⟨(RtpState.tx_eq (emitStat_tx ..)).1, ?_⟩
        simp only [calls_append, hnone, calls_offerDatagram, advanceAfterSend, calls_emitStat,
          append_nil]
    obtain ⟨hc', hcalls'⟩ := @ih (sendTx sdk s p).1 (by rw [hsend.1]; exact hk)
    exact ⟨hc'.trans hsend.1, by rw [stepTx, calls_append, hsend.2, hcalls']; rfl⟩

theorem run_calls_incomplete (hk : s.config.keys.complete = false) (inputs : List StepInput) : calls ((machine sdk).run s inputs).2 = [] := by
  have h := (machine sdk).run_log_invariant (P := fun _ _ => True) (l := [])
    (I := fun t log => t.config = s.config ∧ calls log = []) (s := s) (fun t log inp ht _ => by
      rcases moduleStep_cases sdk t inp with ⟨hcalls, hc, -⟩ | ⟨-, u, hu, htx, hcalls⟩
      · exact ⟨hc.trans ht.1, by rw [calls_append, ht.2]; exact hcalls⟩
      · have huc := (RtpState.tx_eq hu).1
        have hinc := stepTx_incomplete sdk inp.media (s := u) (by rw [huc, ht.1]; exact hk)
        refine ⟨((RtpState.tx_eq htx).1.trans hinc.1).trans (huc.trans ht.1), ?_⟩
        rw [calls_append, ht.2]
        exact hcalls.trans hinc.2)
    ⟨rfl, rfl⟩ ((machine sdk).along_of_forall (fun _ _ => trivial) s inputs)
  exact h.2

/-- Over a run whose transmitting steps are all fresh the hand-overs are the
indices `0, 1, 2, …`. -/
theorem run_calls (hk : s.config.keys.complete = true) (h0 : s.packetsSent = 0)
    {inputs : List StepInput} (hal : (machine sdk).Along IndexFresh s inputs) :
    ∃ n ≤ 65536, calls ((machine sdk).run s inputs).2 = (List.range n).map (callAt s.config) := by
  have h := (machine sdk).run_log_invariant (I := IndexInv s.config) (l := []) (s := s)
    (fun t log inp ht hf => moduleStep_indexInv sdk hk t log inp ht hf)
    ⟨rfl, by rw [h0]; decide, by rw [h0]; rfl⟩ hal
  exact ⟨_, h.bound, h.history⟩

theorem callAt_indices_nodup {n : Nat} (hn : n ≤ 65536) :
    (((List.range n).map (callAt c)).map (·.index)).Nodup := by
  rw [map_map]
  refine List.Nodup.map_on ?_ List.nodup_range
  intro i hi j hj hij
  have hidx := congrArg UInt64.toNat hij
  simp only [mem_range, Function.comp_apply, callAt, UInt64.toNat_ofNat'] at hi hj hidx
  omega

theorem callAt_nonces_nodup {n : Nat} (hn : n ≤ 65536) :
    (((List.range n).map (callAt c)).map
      fun call => gcmNonce call.keys.srtpSalt.1 call.ssrc call.index).Nodup := by
  rw [map_map]
  refine List.Nodup.map_on ?_ List.nodup_range
  intro i hi j hj hij
  have hseq := congrArg UInt16.toNat (gcmNonce_seq c.keys.srtpSalt.2 hij)
  simp only [mem_range, callAt, UInt64.toNat_toUInt16, UInt64.toNat_ofNat'] at hi hj hseq
  omega

/-- **Over every run from a new module whose transmitting steps are fresh, no two packets handed to the SRTP core
carry the same index**, under one configuration, and no nonce is built twice. -/
theorem packet_indices_distinct (c : RtpConfig) (peerIp : UInt32) (peerPort : UInt16)
    (peer : PeerName) (inputs : List StepInput)
    (hal : (machine sdk).Along IndexFresh (moduleNew c peerIp peerPort peer) inputs) :
    let handed := calls ((machine sdk).run (moduleNew c peerIp peerPort peer) inputs).2
    (handed.map (·.index)).Nodup ∧
      (handed.map fun call => gcmNonce call.keys.srtpSalt.1 call.ssrc call.index).Nodup ∧
      ∀ call ∈ handed, call.keys = c.keys ∧ call.ssrc = c.ssrc := by
  intro handed
  cases hk : c.keys.complete with
  | false =>
    have hnone : handed = [] := run_calls_incomplete sdk (s := moduleNew c peerIp peerPort peer) hk inputs
    simp [hnone]
  | true =>
    obtain ⟨n, hn, hcalls⟩ := run_calls sdk (s := moduleNew c peerIp peerPort peer) hk rfl hal
    have hhanded : handed = (List.range n).map (callAt c) := hcalls
    rw [hhanded]
    refine ⟨callAt_indices_nodup hn, callAt_nonces_nodup hn, ?_⟩
    intro call hcall
    obtain ⟨i, -, rfl⟩ := mem_map.mp hcall
    exact ⟨rfl, rfl⟩

def sendInput (payload : Bytes) : StepInput :=
  { media := [{ timestamp := 160, marker := false, payload }] }

theorem stepRx_quiet (hpend : s.pendingOut = none) (retry : Bool) :
    stepRx sdk s retry [] = (s, []) := by
  have hdrain : stepRx.drain sdk s [] = (s, []) := by
    unfold stepRx.drain
    split <;> rfl
  unfold stepRx
  split
  · rename_i h
    rw [hpend] at h
    cases h
  · exact hdrain

theorem moduleStep_send (payload : Bytes) (hphase : s.phase = .running)
    (hidle : s.pendingOut = none ∧ s.config.statsWired = false) (hk : s.config.keys.complete = true)
    (hrelay : s.config.turnRelayIp = 0) (hp : Sendable payload) :
    ∃ events, moduleStep sdk s (sendInput payload) =
        ({ s with
            timestamp := 160, txMarker := false, seqNum := s.seqNum + 1
            packetsSent := s.packetsSent + 1
            octetsSent := s.octetsSent + UInt32.ofNat payload.length }, events) ∧
      calls events = [callOf s] := by
  have hfit : EnvelopeFits s.config payload.length := fun h => absurd hrelay h
  obtain ⟨hpend, hstats⟩ := hidle
  rcases sendRtpPacket_cases sdk { s with timestamp := 160, txMarker := false } payload true with
    ⟨h, -⟩ | ⟨-, h, -⟩ | ⟨-, -, e, he⟩
  · exact absurd hp h
  · exact absurd hfit h
  · have htx : stepTx sdk s (sendInput payload).media =
        ({ s with
            timestamp := 160, txMarker := false, seqNum := s.seqNum + 1
            packetsSent := s.packetsSent + 1
            octetsSent := s.octetsSent + UInt32.ofNat payload.length },
          protectCalls { s with timestamp := 160, txMarker := false } ++
            offerDatagram { s with timestamp := 160, txMarker := false } e) := by
      simp only [sendInput, stepTx, sendTx, he, advanceAfterSend, emitStat, hstats, Bool.not_false,
        if_true, append_nil]
    have hctrl : (if s.config.ctrlMode = true then ((sendInput payload).ctrl.map decodeCtrl) else
        none) = none := by
      split_ifs <;> rfl
    refine ⟨protectCalls { s with timestamp := 160, txMarker := false } ++
      offerDatagram { s with timestamp := 160, txMarker := false } e, ?_, ?_⟩
    · have hrx : (sendInput payload).netIn = [] := rfl
      simp only [moduleStep, hphase, stepRunning, hctrl, stepMedia, htx, hrx]
      rw [stepRx_quiet sdk (by exact hpend), append_nil]
    · rw [calls_append, calls_offerDatagram, calls_protectCalls]
      simp [callOf, hk]

/-- A start and two packets: indices zero and one, whatever the primitives are. -/
theorem packet_indices_distinct_two_sends :
    let inputs := startInputs ++ [sendInput [1], sendInput [2]]
    let start := moduleNew ctrlGcmConfig 0x0A000001 5004 {}
    (∀ sdk : SdkCrypto, (machine sdk).Along IndexFresh start inputs) ∧
      ∀ sdk : SdkCrypto, ((calls ((machine sdk).run start inputs).2).map (·.index)).Nodup := by
  intro inputs start
  have hal (sdk : SdkCrypto) : (machine sdk).Along IndexFresh start inputs := by
    obtain ⟨_, hsend, -⟩ := moduleStep_send sdk (s := startedState) [1] rfl ⟨rfl, rfl⟩
      rfl rfl (by decide)
    rw [Machine.along_append, startInputs_run]
    refine ⟨⟨?_, ?_, ?_, trivial⟩, ?_, ?_⟩
    · exact of_decide_eq_true rfl
    · exact of_decide_eq_true rfl
    · exact of_decide_eq_true rfl
    · decide
    · change (machine sdk).Along IndexFresh (moduleStep sdk startedState (sendInput [1])).1 _
      rw [hsend]
      exact ⟨of_decide_eq_true rfl, trivial⟩
  exact ⟨hal, fun sdk => (packet_indices_distinct sdk _ _ _ _ inputs (hal sdk)).1⟩

/-- A packet, `STOP`, a restart and another packet: index zero goes out twice under one key. -/
theorem stop_restart_reuses_index :
    ¬ ∃ sdk : SdkCrypto, ((calls ((machine sdk).run (moduleNew ctrlGcmConfig 0x0A000001 5004 {})
      (startInputs ++ (sendInput [1] :: ctrlMessage 0x03 :: (startInputs ++ [sendInput [2]])))).2).map
        (·.index)).Nodup := by
  rintro ⟨sdk, h⟩
  obtain ⟨ev1, hsend1, hcalls1⟩ := moduleStep_send sdk (s := startedState) [1] rfl
    ⟨rfl, rfl⟩ rfl rfl (by decide)
  obtain ⟨ev2, hsend2, hcalls2⟩ := moduleStep_send sdk
    (s := { startedState with packetsSent := 1, octetsSent := 1 }) [2] rfl
    ⟨rfl, rfl⟩ rfl rfl (by decide)
  have hstep1 : (machine sdk).step startedState (sendInput [1]) =
      ({ startedState with timestamp := 160, txMarker := false, seqNum := 1, packetsSent := 1
                           octetsSent := 1 }, ev1) := hsend1
  have hstep2 : (machine sdk).step { startedState with packetsSent := 1, octetsSent := 1 }
      (sendInput [2]) = ({ startedState with timestamp := 160, txMarker := false, seqNum := 1
                                             packetsSent := 2, octetsSent := 2 }, ev2) := hsend2
  -- the restart lands in the state of the first packet, but for the packet counters
  have hrestart : (machine sdk).run
      { startedState with timestamp := 160, txMarker := false, seqNum := 1, packetsSent := 1
                          octetsSent := 1 } (ctrlMessage 0x03 :: startInputs) =
      ({ startedState with packetsSent := 1, octetsSent := 1 }, [.closeEndpoint 7, .bind 5004]) := rfl
  have hlog : (calls ((machine sdk).run (moduleNew ctrlGcmConfig 0x0A000001 5004 {})
      (startInputs ++ (sendInput [1] :: ctrlMessage 0x03 :: (startInputs ++ [sendInput [2]])))).2).map
        (·.index) = [0, 0] := by
    rw [Machine.run_append, startInputs_run]
    dsimp only
    rw [Machine.run_cons, hstep1]
    dsimp only
    rw [← cons_append, Machine.run_append, hrestart]
    dsimp only
    rw [Machine.run_cons, hstep2, Machine.run_nil]
    simp only [calls_append, hcalls1, hcalls2]
    rfl
  rw [hlog] at h
  simp at h

end Wave.Rtp
