import Wave.Rtp.Module

/-! # What a dropped packet leaves behind

`rx_source` finds or takes a slot of the SSRC table before the packet is authenticated. -/

namespace Wave.Rtp

open Lib Lib.Bytes Common.SrtpCore Common.RtpCore

variable {pkt : Bytes} {v : RxVerdict} {inp : RxInput}

variable {s : RtpState}

def Held (sources : List RxSsrcState) (ssrc : UInt32) : Prop :=
  ∃ r ∈ sources, r.holds ssrc = true

theorem rxSource_held {sources : List RxSsrcState} {ssrc : UInt32} (h : Held sources ssrc) :
    ∃ i, rxSource sources ssrc = some (sources, i) ∧ i < sources.length := by
  obtain ⟨r, hr, hholds⟩ := h
  cases hfind : sources.findIdx? (·.holds ssrc) with
  | none =>
    rw [List.findIdx?_eq_none_iff] at hfind
    rw [hfind r hr] at hholds
    cases hholds
  | some i =>
    refine ⟨i, by rw [rxSource, hfind], ?_⟩
    exact (List.findIdx?_eq_some_iff_findIdx_eq.mp hfind).1

theorem rxSource_taken {sources sources' : List RxSsrcState} {ssrc : UInt32} {i : Nat}
    (h : ¬ Held sources ssrc) (hsome : rxSource sources ssrc = some (sources', i)) :
    i < sources'.length ∧ sources' ≠ sources := by
  have hnone : sources.findIdx? (·.holds ssrc) = none := by
    rw [List.findIdx?_eq_none_iff]
    intro r hr
    by_contra hholds
    exact h ⟨r, hr, by simpa using hholds⟩
  unfold rxSource at hsome
  rw [hnone] at hsome
  cases hfree : sources.findIdx? (!·.valid) with
  | none => simp [hfree] at hsome
  | some j =>
    simp only [hfree, Option.some.injEq, Prod.mk.injEq] at hsome
    obtain ⟨rfl, rfl⟩ := hsome
    obtain ⟨hlt, hvalid, -⟩ := List.findIdx?_eq_some_iff_getElem.mp hfree
    have hget : (sources.set j { ssrc := ssrc, valid := true })[j]? =
        some { ssrc := ssrc, valid := true } := List.getElem?_set_self hlt
    refine ⟨by rw [length_set]; exact hlt, fun heq => ?_⟩
    rw [heq, List.getElem?_eq_getElem hlt, Option.some.injEq] at hget
    rw [hget] at hvalid
    cases hvalid

variable (sdk : SdkCrypto)

/-- The two drops of the SRTP part: authentication failed, or the window refused. -/
def RxVerdict.unauthenticated (v : RxVerdict) : Prop := v = .unauthentic ∨ v = .replayed

instance (v : RxVerdict) : Decidable v.unauthenticated := by
  unfold RxVerdict.unauthenticated; infer_instance

theorem authenticate_dropped {k : SrtpKeys} {sources sources' : List RxSsrcState} {i : Nat}
    {h : RtpHeader} (hi : i < sources.length)
    (hauth : authenticate sdk k sources i h pkt = (sources', .error v)) (hv : v.unauthenticated) :
    sources' = sources := by
  unfold authenticate at hauth
  split at hauth
  · simp at hauth
  · dsimp only at hauth
    split at hauth
    · exact (Prod.mk.inj hauth).1.symm
    · split at hauth
      · -- the refusing window is written back as it was
        rename_i hrefused
        obtain ⟨rfl, -⟩ := Prod.mk.inj hauth
        generalize hw : (sources.getD i {}).replay.accept
          (rxIndex (sources.getD i {}) h.seq) = w at hrefused ⊢
        obtain ⟨w, ok⟩ := w
        have hok : ok = false := by simpa using hrefused
        subst hok
        have hget : sources.getD i {} = sources[i] := by simp [List.getD, hi]
        rw [SrtpReplay.accept_refused hw, hget]
        exact List.set_getElem_self hi
      · split at hauth
        · obtain ⟨-, he⟩ := Prod.mk.inj hauth
          cases he
          rcases hv with h | h <;> cases h
        · simp at hauth

def frameSsrc (s : RtpState) (f : NetFrame) : Option UInt32 :=
  match frameMedia s f with
  | .error _ => none
  | .ok pkt => (rtpParse pkt).map (·.ssrc)

def KnownSource (s : RtpState) (f : NetFrame) : Prop :=
  ∃ ssrc, frameSsrc s f = some ssrc ∧ Held s.rxSources ssrc

structure Unchanged (s : RtpState) (r : RtpState × List RtpEvent × RxVerdict) : Prop where
  rxSources : r.1.rxSources = s.rxSources
  packetsReceived : r.1.packetsReceived = s.packetsReceived
  packetsLost : r.1.packetsLost = s.packetsLost
  pendingOut : r.1.pendingOut = s.pendingOut
  output : r.2.1 = []

theorem frameMedia_error {f : NetFrame} (h : frameMedia s f = .error v) : ¬ v.unauthenticated := by
  unfold frameMedia at h
  split_ifs at h
  · cases h; decide
  · cases h; decide
  · cases h; decide
  · cases h; decide
  · cases h; decide
  · dsimp only at h
    split at h
    · cases h
    · cases h; decide

theorem admitHeader_error {c : RtpConfig} (h : admitHeader c pkt = .error v) :
    ¬ v.unauthenticated := by
  unfold admitHeader at h
  split at h
  · cases h; decide
  · split_ifs at h
    cases h; decide

theorem deliver_verdict (s : RtpState) (i : Nat) (pkt : Bytes) (h : RtpHeader) (inp : RxInput) :
    ¬ (deliver s i pkt h inp).2.2.unauthenticated := by
  simp only [deliver]
  split
  · simp [RxVerdict.unauthenticated]
  · split
    · simp [RxVerdict.unauthenticated]
    · split <;> simp [RxVerdict.unauthenticated]

/-- A dropped frame carried a packet of the stream, found or took a slot, and
changed nothing but the table. -/
theorem stepRxOne_dropped (hv : (stepRxOne sdk s inp).2.2.unauthenticated) :
    ∃ pkt h sources i sources' v, frameMedia s inp.frame = .ok pkt ∧ admitHeader s.config pkt = .ok h ∧
      rxSource s.rxSources h.ssrc = some (sources, i) ∧
      authenticate sdk s.config.keys sources i h pkt = (sources', .error v) ∧ v.unauthenticated ∧
      stepRxOne sdk s inp = ({ s with rxSources := sources' }, [], v) := by
  unfold stepRxOne at hv ⊢
  cases hmedia : frameMedia s inp.frame with
  | error v =>
    rw [hmedia] at hv
    have hne := frameMedia_error hmedia
    cases v <;> exact absurd hv hne
  | ok pkt =>
    simp only [hmedia] at hv ⊢
    cases hadm : admitHeader s.config pkt with
    | error v =>
      rw [hadm] at hv
      exact absurd hv (admitHeader_error hadm)
    | ok h =>
      simp only [hadm] at hv ⊢
      cases hsource : rxSource s.rxSources h.ssrc with
      | none =>
        simp [hsource, RxVerdict.unauthenticated] at hv
      | some r =>
        obtain ⟨sources, i⟩ := r
        simp only [hsource] at hv ⊢
        cases hauth : authenticate sdk s.config.keys sources i h pkt with
        | mk sources' res =>
          simp only [hauth] at hv ⊢
          cases res with
          | error v => exact ⟨pkt, h, sources, i, sources', v, rfl, hadm, hsource, hauth, hv, rfl⟩
          | ok r => exact absurd hv (deliver_verdict _ _ _ _ _)

theorem frameSsrc_admitted {f : NetFrame} {h : RtpHeader}
    (hmedia : frameMedia s f = .ok pkt) (hadm : admitHeader s.config pkt = .ok h) :
    frameSsrc s f = some h.ssrc := by
  have hparse : rtpParse pkt = some h := by
    unfold admitHeader at hadm
    split at hadm
    · cases hadm
    · rename_i h' hp
      split_ifs at hadm
      rw [hp, Except.ok.inj hadm]
  rw [frameSsrc, hmedia]
  simp [hparse]

theorem dropped_unchanged_iff (hv : (stepRxOne sdk s inp).2.2.unauthenticated) :
    Unchanged s (stepRxOne sdk s inp) ↔ KnownSource s inp.frame := by
  obtain ⟨pkt, h, sources, i, sources', v, hmedia, hadm, hsource, hauth, hv', hstep⟩ :=
    stepRxOne_dropped sdk hv
  have hssrc := frameSsrc_admitted hmedia hadm
  by_cases hheld : Held s.rxSources h.ssrc
  · obtain ⟨j, hj, hlt⟩ := rxSource_held hheld
    rw [hj, Option.some.injEq, Prod.mk.injEq] at hsource
    obtain ⟨rfl, rfl⟩ := hsource
    obtain rfl := authenticate_dropped sdk hlt hauth hv'
    rw [hstep]
    exact ⟨fun _ => ⟨h.ssrc, hssrc, hheld⟩, fun _ => ⟨rfl, rfl, rfl, rfl, rfl⟩⟩
  · obtain ⟨hlt, hne⟩ := rxSource_taken hheld hsource
    obtain rfl := authenticate_dropped sdk hlt hauth hv'
    refine ⟨fun hsame => absurd ?_ hne, fun hknown => ?_⟩
    · have := hsame.rxSources
      rwa [hstep] at this
    · obtain ⟨ssrc, hs, hh⟩ := hknown
      rw [hssrc, Option.some.injEq] at hs
      exact absurd (hs ▸ hh) hheld

theorem stepRxOne_known (hv : (stepRxOne sdk s inp).2.2.unauthenticated) (hknown : KnownSource s inp.frame) :
    (stepRxOne sdk s inp).1 = s ∧ (stepRxOne sdk s inp).2.1 = [] := by
  have hsame := ((dropped_unchanged_iff sdk hv).mpr hknown).rxSources
  obtain ⟨_, _, _, _, sources', v, -, -, -, -, -, hstep⟩ := stepRxOne_dropped sdk hv
  rw [hstep] at hsame ⊢
  exact ⟨by rw [show sources' = s.rxSources from hsame], rfl⟩

def receiver : Machine RtpState RxInput RtpEvent where
  step s inp := ((stepRxOne sdk s inp).1, (stepRxOne sdk s inp).2.1)

/-- The datagram is dropped by authentication or by the window, and its SSRC is known. -/
def DropKnown (s : RtpState) (inp : RxInput) : Prop :=
  (stepRxOne sdk s inp).2.2.unauthenticated ∧ KnownSource s inp.frame

theorem run_dropKnown {forged : List RxInput} (hal : (receiver sdk).Along (DropKnown sdk) s forged) : (receiver sdk).run s forged = (s, []) := by
  have h := (receiver sdk).run_log_invariant (I := fun t log => t = s ∧ log = []) (l := [])
    (fun t log inp ht hdrop => by
      obtain ⟨rfl, rfl⟩ := ht
      exact stepRxOne_known sdk hdrop.1 hdrop.2)
    ⟨rfl, rfl⟩ hal
  exact Prod.ext h.1 (by simpa using h.2)

/-- **A packet dropped by authentication or the replay window leaves the receiver as it was exactly when its SSRC
already held a slot**, and after any number of such packets every later one gets what it would have got. -/
theorem dropped_packets_leave_receiver (c : RtpConfig) (peerIp : UInt32) (peerPort : UInt16)
    (peer : PeerName) (inputs : List StepInput) :
    let s := ((machine sdk).run (moduleNew c peerIp peerPort peer) inputs).1
    (∀ inp, (stepRxOne sdk s inp).2.2.unauthenticated →
      (Unchanged s (stepRxOne sdk s inp) ↔ KnownSource s inp.frame)) ∧
    (∀ forged, (receiver sdk).Along (DropKnown sdk) s forged →
      ((receiver sdk).run s forged).2 = [] ∧
        ∀ later, stepRxOne sdk ((receiver sdk).run s forged).1 later = stepRxOne sdk s later) := by
  intro s
  refine ⟨fun inp hv => dropped_unchanged_iff sdk hv, fun forged hal => ?_⟩
  rw [run_dropKnown sdk hal]
  exact ⟨rfl, fun _ => rfl⟩

/-- A one-byte RTP packet from a stranger: too short to carry an AEAD tag. -/
def forgedFrame (ssrc : UInt8) : RxInput :=
  { frame :=
      { msg := .rxFrom
        payload := [7, 4, 10, 0, 0, 9, 0x8C, 0x13] ++
          [0x80, 0, 0, 1, 0, 0, 0, 160, 0, 0, 0, ssrc] ++ [0xD5] } }

/-- The second packet of a forged SSRC finds the slot the first one took. -/
theorem dropped_packets_leave_receiver_second :
    let inputs := startInputs ++ [{ netIn := [forgedFrame 1] }]
    let reached (sdk : SdkCrypto) :=
      ((machine sdk).run (moduleNew ctrlGcmConfig 0x0A000001 5004 {}) inputs).1
    (∀ sdk, (stepRxOne sdk (reached sdk) (forgedFrame 1)).2.2.unauthenticated ∧
      KnownSource (reached sdk) (forgedFrame 1).frame) ∧
    ∀ sdk, Unchanged (reached sdk) (stepRxOne sdk (reached sdk) (forgedFrame 1)) := by
  intro inputs reached
  have hdrop (sdk : SdkCrypto) :
      (stepRxOne sdk (reached sdk) (forgedFrame 1)).2.2.unauthenticated := .inl rfl
  have hknown (sdk : SdkCrypto) : KnownSource (reached sdk) (forgedFrame 1).frame :=
    ⟨1, rfl, { ssrc := 1, valid := true }, mem_cons_self, rfl⟩
  exact ⟨fun sdk => ⟨hdrop sdk, hknown sdk⟩, fun sdk =>
    ((dropped_packets_leave_receiver sdk _ _ _ _ inputs).1 _ (hdrop sdk)).mpr (hknown sdk)⟩

/-- The started receiver with slots taken by the given SSRCs. -/
def withSlots (ssrcs : List UInt32) : RtpState :=
  { startedState with
    rxSources := ssrcs.map (fun ssrc => { ssrc, valid := true }) ++
      List.replicate (MAX_RX_SSRC - ssrcs.length) {} }

/-- A forged packet of a new SSRC is dropped and takes a slot all the same. -/
theorem forgedFrame_takes_slot (sdk : SdkCrypto) :
    stepRxOne sdk (withSlots []) (forgedFrame 1) = (withSlots [1], [], .unauthentic) ∧
      stepRxOne sdk (withSlots [1]) (forgedFrame 2) = (withSlots [1, 2], [], .unauthentic) ∧
      stepRxOne sdk (withSlots [1, 2]) (forgedFrame 3) = (withSlots [1, 2, 3], [], .unauthentic) ∧
      stepRxOne sdk (withSlots [1, 2, 3]) (forgedFrame 4) =
        (withSlots [1, 2, 3, 4], [], .unauthentic) ∧
      stepRxOne sdk (withSlots [1, 2, 3, 4]) (forgedFrame 5) =
        (withSlots [1, 2, 3, 4], [], .noSource) :=
  ⟨rfl, rfl, rfl, rfl, rfl⟩

/-- A forged packet changes the table, and after four of them a fifth SSRC is
refused, whatever the primitives are. -/
theorem forged_packets_fill_table :
    let reached (sdk : SdkCrypto) :=
      ((machine sdk).run (moduleNew ctrlGcmConfig 0x0A000001 5004 {}) startInputs).1
    (¬ ∃ sdk, (stepRxOne sdk (reached sdk) (forgedFrame 1)).2.2.unauthenticated →
      Unchanged (reached sdk) (stepRxOne sdk (reached sdk) (forgedFrame 1))) ∧
    ∀ sdk, (stepRxOne sdk ((receiver sdk).run (reached sdk)
      [forgedFrame 1, forgedFrame 2, forgedFrame 3, forgedFrame 4]).1 (forgedFrame 5)).2.2 =
        .noSource := by
  intro reached
  have hreached (sdk : SdkCrypto) : reached sdk = withSlots [] := rfl
  refine ⟨?_, fun sdk => ?_⟩
  · rintro ⟨sdk, h⟩
    rw [hreached, (forgedFrame_takes_slot sdk).1] at h
    have hsame := (h (.inl rfl)).rxSources
    revert hsame
    decide
  · obtain ⟨h1, h2, h3, h4, h5⟩ := forgedFrame_takes_slot sdk
    simp only [hreached, receiver, Machine.run_cons, Machine.run_nil, h1, h2, h3, h4, h5]

end Wave.Rtp
