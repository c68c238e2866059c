import Wave.Http.H2ClientLink

/-! # PINGs of the HTTP/2 client's origin

One buffer holds the origin's last PING and the client's own, and one flag says that an ACK is owed. -/

namespace Wave.Http.H2Client

open Lib Lib.Bytes Http.H2Wire

variable {hdr : Header}

def pings (log : List Note) : List Bytes := log.filterMap fun n => match n with | .ping data => some data | _ => none

def pingAcks (log : List Note) : List Bytes := log.filterMap fun n => match n with | .pingAck data => some data | _ => none

theorem pings_append (log log' : List Note) : pings (log ++ log') = pings log ++ pings log' := filterMap_append

theorem pingAcks_append (log log' : List Note) : pingAcks (log ++ log') = pingAcks log ++ pingAcks log' :=
  filterMap_append

namespace Link

def owedAck (l : Link) : List Bytes := if l.pingAckOwed then [l.pingOpaque] else []

/-- Every PING of the connection was answered in its turn, or is the one whose ACK is owed. -/
def Answered (l : Link) : Prop := l.client.phase ≠ .idle → pings l.log = pingAcks l.log ++ l.owedAck

def PingNext (l : Link) : Prop :=
  l.client.phase ≠ .idle ∧ l.client.phase ≠ .handshake ∧ l.client.rxInData = false ∧
    ∃ hdr, parseHeader l.client.recvBuf = some hdr ∧ hdr.ftype = FRAME_PING ∧ hdr.flags &&& FLAG_ACK = 0 ∧
      hdr.streamId = 0 ∧ hdr.length = 8 ∧ FRAME_HEADER_LEN + 8 ≤ l.client.recvBuf.length

def KeepaliveDue (l : Link) (now : UInt64) : Prop :=
  l.client.phase ≠ .idle ∧ l.stallMs ≠ 0 ∧ l.client.phase ≠ .handshake ∧
    (∃ t ∈ l.client.streams, t.state = .opened) ∧ l.pingOut = false ∧ (now - l.rxMs).toNat ≥ l.stallMs

/-- While an ACK is owed no other PING is taken, and no keepalive PING with other bytes falls due. -/
def Undisturbed (l : Link) (e : LinkEvent) : Prop :=
  l.pingAckOwed = true →
    match e with
    | .read _ _ => ¬ l.PingNext
    | .keepalive now => l.KeepaliveDue now → be64 now = l.pingOpaque
    | _ => True

structure Quiet (l l' : Link) : Prop where
  phase : l'.client.phase ≠ .idle → l.client.phase ≠ .idle
  pings : pings l'.log = pings l.log
  acks : pingAcks l'.log = pingAcks l.log
  owed : l'.owedAck = l.owedAck

section Quiet

variable {l l' l'' : Link}

theorem Quiet.refl (l : Link) : Quiet l l := ⟨id, rfl, rfl, rfl⟩

theorem Quiet.trans (h : Quiet l l') (h' : Quiet l' l'') : Quiet l l'' :=
  ⟨h.phase ∘ h'.phase, h'.pings.trans h.pings, h'.acks.trans h.acks, h'.owed.trans h.owed⟩

theorem Quiet.answered (h : Quiet l l') (hl : l.Answered) : l'.Answered := fun hup => by
  rw [h.pings, h.acks, h.owed]
  exact hl (h.phase hup)

theorem Quiet.client {c : Client} (hphase : c.phase ≠ .idle → l.client.phase ≠ .idle) :
    Quiet l { l with client := c } :=
  ⟨hphase, rfl, rfl, rfl⟩

theorem Quiet.note {ns : List Note} (hping : H2Client.pings ns = []) (hack : pingAcks ns = []) : Quiet l (l.note ns) where
  phase := id
  pings := by
    change H2Client.pings (l.log ++ ns) = _
    rw [pings_append, hping, append_nil]
  acks := by
    change pingAcks (l.log ++ ns) = _
    rw [pingAcks_append, hack, append_nil]
  owed := rfl

theorem Quiet.idle (hidle : l'.client.phase = .idle) : l'.Answered := fun hup => absurd hidle hup

end Quiet

end Link

theorem processOne_whole {E : Env} {c c' : Client} {ch : Chan} (h : processOne E c ch = .ok (some c'))
    (hrx : c.rxInData = false) (hhdr : parseHeader c.recvBuf = some hdr) (hdata : hdr.ftype ≠ FRAME_DATA) :
    FRAME_HEADER_LEN + hdr.length ≤ c.recvBuf.length ∧ (hdr.ftype ≠ FRAME_SETTINGS → c.phase ≠ .handshake) ∧
      ∃ c₁, control E c hdr ((c.recvBuf.drop FRAME_HEADER_LEN).take hdr.length) ch = .ok (some c₁) ∧
        c' = { c₁.consume (FRAME_HEADER_LEN + hdr.length) with begun := c₁.begun + 1 } := by
  unfold processOne at h
  rw [hrx, hhdr] at h
  dsimp only at h
  rw [if_neg false_ne_true, if_neg hdata] at h
  split at h
  · cases h
  split at h
  · cases h
  next hlen =>
    split at h
    · cases h
    next hphase =>
      refine ⟨Nat.not_lt.mp hlen, fun hne hhand => hphase ⟨hhand, hne⟩, ?_⟩
      split at h
      · cases h
      · cases h
      next c₁ hc₁ =>
        cases h
        exact ⟨c₁, hc₁, rfl⟩

theorem control_ping {E : Env} {c : Client} (hping : hdr.ftype = FRAME_PING) (p : Bytes) (ch : Chan) :
    control E c hdr p ch = if hdr.streamId ≠ 0 ∨ hdr.length ≠ 8 then .error .protocolError else .ok (some c) := by
  unfold control
  rw [hping, if_neg (by decide), if_neg (by decide), if_pos rfl]

namespace Link

section Read

variable {E : Env} {l : Link}

theorem received_ping (hping : hdr.ftype = FRAME_PING) (hack : hdr.flags &&& FLAG_ACK = 0) (l : Link) (p : Bytes) :
    l.received hdr p = { l with pingOpaque := p.take 8, pingAckOwed := true }.note [.ping (p.take 8)] := by
  unfold received
  rw [hping, if_neg (by decide), if_neg (by decide), if_pos rfl, if_neg (not_not.mpr hack)]

theorem quiet_about (l : Link) (sid : Nat) {n : Note} (hping : H2Client.pings [n] = []) (hack : pingAcks [n] = []) :
    H2Client.pings (l.about sid n) = [] ∧ pingAcks (l.about sid n) = [] := by
  unfold about
  split
  · exact ⟨hping, hack⟩
  · exact ⟨rfl, rfl⟩

theorem received_quiet (hother : ¬ (hdr.ftype = FRAME_PING ∧ hdr.flags &&& FLAG_ACK = 0)) (l : Link) (p : Bytes) : Quiet l (l.received hdr p) := by
  unfold received
  split
  · split
    · obtain ⟨hping, hack⟩ := quiet_about l hdr.streamId (n := .remoteEnd hdr.streamId) rfl rfl
      exact Quiet.note hping hack
    · exact Quiet.note rfl rfl
  split
  · split
    · exact ⟨id, rfl, rfl, rfl⟩
    · exact Quiet.refl l
  split
  next hping =>
    rw [if_pos fun hack => hother ⟨hping, hack⟩]
    exact ⟨id, rfl, rfl, rfl⟩
  split
  · exact Quiet.note rfl rfl
  split
  · obtain ⟨hping, hack⟩ := quiet_about l hdr.streamId (n := .rstReceived hdr.streamId) rfl rfl
    exact Quiet.note hping hack
  · exact Quiet.refl l

theorem read_quiet (h : ¬ l.PingNext) (now : UInt64) (ch : Chan) :
    (l.read E now ch).client.phase = .idle ∨ Quiet l (l.read E now ch) := by
  unfold read
  split
  · exact .inr (Quiet.refl l)
  next hup =>
    split
    · split
      · exact .inr (Quiet.refl l)
      next c hc =>
        right
        refine (Quiet.client (c := c) fun _ => hup).trans ?_
        split
        · obtain ⟨hping, hack⟩ := quiet_about l l.client.rxSid (n := .remoteEnd l.client.rxSid) rfl rfl
          exact Quiet.note hping hack
        · exact Quiet.note rfl rfl
    next hrx =>
      split
      · exact .inr (Quiet.refl l)
      next hdr hhdr =>
        dsimp only
        split
        · exact .inl rfl
        · exact .inr ⟨id, rfl, rfl, rfl⟩
        next c hc =>
          right
          have hread : Quiet l { l with rxMs := now, client := c } := ⟨fun _ => hup, rfl, rfl, rfl⟩
          split
          · exact hread
          next hdata =>
            refine hread.trans (received_quiet ?_ _ _)
            rintro ⟨hping, hack⟩
            obtain ⟨hlen, hphase, c₁, hcontrol, -⟩ :=
              processOne_whole hc (not_eq_true _ |>.mp hrx) hhdr hdata
            rw [control_ping hping] at hcontrol
            split at hcontrol
            · cases hcontrol
            next hfields =>
              obtain ⟨hsid, hlength⟩ := not_or.mp hfields
              rw [not_not.mp hlength] at hlen
              exact h ⟨hup, hphase (by rw [hping]; decide), not_eq_true _ |>.mp hrx, hdr, hhdr, hping, hack,
                not_not.mp hsid, not_not.mp hlength, hlen⟩

theorem read_ping (h : l.PingNext) (now : UInt64) (ch : Chan) :
    ∃ data, (l.read E now ch).client.phase = l.client.phase ∧ (l.read E now ch).log = l.log ++ [Note.ping data] ∧
      (l.read E now ch).owedAck = [data] := by
  obtain ⟨hup, hphase, hrx, hdr, hhdr, hping, hack, hsid, hlength, hlen⟩ := h
  have hcontrol : processOne E l.client ch =
      .ok (some { l.client.consume (FRAME_HEADER_LEN + 8) with begun := l.client.begun + 1 }) := by
    unfold processOne
    rw [hrx, hhdr]
    dsimp only
    rw [if_neg false_ne_true, if_neg (by rw [hping]; decide), hlength, if_neg (by decide), if_neg (by omega),
      if_neg fun hh => hphase hh.1, control_ping hping, if_neg (by rw [hsid, hlength]; decide)]
  refine ⟨((l.client.recvBuf.drop FRAME_HEADER_LEN).take hdr.length).take 8, ?_⟩
  unfold read
  rw [if_neg hup, hrx, if_neg false_ne_true, hhdr]
  dsimp only
  rw [hcontrol]
  dsimp only
  rw [if_neg (by rw [hping]; decide), received_ping hping hack]
  exact ⟨rfl, rfl, rfl⟩

end Read

section Keepalive

variable {l : Link}

theorem keepalive_due {now : UInt64} (h : l.KeepaliveDue now) :
    l.keepalive now = { l with pingDue := true, pingMs := now, pingOpaque := be64 now } := by
  obtain ⟨hup, hstall, hphase, hopen, hout, hlate⟩ := h
  unfold keepalive
  rw [if_neg hup, if_neg (by rintro (hs | hs | hs) <;> contradiction), hout, if_neg false_ne_true, if_pos hlate]

theorem keepalive_quiet {now : UInt64} (h : ¬ l.KeepaliveDue now) :
    (l.keepalive now).client.phase = .idle ∨ Quiet l (l.keepalive now) := by
  unfold keepalive
  split
  · exact .inr (Quiet.refl l)
  next hup =>
    split
    · exact .inr ⟨id, rfl, rfl, rfl⟩
    next hgoes =>
      obtain ⟨hstall, hrest⟩ := not_or.mp hgoes
      obtain ⟨hphase, hopen⟩ := not_or.mp hrest
      split
      · split
        · exact .inl rfl
        · exact .inr (Quiet.refl l)
      next hout =>
        split
        next hlate => exact absurd ⟨hup, hstall, hphase, not_not.mp hopen, not_eq_true _ |>.mp hout, hlate⟩ h
        · exact .inr (Quiet.refl l)

end Keepalive

section Queue

variable {l l' : Link}

theorem commit_some {need : Nat} {after : Link} (h : l.commit need after = some l') :
    l.unsent + need ≤ REQUEST_BUF_SIZE ∧ l' = { after with unsent := l.unsent + need } := by
  unfold commit at h
  split at h
  next hroom => exact ⟨of_decide_eq_true hroom, (Option.some.inj h).symm⟩
  · cases h

theorem commit_of_room {need : Nat} (h : l.unsent + need ≤ REQUEST_BUF_SIZE) (after : Link) :
    l.commit need after = some { after with unsent := l.unsent + need } := if_pos (decide_eq_true h)

theorem stages_keeps {I : Link → Prop} {fs : List Stage} (hstage : ∀ f ∈ fs, ∀ l l', f l = some l' → I l → I l')
    (hl : I l) : I (stages fs l) := by
  induction fs generalizing l with
  | nil => exact hl
  | cons f fs ih =>
    unfold stages
    split
    · exact hl
    next l' hf =>
      exact ih (fun g hg => hstage g (mem_cons_of_mem _ hg)) (hstage f mem_cons_self l l' hf hl)

theorem settingsAck_quiet (h : settingsAck l = some l') : Quiet l l' := by
  obtain ⟨-, rfl⟩ := commit_some h
  exact ⟨id, rfl, rfl, rfl⟩

theorem pingAck_answered (h : pingAck l = some l') (hl : l.Answered) : l'.Answered ∧ l'.owedAck = [] := by
  unfold pingAck at h
  cases howed : l.pingAckOwed with
  | false =>
    rw [howed] at h
    cases h
    exact ⟨hl, by rw [owedAck, howed]; rfl⟩
  | true =>
    rw [howed] at h
    obtain ⟨-, rfl⟩ := commit_some h
    refine ⟨fun hup => ?_, rfl⟩
    have hbefore := hl hup
    rw [owedAck, howed, if_pos rfl] at hbefore
    change H2Client.pings (l.log ++ [Note.pingAck l.pingOpaque]) = pingAcks (l.log ++ [Note.pingAck l.pingOpaque]) ++ []
    rw [pings_append, pingAcks_append, hbefore]
    rfl

theorem keepalivePing_quiet (h : keepalivePing l = some l') : Quiet l l' := by
  unfold keepalivePing at h
  split at h
  · cases h
    exact Quiet.refl l
  · obtain ⟨-, rfl⟩ := commit_some h
    exact ⟨id, by simp [note, H2Client.pings], by simp [note, pingAcks], rfl⟩

theorem queueRst_phase (c : Client) (i : Nat) : (c.queueRst i).phase = c.phase := by
  unfold Client.queueRst
  split <;> rfl

theorem refillConn_phase (c : Client) : c.refillConn.phase = c.phase := by
  unfold Client.refillConn
  split <;> rfl

theorem openWindow_phase (c : Client) (i : Nat) : (c.openWindow i).phase = c.phase := by
  unfold Client.openWindow
  dsimp only
  split
  · split <;> rfl
  · rfl

theorem rstStream_quiet {i : Nat} (h : rstStream i l = some l') : Quiet l l' := by
  unfold rstStream at h
  split at h
  · cases h
    exact Quiet.refl l
  · obtain ⟨-, rfl⟩ := commit_some h
    exact ⟨(queueRst_phase l.client i).symm.trans_ne, by simp [note, H2Client.pings], by simp [note, pingAcks], rfl⟩

theorem refillConn_quiet (h : refillConn l = some l') : Quiet l l' := by
  unfold refillConn at h
  split at h
  · cases h
    exact Quiet.refl l
  · obtain ⟨-, rfl⟩ := commit_some h
    exact ⟨(refillConn_phase l.client).symm.trans_ne, rfl, rfl, rfl⟩

theorem openWindow_quiet {i : Nat} (h : openWindow i l = some l') : Quiet l l' := by
  unfold openWindow at h
  dsimp only at h
  split at h
  · cases h
    exact Quiet.refl l
  · obtain ⟨-, rfl⟩ := commit_some h
    exact ⟨(openWindow_phase l.client i).symm.trans_ne, rfl, rfl, rfl⟩

def lateStages : List Stage :=
  keepalivePing :: ((List.range STREAMS).map rstStream ++ [refillConn] ++ (List.range STREAMS).map openWindow)

theorem lateStages_quiet {f : Stage} (hf : f ∈ lateStages) (h : f l = some l') : Quiet l l' := by
  rcases mem_cons.mp hf with rfl | hf
  · exact keepalivePing_quiet h
  rcases mem_append.mp hf with hf | hf
  · rcases mem_append.mp hf with hf | hf
    · obtain ⟨i, -, rfl⟩ := mem_map.mp hf
      exact rstStream_quiet h
    · rw [mem_singleton.mp hf] at h
      exact refillConn_quiet h
  · obtain ⟨i, -, rfl⟩ := mem_map.mp hf
    exact openWindow_quiet h

theorem queueControl_eq (hup : l.client.phase ≠ .idle) (hready : l.client.phase = .handshake → l.settingsAckOwed ≠ 0) :
    l.queueControl = stages (List.replicate l.settingsAckOwed settingsAck ++ pingAck :: lateStages) l := by
  unfold queueControl
  rw [if_neg (by rintro (h | h); exacts [hup h, hready h.1 h.2])]
  simp only [lateStages, append_assoc, cons_append, nil_append]

theorem queueControl_answered (hl : l.Answered) : l.queueControl.Answered := by
  by_cases hruns : l.client.phase = .idle ∨ l.client.phase = .handshake ∧ l.settingsAckOwed = 0
  · rw [queueControl, if_pos hruns]
    exact hl
  obtain ⟨hup, hready⟩ := not_or.mp hruns
  rw [queueControl_eq hup fun hphase howed => hready ⟨hphase, howed⟩]
  refine stages_keeps (fun f hf l l' h hl => ?_) hl
  rcases mem_append.mp hf with hf | hf
  · rw [eq_of_mem_replicate hf] at h
    exact (settingsAck_quiet h).answered hl
  rcases mem_cons.mp hf with rfl | hf
  · exact (pingAck_answered h hl).1
  · exact (lateStages_quiet hf h).answered hl

theorem stages_settings (n : Nat) (fs : List Stage) (hroom : l.unsent + FRAME_HEADER_LEN * n ≤ REQUEST_BUF_SIZE) :
    ∃ l', Quiet l l' ∧ l'.unsent = l.unsent + FRAME_HEADER_LEN * n ∧
      stages (List.replicate n settingsAck ++ fs) l = stages fs l' := by
  induction n generalizing l with
  | zero => exact ⟨l, Quiet.refl l, rfl, rfl⟩
  | succ n ih =>
    rw [Nat.mul_succ] at hroom
    have hack : settingsAck l = some { l with
        settingsAckOwed := l.settingsAckOwed - 1, unsent := l.unsent + FRAME_HEADER_LEN } :=
      commit_of_room (by omega) _
    obtain ⟨l', hquiet, hunsent, hrest⟩ :=
      ih (l := { l with settingsAckOwed := l.settingsAckOwed - 1, unsent := l.unsent + FRAME_HEADER_LEN })
        (by dsimp only; omega)
    refine ⟨l', (settingsAck_quiet hack).trans hquiet, by rw [hunsent, Nat.mul_succ]; dsimp only; omega, ?_⟩
    rw [List.replicate_succ, cons_append, stages, hack]
    exact hrest

theorem queueControl_answers (hl : l.Answered) (hup : l.client.phase ≠ .idle)
    (hready : l.client.phase = .handshake → l.settingsAckOwed ≠ 0)
    (hroom : l.unsent + FRAME_HEADER_LEN * l.settingsAckOwed + (FRAME_HEADER_LEN + 8) ≤ REQUEST_BUF_SIZE) :
    l.queueControl.owedAck = [] := by
  obtain ⟨l₁, hquiet, hunsent, hstages⟩ := stages_settings (l := l) l.settingsAckOwed (pingAck :: lateStages) (by omega)
  rw [queueControl_eq hup hready, hstages, stages]
  have hack : ∃ l₂, pingAck l₁ = some l₂ := by
    unfold pingAck
    split
    · exact ⟨_, rfl⟩
    · exact ⟨_, commit_of_room (by omega) _⟩
  obtain ⟨l₂, hl₂⟩ := hack
  rw [hl₂]
  exact stages_keeps (fun f hf l l' h howed => (lateStages_quiet hf h).owed.trans howed)
    (pingAck_answered hl₂ (hquiet.answered hl)).2

theorem commit_phase {need : Nat} {after : Link} (h : l.commit need after = some l')
    (hafter : after.client.phase = l.client.phase) : l'.client.phase = l.client.phase := by
  obtain ⟨-, rfl⟩ := commit_some h
  exact hafter

theorem stage_phase {f : Stage} (hf : f = settingsAck ∨ f = pingAck ∨ f ∈ lateStages) (h : f l = some l') :
    l'.client.phase = l.client.phase := by
  rcases hf with rfl | rfl | hf
  · exact commit_phase h rfl
  · unfold pingAck at h
    split at h
    · cases h
      rfl
    · exact commit_phase h rfl
  rcases mem_cons.mp hf with rfl | hf
  · unfold keepalivePing at h
    split at h
    · cases h
      rfl
    · exact commit_phase h rfl
  rcases mem_append.mp hf with hf | hf
  · rcases mem_append.mp hf with hf | hf
    · obtain ⟨i, -, rfl⟩ := mem_map.mp hf
      unfold rstStream at h
      split at h
      · cases h
        rfl
      · exact commit_phase h (queueRst_phase l.client i)
    · rw [mem_singleton.mp hf] at h
      unfold refillConn at h
      split at h
      · cases h
        rfl
      · exact commit_phase h (refillConn_phase l.client)
  · obtain ⟨i, -, rfl⟩ := mem_map.mp hf
    unfold openWindow at h
    dsimp only at h
    split at h
    · cases h
      rfl
    · exact commit_phase h (openWindow_phase l.client i)

theorem queueControl_phase (l : Link) : l.queueControl.client.phase = l.client.phase := by
  by_cases hruns : l.client.phase = .idle ∨ l.client.phase = .handshake ∧ l.settingsAckOwed = 0
  · rw [queueControl, if_pos hruns]
  obtain ⟨hup, hready⟩ := not_or.mp hruns
  rw [queueControl_eq hup fun hphase howed => hready ⟨hphase, howed⟩]
  refine stages_keeps (I := fun l' => l'.client.phase = l.client.phase) (fun f hf l₁ l₂ h hl => ?_) rfl
  refine (stage_phase ?_ h).trans hl
  rcases mem_append.mp hf with hf | hf
  · exact .inl (eq_of_mem_replicate hf)
  · exact .inr (mem_cons.mp hf)

end Queue

section Others

variable (l : Link)

theorem pump_quiet (m : BoundedBytes MAX_DATA_FRAGMENT) : Quiet l (l.pump m) := by
  unfold pump
  split
  · exact Quiet.refl l
  next h => exact Quiet.client fun _ => (not_or.mp h).1

theorem deadline_phase (c : Client) (i : Nat) : (c.deadline i).phase = c.phase := by
  unfold Client.deadline
  dsimp only
  split <;> rfl

theorem credit_phase (c : Client) (id n : Nat) : (c.credit id n).phase = c.phase := by
  unfold Client.credit
  split <;> rfl

theorem abort_phase (c : Client) (id : Nat) : (c.abort id).phase = c.phase := by
  unfold Client.abort
  split <;> rfl

theorem pumpOut_phase (c : Client) (i : Nat) (ch : Chan) : (c.pumpOut i ch).phase = c.phase := by
  unfold Client.pumpOut
  dsimp only
  split
  · rfl
  · split <;> rfl

theorem claim_quiet (offer : Option Offer) : Quiet l (l.claim offer) := by
  unfold claim
  split
  · exact Quiet.refl l
  next hguard =>
    have hup : l.client.phase ≠ .idle := by
      rw [not_not.mp (not_or.mp hguard).1]
      nofun
    split
    · exact Quiet.refl l
    split
    · exact Quiet.refl l
    split
    · exact Quiet.refl l
    next o =>
      split
      · exact (Quiet.client fun _ => hup).trans (Quiet.note rfl rfl)
      split
      · exact Quiet.client fun _ => hup
      split
      · exact Quiet.refl l
      split
      next len q _ _ =>
        have hclaimed : Quiet l { l with client := l.client.claim q, unsent := len } := ⟨fun _ => hup, rfl, rfl, rfl⟩
        refine hclaimed.trans (Quiet.note ?_ ?_) <;> split <;> rfl
      · exact Quiet.refl l

theorem sendBody_quiet : Quiet l l.sendBody := by
  unfold sendBody
  split
  · exact Quiet.refl l
  next hup =>
    dsimp only
    generalize l.client.sendBody (REQUEST_BUF_SIZE - l.unsent - FRAME_HEADER_LEN) = c
    have hstart : Quiet l { l with client := c } := Quiet.client fun _ => hup
    generalize { l with client := c } = l₁ at hstart
    generalize c.tx.drop l.client.tx.length = fs
    induction fs generalizing l₁ with
    | nil => exact hstart
    | cons f fs ih =>
      rw [foldl_cons]
      refine ih _ ?_
      split
      next sid len last =>
        have hgrown : Quiet l₁ { l₁ with unsent := l₁.unsent + FRAME_HEADER_LEN + len } := ⟨id, rfl, rfl, rfl⟩
        refine hstart.trans (hgrown.trans (Quiet.note ?_ ?_)) <;> split <;> rfl
      · exact hstart

theorem close_quiet : l.close.client.phase = .idle ∨ Quiet l l.close := by
  unfold close
  split
  · exact .inl rfl
  · exact .inr (Quiet.refl l)

theorem answered_of_quiet {l l' : Link} (h : l'.client.phase = .idle ∨ Quiet l l') (hl : l.Answered) : l'.Answered :=
  h.elim Quiet.idle fun hquiet => hquiet.answered hl

theorem turn_answered_iff {l : Link} (E : Env) (e : LinkEvent) (hl : l.Answered) :
    (l.turn E e).Answered ↔ l.Undisturbed e := by
  have hfree {l' : Link} (h : l'.client.phase = .idle ∨ Quiet l l') {P : Prop} (hP : P) : l'.Answered ↔ P :=
    iff_of_true (answered_of_quiet h hl) hP
  cases e with
  | pump m => exact hfree (.inr (pump_quiet l m)) fun _ => trivial
  | read now ch =>
    change (l.read E now ch).Answered ↔ (l.pingAckOwed = true → ¬ l.PingNext)
    by_cases hping : l.PingNext
    · obtain ⟨data, hphase, hlog, howed⟩ := read_ping (E := E) hping now ch
      have hup : (l.read E now ch).client.phase ≠ .idle := by rw [hphase]; exact hping.1
      have hbefore := hl hping.1
      rw [Answered, forall_prop_of_true hup, hlog, pings_append, pingAcks_append, howed, hbefore, owedAck]
      cases l.pingAckOwed with
      | false => exact iff_of_true (by simp [H2Client.pings, pingAcks]) nofun
      | true =>
        refine iff_of_false (fun heq => ?_) fun hnot => hnot rfl hping
        have hlen := congrArg List.length heq
        simp [H2Client.pings, pingAcks] at hlen
    · exact hfree (read_quiet hping now ch) fun _ => hping
  | deadline i =>
    exact hfree (.inr (Quiet.client (deadline_phase l.client i).symm.trans_ne)) fun _ => trivial
  | keepalive now =>
    change (l.keepalive now).Answered ↔ (l.pingAckOwed = true → l.KeepaliveDue now → be64 now = l.pingOpaque)
    by_cases hdue : l.KeepaliveDue now
    · have hbefore := hl hdue.1
      rw [keepalive_due hdue, Answered]
      change (l.client.phase ≠ .idle → H2Client.pings l.log = pingAcks l.log ++ if l.pingAckOwed then [be64 now] else []) ↔ _
      rw [forall_prop_of_true hdue.1, hbefore, List.append_cancel_left_eq, owedAck]
      cases l.pingAckOwed with
      | false => exact iff_of_true rfl nofun
      | true =>
        rw [if_pos rfl, if_pos rfl, List.singleton_inj, forall_prop_of_true rfl, forall_prop_of_true hdue]
        exact eq_comm
    · exact hfree (keepalive_quiet hdue) fun _ h => absurd h hdue
  | queueControl => exact iff_of_true (queueControl_answered hl) fun _ => trivial
  | flush gone => exact hfree (.inr ⟨id, rfl, rfl, rfl⟩) fun _ => trivial
  | claim offer => exact hfree (.inr (claim_quiet l offer)) fun _ => trivial
  | sendBody => exact hfree (.inr (sendBody_quiet l)) fun _ => trivial
  | pumpOut i ch => exact hfree (.inr (Quiet.client (pumpOut_phase l.client i ch).symm.trans_ne)) fun _ => trivial
  | close => exact hfree (close_quiet l) fun _ => trivial
  | credit id n => exact hfree (.inr (Quiet.client (credit_phase l.client id n).symm.trans_ne)) fun _ => trivial
  | abort id => exact hfree (.inr (Quiet.client (abort_phase l.client id).symm.trans_ne)) fun _ => trivial
  | lost => exact hfree (.inl rfl) fun _ => trivial
  | drain => exact hfree (.inl rfl) fun _ => trivial

end Others

/-- The PINGs are answered one by one, in order, with their own bytes, exactly when none is put over another while an
ACK is owed; and then none is left owed where there is room. -/
theorem pings_answered_iff (E : Env) (pinned : Bool) (stallMs : Nat) (authority : Bytes) (now : UInt64)
    (es : List LinkEvent) :
    ((∀ front, front <+: es → ((machine E).run (begin pinned stallMs authority now) front).1.Answered) ↔
      (machine E).Along Undisturbed (begin pinned stallMs authority now) es) ∧
    ((machine E).Along Undisturbed (begin pinned stallMs authority now) es →
      let l := ((machine E).run (begin pinned stallMs authority now) es).1
      l.client.phase ≠ .idle → (l.client.phase = .handshake → l.settingsAckOwed ≠ 0) →
        l.unsent + FRAME_HEADER_LEN * l.settingsAckOwed + (FRAME_HEADER_LEN + 8) ≤ REQUEST_BUF_SIZE →
        H2Client.pings l.queueControl.log = pingAcks l.queueControl.log) := by
  have hstart : (begin pinned stallMs authority now).Answered := fun _ => rfl
  have hiff := (machine E).run_invariant_iff (fun l e hl => turn_answered_iff E e hl) hstart es
  refine ⟨hiff, fun halong => ?_⟩
  intro l hup hready hroom
  have hl : l.Answered := hiff.mpr halong es prefix_rfl
  have hanswered := queueControl_answered hl (by rw [queueControl_phase]; exact hup)
  rw [queueControl_answers hl hup hready hroom, append_nil] at hanswered
  exact hanswered

def twoPings : Bytes :=
  head 0 FRAME_SETTINGS 0 0 ++ (head 8 FRAME_PING 0 0 ++ List.replicate 8 1) ++ (head 8 FRAME_PING 0 0 ++ List.replicate 8 2)

/-- Of two PINGs that come at once only the second is answered. -/
theorem first_ping_unanswered :
    let E : Env := { bodyMax := 1, pos := Nat.one_pos, decodeBlock := fun _ => none }
    let l := ((machine E).run (begin false 0 [] 0)
      [.pump ⟨twoPings, by decide⟩, .read 0 ⟨true, true⟩, .read 0 ⟨true, true⟩, .read 0 ⟨true, true⟩, .queueControl]).1
    l.client.phase = .ready ∧ H2Client.pings l.log = [List.replicate 8 1, List.replicate 8 2] ∧
      pingAcks l.log = [List.replicate 8 2] ∧ l.owedAck = [] := by
  decide +kernel

end Link

end Wave.Http.H2Client
