import Wave.Http.H2ClientOrigin
import Wave.Http.H2ClientPing

/-! # The limit on the HTTP/2 client's streams

A stream that is let go leaves the count at once; the origin counts it until its RST_STREAM went out. -/

namespace Wave.Http.H2Client

open Lib Lib.Bytes Http.H2Wire

variable {offer : Option Offer}

/-- The ids of the streams, and that none is opened on a connection that is to end. -/
structure Lawful (log : List Note) : Prop where
  increasing : (headersOf log).Pairwise (· < ·)
  ids : ∀ sid ∈ headersOf log, sid % 2 = 1 ∧ sid ≤ SID_MAX
  last : AtHeaders (fun before _ => .goaway ∉ before ∧ .otherAuthority ∉ before) log

/-- Every HEADERS was queued with fewer streams open for the origin than its limit. -/
def Limited : List Note → Prop := AtHeaders fun before max => (originOpen before).length < max

namespace Link

def Up (l : Link) : Prop := l.client.phase = .handshake ∨ l.client.phase = .ready

structure Onward (l l' : Link) : Prop where
  log : ∃ ns, l'.log = l.log ++ ns ∧ headersOf ns = [] ∧ (.goaway ∈ ns ∨ .otherAuthority ∈ ns → ¬ l'.Up)
  up : l'.Up → l.Up
  table : l'.Up → TableOk l.client l.log → TableOk l'.client l'.log

section Onward

variable {l l' l'' : Link}

theorem Onward.refl (l : Link) : Onward l l :=
  ⟨⟨[], (append_nil _).symm, rfl, by simp⟩, id, fun _ h => h⟩

theorem Onward.trans (h : Onward l l') (h' : Onward l' l'') : Onward l l'' := by
  obtain ⟨ns, hlog, hns, hend⟩ := h.log
  obtain ⟨ns', hlog', hns', hend'⟩ := h'.log
  refine ⟨⟨ns ++ ns', by rw [hlog', hlog, append_assoc], by rw [headersOf_append, hns, hns']; rfl, ?_⟩,
    h.up ∘ h'.up, fun hup htable => h'.table hup (h.table (h'.up hup) htable)⟩
  intro hin hup
  rw [mem_append, mem_append] at hin
  rcases hin with (hin | hin) | (hin | hin)
  · exact hend (.inl hin) (h'.up hup)
  · exact hend' (.inl hin) hup
  · exact hend (.inr hin) (h'.up hup)
  · exact hend' (.inr hin) hup

theorem Onward.down (ns : List Note) (hdown : ¬ l'.Up) (hlog : l'.log = l.log ++ ns) (hns : headersOf ns = []) :
    Onward l l' :=
  ⟨⟨ns, hlog, hns, fun _ => hdown⟩, fun hup => absurd hup hdown, fun hup => absurd hup hdown⟩

theorem Onward.notes (ns : List Note) (hlog : l'.log = l.log ++ ns) (hns : headersOf ns = [])
    (hends : .goaway ∉ ns ∧ .otherAuthority ∉ ns) (hup : l'.Up → l.Up)
    (htable : TableOk l.client l.log → TableOk l'.client (l.log ++ ns)) : Onward l l' :=
  ⟨⟨ns, hlog, hns, fun hin => (hin.elim hends.1 hends.2).elim⟩, hup, fun _ h => by rw [hlog]; exact htable h⟩

theorem Onward.client (hlog : l'.log = l.log) (hphase : l'.client.phase = l.client.phase)
    (htable : TableOk l.client l.log → TableOk l'.client l.log) : Onward l l' :=
  Onward.notes [] (by rw [hlog, append_nil]) rfl ⟨nofun, nofun⟩ (fun hup => by rwa [Up, ← hphase])
    (by rw [append_nil]; exact htable)

end Onward

section Read

variable {E : Env} {l : Link} {ch : Chan}

theorem headersOf_about (l : Link) (sid : Nat) {n : Note} (hn : n = .remoteEnd sid ∨ n = .rstReceived sid) (b : Bool) :
    headersOf (if b then l.about sid n else []) = [] ∧
      .goaway ∉ (if b then l.about sid n else []) ∧ .otherAuthority ∉ (if b then l.about sid n else []) := by
  unfold about
  split
  · split
    · rcases hn with rfl | rfl <;> exact ⟨rfl, by simp, by simp⟩
    · exact ⟨rfl, nofun, nofun⟩
  · exact ⟨rfl, nofun, nofun⟩

theorem dataBytes_onward {c : Client} (hc : dataBytes E l.client ch = some c) :
    Onward l ({ l with client := c }.note
      (if endsData l.client c then l.about l.client.rxSid (.remoteEnd l.client.rxSid) else [])) := by
  obtain ⟨hheaders, hgoaway, hother⟩ := headersOf_about l l.client.rxSid (.inl rfl) (endsData l.client c)
  refine Onward.notes _ rfl hheaders ⟨hgoaway, hother⟩ (fun hup => ?_) fun htable => ?_
  · have hphase : c.phase = l.client.phase := dataBytes_phase hc
    rwa [Up, ← hphase]
  · have hstep := dataBytes_table htable hc
    have hnext : c.nextSid = l.client.nextSid := by
      rcases hstep with ⟨hstays, -⟩ | ⟨-, i, -, hleaves⟩
      · exact hstays.nextSid
      · exact hleaves.nextSid
    unfold about
    rw [← hnext]
    refine htable.about (.inl rfl) (hstep.imp_right fun ⟨hend, i, hi, hleaves⟩ => ⟨i, _, hi, hleaves, fun hrst => ?_⟩)
    obtain ⟨hopen, hat, -⟩ := findSid_some hi
    refine ⟨hend, ?_⟩
    rw [← hat]
    refine htable.ended hopen ?_
    unfold unended at hrst
    split at hrst
    next hlocal => exact hlocal
    · cases hrst

theorem Onward.quiet {c' : Client} {l' : Link} (hclient : l'.client = c') (hlog : l'.log = l.log)
    (hphase : c'.phase = l.client.phase) (htable : TableOk l.client l.log → TableOk c' l.log) : Onward l l' := by
  subst hclient
  exact Onward.client hlog hphase htable

theorem received_headers {hdr : Header} {p : Bytes} {c c' : Client} (hc : headers E l.client hdr p ch = .ok (some c))
    (hstreams : c'.streams = c.streams) (hnext : c'.nextSid = c.nextSid) (hphase : c'.phase = c.phase) :
    Onward l ({ l with client := c' }.note
      (if hdr.endStream then { l with client := c' }.about hdr.streamId (.remoteEnd hdr.streamId) else [])) := by
  obtain ⟨hheaders, hgoaway, hother⟩ :=
    headersOf_about { l with client := c' } hdr.streamId (.inl rfl) hdr.endStream
  refine Onward.notes _ rfl hheaders ⟨hgoaway, hother⟩ (fun hup => ?_) fun htable => ?_
  · rw [Up, ← headers_phase hc, ← hphase]
    exact hup
  · have hstep := headers_table htable hc
    have htaken : TableOk c (l.log ++ if hdr.endStream then
        if hdr.streamId < c.nextSid then [Note.remoteEnd hdr.streamId] else [] else []) := by
      refine htable.about (.inl rfl)
        (hstep.imp_right fun ⟨i, rst, hi, hleaves, hrst⟩ => ⟨i, rst, hi, hleaves, fun hnone => ?_⟩)
      obtain ⟨hopen, hat, -⟩ := findSid_some hi
      obtain ⟨hend, hlocal⟩ := hrst hnone
      refine ⟨hend, ?_⟩
      rw [← hat]
      exact htable.ended hopen hlocal
    unfold about
    dsimp only
    rw [hnext]
    exact htaken.same (Stays.of_streams hstreams hnext)

theorem received_reset {sid code : Nat} {c' : Client} (hstreams : c'.streams = (resetByPeer l.client sid code).streams)
    (hnext : c'.nextSid = (resetByPeer l.client sid code).nextSid)
    (hphase : c'.phase = (resetByPeer l.client sid code).phase) :
    Onward l ({ l with client := c' }.note ({ l with client := c' }.about sid (.rstReceived sid))) := by
  obtain ⟨hheaders, hgoaway, hother⟩ := headersOf_about { l with client := c' } sid (.inr rfl) true
  refine Onward.notes _ rfl hheaders ⟨hgoaway, hother⟩ (fun hup => ?_) fun htable => ?_
  · rw [Up, ← resetByPeer_phase l.client sid code, ← hphase]
    exact hup
  · have htaken : TableOk (resetByPeer l.client sid code) (l.log ++ if true then
        if sid < (resetByPeer l.client sid code).nextSid then [Note.rstReceived sid] else [] else []) := by
      refine htable.about (.inr rfl) ((resetByPeer_table htable sid code).imp (fun ⟨hstays, hnone⟩ =>
        ⟨hstays, fun _ => hnone⟩) fun ⟨i, hi, hleaves⟩ => ⟨i, none, hi, hleaves, fun _ => ⟨rfl, .inr (.inl ?_)⟩⟩)
      exact mem_append_right _ mem_cons_self
    unfold about
    dsimp only
    rw [hnext]
    exact htaken.same (Stays.of_streams hstreams hnext)

theorem received_onward {hdr : Header} {p : Bytes} {c c' : Client} (hc : control E l.client hdr p ch = .ok (some c))
    (hstreams : c'.streams = c.streams) (hnext : c'.nextSid = c.nextSid) (hphase : c'.phase = c.phase) :
    Onward l ({ l with client := c' }.received hdr p) := by
  have hquiet (hkept : c.phase = l.client.phase) (htable : TableOk l.client l.log → TableOk c l.log) {l' : Link}
      (hclient : l'.client = c') (hlog : l'.log = l.log) : Onward l l' :=
    Onward.quiet hclient hlog (hphase.trans hkept) fun h => (htable h).same (Stays.of_streams hstreams hnext)
  unfold control at hc
  unfold received
  by_cases hheaders : hdr.ftype = FRAME_HEADERS
  · rw [if_pos hheaders] at hc ⊢
    exact received_headers hc hstreams hnext hphase
  rw [if_neg hheaders] at hc ⊢
  by_cases hsettings : hdr.ftype = FRAME_SETTINGS
  · rw [if_pos hsettings] at hc ⊢
    split at hc
    · cases hc
    split at hc
    · cases hc
      split <;> exact hquiet rfl id rfl rfl
    split at hc
    · cases hc
    split at hc
    · cases hc
    next c₁ hc₁ =>
      have hkept := settings_phase p hc₁
      cases hc
      split at hphase
      next hhandshake =>
        rw [if_pos hhandshake] at hstreams hnext
        have htaken : TableOk l.client l.log → TableOk c' l.log := fun h =>
          (settings_table p h hc₁).same (Stays.of_streams hstreams hnext)
        have hup {l' : Link} (hclient : l'.client = c') (hlog : l'.log = l.log) : Onward l l' := by
          subst hclient
          refine Onward.notes [] (by rw [hlog, append_nil]) rfl ⟨nofun, nofun⟩ (fun _ => ?_)
            (by rw [append_nil]; exact htaken)
          exact .inl (hkept.symm.trans hhandshake)
        split <;> exact hup rfl rfl
      next hhandshake =>
        rw [if_neg hhandshake] at hstreams hnext hquiet
        have htaken {l' : Link} (hclient : l'.client = c') (hlog : l'.log = l.log) : Onward l l' :=
          hquiet hkept (fun h => settings_table p h hc₁) hclient hlog
        split <;> exact htaken rfl rfl
  rw [if_neg hsettings] at hc ⊢
  by_cases hping : hdr.ftype = FRAME_PING
  · rw [if_pos hping] at hc ⊢
    split at hc
    · cases hc
    · cases hc
      split
      · exact hquiet rfl id rfl rfl
      · refine Onward.notes _ rfl rfl ⟨by simp, by simp⟩ (fun hup => ?_) fun htable =>
          htable.unrelated (Stays.of_streams hstreams hnext) rfl (by simp [Note.sid])
        rw [Up, ← hphase]
        exact hup
  rw [if_neg hping] at hc ⊢
  by_cases hgoaway : hdr.ftype = FRAME_GOAWAY
  · rw [if_pos hgoaway] at hc ⊢
    split at hc
    · cases hc
    · cases hc
      rw [goAway_phase] at hphase
      refine Onward.down _ (fun hup => ?_) rfl rfl
      have hclosing : c'.phase = .handshake ∨ c'.phase = .ready := hup
      rw [hphase] at hclosing
      exact hclosing.elim nofun nofun
  rw [if_neg hgoaway] at hc ⊢
  by_cases hwindow : hdr.ftype = FRAME_WINDOW_UPDATE
  · rw [if_pos hwindow] at hc
    rw [if_neg (by rw [hwindow]; decide)]
    split at hc
    · cases hc
    split at hc
    · cases hc
    next c₁ hc₁ =>
      cases hc
      refine hquiet (windowUpdate_phase hc₁) (fun h => ?_) rfl rfl
      rcases windowUpdate_table h hc₁ with hstays | ⟨i, code, hleaves⟩
      · exact h.same hstays
      · exact h.letGo hleaves
  rw [if_neg hwindow] at hc
  by_cases hreset : hdr.ftype = FRAME_RST_STREAM
  · rw [if_pos hreset] at hc ⊢
    split at hc
    · cases hc
    split at hc
    · cases hc
    · cases hc
      exact received_reset hstreams hnext hphase
  rw [if_neg hreset] at hc ⊢
  split at hc
  · cases hc
  · cases hc
    exact hquiet rfl id rfl rfl

theorem lost_onward (l : Link) : Onward l l.lost :=
  Onward.down [] (by rintro (h | h) <;> cases h) (append_nil _).symm rfl

theorem Onward.same {l l' : Link} (hlog : l'.log = l.log) (hphase : l'.client.phase = l.client.phase)
    (hstreams : l'.client.streams = l.client.streams) (hnext : l'.client.nextSid = l.client.nextSid) : Onward l l' :=
  Onward.client hlog hphase fun h => h.same (Stays.of_streams hstreams hnext)

theorem read_onward (now : UInt64) : Onward l (l.read E now ch) := by
  unfold read
  split
  · exact Onward.refl l
  split
  · split
    · exact Onward.refl l
    next c hc => exact dataBytes_onward hc
  next hin =>
    split
    · exact Onward.refl l
    next hdr hhdr =>
      have hclock : Onward l { l with rxMs := now } := Onward.same rfl rfl rfl rfl
      dsimp only
      split
      · exact hclock.trans (lost_onward _)
      · exact hclock
      next c hc =>
        refine hclock.trans ?_
        split
        next hdata =>
          unfold processOne at hc
          rw [not_eq_true _ |>.mp hin, hhdr] at hc
          dsimp only at hc
          rw [if_neg false_ne_true, if_pos hdata] at hc
          refine Onward.client rfl (dataHeader_phase hc) fun h => ?_
          rcases dataHeader_table h hc with hstays | ⟨i, code, hleaves⟩
          · exact h.same hstays
          · exact h.letGo hleaves
        next hdata =>
          obtain ⟨-, -, c₁, hcontrol, rfl⟩ := processOne_whole hc (not_eq_true _ |>.mp hin) hhdr hdata
          exact received_onward (l := { l with rxMs := now }) hcontrol rfl rfl rfl

end Read

/-! ### The other parts of a step -/

section Others

variable {l l' : Link}

theorem keepalive_onward (l : Link) (now : UInt64) : Onward l (l.keepalive now) := by
  unfold keepalive
  split
  · exact Onward.refl l
  split
  · exact Onward.same rfl rfl rfl rfl
  split
  · split
    · exact lost_onward l
    · exact Onward.refl l
  split
  · exact Onward.same rfl rfl rfl rfl
  · exact Onward.refl l

theorem rstStream_onward {i : Nat} (h : rstStream i l = some l') : Onward l l' := by
  unfold rstStream at h
  split at h
  · cases h
    exact Onward.refl l
  next sid code hrst =>
    obtain ⟨-, rfl⟩ := commit_some h
    refine Onward.notes [.rstQueued sid] rfl rfl ⟨by simp, by simp⟩ (fun hup => ?_) fun htable => ?_
    · rw [Up, ← queueRst_phase l.client i]
      exact hup
    · exact htable.queueRst hrst

theorem commit_onward {need : Nat} {after : Link} (h : l.commit need after = some l') (hafter : Onward l after) :
    Onward l l' := by
  obtain ⟨-, rfl⟩ := commit_some h
  exact hafter.trans (Onward.same rfl rfl rfl rfl)

theorem openWindow_stays (c : Client) (i : Nat) : Stays c (c.openWindow i) := by
  unfold Client.openWindow
  dsimp only
  split
  · split
    · exact Stays.of_streams rfl rfl
    · refine Stays.of_set ?_ rfl rfl
      exact .inl ⟨rfl, rfl, rfl, rfl⟩
  · exact Stays.of_streams rfl rfl

theorem stage_onward {f : Stage} (hf : f = settingsAck ∨ f = pingAck ∨ f ∈ lateStages) (h : f l = some l') :
    Onward l l' := by
  have hnote (n : Note) (hn : headersOf [n] = []) (hends : n ≠ .goaway ∧ n ≠ .otherAuthority) (hsid : n.sid = none)
      {after : Link} (hclient : after.client = l.client) (hlog : after.log = l.log ++ [n]) : Onward l after := by
    refine Onward.notes [n] hlog hn ⟨by simpa using hends.1.symm, by simpa using hends.2.symm⟩ (fun hup => ?_)
      fun htable => ?_
    · rw [Up, ← hclient]
      exact hup
    · rw [hclient]
      exact htable.unrelated (Stays.of_streams rfl rfl) hn (by simp [hsid])
  rcases hf with rfl | rfl | hf
  · exact commit_onward h (Onward.same rfl rfl rfl rfl)
  · unfold pingAck at h
    split at h
    · cases h
      exact Onward.refl l
    · exact commit_onward h (hnote (.pingAck l.pingOpaque) rfl ⟨nofun, nofun⟩ rfl rfl rfl)
  rcases mem_cons.mp hf with rfl | hf
  · unfold keepalivePing at h
    split at h
    · cases h
      exact Onward.refl l
    · exact commit_onward h (hnote (.keepalive l.pingOpaque) rfl ⟨nofun, nofun⟩ rfl rfl rfl)
  rcases mem_append.mp hf with hf | hf
  · rcases mem_append.mp hf with hf | hf
    · obtain ⟨i, -, rfl⟩ := mem_map.mp hf
      exact rstStream_onward h
    · rw [mem_singleton.mp hf] at h
      unfold refillConn at h
      split at h
      · cases h
        exact Onward.refl l
      · refine commit_onward h (Onward.same rfl (refillConn_phase l.client) ?_ ?_) <;> dsimp only <;>
          unfold Client.refillConn <;> split <;> rfl
  · obtain ⟨i, -, rfl⟩ := mem_map.mp hf
    unfold openWindow at h
    dsimp only at h
    split at h
    · cases h
      exact Onward.refl l
    · exact commit_onward h (Onward.client rfl (openWindow_phase l.client i) fun htable =>
        htable.same (openWindow_stays l.client i))

theorem queueControl_onward (l : Link) : Onward l l.queueControl := by
  by_cases hruns : l.client.phase = .idle ∨ l.client.phase = .handshake ∧ l.settingsAckOwed = 0
  · rw [queueControl, if_pos hruns]
    exact Onward.refl l
  obtain ⟨hup, hready⟩ := not_or.mp hruns
  rw [queueControl_eq hup fun hphase howed => hready ⟨hphase, howed⟩]
  refine stages_keeps (I := Onward l) (fun f hf l₁ l₂ h hl => hl.trans (stage_onward ?_ h)) (Onward.refl l)
  rcases mem_append.mp hf with hf | hf
  · exact .inl (eq_of_mem_replicate hf)
  · exact .inr (mem_cons.mp hf)

theorem pump_onward (l : Link) (m : BoundedBytes MAX_DATA_FRAGMENT) : Onward l (l.pump m) := by
  unfold pump
  split
  · exact Onward.refl l
  · exact Onward.same rfl rfl rfl rfl

theorem deadline_onward (l : Link) (i : Nat) : Onward l { l with client := l.client.deadline i } := by
  refine Onward.client rfl (deadline_phase l.client i) fun h => ?_
  dsimp only
  unfold Client.deadline
  dsimp only
  split
  next hopen => exact h.letGo (h.detach hopen _ _ _)
  · exact h

theorem credit_onward (l : Link) (id n : Nat) : Onward l { l with client := l.client.credit id n } := by
  refine Onward.client rfl (credit_phase l.client id n) fun h => ?_
  dsimp only
  unfold Client.credit
  split
  · exact h
  · exact h.same (Stays.setSlot (.inl ⟨rfl, rfl, rfl, rfl⟩))

theorem abort_onward (l : Link) (id : Nat) : Onward l { l with client := l.client.abort id } := by
  refine Onward.client rfl (abort_phase l.client id) fun h => ?_
  dsimp only
  unfold Client.abort
  split
  · exact h
  next i hi => exact h.letGo (h.detach (findOpen_opened hi) _ _ _)

/-- A stream that left is answered or forgotten; it is not forgotten while it owes a RST_STREAM. -/
theorem pumpOut_stays {c : Client} (hup : c.phase ≠ .idle) (i : Nat) (ch : Chan) : Stays c (c.pumpOut i ch) := by
  unfold Client.pumpOut
  dsimp only
  split
  · exact Stays.of_streams rfl rfl
  next hdone =>
    split
    · exact Stays.of_streams rfl rfl
    · refine Stays.of_set ?_ rfl rfl
      split
      next hrst =>
        refine .inr ⟨?_, hrst.resolve_right hup, nofun, rfl⟩
        rw [not_not.mp hdone]
        nofun
      · exact .inl ⟨rfl, rfl, rfl, rfl⟩

theorem pumpOut_onward (l : Link) (i : Nat) (ch : Chan) : Onward l { l with client := l.client.pumpOut i ch } := by
  have hphase := pumpOut_phase l.client i ch
  by_cases hup : l.client.phase = .idle
  · refine Onward.down [] ?_ (append_nil _).symm rfl
    rintro (h | h) <;> rw [hphase, hup] at h <;> cases h
  · exact Onward.client rfl hphase fun h => h.same (pumpOut_stays hup i ch)

theorem close_onward (l : Link) : Onward l l.close := by
  unfold close
  split
  · exact Onward.down [] (by rintro (h | h) <;> cases h) (append_nil _).symm rfl
  · exact Onward.refl l

theorem sendBody_onward (l : Link) : Onward l l.sendBody := by
  unfold sendBody
  split
  · exact Onward.refl l
  generalize REQUEST_BUF_SIZE - l.unsent - FRAME_HEADER_LEN = room
  dsimp only
  have hquiet {c : Client} {note} (htx : c.tx = l.client.tx) (hphase : c.phase = l.client.phase)
      (hstreams : c.streams = l.client.streams) (hnext : c.nextSid = l.client.nextSid) :
      Onward l ((c.tx.drop l.client.tx.length).foldl note { l with client := c }) := by
    rw [htx, drop_length]
    exact Onward.same rfl hphase hstreams hnext
  unfold Client.sendBody
  split
  · exact hquiet rfl rfl rfl rfl
  next i hi =>
    dsimp only
    split
    · exact hquiet rfl rfl rfl rfl
    next hopen =>
      split
      · exact hquiet rfl rfl rfl rfl
      next hn =>
        have hslot : (l.client.slot i).state = .opened := not_not.mp (not_or.mp hopen).1
        rw [drop_left, foldl_cons, foldl_nil]
        dsimp only
        cases hlast : decide (l.client.requestBodySent + _ = l.client.requestBodyLen) with
        | false =>
          refine Onward.client (append_nil _) rfl fun h => h.same ?_
          refine Stays.of_set ?_ rfl rfl
          exact .inl ⟨rfl, rfl, rfl, (Bool.or_false _)⟩
        | true =>
          refine Onward.notes [.localEnd (l.client.slot i).sid] rfl rfl ⟨by simp, by simp⟩ id fun h => ?_
          refine h.localEnd hslot rfl (slot_setSlot_self (lt_of_opened hslot) _) (fun j hij => slot_setSlot_ne hij _) ?_
          exact ⟨hslot, rfl, rfl, Bool.or_true _⟩

theorem claim_onward (h : ¬ l.Opens offer) : Onward l (l.claim offer) := by
  unfold claim
  split
  · exact Onward.refl l
  next hready =>
    split
    · exact Onward.refl l
    next hfree =>
      split
      · exact Onward.refl l
      next hlimit =>
        split
        · exact Onward.refl l
        next o =>
          split
          · exact Onward.down [.otherAuthority] (by rintro (h | h) <;> cases h) rfl rfl
          next hauth =>
            split
            · exact Onward.down [] (by rintro (h | h) <;> cases h) (append_nil _).symm rfl
            next hsid =>
              split
              · exact Onward.refl l
              next hunsent =>
                split
                next len q hlen hq =>
                  obtain ⟨hphase, hopening⟩ := not_or.mp hready
                  exact absurd ⟨not_not.mp hphase, not_not.mp hopening, not_not.mp hfree, Nat.not_le.mp hlimit,
                    Nat.not_lt.mp hsid, not_not.mp hunsent, o, len, q, rfl, not_not.mp hauth, hlen, hq⟩ h
                · exact Onward.refl l

theorem claim_opens (h : l.Opens offer) :
    ∃ len q, l.claim offer = { l with client := l.client.claim q, unsent := len }.note
      (.headers l.client.nextSid l.client.peerMaxStreams ::
        if q.bodyLen = 0 then [.localEnd l.client.nextSid] else []) := by
  obtain ⟨hphase, hopening, hfree, hlimit, hsid, hunsent, o, len, q, rfl, hauth, hlen, hq⟩ := h
  refine ⟨len, q, ?_⟩
  unfold claim
  rw [if_neg (by rw [hphase, hopening]; simp), if_neg (not_not.mpr hfree), if_neg (Nat.not_le.mpr hlimit)]
  dsimp only
  rw [if_neg (not_not.mpr hauth), if_neg (Nat.not_lt.mpr hsid), if_neg (not_not.mpr hunsent), hlen, hq]

theorem claim_table (h : TableOk l.client l.log) (hopens : l.Opens offer) :
    TableOk (l.claim offer).client (l.claim offer).log ∧ (l.claim offer).Up ∧
      ∃ ns, (l.claim offer).log = l.log ++ Note.headers l.client.nextSid l.client.peerMaxStreams :: ns ∧
        headersOf ns = [] ∧ .goaway ∉ ns ∧ .otherAuthority ∉ ns := by
  obtain ⟨len, q, hclaim⟩ := claim_opens hopens
  obtain ⟨hphase, hopening, ⟨t, ht, hfree⟩, hlimit, hsid, -⟩ := hopens
  obtain ⟨i, hi⟩ : ∃ i, l.client.streams.findIdx? (fun t => t.state = .free) = some i := by
    rw [← isSome_iff_exists, List.findIdx?_isSome, List.any_eq_true]
    exact ⟨t, ht, decide_eq_true hfree⟩
  obtain ⟨hlt, hat, -⟩ := List.findIdx?_eq_some_iff_getElem.mp hi
  have hslot : (l.client.slot i).state = .free := by
    rw [Client.slot, List.getD_eq_getElem _ _ hlt]
    exact of_decide_eq_true hat
  have hclient : ∃ t : Stream, (t.state = .opened ∧ t.sid = l.client.nextSid ∧ t.rst = none) ∧
      t.localEnd = decide (q.bodyLen = 0) ∧ (l.client.claim q).streams = l.client.streams.set i t ∧
      (l.client.claim q).nextSid = l.client.nextSid + 2 ∧ (l.client.claim q).phase = l.client.phase := by
    unfold Client.claim
    rw [if_neg (by rw [hphase, hopening]; simp), hi]
    dsimp only
    rw [if_neg (Nat.not_le.mpr hlimit), if_neg (Nat.not_lt.mpr hsid)]
    refine ⟨_, ⟨rfl, rfl, rfl⟩, ?_, rfl, rfl, rfl⟩
    rw [← decide_not, decide_eq_decide]
    omega
  obtain ⟨new, hnew, hend, hstreams, hnext, hkept⟩ := hclient
  rw [hclaim]
  refine ⟨?_, .inr (hkept.trans hphase), _, rfl, by split <;> rfl, by split <;> simp, by split <;> simp⟩
  have hset : ∀ j, (l.client.claim q).slot j = (l.client.setSlot i new).slot j := fun j => by
    rw [Client.slot, Client.slot, hstreams]
    rfl
  refine h.open hslot ((hset i).trans (slot_setSlot_self hlt new))
    (fun j hij => (hset j).trans (slot_setSlot_ne hij new)) hnext hnew ?_
  rw [hend]
  simp only [decide_eq_true_eq]

end Others

/-! ### Runs -/

structure LinkInv (l : Link) : Prop where
  lawful : Lawful l.log
  table : l.Up → TableOk l.client l.log
  ends : .goaway ∈ l.log ∨ .otherAuthority ∈ l.log → ¬ l.Up

/-- The streams that were let go whose RST_STREAM is owed, and which the origin has open. -/
def owing (l : Link) : Nat :=
  l.client.streams.countP fun t => t.rst.any fun owed => !decide (Closed l.log owed.1)

/-- A stream is opened only while those that are open and those whose RST_STREAM is owed are fewer than the limit. -/
def Roomy (l : Link) : LinkEvent → Prop
  | .claim offer => l.Opens offer →
    l.client.streams.countP (fun t => t.state = .opened) + l.owing < l.client.peerMaxStreams
  | _ => True

section Runs

variable {l l' : Link}

theorem LinkInv.onward (h : LinkInv l) (hstep : Onward l l') : LinkInv l' := by
  obtain ⟨ns, hlog, hns, hend⟩ := hstep.log
  refine ⟨⟨?_, ?_, ?_⟩, fun hup => hstep.table hup (h.table (hstep.up hup)), fun hin hup => ?_⟩
  · rw [hlog, headersOf_quiet hns]
    exact h.lawful.increasing
  · rw [hlog, headersOf_quiet hns]
    exact h.lawful.ids
  · rw [hlog]
    exact h.lawful.last.append hns
  · rw [hlog, mem_append, mem_append] at hin
    rcases hin with (hin | hin) | (hin | hin)
    · exact h.ends (.inl hin) (hstep.up hup)
    · exact hend (.inl hin) hup
    · exact h.ends (.inr hin) (hstep.up hup)
    · exact hend (.inr hin) hup

theorem LinkInv.claim (h : LinkInv l) (hopens : l.Opens offer) : LinkInv (l.claim offer) := by
  have hup : l.Up := .inr hopens.1
  have htable := h.table hup
  obtain ⟨hclaimed, hup', ns, hlog, hns, hgoaway, hother⟩ := claim_table htable hopens
  have hends := not_or.mp fun hin => h.ends hin hup
  have hheaders : headersOf (l.claim offer).log = headersOf l.log ++ [l.client.nextSid] := by
    rw [hlog, headersOf_append]
    exact congrArg (headersOf l.log ++ l.client.nextSid :: ·) hns
  refine ⟨⟨?_, fun sid hin => ?_, ?_⟩, fun _ => hclaimed, fun hin => ?_⟩
  · rw [hheaders, List.pairwise_append]
    refine ⟨h.lawful.increasing, List.pairwise_singleton _ _, fun sid hin s hs => ?_⟩
    rw [mem_singleton.mp hs]
    exact (htable.ids sid hin).2
  · rw [hheaders, mem_append, mem_singleton] at hin
    rcases hin with hin | rfl
    · exact h.lawful.ids sid hin
    · exact ⟨htable.next, hopens.2.2.2.2.1⟩
  · rw [hlog, AtHeaders.headers hns]
    exact ⟨h.lawful.last, hends⟩
  · rw [hlog] at hin
    simp [hends, hgoaway, hother] at hin

theorem countP_sees {log : List Note} {ts : List Stream} (hslots : ∀ t ∈ ts, SlotOk log t) :
    ts.countP (fun t => (sees log t).isSome) = ts.countP (fun t => t.state = .opened) +
      ts.countP fun t => t.rst.any fun owed => !decide (Closed log owed.1) := by
  induction ts with
  | nil => rfl
  | cons t ts ih =>
    obtain ⟨ht, hts⟩ := forall_mem_cons.mp hslots
    rw [countP_cons, countP_cons, countP_cons, ih hts]
    have hone : (if (sees log t).isSome then 1 else 0) = (if decide (t.state = .opened) then 1 else 0) +
        if t.rst.any fun owed => !decide (Closed log owed.1) then 1 else 0 := by
      by_cases hopen : t.state = .opened
      · rw [sees_opened hopen, (ht.live hopen).rst, decide_eq_true hopen]
        rfl
      · cases hrst : t.rst with
        | none =>
          rw [sees_none hopen hrst, decide_eq_false hopen]
          rfl
        | some owed =>
          rw [sees_owing hopen hrst, decide_eq_false hopen, Option.any_some]
          by_cases hclosed : Closed log owed.1 <;> simp [hclosed]
    omega

theorem LinkInv.length_originOpen (h : LinkInv l) (hup : l.Up) :
    (originOpen l.log).length = l.client.streams.countP (fun t => t.state = .opened) + l.owing := by
  have htable := h.table hup
  have hnodup : (headersOf l.log).Nodup := h.lawful.increasing.imp Nat.ne_of_lt
  rw [← (htable.perm_originOpen hnodup).length_eq, List.length_filterMap_eq_countP, owing]
  refine countP_sees fun t ht => ?_
  obtain ⟨i, hi, rfl⟩ := mem_iff_getElem.mp ht
  have hslot : l.client.slot i = l.client.streams[i] := List.getD_eq_getElem _ _ hi
  exact hslot ▸ htable.slots i

theorem turn_onward (E : Env) (l : Link) {e : LinkEvent} (hopens : ∀ offer, e = .claim offer → ¬ l.Opens offer) :
    Onward l (l.turn E e) := by
  cases e with
  | pump m => exact pump_onward l m
  | read now ch => exact read_onward now
  | deadline i => exact deadline_onward l i
  | keepalive now => exact keepalive_onward l now
  | queueControl => exact queueControl_onward l
  | flush gone => exact Onward.same rfl rfl rfl rfl
  | claim offer => exact claim_onward (hopens offer rfl)
  | sendBody => exact sendBody_onward l
  | pumpOut i ch => exact pumpOut_onward l i ch
  | close => exact close_onward l
  | credit id n => exact credit_onward l id n
  | abort id => exact abort_onward l id
  | lost => exact lost_onward l
  | drain => exact Onward.down [] (by rintro (h | h) <;> cases h) (append_nil _).symm rfl

theorem LinkInv.turn (h : LinkInv l) (E : Env) (e : LinkEvent) : LinkInv (l.turn E e) := by
  by_cases hopens : ∃ offer, e = .claim offer ∧ l.Opens offer
  · obtain ⟨offer, rfl, hopens⟩ := hopens
    exact h.claim hopens
  · exact h.onward (turn_onward E l fun offer he hop => hopens ⟨offer, he, hop⟩)

theorem turn_limited_iff (h : LinkInv l) (hlimited : Limited l.log) (E : Env) (e : LinkEvent) :
    Limited (l.turn E e).log ↔ l.Roomy e := by
  by_cases hopens : ∃ offer, e = .claim offer ∧ l.Opens offer
  · obtain ⟨offer, rfl, hopens⟩ := hopens
    have hup : l.Up := .inr hopens.1
    obtain ⟨-, -, ns, hlog, hns, -⟩ := claim_table (h.table hup) hopens
    change Limited (l.claim offer).log ↔ (l.Opens offer → _)
    rw [forall_prop_of_true hopens, ← h.length_originOpen hup, hlog, Limited, AtHeaders.headers hns]
    exact and_iff_right hlimited
  · have hnot : ∀ offer, e = .claim offer → ¬ l.Opens offer := fun offer he hop => hopens ⟨offer, he, hop⟩
    obtain ⟨ns, hlog, hns, -⟩ := (turn_onward E l hnot).log
    refine iff_of_true ?_ ?_
    · rw [hlog]
      exact hlimited.append hns
    · cases e with
      | claim offer => exact fun hop => absurd hop (hnot offer rfl)
      | _ => trivial

theorem begin_inv (pinned : Bool) (stallMs : Nat) (authority : Bytes) (now : UInt64) :
    LinkInv (begin pinned stallMs authority now) := by
  have hslot : ∀ i, (begin pinned stallMs authority now).client.slot i = {} := fun i => by
    by_cases hi : i < STREAMS
    · exact List.getD_replicate _ hi
    · exact List.getD_eq_default _ _ (by rw [begin, length_replicate]; omega)
  refine ⟨⟨List.Pairwise.nil, by simp [begin, headersOf], by simp [begin, AtHeaders]⟩, fun _ => ?_, by simp [begin]⟩
  refine ⟨rfl, by simp [begin, headersOf], by simp [begin], fun i => ?_, by simp [begin, headersOf], fun i j sid hi => ?_⟩
  · rw [hslot]
    exact ⟨nofun, nofun⟩
  · rw [hslot] at hi
    cases hi

/-- Ids are odd, increasing and at most 2^31-1, with no HEADERS behind a GOAWAY or another authority; the origin's
limit is kept exactly when `claim` counts those that owe a RST_STREAM. -/
theorem streams_limited_iff (E : Env) (pinned : Bool) (stallMs : Nat) (authority : Bytes) (now : UInt64)
    (es : List LinkEvent) :
    Lawful ((machine E).run (begin pinned stallMs authority now) es).1.log ∧
    ((∀ front, front <+: es → Limited ((machine E).run (begin pinned stallMs authority now) front).1.log) ↔
      (machine E).Along Roomy (begin pinned stallMs authority now) es) := by
  have hinv : ∀ front, LinkInv ((machine E).run (begin pinned stallMs authority now) front).1 := fun front =>
    (machine E).run_invariant (P := fun _ _ => True) (I := LinkInv) (fun l e hl _ => hl.turn E e)
      (begin_inv pinned stallMs authority now) ((machine E).along_of_forall (fun _ _ => trivial) _ front)
  refine ⟨(hinv es).lawful, ?_⟩
  have hstart : LinkInv (begin pinned stallMs authority now) ∧ Limited (begin pinned stallMs authority now).log :=
    ⟨begin_inv pinned stallMs authority now, by simp [begin, Limited, AtHeaders]⟩
  rw [← (machine E).run_invariant_iff (I := fun l => LinkInv l ∧ Limited l.log) (fun l e hl => ?_) hstart es]
  · exact ⟨fun h front hfront => ⟨hinv front, h front hfront⟩, fun h front hfront => (h front hfront).2⟩
  · exact (and_iff_right (hl.1.turn E e)).trans (turn_limited_iff hl.1 hl.2 E e)

def oneStream : Bytes := head 6 FRAME_SETTINGS 0 0 ++ [0, 3, 0, 0, 0, 1]

/-- A request with a body that fills `request_buf`, so that there is no room for a RST_STREAM. -/
def bulky (id : Nat) : Offer :=
  { authority := [], headersLen := some 100, request := some { id := id, credit := 0, bodyLen := 5000 } }

/-- The first request is aborted; its RST_STREAM waits for room, and the second stream is opened before it. -/
def overtaken : List LinkEvent :=
  [.flush PREFACE_LEN, .pump ⟨oneStream, by decide⟩, .read 0 ⟨true, true⟩, .queueControl, .flush FRAME_HEADER_LEN,
    .claim (some (bulky 1)), .flush 100, .sendBody, .abort 1, .queueControl, .flush REQUEST_BUF_SIZE, .claim (some (bulky 2))]

/-- With a limit of one the second HEADERS are queued while the first stream is still open for the origin. -/
theorem stream_over_limit :
    let E : Env := { bodyMax := 1, pos := Nat.one_pos, decodeBlock := fun _ => none }
    ¬ Limited ((machine E).run (begin false 0 [] 0) overtaken).1.log := by
  intro E hlimited
  have hlog : ((machine E).run (begin false 0 [] 0) overtaken).1.log =
      [Note.headers 1 1] ++ Note.headers 3 1 :: [] ∧ originOpen [.headers 1 1] = [1] := by
    decide +kernel
  have hlt : (originOpen [.headers 1 1]).length < 1 := hlimited _ _ _ _ hlog.1
  rw [hlog.2] at hlt
  exact absurd hlt (by decide)

end Runs

end Link

end Wave.Http.H2Client
