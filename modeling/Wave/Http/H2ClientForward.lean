import Wave.Http.H2ClientBody

/-! # Bodies that the HTTP/2 client forwards

`client_forwards` follows an origin's bytes through the client, cut into messages and held up anywhere. -/

namespace Wave.Http.H2Client

open Lib Http.H2Wire

section Whole

variable {frames : List Frame} {all : List (BoundedBytes MAX_DATA_FRAGMENT)} {s : Session} {E : Env}

theorem slot_start (pinned : Bool) (messages : List (BoundedBytes MAX_DATA_FRAGMENT)) (i : Nat) :
    (start pinned messages).client.slot i = {} := by
  change (List.replicate STREAMS ({} : Stream)).getD i {} = {}
  rw [List.getD_eq_getElem?_getD, List.getElem?_replicate]
  split <;> rfl

theorem tableInv_start (pinned : Bool) (messages : List (BoundedBytes MAX_DATA_FRAGMENT)) :
    TableInv (start pinned messages).client where
  opened i hi := by
    rw [slot_start] at hi
    cases hi
  unique i j hi := by
    rw [slot_start] at hi
    cases hi
  owed i hi := by
    rw [slot_start] at hi
    exact absurd rfl hi
  openings k o ho := by cases ho
  nextSid := rfl
  placed r hr := by cases hr
  dropped x hx := by cases hx
  live i hi := by
    rw [slot_start] at hi
    cases hi
  taken i hi := by
    rw [slot_start] at hi
    exact absurd rfl hi
  exchange r hr := by cases hr

theorem clientInv_start (pinned : Bool) (hbytes : (all.map Subtype.val).flatten = frames.flatMap Frame.encode) :
    ClientInv frames all (start pinned all) :=
  ⟨tableInv_start pinned all, (by nofun), (by nofun), ⟨[], rfl⟩, [],
    Cursor.between rfl (Nat.zero_le _) hbytes, by nofun⟩

theorem came_eq {before : List (BoundedBytes MAX_DATA_FRAGMENT)} (hall : all = before ++ s.messages)
    (hbytes : (all.map Subtype.val).flatten = frames.flatMap Frame.encode)
    (hrest : s.client.recvBuf ++ s.wire = (frames.drop s.client.begun).flatMap Frame.encode) :
    (before.map Subtype.val).flatten = (frames.take s.client.begun).flatMap Frame.encode ++ s.client.recvBuf := by
  have hsplit : frames.flatMap Frame.encode =
      (frames.take s.client.begun).flatMap Frame.encode ++ (frames.drop s.client.begun).flatMap Frame.encode := by
    rw [← flatMap_append, take_append_drop]
  rw [hsplit, ← hrest, ← append_assoc, hall, map_append, flatten_append] at hbytes
  exact List.append_cancel_right hbytes

/-- A client that neither takes a message nor reads, with the outbox taking records, has read everything. -/
theorem ClientInv.rests (h : ClientInv frames all s) (hfit : ∀ f ∈ frames, FitsBuffer f) (hcuts : CutsFit frames all)
    (hpads : ∀ f ∈ frames, PadFits f) (hbytes : (all.map Subtype.val).flatten = frames.flatMap Frame.encode)
    (hvalid : Valid E frames s (.read ⟨true, true⟩)) (hpump : H2Client.pump s = s)
    (hread : H2Client.processOne E s.client ⟨true, true⟩ = .ok none) :
    s.messages = [] ∧ s.client.rxInData = false ∧ s.client.begun = frames.length := by
  obtain ⟨res, hres, hnone, _⟩ := h.processOne hfit hvalid ⟨true, true⟩
  rw [hread] at hres
  cases hres
  obtain ⟨before, hall⟩ := h.messages
  obtain ⟨left, hcur, _⟩ := h.reading
  -- a message that waits is taken unless it would not fit
  have hroom : s.client.recvBuf.length + MAX_DATA_FRAGMENT ≤ RECV_BUF_SIZE → s.messages = [] := by
    intro hle
    unfold H2Client.pump at hpump
    rw [if_neg (by rintro (hidle | hlt); exacts [h.up hidle, by omega])] at hpump
    split at hpump
    next hm => exact hm
    next m rest hm =>
      have hlen := congrArg (fun s => s.messages.length) hpump
      simp [hm] at hlen
  obtain ⟨hin, hempty, hmore⟩ | ⟨hin, hwait⟩ := hnone rfl rfl
  · -- inside a DATA frame the buffer is empty, so that the rest of the frame is still on its way
    have hm : s.messages = [] := hroom (by rw [hempty]; decide)
    cases hcur with
    | between hin' _ _ =>
      rw [hin'] at hin
      cases hin
    | inside f given left pads _ _ _ _ _ _ hlen hpad _ hrest =>
      unfold Session.wire at hrest
      rw [hempty, hm] at hrest
      have hl := congrArg List.length hrest
      simp only [map_nil, flatten_nil, append_nil, length_nil, length_append] at hl
      omega
  · cases hcur with
    | inside f given left pads hin' _ _ _ _ _ _ _ _ _ =>
      rw [hin'] at hin
      cases hin
    | between _ hle hrest =>
      have hcame := came_eq hall hbytes hrest
      cases hf : frames[s.client.begun]? with
      | none =>
        have hge : frames.length ≤ s.client.begun := List.getElem?_eq_none_iff.mp hf
        have hdone : frames.drop s.client.begun = [] := drop_eq_nil_iff.mpr hge
        rw [hdone] at hrest
        obtain ⟨hempty, _⟩ := append_eq_nil_iff.mp hrest
        exact ⟨hroom (by rw [hempty]; decide), hin, by omega⟩
      | some f =>
        -- the next frame has not come: it is cut where the next message finds room
        have hnot := hwait f hf
        have hdrop := drop_begun hf
        rw [hdrop, flatMap_cons] at hrest
        have hm : s.messages = [] := by
          apply hroom
          unfold Arrived at hnot
          by_cases hd : f.ftype = FRAME_DATA
          · rw [if_pos hd] at hnot
            have hp : f.header.padded.toNat ≤ 1 := Bool.toNat_le _
            unfold FRAME_HEADER_LEN at hnot
            unfold MAX_DATA_FRAGMENT RECV_BUF_SIZE
            omega
          · rw [if_neg hd] at hnot
            obtain ⟨part, hpart⟩ : s.client.recvBuf <+: f.encode :=
              List.prefix_of_prefix_length_le ⟨_, rfl⟩ ⟨_, hrest.symm⟩ (by omega)
            refine hcuts before s.messages hall (frames.take s.client.begun) f (frames.drop (s.client.begun + 1))
              s.client.recvBuf part ?_ hd hpart.symm ?_ hcame
            · rw [← hdrop, take_append_drop]
            · intro hnil
              rw [hnil, append_nil] at hpart
              rw [hpart] at hnot
              omega
        exfalso
        unfold Session.wire at hrest
        rw [hm] at hrest
        have hl := congrArg List.length hrest
        simp only [map_nil, flatten_nil, append_nil, length_append] at hl
        have hhead : FRAME_HEADER_LEN + f.payload.length = f.encode.length := by
          rw [Frame.encode, length_append, length_head]
        apply hnot
        unfold Arrived
        split
        next hd =>
          have hp := hpads f (List.mem_of_getElem? hf) hd
          omega
        · omega

theorem clientInv_run (pinned : Bool) {events : List Event}
    (hbytes : (all.map Subtype.val).flatten = frames.flatMap Frame.encode) (hfit : ∀ f ∈ frames, FitsBuffer f)
    (hvalid : (machine E).Along (Valid E frames) (start pinned all) events) :
    ClientInv frames all ((machine E).run (start pinned all) events).1 :=
  (machine E).run_invariant (fun _ e hs hv => hs.turn hfit e hv) (clientInv_start pinned hbytes) hvalid

end Whole

/-- HPACK, for a block that starts with the indexed `:status: 200`. -/
def okEnv : Env where
  bodyMax := 1024
  pos := by decide
  decodeBlock b := if b.head? = some 0x88 then some ⟨200, true⟩ else none

def settingsFrame : Frame := ⟨FRAME_SETTINGS, 0, 0, [], by decide⟩

def answerFrames : List Frame :=
  [settingsFrame, ⟨FRAME_HEADERS, FLAG_END_HEADERS, 1, [0x88], by decide⟩,
    ⟨FRAME_DATA, FLAG_END_STREAM ||| FLAG_PADDED, 1, [1, 0x6f, 0x6b, 0], by decide⟩]

def answerMessages : List (BoundedBytes MAX_DATA_FRAGMENT) :=
  [⟨(answerFrames.flatMap Frame.encode).take 30, by decide⟩, ⟨(answerFrames.flatMap Frame.encode).drop 30, by decide⟩]

def answerEvents : List Event :=
  [.pump, .read ⟨true, true⟩, .claim { id := 7, credit := 64 }, .openWindow 0, .read ⟨true, true⟩,
    .read ⟨true, true⟩, .read ⟨true, false⟩, .pump, .read ⟨false, true⟩, .read ⟨true, true⟩, .read ⟨true, true⟩,
    .read ⟨true, true⟩]

theorem okEnv_settings {c : Client} : FrameOk okEnv c settingsFrame := by
  refine ⟨fun _ => rfl, fun h => absurd h (by decide), fun _ => ⟨rfl, fun _ => ⟨rfl, c, rfl⟩⟩,
    fun h => absurd h (by decide), fun h => absurd h (by decide), fun h => absurd h (by decide),
    fun h => absurd h (by decide), (by decide), (by decide)⟩

theorem okEnv_head {c : Client} {f : Frame} {i : Nat} (ht : f.ftype = FRAME_HEADERS) (hfl : f.flags = FLAG_END_HEADERS)
    (hblock : f.payload.head? = some 0x88) (hid : f.id % 2 = 1) (hphase : c.phase ≠ .handshake)
    (hfind : c.findSid f.id = some i) (hgiven : (c.slot i).headGiven = false) : FrameOk okEnv c f := by
  unfold FrameOk
  rw [if_neg (by rw [ht]; decide), ht, hfl]
  refine ⟨fun hc => absurd hc hphase, fun _ => ⟨by decide, hid, 0, f.payload.length, ⟨200, true⟩, ?_, ?_, ?_⟩,
    fun h => absurd h (by decide), fun h => absurd h (by decide), fun h => absurd h (by decide),
    fun h => absurd h (by decide), fun h => absurd h (by decide), (by decide), (by decide)⟩
  · have hpadded : (FLAG_END_HEADERS &&& FLAG_PADDED != 0) = false := by decide
    have hpriority : (FLAG_END_HEADERS &&& FLAG_PRIORITY != 0) = false := by decide
    unfold headersBlockExtent
    rw [hpadded, hpriority]
    simp
  · simp [okEnv, hblock]
  · intro j hj
    rw [hfind] at hj
    cases hj
    unfold HeadersOk
    rw [hgiven]
    exact Or.inl ⟨Nat.le_refl _, rfl⟩

theorem valid_frame {E : Env} {frames : List Frame} {s : Session} {f : Frame} (hf : frames[s.client.begun]? = some f)
    (hok : FrameOk E s.client f) (ch : Chan) : Valid E frames s (.read ch) := by
  intro _ g hg _
  rw [hf] at hg
  cases hg
  exact hok

theorem valid_inside {E : Env} {frames : List Frame} {s : Session} (hin : s.client.rxInData = true) (ch : Chan) :
    Valid E frames s (.read ch) := by
  intro hc
  rw [hin] at hc
  cases hc

theorem answer_valid : (machine okEnv).Along (Valid okEnv answerFrames) (start false answerMessages) answerEvents := by
  refine ⟨trivial, valid_frame rfl okEnv_settings _, (fun h => by cases h), trivial,
    valid_frame rfl (okEnv_head (i := 0) rfl rfl rfl rfl (by decide) (by decide) (by decide)) _, valid_frame rfl ?_ _,
    valid_inside rfl _, trivial, valid_inside rfl _, valid_inside rfl _, valid_inside rfl _, valid_inside rfl _, trivial⟩
  refine ⟨by decide, by decide, by decide, ?_⟩
  intro i hi
  cases hi
  decide

theorem pumps_taken (E : Env) {ms : List (BoundedBytes MAX_DATA_FRAGMENT)}
    (rest : List (BoundedBytes MAX_DATA_FRAGMENT)) {s : Session}
    (hfull : ∀ m ∈ ms, m.1.length = MAX_DATA_FRAGMENT) (hup : s.client.phase ≠ .idle) (hm : s.messages = ms ++ rest)
    (hroom : s.client.recvBuf.length + ms.length * MAX_DATA_FRAGMENT ≤ RECV_BUF_SIZE) :
    ((machine E).run s (List.replicate ms.length .pump)).1 =
      ⟨{ s.client with recvBuf := s.client.recvBuf ++ (ms.map Subtype.val).flatten }, rest⟩ := by
  induction ms generalizing s with
  | nil =>
    obtain ⟨client, messages⟩ := s
    simp only [nil_append] at hm
    simp [hm]
  | cons m ms ih =>
    rw [length_cons, Nat.add_mul, Nat.one_mul] at hroom
    have hpump : pump s = ⟨{ s.client with recvBuf := s.client.recvBuf ++ m.1 }, ms ++ rest⟩ := by
      unfold pump
      rw [if_neg (by rintro (hidle | hlt); exacts [hup hidle, by omega]), hm]
      rfl
    have hbuf : (pump s).client.recvBuf = s.client.recvBuf ++ m.1 := by rw [hpump]
    have hlen : (pump s).client.recvBuf.length = s.client.recvBuf.length + MAX_DATA_FRAGMENT := by
      rw [hbuf, length_append, hfull m (by simp)]
    have hrest := ih (s := pump s) (fun x hx => hfull x (by simp [hx])) (by rw [hpump]; exact hup)
      (by rw [hpump]) (by omega)
    change ((machine E).run (pump s) (List.replicate ms.length .pump)).1 = _
    rw [hrest, hpump, map_cons, flatten_cons, append_assoc]

def letters (n : Nat) : Bytes := List.replicate n 0x61

@[simp] theorem length_letters (n : Nat) : (letters n).length = n := length_replicate

theorem letters_append (m n : Nat) : letters m ++ letters n = letters (m + n) := List.replicate_append_replicate

/-- The start of a header block: `:status: 200`, and a field `x` with a value of 7400 bytes. -/
def blockStart : Bytes := [0x88, 0x00, 0x01, 0x78, 0x7f, 0xe9, 0x38]

theorem length_blockStart : blockStart.length = 7 := rfl

def longHead : Frame :=
  ⟨FRAME_HEADERS, FLAG_END_HEADERS, 1, blockStart ++ letters 7400, by
    rw [length_append, length_letters, length_blockStart]
    decide⟩

def lastData : Frame := ⟨FRAME_DATA, FLAG_END_STREAM, 1, [0x6f, 0x6b], by decide⟩

theorem length_longHead : longHead.payload.length = 7407 := by
  rw [longHead, length_append, length_letters, length_blockStart]

def firstPiece : Bytes := head 7407 FRAME_HEADERS FLAG_END_HEADERS 1 ++ (blockStart ++ letters 1444)

theorem length_firstPiece : firstPiece.length = MAX_DATA_FRAGMENT := by
  rw [firstPiece, length_append, length_head, length_append, length_letters, length_blockStart]
  decide

def headMessages : List (BoundedBytes MAX_DATA_FRAGMENT) :=
  ⟨firstPiece, Nat.le_of_eq length_firstPiece⟩ ::
    List.replicate 4 ⟨letters MAX_DATA_FRAGMENT, Nat.le_of_eq (length_letters _)⟩

theorem length_headMessages : headMessages.length = 5 := rfl

theorem headMessages_full : ∀ m ∈ headMessages, m.1.length = MAX_DATA_FRAGMENT := by
  intro m hm
  rw [headMessages, mem_cons, List.mem_replicate] at hm
  obtain rfl | ⟨_, rfl⟩ := hm
  · exact length_firstPiece
  · exact length_letters _

def lastMessage : BoundedBytes MAX_DATA_FRAGMENT :=
  ⟨letters 116 ++ lastData.encode, by
    rw [length_append, length_letters]
    decide⟩

def longMessages : List (BoundedBytes MAX_DATA_FRAGMENT) :=
  ⟨settingsFrame.encode, by decide⟩ :: (headMessages ++ [lastMessage])

def openingEvents : List Event :=
  [.pump, .read ⟨true, true⟩, .claim { id := 7, credit := 64 }, .openWindow 0]

theorem pump_settings (rest : List (BoundedBytes MAX_DATA_FRAGMENT)) :
    pump (start false (⟨settingsFrame.encode, by decide⟩ :: rest)) = ⟨{ recvBuf := settingsFrame.encode }, rest⟩ :=
  if_neg (show ¬(Phase.handshake = Phase.idle ∨ 0 + MAX_DATA_FRAGMENT > RECV_BUF_SIZE) by decide)

def openedClient : Client :=
  ((read okEnv { recvBuf := settingsFrame.encode } ⟨true, true⟩).claim { id := 7, credit := 64 }).openWindow 0

theorem openingEvents_run (rest : List (BoundedBytes MAX_DATA_FRAGMENT)) :
    ((machine okEnv).run (start false (⟨settingsFrame.encode, by decide⟩ :: rest)) openingEvents).1 =
      ⟨openedClient, rest⟩ := by
  simp only [openingEvents, Machine.run_cons, Machine.run_nil, machine, turn, pump_settings]
  rfl

theorem openedClient_spec : ∃ c : Client, (c.phase = .ready ∧ c.rxInData = false ∧ c.recvBuf = [] ∧
    c.openings = [⟨0, 1, 7, 1⟩] ∧ c.outbox.placed = []) ∧
    ∀ rest, ((machine okEnv).run (start false (⟨settingsFrame.encode, by decide⟩ :: rest)) openingEvents).1 = ⟨c, rest⟩ :=
  ⟨openedClient, by decide +kernel, openingEvents_run⟩

theorem openingEvents_valid (frames : List Frame) (rest : List (BoundedBytes MAX_DATA_FRAGMENT)) :
    (machine okEnv).Along (Valid okEnv (settingsFrame :: frames))
      (start false (⟨settingsFrame.encode, by decide⟩ :: rest)) openingEvents := by
  have hin : (read okEnv { recvBuf := settingsFrame.encode } ⟨true, true⟩).rxInData = false := by decide
  simp only [openingEvents, Machine.along_cons, Machine.along_nil, machine, turn, pump_settings]
  refine ⟨trivial, valid_frame rfl okEnv_settings _, ?_, trivial, trivial⟩
  intro hc
  rw [hin] at hc
  cases hc

theorem pumps_valid (frames : List Frame) (s : Session) (n : Nat) :
    (machine okEnv).Along (Valid okEnv frames) s (List.replicate n .pump) := by
  induction n generalizing s with
  | zero => trivial
  | succ n ih => exact ⟨trivial, ih _⟩

theorem read_waits (E : Env) {c : Client} {f : Frame} (hin : c.rxInData = false)
    (hhdr : parseHeader c.recvBuf = some f.header) (hd : f.ftype ≠ FRAME_DATA)
    (hfit : FRAME_HEADER_LEN + f.payload.length ≤ RECV_BUF_SIZE)
    (hpart : c.recvBuf.length < FRAME_HEADER_LEN + f.payload.length) (ch : Chan) : read E c ch = c := by
  have hnone : processOne E c ch = .ok none := by
    unfold processOne
    rw [hin, if_neg (by nofun), hhdr]
    dsimp only
    rw [if_neg (show ¬f.header.ftype = FRAME_DATA from hd), show f.header.length = f.payload.length from rfl,
      if_neg (by omega), if_pos (by omega)]
  unfold read
  rw [hnone]
  split <;> rfl

theorem pump_waits {s : Session} (hfull : s.client.recvBuf.length + MAX_DATA_FRAGMENT > RECV_BUF_SIZE) : pump s = s :=
  if_pos (Or.inr hfull)

theorem headMessages_bytes :
    (headMessages.map Subtype.val).flatten =
      head 7407 FRAME_HEADERS FLAG_END_HEADERS 1 ++ (blockStart ++ letters 7284) := by
  have hsum : letters 7284 = letters 1444 ++ (letters 1460 ++ (letters 1460 ++ (letters 1460 ++ letters 1460))) := by
    simp only [letters_append]
  rw [hsum]
  simp only [headMessages, firstPiece, MAX_DATA_FRAGMENT, List.replicate, map_cons, map_nil, flatten_cons,
    flatten_nil, append_nil, append_assoc]

theorem longMessages_bytes :
    (longMessages.map Subtype.val).flatten = [settingsFrame, longHead, lastData].flatMap Frame.encode := by
  have hsum : letters 7400 = letters 7284 ++ letters 116 := by rw [letters_append]
  have henc : longHead.encode = head 7407 FRAME_HEADERS FLAG_END_HEADERS 1 ++ (blockStart ++ letters 7400) := by
    rw [Frame.encode, length_longHead]
    rfl
  rw [longMessages, map_cons, flatten_cons, map_append, flatten_append, headMessages_bytes]
  simp only [flatMap_cons, flatMap_nil, map_cons, map_nil, flatten_cons, flatten_nil,
    append_nil, lastMessage, henc, hsum, append_assoc]

end Wave.Http.H2Client
