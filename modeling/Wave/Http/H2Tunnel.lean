import Wave.Http.WsOut
import Wave.Common.WsClientFrame
import Wave.Lib.Machine

/-! # The WebSocket tunnel of an HTTP/2 connection (`http/server/h2.rs`)

WebSocket frames come in DATA frames, cut anywhere, and are taken whole from a buffer of 512 bytes. -/

namespace Wave.Http.WsTunnel

open Lib Common Common.ClientFrame

variable {buf : Bytes}

def WS_BUF_SIZE : Nat := 512
def FRAME_HEADER_LEN : Nat := 9
def SEND_BUF_SIZE : Nat := 4100

structure DataFrame where
  body : Bytes
  pad : Option UInt8 := none

def DataFrame.payload (d : DataFrame) : Bytes :=
  match d.pad with
  | none => d.body
  | some n => n :: (d.body ++ List.replicate n.toNat 0)

inductive TunnelOut where
  /-- A WebSocket frame queued in a DATA frame. -/
  | data (frame : Bytes) (endStream : Bool)
  /-- A frame that `ws_emit_fanout_frame` took. -/
  | fanout (opcode : UInt8) (fin : Bool) (payload : Bytes)
deriving DecidableEq

structure Tunnel where
  /-- `ws_fan_out` of the route. -/
  fanOut : Bool
  wsActive : Bool := true
  wsBuf : Bytes := []
  /-- `send_len > 0`. -/
  sendBusy : Bool := false
  /-- The DATA frames still to be processed, in the order they were sent. -/
  ahead : List DataFrame

def queueWsFrame (t : Tunnel) (opcode : UInt8) (payload : Bytes) (endStream : Bool) : Tunnel × List TunnelOut :=
  ({ t with sendBusy := true },
    [.data (writeFrameFin (SEND_BUF_SIZE - FRAME_HEADER_LEN) true opcode payload) endStream])

def endTunnel (t : Tunnel) : Tunnel := { t with wsActive := false, wsBuf := [] }

def queueWsClose (t : Tunnel) (code : UInt16) : Tunnel × List TunnelOut :=
  let r := queueWsFrame t WS_OP_CLOSE (Bytes.be16 code) true
  (endTunnel r.1, r.2)

/-- A whole masked frame at the front of `ws_buf`. The flag says whether the loop goes on (`consume_only`). -/
def takeFrame (t : Tunnel) (h : WsHeader) (accept : Bool) : Tunnel × List TunnelOut × Bool :=
  let payload := wsMaskApply h.maskKey ((t.wsBuf.drop h.headerLen).take h.payloadLen)
  let rest := t.wsBuf.drop (h.headerLen + h.payloadLen)
  if h.opcode = WS_OP_CLOSE then
    if t.sendBusy then (t, [], false)
    else
      let r := queueWsFrame t WS_OP_CLOSE payload true
      (endTunnel r.1, r.2, false)
  else if h.opcode = WS_OP_PING then
    if t.sendBusy then (t, [], false)
    else
      let r := queueWsFrame t WS_OP_PONG payload false
      ({ r.1 with wsBuf := rest }, r.2, false)
  else if h.opcode = WS_OP_PONG then ({ t with wsBuf := rest }, [], true)
  else if h.opcode = WS_OP_TEXT ∨ h.opcode = WS_OP_BINARY ∨ h.opcode = WS_OP_CONTINUATION then
    if t.fanOut then
      if accept then ({ t with wsBuf := rest }, [.fanout h.opcode h.fin payload], true)
      else (t, [], false)
    else
      let r := queueWsFrame t h.opcode payload false
      ({ r.1 with wsBuf := rest }, r.2, false)
  else
    let r := queueWsClose t CLOSE_PROTOCOL_ERROR
    (r.1, r.2, false)

def drainOne (t : Tunnel) (accept : Bool) : Tunnel × List TunnelOut × Bool :=
  match parseFrame t.wsBuf with
  | .incomplete => (t, [], false)
  | .invalid =>
    let r := queueWsClose t CLOSE_PROTOCOL_ERROR
    (r.1, r.2, false)
  | .ok h =>
    if h.headerLen + h.payloadLen > t.wsBuf.length then (t, [], false)
    else if h.masked then takeFrame t h accept
    else
      let r := queueWsClose t CLOSE_PROTOCOL_ERROR
      (r.1, r.2, false)

def drains (t : Tunnel) : Bool := t.wsActive && (!t.sendBusy || t.fanOut) && !t.wsBuf.isEmpty

/-- `ws_drain_buf`: a turn that goes on takes bytes, so that `fuel` is enough; `accepts` are the seam's answers. -/
def drainLoop : Nat → Tunnel → List Bool → Tunnel × List TunnelOut
  | 0, t, _ => (t, [])
  | fuel + 1, t, accepts =>
    if drains t then
      let r := drainOne t (accepts.headD false)
      if r.2.2 then
        let rest := drainLoop fuel r.1 accepts.tail
        (rest.1, r.2.1 ++ rest.2)
      else (r.1, r.2.1)
    else (t, [])

def wsDrainBuf (t : Tunnel) (accepts : List Bool) : Tunnel × List TunnelOut :=
  drainLoop t.wsBuf.length t accepts

/-- `ws_handle_data`; the payload is taken as it is, padding and all. -/
def wsHandleData (t : Tunnel) (d : DataFrame) (accepts : List Bool) : Tunnel × List TunnelOut :=
  if t.wsBuf.length + d.payload.length > WS_BUF_SIZE then queueWsClose t CLOSE_MESSAGE_TOO_BIG
  else wsDrainBuf { t with wsBuf := t.wsBuf ++ d.payload } accepts

/-- The DATA frame at the head of `recv_buf` would overflow a fan-out tunnel's buffer that holds something:
`ws_defer`. -/
def defers (t : Tunnel) (d : DataFrame) : Bool :=
  t.wsActive && decide (t.wsBuf.length + d.payload.length > WS_BUF_SIZE) && t.fanOut && decide (t.wsBuf.length > 0)

/-- `handle_data` for the DATA frame at the head, which stays there when it is deferred. -/
def handleData (t : Tunnel) (accepts : List Bool) : Tunnel × List TunnelOut :=
  match t.ahead with
  | [] => (t, [])
  | d :: ahead =>
    if defers t d then (t, [])
    else if t.wsActive then wsHandleData { t with ahead := ahead } d accepts
    else ({ t with ahead := ahead }, [])

inductive Turn where
  | flushed
  /-- Another stream, the connection or the worker filled `send_buf`. -/
  | busy
  /-- The drain at the top of `active`. -/
  | drain (accepts : List Bool)
  /-- `process_one_frame` on the next DATA frame, with `send_buf` free. -/
  | data (accepts : List Bool)

def turn (t : Tunnel) : Turn → Tunnel × List TunnelOut
  | .flushed => ({ t with sendBusy := false }, [])
  | .busy => ({ t with sendBusy := true }, [])
  | .drain accepts => wsDrainBuf t accepts
  | .data accepts => if t.sendBusy then (t, []) else handleData t accepts

def machine : Machine Tunnel Turn TunnelOut where
  step := turn

def accepted (fanOut : Bool) (ahead : List DataFrame) : Tunnel where
  fanOut := fanOut
  ahead := ahead

def isData (f : ClientFrame) : Prop :=
  f.opcode = WS_OP_TEXT ∨ f.opcode = WS_OP_BINARY ∨ f.opcode = WS_OP_CONTINUATION

def answer (fanOut : Bool) (f : ClientFrame) : List TunnelOut :=
  if f.opcode = WS_OP_CLOSE then
    [.data (writeFrameFin (SEND_BUF_SIZE - FRAME_HEADER_LEN) true WS_OP_CLOSE f.payload) true]
  else if f.opcode = WS_OP_PING then
    [.data (writeFrameFin (SEND_BUF_SIZE - FRAME_HEADER_LEN) true WS_OP_PONG f.payload) false]
  else if f.opcode = WS_OP_PONG then []
  else if fanOut then [.fanout f.opcode f.fin f.payload]
  else [.data (writeFrameFin (SEND_BUF_SIZE - FRAME_HEADER_LEN) f.fin f.opcode f.payload) false]

def answers (fanOut : Bool) (fs : List ClientFrame) : List TunnelOut := fs.flatMap (answer fanOut)

def upToClose : List ClientFrame → List ClientFrame
  | [] => []
  | f :: fs => if f.opcode = WS_OP_CLOSE then [f] else f :: upToClose fs

def leftover : Nat → Bytes → Bytes
  | 0, buf => buf
  | fuel + 1, buf =>
    match parseFrame buf with
    | .ok h =>
      if h.headerLen + h.payloadLen ≤ buf.length then leftover fuel (buf.drop (h.headerLen + h.payloadLen)) else buf
    | _ => buf

/-- The next DATA frame is unpadded and fits behind what the buffer holds, where a fan-out route hands whole frames on
first. -/
def FitsBuffer (t : Tunnel) (d : DataFrame) : Prop :=
  d.pad = none ∧
    (if t.fanOut then (leftover t.wsBuf.length t.wsBuf).length else t.wsBuf.length) + d.body.length ≤ WS_BUF_SIZE

instance (t : Tunnel) (d : DataFrame) : Decidable (FitsBuffer t d) := inferInstanceAs (Decidable (_ ∧ _))

def Fits (t : Tunnel) : Turn → Prop
  | .data _ => t.wsActive = true → ∀ d ∈ t.ahead.head?, FitsBuffer t d
  | _ => True

instance (t : Tunnel) : (i : Turn) → Decidable (Fits t i)
  | .data _ => inferInstanceAs (Decidable (t.wsActive = true → ∀ d ∈ t.ahead.head?, FitsBuffer t d))
  | .flushed | .busy | .drain _ => isTrue trivial

/-! ### One frame at the front of the buffer -/

section Front

variable {t : Tunnel} {f : ClientFrame}

theorem parseFrame_encode (f : ClientFrame) (more : Bytes) : parseFrame (f.encode ++ more) = .ok f.header := by
  have hshort := f.short
  unfold parseFrame
  rw [wsDecodeHeader_encode]
  dsimp only
  rw [if_neg (by change ¬ f.payload.length ≥ 2 ^ 32; omega)]

theorem parseFrame_cut {p q : Bytes} (h : p ++ q = f.encode) (hq : q ≠ []) :
    parseFrame p = .incomplete ∨
      (parseFrame p = .ok f.header ∧ p.length < f.header.headerLen + f.header.payloadLen) := by
  have hshort := f.short
  unfold parseFrame
  rcases wsDecodeHeader_cut h hq with hc | ⟨hc, hlen⟩
  · exact .inl (by rw [hc])
  · refine .inr ⟨?_, hlen⟩
    rw [hc]
    dsimp only
    rw [if_neg (by change ¬ f.payload.length ≥ 2 ^ 32; omega)]

theorem headerLen_eq (f : ClientFrame) : f.encode = f.encode.take f.header.headerLen ++ wsMaskApply f.mask.1 f.payload ∧
    (f.encode.take f.header.headerLen).length = f.header.headerLen := by
  have hsplit : f.encode = (((if f.fin then 0x80 else 0) ||| f.opcode) :: (lengthBytes f.payload.length ++ f.mask.1)) ++
      wsMaskApply f.mask.1 f.payload := by
    simp [encode]
  have hlen : (((if f.fin then 0x80 else 0) ||| f.opcode) :: (lengthBytes f.payload.length ++ f.mask.1)).length =
      f.header.headerLen := by
    simp [header, f.mask.2]
    omega
  have htake : f.encode.take f.header.headerLen =
      ((if f.fin then 0x80 else 0) ||| f.opcode) :: (lengthBytes f.payload.length ++ f.mask.1) := by
    rw [hsplit, ← hlen, take_left]
  exact ⟨by rw [htake]; exact hsplit, by rw [htake, hlen]⟩

theorem payload_encode (f : ClientFrame) (more : Bytes) :
    wsMaskApply f.header.maskKey (((f.encode ++ more).drop f.header.headerLen).take f.header.payloadLen) =
      f.payload := by
  obtain ⟨hsplit, hlen⟩ := headerLen_eq f
  have hdrop : (f.encode ++ more).drop f.header.headerLen = wsMaskApply f.mask.1 f.payload ++ more := by
    rw [hsplit, append_assoc]
    exact List.drop_left' hlen
  rw [hdrop]
  have htake : (wsMaskApply f.mask.1 f.payload ++ more).take f.header.payloadLen = wsMaskApply f.mask.1 f.payload :=
    List.take_left' (by rw [length_wsMaskApply]; rfl)
  rw [htake]
  exact wsMaskApply_wsMaskApply f.mask.1 f.payload

theorem rest_encode (f : ClientFrame) (more : Bytes) :
    (f.encode ++ more).drop (f.header.headerLen + f.header.payloadLen) = more :=
  List.drop_left' (length_encode f)

theorem drainOne_cut {accept : Bool} {q : Bytes} (h : t.wsBuf ++ q = f.encode) (hq : q ≠ []) :
    drainOne t accept = (t, [], false) := by
  unfold drainOne
  rcases parseFrame_cut h hq with hp | ⟨hp, hlen⟩
  · rw [hp]
  · rw [hp]
    dsimp only
    rw [if_pos hlen]

/-- A whole frame waits for `send_buf` or the seam; else it is answered and taken, and a CLOSE ends the tunnel. -/
theorem drainOne_whole (accept : Bool) {more : Bytes} (hbuf : t.wsBuf = f.encode ++ more)
    (hfin : t.fanOut = false → isData f → f.fin = true) :
    (drainOne t accept = (t, [], false) ∧ (t.sendBusy = true ∨ accept = false)) ∨
    (f.opcode ≠ WS_OP_CLOSE ∧ ∃ busy again,
      drainOne t accept = ({ t with wsBuf := more, sendBusy := busy }, answer t.fanOut f, again)) ∨
    (f.opcode = WS_OP_CLOSE ∧
      drainOne t accept = ({ t with wsActive := false, wsBuf := [], sendBusy := true }, answer t.fanOut f, false)) := by
  have hlen : ¬ f.header.headerLen + f.header.payloadLen > t.wsBuf.length := by
    rw [hbuf, length_append, length_encode]
    omega
  have hone : drainOne t accept = takeFrame t f.header accept := by
    unfold drainOne
    rw [hbuf, parseFrame_encode]
    dsimp only
    rw [← hbuf, if_neg hlen]
    rfl
  have hpay := payload_encode f more
  have hrest := rest_encode f more
  rw [← hbuf] at hpay hrest
  rw [hone]
  unfold takeFrame answer
  dsimp only
  rw [hpay, hrest]
  have hop : f.header.opcode = f.opcode := rfl
  have hf : f.header.fin = f.fin := rfl
  rw [hop, hf]
  by_cases hclose : f.opcode = WS_OP_CLOSE
  · simp only [if_pos hclose]
    by_cases hb : t.sendBusy = true
    · exact .inl ⟨by rw [if_pos hb], .inl hb⟩
    · exact .inr (.inr ⟨hclose, by rw [if_neg hb]; rfl⟩)
  · simp only [if_neg hclose]
    by_cases hping : f.opcode = WS_OP_PING
    · simp only [if_pos hping]
      by_cases hb : t.sendBusy = true
      · exact .inl ⟨by rw [if_pos hb], .inl hb⟩
      · exact .inr (.inl ⟨hclose, true, false, by rw [if_neg hb]; rfl⟩)
    · simp only [if_neg hping]
      by_cases hpong : f.opcode = WS_OP_PONG
      · exact .inr (.inl ⟨hclose, t.sendBusy, true, by simp only [if_pos hpong]⟩)
      · have hdata : f.opcode = WS_OP_TEXT ∨ f.opcode = WS_OP_BINARY ∨ f.opcode = WS_OP_CONTINUATION := by
          rcases f.sent.opcode_cases with h | h | h | h | h | h
          · exact .inr (.inr h)
          · exact .inl h
          · exact .inr (.inl h)
          · exact absurd h hclose
          · exact absurd h hping
          · exact absurd h hpong
        simp only [if_neg hpong, if_pos hdata]
        by_cases hfan : t.fanOut = true
        · simp only [hfan, if_true]
          cases accept with
          | true => exact .inr (.inl ⟨hclose, t.sendBusy, true, rfl⟩)
          | false => exact .inl ⟨rfl, .inr rfl⟩
        · have hfan : t.fanOut = false := by simpa using hfan
          refine .inr (.inl ⟨hclose, true, false, ?_⟩)
          simp [hfan, queueWsFrame, hfin hfan hdata]

end Front

/-! ### What a run has treated -/

inductive Sim (fan : Bool) (fs : List ClientFrame) (t : Tunnel) (outs : List TunnelOut) : Prop where
  /-- The frames `done` are answered; what is buffered and ahead are the bytes of the others. -/
  | running (done todo : List ClientFrame) (hfs : fs = done ++ todo) (hno : ∀ f ∈ done, f.opcode ≠ WS_OP_CLOSE)
      (houts : outs = answers fan done) (hact : t.wsActive = true)
      (hbytes : t.wsBuf ++ t.ahead.flatMap DataFrame.body = todo.flatMap encode) : Sim fan fs t outs
  | closed (done : List ClientFrame) (f : ClientFrame) (todo : List ClientFrame) (hfs : fs = done ++ f :: todo)
      (hno : ∀ f ∈ done, f.opcode ≠ WS_OP_CLOSE) (hclose : f.opcode = WS_OP_CLOSE)
      (houts : outs = answers fan (done ++ [f])) (hact : t.wsActive = false) : Sim fan fs t outs

theorem upToClose_append {done : List ClientFrame} (h : ∀ f ∈ done, f.opcode ≠ WS_OP_CLOSE) (todo : List ClientFrame) :
    upToClose (done ++ todo) = done ++ upToClose todo := by
  induction done with
  | nil => rfl
  | cons f done ih =>
    have hf := h f (by simp)
    rw [cons_append, upToClose, if_neg hf, ih fun g hg => h g (by simp [hg])]
    rfl

theorem upToClose_close {f : ClientFrame} (h : f.opcode = WS_OP_CLOSE) (todo : List ClientFrame) :
    upToClose (f :: todo) = [f] := if_pos h

theorem answers_append (fan : Bool) (l l' : List ClientFrame) :
    answers fan (l ++ l') = answers fan l ++ answers fan l' := flatMap_append

theorem answers_concat (fan : Bool) (l : List ClientFrame) (f : ClientFrame) :
    answers fan (l ++ [f]) = answers fan l ++ answer fan f := by
  rw [answers_append]
  simp [answers]

section Run

variable {fan : Bool} {fs : List ClientFrame} {t : Tunnel} {outs : List TunnelOut}

structure Drained (t t' : Tunnel) : Prop where
  fanOut : t'.fanOut = t.fanOut
  ahead : t'.ahead = t.ahead
  taken : t'.wsActive = true → ∃ w : List ClientFrame, t.wsBuf = w.flatMap encode ++ t'.wsBuf

theorem Drained.refl (t : Tunnel) : Drained t t := ⟨rfl, rfl, fun _ => ⟨[], rfl⟩⟩

theorem Drained.trans {t t' t'' : Tunnel} (h : Drained t t') (h' : Drained t' t'')
    (hact : t''.wsActive = true → t'.wsActive = true) : Drained t t'' := by
  refine ⟨h'.fanOut.trans h.fanOut, h'.ahead.trans h.ahead, fun ha => ?_⟩
  obtain ⟨w', hw'⟩ := h'.taken ha
  obtain ⟨w, hw⟩ := h.taken (hact ha)
  exact ⟨w ++ w', by rw [hw, hw', flatMap_append, append_assoc]⟩

theorem front_cases {todo : List ClientFrame} {more : Bytes} (h : t.wsBuf ++ more = todo.flatMap encode) :
    t.wsBuf = [] ∨
    (∃ f rest q, todo = f :: rest ∧ t.wsBuf ++ q = f.encode ∧ q ≠ []) ∨
    (∃ f rest c, todo = f :: rest ∧ t.wsBuf = f.encode ++ c ∧ c ++ more = rest.flatMap encode) := by
  cases todo with
  | nil =>
    refine .inl ?_
    have hnil : t.wsBuf ++ more = [] := h
    exact (append_eq_nil_iff.mp hnil).1
  | cons f rest =>
    rw [flatMap_cons] at h
    rcases append_eq_append_iff.mp h with ⟨q, hq, hm⟩ | ⟨c, hc, hm⟩
    · by_cases hnil : q = []
      · subst hnil
        exact .inr (.inr ⟨f, rest, [], rfl, by simpa using hq.symm, by simpa using hm⟩)
      · exact .inr (.inl ⟨f, rest, q, rfl, hq.symm, hnil⟩)
    · exact .inr (.inr ⟨f, rest, c, rfl, hc, hm.symm⟩)

theorem Sim.drainOne (hsim : Sim fan fs t outs) (hfan : t.fanOut = fan)
    (hfin : fan = false → ∀ f ∈ fs, isData f → f.fin = true) (hd : drains t = true) (accept : Bool) :
    Sim fan fs (drainOne t accept).1 (outs ++ (drainOne t accept).2.1) ∧ Drained t (drainOne t accept).1 := by
  simp only [drains, and_eq_true, Bool.not_eq_true', List.isEmpty_eq_false_iff] at hd
  obtain ⟨⟨hact, -⟩, hne⟩ := hd
  cases hsim with
  | closed done f todo _ _ _ _ hoff =>
    rw [hact] at hoff
    cases hoff
  | running done todo hfs hno houts _ hbytes =>
    rcases front_cases hbytes with hnil | ⟨f, rest, q, rfl, hq, hqn⟩ | ⟨f, rest, c, rfl, hc, hm⟩
    · exact absurd hnil hne
    · rw [drainOne_cut hq hqn]
      exact ⟨.running done _ hfs hno (by simpa using houts) hact hbytes, .refl t⟩
    · have hff : t.fanOut = false → isData f → f.fin = true := by
        intro h0 hdata
        exact hfin (hfan ▸ h0) f (by rw [hfs]; simp) hdata
      rcases drainOne_whole accept hc hff with ⟨he, -⟩ | ⟨hop, busy, again, he⟩ | ⟨hop, he⟩
      · rw [he]
        exact ⟨.running done _ hfs hno (by simpa using houts) hact hbytes, .refl t⟩
      · rw [he]
        refine ⟨.running (done ++ [f]) rest (by simpa using hfs) ?_ ?_ hact hm, rfl, rfl, fun _ => ⟨[f], ?_⟩⟩
        · intro g hg
          rcases mem_append.mp hg with hg | hg
          · exact hno g hg
          · rw [mem_singleton.mp hg]
            exact hop
        · rw [answers_concat, houts, hfan]
        · simpa using hc
      · rw [he]
        refine ⟨.closed done f rest hfs hno hop ?_ rfl, rfl, rfl, fun ha => by cases ha⟩
        rw [answers_concat, houts, hfan]

theorem drainLoop_inactive {t : Tunnel} (h : t.wsActive = false) (fuel : Nat) (accepts : List Bool) :
    drainLoop fuel t accepts = (t, []) := by
  cases fuel with
  | zero => rfl
  | succ fuel =>
    unfold drainLoop
    rw [if_neg (by simp [drains, h])]

theorem Sim.drainLoop (hfin : fan = false → ∀ f ∈ fs, isData f → f.fin = true) (fuel : Nat) (accepts : List Bool)
    (hsim : Sim fan fs t outs) (hfan : t.fanOut = fan) :
    Sim fan fs (drainLoop fuel t accepts).1 (outs ++ (drainLoop fuel t accepts).2) ∧
      Drained t (drainLoop fuel t accepts).1 := by
  induction fuel generalizing t outs accepts with
  | zero => exact ⟨by simpa [WsTunnel.drainLoop] using hsim, .refl t⟩
  | succ fuel ih =>
    unfold WsTunnel.drainLoop
    split
    next hd =>
      obtain ⟨hone, hdr⟩ := hsim.drainOne hfan hfin hd (accepts.headD false)
      dsimp only
      split
      · obtain ⟨hrest, hdr'⟩ := ih accepts.tail hone (hdr.fanOut.trans hfan)
        refine ⟨by simpa using hrest, hdr.trans hdr' fun ha => ?_⟩
        by_contra hoff
        rw [drainLoop_inactive (by simpa using hoff)] at ha
        exact hoff ha
      · exact ⟨hone, hdr⟩
    · exact ⟨by simpa using hsim, .refl t⟩

theorem Sim.handleData (hfin : fan = false → ∀ f ∈ fs, isData f → f.fin = true) (hsim : Sim fan fs t outs)
    (hfan : t.fanOut = fan) (hfit : t.wsActive = true → ∀ d ∈ t.ahead.head?, FitsBuffer t d)
    (accepts : List Bool) :
    Sim fan fs (handleData t accepts).1 (outs ++ (handleData t accepts).2) ∧
      (handleData t accepts).1.fanOut = fan ∧
      ∀ d rest, t.ahead = d :: rest → defers t d = false → (handleData t accepts).1.ahead = rest := by
  unfold WsTunnel.handleData
  split
  next hnil => exact ⟨by simpa using hsim, hfan, by simp [hnil]⟩
  next d ahead hahead =>
    rw [hahead]
    split
    next hdef =>
      refine ⟨by simpa using hsim, hfan, ?_⟩
      rintro d' rest ⟨rfl, rfl⟩ hno
      rw [hdef] at hno
      cases hno
    next hdef =>
      cases hsim with
      | closed done f todo hfs hno hclose houts hoff =>
        rw [if_neg (by simp [hoff])]
        refine ⟨.closed done f todo hfs hno hclose (by simpa using houts) hoff, hfan, ?_⟩
        rintro d' rest ⟨rfl, rfl⟩ -
        rfl
      | running done todo hfs hno houts hact hbytes =>
        obtain ⟨hpad, hlen⟩ := hfit hact d (by simp [hahead])
        have hbody : d.payload = d.body := by simp [DataFrame.payload, hpad]
        rw [if_pos hact]
        unfold wsHandleData
        have hroom : ¬ t.wsBuf.length + d.payload.length > WS_BUF_SIZE := by
          intro hbig
          rw [hbody] at hbig
          by_cases hf : t.fanOut = true
          · -- Not deferred on a fan-out route, the buffer is empty and nothing is left over in it.
            have hzero : t.wsBuf.length = 0 := by
              simp only [defers, hact, hf, hbody, hbig, decide_true, Bool.and_true, Bool.true_and,
                decide_eq_true_eq] at hdef
              omega
            omega
          · rw [if_neg hf] at hlen
            omega
        rw [if_neg (by exact hroom)]
        have hnext : Sim fan fs { t with ahead := ahead, wsBuf := t.wsBuf ++ d.payload } outs := by
          refine .running done todo hfs hno houts hact ?_
          change t.wsBuf ++ d.payload ++ ahead.flatMap DataFrame.body = _
          rw [hbody, append_assoc, ← hbytes, hahead, flatMap_cons]
        obtain ⟨h, hdr⟩ := hnext.drainLoop hfin (t.wsBuf ++ d.payload).length accepts hfan
        refine ⟨h, hdr.fanOut.trans hfan, ?_⟩
        rintro d' rest ⟨rfl, rfl⟩ -
        exact hdr.ahead

theorem Sim.withBusy (hsim : Sim fan fs t outs) (b : Bool) : Sim fan fs { t with sendBusy := b } outs := by
  cases hsim with
  | running done todo hfs hno houts hact hbytes => exact .running done todo hfs hno houts hact hbytes
  | closed done f todo hfs hno hclose houts hact => exact .closed done f todo hfs hno hclose houts hact

theorem Sim.turn (hfin : fan = false → ∀ f ∈ fs, isData f → f.fin = true) (hsim : Sim fan fs t outs)
    (hfan : t.fanOut = fan) (i : Turn) (hfit : Fits t i) :
    Sim fan fs (turn t i).1 (outs ++ (turn t i).2) ∧ (turn t i).1.fanOut = fan := by
  cases i with
  | flushed => exact ⟨by simpa [WsTunnel.turn] using hsim.withBusy false, hfan⟩
  | busy => exact ⟨by simpa [WsTunnel.turn] using hsim.withBusy true, hfan⟩
  | drain accepts =>
    obtain ⟨h, hdr⟩ := hsim.drainLoop hfin t.wsBuf.length accepts hfan
    exact ⟨h, hdr.fanOut.trans hfan⟩
  | data accepts =>
    unfold WsTunnel.turn
    dsimp only
    split
    · exact ⟨by simpa using hsim, hfan⟩
    · obtain ⟨h, hfan', -⟩ := hsim.handleData hfin hfan hfit accepts
      exact ⟨h, hfan'⟩

end Run

theorem headerLen_pos {h : WsHeader} (hp : parseFrame buf = .ok h) : 0 < h.headerLen := by
  have hd : wsDecodeHeader buf = .ok h := by
    unfold parseFrame at hp
    cases hw : wsDecodeHeader buf with
    | incomplete => rw [hw] at hp; cases hp
    | invalid => rw [hw] at hp; cases hp
    | ok h' =>
      rw [hw] at hp
      dsimp only at hp
      split at hp
      · cases hp
      · rw [← hp]
  have h2 := two_le_headerLen hd
  omega

theorem leftover_fuel {n m : Nat} (hn : buf.length ≤ n) (hm : buf.length ≤ m) :
    leftover n buf = leftover m buf := by
  induction n generalizing m buf with
  | zero =>
    have hnil : buf = [] := length_eq_zero_iff.mp (by omega)
    subst hnil
    cases m <;> rfl
  | succ n ih =>
    cases m with
    | zero =>
      have hnil : buf = [] := length_eq_zero_iff.mp (by omega)
      subst hnil
      rfl
    | succ m =>
      unfold leftover
      cases hp : parseFrame buf with
      | incomplete => rfl
      | invalid => rfl
      | ok h =>
        have hpos := headerLen_pos hp
        dsimp only
        split
        · exact ih (by simp; omega) (by simp; omega)
        · rfl

theorem leftover_frames (w : List ClientFrame) (c : Bytes) :
    leftover (w.flatMap encode ++ c).length (w.flatMap encode ++ c) = leftover c.length c := by
  induction w with
  | nil => rfl
  | cons f w ih =>
    have hlen := length_encode f
    have hpos := headerLen_pos (parseFrame_encode f [])
    obtain ⟨n, hn⟩ : ∃ n, ((f :: w).flatMap encode ++ c).length = n + 1 :=
      Nat.exists_eq_add_one.mpr (by simp; omega)
    rw [← ih, hn, flatMap_cons, append_assoc]
    conv_lhs => unfold leftover
    rw [parseFrame_encode]
    dsimp only
    rw [if_pos (by rw [length_append]; omega), rest_encode]
    refine leftover_fuel ?_ le_rfl
    simp only [flatMap_cons, append_assoc, length_append] at hn ⊢
    omega

theorem leftover_cut {f : ClientFrame} {p q : Bytes} (h : p ++ q = f.encode) (hq : q ≠ []) :
    leftover p.length p = p := by
  cases hn : p.length with
  | zero => rfl
  | succ n =>
    unfold leftover
    rcases parseFrame_cut h hq with hp | ⟨hp, hlen⟩
    · rw [hp]
    · rw [hp]
      dsimp only
      rw [if_neg (by omega)]

/-! ### Nothing is left waiting for ever -/

def Waiting (buf : Bytes) : Prop := buf = [] ∨ ∃ (f : ClientFrame) (q : Bytes), buf ++ q = f.encode ∧ q ≠ []

theorem Waiting.leftover_eq (h : Waiting buf) : leftover buf.length buf = buf := by
  rcases h with rfl | ⟨f, q, hq, hne⟩
  · rfl
  · exact leftover_cut hq hne

section Live

variable {fan : Bool} {fs : List ClientFrame} {t : Tunnel} {outs : List TunnelOut}

/-- With `send_buf` free and a seam that takes frames, a drain takes the whole frame at the front. -/
theorem drain_shrinks (hfin : fan = false → ∀ f ∈ fs, isData f → f.fin = true) (hsim : Sim fan fs t outs)
    (hfan : t.fanOut = fan) (hact : t.wsActive = true) (hfree : t.sendBusy = false) {f : ClientFrame} {c : Bytes}
    (hf : f ∈ fs) (hc : t.wsBuf = f.encode ++ c) :
    (wsDrainBuf t [true]).1.wsActive = true → (wsDrainBuf t [true]).1.wsBuf.length < t.wsBuf.length := by
  have hpos := headerLen_pos (parseFrame_encode f [])
  have hlen : t.wsBuf.length = f.header.headerLen + f.header.payloadLen + c.length := by
    rw [hc, length_append, length_encode]
  have hne : t.wsBuf ≠ [] := by
    intro hnil
    rw [hnil] at hlen
    simp at hlen
    omega
  have hd : drains t = true := by simp [drains, hact, hfree, hne]
  obtain ⟨n, hn⟩ : ∃ n, t.wsBuf.length = n + 1 := Nat.exists_eq_add_one.mpr (by omega)
  intro hon
  unfold wsDrainBuf at hon ⊢
  obtain ⟨hone, hdr⟩ := hsim.drainOne hfan hfin hd true
  have hff : t.fanOut = false → isData f → f.fin = true := fun h0 hdata => hfin (hfan ▸ h0) f hf hdata
  rw [hn] at hon ⊢
  unfold drainLoop at hon ⊢
  rw [if_pos hd] at hon ⊢
  dsimp only [List.headD_cons, tail_cons] at hon ⊢
  rcases drainOne_whole true hc hff with ⟨-, hbad⟩ | ⟨-, busy, again, he⟩ | ⟨-, he⟩
  · rw [hfree] at hbad
    simp at hbad
  · rw [he] at hone hdr hon ⊢
    dsimp only at hon ⊢
    cases again with
    | false =>
      simp only [false_eq_true, if_false] at hon ⊢
      omega
    | true =>
      simp only [if_true] at hon ⊢
      obtain ⟨-, hdr'⟩ := Sim.drainLoop hfin n [] hone hfan
      obtain ⟨w, hw⟩ := hdr'.taken hon
      have hle := congrArg List.length hw
      rw [length_append] at hle
      dsimp only at hle
      omega
  · rw [he] at hon
    dsimp only at hon
    simp at hon

structure Settles (fan : Bool) (fs : List ClientFrame) (t t' : Tunnel) (outs : List TunnelOut) : Prop where
  sim : Sim fan fs t' outs
  fanOut : t'.fanOut = fan
  ahead : t'.ahead = t.ahead
  free : t'.sendBusy = false
  taken : t'.wsActive = true → ∃ w : List ClientFrame, t.wsBuf = w.flatMap encode ++ t'.wsBuf
  waiting : t'.wsActive = true → Waiting t'.wsBuf

theorem flushed_settles (hsim : Sim fan fs t outs) (hfan : t.fanOut = fan)
    (hw : t.wsActive = true → Waiting t.wsBuf) :
    Settles fan fs t (machine.run t [.flushed]).1 (outs ++ (machine.run t [.flushed]).2) where
  sim := by
    have h : outs ++ (machine.run t [.flushed]).2 = outs := append_nil outs
    rw [h]
    exact hsim.withBusy false
  fanOut := hfan
  ahead := rfl
  free := rfl
  taken _ := ⟨[], rfl⟩
  waiting := hw

theorem settles (hfin : fan = false → ∀ f ∈ fs, isData f → f.fin = true) (n : Nat) (hn : t.wsBuf.length ≤ n)
    (hsim : Sim fan fs t outs) (hfan : t.fanOut = fan) :
    ∃ turns, Settles fan fs t (machine.run t turns).1 (outs ++ (machine.run t turns).2) := by
  induction n generalizing t outs with
  | zero =>
    have hnil : t.wsBuf = [] := length_eq_zero_iff.mp (by omega)
    exact ⟨[.flushed], flushed_settles hsim hfan fun _ => .inl hnil⟩
  | succ n ih =>
    cases hsim with
    | closed done f todo hfs hno hclose houts hact =>
      refine ⟨[.flushed], flushed_settles (.closed done f todo hfs hno hclose houts hact) hfan fun h => ?_⟩
      rw [hact] at h
      cases h
    | running done todo hfs hno houts hact hbytes =>
      have hsim : Sim fan fs t outs := .running done todo hfs hno houts hact hbytes
      rcases front_cases hbytes with hnil | ⟨f, rest, q, -, hq, hqn⟩ | ⟨f, rest, c, rfl, hc, -⟩
      · exact ⟨[.flushed], flushed_settles hsim hfan fun _ => .inl hnil⟩
      · exact ⟨[.flushed], flushed_settles hsim hfan fun _ => .inr ⟨f, q, hq, hqn⟩⟩
      · -- The frame at the front is taken, and the shorter buffer settles.
        set u : Tunnel := { t with sendBusy := false } with hu
        have husim : Sim fan fs u outs := hsim.withBusy false
        obtain ⟨hnext, hdr⟩ := husim.drainLoop hfin u.wsBuf.length [true] hfan
        by_cases hon : (wsDrainBuf u [true]).1.wsActive = true
        · have hshort := drain_shrinks hfin husim hfan hact rfl (by rw [hfs]; simp) hc hon
          obtain ⟨turns, hset⟩ := ih (t := (wsDrainBuf u [true]).1) (by change _ < t.wsBuf.length at hshort; omega)
            hnext (hdr.fanOut.trans hfan)
          refine ⟨.flushed :: .drain [true] :: turns, ?_⟩
          have hrun : machine.run t (.flushed :: .drain [true] :: turns) =
              ((machine.run (wsDrainBuf u [true]).1 turns).1,
                (wsDrainBuf u [true]).2 ++ (machine.run (wsDrainBuf u [true]).1 turns).2) := rfl
          rw [hrun]
          refine ⟨by rw [← append_assoc]; exact hset.sim, hset.fanOut, hset.ahead.trans hdr.ahead, hset.free,
            fun ha => ?_, hset.waiting⟩
          obtain ⟨w, hw⟩ := hdr.taken hon
          obtain ⟨w', hw'⟩ := hset.taken ha
          refine ⟨w ++ w', ?_⟩
          have hw' : (wsDrainBuf u [true]).1.wsBuf = _ := hw'
          change t.wsBuf = w.flatMap encode ++ (wsDrainBuf u [true]).1.wsBuf at hw
          rw [hw, hw', flatMap_append, append_assoc]
        · have hoff : (wsDrainBuf u [true]).1.wsActive = false := by simpa using hon
          refine ⟨[.flushed, .drain [true], .flushed], ?_⟩
          have hset := flushed_settles (t := (wsDrainBuf u [true]).1) hnext (hdr.fanOut.trans hfan)
            fun h => absurd h hon
          have hrun : machine.run t [.flushed, .drain [true], .flushed] =
              ((machine.run (wsDrainBuf u [true]).1 [.flushed]).1,
                (wsDrainBuf u [true]).2 ++ (machine.run (wsDrainBuf u [true]).1 [.flushed]).2) := rfl
          rw [hrun]
          exact ⟨by rw [← append_assoc]; exact hset.sim, hset.fanOut, hset.ahead.trans hdr.ahead, hset.free,
            fun ha => absurd ha hon, hset.waiting⟩

end Live

structure Treats (fs : List ClientFrame) (t : Tunnel) (outs : List TunnelOut) : Prop where
  /-- The client's frames were answered in order, up to some point, and nothing else was put out. -/
  inOrder : ∃ n, outs = answers t.fanOut ((upToClose fs).take n)
  ended : t.wsActive = false → outs = answers t.fanOut (upToClose fs) ∧ ∃ f ∈ fs, f.opcode = WS_OP_CLOSE
  takes : ∀ d rest, t.ahead = d :: rest → FitsBuffer t d → ∃ turns, (machine.run t turns).1.ahead = rest
  /-- With all DATA frames taken, every frame is answered in the end. -/
  all : t.ahead = [] → ∃ turns, outs ++ (machine.run t turns).2 = answers t.fanOut (upToClose fs)

section Main

variable {fan : Bool} {fs : List ClientFrame} {t : Tunnel} {outs : List TunnelOut}

theorem upToClose_eq_self {l : List ClientFrame} (h : ∀ f ∈ l, f.opcode ≠ WS_OP_CLOSE) : upToClose l = l := by
  have := upToClose_append h []
  simpa [upToClose] using this

theorem Sim.closed_outs {done todo : List ClientFrame} {f : ClientFrame} (hfs : fs = done ++ f :: todo)
    (hno : ∀ f ∈ done, f.opcode ≠ WS_OP_CLOSE) (hclose : f.opcode = WS_OP_CLOSE) :
    upToClose fs = done ++ [f] := by
  rw [hfs, upToClose_append hno, upToClose_close hclose]

theorem takes_of_settles (hfin : fan = false → ∀ f ∈ fs, isData f → f.fin = true) (hsim : Sim fan fs t outs)
    (hfan : t.fanOut = fan) {d : DataFrame} {rest : List DataFrame} (hahead : t.ahead = d :: rest)
    (hfit : FitsBuffer t d) : ∃ turns, (machine.run t turns).1.ahead = rest := by
  obtain ⟨turns, hset⟩ := settles hfin t.wsBuf.length le_rfl hsim hfan
  refine ⟨turns ++ [Turn.data []], ?_⟩
  rw [Machine.run_concat]
  revert hset
  generalize machine.run t turns = r
  intro hset
  have hbody : d.payload = d.body := by simp [DataFrame.payload, hfit.1]
  have hshort : r.1.wsActive = true → r.1.wsBuf.length + d.body.length ≤ WS_BUF_SIZE := by
    intro hact
    obtain ⟨w, hw⟩ := hset.taken hact
    have hlen := hfit.2
    have hle := congrArg List.length hw
    rw [length_append] at hle
    by_cases hf : t.fanOut = true
    · rw [if_pos hf, hw, leftover_frames, (hset.waiting hact).leftover_eq] at hlen
      exact hlen
    · rw [if_neg hf] at hlen
      omega
  have hahead' : r.1.ahead = d :: rest := hset.ahead.trans hahead
  have hdef : defers r.1 d = false := by
    by_cases hact : r.1.wsActive = true
    · have := hshort hact
      simp only [defers, hbody, Bool.and_eq_false_iff, decide_eq_false_iff_not]
      exact .inl (.inl (.inr (by omega)))
    · simp [defers, hact]
  change (WsTunnel.turn r.1 (.data [])).1.ahead = rest
  unfold WsTunnel.turn
  dsimp only
  rw [if_neg (by simp [hset.free])]
  refine (hset.sim.handleData hfin hset.fanOut ?_ []).2.2 d rest hahead' hdef
  intro hact d' hd'
  rw [hahead'] at hd'
  cases hd'
  refine ⟨hfit.1, ?_⟩
  rw [(hset.waiting hact).leftover_eq]
  simpa using hshort hact

theorem Waiting.todo_nil {todo : List ClientFrame} (h : Waiting buf) (he : buf = todo.flatMap encode) :
    todo = [] := by
  cases todo with
  | nil => rfl
  | cons f rest =>
    have hpos := headerLen_pos (parseFrame_encode f [])
    rw [flatMap_cons] at he
    rcases h with rfl | ⟨g, q, hq, hne⟩
    · have hlen := congrArg List.length he
      rw [length_append, length_encode] at hlen
      simp at hlen
      omega
    · rcases parseFrame_cut hq hne with hp | ⟨hp, hlen⟩
      · rw [he, parseFrame_encode] at hp
        cases hp
      · rw [he, parseFrame_encode] at hp
        rw [← WsParse.ok.inj hp, he, length_append, length_encode] at hlen
        omega

theorem treats_of_sim (hfin : fan = false → ∀ f ∈ fs, isData f → f.fin = true) (hsim : Sim fan fs t outs)
    (hfan : t.fanOut = fan) : Treats fs t outs where
  inOrder := by
    rw [hfan]
    cases hsim with
    | running done todo hfs hno houts _ _ =>
      exact ⟨done.length, by rw [houts, hfs, upToClose_append hno, take_left]⟩
    | closed done f todo hfs hno hclose houts _ =>
      exact ⟨(done ++ [f]).length, by rw [houts, Sim.closed_outs hfs hno hclose, take_length]⟩
  ended hoff := by
    rw [hfan]
    cases hsim with
    | running done todo _ _ _ hact _ =>
      rw [hact] at hoff
      cases hoff
    | closed done f todo hfs hno hclose houts _ =>
      exact ⟨by rw [houts, Sim.closed_outs hfs hno hclose], f, by rw [hfs]; simp, hclose⟩
  takes _ _ hahead hfit := takes_of_settles hfin hsim hfan hahead hfit
  all hnil := by
    obtain ⟨turns, hset⟩ := settles hfin t.wsBuf.length le_rfl hsim hfan
    refine ⟨turns, ?_⟩
    rw [hfan]
    cases hset.sim with
    | running done todo hfs hno houts hact hbytes =>
      rw [hset.ahead, hnil, flatMap_nil, append_nil] at hbytes
      have htodo := (hset.waiting hact).todo_nil hbytes
      rw [htodo, append_nil] at hfs
      rw [houts, hfs, upToClose_eq_self hno]
    | closed done f todo hfs hno hclose houts _ => rw [houts, Sim.closed_outs hfs hno hclose]

/-- For every cut in which each DATA frame is unpadded and fits, the tunnel treats exactly the client's frames, in
order. On a plain route they must be whole messages. -/
theorem tunnel_treats_frames (fan : Bool) (fs : List ClientFrame) (ds : List DataFrame)
    (hcut : ds.flatMap DataFrame.body = fs.flatMap encode)
    (hfin : fan = false → ∀ f ∈ fs, isData f → f.fin = true) (turns : List Turn)
    (hfit : machine.Along Fits (accepted fan ds) turns) :
    Treats fs (machine.run (accepted fan ds) turns).1 (machine.run (accepted fan ds) turns).2 := by
  have hinit : Sim fan fs (accepted fan ds) [] ∧ (accepted fan ds).fanOut = fan :=
    ⟨.running [] fs rfl (by simp) rfl rfl hcut, rfl⟩
  have hrun := machine.run_log_invariant (I := fun t outs => Sim fan fs t outs ∧ t.fanOut = fan)
    (fun t outs i h hi => h.1.turn hfin h.2 i hi) hinit hfit
  exact treats_of_sim hfin hrun.1 hrun.2

end Main

def zeros (opcode : UInt8) (n : Nat) (hop : wsIsValidOpcode opcode = true)
    (hctl : wsIsControlOpcode opcode = true → n ≤ 125) (hn : n ≤ 65535) : ClientFrame where
  fin := true
  opcode := opcode
  mask := ⟨[1, 2, 3, 4], rfl⟩
  payload := List.replicate n 0
  opcode_valid := hop
  control h := ⟨rfl, by simpa using hctl h⟩
  short := by simpa using hn

def shortText : ClientFrame := zeros WS_OP_TEXT 3 (by decide) (by decide) (by decide)
def emptyPing : ClientFrame := zeros WS_OP_PING 0 (by decide) (by decide) (by decide)

def cutAt (n : Nat) (fs : List ClientFrame) : List DataFrame :=
  [{ body := (fs.flatMap encode).take n }, { body := (fs.flatMap encode).drop n }]

theorem tunnel_treats_frames_shortText :
    Treats [shortText, emptyPing] (machine.run (accepted false (cutAt 4 [shortText, emptyPing])) [.data [], .data []]).1
      (machine.run (accepted false (cutAt 4 [shortText, emptyPing])) [.data [], .data []]).2 :=
  tunnel_treats_frames false [shortText, emptyPing] (cutAt 4 [shortText, emptyPing]) (by decide)
    (by simp [shortText, emptyPing, zeros]) [.data [], .data []] (by decide)

def pings : List ClientFrame := List.replicate 86 emptyPing

/-- Two DATA frames of 4 and 512: the first leaves a frame begun, the second closes the tunnel with 1009. -/
theorem tunnel_closed_too_big :
    (∀ f ∈ pings, f.encode.length ≤ WS_BUF_SIZE) ∧
      (∀ d ∈ cutAt 4 pings, d.pad = none ∧ d.payload.length ≤ WS_BUF_SIZE) ∧
      (machine.run (accepted false (cutAt 4 pings)) [.data [], .data []]).2 =
        [.data (writeFrameFin (SEND_BUF_SIZE - FRAME_HEADER_LEN) true WS_OP_CLOSE (Bytes.be16 1009)) true] ∧
      ¬ Treats pings (machine.run (accepted false (cutAt 4 pings)) [.data [], .data []]).1
        (machine.run (accepted false (cutAt 4 pings)) [.data [], .data []]).2 := by
  refine ⟨by decide +kernel, by decide +kernel, by decide +kernel, fun h => ?_⟩
  obtain ⟨-, f, hf, hclose⟩ := h.ended (by decide +kernel)
  rw [eq_of_mem_replicate hf] at hclose
  cases hclose

end Wave.Http.WsTunnel
