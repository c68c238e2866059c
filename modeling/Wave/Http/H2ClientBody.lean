import Wave.Http.H2ClientTable

/-! # What the HTTP/2 client makes of an origin's frames

`ClientInv` says where the cursor stands and what each exchange was given; every step keeps it. -/

namespace Wave.Http.H2Client

open Lib Http.H2Wire

variable {n : Nat}

variable {b : Outbox} {r : Rec}

def padLen (f : Frame) : Nat := if f.header.padded then (f.payload.at0 0).toNat else 0

def dataBody (f : Frame) : Bytes :=
  (f.payload.drop f.header.padded.toNat).take (f.payload.length - (padLen f + f.header.padded.toNat))

def bodies (sid : Nat) (fs : List Frame) : Bytes :=
  fs.flatMap fun f => if f.ftype = FRAME_DATA ∧ f.id = sid then dataBody f else []

def ends (sid : Nat) (f : Frame) : Bool :=
  decide ((f.ftype = FRAME_DATA ∨ f.ftype = FRAME_HEADERS) ∧ f.id = sid) && f.header.endStream

def upToEnd (sid : Nat) : List Frame → List Frame
  | [] => []
  | f :: fs => if ends sid f then [f] else f :: upToEnd sid fs

def PadFits (f : Frame) : Prop := f.ftype = FRAME_DATA → padLen f + f.header.padded.toNat ≤ f.payload.length

def FitsBuffer (f : Frame) : Prop := f.ftype ≠ FRAME_DATA → f.encode.length ≤ RECV_BUF_SIZE

/-- The next message finds room: a frame other than DATA that is cut leaves `MAX_DATA_FRAGMENT` bytes free. -/
def CutsFit (frames : List Frame) (messages : List (BoundedBytes MAX_DATA_FRAGMENT)) : Prop :=
  ∀ before after, messages = before ++ after →
    ∀ (read : List Frame) (f : Frame) (todo : List Frame) (part rest : Bytes), frames = read ++ f :: todo →
      f.ftype ≠ FRAME_DATA → f.encode = part ++ rest → rest ≠ [] →
      (before.map Subtype.val).flatten = read.flatMap Frame.encode ++ part →
        part.length + MAX_DATA_FRAGMENT ≤ RECV_BUF_SIZE

section Valid

variable (E : Env)

def HeadersOk (t : Stream) (f : Frame) (fields : HeadFields) : Prop :=
  if t.headGiven then f.header.endStream = true
  else
    (200 ≤ fields.code ∧ fields.fits = true) ∨
      (100 ≤ fields.code ∧ fields.code < 200 ∧ fields.code ≠ 101 ∧ f.header.endStream = false)

/-- The frame is one that an origin may send to this client, within the scope of the module. -/
def FrameOk (c : Client) (f : Frame) : Prop :=
  if f.ftype = FRAME_DATA then
    f.id ≠ 0 ∧ padLen f + f.header.padded.toNat ≤ f.payload.length ∧ f.payload.length ≤ c.connRecvLeft ∧
      ∀ i, c.findSid f.id = some i → (c.slot i).headGiven = true ∧ f.payload.length ≤ (c.slot i).winOpen
  else
    (c.phase = .handshake → f.ftype = FRAME_SETTINGS) ∧
    (f.ftype = FRAME_HEADERS → f.flags &&& FLAG_END_HEADERS ≠ 0 ∧ f.id % 2 = 1 ∧
      ∃ off len fields, headersBlockExtent f.payload f.flags = some (off, len) ∧
        E.decodeBlock ((f.payload.drop off).take len) = some fields ∧
        ∀ i, c.findSid f.id = some i → HeadersOk (c.slot i) f fields) ∧
    (f.ftype = FRAME_SETTINGS → f.id = 0 ∧
      (f.flags &&& FLAG_ACK = 0 → f.payload.length % 6 = 0 ∧ ∃ c', settings c f.payload = .ok c')) ∧
    (f.ftype = FRAME_PING → f.id = 0 ∧ f.payload.length = 8) ∧
    (f.ftype = FRAME_GOAWAY → f.id = 0 ∧ 8 ≤ f.payload.length) ∧
    (f.ftype = FRAME_WINDOW_UPDATE → f.payload.length = 4 ∧
      (f.id = 0 → c.connSendWindow + (be32 f.payload % 2 ^ 31 : Nat) ≤ WINDOW_MAX) ∧
      ∀ i, c.findSid f.id = some i → (c.slot i).sendWindow + (be32 f.payload % 2 ^ 31 : Nat) ≤ WINDOW_MAX) ∧
    (f.ftype = FRAME_RST_STREAM → f.payload.length = 4 ∧ f.id ≠ 0) ∧
    f.ftype ≠ FRAME_PUSH_PROMISE ∧ f.ftype ≠ FRAME_CONTINUATION

def Arrived (c : Client) (f : Frame) : Prop :=
  if f.ftype = FRAME_DATA then FRAME_HEADER_LEN + f.header.padded.toNat ≤ c.recvBuf.length
  else f.encode.length ≤ c.recvBuf.length

/-- A frame that is acted on is one the origin may send, no stream is answered before it is opened, and the outbox is
not emptied under a record. -/
def Valid (frames : List Frame) (s : Session) : Event → Prop
  | .read _ => s.client.rxInData = false → ∀ f, frames[s.client.begun]? = some f → Arrived s.client f →
      FrameOk E s.client f
  | .claim _ => s.client.rxInData = true → s.client.rxSid ≠ s.client.nextSid
  | .abandon => s.client.outbox.held = none
  | .lost | .drain | .connect _ => False
  | _ => True

end Valid

/-! ### Frames of a stream -/

section Frames

variable {sid : Nat} {f : Frame} {fs : List Frame}

theorem bodies_append (sid : Nat) (l l' : List Frame) : bodies sid (l ++ l') = bodies sid l ++ bodies sid l' := by
  simp [bodies]

theorem bodies_other (h : f.ftype ≠ FRAME_DATA ∨ f.id ≠ sid) : bodies sid [f] = [] := by
  have hn : ¬(f.ftype = FRAME_DATA ∧ f.id = sid) := fun hf => h.elim (fun h => h hf.1) (fun h => h hf.2)
  simp [bodies, hn]

theorem bodies_data (hd : f.ftype = FRAME_DATA) (hid : f.id = sid) : bodies sid [f] = dataBody f := by
  simp [bodies, hd, hid]

theorem upToEnd_of_none (h : ∀ f ∈ fs, ends sid f = false) : upToEnd sid fs = fs := by
  induction fs with
  | nil => rfl
  | cons f fs ih =>
    rw [upToEnd, h f (mem_cons_self ..), if_neg (by simp), ih fun g hg => h g (mem_cons_of_mem f hg)]

theorem upToEnd_concat_of_none (h : ∀ f ∈ fs, ends sid f = false) (f : Frame) : upToEnd sid (fs ++ [f]) = fs ++ [f] := by
  induction fs with
  | nil =>
    simp only [nil_append, upToEnd]
    split <;> rfl
  | cons g fs ih =>
    rw [cons_append, upToEnd, h g (mem_cons_self ..), if_neg (by simp),
      ih fun x hx => h x (mem_cons_of_mem g hx)]

theorem upToEnd_append_of_end (h : ∃ f ∈ fs, ends sid f = true) (more : List Frame) :
    upToEnd sid (fs ++ more) = upToEnd sid fs := by
  induction fs with
  | nil => simp at h
  | cons g fs ih =>
    rw [cons_append, upToEnd, upToEnd]
    by_cases hg : ends sid g = true
    · rw [if_pos hg, if_pos hg]
    · rw [if_neg hg, if_neg hg, ih]
      obtain ⟨f, hf, he⟩ := h
      obtain rfl | hf := mem_cons.mp hf
      · exact absurd he hg
      · exact ⟨f, hf, he⟩

theorem upToEnd_front (sid : Nat) (fs more : List Frame) : upToEnd sid fs <+: upToEnd sid (fs ++ more) := by
  by_cases h : ∃ f ∈ fs, ends sid f = true
  · exact (upToEnd_append_of_end h more).symm ▸ prefix_rfl
  · have hnone : ∀ f ∈ fs, ends sid f = false := by
      intro f hf
      rw [← not_eq_true]
      exact fun he => h ⟨f, hf, he⟩
    rw [upToEnd_of_none hnone]
    clear h
    induction fs with
    | nil => exact nil_prefix
    | cons g fs ih =>
      rw [cons_append, upToEnd, hnone g (mem_cons_self ..), if_neg (by simp)]
      exact (List.prefix_cons_inj g).mpr (ih fun x hx => hnone x (mem_cons_of_mem g hx))

theorem bodies_front {l l' : List Frame} (h : l <+: l') (sid : Nat) : bodies sid l <+: bodies sid l' := by
  obtain ⟨t, rfl⟩ := h
  rw [bodies_append]
  exact prefix_append _ _

end Frames

/-- The frames whose header was taken since a stream was opened, when `n` headers have been. -/
def since (frames : List Frame) (n : Nat) (o : Opening) : List Frame := (frames.take n).drop o.start

section

variable {frames : List Frame} {o : Opening} {f : Frame}

theorem since_succ (hf : frames[n]? = some f) (hstart : o.start ≤ n) : since frames (n + 1) o = since frames n o ++ [f] := by
  obtain ⟨hlt, hget⟩ := List.getElem?_eq_some_iff.mp hf
  unfold since
  rw [List.take_add_one, hf, Option.toList_some, drop_append_of_le_length]
  rw [length_take]
  omega

theorem ended_succ (hf : frames[n]? = some f) (hstart : o.start ≤ n)
    (hend : ∃ g ∈ since frames n o, ends o.sid g = true) : (∃ g ∈ since frames (n + 1) o, ends o.sid g = true) ∧
      upToEnd o.sid (since frames (n + 1) o) = upToEnd o.sid (since frames n o) := by
  rw [since_succ hf hstart, upToEnd_append_of_end hend]
  obtain ⟨g, hg, he⟩ := hend
  exact ⟨⟨g, mem_append_left _ hg, he⟩, rfl⟩

theorem bodies_succ (hf : frames[n]? = some f) (hstart : o.start ≤ n) :
    bodies o.sid (upToEnd o.sid (since frames n o)) <+: bodies o.sid (upToEnd o.sid (since frames (n + 1) o)) := by
  rw [since_succ hf hstart]
  exact bodies_front (upToEnd_front _ _ _) _

end

def Client.closed (c : Client) : Nat := if c.rxInData then c.begun - 1 else c.begun

def unread (c : Client) (left : Bytes) (sid : Nat) : Bytes := if c.rxInData = true ∧ c.rxSid = sid then left else []

/-- The state of an exchange, when `left` is what is still to come of the body of the frame being read. -/
inductive Answer (frames : List Frame) (left : Bytes) (c : Client) (o : Opening) : Prop where
  /-- Its stream is open: what was read was forwarded, and the stream has not ended. -/
  | answering (i : Nat) (hopen : (c.slot i).state = .opened) (hkey : (c.slot i).key = o.key)
      (hstart : c.rxInData = true → c.rxSid = o.sid → o.start < c.begun)
      (hbody : bodyOf o.key c.outbox.placed ++ unread c left o.sid = bodies o.sid (since frames c.begun o))
      (hends : ∀ f ∈ since frames c.closed o, ends o.sid f = false)
      (hmore : ∀ r ∈ recsOf o.key c.outbox.placed, r.last = false)
  /-- Its stream ended: all of it was forwarded, and the last record said so. -/
  | answered (hoff : ∀ i, (c.slot i).state = .opened → (c.slot i).key ≠ o.key)
      (hdrop : ∀ cause, (o.key, cause) ∉ c.dropped) (honce : EndsOnce (recsOf o.key c.outbox.placed))
      (hend : ∃ f ∈ since frames c.begun o, ends o.sid f = true)
      (hbody : bodyOf o.key c.outbox.placed = bodies o.sid (upToEnd o.sid (since frames c.begun o)))
  /-- Its stream was taken off the connection before it ended. -/
  | dropped (hoff : ∀ i, (c.slot i).state = .opened → (c.slot i).key ≠ o.key)
      (hdrop : ∃ cause, (o.key, cause) ∈ c.dropped)
      (hbody : bodyOf o.key c.outbox.placed <+: bodies o.sid (upToEnd o.sid (since frames c.begun o)))
      (hmore : ∀ r ∈ recsOf o.key c.outbox.placed, r.last = false)

section Answers

variable {frames : List Frame} {left : Bytes} {c c' : Client} {o : Opening}

@[simp] theorem recsOf_append (key : Nat) (l l' : List Rec) : recsOf key (l ++ l') = recsOf key l ++ recsOf key l' := by
  simp [recsOf]

@[simp] theorem bodyOf_append (key : Nat) (l l' : List Rec) : bodyOf key (l ++ l') = bodyOf key l ++ bodyOf key l' := by
  simp [bodyOf]

theorem recsOf_none {key : Nat} {l : List Rec} (h : ∀ r ∈ l, r.key ≠ some key) : recsOf key l = [] := by
  unfold recsOf
  rw [List.filter_eq_nil_iff]
  intro r hr
  simp [h r hr]

theorem bodyOf_none {key : Nat} {l : List Rec} (h : ∀ r ∈ l, r.key = some key → r.bytes = []) : bodyOf key l = [] := by
  unfold bodyOf recsOf
  rw [List.flatMap_eq_nil_iff]
  intro r hr
  rw [mem_filter] at hr
  exact h r hr.1 (by simpa using hr.2)

theorem upToEnd_since (hstart : o.start ≤ c.begun) (hbegun : c.begun ≤ frames.length)
    (hpos : c.rxInData = true → 0 < c.begun) (hends : ∀ f ∈ since frames c.closed o, ends o.sid f = false) :
    upToEnd o.sid (since frames c.begun o) = since frames c.begun o := by
  by_cases hin : c.rxInData = true
  · have hp := hpos hin
    have hclosed : c.closed = c.begun - 1 := by
      unfold Client.closed
      rw [if_pos hin]
    rw [hclosed] at hends
    by_cases heq : o.start = c.begun
    · have hnil : since frames c.begun o = [] := by
        unfold since
        rw [drop_eq_nil_iff, length_take]
        omega
      rw [hnil]
      rfl
    · have hlt : c.begun - 1 < frames.length := by omega
      have hsucc := since_succ (o := o) (List.getElem?_eq_getElem hlt) (by omega : o.start ≤ c.begun - 1)
      rw [show c.begun - 1 + 1 = c.begun by omega] at hsucc
      rw [hsucc]
      exact upToEnd_concat_of_none hends _
  · have hclosed : c.closed = c.begun := by
      unfold Client.closed
      rw [if_neg hin]
    rw [hclosed] at hends
    exact upToEnd_of_none hends

theorem Answer.dropped_front (hstart : o.start ≤ c.begun) (hbegun : c.begun ≤ frames.length)
    (hpos : c.rxInData = true → 0 < c.begun)
    (hbody : bodyOf o.key c.outbox.placed ++ unread c left o.sid = bodies o.sid (since frames c.begun o))
    (hends : ∀ f ∈ since frames c.closed o, ends o.sid f = false) :
    bodyOf o.key c.outbox.placed <+: bodies o.sid (upToEnd o.sid (since frames c.begun o)) := by
  rw [upToEnd_since hstart hbegun hpos hends, ← hbody]
  exact prefix_append _ _

theorem Answer.keeps (h : Answer frames left c o) (hk : Keeps c c') (hstart : o.start ≤ c.begun)
    (hbegun : c.begun ≤ frames.length) (hpos : c.rxInData = true → 0 < c.begun) : Answer frames left c' o := by
  have hr := hk.reading
  simp only [Prod.mk.injEq] at hr
  obtain ⟨hr1, hr2, hr3, hr4, hr5, hr6, hr7⟩ := hr
  have hclosed : c'.closed = c.closed := by
    unfold Client.closed
    rw [hr1, hr7]
  have hun : unread c' left o.sid = unread c left o.sid := by
    unfold unread
    rw [hr1, hr3]
  obtain ⟨new, hnew, hnewq⟩ := hk.placed
  obtain ⟨more, hmore, hmoreq⟩ := hk.dropped
  have hbodyNew : bodyOf o.key c'.outbox.placed = bodyOf o.key c.outbox.placed := by
    rw [hnew, bodyOf_append, bodyOf_none fun r hr hk => (hnewq r hr _ hk).1, append_nil]
  have hlastNew : (∀ r ∈ recsOf o.key c.outbox.placed, r.last = false) →
      ∀ r ∈ recsOf o.key c'.outbox.placed, r.last = false := by
    intro hl r hr
    rw [hnew, recsOf_append] at hr
    obtain hr | hr := mem_append.mp hr
    · exact hl r hr
    · unfold recsOf at hr
      rw [mem_filter] at hr
      exact (hnewq r hr.1 o.key (by simpa using hr.2)).2.1
  have hoff' : (∀ i, (c.slot i).state = .opened → (c.slot i).key ≠ o.key) →
      ∀ i, (c'.slot i).state = .opened → (c'.slot i).key ≠ o.key := by
    intro hoff i hi
    obtain ⟨g1, g2, _, _⟩ := hk.stays i hi
    rw [g2]
    exact hoff i g1
  cases h with
  | answering i hopen hkey hst hbody hends hlast =>
    by_cases hex : ∃ j, (c'.slot j).state = .opened ∧ (c'.slot j).key = o.key
    · obtain ⟨j, hj, hjk⟩ := hex
      refine Answer.answering j hj hjk ?_ ?_ ?_ (hlastNew hlast)
      · rw [hr1, hr3, hr7]
        exact hst
      · rw [hbodyNew, hun, hr7]
        exact hbody
      · rw [hclosed]
        exact hends
    · obtain hstay | ⟨cause, hc⟩ := hk.leaves i hopen
      · exact absurd ⟨i, hstay, (hk.stays i hstay).2.1.trans hkey⟩ hex
      · refine Answer.dropped (fun j hj hjk => hex ⟨j, hj, hjk⟩) ⟨cause, hkey ▸ hc⟩ ?_ (hlastNew hlast)
        rw [hbodyNew, hr7]
        exact Answer.dropped_front hstart hbegun hpos hbody hends
  | answered hoff hdrop honce hend hbody =>
    have hdrop' : ∀ cause, (o.key, cause) ∉ c'.dropped := by
      intro cause hc
      rw [hmore] at hc
      obtain hc | hc := mem_append.mp hc
      · exact hdrop cause hc
      · obtain ⟨_, j, hj, hjk⟩ := hmoreq _ hc
        exact hoff j hj hjk
    have hnone : recsOf o.key new = [] := by
      apply recsOf_none
      intro r hr hk
      obtain ⟨_, _, cause, hc⟩ := hnewq r hr _ hk
      exact hdrop' cause hc
    have hrecs : recsOf o.key c'.outbox.placed = recsOf o.key c.outbox.placed := by
      rw [hnew, recsOf_append, hnone, append_nil]
    refine Answer.answered (hoff' hoff) hdrop' ?_ ?_ ?_
    · rw [hrecs]
      exact honce
    · rw [hr7]
      exact hend
    · rw [hbodyNew, hr7]
      exact hbody
  | dropped hoff hdrop hbody hlast =>
    obtain ⟨cause, hc⟩ := hdrop
    refine Answer.dropped (hoff' hoff) ⟨cause, ?_⟩ ?_ (hlastNew hlast)
    · rw [hmore]
      exact mem_append_left _ hc
    · rw [hbodyNew, hr7]
      exact hbody

theorem Answer.beginData (h : Answer frames [] c o) {f : Frame} (hf : frames[c.begun]? = some f)
    (hd : f.ftype = FRAME_DATA) (hin : c.rxInData = false) (hstart : o.start ≤ c.begun) (buf : Bytes) (l p : Nat)
    (e : Bool) :
    Answer frames (dataBody f)
      { c with rxInData := true, rxEnd := e, rxSid := f.id, rxLeft := l, rxPad := p, recvBuf := buf,
               begun := c.begun + 1 } o := by
  have hsucc := since_succ hf hstart
  have hnone : unread c [] o.sid = [] := by
    unfold unread
    rw [ite_self]
  cases h with
  | answering i hopen hkey _ hbody hends hmore =>
    rw [hnone, append_nil] at hbody
    refine Answer.answering i hopen hkey ?_ ?_ ?_ hmore
    · intro _ _
      change o.start < c.begun + 1
      omega
    · change bodyOf o.key c.outbox.placed ++ (if true = true ∧ f.id = o.sid then dataBody f else []) =
        bodies o.sid (since frames (c.begun + 1) o)
      rw [hbody, hsucc, bodies_append]
      by_cases hid : f.id = o.sid
      · rw [if_pos ⟨rfl, hid⟩, bodies_data hd hid]
      · rw [if_neg fun h => hid h.2, bodies_other (Or.inr hid)]
    · have hclosed : c.closed = c.begun := by
        unfold Client.closed
        rw [hin]
        rfl
      rw [hclosed] at hends
      exact hends
  | answered hoff hdrop honce hend hbody =>
    obtain ⟨hend', hup⟩ := ended_succ hf hstart hend
    exact Answer.answered hoff hdrop honce hend' (hbody.trans (congrArg _ hup.symm))
  | dropped hoff hdrop hbody hmore =>
    exact Answer.dropped hoff hdrop (hbody.trans (bodies_succ hf hstart)) hmore

theorem Answer.skip (h : Answer frames [] c o) {f : Frame} (hf : frames[c.begun]? = some f)
    (hd : f.ftype ≠ FRAME_DATA) (hin : c.rxInData = false) (hstart : o.start ≤ c.begun) (buf : Bytes)
    (hnot : ∀ i, (c.slot i).state = .opened → (c.slot i).key = o.key → ends o.sid f = false) :
    Answer frames [] { c with recvBuf := buf, begun := c.begun + 1 } o := by
  have hsucc := since_succ hf hstart
  have hclosed : ∀ buf n, Client.closed { c with recvBuf := buf, begun := n } = n := by
    intro buf n
    unfold Client.closed
    dsimp only
    rw [hin]
    rfl
  cases h with
  | answering i hopen hkey hst hbody hends hmore =>
    refine Answer.answering i hopen hkey ?_ ?_ ?_ hmore
    · intro hin' _
      rw [show c.rxInData = false from hin] at hin'
      cases hin'
    · change bodyOf o.key c.outbox.placed ++ unread c [] o.sid = bodies o.sid (since frames (c.begun + 1) o)
      rw [hbody, hsucc, bodies_append, bodies_other (Or.inl hd), append_nil]
    · rw [hclosed]
      change ∀ g ∈ since frames (c.begun + 1) o, ends o.sid g = false
      rw [hsucc]
      intro g hg
      obtain hg | hg := mem_append.mp hg
      · exact hends g (by rw [show c.closed = c.begun from hclosed c.recvBuf c.begun]; exact hg)
      · rw [mem_singleton] at hg
        subst hg
        exact hnot i hopen hkey
  | answered hoff hdrop honce hend hbody =>
    obtain ⟨hend', hup⟩ := ended_succ hf hstart hend
    exact Answer.answered hoff hdrop honce hend' (hbody.trans (congrArg _ hup.symm))
  | dropped hoff hdrop hbody hmore =>
    exact Answer.dropped hoff hdrop (hbody.trans (bodies_succ hf hstart)) hmore

theorem Answer.place_other (h : Answer frames left c o)
    (hb : b.placed = c.outbox.placed ++ [r]) (hr : r.key ≠ some o.key) :
    Answer frames left { c with outbox := b } o := by
  have hnone : recsOf o.key [r] = [] := recsOf_none (by simpa using hr)
  have hrecs : recsOf o.key b.placed = recsOf o.key c.outbox.placed := by
    rw [hb, recsOf_append, hnone, append_nil]
  have hbody : bodyOf o.key b.placed = bodyOf o.key c.outbox.placed := by
    unfold bodyOf
    rw [hrecs]
  cases h with
  | answering i hopen hkey hst hbod hends hmore =>
    exact Answer.answering i hopen hkey hst (by rw [hbody]; exact hbod) hends (by rw [hrecs]; exact hmore)
  | answered hoff hdrop honce hend hbod =>
    exact Answer.answered hoff hdrop (by rw [hrecs]; exact honce) hend (by rw [hbody]; exact hbod)
  | dropped hoff hdrop hbod hmore =>
    exact Answer.dropped hoff hdrop (by rw [hbody]; exact hbod) (by rw [hrecs]; exact hmore)

theorem Answer.place_own (h : Answer frames left c o) {i : Nat} (hrk : r.key = some o.key)
    (hb : b.placed = c.outbox.placed ++ [r]) (hrb : r.bytes = []) (hrl : r.last = false)
    (hi : (c.slot i).state = .opened) (hk : (c.slot i).key = o.key) : Answer frames left { c with outbox := b } o := by
  have hrecs : recsOf o.key [r] = [r] := by simp [recsOf, hrk]
  have hbody : bodyOf o.key b.placed = bodyOf o.key c.outbox.placed := by
    rw [hb, bodyOf_append, bodyOf_none (l := [r]) (by simp [hrb]), append_nil]
  cases h with
  | answering j hopen hkey hst hbod hends hmore =>
    refine Answer.answering j hopen hkey hst (by rw [hbody]; exact hbod) hends ?_
    intro x hx
    obtain hx | hx := mem_append.mp (by rwa [hb, recsOf_append, hrecs] at hx :
      x ∈ recsOf o.key c.outbox.placed ++ [r])
    · exact hmore x hx
    · rw [mem_singleton] at hx
      rw [hx]
      exact hrl
  | answered hoff _ _ _ _ => exact absurd hk (hoff i hi)
  | dropped hoff _ _ _ => exact absurd hk (hoff i hi)

theorem Answer.finish_other (h : Answer frames left c o) {i : Nat} (hi : (c.slot i).state = .opened)
    (hne : (c.slot i).key ≠ o.key) : Answer frames left (c.finish i) o := by
  have hself : ((c.finish i).slot i).state = .done := (takeOff_slot_self (lt_of_opened hi) _ _).1
  have hslot : ∀ j, j ≠ i → (c.finish i).slot j = c.slot j := fun j hj => takeOff_slot_ne hj _ _
  have hoff' : (∀ j, (c.slot j).state = .opened → (c.slot j).key ≠ o.key) →
      ∀ j, ((c.finish i).slot j).state = .opened → ((c.finish i).slot j).key ≠ o.key := by
    intro hoff j hj
    by_cases hij : j = i
    · rw [hij, hself] at hj
      cases hj
    · rw [hslot j hij] at hj ⊢
      exact hoff j hj
  cases h with
  | answering j hopen hkey hst hbody hends hmore =>
    have hij : j ≠ i := by
      intro hij
      exact hne (hij ▸ hkey)
    exact Answer.answering j (by rw [hslot j hij]; exact hopen) (by rw [hslot j hij]; exact hkey) hst hbody hends hmore
  | answered hoff hdrop honce hend hbody => exact Answer.answered (hoff' hoff) hdrop honce hend hbody
  | dropped hoff hdrop hbody hmore => exact Answer.dropped (hoff' hoff) hdrop hbody hmore

theorem Answer.read_other (h : Answer frames left c o) (left' : Bytes) (buf : Bytes) (l p : Nat)
    (hne : ∀ i, (c.slot i).state = .opened → (c.slot i).key = o.key → c.rxSid ≠ o.sid) :
    Answer frames left' { c with rxLeft := l, rxPad := p, recvBuf := buf } o := by
  cases h with
  | answering i hopen hkey hst hbody hends hmore =>
    have hsid := hne i hopen hkey
    have hun : ∀ x, unread c x o.sid = [] := fun x => if_neg fun h => hsid h.2
    refine Answer.answering i hopen hkey hst ?_ hends hmore
    change bodyOf o.key c.outbox.placed ++ unread c left' o.sid = _
    rw [hun left] at hbody
    rw [hun left']
    exact hbody
  | answered hoff hdrop honce hend hbody => exact Answer.answered hoff hdrop honce hend hbody
  | dropped hoff hdrop hbody hmore => exact Answer.dropped hoff hdrop hbody hmore

theorem Answer.endData (h : Answer frames [] c o) {f : Frame} (hin : c.rxInData = true) (hpos : 0 < c.begun)
    (hf : frames[c.begun - 1]? = some f) (hnot : ∀ i, (c.slot i).state = .opened → (c.slot i).key = o.key →
      ends o.sid f = false) (hstart : o.start ≤ c.begun) : Answer frames [] { c with rxInData := false } o := by
  cases h with
  | answering i hopen hkey hst hbody hends hmore =>
    have hun : ∀ c₁ : Client, unread c₁ [] o.sid = [] := fun c₁ => by
      unfold unread
      rw [ite_self]
    refine Answer.answering i hopen hkey (by nofun) ?_ ?_ hmore
    · rw [hun] at hbody ⊢
      exact hbody
    · change ∀ g ∈ since frames c.begun o, ends o.sid g = false
      have hclosed : c.closed = c.begun - 1 := by
        unfold Client.closed
        rw [if_pos hin]
      rw [hclosed] at hends
      intro g hg
      by_cases heq : o.start = c.begun
      · have hnil : since frames c.begun o = [] := by
          unfold since
          rw [drop_eq_nil_iff, length_take]
          omega
        rw [hnil] at hg
        cases hg
      · have hsucc := since_succ hf (by omega : o.start ≤ c.begun - 1)
        rw [show c.begun - 1 + 1 = c.begun by omega] at hsucc
        rw [hsucc] at hg
        obtain hg | hg := mem_append.mp hg
        · exact hends g hg
        · rw [mem_singleton] at hg
          subst hg
          exact hnot i hopen hkey
  | answered hoff hdrop honce hend hbody => exact Answer.answered hoff hdrop honce hend hbody
  | dropped hoff hdrop hbody hmore => exact Answer.dropped hoff hdrop hbody hmore

end Answers

/-! ### The table while frames are read -/

section ReadTable

variable {c : Client} {i : Nat}

section

variable (h : TableInv c)

include h

theorem TableInv.opening_eq {o : Opening} (ho : o ∈ c.openings) (hi : (c.slot i).state = .opened)
    (hk : (c.slot i).key = o.key) : o.sid = (c.slot i).sid ∧ o.id = (c.slot i).id := by
  obtain ⟨o', ho', hk', hs', hid'⟩ := h.opened i hi
  rw [h.opening_inj ho ho' (hk.symm.trans hk'.symm)]
  exact ⟨hs', hid'⟩

theorem TableInv.place (hi : (c.slot i).state = .opened)
    (hb : b.placed = c.outbox.placed ++ [r]) (hr : r.key = some (c.slot i).key)
    (hid : r.exchange = some (c.slot i).id) : TableInv { c with outbox := b } := by
  refine ⟨h.opened, h.unique, h.owed, h.openings, h.nextSid, ?_, h.dropped, h.live, h.taken, ?_⟩
  · intro x hx k hk
    obtain hx | hx := mem_append.mp (hb ▸ hx : x ∈ c.outbox.placed ++ [r])
    · exact h.placed x hx k hk
    · rw [mem_singleton] at hx
      subst hx
      rw [hr, Option.some.injEq] at hk
      rw [← hk]
      exact h.key_lt hi
  · intro x hx o ho hk
    obtain hx | hx := mem_append.mp (hb ▸ hx : x ∈ c.outbox.placed ++ [r])
    · exact h.exchange x hx o ho hk
    · rw [mem_singleton] at hx
      subst hx
      rw [hr, Option.some.injEq] at hk
      rw [hid, (h.opening_eq ho hi hk).2]

theorem TableInv.finish (hi : (c.slot i).state = .opened) : TableInv (c.finish i) := by
  have hself := takeOff_slot_self (lt_of_opened hi) .nothing (if (c.slot i).localEnd then none else some .cancel)
  have hne : ∀ j, j ≠ i → (c.finish i).slot j = c.slot j := fun j hj => takeOff_slot_ne hj _ _
  have hopen : ∀ j, ((c.finish i).slot j).state = .opened → j ≠ i := by
    intro j hj hij
    rw [hij] at hj
    rw [Client.finish, hself.1] at hj
    cases hj
  refine ⟨?_, ?_, ?_, h.openings, h.nextSid, h.placed, h.dropped, ?_, ?_, h.exchange⟩
  · intro j hj
    have hs := hne j (hopen j hj)
    rw [hs] at hj ⊢
    exact h.opened j hj
  · intro j k hj hk hjk
    have hs := hne j (hopen j hj)
    have hs' := hne k (hopen k hk)
    rw [hs] at hj hjk
    rw [hs'] at hk hjk
    exact h.unique j k hj hk hjk
  · intro j hj
    by_cases hij : j = i
    · subst hij
      rw [Client.finish, hself.2.2.1] at hj
      exact absurd rfl hj
    · rw [hne j hij] at hj ⊢
      exact h.owed j hj
  · intro j hj
    have hs := hne j (hopen j hj)
    rw [hs] at hj ⊢
    exact h.live j hj
  · intro j hj
    by_cases hij : j = i
    · rw [hij, Client.finish, hself.2.1, hself.2.2.2]
      exact h.taken i (by rw [hi]; nofun)
    · rw [hne j hij] at hj ⊢
      exact h.taken j hj

theorem TableInv.reading (inData e : Bool) (sid l p : Nat) (buf : Bytes) (hn : c.begun ≤ n) :
    TableInv { c with rxInData := inData, rxEnd := e, rxSid := sid, rxLeft := l, rxPad := p, recvBuf := buf,
                      begun := n } :=
  ⟨h.opened, h.unique, h.owed,
    fun k o ho => ⟨(h.openings k o ho).1, (h.openings k o ho).2.1, (h.openings k o ho).2.2.trans hn⟩, h.nextSid,
    h.placed, h.dropped, h.live, h.taken, h.exchange⟩

theorem TableInv.start_le {o : Opening} (ho : o ∈ c.openings) : o.start ≤ c.begun := by
  obtain ⟨k, hlt, hget⟩ := mem_iff_getElem.mp ho
  exact (h.openings k o (by rw [List.getElem?_eq_getElem hlt, hget])).2.2

theorem TableInv.found (hi : (c.slot i).state = .opened) : c.findSid (c.slot i).sid = some i := by
  obtain ⟨o, ho, hk, hs, _⟩ := h.opened i hi
  obtain ⟨k, hlt, hget⟩ := mem_iff_getElem.mp ho
  have hok := h.openings k o (by rw [List.getElem?_eq_getElem hlt, hget])
  have h0 : (c.slot i).sid ≠ 0 := by omega
  cases hfind : c.findSid (c.slot i).sid with
  | none => exact absurd rfl (findSid_none hfind h0 hi)
  | some j =>
    -- a stream id belongs to one opening
    obtain ⟨hj, hsj, _⟩ := findSid_some hfind
    obtain ⟨o', ho', hk', hs', _⟩ := h.opened j hj
    obtain ⟨k', hlt', hget'⟩ := mem_iff_getElem.mp ho'
    have hok' := h.openings k' o' (by rw [List.getElem?_eq_getElem hlt', hget'])
    have hkey : (c.slot j).key = (c.slot i).key := by omega
    rw [h.unique j i hj hi hkey]

theorem TableInv.not_found {sid : Nat} {o : Opening} (ho : o ∈ c.openings)
    (hfind : ∀ j, c.findSid sid = some j → (c.slot j).key ≠ o.key) (j : Nat) (hj : (c.slot j).state = .opened)
    (hk : (c.slot j).key = o.key) : sid ≠ o.sid := by
  intro hs
  have hfound := h.found hj
  rw [← (h.opening_eq ho hj hk).1, ← hs] at hfound
  exact hfind j hfound hk

end

end ReadTable

def Session.wire (s : Session) : Bytes := (s.messages.map Subtype.val).flatten

/-- Where the client stands: what is not read is all frames from the next on, or the rest of a frame's body, its
padding, and the frames behind it. -/
inductive Cursor (frames : List Frame) (s : Session) : Bytes → Prop where
  | between (hin : s.client.rxInData = false) (hle : s.client.begun ≤ frames.length)
      (hbytes : s.client.recvBuf ++ s.wire = (frames.drop s.client.begun).flatMap Frame.encode) : Cursor frames s []
  | inside (f : Frame) (given left pads : Bytes) (hin : s.client.rxInData = true) (hpos : 0 < s.client.begun)
      (hf : frames[s.client.begun - 1]? = some f) (hdata : f.ftype = FRAME_DATA) (hsid : s.client.rxSid = f.id)
      (hend : s.client.rxEnd = f.header.endStream) (hlen : left.length = s.client.rxLeft)
      (hpad : pads.length = s.client.rxPad) (hbody : dataBody f = given ++ left)
      (hbytes : s.client.recvBuf ++ s.wire = left ++ (pads ++ (frames.drop s.client.begun).flatMap Frame.encode)) :
      Cursor frames s left

theorem Cursor.begun_le {frames : List Frame} {s : Session} {left : Bytes} (h : Cursor frames s left) :
    s.client.begun ≤ frames.length := by
  cases h with
  | between _ hle _ => exact hle
  | inside f _ _ _ _ hpos hf _ _ _ _ _ _ _ =>
    obtain ⟨hlt, _⟩ := List.getElem?_eq_some_iff.mp hf
    omega

theorem Cursor.pos {frames : List Frame} {s : Session} {left : Bytes} (h : Cursor frames s left)
    (hin : s.client.rxInData = true) : 0 < s.client.begun := by
  cases h with
  | between hin' _ _ =>
    rw [hin'] at hin
    cases hin
  | inside _ _ _ _ _ hpos _ _ _ _ _ _ _ _ => exact hpos

theorem Cursor.keeps {frames : List Frame} {s : Session} {left : Bytes} (h : Cursor frames s left) {c' : Client}
    (hk : Keeps s.client c') : Cursor frames { s with client := c' } left := by
  have hr := hk.reading
  simp only [Prod.mk.injEq] at hr
  obtain ⟨hr1, hr2, hr3, hr4, hr5, hr6, hr7⟩ := hr
  cases h with
  | between hin hle hbytes =>
    refine Cursor.between (hr1.trans hin) (hr7 ▸ hle) ?_
    change c'.recvBuf ++ s.wire = (frames.drop c'.begun).flatMap Frame.encode
    rw [hr6, hr7]
    exact hbytes
  | inside f given left pads hin hpos hf hdata hsid hend hlen hpad hbody hbytes =>
    refine Cursor.inside f given left pads (hr1.trans hin) (hr7 ▸ hpos) ?_ hdata (hr3.trans hsid)
      (hr2.trans hend) (hlen.trans hr4.symm) (hpad.trans hr5.symm) hbody ?_
    · change frames[c'.begun - 1]? = some f
      rw [hr7]
      exact hf
    · change c'.recvBuf ++ s.wire = left ++ (pads ++ (frames.drop c'.begun).flatMap Frame.encode)
      rw [hr6, hr7]
      exact hbytes

/-! ### Reading -/

structure ClientInv (frames : List Frame) (all : List (BoundedBytes MAX_DATA_FRAGMENT)) (s : Session) : Prop where
  table : TableInv s.client
  up : s.client.phase ≠ .idle
  clean : ∀ x ∈ s.client.dropped, x.2 ≠ .violation
  messages : ∃ before, all = before ++ s.messages
  reading : ∃ left, Cursor frames s left ∧ ∀ o ∈ s.client.openings, Answer frames left s.client o

section Reading

variable {frames : List Frame} {all : List (BoundedBytes MAX_DATA_FRAGMENT)} {s : Session} {E : Env}

theorem ClientInv.keeps (h : ClientInv frames all s) {c' : Client} (hk : Keeps s.client c') :
    ClientInv frames all { s with client := c' } := by
  obtain ⟨left, hcur, hans⟩ := h.reading
  obtain ⟨more, hmore, hmoreq⟩ := hk.dropped
  refine ⟨hk.table, hk.up h.up, ?_, h.messages, left, hcur.keeps hk, ?_⟩
  · intro x hx
    obtain hx | hx := mem_append.mp (hmore ▸ hx : x ∈ s.client.dropped ++ more)
    · exact h.clean x hx
    · exact (hmoreq x hx).1
  · intro o ho
    have ho' : o ∈ s.client.openings := by
      rw [← hk.openings]
      exact ho
    exact (hans o ho').keeps hk (h.table.start_le ho') hcur.begun_le hcur.pos

theorem payload_parts {f : Frame} (h : padLen f + f.header.padded.toNat ≤ f.payload.length) :
    ∃ pads, f.payload.drop f.header.padded.toNat = dataBody f ++ pads ∧ pads.length = padLen f ∧
      (dataBody f).length = f.payload.length - (padLen f + f.header.padded.toNat) := by
  have hlen : (f.payload.drop f.header.padded.toNat).length = f.payload.length - f.header.padded.toNat :=
    length_drop
  refine ⟨(f.payload.drop f.header.padded.toNat).drop (f.payload.length - (padLen f + f.header.padded.toNat)), ?_, ?_, ?_⟩
  · exact (take_append_drop _ _).symm
  · rw [length_drop, hlen]
    omega
  · unfold dataBody
    rw [length_take, hlen]
    omega

theorem dataHeader_frame {c : Client} (h : TableInv c) {f : Frame} {b : Bytes} (hd : f.ftype = FRAME_DATA)
    (hok : FrameOk E c f) (hbuf : c.recvBuf = head f.payload.length f.ftype f.flags f.word ++ b)
    (hb : f.header.padded.toNat ≤ b.length) (hat : f.header.padded = true → b.at0 0 = f.payload.at0 0) :
    ∃ c₁, Keeps c c₁ ∧ dataHeader c f.header = .ok (some
      { c₁ with
        rxInData := true
        rxEnd := f.header.endStream
        rxSid := f.id
        rxLeft := f.payload.length - (padLen f + f.header.padded.toNat)
        rxPad := padLen f
        recvBuf := b.drop f.header.padded.toNat
        begun := c₁.begun + 1 }) := by
  unfold FrameOk at hok
  rw [if_pos hd] at hok
  obtain ⟨hid, hpad, hconn, hstream⟩ := hok
  have hlen : ¬c.recvBuf.length < FRAME_HEADER_LEN + f.header.padded.toNat := by
    rw [hbuf, length_append, length_head]
    omega
  have hpadLen : (if f.header.padded = true then (c.recvBuf.at0 FRAME_HEADER_LEN).toNat else 0) = padLen f := by
    unfold padLen
    split
    next hp =>
      have hget : c.recvBuf.at0 FRAME_HEADER_LEN = b.at0 0 := by
        unfold Bytes.at0
        rw [hbuf, List.getD_append_right _ _ _ _ (le_of_eq (length_head _ _ _ _))]
        rfl
      rw [hget, hat hp]
    · rfl
  have hdrop : c.recvBuf.drop (FRAME_HEADER_LEN + f.header.padded.toNat) = b.drop f.header.padded.toNat := by
    rw [hbuf, ← drop_drop, List.drop_left' (length_head _ _ _ _)]
  have hl : f.header.length = f.payload.length := rfl
  have hi : f.header.streamId = f.id := rfl
  unfold dataHeader
  dsimp only
  rw [if_neg hlen, hi, if_neg hid, hpadLen, hl, if_neg (by omega), if_neg (by omega)]
  have hfind : Client.findSid { c with connRecvLeft := c.connRecvLeft - f.payload.length } f.id = c.findSid f.id := rfl
  rw [hfind]
  cases hc : c.findSid f.id with
  | none =>
    refine ⟨{ c with connRecvLeft := c.connRecvLeft - f.payload.length },
      Keeps.of_same h (fun _ => Same.refl _) rfl rfl rfl (fun hup => hup) rfl rfl, ?_⟩
    dsimp only [Client.consume]
    rw [hdrop]
  | some i =>
    obtain ⟨hhead, hwin⟩ := hstream i hc
    have hslot : Client.slot { c with connRecvLeft := c.connRecvLeft - f.payload.length } i = c.slot i := rfl
    have hgiven : ¬(!(c.slot i).headGiven) = true := by
      rw [hhead]
      nofun
    dsimp only
    rw [hslot, if_neg hgiven, if_neg (by omega)]
    have hsame : Same (c.slot i) { c.slot i with
        winOpen := (c.slot i).winOpen - f.payload.length
        credit := satAdd32 (c.slot i).credit (padLen f + f.header.padded.toNat) } := ⟨rfl, rfl, rfl, rfl, rfl⟩
    refine ⟨({ c with connRecvLeft := c.connRecvLeft - f.payload.length }).setSlot i { c.slot i with
        winOpen := (c.slot i).winOpen - f.payload.length
        credit := satAdd32 (c.slot i).credit (padLen f + f.header.padded.toNat) },
      Keeps.of_same h (same_setSlot hsame) rfl rfl rfl (fun hup => hup) rfl rfl, ?_⟩
    dsimp only [Client.consume, Client.setSlot]
    rw [hdrop]

theorem finish_slots {c : Client} {i : Nat} (hi : (c.slot i).state = .opened) :
    ((c.finish i).slot i).state = .done ∧ ∀ j, j ≠ i → (c.finish i).slot j = c.slot j :=
  ⟨(takeOff_slot_self (lt_of_opened hi) _ _).1, fun _ hj => takeOff_slot_ne hj _ _⟩

theorem finish_opened {c : Client} {i j : Nat} (hi : (c.slot i).state = .opened)
    (hj : ((c.finish i).slot j).state = .opened) : (c.finish i).slot j = c.slot j := by
  refine (finish_slots hi).2 j fun hij => ?_
  rw [hij, (finish_slots hi).1] at hj
  cases hj

theorem Answer.finish_own {left : Bytes} {c d : Client} {i : Nat} {o : Opening} (h : TableInv c)
    (hi : (c.slot i).state = .opened) (hk : (c.slot i).key = o.key)
    (hmore : ∀ x ∈ recsOf o.key c.outbox.placed, x.last = false) (hb : b.placed = c.outbox.placed ++ [r])
    (hrk : r.key = some o.key) (hrl : r.last = true) (hself : (d.slot i).state = .done)
    (hslots : ∀ j, j ≠ i → d.slot j = c.slot j) (hbox : d.outbox = b)
    (hdrop : d.dropped = c.dropped) (hend : ∃ f ∈ since frames d.begun o, ends o.sid f = true)
    (hbody : bodyOf o.key c.outbox.placed ++ r.bytes = bodies o.sid (upToEnd o.sid (since frames d.begun o))) :
    Answer frames left d o := by
  have hrecs : recsOf o.key [r] = [r] := by simp [recsOf, hrk]
  refine Answer.answered ?_ ?_ ?_ hend ?_
  · intro j hj hjk
    by_cases hij : j = i
    · rw [hij, hself] at hj
      cases hj
    · rw [hslots j hij] at hj hjk
      exact hij (h.unique j i hj hi (hjk.trans hk.symm))
  · intro cause
    rw [hdrop, ← hk]
    exact h.live i hi cause
  · rw [hbox, hb, recsOf_append, hrecs]
    exact ⟨recsOf o.key c.outbox.placed, r, rfl, hrl, hmore⟩
  · rw [hbox, hb, bodyOf_append, ← hbody]
    unfold bodyOf
    rw [hrecs]
    simp

theorem drop_begun {f : Frame} (hf : frames[n]? = some f) : frames.drop n = f :: frames.drop (n + 1) := by
  obtain ⟨hlt, hget⟩ := List.getElem?_eq_some_iff.mp hf
  rw [drop_eq_getElem_cons hlt, hget]

theorem ClientInv.read_data (h : ClientInv frames all s) {f : Frame} (hf : frames[s.client.begun]? = some f)
    (hd : f.ftype = FRAME_DATA) (hin : s.client.rxInData = false)
    (hbytes : s.client.recvBuf ++ s.wire = (frames.drop s.client.begun).flatMap Frame.encode)
    (hok : Arrived s.client f → FrameOk E s.client f) (ch : Chan) :
    ∃ res, processOne E s.client ch = .ok res ∧
      (res = none → ¬Arrived s.client f) ∧ ∀ c', res = some c' → ClientInv frames all { s with client := c' } := by
  rw [drop_begun hf, flatMap_cons] at hbytes
  unfold processOne
  rw [hin, if_neg (by nofun)]
  have harr : Arrived s.client f ↔ FRAME_HEADER_LEN + f.header.padded.toNat ≤ s.client.recvBuf.length := by
    unfold Arrived
    rw [if_pos hd]
  obtain hshort | ⟨b, hb, hahead⟩ := front_of_frame hbytes
  · rw [parseHeader_short hshort]
    refine ⟨none, rfl, fun _ ha => ?_, fun _ hc => by cases hc⟩
    have := harr.mp ha
    omega
  · have hparse : parseHeader s.client.recvBuf = some f.header := by
      rw [hb]
      exact parseHeader_append f b
    have hbl : s.client.recvBuf.length = FRAME_HEADER_LEN + b.length := by
      rw [hb, length_append, length_head]
    rw [hparse]
    dsimp only
    rw [if_pos (show f.header.ftype = FRAME_DATA from hd)]
    by_cases hlen : s.client.recvBuf.length < FRAME_HEADER_LEN + f.header.padded.toNat
    · refine ⟨none, ?_, fun _ ha => ?_, fun _ hc => by cases hc⟩
      · unfold dataHeader
        dsimp only
        rw [if_pos hlen]
      · have := harr.mp ha
        omega
    · have hready := hok (harr.mpr (by omega))
      have hpad : padLen f + f.header.padded.toNat ≤ f.payload.length := by
        unfold FrameOk at hready
        rw [if_pos hd] at hready
        exact hready.2.1
      have hb1 : f.header.padded.toNat ≤ b.length := by omega
      have hat : f.header.padded = true → b.at0 0 = f.payload.at0 0 := by
        intro hp
        rw [hp, Bool.toNat_true] at hb1 hpad
        have h1 : (b ++ s.wire).at0 0 = b.at0 0 := List.getD_append _ _ _ _ (by omega)
        have h2 : (f.payload ++ (frames.drop (s.client.begun + 1)).flatMap Frame.encode).at0 0 = f.payload.at0 0 :=
          List.getD_append _ _ _ _ (by omega)
        rw [← h1, hahead, h2]
      obtain ⟨c₁, hk, hres⟩ := dataHeader_frame h.table hd hready hb hb1 hat
      obtain ⟨pads, hparts, hpads, hbodyLen⟩ := payload_parts hpad
      have hinv := h.keeps hk
      obtain ⟨left, hcur, hans⟩ := hinv.reading
      have hr := hk.reading
      simp only [Prod.mk.injEq] at hr
      obtain ⟨hr1, _, _, _, _, _, hr7⟩ := hr
      have hin₁ : c₁.rxInData = false := hr1.trans hin
      have hleft : left = [] := by
        cases hcur with
        | between _ _ _ => rfl
        | inside _ _ _ _ hin' _ _ _ _ _ _ _ _ _ =>
          rw [show c₁.rxInData = true from hin'] at hin₁
          cases hin₁
      subst hleft
      have hf₁ : frames[c₁.begun]? = some f := by
        rw [hr7]
        exact hf
      refine ⟨_, hres, fun hc => (by cases hc), ?_⟩
      intro c' hc'
      cases hc'
      refine ⟨hinv.table.reading _ _ _ _ _ _ (Nat.le_succ _), hinv.up, hinv.clean, hinv.messages, dataBody f, ?_, ?_⟩
      · refine Cursor.inside f [] (dataBody f) pads rfl (Nat.succ_pos _) hf₁ hd rfl rfl hbodyLen hpads rfl ?_
        change b.drop f.header.padded.toNat ++ s.wire = dataBody f ++ (pads ++ (frames.drop (c₁.begun + 1)).flatMap
          Frame.encode)
        rw [hr7, ← append_assoc, ← hparts, ← drop_append_of_le_length hb1, hahead,
          drop_append_of_le_length (by omega)]
      · intro o ho
        exact (hans o ho).beginData hf₁ hd hin₁ (hinv.table.start_le ho) _ _ _ _

theorem take_front {buf ahead left more : Bytes} (h : buf ++ ahead = left ++ more) (hn : n ≤ buf.length)
    (hl : n ≤ left.length) : buf.take n = left.take n ∧ buf.drop n ++ ahead = left.drop n ++ more := by
  have htake := congrArg (List.take n) h
  have hdrop := congrArg (List.drop n) h
  rw [take_append_of_le_length hn, take_append_of_le_length hl] at htake
  rw [drop_append_of_le_length hn, drop_append_of_le_length hl] at hdrop
  exact ⟨htake, hdrop⟩

theorem flush_open (b : Outbox) : (b.flush true).held = none := by
  cases hb : b.held <;> simp [Outbox.flush, hb]

theorem place_open (b : Outbox) (r : Rec) : b.place r ⟨true, true⟩ ≠ none := by
  cases hb : b.held <;> simp [Outbox.place, Outbox.flush, hb]

theorem Answer.forward {left : Bytes} {c : Client} {o : Opening} {n l : Nat} {buf : Bytes} {i : Nat}
    (h : Answer frames left c o) (hi : (c.slot i).state = .opened) (hk : (c.slot i).key = o.key)
    (hin : c.rxInData = true) (hsid : c.rxSid = o.sid) (hb : b.placed = c.outbox.placed ++ [r])
    (hrk : r.key = some o.key) (hrb : r.bytes = left.take n) (hrl : r.last = false) :
    Answer frames (left.drop n) { c with outbox := b, rxLeft := l, recvBuf := buf } o := by
  have hrecs : recsOf o.key [r] = [r] := by simp [recsOf, hrk]
  have hbodyR : bodyOf o.key [r] = left.take n := by
    unfold bodyOf
    rw [hrecs]
    simp [hrb]
  cases h with
  | answering j hopen hkey hst hbody hends hmore =>
    refine Answer.answering j hopen hkey hst ?_ hends ?_
    · change bodyOf o.key b.placed ++ unread c (left.drop n) o.sid = bodies o.sid (since frames c.begun o)
      have hun : ∀ x, unread c x o.sid = x := fun x => if_pos ⟨hin, hsid⟩
      rw [hun] at hbody ⊢
      rw [hb, bodyOf_append, hbodyR, append_assoc, take_append_drop]
      exact hbody
    · change ∀ x ∈ recsOf o.key b.placed, x.last = false
      intro x hx
      rw [hb, recsOf_append, hrecs] at hx
      obtain hx | hx := mem_append.mp hx
      · exact hmore x hx
      · rw [mem_singleton] at hx
        rw [hx]
        exact hrl
  | answered hoff _ _ _ _ => exact absurd hk (hoff i hi)
  | dropped hoff _ _ _ => exact absurd hk (hoff i hi)

theorem Answer.finish_data {left left' : Bytes} {c d : Client} {i : Nat} {o : Opening} {f : Frame}
    (h : Answer frames left c o) (hT : TableInv c) (ho : o ∈ c.openings) (hle : c.begun ≤ frames.length)
    (hi : (c.slot i).state = .opened) (hk : (c.slot i).key = o.key) (hin : c.rxInData = true) (hpos : 0 < c.begun)
    (hf : frames[c.begun - 1]? = some f) (hends : ends o.sid f = true) (hsid : c.rxSid = o.sid)
    (hb : b.placed = c.outbox.placed ++ [r]) (hrk : r.key = some o.key) (hrl : r.last = true) (hrb : r.bytes = left)
    (hself : (d.slot i).state = .done) (hslots : ∀ j, j ≠ i → d.slot j = c.slot j) (hbox : d.outbox = b)
    (hdrop : d.dropped = c.dropped) (hbegun : d.begun = c.begun) : Answer frames left' d o := by
  cases h with
  | answering j hopen hkey hst hbody hend hmore =>
    have hlt := hst hin hsid
    have hun : unread c left o.sid = left := if_pos ⟨hin, hsid⟩
    have hsucc := since_succ hf (by omega : o.start ≤ c.begun - 1)
    rw [show c.begun - 1 + 1 = c.begun by omega] at hsucc
    refine Answer.finish_own hT hi hk hmore hb hrk hrl hself hslots hbox hdrop ?_ ?_
    · rw [hbegun, hsucc]
      exact ⟨f, mem_append_right _ (mem_singleton.mpr rfl), hends⟩
    · rw [hbegun, upToEnd_since (hT.start_le ho) hle (fun _ => hpos) hend, hrb, ← hbody, hun]
  | answered hoff _ _ _ _ => exact absurd hk (hoff i hi)
  | dropped hoff _ _ _ => exact absurd hk (hoff i hi)

section Inside

variable {f : Frame} {given left pads : Bytes}
    (hin : s.client.rxInData = true) (hpos : 0 < s.client.begun) (hf : frames[s.client.begun - 1]? = some f)
    (hd : f.ftype = FRAME_DATA) (hsid : s.client.rxSid = f.id) (hend : s.client.rxEnd = f.header.endStream)
    (hlen : left.length = s.client.rxLeft) (hpad : pads.length = s.client.rxPad) (hbody : dataBody f = given ++ left)
    (hbytes : s.client.recvBuf ++ s.wire = left ++ (pads ++ (frames.drop s.client.begun).flatMap Frame.encode))
    (hle : s.client.begun ≤ frames.length) (hans : ∀ o ∈ s.client.openings, Answer frames left s.client o)

include hin hpos hf hd hsid hend hlen hpad hbody hbytes hle hans

theorem ClientInv.read_body (h : ClientInv frames all s) (hleft : s.client.rxLeft > 0) (havail : s.client.recvBuf.length ≠ 0) (ch : Chan) :
    (dataBytes E s.client ch = none → ch ≠ ⟨true, true⟩) ∧
      ∀ c', dataBytes E s.client ch = some c' → ClientInv frames all { s with client := c' } := by
  have hEpos := E.pos
  unfold dataBytes
  dsimp only
  rw [if_pos hleft, if_neg havail]
  generalize hn : min (min s.client.recvBuf.length s.client.rxLeft) E.bodyMax = n
  have hn1 : n ≤ s.client.recvBuf.length := by omega
  have hn2 : n ≤ left.length := by omega
  obtain ⟨htake, hrest⟩ := take_front hbytes hn1 hn2
  have hcursor : ∀ c' : Client, c'.rxInData = true → c'.begun = s.client.begun → c'.rxSid = s.client.rxSid →
      c'.rxEnd = s.client.rxEnd → c'.rxLeft = s.client.rxLeft - n → c'.rxPad = s.client.rxPad →
      c'.recvBuf = s.client.recvBuf.drop n → Cursor frames { s with client := c' } (left.drop n) := by
    intro c' h1 h2 h3 h4 h5 h6 h7
    refine Cursor.inside f (given ++ left.take n) (left.drop n) pads h1 (h2 ▸ hpos) ?_ hd (h3.trans hsid)
      (h4.trans hend) ?_ (hpad.trans h6.symm) ?_ ?_
    · change frames[c'.begun - 1]? = some f
      rw [h2]
      exact hf
    · change (left.drop n).length = c'.rxLeft
      rw [h5, length_drop, hlen]
    · rw [append_assoc, take_append_drop]
      exact hbody
    · change c'.recvBuf ++ s.wire = left.drop n ++ (pads ++ (frames.drop c'.begun).flatMap Frame.encode)
      rw [h2, h7]
      exact hrest
  cases hfind : s.client.findSid s.client.rxSid with
  | none =>
    refine ⟨fun hc => (by cases hc), ?_⟩
    intro c' hc'
    cases hc'
    refine ⟨h.table.reading _ _ _ _ _ _ (Nat.le_refl _), h.up, h.clean, h.messages, left.drop n,
      hcursor _ hin rfl rfl rfl rfl rfl rfl, ?_⟩
    intro o ho
    refine (hans o ho).read_other (left.drop n) _ _ _ (h.table.not_found ho ?_)
    intro j hj
    rw [hfind] at hj
    cases hj
  | some i =>
    obtain ⟨hi, hisid, _⟩ := findSid_some hfind
    dsimp only
    generalize hends : (decide (n = s.client.rxLeft) && decide (s.client.rxPad = 0) && s.client.rxEnd) = fin
    cases hplace : s.client.outbox.place
        (.body (s.client.slot i).id (s.client.slot i).key (s.client.recvBuf.take n) !fin) ch with
    | none =>
      refine ⟨fun _ hopen => ?_, fun _ hc => by cases hc⟩
      rw [hopen] at hplace
      exact place_open _ _ hplace
    | some b =>
      have hb := place_placed hplace
      have htable := h.table.place hi hb rfl rfl
      have hother : ∀ o ∈ s.client.openings, (s.client.slot i).key ≠ o.key →
          ∀ j, (s.client.slot j).state = .opened → (s.client.slot j).key = o.key → s.client.rxSid ≠ o.sid := by
        intro o ho hne
        refine h.table.not_found ho ?_
        intro j hj
        rw [hfind] at hj
        cases hj
        exact hne
      refine ⟨fun hc => (by cases hc), ?_⟩
      intro c' hc'
      cases fin with
      | false =>
        cases hc'
        refine ⟨htable.reading _ _ _ _ _ _ (Nat.le_refl _), h.up, h.clean, h.messages, left.drop n,
          hcursor _ hin rfl rfl rfl rfl rfl rfl, ?_⟩
        intro o ho
        by_cases hk : (s.client.slot i).key = o.key
        · have hos := (h.table.opening_eq ho hi hk).1
          exact (hans o ho).forward hi hk hin (by rw [hos, hisid]) hb (by rw [← hk]; rfl) htake rfl
        · have hr : Rec.key (.body (s.client.slot i).id (s.client.slot i).key (s.client.recvBuf.take n) !false) ≠
              some o.key := fun hc => hk (Option.some.inj hc)
          exact ((hans o ho).place_other hb hr).read_other (left.drop n) _ _ _ (hother o ho hk)
      | true =>
        cases hc'
        have hall : n = s.client.rxLeft ∧ s.client.rxPad = 0 ∧ s.client.rxEnd = true := by
          simpa [and_assoc] using hends
        have hfull : s.client.recvBuf.take n = left := by
          rw [htake, take_of_length_le (by omega)]
        refine ⟨(htable.finish hi).reading _ _ _ _ _ _ (Nat.le_refl _), h.up, h.clean, h.messages, left.drop n,
          hcursor _ hin rfl rfl rfl rfl rfl rfl, ?_⟩
        intro o ho
        by_cases hk : (s.client.slot i).key = o.key
        · have hos := (h.table.opening_eq ho hi hk).1
          have hfe : ends o.sid f = true := by
            unfold ends
            rw [← hend, hall.2.2, hos, hisid, hsid]
            simp [hd]
          exact (hans o ho).finish_data h.table ho hle hi hk hin hpos hf hfe (by rw [hos, hisid]) hb
            (by rw [← hk]; rfl) rfl hfull (finish_slots (c := { s.client with outbox := b }) hi).1
            (finish_slots (c := { s.client with outbox := b }) hi).2 rfl rfl rfl
        · have hr : Rec.key (.body (s.client.slot i).id (s.client.slot i).key (s.client.recvBuf.take n) !true) ≠
              some o.key := fun hc => hk (Option.some.inj hc)
          refine Answer.read_other (((hans o ho).place_other hb hr).finish_other hi hk) (left.drop n) _ _ _ ?_
          intro j hj hjk
          have hs := finish_opened (c := { s.client with outbox := b }) hi hj
          rw [hs] at hj hjk
          exact hother o ho hk j hj hjk

omit hle in
theorem ClientInv.read_pad (h : ClientInv frames all s) (hleft : s.client.rxLeft = 0) (n : Nat)
    (hn : n ≤ s.client.recvBuf.length) (hn' : n ≤ s.client.rxPad) :
    ClientInv frames all { s with client := { s.client.consume n with rxPad := s.client.rxPad - n } } := by
  have hnil : left = [] := length_eq_zero_iff.mp (hlen.trans hleft)
  subst hnil
  have hpadded : s.client.recvBuf ++ s.wire = pads ++ (frames.drop s.client.begun).flatMap Frame.encode := hbytes
  obtain ⟨_, hrest⟩ := take_front hpadded hn (by omega)
  refine ⟨h.table.reading _ _ _ _ _ _ (Nat.le_refl _), h.up, h.clean, h.messages, [], ?_, ?_⟩
  · refine Cursor.inside f given [] (pads.drop n) hin hpos hf hd hsid hend hlen ?_ hbody hrest
    change (pads.drop n).length = s.client.rxPad - n
    rw [length_drop, hpad]
  · intro o ho
    cases hans o ho with
    | answering i hopen hkey hst hbod hends hmore => exact Answer.answering i hopen hkey hst hbod hends hmore
    | answered hoff hdrop honce hend hbod => exact Answer.answered hoff hdrop honce hend hbod
    | dropped hoff hdrop hbod hmore => exact Answer.dropped hoff hdrop hbod hmore

theorem ClientInv.read_end (h : ClientInv frames all s) (hleft : ¬s.client.rxLeft > 0) (hpads : ¬s.client.rxPad > 0) (ch : Chan) :
    (dataBytes E s.client ch = none → ch ≠ ⟨true, true⟩) ∧
      ∀ c', dataBytes E s.client ch = some c' → ClientInv frames all { s with client := c' } := by
  have hnil : left = [] := length_eq_zero_iff.mp (by omega)
  have hnil' : pads = [] := length_eq_zero_iff.mp (by omega)
  subst hnil hnil'
  have hcursor : ∀ c' : Client, c'.rxInData = false → c'.begun = s.client.begun → c'.recvBuf = s.client.recvBuf →
      Cursor frames { s with client := c' } [] := by
    intro c' h1 h2 h3
    refine Cursor.between h1 (h2 ▸ hle) ?_
    change c'.recvBuf ++ s.wire = (frames.drop c'.begun).flatMap Frame.encode
    rw [h2, h3]
    exact hbytes
  unfold dataBytes
  dsimp only
  rw [if_neg hleft, if_neg hpads]
  by_cases he : s.client.rxEnd = true
  · rw [if_pos he]
    -- the stream of the frame is not that of another exchange
    have hother : ∀ o ∈ s.client.openings, (∀ j, s.client.findSid s.client.rxSid = some j →
        (s.client.slot j).key ≠ o.key) →
        ∀ i, (s.client.slot i).state = .opened → (s.client.slot i).key = o.key → ends o.sid f = false := by
      intro o ho hne i hi hk
      have hns := h.table.not_found ho hne i hi hk
      unfold ends
      rw [hsid] at hns
      simp [hns]
    cases hfind : s.client.findSid s.client.rxSid with
    | none =>
      refine ⟨fun hc => (by cases hc), ?_⟩
      intro c' hc'
      cases hc'
      refine ⟨h.table.reading _ _ _ _ _ _ (Nat.le_refl _), h.up, h.clean, h.messages, [], hcursor _ rfl rfl rfl, ?_⟩
      intro o ho
      refine (hans o ho).endData hin hpos hf (hother o ho ?_) (h.table.start_le ho)
      intro j hj
      rw [hfind] at hj
      cases hj
    | some i =>
      obtain ⟨hi, hisid, _⟩ := findSid_some hfind
      dsimp only
      cases hplace : s.client.outbox.place (.body (s.client.slot i).id (s.client.slot i).key [] false) ch with
      | none =>
        refine ⟨fun _ hopen => ?_, fun _ hc => by cases hc⟩
        rw [hopen] at hplace
        exact place_open _ _ hplace
      | some b =>
        have hb := place_placed hplace
        refine ⟨fun hc => (by cases hc), ?_⟩
        intro c' hc'
        cases hc'
        refine ⟨((h.table.place hi hb rfl rfl).finish hi).reading _ _ _ _ _ _ (Nat.le_refl _), h.up, h.clean, h.messages, [],
          hcursor _ rfl rfl rfl, ?_⟩
        intro o ho
        by_cases hk : (s.client.slot i).key = o.key
        · have hos := (h.table.opening_eq ho hi hk).1
          have hfe : ends o.sid f = true := by
            unfold ends
            rw [← hend, he, hos, hisid, hsid]
            simp [hd]
          exact (hans o ho).finish_data h.table ho hle hi hk hin hpos hf hfe (by rw [hos, hisid]) hb
            (by rw [← hk]; rfl) rfl rfl (finish_slots (c := { s.client with outbox := b }) hi).1
            (finish_slots (c := { s.client with outbox := b }) hi).2 rfl rfl rfl
        · have hr : Rec.key (.body (s.client.slot i).id (s.client.slot i).key [] false) ≠ some o.key :=
            fun hc => hk (Option.some.inj hc)
          have hfound : ∀ j, s.client.findSid s.client.rxSid = some j → (s.client.slot j).key ≠ o.key := by
            intro j hj
            rw [hfind] at hj
            cases hj
            exact hk
          refine Answer.endData (((hans o ho).place_other hb hr).finish_other hi hk) hin hpos hf ?_ (h.table.start_le ho)
          intro j hj hjk
          have hs := finish_opened (c := { s.client with outbox := b }) hi hj
          rw [hs] at hj hjk
          exact hother o ho hfound j hj hjk
  · rw [if_neg he]
    refine ⟨fun hc => (by cases hc), ?_⟩
    intro c' hc'
    cases hc'
    refine ⟨h.table.reading _ _ _ _ _ _ (Nat.le_refl _), h.up, h.clean, h.messages, [], hcursor _ rfl rfl rfl, ?_⟩
    intro o ho
    refine (hans o ho).endData hin hpos hf (fun i _ _ => ?_) (h.table.start_le ho)
    unfold ends
    rw [← hend, eq_false_iff.mpr he, Bool.and_false]

end Inside

theorem ClientInv.read_inside (h : ClientInv frames all s) (hin : s.client.rxInData = true) (ch : Chan) :
    ∃ res, processOne E s.client ch = .ok res ∧
      (res = none → ch = ⟨true, true⟩ → s.client.recvBuf = [] ∧ (0 < s.client.rxLeft ∨ 0 < s.client.rxPad)) ∧
      ∀ c', res = some c' → ClientInv frames all { s with client := c' } := by
  refine ⟨dataBytes E s.client ch, ?_, ?_⟩
  · unfold processOne
    rw [if_pos hin]
  obtain ⟨left, hcur, hans⟩ := h.reading
  have hle := hcur.begun_le
  cases hcur with
  | between hin' _ _ =>
    rw [hin'] at hin
    cases hin
  | inside f given left pads hin hpos hf hd hsid hend hlen hpad hbody hbytes =>
    by_cases hleft : s.client.rxLeft > 0
    · by_cases havail : s.client.recvBuf.length = 0
      · have hnone : dataBytes E s.client ch = none := by
          unfold dataBytes
          dsimp only
          rw [if_pos hleft, if_pos havail]
        rw [hnone]
        exact ⟨fun _ _ => ⟨length_eq_zero_iff.mp havail, Or.inl hleft⟩, fun _ hc => by cases hc⟩
      · obtain ⟨h1, h2⟩ := h.read_body (E := E) hin hpos hf hd hsid hend hlen hpad hbody hbytes hle hans hleft havail ch
        exact ⟨fun hnone hopen => absurd hopen (h1 hnone), h2⟩
    · by_cases hpads : s.client.rxPad > 0
      · by_cases havail : s.client.recvBuf.length = 0
        · have hnone : dataBytes E s.client ch = none := by
            unfold dataBytes
            dsimp only
            rw [if_neg hleft, if_pos hpads, if_pos havail]
          rw [hnone]
          exact ⟨fun _ _ => ⟨length_eq_zero_iff.mp havail, Or.inr hpads⟩, fun _ hc => by cases hc⟩
        · have hsome : dataBytes E s.client ch = some
              { s.client.consume (min s.client.recvBuf.length s.client.rxPad) with
                rxPad := s.client.rxPad - min s.client.recvBuf.length s.client.rxPad } := by
            unfold dataBytes
            dsimp only
            rw [if_neg hleft, if_pos hpads, if_neg havail]
          rw [hsome]
          refine ⟨fun hc => (by cases hc), ?_⟩
          intro c' hc'
          cases hc'
          exact h.read_pad hin hpos hf hd hsid hend hlen hpad hbody hbytes hans (by omega) _ (by omega) (by omega)
      · obtain ⟨h1, h2⟩ := h.read_end (E := E) hin hpos hf hd hsid hend hlen hpad hbody hbytes hle hans hleft hpads ch
        exact ⟨fun hnone hopen => absurd hopen (h1 hnone), h2⟩

inductive Effect (c : Client) (f : Frame) : Client → Prop where
  /-- No stream that is still open ends with it, and nothing is forwarded. -/
  | keeps {c' : Client} (hk : Keeps c c')
      (hopen : ∀ i, (c'.slot i).state = .opened → ends (c'.slot i).sid f = false) : Effect c f c'
  | head {i : Nat} {b : Outbox} {r : Rec} {t : Stream} (hi : (c.slot i).state = .opened)
      (hb : b.placed = c.outbox.placed ++ [r]) (hkey : r.key = some (c.slot i).key)
      (hid : r.exchange = some (c.slot i).id) (hbytes : r.bytes = []) (hlast : r.last = false)
      (hend : f.header.endStream = false) (hsame : Same (c.slot i) t) :
      Effect c f (({ c with outbox := b }).setSlot i t)
  | final {i : Nat} {b : Outbox} {r : Rec} {t : Stream} (hi : (c.slot i).state = .opened) (hsid : (c.slot i).sid = f.id)
      (hb : b.placed = c.outbox.placed ++ [r]) (hkey : r.key = some (c.slot i).key)
      (hid : r.exchange = some (c.slot i).id) (hbytes : r.bytes = []) (hlast : r.last = true)
      (htype : f.ftype = FRAME_HEADERS) (hend : f.header.endStream = true)
      (hsame : Same (c.slot i) t) : Effect c f ((({ c with outbox := b }).setSlot i t).finish i)

theorem ends_of_not_end {f : Frame} (h : f.header.endStream = false) (sid : Nat) : ends sid f = false := by
  unfold ends
  rw [h, Bool.and_false]

theorem ends_of_type {f : Frame} (hd : f.ftype ≠ FRAME_DATA) (hh : f.ftype ≠ FRAME_HEADERS) (sid : Nat) :
    ends sid f = false := by
  simp [ends, hd, hh]

theorem setSlot_slot_eq {c : Client} (i : Nat) : c.setSlot i (c.slot i) = c := by
  unfold Client.setSlot Client.slot
  by_cases hlt : i < c.streams.length
  · rw [List.getD_eq_getElem _ _ hlt, List.set_getElem_self]
  · rw [set_eq_of_length_le (by omega)]

theorem streamHeaders_effect {c : Client} {i : Nat} {f : Frame} {fields : HeadFields} (h : TableInv c)
    (hi : (c.slot i).state = .opened) (hsid : (c.slot i).sid = f.id) (htype : f.ftype = FRAME_HEADERS)
    (hok : HeadersOk (c.slot i) f fields) (ch : Chan) :
    (streamHeaders c i f.header.endStream fields ch = none → ch ≠ ⟨true, true⟩) ∧
      ∀ c', streamHeaders c i f.header.endStream fields ch = some c' → Effect c f c' := by
  unfold HeadersOk at hok
  unfold streamHeaders
  dsimp only
  cases hg : (c.slot i).headGiven with
  | true =>
    rw [if_pos hg] at hok
    rw [if_pos rfl, hok, if_neg (by nofun)]
    cases hplace : c.outbox.place (.body (c.slot i).id (c.slot i).key [] false) ch with
    | none =>
      refine ⟨fun _ hopen => ?_, fun _ hc => by cases hc⟩
      rw [hopen] at hplace
      exact place_open _ _ hplace
    | some b =>
      refine ⟨fun hc => (by cases hc), ?_⟩
      intro c' hc'
      cases hc'
      have hfinal := Effect.final (t := c.slot i) hi hsid (place_placed hplace) rfl rfl rfl rfl htype hok (Same.refl _)
      have hslot : (({ c with outbox := b } : Client).setSlot i (c.slot i)) = { c with outbox := b } :=
        setSlot_slot_eq (c := { c with outbox := b }) i
      rw [hslot] at hfinal
      exact hfinal
  | false =>
    rw [if_neg (by rw [hg]; nofun)] at hok
    rw [if_neg (by nofun)]
    by_cases hcode : fields.code < 200
    · obtain ⟨h200, _⟩ | ⟨h100, _, h101, hend⟩ := hok
      · omega
      · rw [if_pos hcode, hend, if_neg (by simp; omega)]
        refine ⟨fun hc => (by cases hc), ?_⟩
        intro c' hc'
        cases hc'
        exact Effect.keeps (Keeps.refl h) fun j _ => ends_of_not_end hend _
    · obtain ⟨_, hfits⟩ | ⟨_, hlt, _⟩ := hok
      · rw [if_neg hcode]
        by_cases hheld : (c.outbox.flush ch.flush).held.isSome = true
        · rw [if_pos hheld]
          refine ⟨fun _ hopen => ?_, fun _ hc => by cases hc⟩
          rw [hopen, flush_open] at hheld
          cases hheld
        · rw [if_neg hheld, hfits, if_neg (by nofun)]
          cases hplace : (c.outbox.flush ch.flush).place (.head (c.slot i).id (c.slot i).key fields.code
              (!f.header.endStream) (!f.header.endStream && (c.slot i).held)) ch with
          | none =>
            refine ⟨fun _ hopen => ?_, fun _ hc => by cases hc⟩
            rw [hopen] at hplace
            exact place_open _ _ hplace
          | some b =>
            have hb := place_placed hplace
            rw [flush_placed] at hb
            refine ⟨fun hc => (by cases hc), ?_⟩
            intro c' hc'
            cases hc'
            cases hend : f.header.endStream with
            | true =>
              rw [if_pos rfl]
              exact Effect.final hi hsid hb rfl rfl rfl (by simp [Rec.last, hend]) htype hend ⟨rfl, rfl, rfl, rfl, rfl⟩
            | false =>
              rw [if_neg (by nofun)]
              exact Effect.head hi hb rfl rfl rfl (by simp [Rec.last, hend]) hend ⟨rfl, rfl, rfl, rfl, rfl⟩
      · omega

theorem control_effect {c : Client} {f : Frame} (h : TableInv c) (hd : f.ftype ≠ FRAME_DATA) (hok : FrameOk E c f)
    (ch : Chan) :
    ∃ res, control E c f.header f.payload ch = .ok res ∧ (res = none → ch ≠ ⟨true, true⟩) ∧
      ∀ c', res = some c' → Effect c f c' := by
  unfold FrameOk at hok
  rw [if_neg hd] at hok
  obtain ⟨_, hheaders, hsettings, hping, hgoaway, hwindow, hrst, hpush, hcont⟩ := hok
  have hquiet : ∀ c', Keeps c c' → f.ftype ≠ FRAME_HEADERS →
      ∃ res, (.ok (some c') : Reading) = .ok res ∧ (res = none → ch ≠ ⟨true, true⟩) ∧
        ∀ c'', res = some c'' → Effect c f c'' := by
    intro c' hk hh
    refine ⟨some c', rfl, fun hc => (by cases hc), ?_⟩
    intro c'' hc
    cases hc
    exact Effect.keeps hk fun i _ => ends_of_type hd hh _
  unfold control
  rw [show f.header.ftype = f.ftype from rfl, show f.header.length = f.payload.length from rfl,
    show f.header.streamId = f.id from rfl, show f.header.flags = f.flags from rfl]
  by_cases hh : f.ftype = FRAME_HEADERS
  · rw [if_pos hh]
    obtain ⟨hflag, hodd, off, len, fields, hext, hdec, hstream⟩ := hheaders hh
    unfold headers
    rw [show f.header.streamId = f.id from rfl, show f.header.flags = f.flags from rfl, if_neg hflag,
      if_neg (by omega), hext]
    dsimp only
    rw [hdec]
    dsimp only
    cases hfind : c.findSid f.id with
    | none =>
      refine ⟨some c, rfl, fun hc => (by cases hc), ?_⟩
      intro c' hc
      cases hc
      refine Effect.keeps (Keeps.refl h) fun i hi => ?_
      have hne : (c.slot i).sid ≠ f.id := findSid_none hfind (by omega) hi
      simp [ends, hne.symm]
    | some i =>
      obtain ⟨hi, hsid, _⟩ := findSid_some hfind
      obtain ⟨h1, h2⟩ := streamHeaders_effect h hi hsid hh (hstream i hfind) ch
      exact ⟨_, rfl, h1, h2⟩
  · rw [if_neg hh]
    by_cases hs : f.ftype = FRAME_SETTINGS
    · rw [if_pos hs]
      obtain ⟨hid, hrest⟩ := hsettings hs
      rw [if_neg (by simp [hid])]
      by_cases hack : f.flags &&& FLAG_ACK = 0
      · obtain ⟨hlen, c₁, hc₁⟩ := hrest hack
        rw [if_neg (by simp [hack]), if_neg (by omega), hc₁]
        dsimp only
        have hk := Keeps.settings f.payload h hc₁
        split
        · refine hquiet _ (hk.trans ?_) hh
          exact Keeps.of_same hk.table (fun _ => Same.refl _) rfl rfl rfl (fun _ => by nofun) rfl rfl
        · exact hquiet c₁ hk hh
      · rw [if_pos hack]
        exact hquiet c (Keeps.refl h) hh
    · rw [if_neg hs]
      by_cases hp : f.ftype = FRAME_PING
      · obtain ⟨hid, hlen⟩ := hping hp
        rw [if_pos hp, if_neg (by simp [hid, hlen])]
        exact hquiet c (Keeps.refl h) hh
      · rw [if_neg hp]
        by_cases hg : f.ftype = FRAME_GOAWAY
        · obtain ⟨hid, hlen⟩ := hgoaway hg
          rw [if_pos hg, if_neg (by simp [hid]; omega)]
          exact hquiet _ (Keeps.goAway h _) hh
        · rw [if_neg hg]
          by_cases hw : f.ftype = FRAME_WINDOW_UPDATE
          · obtain ⟨hlen, hconn, hstream⟩ := hwindow hw
            rw [if_pos hw, if_neg (by omega)]
            have hexists : ∃ c₁, windowUpdate c f.id (be32 f.payload % 2 ^ 31) = .ok c₁ := by
              unfold windowUpdate
              by_cases h0 : f.id = 0
              · have hle := hconn h0
                rw [if_pos h0, if_neg (by omega)]
                exact ⟨_, rfl⟩
              · rw [if_neg h0]
                cases c.findSid f.id with
                | none => exact ⟨_, rfl⟩
                | some i =>
                  dsimp only
                  split
                  · exact ⟨_, rfl⟩
                  · exact ⟨_, rfl⟩
            obtain ⟨c₁, hc₁⟩ := hexists
            rw [hc₁]
            exact hquiet c₁ (Keeps.windowUpdate h hc₁ hstream) hh
          · rw [if_neg hw]
            by_cases hr : f.ftype = FRAME_RST_STREAM
            · obtain ⟨hlen, hid⟩ := hrst hr
              rw [if_pos hr, if_neg (by omega), if_neg hid]
              exact hquiet _ (Keeps.resetByPeer h _ _) hh
            · rw [if_neg hr, if_neg (by simp [hpush, hcont])]
              exact hquiet c (Keeps.refl h) hh

theorem ClientInv.effect (h : ClientInv frames all s) {f : Frame} {c' : Client} {buf : Bytes}
    (hf : frames[s.client.begun]? = some f) (hd : f.ftype ≠ FRAME_DATA) (hin : s.client.rxInData = false)
    (hbytes : buf ++ s.wire = (frames.drop (s.client.begun + 1)).flatMap Frame.encode) (he : Effect s.client f c') :
    ClientInv frames all { s with client := { c' with recvBuf := buf, begun := c'.begun + 1 } } := by
  obtain ⟨hlt, _⟩ := List.getElem?_eq_some_iff.mp hf
  obtain ⟨left, hcur, hans⟩ := h.reading
  have hleft : left = [] := by
    cases hcur with
    | between _ _ _ => rfl
    | inside _ _ _ _ hin' _ _ _ _ _ _ _ _ _ =>
      rw [hin'] at hin
      cases hin
  subst hleft
  have hcursor : ∀ d : Client, d.rxInData = false → d.begun = s.client.begun + 1 → d.recvBuf = buf →
      Cursor frames { s with client := d } [] := by
    intro d h1 h2 h3
    refine Cursor.between h1 (by dsimp only; omega) ?_
    change d.recvBuf ++ s.wire = (frames.drop d.begun).flatMap Frame.encode
    rw [h2, h3]
    exact hbytes
  cases he with
  | keeps hk hopen =>
    have hr := hk.reading
    simp only [Prod.mk.injEq] at hr
    obtain ⟨hr1, _, _, _, _, _, hr7⟩ := hr
    have hinv := h.keeps hk
    refine ⟨hinv.table.reading _ _ _ _ _ _ (Nat.le_succ _), hinv.up, hinv.clean, hinv.messages, [],
      hcursor _ (hr1.trans hin) (by dsimp only; rw [hr7]) rfl, ?_⟩
    intro o ho
    have ho' : o ∈ s.client.openings := by
      rw [← hk.openings]
      exact ho
    have hans' := (hans o ho').keeps hk (h.table.start_le ho') hcur.begun_le hcur.pos
    refine hans'.skip (by rw [hr7]; exact hf) hd (hr1.trans hin) (hinv.table.start_le ho) buf ?_
    intro i hi hk'
    rw [(hinv.table.opening_eq ho hi hk').1]
    exact hopen i hi
  | @head i b r t hi hb hkey hid hrb hlast hend hsame =>
    have hplaced := h.table.place hi hb hkey hid
    have htable := (Keeps.of_same hplaced (same_setSlot (c := { s.client with outbox := b }) hsame)
      rfl rfl rfl (fun hup => hup) rfl rfl).table
    refine ⟨htable.reading _ _ _ _ _ _ (Nat.le_succ _), h.up, h.clean, h.messages, [], hcursor _ hin rfl rfl, ?_⟩
    intro o ho
    have hkeep : Keeps { s.client with outbox := b } (({ s.client with outbox := b }).setSlot i t) :=
      Keeps.of_same hplaced (same_setSlot (c := { s.client with outbox := b }) hsame) rfl rfl rfl (fun hup => hup) rfl rfl
    have hans' : Answer frames [] { s.client with outbox := b } o := by
      by_cases hk : (s.client.slot i).key = o.key
      · have hrk : r.key = some o.key := by rw [hkey, hk]
        exact (hans o ho).place_own hrk hb hrb hlast hi hk
      · exact (hans o ho).place_other hb (by rw [hkey]; exact fun hc => hk (Option.some.inj hc))
    refine (hans'.keeps hkeep (h.table.start_le ho) hcur.begun_le hcur.pos).skip hf hd hin (h.table.start_le ho) buf ?_
    exact fun j _ _ => ends_of_not_end hend _
  | @final i b r t hi hsid hb hkey hid hrb hlast htype hend hsame =>
    have hkeep : Keeps { s.client with outbox := b } (({ s.client with outbox := b }).setSlot i t) :=
      Keeps.of_same (h.table.place hi hb hkey hid) (same_setSlot (c := { s.client with outbox := b }) hsame) rfl rfl rfl
        (fun hup => hup) rfl rfl
    have hself : (({ s.client with outbox := b }).setSlot i t).slot i = t :=
      slot_setSlot_self (c := { s.client with outbox := b }) (lt_of_opened hi) t
    have hopen₁ : ((({ s.client with outbox := b }).setSlot i t).slot i).state = .opened := by
      rw [hself, hsame.state]
      exact hi
    have hkey₁ : ((({ s.client with outbox := b }).setSlot i t).slot i).key = (s.client.slot i).key := by
      rw [hself]
      exact hsame.key
    have hslots : ∀ j, j ≠ i → ((({ s.client with outbox := b }).setSlot i t).finish i).slot j = s.client.slot j :=
      fun j hj => ((finish_slots hopen₁).2 j hj).trans (slot_setSlot_ne hj t)
    refine ⟨(hkeep.table.finish hopen₁).reading _ _ _ _ _ _ (Nat.le_succ _), h.up, h.clean, h.messages, [],
      hcursor _ hin rfl rfl, ?_⟩
    intro o ho
    by_cases hk : (s.client.slot i).key = o.key
    · have hos := (h.table.opening_eq ho hi hk).1
      have hsucc := since_succ hf (h.table.start_le ho)
      have hfe : ends o.sid f = true := by
        unfold ends
        rw [hos, hsid, hend]
        simp [htype]
      cases hans o ho with
      | answering j _ _ _ hbody hends hmore =>
        have hclosed : s.client.closed = s.client.begun := by
          unfold Client.closed
          rw [hin]
          rfl
        rw [hclosed] at hends
        have hun : unread s.client [] o.sid = [] := by
          unfold unread
          rw [ite_self]
        rw [hun, append_nil] at hbody
        refine Answer.finish_own h.table hi hk hmore hb (by rw [hkey, hk]) hlast (finish_slots hopen₁).1 hslots rfl rfl
          ?_ ?_
        · change ∃ g ∈ since frames (s.client.begun + 1) o, ends o.sid g = true
          rw [hsucc]
          exact ⟨f, mem_append_right _ (mem_singleton.mpr rfl), hfe⟩
        · change bodyOf o.key s.client.outbox.placed ++ r.bytes =
            bodies o.sid (upToEnd o.sid (since frames (s.client.begun + 1) o))
          rw [hsucc, upToEnd_concat_of_none hends, bodies_append, bodies_other (Or.inl hd), hbody, hrb]
      | answered hoff _ _ _ _ => exact absurd hk (hoff i hi)
      | dropped hoff _ _ _ => exact absurd hk (hoff i hi)
    · have hans₁ : Answer frames [] { s.client with outbox := b } o :=
        (hans o ho).place_other hb (by rw [hkey]; exact fun hc => hk (Option.some.inj hc))
      have hans₂ := (hans₁.keeps hkeep (h.table.start_le ho) hcur.begun_le hcur.pos).finish_other hopen₁
        (by rw [hkey₁]; exact hk)
      refine hans₂.skip hf hd hin (h.table.start_le ho) buf ?_
      intro j hj hjk
      have hij : j ≠ i := by
        intro hij
        rw [hij, (finish_slots hopen₁).1] at hj
        cases hj
      rw [hslots j hij] at hj hjk
      have hfound : ∀ k, s.client.findSid f.id = some k → (s.client.slot k).key ≠ o.key := by
        intro k hfind
        have hfi := h.table.found hi
        rw [hsid, hfind] at hfi
        cases hfi
        exact hk
      have hns := h.table.not_found ho hfound j hj hjk
      simp [ends, hns]

theorem ClientInv.read_control (h : ClientInv frames all s) {f : Frame} (hf : frames[s.client.begun]? = some f)
    (hd : f.ftype ≠ FRAME_DATA) (hin : s.client.rxInData = false)
    (hbytes : s.client.recvBuf ++ s.wire = (frames.drop s.client.begun).flatMap Frame.encode)
    (hfit : f.encode.length ≤ RECV_BUF_SIZE) (hok : Arrived s.client f → FrameOk E s.client f) (ch : Chan) :
    ∃ res, processOne E s.client ch = .ok res ∧ (res = none → ch = ⟨true, true⟩ → ¬Arrived s.client f) ∧
      ∀ c', res = some c' → ClientInv frames all { s with client := c' } := by
  rw [drop_begun hf, flatMap_cons] at hbytes
  have harr : Arrived s.client f ↔ f.encode.length ≤ s.client.recvBuf.length := by
    unfold Arrived
    rw [if_neg hd]
  have hel : f.encode.length = FRAME_HEADER_LEN + f.payload.length := by
    rw [Frame.encode, length_append, length_head]
  unfold processOne
  rw [hin, if_neg (by rintro ⟨⟩)]
  obtain hshort | ⟨b, hb, hahead⟩ := front_of_frame hbytes
  · rw [parseHeader_short hshort]
    refine ⟨none, rfl, fun _ _ ha => ?_, fun _ hc => by cases hc⟩
    have := harr.mp ha
    omega
  · have hparse : parseHeader s.client.recvBuf = some f.header := by
      rw [hb]
      exact parseHeader_append f b
    have hbl : s.client.recvBuf.length = FRAME_HEADER_LEN + b.length := by
      rw [hb, length_append, length_head]
    rw [hparse]
    dsimp only
    rw [if_neg (show ¬f.header.ftype = FRAME_DATA from hd), show f.header.length = f.payload.length from rfl,
      if_neg (by omega)]
    by_cases hlen : FRAME_HEADER_LEN + f.payload.length > s.client.recvBuf.length
    · rw [if_pos hlen]
      refine ⟨none, rfl, fun _ _ ha => ?_, fun _ hc => by cases hc⟩
      have := harr.mp ha
      omega
    · have hready := hok (harr.mpr (by omega))
      have hphase : ¬(s.client.phase = .handshake ∧ f.header.ftype ≠ FRAME_SETTINGS) := by
        have hr := hready
        unfold FrameOk at hr
        rw [if_neg hd] at hr
        exact fun hc => hc.2 (hr.1 hc.1)
      obtain ⟨htake, hrest⟩ := take_front hahead (n := f.payload.length) (by omega) (Nat.le_refl _)
      rw [take_length] at htake
      rw [drop_length] at hrest
      have hpay : (s.client.recvBuf.drop FRAME_HEADER_LEN).take f.payload.length = f.payload := by
        rw [hb, List.drop_left' (length_head _ _ _ _), htake]
      have hbuf : s.client.recvBuf.drop (FRAME_HEADER_LEN + f.payload.length) = b.drop f.payload.length := by
        rw [hb, ← drop_drop, List.drop_left' (length_head _ _ _ _)]
      rw [if_neg hlen, if_neg hphase, hpay]
      obtain ⟨res, hres, hnone, heff⟩ := control_effect h.table hd hready ch
      rw [hres]
      cases res with
      | none => exact ⟨none, rfl, fun _ hopen => absurd hopen (hnone rfl), fun _ hc => by cases hc⟩
      | some c₁ =>
        refine ⟨_, rfl, fun hc => (by cases hc), ?_⟩
        intro c' hc'
        cases hc'
        have hinv := h.effect hf hd hin hrest (heff c₁ rfl)
        have hsame : c₁.recvBuf = s.client.recvBuf := by
          cases heff c₁ rfl with
          | keeps hk _ =>
            have hr := hk.reading
            simp only [Prod.mk.injEq] at hr
            exact hr.2.2.2.2.2.1
          | head _ _ _ _ _ _ _ _ => rfl
          | final _ _ _ _ _ _ _ _ _ _ => rfl
        have hcons : { c₁.consume (FRAME_HEADER_LEN + f.payload.length) with begun := c₁.begun + 1 } =
            { c₁ with recvBuf := b.drop f.payload.length, begun := c₁.begun + 1 } := by
          unfold Client.consume
          dsimp only
          rw [hsame, hbuf]
        rw [hcons]
        exact hinv

/-- A turn of the loop of `process`: with the outbox taking records it stops only where more bytes are needed. -/
theorem ClientInv.processOne (h : ClientInv frames all s) (hfit : ∀ f ∈ frames, FitsBuffer f)
    (hvalid : s.client.rxInData = false → ∀ f, frames[s.client.begun]? = some f → Arrived s.client f →
      FrameOk E s.client f) (ch : Chan) :
    ∃ res, processOne E s.client ch = .ok res ∧
      (res = none → ch = ⟨true, true⟩ →
        (s.client.rxInData = true ∧ s.client.recvBuf = [] ∧ (0 < s.client.rxLeft ∨ 0 < s.client.rxPad)) ∨
        (s.client.rxInData = false ∧ ∀ f, frames[s.client.begun]? = some f → ¬Arrived s.client f)) ∧
      ∀ c', res = some c' → ClientInv frames all { s with client := c' } := by
  cases hin : s.client.rxInData with
  | true =>
    obtain ⟨res, hres, hnone, hsome⟩ := h.read_inside (E := E) hin ch
    exact ⟨res, hres, fun hn hopen => Or.inl ⟨rfl, hnone hn hopen⟩, hsome⟩
  | false =>
    obtain ⟨left, hcur, _⟩ := h.reading
    cases hcur with
    | inside _ _ _ _ hin' _ _ _ _ _ _ _ _ _ =>
      rw [hin'] at hin
      cases hin
    | between _ hle hbytes =>
      cases hf : frames[s.client.begun]? with
      | none =>
        have hdone : frames.drop s.client.begun = [] := by
          rw [drop_eq_nil_iff]
          exact List.getElem?_eq_none_iff.mp hf
        have hempty : s.client.recvBuf = [] := by
          rw [hdone] at hbytes
          exact (append_eq_nil_iff.mp hbytes).1
        refine ⟨none, ?_, fun _ _ => Or.inr ⟨rfl, by simp⟩, fun _ hc => by cases hc⟩
        unfold H2Client.processOne
        rw [hin, hempty]
        rfl
      | some f =>
        have hok := hvalid hin f hf
        by_cases hd : f.ftype = FRAME_DATA
        · obtain ⟨res, hres, hnone, hsome⟩ := h.read_data hf hd hin hbytes hok ch
          refine ⟨res, hres, fun hn _ => Or.inr ⟨rfl, ?_⟩, hsome⟩
          intro g hg
          cases hg
          exact hnone hn
        · have hmem : f ∈ frames := List.mem_of_getElem? hf
          obtain ⟨res, hres, hnone, hsome⟩ := h.read_control hf hd hin hbytes (hfit f hmem hd) hok ch
          refine ⟨res, hres, fun hn hopen => Or.inr ⟨rfl, ?_⟩, hsome⟩
          intro g hg
          cases hg
          exact hnone hn hopen

theorem TableInv.claim {c d : Client} {i : Nat} {t : Stream} {o : Opening} (h : TableInv c) (hself : d.slot i = t)
    (hslots : ∀ j, j ≠ i → d.slot j = c.slot j)
    (ht : t.state = .opened ∧ t.key = c.openings.length ∧ t.sid = c.nextSid ∧ t.id = o.id ∧ t.owed = .nothing)
    (ho : o.key = c.openings.length ∧ o.sid = c.nextSid ∧ o.start = c.begun)
    (hopen : d.openings = c.openings ++ [o]) (hnext : d.nextSid = c.nextSid + 2) (hbegun : d.begun = c.begun)
    (hbox : d.outbox = c.outbox) (hdrop : d.dropped = c.dropped) : TableInv d := by
  have hns := h.nextSid
  have hlen : d.openings.length = c.openings.length + 1 := by rw [hopen, length_append, length_singleton]
  refine ⟨?_, ?_, ?_, ?_, ?_, ?_, ?_, ?_, ?_, ?_⟩
  · intro j hj
    rw [hopen]
    by_cases hij : j = i
    · rw [hij, hself]
      exact ⟨o, mem_append_right _ (mem_singleton.mpr rfl), ho.1.trans ht.2.1.symm,
        ho.2.1.trans ht.2.2.1.symm, ht.2.2.2.1.symm⟩
    · rw [hslots j hij] at hj ⊢
      obtain ⟨o', ho', hrest⟩ := h.opened j hj
      exact ⟨o', mem_append_left _ ho', hrest⟩
  · intro j k hj hk hjk
    by_cases hij : j = i
    · by_cases hik : k = i
      · rw [hij, hik]
      · rw [hij, hself, hslots k hik, ht.2.1] at hjk
        rw [hslots k hik] at hk
        have := h.key_lt hk
        omega
    · rw [hslots j hij] at hj hjk
      by_cases hik : k = i
      · rw [hik, hself, ht.2.1] at hjk
        have := h.key_lt hj
        omega
      · rw [hslots k hik] at hk hjk
        exact h.unique j k hj hk hjk
  · intro j hj
    by_cases hij : j = i
    · rw [hij, hself] at hj
      exact absurd ht.2.2.2.2 hj
    · rw [hslots j hij] at hj ⊢
      rw [hdrop]
      exact h.owed j hj
  · intro k o' hk
    rw [hopen] at hk
    rw [hbegun]
    by_cases hlt : k < c.openings.length
    · rw [List.getElem?_append_left hlt] at hk
      exact h.openings k o' hk
    · rw [List.getElem?_append_right (by omega)] at hk
      have hk0 : k - c.openings.length = 0 := by
        by_contra hne
        rw [List.getElem?_eq_none (by rw [length_singleton]; omega)] at hk
        cases hk
      rw [hk0] at hk
      cases hk
      omega
  · rw [hnext, hlen]
    omega
  · intro r hr k hk
    rw [hbox] at hr
    have := h.placed r hr k hk
    omega
  · intro x hx
    rw [hdrop] at hx
    have := h.dropped x hx
    omega
  · intro j hj cause hc
    rw [hdrop] at hc
    by_cases hij : j = i
    · rw [hij, hself, ht.2.1] at hc
      have := h.dropped _ hc
      dsimp only at this
      omega
    · rw [hslots j hij] at hj hc
      exact h.live j hj cause hc
  · intro j hj
    rw [hopen]
    by_cases hij : j = i
    · rw [hij, hself]
      exact ⟨o, mem_append_right _ (mem_singleton.mpr rfl), ho.1.trans ht.2.1.symm, ht.2.2.2.1.symm⟩
    · rw [hslots j hij] at hj ⊢
      obtain ⟨o', ho', hrest⟩ := h.taken j hj
      exact ⟨o', mem_append_left _ ho', hrest⟩
  · intro r hr o' ho' hk
    rw [hbox] at hr
    obtain ho' | ho' := mem_append.mp (hopen ▸ ho' : o' ∈ c.openings ++ [o])
    · exact h.exchange r hr o' ho' hk
    · rw [mem_singleton] at ho'
      subst ho'
      have := h.placed r hr _ hk
      omega

section

variable (h : ClientInv frames all s)

include h

theorem ClientInv.opens {d : Client} {i : Nat} {t : Stream} {o : Opening}
    (hfree : (s.client.slot i).state = .free) (hself : d.slot i = t)
    (hslots : ∀ j, j ≠ i → d.slot j = s.client.slot j)
    (ht : t.state = .opened ∧ t.key = s.client.openings.length ∧ t.sid = s.client.nextSid ∧ t.id = o.id ∧
      t.owed = .nothing)
    (ho : o.key = s.client.openings.length ∧ o.sid = s.client.nextSid ∧ o.start = s.client.begun)
    (hopen : d.openings = s.client.openings ++ [o]) (hnext : d.nextSid = s.client.nextSid + 2)
    (hread : (d.rxInData, d.rxEnd, d.rxSid, d.rxLeft, d.rxPad, d.recvBuf, d.begun) =
      (s.client.rxInData, s.client.rxEnd, s.client.rxSid, s.client.rxLeft, s.client.rxPad, s.client.recvBuf,
        s.client.begun))
    (hup : d.phase ≠ .idle) (hbox : d.outbox = s.client.outbox) (hdrop : d.dropped = s.client.dropped)
    (hvalid : s.client.rxInData = true → s.client.rxSid ≠ s.client.nextSid) :
    ClientInv frames all { s with client := d } := by
  simp only [Prod.mk.injEq] at hread
  obtain ⟨hr1, hr2, hr3, hr4, hr5, hr6, hr7⟩ := hread
  obtain ⟨left, hcur, hans⟩ := h.reading
  have hle := hcur.begun_le
  have hclosed : d.closed = s.client.closed := by
    unfold Client.closed
    rw [hr1, hr7]
  have hun : ∀ x sid, unread d x sid = unread s.client x sid := by
    intro x sid
    unfold unread
    rw [hr1, hr3]
  refine ⟨h.table.claim hself hslots ht ho hopen hnext hr7 hbox hdrop, hup, ?_, h.messages, left, ?_, ?_⟩
  · change ∀ x ∈ d.dropped, x.2 ≠ .violation
    rw [hdrop]
    exact h.clean
  · cases hcur with
    | between hin _ hbytes =>
      refine Cursor.between (hr1.trans hin) (by dsimp only; omega) ?_
      change d.recvBuf ++ s.wire = (frames.drop d.begun).flatMap Frame.encode
      rw [hr6, hr7]
      exact hbytes
    | inside f given left pads hin hpos hf hdata hsid hend hlen hpad hbody hbytes =>
      refine Cursor.inside f given left pads (hr1.trans hin) (by dsimp only; omega) ?_ hdata (hr3.trans hsid)
        (hr2.trans hend) (hlen.trans hr4.symm) (hpad.trans hr5.symm) hbody ?_
      · change frames[d.begun - 1]? = some f
        rw [hr7]
        exact hf
      · change d.recvBuf ++ s.wire = left ++ (pads ++ (frames.drop d.begun).flatMap Frame.encode)
        rw [hr6, hr7]
        exact hbytes
  · intro o' ho'
    obtain ho' | ho' := mem_append.mp (hopen ▸ ho' : o' ∈ s.client.openings ++ [o])
    · have hkey : o'.key < s.client.openings.length := by
        obtain ⟨k, hlt, hget⟩ := mem_iff_getElem.mp ho'
        have := (h.table.openings k o' (by rw [List.getElem?_eq_getElem hlt, hget])).1
        omega
      have hoff' : (∀ j, (s.client.slot j).state = .opened → (s.client.slot j).key ≠ o'.key) →
          ∀ j, (d.slot j).state = .opened → (d.slot j).key ≠ o'.key := by
        intro hoff j hj
        by_cases hij : j = i
        · rw [hij, hself, ht.2.1]
          omega
        · rw [hslots j hij] at hj ⊢
          exact hoff j hj
      cases hans o' ho' with
      | answering j hopen' hkey' hst hbody hends hmore =>
        have hij : j ≠ i := by
          intro hij
          rw [hij, hfree] at hopen'
          cases hopen'
        refine Answer.answering j (by rw [hslots j hij]; exact hopen') (by rw [hslots j hij]; exact hkey') ?_ ?_ ?_ ?_
        · rw [hr1, hr3, hr7]
          exact hst
        · rw [hbox, hun, hr7]
          exact hbody
        · rw [hclosed]
          exact hends
        · rw [hbox]
          exact hmore
      | answered hoff hdr honce hend hbody =>
        refine Answer.answered (hoff' hoff) (by rw [hdrop]; exact hdr) (by rw [hbox]; exact honce) ?_ ?_
        · rw [hr7]
          exact hend
        · rw [hbox, hr7]
          exact hbody
      | dropped hoff hdr hbody hmore =>
        refine Answer.dropped (hoff' hoff) (by rw [hdrop]; exact hdr) ?_ (by rw [hbox]; exact hmore)
        rw [hbox, hr7]
        exact hbody
    · rw [mem_singleton] at ho'
      subst ho'
      have hrecs : recsOf o'.key s.client.outbox.placed = [] := by
        apply recsOf_none
        intro r hr hk
        have := h.table.placed r hr _ hk
        omega
      have hnil : ∀ n, n ≤ s.client.begun → since frames n o' = [] := by
        intro n hn
        unfold since
        rw [drop_eq_nil_iff, length_take]
        omega
      have hsid : ¬(s.client.rxInData = true ∧ s.client.rxSid = o'.sid) := by
        intro hc
        exact hvalid hc.1 (hc.2.trans ho.2.1)
      refine Answer.answering i (by rw [hself]; exact ht.1) (by rw [hself, ht.2.1, ho.1]) ?_ ?_ ?_ ?_
      · intro h1 h3
        exact absurd ⟨hr1 ▸ h1, hr3 ▸ h3⟩ hsid
      · have hbody : bodyOf o'.key s.client.outbox.placed = [] := by
          unfold bodyOf
          rw [hrecs]
          rfl
        rw [hbox, hun, hr7, hnil _ (Nat.le_refl _), hbody]
        unfold unread
        rw [if_neg hsid]
        rfl
      · rw [hclosed, hnil]
        · simp
        · unfold Client.closed
          split <;> omega
      · rw [hbox, hrecs]
        simp

theorem ClientInv.claim (q : Request)
    (hvalid : s.client.rxInData = true → s.client.rxSid ≠ s.client.nextSid) :
    ClientInv frames all { s with client := s.client.claim q } := by
  unfold Client.claim
  split
  · exact h
  · split
    · exact h
    next i hfind =>
      split
      · exact h
      · split
        · exact h.keeps (Keeps.of_same h.table (fun _ => Same.refl _) rfl rfl rfl (fun _ => by rintro ⟨⟩) rfl rfl)
        · obtain ⟨hi, hp, _⟩ := List.findIdx?_eq_some_iff_getElem.mp hfind
          have hfree : (s.client.slot i).state = .free := by
            have hslot : s.client.slot i = s.client.streams[i] := List.getD_eq_getElem _ _ hi
            rw [hslot]
            simpa using hp
          exact h.opens hfree (slot_setSlot_self hi _) (fun j hj => slot_setSlot_ne hj _)
            ⟨rfl, rfl, rfl, rfl, rfl⟩ ⟨rfl, rfl, rfl⟩ rfl rfl rfl h.up rfl rfl hvalid

theorem ClientInv.pump : ClientInv frames all (pump s) := by
  unfold H2Client.pump
  split
  · exact h
  · split
    · exact h
    next m rest hm =>
      obtain ⟨before, hall⟩ := h.messages
      obtain ⟨left, hcur, hans⟩ := h.reading
      have hwire : ∀ c : Client, c.recvBuf = s.client.recvBuf ++ m.1 →
          c.recvBuf ++ Session.wire { client := c, messages := rest } = s.client.recvBuf ++ s.wire := by
        intro c hc
        unfold Session.wire
        rw [hm, hc]
        simp
      refine ⟨h.table.reading _ _ _ _ _ _ (Nat.le_refl _), h.up, h.clean, ⟨before ++ [m], ?_⟩, left, ?_, ?_⟩
      · rw [hall, hm]
        simp
      · cases hcur with
        | between hin hle hbytes => exact Cursor.between hin hle ((hwire _ rfl).trans hbytes)
        | inside f given left pads hin hpos hf hdata hsid hend hlen hpad hbody hbytes =>
          exact Cursor.inside f given left pads hin hpos hf hdata hsid hend hlen hpad hbody ((hwire _ rfl).trans hbytes)
      · intro o ho
        cases hans o ho with
        | answering i hopen hkey hst hbod hends hmore => exact Answer.answering i hopen hkey hst hbod hends hmore
        | answered hoff hdrop honce hend hbod => exact Answer.answered hoff hdrop honce hend hbod
        | dropped hoff hdrop hbod hmore => exact Answer.dropped hoff hdrop hbod hmore

theorem ClientInv.read (hfit : ∀ f ∈ frames, FitsBuffer f) (ch : Chan)
    (hvalid : Valid E frames s (.read ch)) : ClientInv frames all { s with client := read E s.client ch } := by
  obtain ⟨res, hres, _, hsome⟩ := h.processOne hfit hvalid ch
  unfold H2Client.read
  rw [if_neg h.up, hres]
  cases res with
  | none => exact h
  | some c' => exact hsome c' rfl

theorem ClientInv.turn (hfit : ∀ f ∈ frames, FitsBuffer f) (e : Event)
    (hvalid : Valid E frames s e) : ClientInv frames all (turn E s e) := by
  cases e with
  | pump => exact h.pump
  | read ch => exact h.read hfit ch hvalid
  | flush ok =>
    have hsame : (s.client.outbox.flush ok).placed = s.client.outbox.placed ++ [] := by simp
    exact h.keeps (Keeps.outbox h.table hsame (by simp))
  | credit id n => exact h.keeps (Keeps.credit h.table id n)
  | abort id => exact h.keeps (Keeps.abort h.table id)
  | deadline i => exact h.keeps (Keeps.deadline h.table i)
  | queueRst i => exact h.keeps (Keeps.queueRst h.table i)
  | refillConn => exact h.keeps (Keeps.refillConn h.table)
  | openWindow i => exact h.keeps (Keeps.openWindow h.table i)
  | claim q => exact h.claim q hvalid
  | sendBody room => exact h.keeps (Keeps.sendBody h.table room)
  | pumpOut i ch => exact h.keeps (Keeps.pumpOut h.table i ch)
  | other ch =>
    obtain ⟨new, hnew, hother⟩ := place_other s.client.outbox ch
    exact h.keeps (Keeps.outbox h.table hnew hother)
  | abandon => exact h.keeps (Keeps.abandon h.table hvalid)
  | lost => exact absurd hvalid id
  | drain => exact absurd hvalid id
  | connect messages => exact absurd hvalid id

end

end Reading

end Wave.Http.H2Client
