import Wave.Http.BodyDecode
import Wave.Http.ExchangeCredit

/-! # Request bodies on the application's credit (`http/server/app.rs`, `reqbody.rs`)

`h1_forward` decodes `recv_buf` into BODY records within the application's credit; what `request_out` refuses is
decoded again. -/

namespace Wave.Http

open Lib Lib.Intake

def FORWARDS_PER_STEP : Nat := 4

inductive BodyEnd where
  | bad
  | tooLarge
  | peerGone
deriving DecidableEq

structure Upload where
  reader : BodyReader
  /-- `recv_buf` behind the head of `headerEnd` bytes. -/
  pending : Bytes := []
  headerEnd : Nat
  recvCap : Nat
  reqCredit : Nat := 0
  reqDone : Bool := false
  peerClosed : Bool := false
  ended : Option BodyEnd := none
  /-- What is still to come from the peer. -/
  wire : Bytes
  /-- The BODY records written, each with whether it ends the body. -/
  sent : List (Bytes × Bool) := []
  /-- The credit given so far. -/
  granted : Nat := 0

namespace Upload

def outs (u : Upload) : Bytes := u.sent.flatMap Prod.fst

def wedged (u : Upload) : Bool := u.headerEnd + u.pending.length ≥ u.recvCap

def commit (u : Upload) (p : Peek) : Upload × BodyStep :=
  ({ u with reader := u.reader.commit p, pending := u.pending.drop p.consumed }, if p.done then .done else .progress)

variable (bodyMax : Nat)

/-- A turn of the loop of `h1_forward`; `accept` is what `request_out` says to its record. -/
def forwardOne (u : Upload) (accept : Bool) : Upload × BodyStep :=
  match peek u.reader u.pending u.wedged (min u.reqCredit bodyMax) with
  | .error step => (u, step)
  | .ok p =>
    if p.out.length = 0 ∧ p.done = false then u.commit p
    else if accept then
      { u with reqCredit := u.reqCredit - p.out.length, sent := u.sent ++ [(p.out, p.done)] }.commit p
    else (u, .wait)

def forwardLoop : Nat → List Bool → Upload → Upload × BodyStep
  | 0, _, u => (u, .progress)
  | n + 1, accepts, u =>
    match forwardOne bodyMax u (accepts.headD false) with
    | (u, .progress) => forwardLoop n accepts.tail u
    | r => r

/-- `h1_forward`. -/
def forward (u : Upload) (accepts : List Bool) : Upload :=
  if u.ended.isSome ∨ u.reqDone then u
  else
    match forwardLoop bodyMax FORWARDS_PER_STEP accepts u with
    | (u, .progress) => u
    | (u, .done) => { u with reqDone := true }
    | (u, .wait) => if u.peerClosed then { u with ended := some .peerGone } else u
    | (u, .bad) => { u with ended := some .bad }
    | (u, .tooLarge) => { u with ended := some .tooLarge }

theorem forwardOne_peerClosed (u : Upload) (accept : Bool) : (u.forwardOne bodyMax accept).1.peerClosed = u.peerClosed := by
  unfold forwardOne
  split
  · rfl
  split
  · rfl
  split <;> rfl

theorem forwardLoop_peerClosed (n : Nat) (accepts : List Bool) (u : Upload) :
    (u.forwardLoop bodyMax n accepts).1.peerClosed = u.peerClosed := by
  induction n generalizing accepts u with
  | zero => rfl
  | succ n ih =>
    have hone := u.forwardOne_peerClosed bodyMax (accepts.headD false)
    unfold forwardLoop
    split
    next hleft =>
      rw [ih, ← hone, hleft]
    · exact hone

theorem forward_peerClosed (u : Upload) (accepts : List Bool) : (u.forward bodyMax accepts).peerClosed = u.peerClosed := by
  have hloop := u.forwardLoop_peerClosed bodyMax FORWARDS_PER_STEP accepts
  unfold forward
  split
  · rfl
  generalize u.forwardLoop bodyMax FORWARDS_PER_STEP accepts = r at hloop
  obtain ⟨u', step⟩ := r
  cases step <;> dsimp only at hloop ⊢ <;> first | exact hloop | (split <;> exact hloop)

end Upload

inductive UploadEvent where
  /-- The next `MSG_DATA` is of `n` bytes; it waits while `recv_buf` has no room for it. -/
  | arrive (n : Nat)
  | credit (n : Nat)
  | forward (accepts : List Bool)
  | peerClose

namespace Upload

def turn (bodyMax : Nat) (u : Upload) : UploadEvent → Upload
  | .arrive n =>
    if u.headerEnd + u.pending.length + (u.wire.take n).length > u.recvCap then u
    else { u with pending := u.pending ++ u.wire.take n, wire := u.wire.drop n }
  | .credit n => if u.reqDone then u else { u with reqCredit := App.satAdd u.reqCredit n, granted := u.granted + n }
  | .forward accepts => u.forward bodyMax accepts
  | .peerClose => { u with peerClosed := true }

def machine (bodyMax : Nat) : Machine Upload UploadEvent Empty where
  step u e := (u.turn bodyMax e, [])

/-- `arm`, for a body of which nothing has come. -/
def start (d : BodyDecoder) (limit headerEnd recvCap : Nat) (wire : Bytes) : Upload where
  reader := { decoder := d, active := true, limit := limit }
  headerEnd := headerEnd
  recvCap := recvCap
  wire := wire

/-- The decoder takes nothing: no framing line is whole in `recv_buf`, or it is inside data and there is no credit. -/
def Blocked (u : Upload) : Prop :=
  u.reader.decoder.turn u.pending = .wait ∨ u.reader.decoder.state = .data ∧ u.reqCredit = 0

def Stuck (u : Upload) : Prop := u.ended = none ∧ u.reqDone = false ∧ u.wedged = true ∧ u.Blocked

def Unstuck (u : Upload) : UploadEvent → Prop
  | .forward _ => ¬ u.Stuck
  | _ => True

def Marked (u : Upload) : Prop :=
  if u.reqDone then ∃ before last, u.sent = before ++ [(last, true)] ∧ ∀ r ∈ before, r.2 = false
  else ∀ r ∈ u.sent, r.2 = false

/-- The application was given the beginning of the body, within credit and limit, and all of it once its end is
marked. -/
structure Exact (body : Bytes) (limit : Nat) (u : Upload) : Prop where
  front : u.outs <+: body
  credit : u.outs.length ≤ u.granted
  ceiling : u.outs.length ≤ limit
  marked : u.Marked
  whole : u.reqDone = true → u.outs = body
  fits : body.length ≤ limit → u.ended ≠ some .tooLarge

end Upload

/-- `bytes` are a body by its framing, and `body` is what they carry. -/
def WholeBody : BodyFraming → (bytes body : Bytes) → Prop
  | .length n, bytes, body => bytes = body ∧ body.length = n
  | .chunked, bytes, body => Chunked bytes body
  | _, _, _ => False

theorem took_whole {framing : BodyFraming} {d : BodyDecoder} (hnew : BodyDecoder.new framing = some d) {bytes body : Bytes}
    (hwhole : WholeBody framing bytes body) : ∃ d', d'.done = true ∧ Took bodyIntake d bytes body d' := by
  cases framing with
  | none => cases hwhole
  | invalid => cases hwhole
  | chunked =>
    cases hnew
    exact ⟨_, rfl, BodyDecoder.took_chunked hwhole⟩
  | length n =>
    obtain ⟨rfl, rfl⟩ := hwhole
    rw [BodyDecoder.new] at hnew
    split at hnew
    next hpos =>
      cases hnew
      exact ⟨_, rfl, BodyDecoder.took_data (d := { chunked := false, state := .data, remaining := bytes.length }) rfl rfl
        (ne_nil_of_length_pos hpos) rfl⟩
    · cases hnew

namespace Upload

/-- The reader has taken what is no longer in `recv_buf`, and put it into records. -/
structure UploadInv (d : BodyDecoder) (all : Bytes) (u : Upload) : Prop where
  live : u.reader.decoder.Live
  path : ∃ k, Reads bodyIntake d all k u.outs u.reader.decoder ∧ all.drop k = u.pending ++ u.wire
  total : u.reader.total = u.outs.length
  limit : u.reader.total ≤ u.reader.limit
  active : u.reader.active = !u.reader.decoder.done
  credit : u.outs.length + u.reqCredit ≤ u.granted
  room : u.headerEnd + u.pending.length ≤ u.recvCap
  marked : if u.reader.decoder.done then ∃ before last, u.sent = before ++ [(last, true)] ∧ ∀ r ∈ before, r.2 = false
    else ∀ r ∈ u.sent, r.2 = false

section Step

variable {d d' : BodyDecoder} {bytes body rest : Bytes} {u : Upload} {bodyMax : Nat}

theorem turn_end (hend : d'.done = true) (l : Bytes) : bodyIntake.turn d' l = .wait := if_pos hend

theorem stop_end (hend : d'.done = true) (l : Bytes) (n : Nat) (out : Bytes) (v : BodyDecoder) :
    bodyIntake.turn d' l ≠ .take n out v := by
  rw [turn_end hend]
  exact nofun

theorem UploadInv.ahead (h : UploadInv d (bytes ++ rest) u) (hbody : Took bodyIntake d bytes body d') (hend : d'.done = true) :
    ∃ k os, body = u.outs ++ os ∧ Reads bodyIntake u.reader.decoder (u.pending ++ u.wire) k os d' := by
  obtain ⟨taken, hread, hleft⟩ := h.path
  obtain ⟨k, os, -, hos, hahead⟩ := hread.stop (hbody.grow rest) (stop_end hend _)
  rw [hleft] at hahead
  exact ⟨k, os, hos, hahead⟩

theorem UploadInv.called (h : UploadInv d (bytes ++ rest) u) (hbody : Took bodyIntake d bytes body d') (hend : d'.done = true)
    (room : Nat) {o : Outcome BodyDecoder UInt8 Unit} (ho : u.reader.decoder.call u.pending room = o) :
    o.bad = none ∧ o.out.length ≤ room ∧ u.outs ++ o.out <+: body ∧ o.taken ≤ u.pending.length ∧ o.state.Live ∧
      (∃ k, Reads bodyIntake d (bytes ++ rest) k (u.outs ++ o.out) o.state ∧
        (bytes ++ rest).drop k = u.pending.drop o.taken ++ u.wire) ∧
      (o.taken = 0 → u.reader.decoder.turn u.pending = .wait ∨
        ∃ n out v, u.reader.decoder.turn u.pending = .take n out v ∧ room < out.length) := by
  subst ho
  obtain ⟨t, hread, hfits, hverdict⟩ := BodyDecoder.called u.reader.decoder u.pending room h.live
  generalize u.reader.decoder.call u.pending room = o at hread hfits hverdict
  have hle := hread.le.1
  obtain ⟨k, os, hos, hahead⟩ := h.ahead hbody hend
  obtain ⟨k₁, os₁, -, hos₁, hrest⟩ := (hread.grow u.wire).stop hahead (stop_end hend _)
  have hbad : o.bad = none := by
    cases hbad : o.bad with
    | none => rfl
    | some e =>
      rw [hbad] at hverdict
      have hrefuse : bodyIntake.turn t ((u.pending ++ u.wire).drop o.taken) = .refuse e o.state := by
        rw [drop_append_of_le_length hle, bodyIntake.grow _ (by rw [hverdict]; exact nofun), hverdict]
      cases hrest with
      | nil =>
        rw [turn_end hend] at hrefuse
        cases hrefuse
      | cons hturn =>
        rw [hturn] at hrefuse
        cases hrefuse
  rw [hbad] at hverdict
  obtain ⟨rfl, hwhy⟩ := hverdict
  obtain ⟨taken, hpath, hleft⟩ := h.path
  refine ⟨hbad, hfits, ?_, hle, hread.live h.live, ⟨taken + o.taken, ?_, ?_⟩, fun hzero => ?_⟩
  · rw [hos, hos₁, ← append_assoc]
    exact prefix_append _ _
  · refine hpath.trans ?_
    rw [hleft]
    exact hread.grow u.wire
  · rw [← drop_drop, hleft, drop_append_of_le_length hle]
  · rw [hzero, drop_zero] at hwhy
    rw [hzero] at hread
    generalize hk : 0 = k at hread
    generalize o.out = os at hread hwhy
    generalize o.state = t at hread hwhy
    cases hread with
    | nil =>
      simp only [length_nil, Nat.zero_add] at hwhy
      exact hwhy
    | cons hturn =>
      have hpos := (bodyIntake.within hturn).1
      omega

theorem data_of_out {c v : BodyDecoder} {l : Bytes} {n : Nat} {out : Bytes} (h : c.turn l = .take n out v)
    (hout : 0 < out.length) : c.state = .data := by
  obtain ⟨hdata, -⟩ | ⟨_, -, rfl, -⟩ | ⟨-, -, rfl, -⟩ | ⟨_, -, -, rfl, -⟩ := BodyDecoder.turn_take h
  · exact hdata
  all_goals cases hout

theorem peek_call {r : BodyReader} (hactive : r.active = true) (pending : Bytes) (wedged : Bool) (bufLen : Nat) :
    peek r pending wedged bufLen =
      let o := r.decoder.call pending (min bufLen (r.limit - r.total + 1))
      if o.bad.isSome then .error .bad
      else if r.total + o.out.length > r.limit then .error .tooLarge
      else if o.taken = 0 ∧ o.state.done = false then .error (if wedged then .bad else .wait)
      else .ok { next := o.state, consumed := o.taken, out := o.out, done := o.state.done } := by
  unfold peek BodyDecoder.call
  rw [hactive]
  dsimp only
  generalize r.decoder.decode pending (min bufLen (r.limit - r.total + 1)) = res
  obtain ⟨next, consumed, out, bad⟩ := res
  cases bad <;> simp

structure Fixed (u u' : Upload) : Prop where
  headerEnd : u'.headerEnd = u.headerEnd
  recvCap : u'.recvCap = u.recvCap
  limit : u'.reader.limit = u.reader.limit
  wire : u'.wire = u.wire
  granted : u'.granted = u.granted
  ended : u'.ended = u.ended
  reqDone : u'.reqDone = u.reqDone
  peerClosed : u'.peerClosed = u.peerClosed

theorem Fixed.refl (u : Upload) : Fixed u u := ⟨rfl, rfl, rfl, rfl, rfl, rfl, rfl, rfl⟩

theorem Fixed.trans {u₁ u₂ : Upload} (h : Fixed u u₁) (h' : Fixed u₁ u₂) : Fixed u u₂ :=
  ⟨h'.1.trans h.1, h'.2.trans h.2, h'.3.trans h.3, h'.4.trans h.4, h'.5.trans h.5, h'.6.trans h.6, h'.7.trans h.7,
    h'.8.trans h.8⟩

def Left (body : Bytes) (u : Upload) (accept : Bool) (u' : Upload) : BodyStep → Prop
  | .progress => u'.reader.decoder.done = false ∧ u'.pending.length < u.pending.length
  | .done => u'.reader.decoder.done = true
  | .wait => u' = u ∧ (accept = false ∨ u.Blocked)
  | .bad => u' = u ∧ u.wedged = true ∧ u.Blocked
  | .tooLarge => u' = u ∧ u.reader.limit < body.length

theorem UploadInv.forwardOne (h : UploadInv d (bytes ++ rest) u) (hbody : Took bodyIntake d bytes body d')
    (hend : d'.done = true) (hpos : 0 < bodyMax) (hdone : u.reader.decoder.done = false) (accept : Bool)
    {u' : Upload} {step : BodyStep} (hone : u.forwardOne bodyMax accept = (u', step)) :
    UploadInv d (bytes ++ rest) u' ∧ Fixed u u' ∧ Left body u accept u' step := by
  have hactive : u.reader.active = true := by rw [h.active, hdone]; rfl
  unfold Upload.forwardOne at hone
  rw [peek_call hactive] at hone
  dsimp only at hone
  generalize ho : u.reader.decoder.call u.pending (min (min u.reqCredit bodyMax) (u.reader.limit - u.reader.total + 1)) = o
    at hone
  obtain ⟨hbad, hfits, hfront, hle, hlive, hpath, hnothing⟩ := h.called hbody hend _ ho
  rw [hbad, if_neg (by simp)] at hone
  have htotal := h.total
  have hlimit := h.limit
  by_cases hover : u.reader.total + o.out.length > u.reader.limit
  · rw [if_pos hover] at hone
    cases hone
    have hlen := hfront.length_le
    rw [length_append] at hlen
    exact ⟨h, Fixed.refl u, rfl, by omega⟩
  rw [if_neg hover] at hone
  by_cases hstay : o.taken = 0 ∧ o.state.done = false
  · have hblocked : u.Blocked := by
      rcases hnothing hstay.1 with hwait | ⟨n, out, v, hturn, hroom⟩
      · exact .inl hwait
      · have hone := (bodyIntake.within hturn).2.2
        exact .inr ⟨data_of_out hturn (by omega), by omega⟩
    rw [if_pos hstay] at hone
    cases hwedged : u.wedged with
    | true =>
      rw [hwedged] at hone
      cases hone
      exact ⟨h, Fixed.refl u, rfl, hwedged, hblocked⟩
    | false =>
      rw [hwedged] at hone
      cases hone
      exact ⟨h, Fixed.refl u, rfl, .inr hblocked⟩
  rw [if_neg hstay] at hone
  dsimp only at hone
  have hmarked := h.marked
  rw [hdone, if_neg false_ne_true] at hmarked
  -- the record, if there is one, is written, and the look committed
  have htaken : ∀ sent : List (Bytes × Bool), sent.flatMap Prod.fst = u.outs ++ o.out →
      (if o.state.done then ∃ before last, sent = before ++ [(last, true)] ∧ ∀ r ∈ before, r.2 = false
        else ∀ r ∈ sent, r.2 = false) →
      UploadInv d (bytes ++ rest) { u with
        reqCredit := u.reqCredit - o.out.length
        sent := sent
        reader := u.reader.commit { next := o.state, consumed := o.taken, out := o.out, done := o.state.done }
        pending := u.pending.drop o.taken } := by
    intro sent hsent hmarks
    refine ⟨hlive, ?_, ?_, ?_, ?_, ?_, ?_, hmarks⟩
    · rw [outs, hsent]
      exact hpath
    · rw [outs, hsent, length_append, ← htotal]
      rfl
    · exact Nat.le_of_not_lt hover
    · change (u.reader.active && !o.state.done) = !o.state.done
      rw [hactive, Bool.true_and]
    · have hcredit := h.credit
      rw [outs, hsent, length_append]
      dsimp only
      omega
    · have hroom := h.room
      rw [length_drop]
      dsimp only
      omega
  have hshort : o.state.done = false → (u.pending.drop o.taken).length < u.pending.length := fun hmore => by
    have hsome : o.taken ≠ 0 := fun hzero => hstay ⟨hzero, hmore⟩
    rw [length_drop]
    omega
  by_cases hquiet : o.out.length = 0 ∧ o.state.done = false
  · rw [if_pos hquiet] at hone
    have hinv := htaken u.sent (by rw [eq_nil_of_length_eq_zero hquiet.1, append_nil]; rfl)
      (by rw [if_neg (by rw [hquiet.2]; nofun)]; exact hmarked)
    rw [hquiet.1, Nat.sub_zero] at hinv
    unfold commit at hone
    dsimp only at hone
    rw [if_neg (by rw [hquiet.2]; nofun)] at hone
    cases hone
    exact ⟨hinv, ⟨rfl, rfl, rfl, rfl, rfl, rfl, rfl, rfl⟩, hquiet.2, hshort hquiet.2⟩
  rw [if_neg hquiet] at hone
  cases accept with
  | false =>
    cases hone
    exact ⟨h, Fixed.refl u, rfl, .inl rfl⟩
  | true =>
    rw [if_pos rfl] at hone
    have hinv := htaken (u.sent ++ [(o.out, o.state.done)]) (by rw [flatMap_append, flatMap_singleton]; rfl) (by
      cases hmore : o.state.done with
      | true => exact ⟨u.sent, o.out, rfl, hmarked⟩
      | false =>
        intro r hr
        rcases mem_append.mp hr with hr | hr
        · exact hmarked r hr
        · rw [mem_singleton.mp hr])
    unfold commit at hone
    dsimp only at hone
    rw [Prod.mk.injEq] at hone
    obtain ⟨rfl, rfl⟩ := hone
    refine ⟨hinv, ⟨rfl, rfl, rfl, rfl, rfl, rfl, rfl, rfl⟩, ?_⟩
    split
    next hmore => exact hmore
    next hmore => exact ⟨not_eq_true _ |>.mp hmore, hshort (not_eq_true _ |>.mp hmore)⟩

theorem call_blocked {c : BodyDecoder} (hlive : c.Live) (hdone : c.done = false) {pending : Bytes} {room : Nat}
    (hblocked : c.turn pending = .wait ∨ c.state = .data ∧ room = 0) :
    c.call pending room = { state := c, taken := 0, out := [], bad := none } := by
  obtain ⟨t, hread, hfits, hverdict⟩ := BodyDecoder.called c pending room hlive
  have hturn : c.turn pending = .wait ∨ room = 0 ∧ ∃ b v, c.turn pending = .take 1 [b] v := by
    rcases hblocked with hwait | ⟨hdata, hzero⟩
    · exact .inl hwait
    · unfold BodyDecoder.turn
      rw [if_neg (by rw [hdone]; nofun), hdata]
      cases pending with
      | nil => exact .inl rfl
      | cons b pending => exact .inr ⟨hzero, b, _, rfl⟩
  generalize c.call pending room = o at hread hfits hverdict
  obtain ⟨state, taken, out, bad⟩ := o
  dsimp only at hread hfits hverdict
  cases hread with
  | nil =>
    cases bad with
    | none =>
      obtain ⟨rfl, -⟩ := hverdict
      rfl
    | some e =>
      have hrefuse : c.turn pending = .refuse e state := hverdict
      rcases hturn with hwait | ⟨-, b, v, htake⟩
      · rw [hwait] at hrefuse
        cases hrefuse
      · rw [htake] at hrefuse
        cases hrefuse
  | cons hone hrest =>
    have htake : c.turn pending = _ := hone
    rcases hturn with hwait | ⟨hzero, b, v, hbyte⟩
    · rw [hwait] at htake
      cases htake
    · rw [hbyte] at htake
      cases htake
      simp only [length_append, length_singleton] at hfits
      omega

theorem UploadInv.forwardOne_stuck (h : UploadInv d (bytes ++ rest) u) (hdone : u.reader.decoder.done = false)
    (hwedged : u.wedged = true) (hblocked : u.Blocked) (accept : Bool) : u.forwardOne bodyMax accept = (u, .bad) := by
  have hactive : u.reader.active = true := by rw [h.active, hdone]; rfl
  have hcall : u.reader.decoder.call u.pending (min (min u.reqCredit bodyMax) (u.reader.limit - u.reader.total + 1)) =
      { state := u.reader.decoder, taken := 0, out := [], bad := none } := by
    refine call_blocked h.live hdone (hblocked.imp_right fun hdata => ⟨hdata.1, ?_⟩)
    rw [hdata.2]
    omega
  unfold Upload.forwardOne
  rw [peek_call hactive, hcall, hwedged]
  dsimp only
  have hlimit : ¬ u.reader.total + ([] : Bytes).length > u.reader.limit := Nat.not_lt.mpr h.limit
  rw [if_neg (by simp), if_neg hlimit, if_pos ⟨rfl, hdone⟩]
  rfl

def LoopLeft (body : Bytes) (u : Upload) (accepts : List Bool) (u' : Upload) : BodyStep → Prop
  | .progress => u'.reader.decoder.done = false ∧ u'.pending.length < u.pending.length
  | .done => u'.reader.decoder.done = true
  | .wait => u'.reader.decoder.done = false ∧
    (u'.pending.length < u.pending.length ∨ u' = u ∧ (accepts.headD false = false ∨ u.Blocked))
  | .bad => u' = u ∧ u.wedged = true ∧ u.Blocked
  | .tooLarge => u'.reader.decoder.done = false ∧ u.reader.limit < body.length

theorem UploadInv.forwardLoop (h : UploadInv d (bytes ++ rest) u) (hbody : Took bodyIntake d bytes body d')
    (hend : d'.done = true) (hpos : 0 < bodyMax) (hdone : u.reader.decoder.done = false) (n : Nat) (accepts : List Bool)
    {u' : Upload} {step : BodyStep} (hloop : u.forwardLoop bodyMax n accepts = (u', step)) :
    n = 0 ∧ u' = u ∧ step = .progress ∨
      UploadInv d (bytes ++ rest) u' ∧ Fixed u u' ∧ LoopLeft body u accepts u' step := by
  induction n generalizing u accepts with
  | zero =>
    cases hloop
    exact .inl ⟨rfl, rfl, rfl⟩
  | succ n ih =>
    right
    rw [Upload.forwardLoop] at hloop
    generalize hone : u.forwardOne bodyMax (accepts.headD false) = r at hloop
    obtain ⟨u₁, step₁⟩ := r
    obtain ⟨hinv, hfixed, hleft⟩ := h.forwardOne hbody hend hpos hdone _ hone
    cases step₁ with
    | progress =>
      obtain ⟨hmore, hless⟩ := hleft
      rcases ih hinv hmore accepts.tail hloop with ⟨-, rfl, rfl⟩ | ⟨hinv', hfixed', hleft'⟩
      · exact ⟨hinv, hfixed, hmore, hless⟩
      · refine ⟨hinv', hfixed.trans hfixed', ?_⟩
        cases step with
        | progress => exact ⟨hleft'.1, Nat.lt_trans hleft'.2 hless⟩
        | done => exact hleft'
        | wait =>
          refine ⟨hleft'.1, .inl ?_⟩
          rcases hleft'.2 with hless' | ⟨rfl, -⟩
          · exact Nat.lt_trans hless' hless
          · exact hless
        | bad =>
          -- what was taken before has left room
          have hroom := h.room
          have hfull : u₁.headerEnd + u₁.pending.length ≥ u₁.recvCap := of_decide_eq_true hleft'.2.1
          rw [hfixed.headerEnd, hfixed.recvCap] at hfull
          omega
        | tooLarge => exact ⟨hleft'.1, hfixed.limit ▸ hleft'.2⟩
    | done =>
      cases hloop
      exact ⟨hinv, hfixed, hleft⟩
    | wait =>
      cases hloop
      obtain ⟨rfl, hwhy⟩ := hleft
      exact ⟨hinv, hfixed, hdone, .inr ⟨rfl, hwhy⟩⟩
    | bad =>
      cases hloop
      exact ⟨hinv, hfixed, hleft⟩
    | tooLarge =>
      cases hloop
      obtain ⟨rfl, hover⟩ := hleft
      exact ⟨hinv, hfixed, hdone, hover⟩

structure Moving (d : BodyDecoder) (bytes body rest : Bytes) (limit : Nat) (u : Upload) : Prop where
  inv : UploadInv d (bytes ++ rest) u
  done : u.reqDone = u.reader.decoder.done
  ceiling : u.reader.limit = limit
  large : u.ended = some .tooLarge → limit < body.length

variable {limit : Nat}

section

variable (h : Moving d bytes body rest limit u) (hbody : Took bodyIntake d bytes body d') (hend : d'.done = true)

include h hbody hend

theorem Moving.exact :
    u.Exact body limit := by
  obtain ⟨k, os, hos, hahead⟩ := h.inv.ahead hbody hend
  have hcredit := h.inv.credit
  refine ⟨?_, by omega, ?_, ?_, fun hdone => ?_, fun hfits hover => ?_⟩
  · rw [hos]
    exact prefix_append _ _
  · rw [← h.inv.total, ← h.ceiling]
    exact h.inv.limit
  · rw [Marked, h.done]
    exact h.inv.marked
  · rw [h.done] at hdone
    cases hahead with
    | nil => rw [hos, append_nil]
    | cons hturn => exact absurd hturn (stop_end hdone _ _ _ _)
  · have hlarge := h.large hover
    omega

theorem Moving.forward (hpos : 0 < bodyMax) (accepts : List Bool) :
    Moving d bytes body rest limit (u.forward bodyMax accepts) ∧
      (u.ended ≠ some .bad → ((u.forward bodyMax accepts).ended ≠ some .bad ↔ ¬ u.Stuck)) := by
  unfold Upload.forward
  by_cases hover : u.ended.isSome ∨ u.reqDone
  · rw [if_pos hover]
    refine ⟨h, fun hgood => iff_of_true hgood ?_⟩
    rintro ⟨hended, hreq, -⟩
    rw [hended, hreq] at hover
    simp at hover
  rw [if_neg hover]
  obtain ⟨hended, hreq⟩ := not_or.mp hover
  rw [Option.not_isSome_iff_eq_none] at hended
  rw [not_eq_true] at hreq
  have hdone : u.reader.decoder.done = false := by rw [← h.done, hreq]
  generalize hloop : u.forwardLoop bodyMax FORWARDS_PER_STEP accepts = r
  obtain ⟨u', step⟩ := r
  rcases h.inv.forwardLoop hbody hend hpos hdone _ _ hloop with ⟨hzero, -⟩ | ⟨hinv, hfixed, hleft⟩
  · cases hzero
  have hended' : u'.ended = none := hfixed.ended.trans hended
  have hreq' : u'.reqDone = false := hfixed.reqDone.trans hreq
  have hstuck : u.Stuck → step = .bad := fun hstuck => by
    rw [FORWARDS_PER_STEP, Upload.forwardLoop, h.inv.forwardOne_stuck hdone hstuck.2.2.1 hstuck.2.2.2] at hloop
    cases hloop
    rfl
  have hmoving (hmore : u'.reader.decoder.done = false) : Moving d bytes body rest limit u' :=
    ⟨hinv, by rw [hreq', hmore], hfixed.limit.trans h.ceiling, fun hover => by rw [hended'] at hover; cases hover⟩
  have hfree (hstep : step ≠ .bad) {e : Option BodyEnd} (he : e ≠ some .bad) :
      u.ended ≠ some .bad → (e ≠ some .bad ↔ ¬ u.Stuck) := fun _ => iff_of_true he fun hs => hstep (hstuck hs)
  cases step with
  | progress => exact ⟨hmoving hleft.1, hfree nofun (by rw [hended']; nofun)⟩
  | done =>
    refine ⟨⟨⟨hinv.live, hinv.path, hinv.total, hinv.limit, hinv.active, hinv.credit, hinv.room, hinv.marked⟩, ?_,
      hfixed.limit.trans h.ceiling, ?_⟩, hfree nofun (by rw [hended']; nofun)⟩
    · exact hleft.symm
    · intro hover
      rw [show u'.ended = some _ from hover] at hended'
      cases hended'
  | wait =>
    dsimp only
    split
    · exact ⟨⟨⟨hinv.live, hinv.path, hinv.total, hinv.limit, hinv.active, hinv.credit, hinv.room, hinv.marked⟩,
        (hmoving hleft.1).done, hfixed.limit.trans h.ceiling, nofun⟩, hfree nofun nofun⟩
    · exact ⟨hmoving hleft.1, hfree nofun (by rw [hended']; nofun)⟩
  | bad =>
    obtain ⟨rfl, hwedged, hblocked⟩ := hleft
    refine ⟨⟨⟨hinv.live, hinv.path, hinv.total, hinv.limit, hinv.active, hinv.credit, hinv.room, hinv.marked⟩,
      h.done, h.ceiling, nofun⟩, fun _ => iff_of_false (fun hne => hne rfl) ?_⟩
    exact not_not.mpr ⟨hended, hreq, hwedged, hblocked⟩
  | tooLarge =>
    exact ⟨⟨⟨hinv.live, hinv.path, hinv.total, hinv.limit, hinv.active, hinv.credit, hinv.room, hinv.marked⟩,
      (hmoving hleft.1).done, hfixed.limit.trans h.ceiling, fun _ => h.ceiling ▸ hleft.2⟩, hfree nofun nofun⟩

theorem Moving.turn (hpos : 0 < bodyMax) (e : UploadEvent) :
    Moving d bytes body rest limit (u.turn bodyMax e) ∧
      (u.ended ≠ some .bad → ((u.turn bodyMax e).ended ≠ some .bad ↔ u.Unstuck e)) := by
  obtain ⟨⟨hlive, hpath, htotal, hlimit, hactive, hcredit, hroom, hmarked⟩, hdone, hceiling, hlarge⟩ := h
  cases e with
  | arrive n =>
    unfold Upload.turn
    dsimp only
    split
    · exact ⟨⟨⟨hlive, hpath, htotal, hlimit, hactive, hcredit, hroom, hmarked⟩, hdone, hceiling, hlarge⟩,
        fun hgood => iff_of_true hgood trivial⟩
    next hfits =>
      refine ⟨⟨⟨hlive, ?_, htotal, hlimit, hactive, hcredit, ?_, hmarked⟩, hdone, hceiling, hlarge⟩,
        fun hgood => iff_of_true hgood trivial⟩
      · obtain ⟨k, hread, hleft⟩ := hpath
        refine ⟨k, hread, ?_⟩
        dsimp only
        rw [hleft, append_assoc, take_append_drop]
      · dsimp only
        rw [length_append]
        omega
  | credit n =>
    unfold Upload.turn
    dsimp only
    split
    · exact ⟨⟨⟨hlive, hpath, htotal, hlimit, hactive, hcredit, hroom, hmarked⟩, hdone, hceiling, hlarge⟩,
        fun hgood => iff_of_true hgood trivial⟩
    · refine ⟨⟨⟨hlive, hpath, htotal, hlimit, hactive, ?_, hroom, hmarked⟩, hdone, hceiling, hlarge⟩,
        fun hgood => iff_of_true hgood trivial⟩
      change u.outs.length + App.satAdd u.reqCredit n ≤ u.granted + n
      unfold App.satAdd
      omega
  | forward accepts =>
    exact Moving.forward ⟨⟨hlive, hpath, htotal, hlimit, hactive, hcredit, hroom, hmarked⟩, hdone, hceiling, hlarge⟩ hbody hend
      hpos accepts
  | peerClose =>
    exact ⟨⟨⟨hlive, hpath, htotal, hlimit, hactive, hcredit, hroom, hmarked⟩, hdone, hceiling, hlarge⟩,
      fun hgood => iff_of_true hgood trivial⟩

end

/-! ### The whole body has come -/

theorem UploadInv.arrived (h : UploadInv d (bytes ++ rest) u) (hbody : Took bodyIntake d bytes body d') (hend : d'.done = true)
    (hwire : u.wire.length ≤ rest.length) : ∃ k os, Reads bodyIntake u.reader.decoder u.pending k os d' := by
  obtain ⟨taken, hread, hleft⟩ := h.path
  obtain ⟨k, os, hk, hahead⟩ := hread.stop_short hbody (stop_end hend)
  rw [drop_append_of_le_length (by omega)] at hleft
  have hlen := congrArg List.length hleft
  simp only [length_append] at hlen
  obtain ⟨more, hmore⟩ : bytes.drop taken <+: u.pending := by
    refine List.prefix_of_prefix_length_le (prefix_append _ rest) ?_ (by omega)
    rw [hleft]
    exact prefix_append _ _
  exact ⟨k, os, by rw [← hmore]; exact hahead.grow more⟩

theorem UploadInv.takes (h : UploadInv d (bytes ++ rest) u) (hbody : Took bodyIntake d bytes body d') (hend : d'.done = true)
    (hdone : u.reader.decoder.done = false) (hwire : u.wire.length ≤ rest.length) :
    ∃ n out v, u.reader.decoder.turn u.pending = .take n out v := by
  obtain ⟨k, os, hahead⟩ := h.arrived hbody hend hwire
  generalize u.reader.decoder = c at hahead hdone ⊢
  cases hahead with
  | nil =>
    rw [hend] at hdone
    cases hdone
  | cons hturn => exact ⟨_, _, _, hturn⟩

def Over (u : Upload) : Prop := u.reqDone = true ∨ u.ended = some .tooLarge

def round (r : Nat × List Bool) : List UploadEvent := [.credit r.1, .forward r.2]

theorem Over.turn (h : u.Over) (e : UploadEvent) : (u.turn bodyMax e).Over := by
  cases e with
  | arrive n =>
    unfold Upload.turn
    dsimp only
    split <;> exact h
  | credit n =>
    unfold Upload.turn
    dsimp only
    split <;> exact h
  | forward accepts =>
    have hstay : u.ended.isSome ∨ u.reqDone := by
      rcases h with hdone | hover
      · exact .inr hdone
      · exact .inl (by rw [hover]; rfl)
    change (u.forward bodyMax accepts).Over
    rw [Upload.forward, if_pos hstay]
    exact h
  | peerClose => exact h

structure Ready (rest : Bytes) (u : Upload) : Prop where
  goesOn : u.ended = none
  reading : u.reqDone = false
  peer : u.peerClosed = false
  whole : u.wire.length ≤ rest.length

/-- With credit and `request_out` taking the first record, a call gets to the end or further into `recv_buf`. -/
theorem Moving.advance (h : Moving d bytes body rest limit u) (hbody : Took bodyIntake d bytes body d') (hend : d'.done = true)
    (hpos : 0 < bodyMax) (hready : Ready rest u) (hcredit : 0 < u.reqCredit) {accepts : List Bool}
    (hfirst : accepts.head? = some true) :
    (u.forward bodyMax accepts).Over ∨
      Ready rest (u.forward bodyMax accepts) ∧ (u.forward bodyMax accepts).pending.length < u.pending.length := by
  have hdone : u.reader.decoder.done = false := by rw [← h.done, hready.reading]
  obtain ⟨n, out, v, htake⟩ := h.inv.takes hbody hend hdone hready.whole
  have hfree : ¬ u.Blocked := by
    rintro (hwait | ⟨-, hzero⟩)
    · rw [htake] at hwait
      cases hwait
    · omega
  unfold Upload.forward
  rw [if_neg (by rw [hready.goesOn, hready.reading]; simp)]
  generalize hloop : u.forwardLoop bodyMax FORWARDS_PER_STEP accepts = r
  obtain ⟨u', step⟩ := r
  rcases h.inv.forwardLoop hbody hend hpos hdone _ _ hloop with ⟨hzero, -⟩ | ⟨hinv, hfixed, hleft⟩
  · cases hzero
  have hready' : Ready rest u' := ⟨hfixed.ended.trans hready.goesOn, hfixed.reqDone.trans hready.reading,
    hfixed.peerClosed.trans hready.peer, by rw [hfixed.wire]; exact hready.whole⟩
  cases step with
  | progress => exact .inr ⟨hready', hleft.2⟩
  | done => exact .inl (.inl rfl)
  | wait =>
    dsimp only
    rw [if_neg (by rw [hready'.peer]; nofun)]
    rcases hleft.2 with hless | ⟨-, hrefused | hblocked⟩
    · exact .inr ⟨hready', hless⟩
    · rw [List.headD_eq_head?_getD, hfirst] at hrefused
      cases hrefused
    · exact absurd hblocked hfree
  | bad => exact absurd hleft.2.2 hfree
  | tooLarge => exact .inl (.inr rfl)

theorem Moving.rounds (h : Moving d bytes body rest limit u) (hbody : Took bodyIntake d bytes body d') (hend : d'.done = true)
    (hpos : 0 < bodyMax) (rounds : List (Nat × List Bool)) (hgood : ∀ r ∈ rounds, 0 < r.1 ∧ r.2.head? = some true)
    (hready : u.Over ∨ Ready rest u ∧ u.pending.length ≤ rounds.length) :
    Moving d bytes body rest limit ((machine bodyMax).run u (rounds.flatMap round)).1 ∧
      ((machine bodyMax).run u (rounds.flatMap round)).1.Over := by
  induction rounds generalizing u with
  | nil =>
    refine ⟨h, ?_⟩
    rcases hready with hover | ⟨hready, hnone⟩
    · exact hover
    · obtain ⟨n, out, v, htake⟩ := h.inv.takes hbody hend (by rw [← h.done, hready.reading]) hready.whole
      have hwithin := bodyIntake.within htake
      rw [length_nil] at hnone
      omega
  | cons r rounds ih =>
    obtain ⟨hcredit, hfirst⟩ := hgood r mem_cons_self
    have h₁ := (h.turn hbody hend hpos (.credit r.1)).1
    have h₂ := (h₁.turn hbody hend hpos (.forward r.2)).1
    refine ih h₂ (fun r hr => hgood r (mem_cons_of_mem _ hr)) ?_
    change ((u.turn bodyMax (.credit r.1)).forward bodyMax r.2).Over ∨
      Ready rest ((u.turn bodyMax (.credit r.1)).forward bodyMax r.2) ∧
        ((u.turn bodyMax (.credit r.1)).forward bodyMax r.2).pending.length ≤ rounds.length
    rcases hready with hover | ⟨hready, hlength⟩
    · exact .inl ((hover.turn (.credit r.1)).turn (.forward r.2))
    have hgiven : u.turn bodyMax (.credit r.1) =
        { u with reqCredit := App.satAdd u.reqCredit r.1, granted := u.granted + r.1 } :=
      if_neg (by rw [hready.reading]; nofun)
    rw [hgiven] at h₁ ⊢
    have hsome : 0 < App.satAdd u.reqCredit r.1 := by
      unfold App.satAdd
      omega
    refine (h₁.advance hbody hend hpos ⟨hready.goesOn, hready.reading, hready.peer, hready.whole⟩ hsome hfirst).imp_right ?_
    rintro ⟨hready', hless⟩
    rw [length_cons] at hlength
    exact ⟨hready', Nat.le_of_lt_succ (Nat.lt_of_lt_of_le hless hlength)⟩

theorem reading_of_new {framing : BodyFraming} (hnew : BodyDecoder.new framing = some d) : d.done = false := by
  cases framing with
  | none => cases hnew
  | invalid => cases hnew
  | chunked =>
    cases hnew
    rfl
  | length n =>
    rw [BodyDecoder.new] at hnew
    split at hnew <;> cases hnew
    rfl

theorem moving_start (d : BodyDecoder) (hlive : d.Live) (hdone : d.done = false) (bytes body rest : Bytes) (limit : Nat)
    {headerEnd recvCap : Nat} (hroom : headerEnd ≤ recvCap) :
    Moving d bytes body rest limit (start d limit headerEnd recvCap (bytes ++ rest)) where
  inv := {
    live := hlive
    path := ⟨0, .nil _ _, rfl⟩
    total := rfl
    limit := Nat.zero_le _
    active := by rw [show (start d limit headerEnd recvCap (bytes ++ rest)).reader.decoder = d from rfl, hdone]; rfl
    credit := Nat.le_refl 0
    room := hroom
    marked := by
      rw [show (start d limit headerEnd recvCap (bytes ++ rest)).reader.decoder = d from rfl, hdone]
      exact fun r hr => absurd hr not_mem_nil }
  done := hdone.symm
  ceiling := rfl
  large := nofun

end Step

/-- A body that is framed well is never called malformed exactly as long as `h1_forward` is not called on a stuck
buffer. The records are its beginning, within credit and limit, and rounds enough get all of it over. -/
theorem body_forwarded_iff {bodyMax headerEnd recvCap limit : Nat} {framing : BodyFraming} {d : BodyDecoder} {bytes body : Bytes}
    (hpos : 0 < bodyMax) (hroom : headerEnd ≤ recvCap) (hnew : BodyDecoder.new framing = some d)
    (hwhole : WholeBody framing bytes body) (rest : Bytes) (es : List UploadEvent) :
    let run := fun es => ((machine bodyMax).run (start d limit headerEnd recvCap (bytes ++ rest)) es).1
    (run es).Exact body limit ∧
      ((∀ front, front <+: es → (run front).ended ≠ some .bad) ↔
        (machine bodyMax).Along Unstuck (start d limit headerEnd recvCap (bytes ++ rest)) es) ∧
      ∀ rounds : List (Nat × List Bool), (run es).ended = none → (run es).peerClosed = false →
        (run es).wire.length ≤ rest.length → (run es).pending.length ≤ rounds.length →
        (∀ r ∈ rounds, 0 < r.1 ∧ r.2.head? = some true) →
        (body.length ≤ limit → (run (es ++ rounds.flatMap round)).reqDone = true ∧ (run (es ++ rounds.flatMap round)).outs = body) ∧
          (limit < body.length → (run (es ++ rounds.flatMap round)).ended = some .tooLarge) := by
  intro run
  obtain ⟨d', hend, hbody⟩ := took_whole hnew hwhole
  have hstart := moving_start d (BodyDecoder.live_of_new hnew) (reading_of_new hnew) bytes body rest limit hroom
  have hstep (u : Upload) (e : UploadEvent) (hu : Moving d bytes body rest limit u) :=
    hu.turn hbody hend hpos e
  have hrun (es : List UploadEvent) : Moving d bytes body rest limit (run es) :=
    (machine bodyMax).run_invariant (fun u e hu _ => (hstep u e hu).1) hstart
      ((machine bodyMax).along_of_forall (fun _ _ => trivial) _ es)
  refine ⟨(hrun es).exact hbody hend, ?_, ?_⟩
  · rw [← (machine bodyMax).run_invariant_iff (I := fun u => Moving d bytes body rest limit u ∧ u.ended ≠ some .bad)
      (fun u e ⟨hu, hgood⟩ => (and_iff_right (hstep u e hu).1).trans ((hstep u e hu).2 hgood)) ⟨hstart, nofun⟩ es]
    exact forall₂_congr fun front _ => (and_iff_right (hrun front)).symm
  · intro rounds hgoesOn hpeer hwire hlength hgood
    have hready : (run es).Over ∨ Ready rest (run es) ∧ (run es).pending.length ≤ rounds.length := by
      cases hdone : (run es).reqDone with
      | true => exact .inl (.inl hdone)
      | false => exact .inr ⟨⟨hgoesOn, hdone, hpeer, hwire⟩, hlength⟩
    obtain ⟨-, hover⟩ := (hrun es).rounds hbody hend hpos rounds hgood hready
    have hlast : run (es ++ rounds.flatMap round) = ((machine bodyMax).run (run es) (rounds.flatMap round)).1 := by
      change ((machine bodyMax).run _ _).1 = _
      rw [Machine.run_append]
    rw [← hlast] at hover
    have hexact := (hrun (es ++ rounds.flatMap round)).exact hbody hend
    refine ⟨fun hfits => ?_, fun hlarge => ?_⟩
    · have hdone := hover.resolve_right (hexact.fits hfits)
      exact ⟨hdone, hexact.whole hdone⟩
    · refine hover.resolve_left fun hdone => ?_
      have hceiling := hexact.ceiling
      rw [hexact.whole hdone] at hceiling
      omega

/-- Three bytes declared and given, two records of credit later. -/
theorem body_forwarded_three : ((machine 8176).run
    (start { chunked := false, state := .data, remaining := 3 } 1000 40 2048 ([1, 2, 3] ++ []))
      ([UploadEvent.arrive 2, .credit 1, .forward [true], .arrive 1] ++ [(8, [true]), (8, [true])].flatMap round)).1.outs = [1, 2, 3] := by
  have hwhole : WholeBody (.length 3) [1, 2, 3] [1, 2, 3] := ⟨rfl, rfl⟩
  obtain ⟨-, -, hrounds⟩ := body_forwarded_iff (by decide : 0 < 8176) (by decide : 40 ≤ 2048) rfl hwhole []
    [.arrive 2, .credit 1, .forward [true], .arrive 1]
  exact ((hrounds [(8, [true]), (8, [true])] (by decide) (by decide) (by decide) (by decide) (by decide)).1 (by decide)).2

/-- A body of 3000 bytes fills `recv_buf` before the application has given any credit, and is called malformed. -/
theorem unread_body_called_malformed :
    ¬ ∀ (framing : BodyFraming) (d : BodyDecoder) (bytes body rest : Bytes) (limit : Nat) (es : List UploadEvent),
      BodyDecoder.new framing = some d → WholeBody framing bytes body → body.length ≤ limit →
      ((machine 8176).run (start d limit 40 2048 (bytes ++ rest)) es).1.ended ≠ some .bad := by
  intro h
  refine h (.length 3000) { chunked := false, state := .data, remaining := 3000 } (List.replicate 3000 0) (List.replicate 3000 0) []
    4000 [.arrive 1460, .arrive 548, .forward []] rfl ⟨rfl, length_replicate⟩
    (by rw [length_replicate]; decide) ?_
  decide +kernel

end Upload

end Wave.Http
