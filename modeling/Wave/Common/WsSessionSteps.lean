import Wave.Common.WsSessionWorker

/-! # The steps of a session worker

`step_moves` says what a step can do to one slot: every invariant is a case analysis of `WswMoves`. -/

namespace Wave.Common

open Lib

/-- The operations of a worker. `commit` is the module's answer to `ExportRequested`. -/
inductive WswOp (B : Nat) where
  | ctrl (msg : UInt8) (payload : Bytes)
  | dataIdle
  | commit (idx : Nat) (blob : FixedBytes B) (len : Nat)
  | nextOut (outLen : Nat)
  | onInbound (idx len : Nat)
  | onOutbound (idx len : Nat)
  | setMessageOpen (idx : Nat) (isOpen : Bool)
deriving DecidableEq

/-- What the operations give back: events, and the frames of `next_out` by slot. -/
inductive WswOut where
  | event (e : WswEvent)
  | sent (idx : Nat) (f : WswFrame)
deriving DecidableEq

def WswEvent.slot : WswEvent → Option Nat
  | .none => Option.none
  | .attached i | .exportRequested i | .imported i | .resumed i | .detached i => some i

def WswOut.slot : WswOut → Option Nat
  | .event e => e.slot
  | .sent i _ => some i

def outsOf (i : Nat) (l : List WswOut) : List WswOut := l.filter fun o => o.slot = some i

namespace WsSessionWorker

variable {sdk : HandoffSdk} {B : Nat}

/-- The module writes the blob of a session that was asked for it, and of no other. -/
def commit (w : WsSessionWorker sdk B) (idx : Nat) (blob : FixedBytes B) (len : Nat) : WsSessionWorker sdk B :=
  if (w.session idx).phase = .exporting then (w.writeBlob idx blob).exportCommitted idx len
  else w.exportCommitted idx len

def step (w : WsSessionWorker sdk B) : WswOp B → WsSessionWorker sdk B × List WswOut
  | .ctrl msg payload => ((w.handleCtrl msg payload).1, [.event (w.handleCtrl msg payload).2])
  | .dataIdle => (w.dataIdle.1, [.event w.dataIdle.2])
  | .commit idx blob len => (w.commit idx blob len, [])
  | .nextOut outLen => ((w.nextOut outLen).1, (w.nextOut outLen).2.toList.map fun r => .sent r.1 r.2)
  | .onInbound idx len => (w.onInbound idx len, [])
  | .onOutbound idx len => (w.onOutbound idx len, [])
  | .setMessageOpen idx isOpen => (w.setMessageOpen idx isOpen, [])

def machine (sdk : HandoffSdk) (B : Nat) : Machine (WsSessionWorker sdk B) (WswOp B) WswOut := ⟨step⟩

/-- What one operation does to slot `i`, and what comes out for it. -/
inductive Moves (w : WsSessionWorker sdk B) (i : Nat) : WswOp B → WswSession sdk B → List WswOut → Prop
  | stay (op : WswOp B) : Moves w i op (w.session i) []
  | attach {msg : UInt8} {payload : Bytes} (hcmd : sdk.command msg = .attach) (hlen : WSW_HDR ≤ payload.length)
    (hnew : w.sessionForId payload = none) (hslot : w.freeSlot = some i) :
    Moves w i (.ctrl msg payload) (.attachedBy sdk B payload) [.event (.attached i)]
  | begin {msg : UInt8} {payload : Bytes} (hcmd : sdk.command msg = .exportBegin) (hlen : WSW_HDR ≤ payload.length)
    (hnew : w.sessionForId payload = none) (hslot : w.freeSlot = some i) :
    Moves w i (.ctrl msg payload) (.begunBy sdk B payload) []
  | drain {msg : UInt8} {payload : Bytes} (hcmd : sdk.command msg = .drain) (hsid : w.sessionForId payload = some i)
    (hphase : (w.session i).phase = .active) :
    Moves w i (.ctrl msg payload) { w.session i with phase := .draining } []
  | detach {msg : UInt8} {payload : Bytes} (hcmd : sdk.command msg = .detach)
    (hsid : w.sessionForId payload = some i) :
    Moves w i (.ctrl msg payload) (w.session i).letGo [.event (.detached i)]
  | chunk {msg : UInt8} {payload : Bytes} (hcmd : sdk.command msg = .exportChunk)
    (hsid : w.sessionForId payload = some i) (hphase : (w.session i).phase = .importing) :
    Moves w i (.ctrl msg payload) ((w.session i).chunkBy payload) []
  | finish {msg : UInt8} {payload : Bytes} {outs : List WswOut} (hcmd : sdk.command msg = .exportEnd)
    (hsid : w.sessionForId payload = some i) (hphase : (w.session i).phase = .importing)
    (houts : ∀ o ∈ outs, o = .event (.imported i)) :
    Moves w i (.ctrl msg payload) ((w.session i).endBy payload) outs
  | resume {msg : UInt8} {payload : Bytes} {outs : List WswOut} (hcmd : sdk.command msg = .resume)
    (hsid : w.sessionForId payload = some i) (houts : ∀ o ∈ outs, o = .event (.resumed i)) :
    Moves w i (.ctrl msg payload) ((w.session i).resumeBy (u32At payload 16)) outs
  | idle (hphase : (w.session i).phase = .draining) :
    Moves w i .dataIdle { w.session i with phase := .exporting } [.event (.exportRequested i)]
  | commit {blob : FixedBytes B} {len : Nat} (hlt : i < w.sessions.length) (hphase : (w.session i).phase = .exporting) :
    Moves w i (.commit i blob len) ({ w.session i with blob := blob }.commit len) []
  | render {outLen : Nat} (howes : (w.session i).pending.head ≠ none) :
    Moves w i (.nextOut outLen) ((w.session i).render w.chunk).1
      (((w.session i).render w.chunk).2.toList.map fun f => .sent i f)
  | inbound {len : Nat} :
    Moves w i (.onInbound i len)
      { w.session i with inConsumed := (w.session i).inConsumed + UInt64.ofNat len } []
  | outbound {len : Nat} :
    Moves w i (.onOutbound i len)
      { w.session i with outProduced := (w.session i).outProduced + UInt64.ofNat len } []
  | messageOpen {isOpen : Bool} : Moves w i (.setMessageOpen i isOpen) { w.session i with msgOpen := isOpen } []

variable {w : WsSessionWorker sdk B} {i j : Nat} {payload : Bytes}

theorem session_setSession_ne (h : j ≠ i) (s : WswSession sdk B) : (w.setSession i s).session j = w.session j :=
  Table.getD_set_ne h

theorem session_setSession_self (h : i < w.sessions.length) (s : WswSession sdk B) :
    (w.setSession i s).session i = s := Table.getD_set_self h

theorem session_of_le (h : w.sessions.length ≤ i) : w.session i = .new sdk B := List.getD_eq_default _ _ h

theorem lt_of_held (h : (w.session i).phase ≠ .free) : i < w.sessions.length := by
  by_contra hge
  rw [session_of_le (Nat.le_of_not_lt hge)] at h
  exact h rfl

theorem findIdx_session {p : WswSession sdk B → Bool} (h : w.sessions.findIdx? p = some i) :
    i < w.sessions.length ∧ p (w.session i) = true := by
  obtain ⟨hlt, hp, -⟩ := List.findIdx?_eq_some_iff_getElem.mp h
  refine ⟨hlt, ?_⟩
  unfold session
  rwa [List.getD_eq_getElem _ _ hlt]

theorem sessionForId_some (h : w.sessionForId payload = some i) :
    i < w.sessions.length ∧ (w.session i).phase ≠ .free ∧
      (w.session i).sessionId = payload.take SESSION_ID_BYTES := by
  unfold sessionForId at h
  split at h
  · cases h
  · obtain ⟨hlt, hp⟩ := findIdx_session h
    rw [and_eq_true, decide_eq_true_eq, decide_eq_true_eq] at hp
    exact ⟨hlt, hp.1, hp.2⟩

theorem sessionForId_none (h : w.sessionForId payload = none) (hlen : WSW_HDR ≤ payload.length)
    (hphase : (w.session j).phase ≠ .free) : (w.session j).sessionId ≠ payload.take SESSION_ID_BYTES := by
  have hlt := lt_of_held hphase
  unfold sessionForId at h
  rw [if_neg (show ¬ payload.length < SESSION_ID_BYTES by unfold WSW_HDR at hlen; unfold SESSION_ID_BYTES; omega),
    List.findIdx?_eq_none_iff] at h
  have hj := h (w.session j) (by
    unfold session
    rw [List.getD_eq_getElem _ _ hlt]
    exact getElem_mem hlt)
  rw [Bool.and_eq_false_iff, decide_eq_false_iff_not, decide_eq_false_iff_not, not_not] at hj
  exact hj.resolve_left hphase

theorem freeSlot_some (h : w.freeSlot = some i) :
    i < w.sessions.length ∧ (w.session i).phase = .free ∧ (w.session i).pending.head = none := by
  obtain ⟨hlt, hp⟩ := findIdx_session h
  rw [and_eq_true, decide_eq_true_eq, decide_eq_true_eq] at hp
  exact ⟨hlt, hp.1, hp.2⟩

theorem moves_set {op : WswOp B} {s : WswSession sdk B} {outs : List WswOut} (hlt : i < w.sessions.length)
    (hself : Moves w i op s outs) (houts : ∀ o ∈ outs, o.slot = some i) :
    Moves w j op ((w.setSession i s).session j) (outsOf j outs) := by
  by_cases hj : j = i
  · subst hj
    rw [session_setSession_self hlt, outsOf, List.filter_eq_self.mpr (by simpa using houts)]
    exact hself
  · have hnone : outsOf j outs = [] := by
      rw [outsOf, List.filter_eq_nil_iff]
      intro o ho
      rw [houts o ho, decide_eq_true_eq, Option.some.injEq]
      exact fun h => hj h.symm
    rw [session_setSession_ne hj, hnone]
    exact .stay op

theorem moves_quiet {op : WswOp B} {s : WswSession sdk B} (hlt : i < w.sessions.length) (hself : Moves w i op s []) :
    Moves w j op ((w.setSession i s).session j) [] := moves_set hlt hself nofun

theorem le_of_nextOutLoop {chunk outLen k : Nat} {l : List (WswSession sdk B)} {f : WswFrame}
    (h : (nextOutLoop chunk outLen k l).2 = some (j, f)) : k ≤ j := by
  induction l generalizing k with
  | nil => cases h
  | cons s rest ih =>
    unfold nextOutLoop at h
    split at h
    · exact (Nat.le_succ k).trans (ih h)
    · split at h
      · cases h
      · split at h
        · cases h
          exact le_rfl
        · exact (Nat.le_succ k).trans (ih h)

theorem nextOutLoop_spec (chunk outLen k : Nat) (l : List (WswSession sdk B)) (i : Nat) :
    let r := nextOutLoop chunk outLen k l
    (r.1.getD i (.new sdk B) = l.getD i (.new sdk B) ∧ ∀ f, r.2 ≠ some (k + i, f)) ∨
      ((l.getD i (.new sdk B)).pending.head ≠ none ∧
        r.1.getD i (.new sdk B) = ((l.getD i (.new sdk B)).render chunk).1 ∧
        ∀ f, r.2 = some (k + i, f) ↔ ((l.getD i (.new sdk B)).render chunk).2 = some f) := by
  induction l generalizing k i with
  | nil => exact .inl ⟨rfl, nofun⟩
  | cons s rest ih =>
    -- A frame from further on is not one of the first slot.
    have hlater : ∀ f, (nextOutLoop chunk outLen (k + 1) rest).2 ≠ some (k + 0, f) := by
      intro f hf
      have := le_of_nextOutLoop hf
      omega
    dsimp only
    unfold nextOutLoop
    by_cases hhead : s.pending.head = none
    · rw [if_pos hhead]
      cases i with
      | zero => exact .inl ⟨rfl, hlater⟩
      | succ i =>
        have hi := ih (k + 1) i
        rw [show k + 1 + i = k + (i + 1) by omega] at hi
        exact hi
    · rw [if_neg hhead]
      by_cases hroom : outLen < outMin sdk chunk
      · rw [if_pos hroom]
        exact .inl ⟨rfl, nofun⟩
      · rw [if_neg hroom]
        cases hr : s.render chunk with
        | mk s' frame =>
          cases frame with
          | some f =>
            cases i with
            | zero =>
              refine .inr ⟨hhead, ?_, fun g => ?_⟩
              · change s' = (s.render chunk).1
                rw [hr]
              · change some (k, f) = some (k + 0, g) ↔ (s.render chunk).2 = some g
                rw [hr]
                simp
            | succ i =>
              refine .inl ⟨rfl, fun g hg => ?_⟩
              cases hg
          | none =>
            cases i with
            | zero =>
              refine .inr ⟨hhead, ?_, fun g => ?_⟩
              · change s' = (s.render chunk).1
                rw [hr]
              · change (nextOutLoop chunk outLen (k + 1) rest).2 = some (k + 0, g) ↔ (s.render chunk).2 = some g
                rw [hr]
                exact iff_of_false (hlater g) nofun
            | succ i =>
              have hi := ih (k + 1) i
              rw [show k + 1 + i = k + (i + 1) by omega] at hi
              exact hi

/-- A call with room serves the first slot that owes a frame. -/
theorem nextOutLoop_front {chunk outLen : Nat} (hroom : outMin sdk chunk ≤ outLen) (k : Nat)
    {l : List (WswSession sdk B)} {i : Nat} {f : WswFrame} (hlt : i < l.length)
    (hfront : ∀ j < i, (l.getD j (.new sdk B)).pending.head = none)
    (hf : ((l.getD i (.new sdk B)).render chunk).2 = some f) :
    nextOutLoop chunk outLen k l = (l.set i ((l.getD i (.new sdk B)).render chunk).1, some (k + i, f)) := by
  induction l generalizing k i with
  | nil => cases hlt
  | cons s rest ih =>
    cases i with
    | zero =>
      change (s.render chunk).2 = some f at hf
      have hhead : s.pending.head ≠ none := by
        intro hnone
        unfold WswSession.render at hf
        rw [hnone] at hf
        cases hf
      obtain ⟨s', hs'⟩ : ∃ s', s.render chunk = (s', some f) := ⟨_, Prod.ext rfl hf⟩
      change nextOutLoop chunk outLen k (s :: rest) = ((s.render chunk).1 :: rest, _)
      rw [nextOutLoop, if_neg hhead, if_neg (Nat.not_lt.mpr hroom), hs']
      rfl
    | succ i =>
      have hhead : s.pending.head = none := hfront 0 (Nat.succ_pos i)
      rw [nextOutLoop, if_pos hhead, ih (k + 1) (Nat.lt_of_succ_lt_succ hlt)
        (fun j hj => hfront (j + 1) (Nat.succ_lt_succ hj)) hf, Nat.add_right_comm k 1 i]
      rfl

theorem event_slot {i : Nat} {e : WswEvent} (he : e.slot = some i) :
    ∀ o ∈ [WswOut.event e], o.slot = some i := by
  intro o ho
  rw [mem_singleton.mp ho]
  exact he

theorem handleCtrl_moves (w : WsSessionWorker sdk B) (msg : UInt8) (payload : Bytes) (j : Nat) :
    Moves w j (.ctrl msg payload) ((w.handleCtrl msg payload).1.session j)
      (outsOf j [.event (w.handleCtrl msg payload).2]) := by
  unfold handleCtrl
  by_cases hshort : payload.length < WSW_HDR
  · rw [if_pos hshort]
    exact .stay _
  rw [if_neg hshort]
  have hlen := Nat.le_of_not_lt hshort
  have hstay : Moves w j (.ctrl msg payload) (w.session j) (outsOf j [.event .none]) := .stay _
  cases hcmd : sdk.command msg with
  | other => exact hstay
  | attach =>
    dsimp only [attach]
    split
    · exact hstay
    split
    · exact hstay
    next hnew =>
      split
      · exact hstay
      next i hslot =>
        exact moves_set (freeSlot_some hslot).1 (.attach hcmd hlen (by simpa using hnew) hslot) (event_slot rfl)
  | exportBegin =>
    dsimp only [exportBegin]
    split
    · exact hstay
    split
    · exact hstay
    next hnew =>
      split
      · exact hstay
      next i hslot =>
        exact moves_quiet (freeSlot_some hslot).1 (.begin hcmd hlen (by simpa using hnew) hslot)
  | drain =>
    dsimp only [drain]
    split
    · exact hstay
    next i hsid =>
      split
      next hactive => exact moves_quiet (sessionForId_some hsid).1 (.drain hcmd hsid hactive.1)
      · exact hstay
  | detach =>
    dsimp only [detach]
    split
    · exact hstay
    next i hsid => exact moves_set (sessionForId_some hsid).1 (.detach hcmd hsid) (event_slot rfl)
  | exportChunk =>
    dsimp only [exportChunk]
    split
    · exact hstay
    next i hsid =>
      split
      · exact hstay
      next hphase =>
        rw [not_or, not_not] at hphase
        exact moves_quiet (sessionForId_some hsid).1 (.chunk hcmd hsid hphase.1)
  | exportEnd =>
    dsimp only [exportEnd]
    split
    · exact hstay
    next i hsid =>
      split
      · exact hstay
      next hphase =>
        rw [not_or, not_not] at hphase
        split
        · exact moves_set (sessionForId_some hsid).1
            (.finish hcmd hsid hphase.1 fun o ho => mem_singleton.mp ho) (event_slot rfl)
        · exact moves_quiet (sessionForId_some hsid).1 (.finish hcmd hsid hphase.1 (by rintro _ ⟨⟩))
  | resume =>
    dsimp only [resume]
    split
    · exact hstay
    next i hsid =>
      split
      · exact moves_set (sessionForId_some hsid).1
          (.resume hcmd hsid fun o ho => mem_singleton.mp ho) (event_slot rfl)
      · exact moves_quiet (sessionForId_some hsid).1 (.resume hcmd hsid (by rintro _ ⟨⟩))

theorem session_hook {i j : Nat} {op : WswOp B} {s : WswSession sdk B} (hself : Moves w i op s []) :
    Moves w j op ((w.setSession i s).session j) [] := by
  by_cases hlt : i < w.sessions.length
  · exact moves_quiet hlt hself
  · have hsame : w.setSession i s = w := by
      unfold setSession
      rw [set_eq_of_length_le (Nat.le_of_not_lt hlt)]
    rw [hsame]
    exact .stay op

theorem commit_exporting (h : (w.session i).phase = .exporting) (blob : FixedBytes B) (len : Nat) :
    w.commit i blob len = w.setSession i ({ w.session i with blob := blob }.commit len) := by
  have hlt := lt_of_held (i := i) (by rw [h]; exact nofun)
  have hwritten : (w.writeBlob i blob).session i = { w.session i with blob := blob } := session_setSession_self hlt _
  have hready : ¬ (i ≥ (w.writeBlob i blob).sessions.length ∨ ((w.writeBlob i blob).session i).phase ≠ .exporting) := by
    rw [hwritten, not_or, not_not]
    refine ⟨?_, h⟩
    simpa [writeBlob, setSession] using hlt
  rw [commit, if_pos h, exportCommitted, if_neg hready, hwritten]
  unfold writeBlob setSession
  rw [List.set_set]

theorem step_moves (w : WsSessionWorker sdk B) (op : WswOp B) (j : Nat) :
    Moves w j op ((w.step op).1.session j) (outsOf j (w.step op).2) := by
  cases op with
  | ctrl msg payload => exact handleCtrl_moves w msg payload j
  | dataIdle =>
    dsimp only [step, dataIdle]
    split
    next i hfind =>
      obtain ⟨hlt, hp⟩ := findIdx_session hfind
      rw [and_eq_true, decide_eq_true_eq] at hp
      exact moves_set hlt (.idle hp.1) (event_slot rfl)
    · exact .stay _
  | commit i blob len =>
    dsimp only [step]
    by_cases hphase : (w.session i).phase = .exporting
    · rw [commit_exporting hphase]
      have hlt := lt_of_held (i := i) (by rw [hphase]; exact nofun)
      exact moves_quiet hlt (.commit hlt hphase)
    · rw [commit, if_neg hphase, exportCommitted, if_pos (.inr hphase)]
      exact .stay _
  | nextOut outLen =>
    have hspec := nextOutLoop_spec w.chunk outLen 0 w.sessions j
    dsimp only [step, nextOut]
    rw [Nat.zero_add] at hspec
    change Moves w j _ ((nextOutLoop w.chunk outLen 0 w.sessions).1.getD j (.new sdk B)) _
    have houts : ∀ o : Option (Nat × WswFrame), outsOf j (o.toList.map fun r => .sent r.1 r.2) =
        ((o.filter fun r => r.1 = j).toList.map fun r => .sent j r.2) := by
      intro o
      cases o with
      | none => rfl
      | some r =>
        by_cases hr : r.1 = j
        · simp [outsOf, WswOut.slot, Option.filter, hr]
        · simp [outsOf, WswOut.slot, Option.filter, hr]
    rw [houts]
    rcases hspec with ⟨hsame, hnone⟩ | ⟨howes, hself, hframe⟩
    · have hfilter : ((nextOutLoop w.chunk outLen 0 w.sessions).2.filter fun r => r.1 = j) = none := by
        rw [Option.filter_eq_none_iff]
        intro r hr
        rw [decide_eq_true_eq]
        exact fun hj => hnone r.2 (by rw [hr, ← hj])
      rw [hsame, hfilter]
      exact .stay _
    · have hfilter : ((nextOutLoop w.chunk outLen 0 w.sessions).2.filter fun r => r.1 = j).toList.map
          (fun r => WswOut.sent j r.2) = ((w.session j).render w.chunk).2.toList.map fun f => .sent j f := by
        cases hr : ((w.session j).render w.chunk).2 with
        | some f =>
          rw [(hframe f).mpr hr]
          simp
        | none =>
          cases ho : (nextOutLoop w.chunk outLen 0 w.sessions).2 with
          | none => rfl
          | some r =>
            by_cases hj : r.1 = j
            · have := (hframe r.2).mp (by rw [ho, ← hj])
              exact absurd (hr.symm.trans this) nofun
            · simp [hj]
      rw [hself, hfilter]
      exact .render howes
  | onInbound i len => exact session_hook .inbound
  | onOutbound i len => exact session_hook .outbound
  | setMessageOpen i isOpen => exact session_hook .messageOpen

end WsSessionWorker

/-- An SDK with the commands numbered from one: its walks are a total and a position. -/
def sampleSdk : HandoffSdk where
  command
    | 1 => .attach
    | 2 => .drain
    | 3 => .detach
    | 4 => .exportBegin
    | 5 => .exportChunk
    | 6 => .exportEnd
    | 7 => .resume
    | _ => .other
  ATTACH_PAYLOAD_LEN := 37
  EXPORT_BEGIN_LEN := 40
  STATUS_OK := 0
  STATUS_STALE_EPOCH := 1
  HANDOFF_OK := 0
  Export := Nat × Nat
  newExport total := (total, 0)
  nextChunk e chunk := if e.2 < e.1 then some (e.2, min chunk (e.1 - e.2)) else none
  advance e len := (e.1, e.2 + len)
  exportDone e := e.1 = e.2
  Import := Nat × Nat
  newImport := (0, 0)
  begin _ total cap := ((total, 0), if total ≤ cap then 0 else 1)
  chunk {n} e offset data dest :=
    if h : offset = e.2 ∧ offset + data.length ≤ n then
      ((e.1, offset + data.length), ⟨dest.1.splice offset data, by
        rw [Bytes.length_splice (by rw [dest.2]; exact h.2), dest.2]⟩, 0)
    else (e, dest, 1)
  importEnd e _ := (e, if e.1 = e.2 then 0 else 1)
  totalLen e := e.1
  crc32 b := UInt32.ofNat (b.foldl (fun n x => n + x.toNat) 0)
  decodeCursors _ := some (0, 0)

end Wave.Common
