import Wave.Common.WsSessionHeld

/-! # The frames of one export

What `next_out` sends of a committed export, as long as the anchor keeps its pace (`export_in_order`). -/

namespace Wave.Common

open Lib

/-- What a walk over an export shows: `next_chunk` and `advance` go through `[0, total)` once. -/
structure HandoffSdk.Walk (sdk : HandoffSdk) where
  total : sdk.Export → Nat
  pos : sdk.Export → Nat
  start : ∀ n, total (sdk.newExport n) = n ∧ pos (sdk.newExport n) = 0
  next : ∀ e chunk, 0 < chunk → pos e < total e →
    ∃ len, 0 < len ∧ pos e + len ≤ total e ∧ sdk.nextChunk e chunk = some (pos e, len)
  advance : ∀ e len, total (sdk.advance e len) = total e ∧ pos (sdk.advance e len) = pos e + len
  done : ∀ e, pos e ≤ total e → sdk.exportDone e = decide (total e ≤ pos e)

def WswPending.isExport : WswPending → Bool
  | .drained | .exportBegin | .exportChunk | .exportEnd => true
  | _ => false

def WswBody.isExport : WswBody → Bool
  | .drained | .exportBegin .. | .exportChunk .. | .exportEnd _ => true
  | _ => false

def exportFrames (i : Nat) (l : List WswOut) : List WswFrame :=
  l.filterMap fun
    | .sent j f => if j = i ∧ f.body.isExport then some f else none
    | .event _ => none

def resumedSent (i : Nat) (l : List WswOut) : Nat :=
  l.countP fun
    | .sent j f => j = i ∧ f.body = .resumed
    | .event _ => false

def chunkBodies : Nat → List Bytes → List WswBody
  | _, [] => []
  | pos, c :: cs => .exportChunk pos c :: chunkBodies (pos + c.length) cs

/-- One export of `d`: its frames in order, with chunks that tile it. -/
def Whole (sdk : HandoffSdk) (d : Bytes) (l : List WswBody) : Prop :=
  ∃ cursors chunks, chunks.flatten = d ∧ [] ∉ chunks ∧
    l = .drained :: .exportBegin d.length cursors :: (chunkBodies 0 chunks ++ [WswBody.exportEnd (sdk.crc32 d)])

theorem chunkBodies_concat (pos : Nat) (cs : List Bytes) (c : Bytes) :
    chunkBodies pos (cs ++ [c]) = chunkBodies pos cs ++ [WswBody.exportChunk (pos + cs.flatten.length) c] := by
  induction cs generalizing pos with
  | nil => rfl
  | cons x cs ih =>
    rw [cons_append, chunkBodies, ih, chunkBodies, flatten_cons, length_append, Nat.add_assoc,
      cons_append]

theorem Whole.length_le {sdk : HandoffSdk} {d : Bytes} {l : List WswBody} (h : Whole sdk d l) :
    l.length ≤ d.length + 3 := by
  obtain ⟨cursors, chunks, rfl, hne, rfl⟩ := h
  have hchunks (pos : Nat) : (chunkBodies pos chunks).length ≤ chunks.flatten.length := by
    induction chunks generalizing pos with
    | nil => exact Nat.le_refl 0
    | cons c cs ih =>
      obtain ⟨hc, hcs⟩ := not_or.mp (mem_cons.not.mp hne)
      have hpos := length_pos_of_ne_nil (Ne.symm hc)
      have hrest := ih hcs (pos + c.length)
      rw [chunkBodies, length_cons, flatten_cons, length_append]
      omega
  have hlen := hchunks 0
  simp only [length_cons, length_append, length_nil]
  omega

/-! ### An export underway -/

section Underway

variable {sdk : HandoffSdk} {B : Nat} (walk : sdk.Walk)

def Underway (d : Bytes) (e : sdk.Export) (l : List WswBody) : WswPending → Prop
  | .drained => l = [] ∧ walk.pos e = 0
  | .exportBegin => l = [.drained] ∧ walk.pos e = 0
  | .exportChunk => ∃ cursors chunks, chunks.flatten = d.take (walk.pos e) ∧ walk.pos e < d.length ∧ [] ∉ chunks ∧
      l = .drained :: .exportBegin d.length cursors :: chunkBodies 0 chunks
  | .exportEnd => ∃ cursors chunks, chunks.flatten = d ∧ [] ∉ chunks ∧
      l = .drained :: .exportBegin d.length cursors :: chunkBodies 0 chunks
  | _ => False

variable {walk} {d : Bytes} {e : sdk.Export} {l : List WswBody} {p : WswPending}

theorem Underway.isExport (h : Underway walk d e l p) : p.isExport = true := by
  cases p with
  | drained | exportBegin | exportChunk | exportEnd => rfl
  | _ => exact h.elim

theorem Underway.whole (h : Underway walk d e l p) : ∃ rest, Whole sdk d (l ++ rest) := by
  have hchunks : ∃ chunks : List Bytes, chunks.flatten = d ∧ [] ∉ chunks := by
    by_cases hd : d = []
    · exact ⟨[], hd.symm, not_mem_nil⟩
    · exact ⟨[d], by simp, fun h => hd (mem_singleton.mp h).symm⟩
  cases p with
  | drained =>
    obtain ⟨chunks, hflat, hne⟩ := hchunks
    rw [h.1]
    exact ⟨_, (0, 0), chunks, hflat, hne, rfl⟩
  | exportBegin =>
    obtain ⟨chunks, hflat, hne⟩ := hchunks
    rw [h.1]
    exact ⟨_, (0, 0), chunks, hflat, hne, rfl⟩
  | exportChunk =>
    obtain ⟨cursors, chunks, hflat, hpos, hne, rfl⟩ := h
    have hmore : d.drop (walk.pos e) ≠ [] := by
      rw [ne_eq, drop_eq_nil_iff]
      omega
    refine ⟨[.exportChunk (0 + chunks.flatten.length) (d.drop (walk.pos e)), .exportEnd (sdk.crc32 d)], cursors,
      chunks ++ [d.drop (walk.pos e)], ?_, ?_, ?_⟩
    · rw [flatten_append, hflat, List.flatten_singleton, take_append_drop]
    · rw [mem_append, mem_singleton]
      exact not_or.mpr ⟨hne, fun h => hmore h.symm⟩
    · rw [chunkBodies_concat]
      simp
  | exportEnd =>
    obtain ⟨cursors, chunks, hflat, hne, rfl⟩ := h
    exact ⟨[.exportEnd (sdk.crc32 d)], cursors, chunks, hflat, hne, rfl⟩
  | _ => exact h.elim

/-- A session with a frame of an export of `d` among its replies, and what is out of it. -/
structure Stage (walk : sdk.Walk) (d sid : Bytes) (resumed : Nat) (s : WswSession sdk B) (l : List WswOut) (i : Nat) :
    Prop where
  held : s.phase ≠ .free ∧ s.phase ≠ .importing ∧ s.phase ≠ .imported
  sessionId : s.sessionId = sid
  ids : ∀ f ∈ exportFrames i l, f.sessionId = sid
  exported : s.exported = d ∧ s.blobLen = d.length
  total : walk.total s.handoffExport = d.length
  queue : ∃ pre p post, s.pending.entries = pre ++ p :: post ∧ (∀ r ∈ pre ++ post, r.isExport = false) ∧
    resumedSent i l + pre.count .resumed ≤ resumed ∧
    Underway walk d s.handoffExport ((exportFrames i l).map (·.body)) p

/-- A session with no frame of an export among its replies: the export is out, or the session was let go. -/
structure Over (sdk : HandoffSdk) (d sid : Bytes) (s : WswSession sdk B) (l : List WswOut) (i : Nat) : Prop where
  clear : ∀ r ∈ s.pending.entries, r.isExport = false
  ids : ∀ f ∈ exportFrames i l, f.sessionId = sid
  out : Whole sdk d ((exportFrames i l).map (·.body)) ∨
    (WswOut.event (.detached i) ∈ l ∧ ∃ rest, Whole sdk d ((exportFrames i l).map (·.body) ++ rest))

end Underway

section Log

variable {i : Nat} (l l' : List WswOut)

theorem exportFrames_append : exportFrames i (l ++ l') = exportFrames i l ++ exportFrames i l' := by
  unfold exportFrames
  rw [filterMap_append]

theorem resumedSent_append : resumedSent i (l ++ l') = resumedSent i l + resumedSent i l' := by
  unfold resumedSent
  rw [countP_append]

theorem exportFrames_outsOf : exportFrames i (outsOf i l) = exportFrames i l := by
  unfold exportFrames outsOf
  rw [List.filterMap_filter]
  refine List.filterMap_congr fun o _ => ?_
  cases o with
  | event e => split <;> rfl
  | sent j f =>
    by_cases hj : j = i
    · simp [WswOut.slot, hj]
    · simp [WswOut.slot, hj]

theorem resumedSent_outsOf : resumedSent i (outsOf i l) = resumedSent i l := by
  unfold resumedSent outsOf
  rw [List.countP_filter]
  refine List.countP_congr fun o _ => ?_
  cases o with
  | event e => simp
  | sent j f =>
    by_cases hj : j = i
    · simp [WswOut.slot, hj]
    · simp [WswOut.slot, hj]

theorem exportFrames_events {outs : List WswOut} (h : ∀ o ∈ outs, ∃ e, o = .event e) : exportFrames i outs = [] := by
  unfold exportFrames
  rw [List.filterMap_eq_nil_iff]
  intro o ho
  obtain ⟨e, rfl⟩ := h o ho
  rfl

theorem resumedSent_events {outs : List WswOut} (h : ∀ o ∈ outs, ∃ e, o = .event e) : resumedSent i outs = 0 := by
  unfold resumedSent
  rw [List.countP_eq_zero]
  intro o ho
  obtain ⟨e, rfl⟩ := h o ho
  exact false_ne_true

end Log

/-! ### Rendering -/

namespace ReplyQueue

variable {q : ReplyQueue} {p : WswPending} {rest : List WswPending}

theorem pop_cons (h : q.entries = p :: rest) : q.pop.entries = rest := congrArg List.tail h

theorem replaceHead_cons (h : q.entries = p :: rest) (r : WswPending) : (q.replaceHead r).entries = r :: rest := by
  unfold replaceHead
  rw [dif_pos (by rw [h]; exact Nat.succ_pos _)]
  exact congrArg (fun l => r :: l.tail) h

theorem owe_entries (q : ReplyQueue) (p : WswPending) :
    (q.owe p).entries = q.entries ++ [p] ∨
      (q.entries.length = WSW_PENDING_MAX ∧ (q.owe p).entries = q.entries.tail ++ [p]) := by
  unfold owe
  split
  · exact .inl rfl
  next h => exact .inr ⟨Nat.le_antisymm q.bound (Nat.le_of_not_lt h), rfl⟩

end ReplyQueue

namespace WswSession

variable {sdk : HandoffSdk} {B : Nat} {s : WswSession sdk B} {p : WswPending} {rest : List WswPending} (chunk : Nat)

theorem render_plain (hq : s.pending.entries = p :: rest) (hp : p.isExport = false) (hd : p ≠ .detached) :
    ∃ f, (s.render chunk).2 = some f ∧ f.body.isExport = false ∧ (f.body = .resumed ↔ p = .resumed) ∧
      (s.render chunk).1.pending.entries = rest ∧ (s.render chunk).1.handoffExport = s.handoffExport := by
  have hhead : s.pending.head = some p := by rw [ReplyQueue.head, hq, List.head?_cons]
  have hpop : s.pending.pop.entries = rest := ReplyQueue.pop_cons hq
  unfold render
  rw [hhead]
  cases p with
  | drained | exportBegin | exportChunk | exportEnd => cases hp
  | detached => exact absurd rfl hd
  | resumed => exact ⟨_, rfl, rfl, Iff.intro (fun _ => rfl) fun _ => rfl, hpop, rfl⟩
  | attached | importBegin | importEnd | error => exact ⟨_, rfl, rfl, Iff.intro nofun nofun, hpop, rfl⟩

theorem render_clear (h : ∀ r ∈ s.pending.entries, r.isExport = false) :
    (∀ f, (s.render chunk).2 = some f → f.body.isExport = false) ∧
      ∀ r ∈ (s.render chunk).1.pending.entries, r.isExport = false := by
  cases hq : s.pending.entries with
  | nil =>
    have hhead : s.pending.head = none := by rw [ReplyQueue.head, hq, List.head?_nil]
    unfold render
    rw [hhead]
    exact ⟨nofun, h⟩
  | cons p rest =>
    have hp := h p (hq ▸ mem_cons_self)
    by_cases hd : p = .detached
    · have hhead : s.pending.head = some .detached := by rw [ReplyQueue.head, hq, List.head?_cons, hd]
      unfold render
      rw [hhead]
      refine ⟨fun f hf => ?_, nofun⟩
      cases hf
      rfl
    · obtain ⟨f, hf, hbody, -, hrest, -⟩ := render_plain chunk hq hp hd
      rw [hf, hrest]
      refine ⟨fun g hg => ?_, fun r hr => h r (hq ▸ mem_cons_of_mem _ hr)⟩
      cases hg
      exact hbody

theorem render_export (walk : sdk.Walk) {d : Bytes} {l : List WswBody} (hchunk : 0 < chunk)
    (hq : s.pending.entries = p :: rest) (hd : s.exported = d ∧ s.blobLen = d.length)
    (htotal : walk.total s.handoffExport = d.length) (h : Underway walk d s.handoffExport l p) :
    let s' := (s.render chunk).1
    walk.total s'.handoffExport = d.length ∧
      ∃ body, (s.render chunk).2 = some ⟨s.sessionId, s.epoch, body⟩ ∧ body.isExport = true ∧
        ((∃ p', s'.pending.entries = p' :: rest ∧ Underway walk d s'.handoffExport (l ++ [body]) p') ∨
          (s'.pending.entries = rest ∧ Whole sdk d (l ++ [body]))) := by
  have hhead : s.pending.head = some p := by rw [ReplyQueue.head, hq, List.head?_cons]
  have hreplace := ReplyQueue.replaceHead_cons hq
  unfold render
  rw [hhead]
  cases p with
  | drained =>
    refine ⟨htotal, _, rfl, rfl, .inl ⟨.exportBegin, hreplace _, ?_, h.2⟩⟩
    rw [h.1, nil_append]
  | exportBegin =>
    refine ⟨htotal, _, rfl, rfl, .inl ⟨_, hreplace _, ?_⟩⟩
    change Underway walk d s.handoffExport _ _
    rw [h.1, hd.2]
    by_cases hzero : d.length = 0
    · rw [if_pos hzero]
      exact ⟨_, [], (length_eq_zero_iff.mp hzero).symm, not_mem_nil, rfl⟩
    · rw [if_neg hzero]
      refine ⟨_, [], ?_, ?_, not_mem_nil, rfl⟩
      · rw [h.2, take_zero, flatten_nil]
      · rw [h.2]
        omega
  | exportChunk =>
    obtain ⟨cursors, chunks, hflat, hpos, hne, rfl⟩ := h
    obtain ⟨len, hlen, hle, hnext⟩ := walk.next s.handoffExport chunk hchunk (by rw [htotal]; exact hpos)
    rw [htotal] at hle
    -- The bytes of the chunk are the next ones of `d`.
    have hslice : Bytes.slice s.blob.1 (walk.pos s.handoffExport) (walk.pos s.handoffExport + len) =
        (d.drop (walk.pos s.handoffExport)).take len := by
      have hmin : min s.blobLen B = d.length := by
        have hlength := congrArg List.length hd.1
        rw [exported, length_take, s.blob.2] at hlength
        omega
      conv_rhs => rw [← hd.1]
      rw [Bytes.slice, exported, hmin, Nat.add_sub_cancel_left, drop_take, take_take,
        Nat.min_eq_left (by omega)]
    have hsize : ((d.drop (walk.pos s.handoffExport)).take len).length = len := by
      rw [length_take, length_drop]
      omega
    have hwhole : (chunks ++ [(d.drop (walk.pos s.handoffExport)).take len]).flatten =
        d.take (walk.pos s.handoffExport + len) := by
      rw [flatten_append, hflat, List.flatten_singleton, List.take_add]
    have hnone : [] ∉ chunks ++ [(d.drop (walk.pos s.handoffExport)).take len] := by
      rw [mem_append, mem_singleton]
      refine not_or.mpr ⟨hne, fun hnil => ?_⟩
      rw [← hnil] at hsize
      exact absurd hsize (by simp; omega)
    have hstart : chunks.flatten.length = walk.pos s.handoffExport := by
      rw [hflat, length_take]
      omega
    have hbodies : WswBody.drained :: .exportBegin d.length cursors :: chunkBodies 0 chunks ++
        [.exportChunk (walk.pos s.handoffExport) ((d.drop (walk.pos s.handoffExport)).take len)] =
        .drained :: .exportBegin d.length cursors ::
          chunkBodies 0 (chunks ++ [(d.drop (walk.pos s.handoffExport)).take len]) := by
      rw [chunkBodies_concat, hstart, Nat.zero_add]
      rfl
    obtain ⟨htotal', hpos'⟩ := walk.advance s.handoffExport len
    dsimp only
    rw [hnext]
    dsimp only
    rw [walk.done _ (by rw [htotal', hpos', htotal]; exact hle), hslice, htotal', hpos', htotal]
    by_cases hlast : d.length ≤ walk.pos s.handoffExport + len
    · rw [if_pos (decide_eq_true hlast)]
      refine ⟨htotal'.trans htotal, _, rfl, rfl, .inl ⟨.exportEnd, hreplace _, cursors, _, ?_, hnone, hbodies⟩⟩
      rw [hwhole, take_of_length_le hlast]
    · rw [if_neg (by rw [decide_eq_true_eq]; exact hlast)]
      refine ⟨htotal'.trans htotal, _, rfl, rfl, .inl ⟨.exportChunk, hq, cursors, _, ?_, ?_, hnone, hbodies⟩⟩
      · change _ = d.take (walk.pos (sdk.advance s.handoffExport len))
        rw [hwhole, hpos']
      · change walk.pos (sdk.advance s.handoffExport len) < d.length
        rw [hpos']
        omega
  | exportEnd =>
    obtain ⟨cursors, chunks, hflat, hne, rfl⟩ := h
    refine ⟨htotal, _, rfl, rfl, .inr ⟨ReplyQueue.pop_cons hq, cursors, chunks, hflat, hne, ?_⟩⟩
    rw [hd.1]
    rfl
  | _ => exact h.elim

end WswSession

/-! ### What a step does to an export -/

section Steps

variable {sdk : HandoffSdk} {B : Nat} {walk : sdk.Walk} {d sid : Bytes} {resumed i : Nat} {s s' : WswSession sdk B}
  {l outs : List WswOut}

theorem Stage.serve (h : Stage walk d sid resumed s l i)
    (hheld : s'.phase ≠ .free ∧ s'.phase ≠ .importing ∧ s'.phase ≠ .imported)
    (hsame : s'.sessionId = s.sessionId ∧ s'.blob = s.blob ∧ s'.blobLen = s.blobLen ∧
      s'.handoffExport = s.handoffExport)
    (howed : s'.pending = s.pending ∨ ∃ r, r.isExport = false ∧ s'.pending = s.pending.owe r ∧
      (s.pending.entries.length < WSW_PENDING_MAX ∨ ∀ p ∈ s.pending.head, p.isExport = false))
    (houts : ∀ o ∈ outs, ∃ e, o = .event e) : Stage walk d sid resumed s' (l ++ outs) i := by
  obtain ⟨hid, hblob, hlen, hwalk⟩ := hsame
  have hexported : s'.exported = s.exported := by rw [WswSession.exported, hblob, hlen, WswSession.exported]
  have hframes : exportFrames i (l ++ outs) = exportFrames i l := by
    rw [exportFrames_append, exportFrames_events houts, append_nil]
  have hcount : resumedSent i (l ++ outs) = resumedSent i l := by
    rw [resumedSent_append, resumedSent_events houts, Nat.add_zero]
  obtain ⟨pre, p, post, hq, hplain, hle, hunder⟩ := h.queue
  refine ⟨hheld, hid.trans h.sessionId, hframes ▸ h.ids, ⟨hexported.trans h.exported.1, hlen.trans h.exported.2⟩,
    hwalk ▸ h.total, ?_⟩
  rw [hframes, hcount, hwalk]
  rcases howed with hsame | ⟨r, hr, howe, hpace⟩
  · exact ⟨pre, p, post, hsame ▸ hq, hplain, hle, hunder⟩
  have hone : ∀ x ∈ [r], x.isExport = false := fun x hx => mem_singleton.mp hx ▸ hr
  have hplain' : ∀ x ∈ pre ++ (post ++ [r]), x.isExport = false := by
    rw [← append_assoc]
    exact forall_mem_append.mpr ⟨hplain, hone⟩
  rw [howe]
  rcases ReplyQueue.owe_entries s.pending r with howed | ⟨hfull, howed⟩
  · refine ⟨pre, p, post ++ [r], ?_, hplain', hle, hunder⟩
    rw [howed, hq, append_assoc, cons_append]
  · -- Of a full queue the head goes, which is no frame of the export.
    have hhead := hpace.resolve_left (by omega)
    cases pre with
    | nil =>
      have := hhead p (by rw [ReplyQueue.head, hq]; rfl)
      rw [hunder.isExport] at this
      cases this
    | cons x pre =>
      refine ⟨pre, p, post ++ [r], ?_, fun y hy => hplain' y (mem_cons_of_mem _ hy), ?_, hunder⟩
      · rw [howed, hq, cons_append, tail_cons, append_assoc, cons_append]
      · rw [List.count_cons] at hle
        omega

theorem Stage.render (h : Stage walk d sid resumed s l i) (hs : SlotInv s) {chunk : Nat} (hchunk : 0 < chunk) :
    let outs := (s.render chunk).2.toList.map (WswOut.sent i ·)
    (Stage walk d sid resumed (s.render chunk).1 (l ++ outs) i ∨ Over sdk d sid (s.render chunk).1 (l ++ outs) i) ∧
      (∃ f, (s.render chunk).2 = some f) ∧
      (s.render chunk).1.pending.entries.length + (exportFrames i l).length <
        s.pending.entries.length + (exportFrames i (l ++ outs)).length := by
  obtain ⟨pre, p, post, hq, hplain, hle, hunder⟩ := h.queue
  have hgone : s.pending.head ≠ some .detached := by
    intro hd
    obtain ⟨rest, hrest⟩ := ReplyQueue.head_some hd
    exact hs.not_gone h.held.1 (hrest ▸ mem_cons_self)
  have hsame := WswSession.render_same chunk hgone
  have hphase : (s.render chunk).1.phase = s.phase := by
    refine (WswSession.render_phase chunk hgone).resolve_right fun hbad => ?_
    obtain ⟨rest, hrest⟩ := ReplyQueue.head_some hbad.1.1
    exact hbad.1.2 (hs.accepted h.held.1 h.held.2.1 (hrest ▸ mem_cons_self))
  have hexported : (s.render chunk).1.exported = d ∧ (s.render chunk).1.blobLen = d.length := by
    rw [WswSession.exported, hsame.exported.1, hsame.exported.2]
    exact h.exported
  dsimp only
  cases pre with
  | cons r pre =>
    have hd : r ≠ .detached := by
      rintro rfl
      exact hgone (by rw [ReplyQueue.head, hq]; rfl)
    obtain ⟨f, hf, hbody, hres, hrest, hwalk⟩ := WswSession.render_plain chunk hq (hplain r mem_cons_self) hd
    rw [hf]
    have hframes : exportFrames i (l ++ [WswOut.sent i f]) = exportFrames i l := by
      rw [exportFrames_append]
      simp [exportFrames, hbody]
    refine ⟨.inl ⟨hphase ▸ h.held, hsame.sessionId.trans h.sessionId, hframes ▸ h.ids, hexported, hwalk ▸ h.total,
      pre, p, post, hrest, fun x hx => hplain x (mem_cons_of_mem _ hx), ?_, ?_⟩, ⟨f, rfl⟩, ?_⟩
    · change resumedSent i (l ++ [WswOut.sent i f]) + _ ≤ _
      have hone : resumedSent i [WswOut.sent i f] = if r = .resumed then 1 else 0 := by simp [resumedSent, hres]
      rw [resumedSent_append, hone]
      rw [List.count_cons] at hle
      simp only [beq_iff_eq] at hle
      omega
    · change Underway walk d _ ((exportFrames i (l ++ [WswOut.sent i f])).map (·.body)) p
      rw [hframes, hwalk]
      exact hunder
    · change _ < _ + (exportFrames i (l ++ [WswOut.sent i f])).length
      rw [hframes, hrest, hq]
      exact Nat.add_lt_add_right (Nat.lt_succ_self _) _
  | nil =>
    obtain ⟨htotal, body, hf, hbody, hnext⟩ :=
      WswSession.render_export chunk walk hchunk hq h.exported h.total hunder
    rw [hf]
    change (Stage _ _ _ _ _ (l ++ [WswOut.sent i ⟨s.sessionId, s.epoch, body⟩]) _ ∨
      Over _ _ _ _ (l ++ [WswOut.sent i ⟨s.sessionId, s.epoch, body⟩]) _) ∧ _ ∧
      _ < _ + (exportFrames i (l ++ [WswOut.sent i ⟨s.sessionId, s.epoch, body⟩])).length
    have hframes : exportFrames i (l ++ [WswOut.sent i ⟨s.sessionId, s.epoch, body⟩]) =
        exportFrames i l ++ [⟨s.sessionId, s.epoch, body⟩] := by
      rw [exportFrames_append]
      simp [exportFrames, hbody]
    have hbodies : (exportFrames i (l ++ [WswOut.sent i ⟨s.sessionId, s.epoch, body⟩])).map (·.body) =
        (exportFrames i l).map (·.body) ++ [body] := by
      rw [hframes, map_append]
      rfl
    have hids : ∀ f ∈ exportFrames i (l ++ [WswOut.sent i ⟨s.sessionId, s.epoch, body⟩]), f.sessionId = sid := by
      rw [hframes]
      exact forall_mem_append.mpr ⟨h.ids, fun f hf => mem_singleton.mp hf ▸ h.sessionId⟩
    rw [hq, nil_append, length_cons, hframes, length_append, length_singleton]
    rcases hnext with ⟨p', hrest, hunder'⟩ | ⟨hrest, hwhole⟩
    · rw [hrest, length_cons]
      refine ⟨.inl ⟨hphase ▸ h.held, hsame.sessionId.trans h.sessionId, hids, hexported, htotal, [], p', post, hrest,
        hplain, ?_, hbodies ▸ hunder'⟩, ⟨_, rfl⟩, by omega⟩
      have hnone : body ≠ .resumed := by
        rintro rfl
        cases hbody
      have hone : resumedSent i [WswOut.sent i ⟨s.sessionId, s.epoch, body⟩] = 0 := by simp [resumedSent, hnone]
      rw [resumedSent_append, hone]
      exact hle
    · rw [hrest]
      refine ⟨.inr ⟨?_, hids, .inl (hbodies ▸ hwhole)⟩, ⟨_, rfl⟩, by omega⟩
      rw [hrest]
      exact hplain

theorem Over.keep (h : Over sdk d sid s l i) (hclear : ∀ r ∈ s'.pending.entries, r.isExport = false)
    (houts : exportFrames i outs = []) : Over sdk d sid s' (l ++ outs) i := by
  have hframes : exportFrames i (l ++ outs) = exportFrames i l := by
    rw [exportFrames_append, houts, append_nil]
  refine ⟨hclear, hframes ▸ h.ids, ?_⟩
  rw [hframes]
  exact h.out.imp_right (And.imp_left (mem_append_left outs))

theorem Over.owe (h : Over sdk d sid s l i) {r : WswPending} (hr : r.isExport = false) :
    ∀ p ∈ (s.pending.owe r).entries, p.isExport = false :=
  fun _ hp => (ReplyQueue.mem_owe hp).elim (h.clear _) fun heq => heq ▸ hr

end Steps

namespace WsSessionWorker

variable {sdk : HandoffSdk} {B : Nat}

/-- The next export of slot `i` is not committed yet, and no `RESUME` comes where four replies are owed, a frame of
the export first. -/
structure AtPace (w : WsSessionWorker sdk B) (i : Nat) (op : WswOp B) : Prop where
  commits : ∀ blob len, op = .commit i blob len → (w.session i).phase ≠ .exporting
  resumes : ∀ msg payload, op = .ctrl msg payload → sdk.command msg = .resume → w.sessionForId payload = some i →
    (w.session i).pending.entries.length < WSW_PENDING_MAX ∨ ∀ p ∈ (w.session i).pending.head, p.isExport = false

variable {walk : sdk.Walk} {d sid : Bytes} {resumed i : Nat} {w : WsSessionWorker sdk B} {op : WswOp B}
  {s : WswSession sdk B} {l outs : List WswOut}

theorem Moves.stage (hm : Moves w i op s outs) (h : SlotInv (w.session i)) (hchunk : 0 < w.chunk)
    (hpace : AtPace w i op) (hs : Stage walk d sid resumed (w.session i) l i) :
    Stage walk d sid resumed s (l ++ outs) i ∨ Over sdk d sid s (l ++ outs) i := by
  have hevent : ∀ e : WswEvent, ∀ o ∈ [WswOut.event e], ∃ e, o = .event e :=
    fun e o ho => ⟨e, mem_singleton.mp ho⟩
  cases hm with
  | stay => exact .inl (hs.serve hs.held ⟨rfl, rfl, rfl, rfl⟩ (.inl rfl) nofun)
  | inbound | outbound | messageOpen => exact .inl (hs.serve hs.held ⟨rfl, rfl, rfl, rfl⟩ (.inl rfl) nofun)
  | attach _ _ _ hslot | begin _ _ _ hslot => exact absurd (freeSlot_some hslot).2.1 hs.held.1
  | chunk _ _ hphase | finish _ _ hphase => exact absurd hphase hs.held.2.1
  | drain => exact .inl (hs.serve ⟨nofun, nofun, nofun⟩ ⟨rfl, rfl, rfl, rfl⟩ (.inl rfl) nofun)
  | idle => exact .inl (hs.serve ⟨nofun, nofun, nofun⟩ ⟨rfl, rfl, rfl, rfl⟩ (.inl rfl) (hevent _))
  | commit _ hphase => exact absurd hphase (hpace.commits _ _ rfl)
  | detach =>
    right
    obtain ⟨pre, p, post, -, -, -, hunder⟩ := hs.queue
    have hframes : exportFrames i (l ++ [WswOut.event (.detached i)]) = exportFrames i l := by
      rw [exportFrames_append, exportFrames_events (hevent _), append_nil]
    refine ⟨fun r hr => mem_singleton.mp hr ▸ rfl, hframes ▸ hs.ids, .inr ⟨?_, ?_⟩⟩
    · exact mem_append_right _ mem_cons_self
    · rw [hframes]
      exact hunder.whole
  | resume hcmd hsid houts =>
    left
    have hroom := hpace.resumes _ _ rfl hcmd hsid
    have houts' : ∀ o ∈ outs, ∃ e, o = .event e := fun o ho => ⟨_, houts o ho⟩
    unfold WswSession.resumeBy
    rw [if_neg fun hfresh => hs.held.2.2 hfresh.1]
    split
    · exact hs.serve ⟨nofun, nofun, nofun⟩ ⟨rfl, rfl, rfl, rfl⟩ (.inr ⟨.resumed, rfl, rfl, hroom⟩) houts'
    · exact hs.serve hs.held ⟨rfl, rfl, rfl, rfl⟩ (.inr ⟨.error, rfl, rfl, hroom⟩) houts'
  | render => exact (hs.render h hchunk).1

theorem Moves.over (hm : Moves w i op s outs) (hpace : AtPace w i op) (hs : Over sdk d sid (w.session i) l i) :
    Over sdk d sid s (l ++ outs) i := by
  cases hm with
  | stay | drain | idle | inbound | outbound | messageOpen => exact hs.keep hs.clear rfl
  | attach | begin | detach => exact hs.keep (fun r hr => mem_singleton.mp hr ▸ rfl) rfl
  | chunk =>
    refine hs.keep ?_ rfl
    unfold WswSession.chunkBy
    dsimp only
    split
    · exact hs.clear
    · exact hs.owe rfl
  | finish _ _ _ houts =>
    refine hs.keep ?_ (exportFrames_events fun o ho => ⟨_, houts o ho⟩)
    unfold WswSession.endBy
    dsimp only
    split <;> exact hs.owe rfl
  | resume _ _ houts =>
    refine hs.keep ?_ (exportFrames_events fun o ho => ⟨_, houts o ho⟩)
    unfold WswSession.resumeBy
    split
    · exact hs.owe rfl
    · split <;> exact hs.owe rfl
  | commit _ hphase => exact absurd hphase (hpace.commits _ _ rfl)
  | render =>
    obtain ⟨hframe, hclear⟩ := WswSession.render_clear w.chunk hs.clear
    refine hs.keep hclear ?_
    cases hf : ((w.session i).render w.chunk).2 with
    | none => rfl
    | some f => simp [exportFrames, hframe f hf]

theorem step_chunk (w : WsSessionWorker sdk B) (op : WswOp B) : (w.step op).1.chunk = w.chunk := by
  cases op with
  | nextOut | onInbound | onOutbound | setMessageOpen => rfl
  | dataIdle =>
    dsimp only [step, dataIdle]
    split <;> rfl
  | commit i blob len =>
    dsimp only [step, commit, exportCommitted]
    split <;> split <;> rfl
  | ctrl msg payload =>
    dsimp only [step, handleCtrl]
    split
    · rfl
    · split
      all_goals first
        | rfl
        | dsimp only [attach, drain, detach, exportBegin, exportChunk, exportEnd, resume]
          repeat' split
          all_goals rfl

theorem run_chunk (w : WsSessionWorker sdk B) (ops : List (WswOp B)) : ((machine sdk B).run w ops).1.chunk = w.chunk :=
  (machine sdk B).run_invariant (P := fun _ _ => True) (I := fun v => v.chunk = w.chunk)
    (fun v op hv _ => (step_chunk v op).trans hv) rfl ((machine sdk B).along_of_forall (fun _ _ => trivial) w ops)

theorem export_run (hw : HeldInv w) (hchunk : 0 < w.chunk) (hs : Stage walk d sid resumed (w.session i) [] i)
    {more : List (WswOp B)} (hpace : (machine sdk B).Along (fun w op => AtPace w i op) w more) :
    let r := (machine sdk B).run w more
    Stage walk d sid resumed (r.1.session i) (outsOf i r.2) i ∨ Over sdk d sid (r.1.session i) (outsOf i r.2) i := by
  have hrun := (machine sdk B).run_log_invariant (l := []) (P := fun w op => AtPace w i op)
    (I := fun w l => (HeldInv w ∧ 0 < w.chunk) ∧
      (Stage walk d sid resumed (w.session i) (outsOf i l) i ∨ Over sdk d sid (w.session i) (outsOf i l) i))
    (fun w l op hI hp => ?_) ⟨⟨hw, hchunk⟩, .inl hs⟩ hpace
  · exact hrun.2
  · obtain ⟨⟨hw, hchunk⟩, hs⟩ := hI
    have hm := step_moves w op i
    refine ⟨⟨hw.step op, (step_chunk w op).symm ▸ hchunk⟩, ?_⟩
    rw [outsOf, List.filter_append]
    exact hs.elim (hm.stage (hw.slots i) hchunk hp) fun ho => .inr (hm.over hp ho)

theorem step_front {outLen : Nat} {f : WswFrame} (hroom : outMin sdk w.chunk ≤ outLen) (hlt : i < w.sessions.length)
    (hfront : ∀ j < i, (w.session j).pending.head = none) (hf : ((w.session i).render w.chunk).2 = some f) :
    w.step (.nextOut outLen) = (w.setSession i ((w.session i).render w.chunk).1, [.sent i f]) := by
  dsimp only [step, nextOut]
  rw [nextOutLoop_front hroom 0 hlt hfront hf, Nat.zero_add]
  rfl

/-- Each call takes a frame that is not of the export off the queue, or sends one that is. -/
theorem export_finishes {outLen n : Nat} (hroom : outMin sdk w.chunk ≤ outLen) (hw : HeldInv w) (hchunk : 0 < w.chunk)
    (hfront : ∀ j < i, (w.session j).pending.head = none) (hs : Stage walk d sid resumed (w.session i) l i)
    (hn : d.length + 3 + (w.session i).pending.entries.length ≤ n + (exportFrames i l).length) :
    ∃ k, let r := (machine sdk B).run w (List.replicate k (.nextOut outLen))
      (∀ o ∈ r.2, ∃ f, o = .sent i f) ∧ Over sdk d sid (r.1.session i) (l ++ r.2) i := by
  induction n generalizing w l with
  | zero =>
    obtain ⟨pre, p, post, hq, -, -, hunder⟩ := hs.queue
    obtain ⟨rest, hwhole⟩ := hunder.whole
    have hle := hwhole.length_le
    rw [hq, length_append, length_cons] at hn
    rw [length_append, List.length_map] at hle
    omega
  | succ n ih =>
    have hlt := lt_of_held hs.held.1
    obtain ⟨hnext, ⟨f, hf⟩, hless⟩ := hs.render (hw.slots i) hchunk
    have hstep := step_front hroom hlt hfront hf
    have hself := session_setSession_self hlt ((w.session i).render w.chunk).1
    rw [hf, ← hself] at hnext
    rw [hf, ← hself] at hless
    rcases hnext with hs' | ho
    · have hw' := hw.step (.nextOut outLen)
      rw [hstep] at hw'
      obtain ⟨k, hsent, ho⟩ := ih (w := w.setSession i _) hroom hw' hchunk (fun j hj => by
        rw [session_setSession_ne (Nat.ne_of_lt hj)]
        exact hfront j hj) hs' (by
          change _ ≤ n + (exportFrames i (l ++ [WswOut.sent i f])).length
          change _ < _ + (exportFrames i (l ++ [WswOut.sent i f])).length at hless
          omega)
      refine ⟨k + 1, ?_⟩
      rw [List.replicate_succ, Machine.run_cons, show (machine sdk B).step w (.nextOut outLen) = _ from hstep]
      dsimp only
      rw [← append_assoc]
      exact ⟨forall_mem_append.mpr ⟨fun o ho => ⟨f, mem_singleton.mp ho⟩, hsent⟩, ho⟩
    · refine ⟨1, ?_⟩
      change (∀ o ∈ (w.step (.nextOut outLen)).2 ++ [], _) ∧ Over _ _ _ ((w.step (.nextOut outLen)).1.session i)
        (l ++ ((w.step (.nextOut outLen)).2 ++ [])) _
      rw [hstep, append_nil]
      exact ⟨fun o ho => ⟨f, mem_singleton.mp ho⟩, ho⟩

theorem stage_commit (walk : sdk.Walk) {blob : FixedBytes B} {len : Nat} (hphase : (w.session i).phase = .exporting)
    (hclear : ∀ p ∈ (w.session i).pending.entries, p.isExport = false) :
    let c := (w.step (.commit i blob len)).1
    Stage walk (blob.1.take (min len B % 2 ^ 32)) (w.session i).sessionId
      ((c.session i).pending.entries.count .resumed) (c.session i) [] i := by
  have hlt := lt_of_held (i := i) (by rw [hphase]; exact nofun)
  have hc : (w.step (.commit i blob len)).1.session i = { w.session i with blob := blob }.commit len := by
    change (w.commit i blob len).session i = _
    rw [commit_exporting hphase, session_setSession_self hlt]
  dsimp only
  rw [hc]
  have hle : min len B % 2 ^ 32 ≤ B := (Nat.mod_le _ _).trans (Nat.min_le_right _ _)
  have hlength : (blob.1.take (min len B % 2 ^ 32)).length = min len B % 2 ^ 32 := by
    rw [length_take, blob.2, Nat.min_eq_left hle]
  obtain ⟨htotal, hpos⟩ := walk.start (min len B % 2 ^ 32)
  refine ⟨⟨nofun, nofun, nofun⟩, rfl, nofun, ⟨?_, hlength.symm⟩, htotal.trans hlength.symm, ?_⟩
  · change blob.1.take (min (min len B % 2 ^ 32) B) = _
    rw [Nat.min_eq_left hle]
  · change ∃ pre p post, ((w.session i).pending.owe .drained).entries = _ ∧ _ ∧
      0 + _ ≤ ((w.session i).pending.owe .drained).entries.count .resumed ∧ _
    rcases ReplyQueue.owe_entries (w.session i).pending .drained with howed | ⟨-, howed⟩
    · rw [howed]
      refine ⟨_, .drained, [], rfl, by rwa [append_nil], ?_, rfl, hpos⟩
      rw [count_append]
      omega
    · rw [howed]
      refine ⟨_, .drained, [], rfl, ?_, ?_, rfl, hpos⟩
      · rw [append_nil]
        exact fun p hp => hclear p (List.mem_of_mem_tail hp)
      · rw [count_append]
        omega

/-- The frames sent of an export are, in order, `DRAINED`, `EXPORT_BEGIN`, chunks that tile the bytes and
`EXPORT_END`: all of them, or the first ones while more is owed or when the session was let go. None is sent behind
the reply to a later `RESUME`. Where no slot before owes a frame, further calls with room send the rest. -/
theorem export_in_order (sdk : HandoffSdk) (walk : sdk.Walk) (B n : Nat) (workerId : Bytes) (chunk : Nat)
    (hchunk : 0 < chunk) (ops : List (WswOp B)) (i : Nat) (blob : FixedBytes B) (len : Nat) (more : List (WswOp B)) :
    let w := ((machine sdk B).run (new sdk B n workerId chunk) ops).1
    (w.session i).phase = .exporting → (∀ p ∈ (w.session i).pending.entries, p.isExport = false) →
    let c := (w.step (.commit i blob len)).1
    (machine sdk B).Along (fun w op => AtPace w i op) c more →
    let r := (machine sdk B).run c more
    let frames := exportFrames i r.2
    (∀ f ∈ frames, f.sessionId = (w.session i).sessionId) ∧
      (∃ rest, Whole sdk (blob.1.take (min len B % 2 ^ 32)) (frames.map (·.body) ++ rest) ∧
        (rest = [] ∨ .event (.detached i) ∈ r.2 ∨ ∃ p ∈ (r.1.session i).pending.entries, p.isExport = true)) ∧
      (∀ outLen f, .sent i f ∈ (r.1.step (.nextOut outLen)).2 → f.body.isExport = true →
        resumedSent i r.2 ≤ (c.session i).pending.entries.count .resumed) ∧
      ∀ outLen, outMin sdk chunk ≤ outLen → (∀ j < i, (r.1.session j).pending.head = none) →
        .event (.detached i) ∉ r.2 → ∃ k, Whole sdk (blob.1.take (min len B % 2 ^ 32))
          ((exportFrames i (r.2 ++ ((machine sdk B).run r.1 (List.replicate k (.nextOut outLen))).2)).map (·.body)) := by
  intro w hphase hclear c hpace r frames
  have hw : HeldInv w := (heldInv_new n workerId chunk).run ops
  have hsize : c.chunk = chunk := by rw [step_chunk, run_chunk]; rfl
  have hframes : frames = exportFrames i (outsOf i r.2) := (exportFrames_outsOf r.2).symm
  have hdone {outLen k : Nat} (hstay : .event (.detached i) ∉ r.2)
      (hsent : ∀ o ∈ ((machine sdk B).run r.1 (List.replicate k (.nextOut outLen))).2, ∃ f, o = .sent i f)
      (ho : Over sdk (blob.1.take (min len B % 2 ^ 32)) (w.session i).sessionId
        (((machine sdk B).run r.1 (List.replicate k (.nextOut outLen))).1.session i)
        (outsOf i r.2 ++ ((machine sdk B).run r.1 (List.replicate k (.nextOut outLen))).2) i) :
      Whole sdk (blob.1.take (min len B % 2 ^ 32))
        ((exportFrames i (r.2 ++ ((machine sdk B).run r.1 (List.replicate k (.nextOut outLen))).2)).map (·.body)) := by
    rw [exportFrames_append, ← exportFrames_outsOf, ← exportFrames_append]
    refine ho.out.resolve_right fun hgone => ?_
    rcases mem_append.mp hgone.1 with hgone | hgone
    · exact hstay (List.mem_of_mem_filter hgone)
    · obtain ⟨f, hf⟩ := hsent _ hgone
      cases hf
  rcases export_run (hw.step _) (hsize ▸ hchunk) (stage_commit walk hphase hclear) hpace with hs | ho
  · obtain ⟨pre, p, post, hq, -, hle, hunder⟩ := hs.queue
    rw [resumedSent_outsOf] at hle
    obtain ⟨rest, hrest⟩ := hunder.whole
    refine ⟨hframes ▸ hs.ids, ⟨rest, hframes ▸ hrest, .inr (.inr ⟨p, ?_, hunder.isExport⟩)⟩,
      fun _ _ _ _ => (Nat.le_add_right _ _).trans hle, fun outLen hroom hfront hstay => ?_⟩
    · rw [hq]
      exact mem_append_right _ mem_cons_self
    · have hchunk' : r.1.chunk = chunk := (run_chunk c more).trans hsize
      obtain ⟨k, hsent, ho⟩ := export_finishes (n := _ + _) (hchunk' ▸ hroom) ((hw.step _).run more) (hchunk' ▸ hchunk)
        hfront hs (Nat.le_add_right _ _)
      exact ⟨k, hdone hstay hsent ho⟩
  · refine ⟨hframes ▸ ho.ids, ?_, fun outLen f hsent hbody => ?_, fun outLen _ _ hstay => ⟨0, hdone hstay nofun ?_⟩⟩
    · rcases ho.out with hwhole | ⟨hgone, rest, hrest⟩
      · exact ⟨[], by rw [append_nil, hframes]; exact hwhole, .inl rfl⟩
      · exact ⟨rest, hframes ▸ hrest, .inr (.inl (List.mem_of_mem_filter hgone))⟩
    · have := (WswSession.render_clear r.1.chunk ho.clear).1 f (sent_render hsent).1
      rw [hbody] at this
      cases this
    · exact (append_nil (outsOf i r.2)).symm ▸ ho

/-- A `RESUME` and a second drain while a chunk is owed: the chunk that is sent next is one of the second blob. -/
theorem exports_mixed :
    let second := [WswOp.ctrl 7 (List.replicate 20 0), .ctrl 2 (List.replicate 20 0), .dataIdle, .commit 0 ⟨[3, 4], rfl⟩ 2]
    let bodies := (exportFrames 0 ((machine sampleSdk 2).run askedWorker
      (.commit 0 ⟨[1, 2], rfl⟩ 2 :: (List.replicate 4 (WswOp.nextOut 64) ++ second ++ [WswOp.nextOut 64]))).2).map (·.body)
    bodies = [.drained, .exportBegin 2 (0, 0), .exportChunk 0 [1], .exportChunk 0 [3]] ∧
      ∀ d rest, ¬ Whole sampleSdk d (bodies ++ rest) := by
  intro second bodies
  have hbodies : bodies = [.drained, .exportBegin 2 (0, 0), .exportChunk 0 [1], .exportChunk 0 [3]] := by
    decide +kernel
  refine ⟨hbodies, fun d rest h => ?_⟩
  rw [hbodies] at h
  obtain ⟨cursors, chunks, -, -, h⟩ := h
  -- A second chunk starts where the first one ends.
  match chunks with
  | [] => simp [chunkBodies] at h
  | [_] => simp [chunkBodies] at h
  | a :: b :: rest =>
    simp only [chunkBodies, cons_append, List.cons.injEq, WswBody.exportChunk.injEq] at h
    obtain ⟨-, -, ⟨-, ha⟩, ⟨hzero, -⟩, -⟩ := h
    rw [← ha] at hzero
    cases hzero

def sampleWalk : sampleSdk.Walk where
  total e := e.1
  pos e := e.2
  start _ := ⟨rfl, rfl⟩
  next e chunk hchunk hpos := by
    refine ⟨min chunk (e.1 - e.2), ?_, ?_, if_pos hpos⟩ <;> omega
  advance _ _ := ⟨rfl, rfl⟩
  done e hle := by
    change decide (e.1 = e.2) = decide (e.1 ≤ e.2)
    rw [decide_eq_decide]
    omega

theorem export_in_order_sample :
    let c := (askedWorker.step (.commit 0 ⟨[1, 2], rfl⟩ 2)).1
    let r := (machine sampleSdk 2).run c [.nextOut 64, .nextOut 64, .nextOut 64]
    ∃ rest, Whole sampleSdk [1, 2] ((exportFrames 0 r.2).map (·.body) ++ rest) := by
  obtain ⟨-, ⟨rest, hrest, -⟩, -, -⟩ := export_in_order sampleSdk sampleWalk 2 1 [] 1 (by decide)
    [.ctrl 1 (List.replicate 37 0), .ctrl 2 (List.replicate 20 0), .dataIdle] 0 ⟨[1, 2], rfl⟩ 2
    [.nextOut 64, .nextOut 64, .nextOut 64] (by decide +kernel) (by decide +kernel)
    ⟨⟨nofun, nofun⟩, ⟨nofun, nofun⟩, ⟨nofun, nofun⟩, trivial⟩
  exact ⟨rest, hrest⟩

end WsSessionWorker

end Wave.Common
