import Wave.Stun.Module
import Mathlib.Tactic.SplitIfs

/-! # What the responder answers

A datagram deserves a reply of its own, whatever came before it. -/

namespace Wave.Stun

open Lib Lib.Bytes Common.Turn Common.Stun

variable {arrived : List Frame}

section Messages

variable {header : StunHeader} {ip : UInt32} {port : UInt16} {code : UInt16} {reason : Bytes}

theorem requestMessage_eq (id : FixedBytes 12) :
    requestMessage id = some (closed STUN_CLASS_REQUEST STUN_METHOD_BINDING id.1 []) := by
  obtain ⟨w₀, w₁, w₂, hhead, hadd, hclose, hw⟩ := closed_built STUN_CLASS_REQUEST STUN_METHOD_BINDING id.2 []
    (List.replicate MSG_BUF 0) (by rw [length_replicate]; decide) (by decide)
  cases hadd
  rw [requestMessage, hhead, bind_eq_bind, bind_some, hclose, bind_some]
  exact congrArg some hw.bytes

theorem reply_eq (cls : UInt8) {a : UInt16 × Bytes} (htxn : header.txn.length = 12)
    (hfits : pad4 a.2.length ≤ 1400) :
    (do
      let w ← writeStunHeader cls header.method header.txn (List.replicate MSG_BUF 0)
      let w ← appendAttribute a.1 a.2 w
      let w ← appendFingerprint w
      return w.out.take w.pos) = some (closed cls header.method header.txn [a]) := by
  have hlisted : (listed [a]).length = 4 + pad4 a.2.length := by
    rw [listed, flatMap_singleton, length_attributeBytes]
  have h20 : STUN_HEADER_LEN = 20 := rfl
  have h1500 : MSG_BUF = 1500 := rfl
  have hmax : U16_MAX = 65535 := rfl
  obtain ⟨w₀, w₁, w₂, hhead, hadd, hclose, hw⟩ := closed_built cls header.method htxn [a] (List.replicate MSG_BUF 0)
    (by rw [length_replicate]; omega) (by omega)
  have hone : appendAttribute a.1 a.2 w₀ = some w₁ := (bind_pure _).symm.trans hadd
  rw [hhead, bind_eq_bind, bind_some, hone, bind_some, hclose, bind_some]
  exact congrArg some hw.bytes

theorem successMessage_eq (htxn : header.txn.length = 12) :
    successMessage header ip port =
      some (closed STUN_CLASS_SUCCESS header.method header.txn [(ATTR_XOR_MAPPED_ADDRESS, xorAddressV4 ip port)]) :=
  reply_eq STUN_CLASS_SUCCESS (a := (ATTR_XOR_MAPPED_ADDRESS, xorAddressV4 ip port)) htxn (show pad4 8 ≤ 1400 by decide)

/-- The value of an ERROR-CODE attribute. -/
def errorValue (code : UInt16) (reason : Bytes) : Bytes :=
  [0, 0, (code / 100).toUInt8, (code % 100).toUInt8] ++ reason.take 64

theorem length_errorValue (code : UInt16) (reason : Bytes) : (errorValue code reason).length ≤ 68 := by
  rw [errorValue, length_append, length_take]
  exact Nat.add_le_add_left (Nat.min_le_left _ _) 4

theorem errorMessage_eq (htxn : header.txn.length = 12) (hcode : 300 ≤ code ∧ code < 700) :
    errorMessage header code reason =
      some (closed STUN_CLASS_ERROR header.method header.txn [(ATTR_ERROR_CODE, errorValue code reason)]) := by
  have hlen := length_errorValue code reason
  have hpad : pad4 (errorValue code reason).length ≤ 1400 := by
    unfold pad4
    omega
  have hsame := fun w => show appendErrorCode code reason w = appendAttribute ATTR_ERROR_CODE (errorValue code reason) w
    from if_neg (not_not.mpr hcode)
  simp only [errorMessage, hsame]
  exact reply_eq STUN_CLASS_ERROR (a := (ATTR_ERROR_CODE, errorValue code reason)) htxn hpad

end Messages

/-- The reply to a datagram, as if nothing else were owed. -/
def answer : Frame → Option Reply
  | .rxFrom ip port raw =>
    let data := raw.take MSG_BUF
    match parseStunHeader data with
    | none => none
    | some header =>
      if header.cls ≠ STUN_CLASS_REQUEST then none
      else if header.method ≠ STUN_METHOD_BINDING then
        (errorMessage header 400 (ascii "unsupported method")).map (⟨·, ip, port⟩)
      else if misprinted data header then none
      else if (firstUnknownRequired data header KNOWN_REQUIRED).isSome then
        (errorMessage header 420 (ascii "unknown attribute")).map (⟨·, ip, port⟩)
      else (successMessage header ip port).map (⟨·, ip, port⟩)
  | _ => none

/-- A reply goes to where the request came from, with its transaction, refusing it or with that address. -/
structure Replies (header : StunHeader) (r : Reply) (back : StunHeader) : Prop where
  short : r.bytes.length ≤ MSG_BUF
  parsed : parseStunHeader r.bytes = some back
  method : back.method = header.method
  txn : back.txn = header.txn
  whole : verifyFingerprint r.bytes back = true
  cls : back.cls = STUN_CLASS_ERROR ∨ back.cls = STUN_CLASS_SUCCESS ∧
    mappedAddress r.bytes back = some ⟨STUN_FAMILY_IPV4, be32 r.ip ++ List.replicate 12 0, r.port⟩

theorem or_lt {a b : UInt16} {k : Nat} (ha : a.toNat < 2 ^ k) (hb : b.toNat < 2 ^ k) : (a ||| b).toNat < 2 ^ k := by
  rw [UInt16.toNat_or]
  exact Nat.or_lt_two_pow ha hb

theorem and_lt (a : UInt16) {m : UInt16} {k : Nat} (hm : m.toNat < 2 ^ k) : (a &&& m).toNat < 2 ^ k := by
  rw [UInt16.toNat_and]
  exact Nat.lt_of_le_of_lt Nat.and_le_right hm

theorem parsed_bounds {data : Bytes} {header : StunHeader} (h : parseStunHeader data = some header) :
    header.cls < 4 ∧ header.method < 4096 ∧ header.txn.length = 12 := by
  unfold parseStunHeader at h
  dsimp only at h
  split_ifs at h with hstun hlen
  cases h
  rw [not_or, Nat.not_lt] at hlen
  have h20 : STUN_HEADER_LEN = 20 := rfl
  refine ⟨?_, ?_, length_slice_of_le (by omega)⟩
  · have hcls : ∀ typ : UInt16, (((typ >>> 7) &&& (0x02 : UInt16)) ||| ((typ >>> 4) &&& (0x01 : UInt16))).toNat < 2 ^ 2 :=
      fun typ => or_lt (and_lt _ (by decide)) (and_lt _ (by decide))
    rw [UInt8.lt_iff_toNat_lt, UInt16.toNat_toUInt8]
    exact Nat.lt_of_le_of_lt (Nat.mod_le _ _) (hcls _)
  · have hmethod : ∀ typ : UInt16, ((typ &&& (0x000F : UInt16)) ||| ((typ >>> 1) &&& (0x0070 : UInt16)) |||
        ((typ >>> 2) &&& (0x0F80 : UInt16))).toNat < 2 ^ 12 :=
      fun typ => or_lt (or_lt (and_lt _ (by decide)) (and_lt _ (by decide))) (and_lt _ (by decide))
    exact hmethod _

section Replied

variable {data : Bytes} {header : StunHeader} (h : parseStunHeader data = some header)
  (ip : UInt32) (port : UInt16)

include h

theorem closed_replies {cls : UInt8} (hc : cls < 4) (a : UInt16 × Bytes) (hsmall : a.2.length ≤ 68)
    (hfp : a.1 ≠ ATTR_FINGERPRINT)
    (hcls : cls = STUN_CLASS_ERROR ∨ cls = STUN_CLASS_SUCCESS ∧ a = (ATTR_XOR_MAPPED_ADDRESS, xorAddressV4 ip port)) :
    ∃ back, back.cls = cls ∧ Replies header ⟨closed cls header.method header.txn [a], ip, port⟩ back := by
  obtain ⟨-, hm, htxn⟩ := parsed_bounds h
  have hmax : (listed [a]).length + 8 ≤ U16_MAX := by
    rw [listed, flatMap_singleton, length_attributeBytes, pad4, U16_MAX]
    omega
  have hnone : ∀ b ∈ [a], b.1 ≠ ATTR_FINGERPRINT := by
    rw [forall_mem_singleton]
    exact hfp
  obtain ⟨hparse, -, hverify⟩ := closed_read hc hm htxn hmax hnone
  obtain ⟨pre, post, hsplit, hfind⟩ := closed_find hc hm htxn hmax hnone [] rfl (forall_mem_nil _)
  have hshort : (closed cls header.method header.txn [a]).length ≤ MSG_BUF := by
    rw [length_closed htxn, listed, flatMap_singleton, length_attributeBytes, pad4, STUN_HEADER_LEN, MSG_BUF]
    omega
  refine ⟨_, rfl, hshort, hparse, rfl, rfl, hverify, hcls.imp_right ?_⟩
  rintro ⟨hsuccess, rfl⟩
  refine ⟨hsuccess, ?_⟩
  rw [mappedAddress, hfind, bind_some, hsplit]
  dsimp only
  rw [parse_xorAddressV4 ip port header.txn pre post, Option.some_or]

theorem errorMessage_replies {code : UInt16} (hcode : 300 ≤ code ∧ code < 700) (reason : Bytes) {r : Reply}
    (hr : (errorMessage header code reason).map (⟨·, ip, port⟩) = some r) :
    r.ip = ip ∧ r.port = port ∧ ∃ back, back.cls = STUN_CLASS_ERROR ∧ Replies header r back := by
  rw [errorMessage_eq (parsed_bounds h).2.2 hcode, map_some] at hr
  cases hr
  exact ⟨rfl, rfl, closed_replies h ip port (show STUN_CLASS_ERROR < 4 by decide) _ (length_errorValue code reason)
    (show ATTR_ERROR_CODE ≠ ATTR_FINGERPRINT by decide) (.inl rfl)⟩

theorem successMessage_replies {r : Reply} (hr : (successMessage header ip port).map (⟨·, ip, port⟩) = some r) :
    r.ip = ip ∧ r.port = port ∧ ∃ back, back.cls = STUN_CLASS_SUCCESS ∧ Replies header r back := by
  rw [successMessage_eq (parsed_bounds h).2.2, map_some] at hr
  cases hr
  exact ⟨rfl, rfl, closed_replies h ip port (show STUN_CLASS_SUCCESS < 4 by decide) _ (show 8 ≤ 68 by decide)
    (show ATTR_XOR_MAPPED_ADDRESS ≠ ATTR_FINGERPRINT by decide) (.inr ⟨rfl, rfl⟩)⟩

end Replied

theorem answer_replies {f : Frame} {r : Reply} (h : answer f = some r) :
    ∃ raw header back, f = .rxFrom r.ip r.port raw ∧ parseStunHeader (raw.take MSG_BUF) = some header ∧
      header.cls = STUN_CLASS_REQUEST ∧ Replies header r back := by
  cases f with
  | bound ep port => cases h
  | other => cases h
  | rxFrom ip port raw =>
    unfold answer at h
    dsimp only at h
    cases hparse : parseStunHeader (raw.take MSG_BUF) with
    | none => rw [hparse] at h; cases h
    | some header =>
      rw [hparse] at h
      dsimp only at h
      have hsome : header.cls = STUN_CLASS_REQUEST ∧ r.ip = ip ∧ r.port = port ∧ ∃ back, Replies header r back := by
        split_ifs at h with hcls hmethod hprint hunknown
        · obtain ⟨hip, hport, back, -, hback⟩ := errorMessage_replies hparse ip port (by decide) _ h
          exact ⟨not_not.mp hcls, hip, hport, back, hback⟩
        · obtain ⟨hip, hport, back, -, hback⟩ := errorMessage_replies hparse ip port (by decide) _ h
          exact ⟨not_not.mp hcls, hip, hport, back, hback⟩
        · obtain ⟨hip, hport, back, -, hback⟩ := successMessage_replies hparse ip port h
          exact ⟨not_not.mp hcls, hip, hport, back, hback⟩
      obtain ⟨hcls, rfl, rfl, back, hback⟩ := hsome
      exact ⟨raw, header, back, rfl, hparse, hcls, hback⟩

/-- A request is answered unless it is a Binding request with a false fingerprint: with a success if it has no unknown
required attribute. -/
theorem answer_request {ip : UInt32} {port : UInt16} {raw : Bytes} {header : StunHeader}
    (hparse : parseStunHeader (raw.take MSG_BUF) = some header) (hcls : header.cls = STUN_CLASS_REQUEST)
    (hprint : header.method = STUN_METHOD_BINDING → misprinted (raw.take MSG_BUF) header = false) :
    ∃ r back, answer (.rxFrom ip port raw) = some r ∧ r.ip = ip ∧ r.port = port ∧ Replies header r back ∧
      (back.cls = STUN_CLASS_SUCCESS ↔
        header.method = STUN_METHOD_BINDING ∧ firstUnknownRequired (raw.take MSG_BUF) header KNOWN_REQUIRED = none) := by
  have htxn := (parsed_bounds hparse).2.2
  have herror : ∀ back : StunHeader, back.cls = STUN_CLASS_ERROR → ¬back.cls = STUN_CLASS_SUCCESS := by
    intro back hback
    rw [hback]
    decide
  unfold answer
  dsimp only
  rw [hparse]
  dsimp only
  rw [if_neg (not_not.mpr hcls)]
  by_cases hmethod : header.method = STUN_METHOD_BINDING
  swap
  · rw [if_pos hmethod, errorMessage_eq htxn (by decide), map_some]
    obtain ⟨hip, hport, back, hback, hreplies⟩ := errorMessage_replies hparse ip port (show 300 ≤ 400 ∧ 400 < 700 by decide)
      (ascii "unsupported method") (by rw [errorMessage_eq htxn (by decide)]; rfl)
    exact ⟨_, back, rfl, hip, hport, hreplies, fun h => absurd h (herror back hback), fun h => absurd h.1 hmethod⟩
  rw [if_neg (not_not.mpr hmethod), hprint hmethod, if_neg false_ne_true]
  cases hunknown : firstUnknownRequired (raw.take MSG_BUF) header KNOWN_REQUIRED with
  | some typ =>
    rw [if_pos (by rfl), errorMessage_eq htxn (by decide), map_some]
    obtain ⟨hip, hport, back, hback, hreplies⟩ := errorMessage_replies hparse ip port (show 300 ≤ 420 ∧ 420 < 700 by decide)
      (ascii "unknown attribute") (by rw [errorMessage_eq htxn (by decide)]; rfl)
    exact ⟨_, back, rfl, hip, hport, hreplies, fun h => absurd h (herror back hback), fun h => by cases h.2⟩
  | none =>
    rw [if_neg (by decide), successMessage_eq htxn, map_some]
    obtain ⟨hip, hport, back, hback, hreplies⟩ := successMessage_replies hparse ip port (by rw [successMessage_eq htxn]; rfl)
    exact ⟨_, back, rfl, hip, hport, hreplies, fun _ => ⟨hmethod, rfl⟩, fun _ => hback⟩

section Run

variable {cfg : StunConfig} {w w' : StunWorld} {t : Turn}

/-- The responder's part of the state. -/
structure Answering where
  reply : Option Reply
  replies : List Reply
  early : List Frame
  heard : List Frame
  netIn : List Frame
  epId : UInt8
  clock : Nat
  draining : Bool
  client : Bool

def answering (w : StunWorld) : Answering :=
  ⟨w.reply, w.replies, w.early, w.heard, w.netIn, w.epId, w.clock, w.draining, w.server.isSome⟩

theorem finishTxn_answering (w : StunWorld) (r : StunResult) : answering (w.finishTxn cfg r) = answering w := by
  unfold StunWorld.finishTxn
  dsimp only
  split_ifs
  · rfl
  · split <;> rfl

theorem flushResult_answering (w : StunWorld) (t : Turn) : answering (w.flushResult t) = answering w := by
  unfold StunWorld.flushResult
  split
  · rfl
  · split_ifs <;> rfl

theorem clientOnResponse_answering (w : StunWorld) (header : StunHeader) (data : Bytes) (ip : UInt32) (port : UInt16) :
    answering (w.clientOnResponse cfg header data ip port) = answering w := by
  unfold StunWorld.clientOnResponse
  split
  · rfl
  next server hserver =>
    have hlearn : answering { w with server := some (server.learn ip) } = answering w := by rw [answering, answering, hserver]; rfl
    split_ifs
    iterate 4 rfl
    dsimp only
    split
    · exact hlearn
    · exact (finishTxn_answering _ _).trans hlearn

theorem pumpClient_answering (w : StunWorld) (t : Turn) : answering (w.pumpClient cfg t) = answering w := by
  have hstart : answering (w.startTxn cfg t.now) = answering w := by
    unfold StunWorld.startTxn
    split_ifs <;> rfl
  have hdrive : ∀ server, answering ((w.startTxn cfg t.now).driveTxn cfg server t) = answering w := by
    intro server
    unfold StunWorld.driveTxn
    split
    · exact hstart
    · exact (finishTxn_answering _ _).trans hstart
    · split
      · exact hstart
      · split_ifs <;> exact hstart
  unfold StunWorld.pumpClient
  split
  · rfl
  · split_ifs
    iterate 3 rfl
    exact hdrive _

theorem onFrame_owed (h : w.reply.isSome) (f : Frame) : answering (w.onFrame cfg f) = answering w := by
  cases f with
  | bound ep port => rfl
  | other => rfl
  | rxFrom ip port raw =>
    unfold StunWorld.onFrame StunWorld.onDatagram
    dsimp only
    split
    · rfl
    · split_ifs
      · exact clientOnResponse_answering _ _ _ _ _
      · rfl
      · rfl

theorem onFrame_answer (h : w.reply = none) (f : Frame) :
    answering (w.onFrame cfg f) = { answering w with reply := answer f } := by
  have hnone : answering w = { answering w with reply := none } := by rw [answering, h]
  cases f with
  | bound ep port => exact hnone
  | other => exact hnone
  | rxFrom ip port raw => ?_
  have howe : ∀ message : Option Bytes,
      answering (w.owe message ip port) = { answering w with reply := message.map (⟨·, ip, port⟩) } := by
    intro message
    cases message with
    | none => exact hnone
    | some bytes => rfl
  unfold StunWorld.onFrame StunWorld.onDatagram answer
  dsimp only
  cases hparse : parseStunHeader (raw.take MSG_BUF) with
  | none => exact hnone
  | some header =>
    dsimp only
    by_cases hresponse : header.cls = STUN_CLASS_SUCCESS ∨ header.cls = STUN_CLASS_ERROR
    · have hcls : header.cls ≠ STUN_CLASS_REQUEST := by
        rcases hresponse with h' | h' <;> rw [h'] <;> decide
      rw [if_pos hresponse, if_pos hcls, clientOnResponse_answering]
      exact hnone
    rw [if_neg hresponse]
    by_cases hcls : header.cls ≠ STUN_CLASS_REQUEST
    · rw [if_pos hcls, if_pos hcls]
      exact hnone
    rw [if_neg hcls, if_neg hcls, if_neg (by rw [h]; decide)]
    by_cases hmethod : header.method ≠ STUN_METHOD_BINDING
    · rw [if_pos hmethod, if_pos hmethod]
      exact howe _
    rw [if_neg hmethod, if_neg hmethod]
    by_cases hprint : misprinted (raw.take MSG_BUF) header = true
    · rw [if_pos hprint, if_pos hprint]
      exact hnone
    rw [if_neg hprint, if_neg hprint]
    cases firstUnknownRequired (raw.take MSG_BUF) header KNOWN_REQUIRED with
    | none => exact howe _
    | some typ => exact howe _

theorem onFrame_kept (f : Frame) : (w.onFrame cfg f).clock = w.clock ∧ (w.onFrame cfg f).draining = w.draining ∧
    (w.onFrame cfg f).epId = w.epId := by
  by_cases h : w.reply = none
  · have hsame := @onFrame_answer cfg w h f
    exact ⟨congrArg Answering.clock hsame, congrArg Answering.draining hsame, congrArg Answering.epId hsame⟩
  · have hsame := @onFrame_owed cfg w (isSome_iff_ne_none.mpr h) f
    exact ⟨congrArg Answering.clock hsame, congrArg Answering.draining hsame, congrArg Answering.epId hsame⟩

/-- What the replies are to what was read and to what arrived. -/
structure Answered (cfg : StunConfig) (w : StunWorld) (arrived : List Frame) : Prop where
  inOrder : w.early ++ (w.heard ++ w.netIn) = arrived
  early : w.epId = 0xFF → w.heard = []
  some : (w.replies ++ w.reply.toList).Sublist (w.heard.filterMap answer)
  all : cfg.server = none → w.server = none ∧ w.replies ++ w.reply.toList = w.heard.filterMap answer

theorem Answered.same (h : Answered cfg w arrived) (hsame : answering w' = answering w) :
    Answered cfg w' arrived := by
  simp only [answering, Answering.mk.injEq] at hsame
  obtain ⟨hreply, hreplies, hearly, hheard, hnetIn, hep, -, -, hclient⟩ := hsame
  refine ⟨?_, ?_, ?_, fun hserver => ?_⟩
  · rw [hearly, hheard, hnetIn]
    exact h.inOrder
  · rw [hep, hheard]
    exact h.early
  · rw [hreplies, hreply, hheard]
    exact h.some
  · obtain ⟨hnone, hall⟩ := h.all hserver
    rw [hnone] at hclient
    rw [hreplies, hreply, hheard]
    exact ⟨Option.isSome_eq_false_iff.mp hclient |> isNone_iff_eq_none.mp, hall⟩

theorem Answered.flushReply (h : Answered cfg w arrived) (t : Turn) :
    Answered cfg (w.flushReply t) arrived := by
  unfold StunWorld.flushReply
  split
  · exact h
  next r hr =>
    split_ifs
    · exact h
    · have hsome := h.some
      have hall := h.all
      rw [hr] at hsome hall
      exact ⟨h.inOrder, h.early, by simpa using hsome, by simpa using hall⟩
    · exact h

theorem Answered.pump (h : Answered cfg w arrived) (hep : w.epId ≠ 0xFF) :
    Answered cfg (w.pump cfg) arrived := by
  unfold StunWorld.pump
  by_cases howed : w.reply.isSome ∧ (!w.clientArmed) = true
  · rw [if_pos howed]
    exact h
  rw [if_neg howed]
  cases hnet : w.netIn with
  | nil => exact h
  | cons f rest =>
    dsimp only
    have horder : w.early ++ (w.heard ++ [f] ++ rest) = arrived := by
      rw [append_assoc, singleton_append, ← hnet]
      exact h.inOrder
    have hread : (w.heard ++ [f]).filterMap answer = w.heard.filterMap answer ++ (answer f).toList := by
      rw [filterMap_append]
      congr 1
    by_cases hreply : w.reply = none
    · -- what it deserves is owed from now on
      have hlog := h.some
      have hall := h.all
      rw [hreply, Option.toList_none, append_nil] at hlog hall
      have hnext : Answered cfg { w with netIn := rest, heard := w.heard ++ [f], reply := answer f } arrived := by
        refine ⟨horder, (absurd · hep), ?_, fun hserver => ⟨(hall hserver).1, ?_⟩⟩
        · rw [hread]
          exact hlog.append_right _
        · rw [hread, ← (hall hserver).2]
      exact hnext.same (onFrame_answer (w := { w with netIn := rest, heard := w.heard ++ [f] }) hreply f)
    · have hsome : w.reply.isSome := isSome_iff_ne_none.mpr hreply
      have hclient : w.server ≠ none := by
        intro hnone
        rw [StunWorld.clientArmed, hnone] at howed
        exact howed ⟨hsome, rfl⟩
      have hnext : Answered cfg { w with netIn := rest, heard := w.heard ++ [f] } arrived := by
        refine ⟨horder, (absurd · hep), ?_, fun hserver => absurd (h.all hserver).1 hclient⟩
        rw [hread]
        exact h.some.trans (List.sublist_append_left _ _)
      exact hnext.same (onFrame_owed (w := { w with netIn := rest, heard := w.heard ++ [f] }) hsome f)

theorem Answered.ensureBound (h : Answered cfg w arrived) (t : Turn) :
    Answered cfg (w.ensureBound cfg t).1 arrived := by
  unfold StunWorld.ensureBound
  split_ifs with hbound hep
  · exact ⟨h.inOrder, h.early, h.some, h.all⟩
  · split
    · exact h
    next f rest hnet =>
      have hheard := h.early hep
      have horder := h.inOrder
      rw [hheard, hnet, nil_append] at horder
      have hnext : ∀ ep, Answered cfg { w with netIn := rest, early := w.early ++ [f], epId := ep } arrived := fun ep => by
        refine ⟨?_, fun _ => hheard, h.some, h.all⟩
        dsimp only
        rw [hheard, nil_append, append_assoc]
        exact horder
      dsimp only
      split
      · split_ifs
        · exact hnext _
        · exact hnext w.epId
      · exact hnext w.epId
  · exact h

theorem ensureBound_known (h : (w.ensureBound cfg t).2 = true) : (w.ensureBound cfg t).1 = w ∧ w.epId ≠ 0xFF := by
  unfold StunWorld.ensureBound at h ⊢
  split_ifs at h ⊢ with hbound hep
  · split at h
    · cases h
    · dsimp only at h
      split at h <;> cases h
  · exact ⟨rfl, hep⟩

theorem Answered.turn (h : Answered cfg w arrived) (ev : StunEvent) :
    Answered cfg ((machine cfg).step w ev).1 (arrived ++ ((machine cfg).step w ev).2) := by
  cases ev with
  | arrive f =>
    refine ⟨?_, h.early, h.some, h.all⟩
    rw [← h.inOrder]
    simp only [machine, Stun.turn, append_assoc]
  | drain =>
    rw [show ((machine cfg).step w .drain).2 = [] from rfl, append_nil]
    exact ⟨h.inOrder, h.early, h.some, h.all⟩
  | step t =>
    rw [show ((machine cfg).step w (.step t)).2 = [] from rfl, append_nil]
    have hclock : Answered cfg { w with clock := max w.clock t.now } arrived := ⟨h.inOrder, h.early, h.some, h.all⟩
    have hbound := hclock.ensureBound t
    change Answered cfg (w.moduleStep cfg t) arrived
    unfold StunWorld.moduleStep
    dsimp only
    split_ifs with hknown
    · exact hbound
    · obtain ⟨hsame, hep⟩ := ensureBound_known (by simpa using hknown)
      rw [hsame]
      exact (((hclock.pump hep).flushReply t).same (pumpClient_answering _ _)).same (flushResult_answering _ _)

end Run

theorem answered_run (cfg : StunConfig) (evs : List StunEvent) :
    Answered cfg ((machine cfg).run (start cfg) evs).1 ((machine cfg).run (start cfg) evs).2 := by
  have hrun : Answered cfg ((machine cfg).run (start cfg) evs).1 ([] ++ ((machine cfg).run (start cfg) evs).2) :=
    (machine cfg).run_log_invariant (P := fun _ _ => True) (I := Answered cfg) (fun w l ev h _ => h.turn ev)
      ⟨rfl, fun _ => rfl, List.Sublist.refl _, fun h => ⟨h, rfl⟩⟩ ((machine cfg).along_of_forall (fun _ _ => trivial) _ _)
  exact hrun

theorem replied_request {cfg : StunConfig} {w : StunWorld} (h : Answered cfg w arrived)
    {reply : Reply} (hreply : reply ∈ w.replies) :
    ∃ raw header back, Frame.rxFrom reply.ip reply.port raw ∈ w.heard ∧
      parseStunHeader (raw.take MSG_BUF) = some header ∧ header.cls = STUN_CLASS_REQUEST ∧ Replies header reply back := by
  obtain ⟨f, hf, hanswer⟩ := mem_filterMap.mp (h.some.subset (mem_append_left _ hreply))
  obtain ⟨raw, header, back, rfl, hparse, hcls, hback⟩ := answer_replies hanswer
  exact ⟨raw, header, back, hf, hparse, hcls, hback⟩

/-- The replies of a module and the one it owes are what the datagrams it heard deserve, in order, some left out; one
that asks nobody leaves none out, and answers every request but a Binding request with a false fingerprint. -/
theorem requests_answered (cfg : StunConfig) (evs : List StunEvent) :
    let r := (machine cfg).run (start cfg) evs
    r.1.early ++ (r.1.heard ++ r.1.netIn) = r.2 ∧
      (r.1.replies ++ r.1.reply.toList).Sublist (r.1.heard.filterMap answer) ∧
      (cfg.server = none → r.1.replies ++ r.1.reply.toList = r.1.heard.filterMap answer ∧
        ∀ ip port raw header, Frame.rxFrom ip port raw ∈ r.1.heard → parseStunHeader (raw.take MSG_BUF) = some header →
          header.cls = STUN_CLASS_REQUEST →
          (header.method = STUN_METHOD_BINDING → misprinted (raw.take MSG_BUF) header = false) →
          ∃ reply ∈ r.1.replies ++ r.1.reply.toList, ∃ back, reply.ip = ip ∧ reply.port = port ∧
            Replies header reply back ∧ (back.cls = STUN_CLASS_SUCCESS ↔ header.method = STUN_METHOD_BINDING ∧
              firstUnknownRequired (raw.take MSG_BUF) header KNOWN_REQUIRED = none)) ∧
      ∀ reply ∈ r.1.replies, ∃ raw header back, Frame.rxFrom reply.ip reply.port raw ∈ r.1.heard ∧
        parseStunHeader (raw.take MSG_BUF) = some header ∧ header.cls = STUN_CLASS_REQUEST ∧
        Replies header reply back := by
  have hrun := answered_run cfg evs
  refine ⟨hrun.inOrder, hrun.some, fun hserver => ⟨(hrun.all hserver).2, ?_⟩, fun _ hreply => replied_request hrun hreply⟩
  intro ip port raw header hheard hparse hcls hprint
  obtain ⟨reply, back, hanswer, hip, hport, hreplies, hkind⟩ := answer_request hparse hcls hprint
  rw [(hrun.all hserver).2]
  exact ⟨reply, mem_filterMap.mpr ⟨_, hheard, hanswer⟩, back, hip, hport, hreplies, hkind⟩

end Wave.Stun
