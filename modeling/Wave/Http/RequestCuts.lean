import Wave.Http.RequestHead

/-! # A request, however it is cut (`http/server/h1.rs`, `Phase::RecvRequest`)

The preface, the request line and the blank line are looked for over a buffer that fills piece by piece. -/

namespace Wave.Http

open Lib

variable {stream : Bytes}

variable {n : Nat} {bytes : Bytes}

structure Accepted where
  method : Method
  path : Bytes
  targetAt : Nat
  targetLen : Nat
  headLen : Nat
  keepalive : Bool
  body : Option (BodyDecoder × Nat × Bool)

inductive Verdict where
  | refused (response : Bytes)
  | dispatched (request : Accepted)

/-- What a step out of `RecvRequest` made of the request. -/
def H1Conn.verdict (c : H1Conn) : Option Verdict :=
  match c.phase with
  | .drainSend => some (.refused c.sendBuf)
  | .dispatchRoute =>
    some (.dispatched {
      method := c.reqMethod
      path := c.reqPath
      targetAt := c.reqTargetAt
      targetLen := c.reqTargetLen
      headLen := c.headerEndOff
      keepalive := c.keepalive
      body := if c.bodyPending then some (c.body.decoder, c.bodyDeclared, c.bodyContinueWanted) else none })
  | _ => none

def refusal (env : H1Env) (r : Refusal) : Verdict :=
  .refused (writeErrorResponse env.profile.sendBufSize r.code r.text)

def BodyPlan.body : BodyPlan → Option (BodyDecoder × Nat × Bool)
  | .read decoder declared continueFirst => some (decoder, declared.getD U64_MAX, continueFirst)
  | _ => Option.none

def headVerdict (env : H1Env) (line : RequestLine) (path head : Bytes) : Verdict :=
  match planBody line.method head with
  | .invalid => refusal env .badRequest
  | .lengthRequired => refusal env .lengthRequired
  | plan =>
    .dispatched {
      method := line.method
      path := path
      targetAt := line.targetAt
      targetLen := line.targetLen
      headLen := head.length
      keepalive := requestKeepsAlive head
      body := plan.body }

def RequestLine.path (line : RequestLine) (env : H1Env) (buf : Bytes) : Bytes :=
  ((buf.drop line.targetAt).take line.targetLen).take env.profile.maxPath

def lineVerdict (env : H1Env) (buf head : Bytes) : Verdict :=
  match parseRequestLine env.sdk buf with
  | none => refusal env .badRequest
  | some line =>
    if line.method = .none then refusal env .notImplemented else headVerdict env line (line.path env buf) head

/-- A request that begins like the preface is not read before it is as long. -/
def HeldBack (env : H1Env) (buf : Bytes) : Prop :=
  env.h2 = true ∧ buf.head? = PREFACE.head? ∧ buf.length < PREFACE.length

instance (env : H1Env) (buf : Bytes) : Decidable (HeldBack env buf) := by
  unfold HeldBack
  infer_instance

def firstRead (env : H1Env) (head : Bytes) : Nat :=
  if env.h2 = true ∧ head.head? = PREFACE.head? then max ((requestLineOf head).length + 2) PREFACE.length
  else (requestLineOf head).length + 2

def TargetEnds (env : H1Env) (head : Bytes) : Prop :=
  SP ∈ head.drop ((firstToken head).length + 1) ∧
    (firstToken head).length + 1 + (firstToken (head.drop ((firstToken head).length + 1))).length ≤ firstRead env head

instance (env : H1Env) (head : Bytes) : Decidable (TargetEnds env head) := by
  unfold TargetEnds
  infer_instance

/-- What is made of the line does not change with what comes behind it. -/
def LineSettled (env : H1Env) (head : Bytes) : Prop :=
  firstToken head = [] ∨ MAX_METHOD_SCAN < (firstToken head).length ∨
    (SP ∈ head ∧ (head.drop ((firstToken head).length + 1)).head? ≠ some SLASH) ∨
    (SP ∈ head ∧ env.sdk.methodFromToken (firstToken head) ≠ .none ∧
      planBody (env.sdk.methodFromToken (firstToken head)) head = .invalid) ∨
    (14 ≤ firstRead env head ∧ (firstToken head).length + 2 ≤ firstRead env head ∧
      (env.sdk.methodFromToken (firstToken head) = .none ∨
        planBody (env.sdk.methodFromToken (firstToken head)) head = .lengthRequired ∨ TargetEnds env head))

instance (env : H1Env) (head : Bytes) : Decidable (LineSettled env head) := by
  unfold LineSettled
  infer_instance

/-! ### The line, read off a part of the request -/

theorem head_take {l : Bytes} (h : 0 < n) : (l.take n).head? = l.head? := by
  rw [List.head?_take, if_neg (Nat.ne_of_gt h)]

theorem firstToken_of_take (l : Bytes) (n : Nat) : firstToken (l.take n) = (firstToken l).take n :=
  List.take_takeWhile.symm

def Unread (stream : Bytes) (n : Nat) : Prop :=
  n < 14 ∨ firstToken stream = [] ∨ MAX_METHOD_SCAN < (firstToken stream).length ∨ n ≤ (firstToken stream).length + 1 ∨
    (stream.drop ((firstToken stream).length + 1)).head? ≠ some SLASH

def shownLine (sdk : SdkHttp) (stream : Bytes) (n : Nat) : RequestLine where
  method := sdk.methodFromToken (firstToken stream)
  targetAt := (firstToken stream).length + 1
  targetLen :=
    min (firstToken (stream.drop ((firstToken stream).length + 1))).length (n - ((firstToken stream).length + 1))

theorem firstToken_take_head {l : Bytes} :
    ((firstToken l).take n).head? = some SLASH ↔ 0 < n ∧ l.head? = some SLASH := by
  cases n with
  | zero => exact iff_of_false (by rw [take_zero]; exact nofun) (fun h => Nat.lt_irrefl 0 h.1)
  | succ n =>
    cases l with
    | nil => exact iff_of_false nofun (fun h => nomatch h.2)
    | cons b l =>
      by_cases hb : b = SP
      · subst hb
        exact iff_of_false nofun (fun h => absurd (Option.some.inj h.2) (by decide))
      · have hcons : firstToken (b :: l) = b :: firstToken l :=
          takeWhile_cons_of_pos (p := (· != SP)) (by simpa using hb)
        rw [hcons]
        exact (and_iff_right (Nat.succ_pos n)).symm

theorem parse_take (sdk : SdkHttp) (hn : n ≤ stream.length) :
    (Unread stream n ∧ parseRequestLine sdk (stream.take n) = none) ∨
      (¬ Unread stream n ∧ parseRequestLine sdk (stream.take n) = some (shownLine sdk stream n)) := by
  have hlen : (stream.take n).length = n := length_take_of_le hn
  have hscan : MAX_METHOD_SCAN = 24 := rfl
  have hempty : firstToken stream = [] ↔ (firstToken stream).length = 0 := length_eq_zero_iff.symm
  have hend : (firstToken ((stream.take n).take (min (MAX_METHOD_SCAN + 1) n))).length =
      min (min (MAX_METHOD_SCAN + 1) n) (firstToken stream).length := by
    rw [take_take, firstToken_of_take, length_take]
    omega
  unfold parseRequestLine
  rw [hlen]
  dsimp only
  rw [hend]
  by_cases hshort : n < 14
  · exact .inl ⟨.inl hshort, if_pos hshort⟩
  rw [if_neg hshort]
  by_cases htoken : (firstToken stream).length = 0 ∨ MAX_METHOD_SCAN < (firstToken stream).length ∨
      n ≤ (firstToken stream).length
  · refine .inl ⟨?_, if_pos (by omega)⟩
    rcases htoken with h | h | h
    · exact .inr (.inl (hempty.mpr h))
    · exact .inr (.inr (.inl h))
    · exact .inr (.inr (.inr (.inl (Nat.le_succ_of_le h))))
  have hat : min (min (MAX_METHOD_SCAN + 1) n) (firstToken stream).length = (firstToken stream).length := by omega
  rw [if_neg (by omega), hat, drop_take, firstToken_of_take, take_take, Nat.min_eq_left (by omega),
    take_firstToken]
  by_cases htarget : n ≤ (firstToken stream).length + 1 ∨
      (stream.drop ((firstToken stream).length + 1)).head? ≠ some SLASH
  · refine .inl ⟨.inr (.inr (.inr htarget)), if_neg ?_⟩
    rw [firstToken_take_head]
    rintro ⟨hmore, hslash⟩
    rcases htarget with h | h
    · omega
    · exact h hslash
  · rw [not_or, Nat.not_le, not_not] at htarget
    refine .inr ⟨?_, ?_⟩
    · rintro (h | h | h | h | h)
      · exact hshort h
      · exact htoken (.inl (hempty.mp h))
      · exact htoken (.inr (.inl h))
      · omega
      · exact h htarget.2
    · rw [if_pos (firstToken_take_head.mpr ⟨by omega, htarget.2⟩), length_take, Nat.min_comm]
      rfl

theorem lineVerdict_unread {env : H1Env} (hn : n ≤ stream.length) (h : Unread stream n) (head : Bytes) : lineVerdict env (stream.take n) head = refusal env .badRequest := by
  obtain ⟨-, hnone⟩ | ⟨hread, -⟩ := parse_take env.sdk hn
  · rw [lineVerdict, hnone]
  · exact absurd h hread

theorem lineVerdict_shown {env : H1Env} (hn : n ≤ stream.length) (h : ¬ Unread stream n) (head : Bytes) :
    lineVerdict env (stream.take n) head =
      if env.sdk.methodFromToken (firstToken stream) = .none then refusal env .notImplemented
      else
        headVerdict env (shownLine env.sdk stream n)
          (((firstToken (stream.drop ((firstToken stream).length + 1))).take
            (n - ((firstToken stream).length + 1))).take env.profile.maxPath) head := by
  obtain ⟨hunread, -⟩ | ⟨-, hsome⟩ := parse_take env.sdk hn
  · exact absurd hunread h
  · have hpath : ∀ (rest : Bytes) m, (rest.take m).take (min (firstToken rest).length m) = (firstToken rest).take m := by
      intro rest m
      rw [take_take, Nat.min_assoc, Nat.min_self, Nat.min_comm, ← take_take, take_firstToken]
    rw [lineVerdict, hsome]
    dsimp only [RequestLine.path, shownLine]
    rw [drop_take, hpath]

theorem refusal_bad_ne (env : H1Env) {r : Refusal} (h : r = .notImplemented ∨ r = .lengthRequired) :
    refusal env .badRequest ≠ refusal env r := by
  have hroom := env.profile.sendBufSize_ge
  have hwhole : ∀ r, (ascii "HTTP/1.1 " ++ Refusal.code r ++ ascii "\r\nConnection: close\r\n\r\n" ++
      Refusal.text r).length ≤ 100 := by
    intro r
    cases r <;> decide
  intro heq
  have heq := Verdict.refused.inj heq
  unfold writeErrorResponse at heq
  rw [take_of_length_le ((hwhole _).trans (by omega)), take_of_length_le ((hwhole _).trans (by omega))] at heq
  rcases h with rfl | rfl
  · exact absurd heq (by decide)
  · exact absurd heq (by decide)

theorem headVerdict_bad_iff (env : H1Env) (line : RequestLine) (path head : Bytes) :
    headVerdict env line path head = refusal env .badRequest ↔ planBody line.method head = .invalid := by
  unfold headVerdict
  split
  next h => exact iff_of_true rfl h
  next h => exact iff_of_false (fun heq => refusal_bad_ne env (.inr rfl) heq.symm) (by rw [h]; exact nofun)
  next hinvalid hlength => exact iff_of_false nofun hinvalid

theorem headVerdict_targetLen {env : H1Env} {line line' : RequestLine} {path path' head : Bytes}
    (hinvalid : planBody line.method head ≠ .invalid) (hlength : planBody line.method head ≠ .lengthRequired)
    (hmethod : line'.method = line.method)
    (h : headVerdict env line path head = headVerdict env line' path' head) : line.targetLen = line'.targetLen := by
  unfold headVerdict at h
  rw [hmethod] at h
  split at h
  next hplan => exact absurd hplan hinvalid
  next hplan => exact absurd hplan hlength
  next => exact congrArg Accepted.targetLen (Verdict.dispatched.inj h)

/-! ### Settled lines -/

section Settled

variable {env : H1Env} {head : Bytes}

theorem blankLine_of_whole (h : wholeHead head = some head) :
    ∃ pos, findPat blankLine head = some pos ∧ pos + 4 = head.length := by
  obtain ⟨pos, hpos, htake⟩ := map_eq_some_iff.mp h
  refine ⟨pos, hpos, ?_⟩
  have hle := findPat_le hpos
  have hlen := congrArg List.length htake
  rw [length_take] at hlen
  change pos + 4 ≤ head.length at hle
  omega

theorem lineEnd_of_whole (h : wholeHead head = some head) :
    findPat crlf head = some (requestLineOf head).length ∧ (requestLineOf head).length + 4 ≤ head.length := by
  obtain ⟨pos, hpos, hlen⟩ := blankLine_of_whole h
  have htwice : findPat (crlf ++ crlf) head = some pos := hpos
  obtain ⟨e, he, hle⟩ := findPat_le_of_longer crlf_ne_nil htwice
  have hline : (requestLineOf head).length = e := by
    rw [requestLineOf_eq he, length_take]
    omega
  rw [hline]
  exact ⟨he, by omega⟩

theorem firstRead_le (h : wholeHead head = some head) (hguard : ¬ HeldBack env head) :
    firstRead env head ≤ head.length := by
  have hline := (lineEnd_of_whole h).2
  unfold firstRead
  split
  next hp =>
    have hlong : PREFACE.length ≤ head.length := Nat.not_lt.mp fun hlt => hguard ⟨hp.1, hp.2, hlt⟩
    omega
  · omega

theorem firstToken_inside (h : wholeHead head = some head) (hsp : SP ∈ head) : (firstToken head).length + 1 < head.length := by
  obtain ⟨pos, hpos, hlen⟩ := blankLine_of_whole h
  obtain ⟨a, b, hsplit, ha⟩ := findPat_split hpos
  have hb : b = [] := by
    have hsum := congrArg List.length hsplit
    rw [length_append, length_append] at hsum
    change head.length = a.length + 4 + b.length at hsum
    exact length_eq_zero_iff.mp (by omega)
  rw [hb, append_nil] at hsplit
  have hspa : SP ∈ a := by
    rw [hsplit] at hsp
    exact (mem_append.mp hsp).resolve_right (by decide)
  have htoken : firstToken head = firstToken a := by
    rw [hsplit]
    exact firstToken_append hspa _
  have hle := firstToken_length_le a
  rw [htoken]
  omega

theorem firstToken_more (more : Bytes) : (firstToken (head ++ more)).take head.length = firstToken head := by
  rw [← firstToken_of_take, take_left]

theorem drop_more {k : Nat} (h : k < head.length) (more : Bytes) :
    ((head ++ more).drop k).head? = (head.drop k).head? := by
  rw [drop_append_of_le_length (Nat.le_of_lt h), List.head?_append]
  cases hdrop : (head.drop k).head? with
  | some b => rfl
  | none =>
    rw [List.head?_eq_none_iff, drop_eq_nil_iff] at hdrop
    omega

theorem verdict_settled (hhead : wholeHead head = some head) (hguard : ¬ HeldBack env head)
    (hset : LineSettled env head) :
    ∃ v, ∀ more n, firstRead env head ≤ n → n ≤ (head ++ more).length →
      lineVerdict env ((head ++ more).take n) head = v := by
  have hfirst := firstRead_le hhead hguard
  rcases hset with h | h | ⟨hsp, h⟩ | ⟨hsp, hmethod, hplan⟩ | ⟨hshort, htarget, h⟩
  · refine ⟨_, fun more n hn hlast => lineVerdict_unread hlast (.inr (.inl ?_)) head⟩
    have hsp : SP ∈ head := mem_of_firstToken_lt (by have := (lineEnd_of_whole hhead).2; rw [h, length_nil]; omega)
    rw [firstToken_append hsp, h]
  · refine ⟨_, fun more n hn hlast => lineVerdict_unread hlast (.inr (.inr (.inl ?_))) head⟩
    calc MAX_METHOD_SCAN
      _ < (firstToken head).length := h
      _ ≤ (firstToken (head ++ more)).length := by
        rw [← firstToken_more more]
        exact (List.take_prefix _ _).length_le
  · refine ⟨_, fun more n hn hlast => lineVerdict_unread hlast (.inr (.inr (.inr (.inr ?_)))) head⟩
    rw [firstToken_append hsp, drop_more (firstToken_inside hhead hsp)]
    exact h
  · refine ⟨refusal env .badRequest, fun more n hn hlast => ?_⟩
    by_cases hread : Unread (head ++ more) n
    · exact lineVerdict_unread hlast hread head
    · rw [lineVerdict_shown hlast hread, firstToken_append hsp, if_neg hmethod, headVerdict_bad_iff]
      dsimp only [shownLine]
      rw [firstToken_append hsp]
      exact hplan
  · have hsp : SP ∈ head := mem_of_firstToken_lt (by omega)
    by_cases hslash : (head.drop ((firstToken head).length + 1)).head? = some SLASH
    swap
    · refine ⟨_, fun more n hn hlast => lineVerdict_unread hlast (.inr (.inr (.inr (.inr ?_)))) head⟩
      rw [firstToken_append hsp, drop_more (firstToken_inside hhead hsp)]
      exact hslash
    by_cases htoken : firstToken head = [] ∨ MAX_METHOD_SCAN < (firstToken head).length
    · refine ⟨_, fun more n hn hlast => lineVerdict_unread hlast ?_ head⟩
      rw [Unread, firstToken_append hsp]
      exact htoken.elim (fun h => .inr (.inl h)) (fun h => .inr (.inr (.inl h)))
    have hread : ∀ more n, firstRead env head ≤ n → ¬ Unread (head ++ more) n := by
      intro more n hn
      rw [Unread, firstToken_append hsp, drop_more (firstToken_inside hhead hsp)]
      rintro (h | h | h | h | h)
      · omega
      · exact htoken (.inl h)
      · exact htoken (.inr h)
      · omega
      · exact h hslash
    by_cases hmethod : env.sdk.methodFromToken (firstToken head) = .none
    · refine ⟨refusal env .notImplemented, fun more n hn hlast => ?_⟩
      rw [lineVerdict_shown hlast (hread more n hn), firstToken_append hsp, if_pos hmethod]
    rcases (h.resolve_left hmethod) with hplan | hends
    · refine ⟨refusal env .lengthRequired, fun more n hn hlast => ?_⟩
      rw [lineVerdict_shown hlast (hread more n hn), firstToken_append hsp, if_neg hmethod]
      unfold headVerdict shownLine
      dsimp only
      rw [firstToken_append hsp, hplan]
    · refine ⟨headVerdict env
        { method := env.sdk.methodFromToken (firstToken head)
          targetAt := (firstToken head).length + 1
          targetLen := (firstToken (head.drop ((firstToken head).length + 1))).length }
        ((firstToken (head.drop ((firstToken head).length + 1))).take env.profile.maxPath) head, fun more n hn hlast => ?_⟩
      have hrest : firstToken ((head ++ more).drop ((firstToken head).length + 1)) =
          firstToken (head.drop ((firstToken head).length + 1)) := by
        rw [drop_append_of_le_length (by omega)]
        exact firstToken_append hends.1 more
      have hlen : (firstToken (head.drop ((firstToken head).length + 1))).length ≤ n - ((firstToken head).length + 1) := by
        have := hends.2
        omega
      rw [lineVerdict_shown hlast (hread more n hn), firstToken_append hsp, if_neg hmethod, hrest,
        take_of_length_le hlen]
      unfold shownLine
      rw [firstToken_append hsp, hrest, Nat.min_eq_left hlen]

theorem settled_of_verdict (htokens : ∀ token, CR ∈ token → env.sdk.methodFromToken token = .none)
    (hhead : wholeHead head = some head) (hfit : head.length ≤ env.profile.recvBufSize) (hguard : ¬ HeldBack env head) {v : Verdict}
   
    (h : ∀ more n, firstRead env head ≤ n → n ≤ (head ++ more).length →
      (head ++ more).length ≤ env.profile.recvBufSize → lineVerdict env ((head ++ more).take n) head = v) :
    LineSettled env head := by
  have hfirst := firstRead_le hhead hguard
  have hroom := env.profile.recvBufSize_ge
  have hscan : MAX_METHOD_SCAN = 24 := rfl
  by_cases hempty : firstToken head = []
  · exact .inl hempty
  by_cases hlong : MAX_METHOD_SCAN < (firstToken head).length
  · exact .inr (.inl hlong)
  have hnone := h [] (firstRead env head) le_rfl (by rw [append_nil]; exact hfirst) (by rw [append_nil]; exact hfit)
  rw [append_nil] at hnone
  by_cases hsp : SP ∈ head
  swap
  · -- with a space and a target behind it, the whole head is a method
    exfalso
    have hwhole : firstToken head = head := by
      by_contra hne
      have hle := firstToken_length_le head
      refine hsp (mem_of_firstToken_lt (Nat.lt_of_le_of_ne hle fun hlen => hne ?_))
      rw [← take_firstToken head, hlen, take_length]
    have hcr : CR ∈ head := by
      obtain ⟨a, b, hsplit, -⟩ := findPat_split (blankLine_of_whole hhead).choose_spec.1
      rw [hsplit]
      exact mem_append_left _ (mem_append_right _ mem_cons_self)
    have htoken : firstToken (head ++ SP :: SLASH :: List.replicate 14 0x61) = head := by
      have hmem : SP ∈ head ++ [SP] := mem_append_right _ mem_cons_self
      have happend := firstToken_append hmem (SLASH :: List.replicate 14 0x61)
      rw [append_assoc, singleton_append] at happend
      rw [happend]
      exact (takeWhile_append_of_pos fun b hb => by
        rw [bne_iff_ne]
        rintro rfl
        exact hsp hb).trans (by rw [takeWhile_cons_of_neg (by decide), append_nil])
    have hlen : (head ++ SP :: SLASH :: List.replicate 14 0x61).length = head.length + 16 := by
      rw [length_append]
      rfl
    rw [hwhole] at hlong
    have hread : ¬ Unread (head ++ SP :: SLASH :: List.replicate 14 0x61) (head.length + 16) := by
      have hdrop : (head ++ SP :: SLASH :: List.replicate 14 0x61).drop (head.length + 1) =
          SLASH :: List.replicate 14 0x61 := by
        rw [← drop_drop, drop_left]
        rfl
      rw [Unread, htoken, hdrop]
      rintro (h | h | h | h | h)
      · omega
      · rw [← hwhole] at h
        exact hempty h
      · exact hlong h
      · omega
      · exact h rfl
    have hmore := h (SP :: SLASH :: List.replicate 14 0x61) (head.length + 16) (by omega) (by omega) (by omega)
    rw [lineVerdict_shown (by omega) hread, htoken, if_pos (htokens head hcr)] at hmore
    rw [lineVerdict_unread hfirst (.inr (.inr (.inr (.inl (by rw [hwhole]; omega)))))] at hnone
    exact refusal_bad_ne env (.inl rfl) (hnone.trans hmore.symm)
  have hinside := firstToken_inside hhead hsp
  by_cases hslash : (head.drop ((firstToken head).length + 1)).head? = some SLASH
  swap
  · exact .inr (.inr (.inl ⟨hsp, hslash⟩))
  have hread : ∀ more n, 14 ≤ n → (firstToken head).length + 2 ≤ n → ¬ Unread (head ++ more) n := by
    intro more n hn htarget
    rw [Unread, firstToken_append hsp, drop_more hinside]
    rintro (h | h | h | h | h)
    · omega
    · exact hempty h
    · exact hlong h
    · omega
    · exact h hslash
  by_cases hearly : 14 ≤ firstRead env head ∧ (firstToken head).length + 2 ≤ firstRead env head
  swap
  · -- the first reading refuses the line, so the head must be refused as well
    have hbad : refusal env .badRequest = v := by
      rw [← hnone]
      refine (lineVerdict_unread hfirst ?_ head).symm
      by_cases hshort : firstRead env head < 14
      · exact .inl hshort
      · exact .inr (.inr (.inr (.inl (by omega))))
    have hlen : (head ++ List.replicate (14 - head.length) 0x61).length = max head.length 14 := by
      rw [length_append, length_replicate]
      omega
    have hmore := h (List.replicate (14 - head.length) 0x61) (max head.length 14) (by omega) (by omega) (by omega)
    rw [lineVerdict_shown (by omega) (hread _ _ (by omega) (by omega)), firstToken_append hsp, ← hbad] at hmore
    split at hmore
    · exact absurd hmore.symm (refusal_bad_ne env (.inl rfl))
    next hmethod =>
      rw [headVerdict_bad_iff] at hmore
      unfold shownLine at hmore
      rw [firstToken_append hsp] at hmore
      exact .inr (.inr (.inr (.inl ⟨hsp, hmethod, hmore⟩)))
  refine .inr (.inr (.inr ?_))
  by_cases hmethod : env.sdk.methodFromToken (firstToken head) = .none
  · exact .inr ⟨hearly.1, hearly.2, .inl hmethod⟩
  by_cases hinvalid : planBody (env.sdk.methodFromToken (firstToken head)) head = .invalid
  · exact .inl ⟨hsp, hmethod, hinvalid⟩
  by_cases hlength : planBody (env.sdk.methodFromToken (firstToken head)) head = .lengthRequired
  · exact .inr ⟨hearly.1, hearly.2, .inr (.inl hlength)⟩
  refine .inr ⟨hearly.1, hearly.2, .inr (.inr ?_)⟩
  -- dispatched twice, so with one target
  have hsame : ∀ more n, firstRead env head ≤ n → n ≤ (head ++ more).length →
      (head ++ more).length ≤ env.profile.recvBufSize →
      (shownLine env.sdk head (firstRead env head)).targetLen = (shownLine env.sdk (head ++ more) n).targetLen := by
    intro more n hn hlast hbuf
    have hmore := h more n hn hlast hbuf
    have hfirstRead := hread [] (firstRead env head) hearly.1 hearly.2
    rw [append_nil] at hfirstRead
    rw [← hnone, lineVerdict_shown hlast (hread more n (by omega) (by omega)), firstToken_append hsp, if_neg hmethod,
      lineVerdict_shown hfirst hfirstRead, if_neg hmethod] at hmore
    have hline : (shownLine env.sdk (head ++ more) n).method = env.sdk.methodFromToken (firstToken head) := by
      unfold shownLine
      rw [firstToken_append hsp]
    exact headVerdict_targetLen hinvalid hlength hline hmore.symm
  have hrest : (head.drop ((firstToken head).length + 1)).length = head.length - ((firstToken head).length + 1) :=
    length_drop
  have htoken := firstToken_length_le (head.drop ((firstToken head).length + 1))
  by_cases hall : firstRead env head < head.length
  · have hlen := hsame [] head.length (by omega) (by rw [append_nil]) (by rw [append_nil]; exact hfit)
    rw [append_nil] at hlen
    dsimp only [shownLine] at hlen
    exact ⟨mem_of_firstToken_lt (by omega), by omega⟩
  · by_cases hspace : SP ∈ head.drop ((firstToken head).length + 1)
    · exact ⟨hspace, by omega⟩
    · exfalso
      have hline := (lineEnd_of_whole hhead).2
      have hcases : firstRead env head = max ((requestLineOf head).length + 2) PREFACE.length ∨
          firstRead env head = (requestLineOf head).length + 2 := by
        unfold firstRead
        split
        · exact .inl rfl
        · exact .inr rfl
      have hpreface : head.length = PREFACE.length := by omega
      have hlast : (head ++ [0x61]).length = head.length + 1 := length_append
      have hsize : PREFACE.length = 24 := by decide
      have hlen := hsame [0x61] (head.length + 1) (by omega) (by omega) (by omega)
      have hgrown : firstToken (head.drop ((firstToken head).length + 1) ++ [0x61]) =
          head.drop ((firstToken head).length + 1) ++ [0x61] := by
        refine List.takeWhile_eq_self_iff.mpr fun b hb => ?_
        rw [bne_iff_ne]
        rintro rfl
        rcases mem_append.mp hb with hb | hb
        · exact hspace hb
        · exact absurd hb (by decide)
      dsimp only [shownLine] at hlen
      rw [firstToken_append hsp, drop_append_of_le_length (Nat.le_of_lt hinside), hgrown, length_append,
        length_singleton, hrest] at hlen
      omega

end Settled

structure Receipt where
  conn : H1Conn
  bytes : Bytes

inductive ReceiptEvent where
  | frame (data : Bytes)
  | step (inp : H1Input)

/-- Frames and steps, until the slot leaves `RecvRequest`. -/
def receiveStep (env : H1Env) (s : Receipt) : ReceiptEvent → Receipt × List Empty
  | .frame data =>
    if s.conn.phase = .recvRequest then
      match demuxInbound env.profile s.conn (.data data) with
      | some c => ({ conn := c, bytes := s.bytes ++ data }, [])
      | none => (s, [])
    else (s, [])
  | .step inp =>
    if s.conn.phase = .recvRequest then ({ s with conn := (stepActiveSlot env inp s.conn).1 }, []) else (s, [])

def receiveMachine (env : H1Env) : Machine Receipt ReceiptEvent Empty where
  step := receiveStep env

/-- A request that begins with the head is made `v` of in one step once the head is there, whatever the cuts. -/
def Judged (env : H1Env) (head : Bytes) (v : Verdict) : Prop :=
  ∀ c : H1Conn, c.phase = .recvRequest → c.recvParsed = false → c.recvBuf.length ≤ env.profile.recvBufSize →
    ∀ events inp,
      let s := ((receiveMachine env).run ⟨c, c.recvBuf⟩ events).1
      s.conn.phase = .recvRequest → s.conn.peerClosed = false → inp.expired = false →
        (head <+: s.bytes → (stepActiveSlot env inp s.conn).1.verdict = some v) ∧
          (s.bytes <+: head → ∀ w, (stepActiveSlot env inp s.conn).1.verdict = some w → w = v)

/-! ### One step -/

section Steps

variable {env : H1Env} {inp : H1Input} {c : H1Conn} {head : Bytes}

theorem stepActive_recv (hphase : c.phase = .recvRequest) (hopen : c.peerClosed = false) (hexp : inp.expired = false) :
    (stepActiveSlot env inp c).1 = stepRecvRequest env inp c := by
  unfold stepActiveSlot
  rw [hopen, hexp, if_neg (by simp), if_neg (by simp), stepPhase, hphase]

theorem readHead_verdict {pos : Nat} (hpos : findPat blankLine c.recvBuf = some pos) :
    (readHead env c).verdict =
      some (headVerdict env ⟨c.reqMethod, c.reqTargetAt, c.reqTargetLen⟩ c.reqPath (c.recvBuf.take (pos + 4))) := by
  have hlen : (c.recvBuf.take (pos + 4)).length = pos + 4 := length_take_of_le (findPat_le hpos)
  unfold readHead headVerdict
  rw [hpos]
  dsimp only
  cases planBody c.reqMethod (c.recvBuf.take (pos + 4)) with
  | invalid => rfl
  | lengthRequired => rfl
  | none =>
    dsimp only
    rw [hlen]
    rfl
  | read decoder declared continueFirst =>
    dsimp only
    rw [hlen]
    rfl

theorem step_reads (hne : c.recvBuf ≠ []) (hheld : c.recvParsed = true ∨ ¬ HeldBack env c.recvBuf)
    (hplain : env.h2 = true → ¬ PREFACE <+: c.recvBuf) :
    stepRecvRequest env inp c =
      if c.recvParsed then readHead env c
      else
        match readRequestLine env c.recvBuf with
        | .refused r => refuse env.profile c r
        | .wait => c
        | .read line => readHead env (c.adoptLine env.profile line) := by
  have hstays : ¬ (env.h2 && !c.recvParsed && c.recvBuf.head? = PREFACE.head? &&
      decide (c.recvBuf.length < PREFACE.length)) = true := by
    simp only [and_eq_true, Bool.not_eq_true', decide_eq_true_eq]
    rintro ⟨⟨⟨hh2, hparsed⟩, hfirst⟩, hshort⟩
    rcases hheld with hheld | hheld
    · rw [hparsed] at hheld
      cases hheld
    · exact hheld ⟨hh2, hfirst, hshort⟩
  have hpreface : ¬ (env.h2 && !c.recvParsed && PREFACE.isPrefixOf c.recvBuf) = true := by
    simp only [and_eq_true, isPrefixOf_iff_prefix]
    rintro ⟨⟨hh2, -⟩, hpreface⟩
    exact hplain hh2 hpreface
  unfold stepRecvRequest
  exact (if_neg hne).trans ((if_neg hstays).trans (if_neg hpreface))

theorem step_whole (hhead : wholeHead head = some head) (hbuf : head <+: c.recvBuf) (hparsed : c.recvParsed = false)
    (hheld : ¬ HeldBack env c.recvBuf) (hplain : env.h2 = true → ¬ PREFACE <+: c.recvBuf) :
    (stepRecvRequest env inp c).verdict = some (lineVerdict env c.recvBuf head) := by
  obtain ⟨pos, hpos, hlen⟩ := blankLine_of_whole hhead
  obtain ⟨more, hmore⟩ := hbuf
  have hne : c.recvBuf ≠ [] := by
    rw [← hmore]
    exact append_ne_nil_of_left_ne_nil (ne_nil_of_length_pos (by omega)) _
  have hblank : findPat blankLine c.recvBuf = some pos := hmore ▸ findPat_append hpos more
  have hline : findPat crlf c.recvBuf = some (requestLineOf head).length :=
    hmore ▸ findPat_append (lineEnd_of_whole hhead).1 more
  have htake : c.recvBuf.take (pos + 4) = head := by rw [← hmore, hlen, take_left]
  rw [step_reads hne (.inr hheld) hplain, hparsed, if_neg false_ne_true, readRequestLine, hline, lineVerdict]
  dsimp only
  cases parseRequestLine env.sdk c.recvBuf with
  | none => rfl
  | some line =>
    dsimp only
    by_cases hmethod : line.method = .none
    · rw [if_pos hmethod, if_pos hmethod]
      rfl
    · rw [if_neg hmethod, if_neg hmethod]
      have hread : (readHead env (c.adoptLine env.profile line)).verdict = _ := readHead_verdict hblank
      rw [show (c.adoptLine env.profile line).recvBuf.take (pos + 4) = head from htake] at hread
      exact hread

theorem step_parsed (hhead : wholeHead head = some head) (hbuf : head <+: c.recvBuf) (hparsed : c.recvParsed = true)
    (hplain : env.h2 = true → ¬ PREFACE <+: c.recvBuf) :
    (stepRecvRequest env inp c).verdict =
      some (headVerdict env ⟨c.reqMethod, c.reqTargetAt, c.reqTargetLen⟩ c.reqPath head) := by
  obtain ⟨pos, hpos, hlen⟩ := blankLine_of_whole hhead
  obtain ⟨more, hmore⟩ := hbuf
  have hne : c.recvBuf ≠ [] := by
    rw [← hmore]
    exact append_ne_nil_of_left_ne_nil (ne_nil_of_length_pos (by omega)) _
  have htake : c.recvBuf.take (pos + 4) = head := by rw [← hmore, hlen, take_left]
  have hfound : findPat blankLine c.recvBuf = some pos := hmore ▸ findPat_append hpos more
  rw [step_reads hne (.inl hparsed) hplain, hparsed, if_pos rfl, readHead_verdict hfound, htake]

inductive PartialStep (env : H1Env) (c : H1Conn) : H1Conn → Prop
  | gone {r : H1Conn} (hempty : c.recvBuf = []) (h : r.verdict = none) (hphase : r.phase ≠ .recvRequest) :
    PartialStep env c r
  | wait (h : c.recvParsed = false → (findPat crlf c.recvBuf).isSome = true → HeldBack env c.recvBuf) : PartialStep env c c
  | read (line : RequestLine) (hparsed : c.recvParsed = false) (hend : (findPat crlf c.recvBuf).isSome = true)
    (hheld : ¬ HeldBack env c.recvBuf) (hline : parseRequestLine env.sdk c.recvBuf = some line)
    (hmethod : line.method ≠ .none) : PartialStep env c (c.adoptLine env.profile line)
  | refused {r : H1Conn} (hend : (findPat crlf c.recvBuf).isSome = true) (hheld : ¬ HeldBack env c.recvBuf)
    (hverdict : ∀ head, r.verdict = some (lineVerdict env c.recvBuf head)) (hphase : r.phase ≠ .recvRequest) :
    PartialStep env c r

theorem step_partial (hroom : c.recvBuf.length < env.profile.recvBufSize) (hblank : findPat blankLine c.recvBuf = none)
    (hplain : env.h2 = true → ¬ PREFACE <+: c.recvBuf) : PartialStep env c (stepRecvRequest env inp c) := by
  have hreadHead : ∀ d : H1Conn, d.recvBuf = c.recvBuf → readHead env d = d := by
    intro d hd
    rw [readHead, hd, hblank]
    exact if_neg (Nat.not_le.mpr hroom)
  by_cases hne : c.recvBuf = []
  · unfold stepRecvRequest
    rw [if_pos hne]
    split
    · exact .gone hne rfl nofun
    · refine .wait fun _ hend => ?_
      rw [hne] at hend
      cases hend
  cases hparsed : c.recvParsed with
  | true =>
    rw [step_reads hne (.inl hparsed) hplain, hparsed, if_pos rfl, hreadHead c rfl]
    refine .wait fun hunread => ?_
    rw [hparsed] at hunread
    cases hunread
  | false =>
    by_cases hheld : HeldBack env c.recvBuf
    · have hstay : stepRecvRequest env inp c = c := by
        unfold stepRecvRequest
        rw [if_neg hne, hparsed, hheld.1, if_pos]
        simp [hheld.2.1, hheld.2.2]
      rw [hstay]
      exact .wait fun _ _ => hheld
    · rw [step_reads hne (.inr hheld) hplain, hparsed, if_neg false_ne_true, readRequestLine]
      cases hend : findPat crlf c.recvBuf with
      | none =>
        dsimp only
        rw [if_neg (Nat.not_le.mpr hroom)]
        refine .wait fun _ hsome => ?_
        rw [hend] at hsome
        cases hsome
      | some e =>
        have hsome : (findPat crlf c.recvBuf).isSome = true := by rw [hend]; rfl
        dsimp only
        cases hline : parseRequestLine env.sdk c.recvBuf with
        | none =>
          refine .refused hsome hheld (fun head => ?_) nofun
          rw [lineVerdict, hline]
          rfl
        | some line =>
          dsimp only
          by_cases hmethod : line.method = .none
          · rw [if_pos hmethod]
            refine .refused hsome hheld (fun head => ?_) nofun
            rw [lineVerdict, hline]
            dsimp only
            rw [if_pos hmethod]
            rfl
          · rw [if_neg hmethod]
            dsimp only
            rw [hreadHead (c.adoptLine env.profile line) rfl]
            exact .read line hparsed hsome hheld hline hmethod

end Steps

/-! ### A run -/

section Runs

variable {env : H1Env} {head : Bytes}

/-- What the slot keeps is what has come, and a line that was read, was read off the front of that. -/
structure LineKeptFrom (env : H1Env) (c : H1Conn) (bytes : Bytes) (n : Nat) (line : RequestLine) : Prop where
  came : n ≤ bytes.length
  ended : (findPat crlf (bytes.take n)).isSome = true
  free : ¬ HeldBack env (bytes.take n)
  parsed : parseRequestLine env.sdk (bytes.take n) = some line
  known : line.method ≠ .none
  kept : (⟨c.reqMethod, c.reqTargetAt, c.reqTargetLen⟩ : RequestLine) = line
  path : c.reqPath = line.path env (bytes.take n)

structure Filled (env : H1Env) (c : H1Conn) (bytes : Bytes) : Prop where
  buffer : c.recvBuf = bytes
  line : c.recvParsed = true → ∃ n line, LineKeptFrom env c bytes n line

def Follows (head bytes : Bytes) : Prop := head <+: bytes ∨ bytes <+: head

theorem Follows.of_prefix {a b : Bytes} (h : Follows head b) (hab : a <+: b) : Follows head a :=
  h.elim (fun h => List.prefix_or_prefix_of_prefix h hab) fun h => .inr (hab.trans h)

section

variable (hhead : wholeHead head = some head)

include hhead

theorem Follows.plain (hguard : ¬ HeldBack env head) (hpreface : ¬ PREFACE <+: head)
    (h : Follows head bytes) : env.h2 = true → ¬ PREFACE <+: bytes := by
  intro hh2 hpre
  rcases h with h | h
  · rcases List.prefix_or_prefix_of_prefix hpre h with hp | hp
    · exact hpreface hp
    · have hne : head ≠ [] := ne_nil_of_length_pos (by have := (lineEnd_of_whole hhead).2; omega)
      have hfirst : head.head? = PREFACE.head? := by
        obtain ⟨more, hmore⟩ := hp
        rw [← hmore, List.head?_append_of_ne_nil _ hne]
      have hlong : PREFACE.length ≤ head.length := Nat.not_lt.mp fun hlt => hguard ⟨hh2, hfirst, hlt⟩
      exact hpreface (hp.eq_of_length_le hlong ▸ prefix_rfl)
  · exact hpreface (hpre.trans h)

theorem firstRead_le_of_read (h : Follows head bytes)
    (hend : (findPat crlf bytes).isSome = true) (hfree : ¬ HeldBack env bytes) : firstRead env head ≤ bytes.length := by
  obtain ⟨hline, hlong⟩ := lineEnd_of_whole hhead
  obtain ⟨e, he⟩ := isSome_iff_exists.mp hend
  have hcame : (requestLineOf head).length + 2 ≤ bytes.length := by
    rcases h with ⟨more, rfl⟩ | ⟨more, hmore⟩
    · rw [length_append]
      omega
    · have hsame := findPat_append he more
      rw [hmore, hline] at hsame
      rw [Option.some.inj hsame]
      exact findPat_le he
  unfold firstRead
  split
  next hp =>
    have hne : bytes ≠ [] := ne_nil_of_length_pos (by omega)
    have hfirst : bytes.head? = PREFACE.head? := by
      rcases h with ⟨more, rfl⟩ | ⟨more, hmore⟩
      · rw [List.head?_append_of_ne_nil _ (ne_nil_of_length_pos (by omega))]
        exact hp.2
      · rw [← hp.2, ← hmore, List.head?_append_of_ne_nil _ hne]
    have hlen : PREFACE.length ≤ bytes.length := Nat.not_lt.mp fun hlt => hfree ⟨hp.1, hfirst, hlt⟩
    omega
  · exact hcame

theorem heldBack_of_along (hguard : ¬ HeldBack env head) (h : head <+: bytes) : ¬ HeldBack env bytes := by
  rintro ⟨hh2, hfirst, hshort⟩
  have hle := h.length_le
  obtain ⟨more, rfl⟩ := h
  have hne : head ≠ [] := ne_nil_of_length_pos (by have := (lineEnd_of_whole hhead).2; omega)
  rw [List.head?_append_of_ne_nil _ hne] at hfirst
  exact hguard ⟨hh2, hfirst, by omega⟩

theorem blankLine_none (h : bytes <+: head) (hlt : bytes.length < head.length) : findPat blankLine bytes = none := by
  cases hfind : findPat blankLine bytes with
  | none => rfl
  | some p =>
    obtain ⟨pos, hpos, hlen⟩ := blankLine_of_whole hhead
    obtain ⟨more, hmore⟩ := h
    have hsame := findPat_append hfind more
    rw [hmore, hpos] at hsame
    have hle := findPat_le hfind
    rw [← Option.some.inj hsame] at hle
    change pos + 4 ≤ bytes.length at hle
    omega

end

theorem LineKeptFrom.append {c d : H1Conn} {line : RequestLine} (h : LineKeptFrom env c bytes n line) (more : Bytes)
    (hsame : (⟨d.reqMethod, d.reqTargetAt, d.reqTargetLen⟩ : RequestLine) = ⟨c.reqMethod, c.reqTargetAt, c.reqTargetLen⟩)
    (hpath : d.reqPath = c.reqPath) : LineKeptFrom env d (bytes ++ more) n line := by
  have htake : (bytes ++ more).take n = bytes.take n := take_append_of_le_length h.came
  refine ⟨h.came.trans (by rw [length_append]; omega), ?_, ?_, ?_, h.known, hsame.trans h.kept, ?_⟩
  · rw [htake]; exact h.ended
  · rw [htake]; exact h.free
  · rw [htake]; exact h.parsed
  · rw [htake, hpath]; exact h.path

/-- While a slot receives bytes that may be the head's, it keeps them and the line it has read. -/
def ReceiptInv (env : H1Env) (head : Bytes) (s : Receipt) : Prop :=
  s.conn.phase = .recvRequest → Follows head s.bytes → Filled env s.conn s.bytes

theorem demux_data {c : H1Conn} (hphase : c.phase = .recvRequest) (data : Bytes) :
    demuxInbound env.profile c (.data data) =
      if c.hasRoom env.profile data.length then some { c with recvBuf := c.recvBuf ++ data } else none := by
  have haccepted : c.phase.accepted = true := by rw [hphase]; rfl
  unfold demuxInbound
  rw [haccepted]
  rfl

theorem receive_frame {s : Receipt} {data : Bytes} (hphase : s.conn.phase = .recvRequest)
    (hroom : s.conn.recvBuf.length + data.length ≤ env.profile.recvBufSize) :
    (receiveStep env s (.frame data)).1 =
      { conn := { s.conn with recvBuf := s.conn.recvBuf ++ data }, bytes := s.bytes ++ data } := by
  have hfits : s.conn.hasRoom env.profile data.length = true := decide_eq_true hroom
  unfold receiveStep
  dsimp only
  rw [if_pos hphase, demux_data hphase, if_pos hfits]

theorem receiptInv_frame {s : Receipt} {data : Bytes} (h : ReceiptInv env head s) :
    ReceiptInv env head (receiveStep env s (.frame data)).1 := by
  unfold receiveStep
  dsimp only
  split
  next hphase =>
    rw [demux_data hphase]
    by_cases hroom : s.conn.hasRoom env.profile data.length = true
    · rw [if_pos hroom]
      intro _ halong
      have hfilled := h hphase (halong.of_prefix (prefix_append _ _))
      refine ⟨congrArg (· ++ data) hfilled.buffer, fun hparsed => ?_⟩
      obtain ⟨n, line, hline⟩ := hfilled.line hparsed
      exact ⟨n, line, hline.append data rfl rfl⟩
    · rw [if_neg hroom]
      exact h
  · exact h

theorem verdict_leaves {c : H1Conn} {v : Verdict} (h : c.verdict = some v) : c.phase ≠ .recvRequest := by
  intro hphase
  rw [H1Conn.verdict, hphase] at h
  cases h

theorem stepActive_gone {c : H1Conn} {inp : H1Input} (hphase : c.phase = .recvRequest)
    (h : (stepActiveSlot env inp c).1.phase = .recvRequest) :
    (stepActiveSlot env inp c).1 = stepRecvRequest env inp c := by
  have hcloses : c.phase.closesWithPeer = true := by rw [hphase]; rfl
  have hdeadline : c.phase.hasDeadline = true := by rw [hphase]; rfl
  cases hopen : c.peerClosed with
  | true =>
    exfalso
    unfold stepActiveSlot at h
    rw [hopen, hcloses, Bool.and_self, if_pos rfl] at h
    cases h
  | false =>
    cases hexp : inp.expired with
    | true =>
      exfalso
      unfold stepActiveSlot at h
      rw [hopen, hexp, hdeadline, Bool.false_and, if_neg false_ne_true, Bool.and_self, if_pos rfl] at h
      cases h
    | false => exact stepActive_recv hphase hopen hexp

theorem Filled.verdict {c : H1Conn} (h : Filled env c bytes) (inp : H1Input)
    (hhead : wholeHead head = some head) (hguard : ¬ HeldBack env head) (hpreface : ¬ PREFACE <+: head)
    (hbytes : head <+: bytes) :
    ∃ n, firstRead env head ≤ n ∧ n ≤ bytes.length ∧
      (stepRecvRequest env inp c).verdict = some (lineVerdict env (bytes.take n) head) := by
  have halong : Follows head bytes := .inl hbytes
  have hplain := halong.plain hhead hguard hpreface
  have hheld := heldBack_of_along hhead hguard hbytes
  cases hparsed : c.recvParsed with
  | false =>
    refine ⟨bytes.length, (firstRead_le hhead hguard).trans hbytes.length_le, le_rfl, ?_⟩
    rw [take_length, ← h.buffer]
    rw [← h.buffer] at hbytes hheld hplain
    exact step_whole hhead hbytes hparsed hheld hplain
  | true =>
    obtain ⟨n, line, hline⟩ := h.line hparsed
    have hfirst := firstRead_le_of_read hhead (halong.of_prefix (List.take_prefix n bytes)) hline.ended hline.free
    rw [length_take_of_le hline.came] at hfirst
    refine ⟨n, hfirst, hline.came, ?_⟩
    rw [← h.buffer] at hbytes hplain
    rw [step_parsed hhead hbytes hparsed hplain, hline.kept, hline.path, lineVerdict, hline.parsed]
    exact congrArg some (if_neg hline.known).symm

theorem Filled.partial {c : H1Conn} (h : Filled env c bytes) (inp : H1Input)
    (hhead : wholeHead head = some head) (hguard : ¬ HeldBack env head) (hpreface : ¬ PREFACE <+: head)
    (hfit : head.length ≤ env.profile.recvBufSize) (hbytes : bytes <+: head) (hlt : bytes.length < head.length) :
    PartialStep env c (stepRecvRequest env inp c) := by
  have halong : Follows head bytes := .inr hbytes
  have hplain := halong.plain hhead hguard hpreface
  have hblank := blankLine_none hhead hbytes hlt
  rw [← h.buffer] at hblank hplain hlt
  exact step_partial (by omega) hblank hplain

theorem receiptInv_step {s : Receipt} {inp : H1Input} (h : ReceiptInv env head s) (hhead : wholeHead head = some head)
    (hguard : ¬ HeldBack env head) (hpreface : ¬ PREFACE <+: head) (hfit : head.length ≤ env.profile.recvBufSize) :
    ReceiptInv env head (receiveStep env s (.step inp)).1 := by
  unfold receiveStep
  dsimp only
  split
  next hphase =>
    intro hnext halong
    dsimp only at hnext halong ⊢
    have hfilled := h hphase halong
    rw [stepActive_gone hphase hnext]
    rw [stepActive_gone hphase hnext] at hnext
    by_cases hwhole : head <+: s.bytes
    · obtain ⟨n, -, -, hverdict⟩ := hfilled.verdict inp hhead hguard hpreface hwhole
      exact absurd hnext (verdict_leaves hverdict)
    · have hbytes := halong.resolve_left hwhole
      have hlt : s.bytes.length < head.length := Nat.lt_of_not_le fun hle =>
        hwhole (hbytes.eq_of_length_le hle ▸ prefix_rfl)
      have hstep := hfilled.partial inp hhead hguard hpreface hfit hbytes hlt
      generalize stepRecvRequest env inp s.conn = r at hstep hnext
      cases hstep with
      | gone _ _ hleft => exact absurd hnext hleft
      | wait _ => exact hfilled
      | refused _ _ _ hleft => exact absurd hnext hleft
      | read line hparsed hend hheld hline hmethod =>
        refine ⟨hfilled.buffer, fun _ => ⟨s.bytes.length, line, ?_⟩⟩
        have htake : s.bytes.take s.bytes.length = s.conn.recvBuf := by rw [take_length, hfilled.buffer]
        refine ⟨le_rfl, ?_, ?_, ?_, hmethod, rfl, ?_⟩
        · rw [htake]; exact hend
        · rw [htake]; exact hheld
        · rw [htake]; exact hline
        · rw [htake]; rfl
  · exact h

theorem receiptInv_run (hhead : wholeHead head = some head) (hguard : ¬ HeldBack env head) (hpreface : ¬ PREFACE <+: head)
    (hfit : head.length ≤ env.profile.recvBufSize) {c : H1Conn} (hparsed : c.recvParsed = false)
    (events : List ReceiptEvent) : ReceiptInv env head ((receiveMachine env).run ⟨c, c.recvBuf⟩ events).1 := by
  have hstart : ReceiptInv env head ⟨c, c.recvBuf⟩ := fun _ _ =>
    ⟨rfl, fun h => by rw [show c.recvParsed = false from hparsed] at h; cases h⟩
  refine (receiveMachine env).run_invariant (P := fun _ _ => True) (fun s e h _ => ?_) hstart
    ((receiveMachine env).along_of_forall (fun _ _ => trivial) _ _)
  cases e with
  | frame data => exact receiptInv_frame h
  | step inp => exact receiptInv_step h hhead hguard hpreface hfit

theorem lineEnd_le_firstRead (env : H1Env) (head : Bytes) : (requestLineOf head).length + 2 ≤ firstRead env head := by
  unfold firstRead
  split
  · exact Nat.le_max_left _ _
  · exact le_rfl

theorem not_heldBack_of_firstRead (hfirst : firstRead env head ≤ n) (hn : n ≤ head.length) :
    ¬ HeldBack env (head.take n) := by
  rintro ⟨hh2, hhead, hshort⟩
  rw [length_take_of_le hn] at hshort
  have hline := lineEnd_le_firstRead env head
  rw [head_take (by omega)] at hhead
  unfold firstRead at hfirst
  rw [if_pos ⟨hh2, hhead⟩] at hfirst
  omega

theorem judged_of_settled (hhead : wholeHead head = some head) (hguard : ¬ HeldBack env head)
    (hpreface : ¬ PREFACE <+: head) (hfit : head.length ≤ env.profile.recvBufSize) {v : Verdict}
    (hsame : ∀ more n, firstRead env head ≤ n → n ≤ (head ++ more).length →
      lineVerdict env ((head ++ more).take n) head = v) : Judged env head v := by
  intro c _ hparsed _ events inp s hphase hopen hexp
  have hinv := receiptInv_run hhead hguard hpreface hfit hparsed events
  rw [stepActive_recv hphase hopen hexp]
  have hwhole : head <+: s.bytes → (stepRecvRequest env inp s.conn).verdict = some v := by
    intro hbytes
    obtain ⟨n, hfirst, hcame, hverdict⟩ := (hinv hphase (.inl hbytes)).verdict inp hhead hguard hpreface hbytes
    obtain ⟨more, hmore⟩ := hbytes
    change n ≤ s.bytes.length at hcame
    change _ = some (lineVerdict env (s.bytes.take n) head) at hverdict
    rw [← hmore] at hcame hverdict
    rw [hverdict, hsame more n hfirst hcame]
  refine ⟨hwhole, fun hbytes w hw => ?_⟩
  by_cases hle : head.length ≤ s.bytes.length
  · have hall := hwhole (hbytes.eq_of_length_le hle ▸ prefix_rfl)
    exact Option.some.inj (hw.symm.trans hall)
  have hfilled : Filled env s.conn s.bytes := hinv hphase (.inr hbytes)
  have hstep := hfilled.partial inp hhead hguard hpreface hfit hbytes (Nat.lt_of_not_le hle)
  generalize stepRecvRequest env inp s.conn = r at hstep hw
  cases hstep with
  | gone _ hnone _ => rw [hnone] at hw; cases hw
  | wait _ => exact absurd hphase (verdict_leaves hw)
  | read line _ _ _ _ _ =>
    exact absurd (show (s.conn.adoptLine env.profile line).phase = .recvRequest from hphase) (verdict_leaves hw)
  | refused hend hheld hverdict _ =>
    rw [hfilled.buffer] at hend hheld hverdict
    have hfirst := firstRead_le_of_read hhead (.inr hbytes) hend hheld
    obtain ⟨more, hmore⟩ := hbytes
    have hfront := hsame [] s.bytes.length hfirst (by rw [append_nil, ← hmore, length_append]; omega)
    rw [append_nil, ← hmore, take_left, hmore] at hfront
    rw [hverdict head, hfront] at hw
    exact (Option.some.inj hw).symm

theorem same_of_judged (hhead : wholeHead head = some head) (hguard : ¬ HeldBack env head) (hpreface : ¬ PREFACE <+: head)
    (hfit : head.length ≤ env.profile.recvBufSize) {v : Verdict} (hjudged : Judged env head v) (more : Bytes)
    (hfirst : firstRead env head ≤ n) (hn : n ≤ (head ++ more).length)
    (hroom : (head ++ more).length ≤ env.profile.recvBufSize) : lineVerdict env ((head ++ more).take n) head = v := by
  have hlen : ((head ++ more).take n).length = n := length_take_of_le hn
  rcases Nat.lt_or_ge n head.length with hshort | hlong
  · -- a first part, and the rest of the head behind it
    have htake : (head ++ more).take n = head.take n := take_append_of_le_length (Nat.le_of_lt hshort)
    rw [htake] at hlen ⊢
    have hbytes : head.take n <+: head := take_prefix n head
    have hend : (findPat crlf (head.take n)).isSome = true := by
      have hcame := (lineEnd_le_firstRead env head).trans hfirst
      rw [findPat_take crlf_ne_nil (lineEnd_of_whole hhead).1 hcame]
      rfl
    have hfree := not_heldBack_of_firstRead hfirst (Nat.le_of_lt hshort)
    have hfilled : Filled env { recvBuf := head.take n } (head.take n) := ⟨rfl, nofun⟩
    have hstep := hfilled.partial {} hhead hguard hpreface hfit hbytes (by rw [hlen]; exact hshort)
    have hactive : (stepActiveSlot env {} { recvBuf := head.take n }).1 = stepRecvRequest env {} { recvBuf := head.take n } :=
      stepActive_recv rfl rfl rfl
    generalize hr : stepRecvRequest env {} { recvBuf := head.take n } = r at hstep hactive
    cases hstep with
    | gone hempty _ _ =>
      rw [show head.take n = [] from hempty] at hend
      cases hend
    | wait h => exact absurd (h rfl hend) hfree
    | refused _ _ hverdict _ =>
      have hnow := (hjudged { recvBuf := head.take n } rfl rfl (by rw [hlen]; omega) [] {} rfl rfl rfl).2 hbytes
      refine hnow _ ?_
      change (stepActiveSlot env {} { recvBuf := head.take n }).1.verdict = _
      rw [hactive]
      exact hverdict head
    | read line _ _ _ hline hmethod =>
      have hone : (receiveStep env ⟨{ recvBuf := head.take n }, head.take n⟩ (.step {})).1 =
          ⟨({ recvBuf := head.take n } : H1Conn).adoptLine env.profile line, head.take n⟩ := by
        unfold receiveStep
        dsimp only
        rw [if_pos rfl, hactive]
      have htwo : (receiveStep env ⟨({ recvBuf := head.take n } : H1Conn).adoptLine env.profile line, head.take n⟩
          (.frame (head.drop n))).1 =
          ⟨{ ({ recvBuf := head.take n } : H1Conn).adoptLine env.profile line with recvBuf := head }, head⟩ := by
        have hsum : (head.take n).length + (head.drop n).length ≤ env.profile.recvBufSize := by
          rw [← length_append, take_append_drop]
          exact hfit
        rw [receive_frame rfl hsum]
        dsimp only [H1Conn.adoptLine]
        rw [take_append_drop]
      have hrun : ((receiveMachine env).run ⟨{ recvBuf := head.take n }, head.take n⟩ [.step {}, .frame (head.drop n)]).1 =
          ⟨{ ({ recvBuf := head.take n } : H1Conn).adoptLine env.profile line with recvBuf := head }, head⟩ := by
        change (receiveStep env (receiveStep env _ _).1 _).1 = _
        rw [hone, htwo]
      have hlater := hjudged { recvBuf := head.take n } rfl rfl (by rw [hlen]; omega) [.step {}, .frame (head.drop n)] {}
      dsimp only at hlater
      rw [hrun] at hlater
      have hv := (hlater rfl rfl rfl).1 prefix_rfl
      rw [stepActive_recv rfl rfl rfl,
        step_parsed hhead prefix_rfl rfl fun _ => hpreface] at hv
      rw [lineVerdict, hline]
      dsimp only
      rw [if_neg hmethod]
      exact Option.some.inj hv
  · have htake : head <+: (head ++ more).take n := by
      rw [take_append, take_of_length_le hlong]
      exact prefix_append _ _
    have hfilled : Filled env { recvBuf := (head ++ more).take n } ((head ++ more).take n) := ⟨rfl, nofun⟩
    have hv := (hjudged { recvBuf := (head ++ more).take n } rfl rfl (by rw [hlen]; omega) [] {} rfl rfl rfl).1 htake
    have hheld := heldBack_of_along hhead hguard htake
    have hplain := Follows.plain hhead hguard hpreface (.inl htake)
    change (stepActiveSlot env {} { recvBuf := (head ++ more).take n }).1.verdict = some v at hv
    rw [stepActive_recv rfl rfl rfl, step_whole hhead htake rfl hheld hplain] at hv
    exact Option.some.inj hv

end Runs

/-- What is made of a head is the same for every cut exactly when the preface does not hold it back and its line is
settled. -/
theorem request_outcome_iff (env : H1Env) (head : Bytes)
    (htokens : ∀ token, CR ∈ token → env.sdk.methodFromToken token = .none) (hhead : wholeHead head = some head)
    (hfit : head.length ≤ env.profile.recvBufSize) (hpreface : ¬ PREFACE <+: head) :
    (∃ v, Judged env head v) ↔ ¬ HeldBack env head ∧ LineSettled env head := by
  constructor
  · rintro ⟨v, hv⟩
    have hguard : ¬ HeldBack env head := by
      intro hheld
      have hne : head ≠ [] := ne_nil_of_length_pos (by have := (lineEnd_of_whole hhead).2; omega)
      have hstay : stepRecvRequest env {} { recvBuf := head } = { recvBuf := head } := by
        unfold stepRecvRequest
        rw [if_neg hne, hheld.1, if_pos]
        simp [hheld.2.1, hheld.2.2]
      have hnow := (hv { recvBuf := head } rfl rfl hfit [] {} rfl rfl rfl).1 prefix_rfl
      change (stepActiveSlot env {} { recvBuf := head }).1.verdict = some v at hnow
      rw [stepActive_recv rfl rfl rfl, hstay] at hnow
      cases hnow
    refine ⟨hguard, settled_of_verdict (v := v) htokens hhead hfit hguard fun more n hfirst hn hroom => ?_⟩
    exact same_of_judged hhead hguard hpreface hfit hv more hfirst hn hroom
  · rintro ⟨hguard, hset⟩
    obtain ⟨v, hsame⟩ := verdict_settled hhead hguard hset
    exact ⟨v, judged_of_settled hhead hguard hpreface hfit hsame⟩

theorem sampleSdk_tokens (token : Bytes) (h : CR ∈ token) : sampleSdk.methodFromToken token = .none := by
  have hne : ∀ known : Bytes, CR ∉ known → token ≠ known := fun known hknown heq => hknown (heq ▸ h)
  unfold sampleSdk
  dsimp only
  rw [if_neg (hne _ (by decide)), if_neg (hne _ (by decide)), if_neg (hne _ (by decide)), if_neg (hne _ (by decide)),
    if_neg (hne _ (by decide)), if_neg (hne _ (by decide)), if_neg (hne _ (by decide)), if_neg (hne _ (by decide))]

def plainGet : Bytes := ascii "GET /a HTTP/1.1\r\nHost: a\r\n\r\n"

theorem plain_get_judged : ∃ v, Judged sampleEnv plainGet v :=
  (request_outcome_iff sampleEnv plainGet sampleSdk_tokens (by decide) (by decide) (by decide)).mpr (by decide)

def shortPut : Bytes := ascii "PUT / HTTP/1.1\r\n\r\n"

def bareLine : Bytes := ascii "GET /\r\n"

def bareRequest : Bytes := bareLine ++ ascii "Host: a\r\n\r\n"

/-- The short request is left waiting; the bare one depends on the cut. -/
theorem short_put_waits :
    (wholeHead shortPut = some shortPut ∧ ¬ PREFACE <+: shortPut ∧
      (stepActiveSlot sampleEnv {} { recvBuf := shortPut }).1 = { recvBuf := shortPut }) ∧
    (wholeHead bareRequest = some bareRequest ∧
      ((receiveMachine sampleEnv).run ⟨{}, []⟩ [.frame bareLine, .step {}]).1.conn.phase = .drainSend ∧
      ((receiveMachine sampleEnv).run ⟨{}, []⟩ [.frame bareRequest, .step {}]).1.conn.phase = .dispatchRoute) := by
  decide +kernel

end Wave.Http
