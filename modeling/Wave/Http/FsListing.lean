import Wave.Lib.Json
import Wave.Common.RouteHost

/-! # The listing of a directory (`http/server/h1.rs`, `Phase::FsList`)

The names of a directory are written into a window of `FS_LIST_BODY_MAX` bytes as they come, over as many steps as the
provider needs. A body that is answered is the list exactly when it fits the window and its names are texts
(`listing_answer_iff`). -/

namespace Wave.Http

open Lib Common

def FS_LIST_BODY_MAX : Nat := 2048
def FS_LIST_ROUNDS : Nat := 8
def FS_WAIT_TIMEOUT_TICKS : Nat := 1500
def FS_READDIR_BUF : Nat := 1024
def FS_LIST_PREFIX : Bytes := ascii "\x7b\"items\":["

structure FsBody where
  bytes : Bytes
  items : UInt32

def putByte (c : UInt8) (body : Bytes) : Bytes := if body.length < FS_LIST_BODY_MAX then body ++ [c] else body

/-- The bytes of a name: quotes and backslashes are escaped, everything else passes through. -/
def copyName : Bytes → Bytes → Bytes
  | [], body => body
  | c :: name, body =>
    if body.length + 2 < FS_LIST_BODY_MAX then
      copyName name (body ++ if c = 0x22 ∨ c = 0x5c then [0x5c, c] else [c])
    else body

def appendName (s : FsBody) (name : Bytes) : FsBody :=
  let body := if s.items ≠ 0 then putByte 0x2c s.bytes else s.bytes
  { bytes := putByte 0x22 (copyName name (putByte 0x22 body))
    items := if s.items = 0xffffffff then s.items else s.items + 1 }

def passesFilter (filter name : Bytes) : Bool :=
  filter = [] || (filter.splitOn 0x2c).any fun ext =>
    ext ≠ [] && ext.length ≤ name.length &&
      (name.drop (name.length - ext.length)).map toAsciiLowercase = ext.map toAsciiLowercase

/-- The entries of a batch, each with its type; a batch that ends within one ends before it. -/
def batchEntries : Nat → Bytes → List (Bytes × UInt8)
  | count + 1, len :: typ :: rest =>
    if rest.length < len.toNat then []
    else (rest.take len.toNat, typ) :: batchEntries count (rest.drop len.toNat)
  | _, _ => []

def listsEntry (filter : Bytes) (e : Bytes × UInt8) : Bool := e.2 ≠ 1 && passesFilter filter e.1

def batchCount (batch : Bytes) : Nat := (Bytes.u16le (batch.at0 0) (batch.at0 1)).toNat

def fsListAppendBatch (filter : Bytes) (s : FsBody) (batch : Bytes) : Bool × FsBody :=
  if batch.length < 2 then (false, s)
  else if batchCount batch = 0 then (false, s)
  else
    (true, (batchEntries (batchCount batch) (batch.drop 2)).foldl
      (fun s e => if listsEntry filter e then appendName s e.1 else s) s)

inductive FsAnswer where
  | pending
  | error
  | batch (bytes : Bytes)

inductive FsListPhase where
  | list
  | refused (status text : String)
  | answered (body : Bytes)
  | closeConn
deriving DecidableEq

structure FsWalk where
  phase : FsListPhase := .list
  isOpen : Bool := true
  body : FsBody := ⟨FS_LIST_PREFIX, 0⟩
  ticks : Nat := 0

inductive RoundsEnd where
  | more
  | pending
  | failed
  | drained
deriving DecidableEq

/-- The calls of one step, and the answers that are left; where the provider has none yet it answers pending. -/
def fsListRounds (filter : Bytes) : Nat → FsBody → List FsAnswer → RoundsEnd × FsBody × List FsAnswer
  | 0, s, answers => (.more, s, answers)
  | _ + 1, s, [] => (.pending, s, [])
  | _ + 1, s, .pending :: answers => (.pending, s, answers)
  | _ + 1, s, .error :: answers => (.failed, s, answers)
  | n + 1, s, .batch bytes :: answers =>
    let r := fsListAppendBatch filter s (bytes.take FS_READDIR_BUF)
    if r.1 then fsListRounds filter n r.2 answers else (.drained, r.2, answers)

def stepFsList (filter : Bytes) (w : FsWalk) (answers : List FsAnswer) : FsWalk × List FsAnswer :=
  if !w.isOpen then ({ w with phase := .closeConn }, answers)
  else
    let r := fsListRounds filter FS_LIST_ROUNDS w.body answers
    let w := { w with body := r.2.1 }
    match r.1 with
    | .pending =>
      let w := { w with ticks := min (w.ticks + 1) 65535 }
      if w.ticks ≥ FS_WAIT_TIMEOUT_TICKS then
        ({ w with
          isOpen := false
          phase := .refused "504 Gateway Timeout" "Directory listing did not complete\n" }, r.2.2)
      else (w, r.2.2)
    | .failed =>
      ({ w with isOpen := false, phase := .refused "500 Internal Server Error" "Directory read failed\n" }, r.2.2)
    | .more => (w, r.2.2)
    | .drained =>
      ({ w with isOpen := false, phase := .answered (putByte 0x7d (putByte 0x5d w.body.bytes)) }, r.2.2)

def runFsList (filter : Bytes) : Nat → FsWalk × List FsAnswer → FsWalk × List FsAnswer
  | 0, s => s
  | n + 1, s => runFsList filter n (if s.1.phase = .list then stepFsList filter s.1 s.2 else s)

def FsAnswer.ends : FsAnswer → Bool
  | .batch bytes => (bytes.take FS_READDIR_BUF).length < 2 || batchCount (bytes.take FS_READDIR_BUF) = 0
  | .pending | .error => false

def FsAnswer.names (filter : Bytes) : FsAnswer → List Bytes
  | .batch bytes =>
    ((batchEntries (batchCount (bytes.take FS_READDIR_BUF)) ((bytes.take FS_READDIR_BUF).drop 2)).filter
      (listsEntry filter)).map (·.1)
  | .pending | .error => []

def listed (filter : Bytes) (answers : List FsAnswer) : List Bytes :=
  (answers.takeWhile fun a => !a.ends).flatMap (FsAnswer.names filter)

def ITEMS : Bytes := ascii "items"

def listFront (names : List Bytes) : Bytes := FS_LIST_PREFIX ++ Json.joined names

theorem listText_front (names : List Bytes) : Json.listText ITEMS names = listFront names ++ [0x5d, 0x7d] := by
  have hprefix : FS_LIST_PREFIX = 0x7b :: (Json.quoted ITEMS ++ [0x3a, 0x5b]) := by decide
  rw [listFront, hprefix, Json.listText]
  simp

theorem listFront_concat (names : List Bytes) (name : Bytes) :
    listFront (names ++ [name]) = listFront names ++ ((if names = [] then [] else [0x2c]) ++ Json.quoted name) := by
  have hjoined : Json.joined (names ++ [name]) =
      Json.joined names ++ ((if names = [] then [] else [0x2c]) ++ Json.quoted name) := by
    induction names with
    | nil => exact intercalate_singleton
    | cons first names ih =>
      cases names with
      | nil => simp [Json.joined]
      | cons second names =>
        rw [if_neg (cons_ne_nil _ _)] at ih ⊢
        simp only [Json.joined, cons_append, map_cons, List.intercalate_cons_cons, append_assoc] at ih ⊢
        rw [ih]
  rw [listFront, hjoined, listFront, append_assoc]

structure Overrun (body : Bytes) : Prop where
  least : FS_LIST_BODY_MAX - 1 ≤ body.length
  most : body.length ≤ FS_LIST_BODY_MAX
  last : body.getLast? = some 0x22 ∨ body.getLast? = some 0x2c

/-- The window has the names whole and room for the end, or it has no room and they do not fit. -/
structure Listing (names : List Bytes) (s : FsBody) : Prop where
  items : s.items = 0 ↔ names = []
  bytes : (s.bytes = listFront names ∧ (listFront names).length ≤ FS_LIST_BODY_MAX - 2) ∨
    (Overrun s.bytes ∧ FS_LIST_BODY_MAX - 2 < (listFront names).length)

theorem Overrun.put {body : Bytes} (h : Overrun body) {c : UInt8} (hc : c = 0x22 ∨ c = 0x2c) :
    Overrun (putByte c body) := by
  unfold putByte
  split
  next hroom =>
    have hleast := h.least
    refine ⟨?_, ?_, ?_⟩
    · rw [length_append]
      omega
    · rw [length_append, length_singleton]
      exact hroom
    · rw [List.getLast?_append, List.getLast?_singleton]
      exact hc.imp (congrArg some) (congrArg some)
  · exact h

theorem copyName_cases (name : Bytes) {body : Bytes} (h : body.length ≤ FS_LIST_BODY_MAX) :
    (copyName name body = body ∨ (copyName name body).length ≤ FS_LIST_BODY_MAX - 1) ∧
      (copyName name body = body ++ name.flatMap Json.escapeByte ∨
        (FS_LIST_BODY_MAX - 2 ≤ (copyName name body).length ∧
          (copyName name body).length < (body ++ name.flatMap Json.escapeByte).length)) := by
  have hmax : FS_LIST_BODY_MAX = 2048 := rfl
  induction name generalizing body with
  | nil => exact ⟨.inl rfl, .inl (append_nil body).symm⟩
  | cons c name ih =>
    have hone : 1 ≤ (Json.escapeByte c).length ∧ (Json.escapeByte c).length ≤ 2 := by
      unfold Json.escapeByte
      split
      · exact ⟨Nat.le_succ 1, le_rfl⟩
      · exact ⟨le_rfl, Nat.le_succ 1⟩
    rw [copyName, flatMap_cons, ← append_assoc]
    split
    next hroom =>
      have hfits : (body ++ Json.escapeByte c).length ≤ FS_LIST_BODY_MAX := by
        rw [length_append]
        omega
      obtain ⟨hmost, hwhole⟩ := ih hfits
      refine ⟨.inr ?_, hwhole⟩
      rcases hmost with hsame | hmost
      · rw [← Json.escapeByte, hsame, length_append]
        omega
      · exact hmost
    next hroom =>
      refine ⟨.inl rfl, .inr ⟨by omega, ?_⟩⟩
      rw [length_append, length_append]
      omega

theorem listing_start : Listing [] ⟨FS_LIST_PREFIX, 0⟩ :=
  ⟨iff_of_true rfl rfl, .inl ⟨by rw [listFront]; exact (append_nil _).symm, by decide⟩⟩

theorem items_next (n : UInt32) : (if n = 0xffffffff then n else n + 1) ≠ 0 := by
  split
  next h => rw [h]; decide
  next h =>
    intro hzero
    have hvalue := congrArg UInt32.toNat hzero
    have hne : n.toNat ≠ 4294967295 := fun heq => h (UInt32.toNat.inj heq)
    have hlt := n.toNat_lt
    rw [UInt32.toNat_add] at hvalue
    change (n.toNat + 1) % 4294967296 = 0 at hvalue
    omega

theorem listing_append {names : List Bytes} {s : FsBody} (h : Listing names s) (name : Bytes) :
    Listing (names ++ [name]) (appendName s name) := by
  have hmax : FS_LIST_BODY_MAX = 2048 := rfl
  have hitems : (appendName s name).items = 0 ↔ names ++ [name] = [] :=
    iff_of_false (items_next s.items) (append_ne_nil_of_right_ne_nil _ (cons_ne_nil _ _))
  refine ⟨hitems, ?_⟩
  unfold appendName
  dsimp only
  rcases h.bytes with ⟨hbytes, hroom⟩ | ⟨hfull, hlong⟩
  · -- the comma and the first quote have room
    have hsep : (if s.items ≠ 0 then putByte 0x2c s.bytes else s.bytes) =
        listFront names ++ if names = [] then [] else [0x2c] := by
      rw [hbytes]
      by_cases hnil : names = []
      · rw [if_neg (not_not.mpr (h.items.mpr hnil)), if_pos hnil, append_nil]
      · rw [if_pos (mt h.items.mp hnil), if_neg hnil]
        exact if_pos (by omega)
    have hseplen : (if names = [] then [] else [0x2c] : Bytes).length ≤ 1 := by
      split
      · exact Nat.zero_le _
      · exact le_rfl
    have hopen : putByte 0x22 (listFront names ++ if names = [] then [] else [0x2c]) =
        (listFront names ++ if names = [] then [] else [0x2c]) ++ [0x22] :=
      if_pos (by rw [length_append]; omega)
    have hopenlen : ((listFront names ++ if names = [] then [] else [0x2c]) ++ [0x22]).length ≤ FS_LIST_BODY_MAX := by
      rw [length_append, length_append, length_singleton]
      omega
    have hnext : listFront (names ++ [name]) =
        ((listFront names ++ if names = [] then [] else [0x2c]) ++ [0x22]) ++ name.flatMap Json.escapeByte ++ [0x22] := by
      rw [listFront_concat, Json.quoted]
      simp
    rw [hsep, hopen, hnext]
    generalize hstart : (listFront names ++ if names = [] then [] else [0x2c]) ++ [0x22] = start at hopenlen
    have hquote : start.getLast? = some 0x22 := by rw [← hstart, List.getLast?_concat]
    obtain ⟨hmost, hwhole⟩ := copyName_cases name hopenlen
    have hlen : (copyName name start).length ≤ FS_LIST_BODY_MAX := by
      rcases hmost with hsame | hmost
      · rw [hsame]
        exact hopenlen
      · omega
    have hlast : ∀ body, (body = start ∧ body.length = FS_LIST_BODY_MAX) ∨ body.length ≤ FS_LIST_BODY_MAX - 1 →
        FS_LIST_BODY_MAX - 2 ≤ body.length → Overrun (putByte 0x22 body) := by
      intro body hbody hleast
      unfold putByte
      split
      next hlt =>
        refine ⟨?_, ?_, .inl List.getLast?_concat⟩
        · rw [length_append, length_singleton]
          omega
        · rw [length_append, length_singleton]
          exact hlt
      next hnot =>
        rcases hbody with ⟨rfl, hbody⟩ | hbody
        · exact ⟨by omega, by omega, .inl hquote⟩
        · omega
    have hend : (copyName name start = start ∧ (copyName name start).length = FS_LIST_BODY_MAX) ∨
        (copyName name start).length ≤ FS_LIST_BODY_MAX - 1 := by
      rcases hmost with hsame | hmost
      · rw [hsame]
        rcases Nat.lt_or_ge start.length FS_LIST_BODY_MAX with hlt | hge
        · exact .inr (by omega)
        · exact .inl ⟨rfl, by omega⟩
      · exact .inr hmost
    rcases hwhole with hwhole | ⟨hcut, hless⟩
    · by_cases hfits : (start ++ name.flatMap Json.escapeByte ++ [0x22]).length ≤ FS_LIST_BODY_MAX - 2
      · left
        refine ⟨?_, hfits⟩
        rw [hwhole]
        exact if_pos (by rw [length_append, length_singleton] at hfits; omega)
      · right
        rw [length_append, length_singleton] at hfits
        refine ⟨hlast _ hend (by rw [hwhole]; omega), ?_⟩
        rw [length_append, length_singleton]
        omega
    · right
      refine ⟨hlast _ hend hcut, ?_⟩
      have hquoted := (prefix_append (start ++ name.flatMap Json.escapeByte) [0x22]).length_le
      omega
  · right
    have hsep : Overrun (if s.items ≠ 0 then putByte 0x2c s.bytes else s.bytes) := by
      split
      · exact hfull.put (.inr rfl)
      · exact hfull
    have hopen := hsep.put (c := 0x22) (.inl rfl)
    have hcopy : copyName name (putByte 0x22 (if s.items ≠ 0 then putByte 0x2c s.bytes else s.bytes)) =
        putByte 0x22 (if s.items ≠ 0 then putByte 0x2c s.bytes else s.bytes) := by
      have hleast := hopen.least
      cases name with
      | nil => rfl
      | cons c name => exact if_neg (by omega)
    rw [hcopy]
    refine ⟨hopen.put (.inl rfl), ?_⟩
    rw [listFront_concat, length_append]
    omega

theorem listing_entries {filter : Bytes} {names : List Bytes} {s : FsBody} (h : Listing names s)
    (entries : List (Bytes × UInt8)) :
    Listing (names ++ (entries.filter (listsEntry filter)).map (·.1))
      (entries.foldl (fun s e => if listsEntry filter e then appendName s e.1 else s) s) := by
  induction entries generalizing names s with
  | nil =>
    rw [List.filter_nil, map_nil, append_nil]
    exact h
  | cons e entries ih =>
    rw [foldl_cons]
    by_cases he : listsEntry filter e = true
    · rw [if_pos he, List.filter_cons_of_pos he, map_cons, append_cons]
      exact ih (listing_append h e.1)
    · rw [if_neg he, List.filter_cons_of_neg he]
      exact ih h

theorem append_more (filter : Bytes) {bytes : Bytes} {names : List Bytes} {s : FsBody} (h : Listing names s)
    (hends : (FsAnswer.batch bytes).ends = false) :
    ∃ t, fsListAppendBatch filter s (bytes.take FS_READDIR_BUF) = (true, t) ∧
      Listing (names ++ (FsAnswer.batch bytes).names filter) t := by
  rw [FsAnswer.ends, Bool.or_eq_false_iff, decide_eq_false_iff_not, decide_eq_false_iff_not] at hends
  refine ⟨_, ?_, listing_entries h _⟩
  rw [fsListAppendBatch, if_neg hends.1, if_neg hends.2]

theorem append_drained {filter bytes : Bytes} {s : FsBody} (hends : (FsAnswer.batch bytes).ends = true) :
    fsListAppendBatch filter s (bytes.take FS_READDIR_BUF) = (false, s) := by
  rw [FsAnswer.ends, Bool.or_eq_true, decide_eq_true_eq, decide_eq_true_eq] at hends
  unfold fsListAppendBatch
  split
  · rfl
  next hlong => exact if_pos (hends.resolve_left hlong)

theorem rounds_listing (filter : Bytes) (n : Nat) {names : List Bytes} {s : FsBody} (h : Listing names s)
    (answers : List FsAnswer) :
    ∃ front, (∀ a ∈ front, a.ends = false) ∧
      Listing (names ++ front.flatMap (FsAnswer.names filter)) (fsListRounds filter n s answers).2.1 ∧
      if (fsListRounds filter n s answers).1 = .drained then
        ∃ e, e.ends = true ∧ answers = front ++ e :: (fsListRounds filter n s answers).2.2
      else answers = front ++ (fsListRounds filter n s answers).2.2 := by
  have hnone : Listing (names ++ [].flatMap (FsAnswer.names filter)) s := by
    rw [flatMap_nil, append_nil]
    exact h
  induction n generalizing names s answers with
  | zero => exact ⟨[], nofun, hnone, rfl⟩
  | succ n ih =>
    match answers with
    | [] => exact ⟨[], nofun, hnone, rfl⟩
    | .pending :: answers => exact ⟨[.pending], forall_mem_singleton.mpr rfl, hnone, rfl⟩
    | .error :: answers => exact ⟨[.error], forall_mem_singleton.mpr rfl, hnone, rfl⟩
    | .batch bytes :: answers =>
      cases hends : (FsAnswer.batch bytes).ends with
      | true =>
        refine ⟨[], nofun, ?_⟩
        simp only [fsListRounds, append_drained hends, Bool.false_eq_true, if_false]
        exact ⟨hnone, .batch bytes, hends, rfl⟩
      | false =>
        obtain ⟨t, happend, ht⟩ := append_more filter h hends
        obtain ⟨front, hfront, hlisting, htaken⟩ := ih ht answers (by
          rw [flatMap_nil, append_nil]
          exact ht)
        refine ⟨.batch bytes :: front, forall_mem_cons.mpr ⟨hends, hfront⟩, ?_⟩
        simp only [fsListRounds, happend, if_true]
        rw [flatMap_cons, ← append_assoc]
        refine ⟨hlisting, ?_⟩
        split at htaken
        next hdrained =>
          rw [if_pos hdrained]
          obtain ⟨e, he, htaken⟩ := htaken
          exact ⟨e, he, congrArg (FsAnswer.batch bytes :: ·) htaken⟩
        next hnot =>
          rw [if_neg hnot]
          exact congrArg (FsAnswer.batch bytes :: ·) htaken

/-- A walk that goes on has listed what it was answered; one that is answered has listed the directory. -/
structure Walked (filter : Bytes) (all : List FsAnswer) (s : FsWalk × List FsAnswer) : Prop where
  going : s.1.phase = .list → ∃ past, (∀ a ∈ past, a.ends = false) ∧ all = past ++ s.2 ∧
    Listing (past.flatMap (FsAnswer.names filter)) s.1.body
  answered : ∀ body, s.1.phase = .answered body →
    ∃ t, Listing (listed filter all) t ∧ body = putByte 0x7d (putByte 0x5d t.bytes)

theorem walked_start (filter : Bytes) (all : List FsAnswer) : Walked filter all ({}, all) :=
  ⟨fun _ => ⟨[], nofun, rfl, listing_start⟩, nofun⟩

theorem walked_step {filter : Bytes} {all : List FsAnswer} {w : FsWalk} {answers : List FsAnswer}
    (h : Walked filter all (w, answers)) (hphase : w.phase = .list) :
    Walked filter all (stepFsList filter w answers) := by
  obtain ⟨past, hpast, rfl, hlisting⟩ := h.going hphase
  obtain ⟨front, hfront, hbody, htaken⟩ := rounds_listing filter FS_LIST_ROUNDS hlisting answers
  have hall : ∀ a ∈ past ++ front, a.ends = false := forall_mem_append.mpr ⟨hpast, hfront⟩
  rw [← flatMap_append] at hbody
  unfold stepFsList
  split
  · exact ⟨nofun, nofun⟩
  dsimp only
  generalize fsListRounds filter FS_LIST_ROUNDS w.body answers = r at hbody htaken
  obtain ⟨e, t, rest⟩ := r
  dsimp only at hbody htaken ⊢
  have hgoing : e ≠ .drained → past ++ answers = (past ++ front) ++ rest := fun he => by
    rw [if_neg he] at htaken
    rw [htaken, append_assoc]
  cases e with
  | more => exact ⟨fun _ => ⟨_, hall, hgoing nofun, hbody⟩, fun body hbody => by rw [hphase] at hbody; cases hbody⟩
  | pending =>
    dsimp only
    split
    · exact ⟨nofun, nofun⟩
    · exact ⟨fun _ => ⟨_, hall, hgoing nofun, hbody⟩, fun body hbody => by rw [hphase] at hbody; cases hbody⟩
  | failed => exact ⟨nofun, nofun⟩
  | drained =>
    refine ⟨nofun, fun body hanswered => ?_⟩
    cases hanswered
    rw [if_pos rfl] at htaken
    obtain ⟨e, he, rfl⟩ := htaken
    refine ⟨t, ?_, rfl⟩
    have hlisted : listed filter (past ++ (front ++ e :: rest)) = (past ++ front).flatMap (FsAnswer.names filter) := by
      rw [listed, ← append_assoc]
      exact congrArg _ (takeWhile_stop (fun a ha => by rw [hall a ha]; rfl) (by rw [he]; rfl))
    rw [hlisted]
    exact hbody

theorem walked_run {filter : Bytes} {all : List FsAnswer} (n : Nat) {s : FsWalk × List FsAnswer}
    (h : Walked filter all s) : Walked filter all (runFsList filter n s) := by
  induction n generalizing s with
  | zero => exact h
  | succ n ih =>
    rw [runFsList]
    split
    next hphase => exact ih (walked_step h hphase)
    · exact ih h

theorem answer_cases {names : List Bytes} {s : FsBody} (h : Listing names s) :
    (putByte 0x7d (putByte 0x5d s.bytes) = Json.listText ITEMS names ∧
      (Json.listText ITEMS names).length ≤ FS_LIST_BODY_MAX) ∨
    ((putByte 0x7d (putByte 0x5d s.bytes)).getLast? ≠ some 0x7d ∧
      (∀ b ∈ (putByte 0x7d (putByte 0x5d s.bytes)).getLast?, Json.isSpace b = false) ∧
      FS_LIST_BODY_MAX < (Json.listText ITEMS names).length) := by
  have hmax : FS_LIST_BODY_MAX = 2048 := rfl
  have hlength : (Json.listText ITEMS names).length = (listFront names).length + 2 := by
    rw [listText_front, length_append]
    rfl
  rcases h.bytes with ⟨hbytes, hroom⟩ | ⟨hfull, hlong⟩
  · left
    have hbracket : putByte 0x5d s.bytes = listFront names ++ [0x5d] := by
      rw [hbytes]
      exact if_pos (by omega)
    have hbrace : putByte 0x7d (listFront names ++ [0x5d]) = listFront names ++ [0x5d] ++ [0x7d] :=
      if_pos (by rw [length_append, length_singleton]; omega)
    rw [hbracket, hbrace, listText_front, append_assoc]
    refine ⟨rfl, ?_⟩
    rw [← listText_front]
    omega
  · right
    have hleast := hfull.least
    have hbracket : FS_LIST_BODY_MAX ≤ (putByte 0x5d s.bytes).length := by
      unfold putByte
      split
      · rw [length_append, length_singleton]
        omega
      · omega
    have hbrace : putByte 0x7d (putByte 0x5d s.bytes) = putByte 0x5d s.bytes := if_neg (by omega)
    have hlast : (putByte 0x5d s.bytes).getLast? = some 0x5d ∨ (putByte 0x5d s.bytes).getLast? = some 0x22 ∨
        (putByte 0x5d s.bytes).getLast? = some 0x2c := by
      unfold putByte
      split
      · exact .inl List.getLast?_concat
      · exact .inr hfull.last
    rw [hbrace]
    refine ⟨?_, ?_, by omega⟩
    · rcases hlast with h | h | h <;> rw [h] <;> decide
    · intro b hb
      rcases hlast with h | h | h <;> rw [h] at hb <;> cases hb <;> rfl

theorem stringList_cut {key body : Bytes} (hbrace : body.getLast? ≠ some 0x7d)
    (hspace : ∀ b ∈ body.getLast?, Json.isSpace b = false) : Json.stringList key body = none := by
  cases h : Json.stringList key body with
  | none => rfl
  | some values =>
    obtain ⟨space, ⟨front, rfl⟩, hall⟩ := Json.stringList_suffix h
    rcases eq_nil_or_concat space with rfl | ⟨space, b, hconcat⟩
    · exact absurd List.getLast?_concat hbrace
    · rw [concat_eq_append] at hconcat
      subst hconcat
      have hlast : (front ++ 0x7d :: (space ++ [b])).getLast? = some b := by
        rw [← cons_append, ← append_assoc]
        exact List.getLast?_concat
      have hb := all_eq_true.mp hall b (by simp)
      rw [hspace b hlast] at hb
      cases hb

/-- What a walk answers is the list exactly when it fits the window and every name is a text without control
characters. -/
theorem listing_answer_iff (filter : Bytes) (answers : List FsAnswer) (n : Nat) (body : Bytes)
    (h : (runFsList filter n ({}, answers)).1.phase = .answered body) :
    (Json.IsUtf8 body ∧ Json.stringList ITEMS body = some (listed filter answers)) ↔
      (Json.listText ITEMS (listed filter answers)).length ≤ FS_LIST_BODY_MAX ∧
        ∀ name ∈ listed filter answers, Json.Plain name ∧ Json.IsUtf8 name := by
  obtain ⟨s, hlisting, rfl⟩ := (walked_run n (walked_start filter answers)).answered body h
  rcases answer_cases hlisting with ⟨hwhole, hfits⟩ | ⟨hbrace, hspace, hlong⟩
  · have hitems : Json.IsUtf8 ITEMS := ⟨['i', 't', 'e', 'm', 's'], rfl⟩
    rw [hwhole, Json.isUtf8_listText hitems, Json.stringList_text (by decide +kernel), and_iff_right hfits]
    constructor
    · rintro ⟨hutf8, hread⟩
      split at hread
      next hplain => exact fun name hname => ⟨hplain name hname, hutf8 name hname⟩
      · cases hread
    · intro hall
      exact ⟨fun name hname => (hall name hname).2, if_pos fun name hname => (hall name hname).1⟩
  · rw [stringList_cut hbrace hspace]
    exact iff_of_false (fun hread => nomatch hread.2) (fun hfits => absurd hfits.1 (by omega))

def oneFile : List FsAnswer := [.batch [1, 0, 1, 0, 0x61], .pending, .batch []]

theorem listing_answer_one :
    Json.IsUtf8 (Json.listText ITEMS [[0x61]]) ∧
      Json.stringList ITEMS (Json.listText ITEMS [[0x61]]) = some (listed [] oneFile) :=
  (listing_answer_iff [] oneFile 2 (Json.listText ITEMS [[0x61]]) (by decide +kernel)).mpr
    ⟨by decide +kernel, fun name hname => by
      have hlisted : listed [] oneFile = [[0x61]] := by decide
      rw [hlisted, mem_singleton] at hname
      rw [hname]
      exact ⟨by decide +kernel, ['a'], rfl⟩⟩

def longNames : List FsAnswer := List.replicate 9 (FsAnswer.batch ([1, 0, 255, 0] ++ List.replicate 255 0x61)) ++ [FsAnswer.batch []]

def feedName : List FsAnswer := [.batch [1, 0, 1, 0, 0x0a], .batch []]

def FsListPhase.answer : FsListPhase → Option Bytes
  | .answered body => some body
  | .list | .refused _ _ | .closeConn => none

theorem FsListPhase.of_answer {phase : FsListPhase} (h : phase.answer.isSome = true) :
    ∃ body, phase = .answered body := by
  cases phase with
  | answered body => exact ⟨body, rfl⟩
  | list | refused | closeConn => cases h

/-- Both are answered, and neither with an object. -/
theorem listing_answers_broken :
    (∃ body, (runFsList [] 2 ({}, longNames)).1.phase = .answered body ∧ Json.stringList ITEMS body = none) ∧
      ∃ body, (runFsList [] 1 ({}, feedName)).1.phase = .answered body ∧ Json.stringList ITEMS body = none := by
  have hlong : ((runFsList [] 2 ({}, longNames)).1.phase.answer.isSome = true ∧
      FS_LIST_BODY_MAX < (Json.listText ITEMS (listed [] longNames)).length) ∧
      (runFsList [] 1 ({}, feedName)).1.phase = .answered (Json.listText ITEMS [[0x0a]]) := by decide +kernel
  obtain ⟨⟨hsome, hlong⟩, hfeed⟩ := hlong
  refine ⟨?_, _, hfeed, ?_⟩
  · obtain ⟨body, hanswered⟩ := FsListPhase.of_answer hsome
    refine ⟨body, hanswered, ?_⟩
    obtain ⟨s, hlisting, hbody⟩ := (walked_run 2 (walked_start [] longNames)).answered body hanswered
    rcases answer_cases hlisting with ⟨-, hfits⟩ | ⟨hbrace, hspace, -⟩
    · exact absurd hfits (Nat.not_le.mpr hlong)
    · rw [hbody]
      exact stringList_cut hbrace hspace
  · exact (Json.stringList_text (by decide +kernel) [[0x0a]]).trans (if_neg (by decide +kernel))

end Wave.Http
