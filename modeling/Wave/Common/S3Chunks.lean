import Wave.Common.S3Chunked

/-! # The chunks of an `aws-chunked` body

A decoder has read a chain of signed chunks and the beginning of another one (`Decoded`). -/

namespace Wave.Common

open Lib Lib.Feed

variable {chunks : List S3Chunk}

structure S3Chunk where
  digits : Bytes
  sig : Bytes
  data : Bytes

def chunkHead (digits sig : Bytes) : Bytes := digits ++ (S3_CHUNK_SIG ++ (sig ++ CRLF))

namespace S3Chunk

def wire (c : S3Chunk) : Bytes := chunkHead c.digits c.sig ++ (c.data ++ CRLF)

structure Framed (c : S3Chunk) : Prop where
  sig : c.sig.length = 64
  digits : 0 < c.digits.length ∧ c.digits.length ≤ 16
  size : chunkSizeOf c.digits = some c.data.length

def signed (sha256 : Sha256) (key : S3ChunkKey) (previous data : Bytes) : Bytes :=
  sv4ChunkSignature sha256 key.signingKey key.amzDate key.scopeDate key.region key.service previous (sha256 data)

/-- Each signature is the one over its chunk's data, chained from the one in front. -/
def Chained (sha256 : Sha256) (key : S3ChunkKey) : Bytes → List S3Chunk → Prop
  | _, [] => True
  | previous, c :: chunks => c.sig = signed sha256 key previous c.data ∧ Chained sha256 key c.sig chunks

def chainEnd (seed : Bytes) (chunks : List S3Chunk) : Bytes := chunks.foldl (fun _ c => c.sig) seed

variable {sha256 : Sha256} {key : S3ChunkKey} {c : S3Chunk}

theorem chained_concat {seed : Bytes} :
    Chained sha256 key seed (chunks ++ [c]) ↔
      Chained sha256 key seed chunks ∧ c.sig = signed sha256 key (chainEnd seed chunks) c.data := by
  induction chunks generalizing seed with
  | nil => exact and_comm
  | cons d chunks ih => rw [cons_append, Chained, ih, Chained, and_assoc]; rfl

theorem chainEnd_concat (seed : Bytes) (chunks : List S3Chunk) : chainEnd seed (chunks ++ [c]) = c.sig := by
  rw [chainEnd, foldl_append]
  rfl

end S3Chunk

theorem chunkSizeOf_digits {digits : Bytes} {size : Nat} (h : chunkSizeOf digits = some size) {b : UInt8}
    (hb : sv4Hexval b = none) : b ∉ digits := by
  have hloop : ∀ (digits : Bytes) (acc : Nat),
      digits.foldlM (fun size c => (sv4Hexval c).map fun d => (size <<< 4) ||| d.toNat) acc = some size → b ∉ digits := by
    intro digits
    induction digits with
    | nil => exact fun _ _ => not_mem_nil
    | cons c digits ih =>
      intro acc h
      rw [foldlM_cons] at h
      obtain ⟨next, hnext, hrest⟩ := bind_eq_some_iff.mp h
      rw [mem_cons, not_or]
      refine ⟨?_, ih next hrest⟩
      rintro rfl
      rw [hb] at hnext
      cases hnext
  exact hloop digits 0 h

theorem chunkLine_iff {line sig : Bytes} {size : Nat} :
    chunkLine line = some (size, sig) ↔
      ∃ digits, line = chunkHead digits sig ∧ sig.length = 64 ∧ (0 < digits.length ∧ digits.length ≤ 16) ∧
        chunkSizeOf digits = some size := by
  constructor
  · intro h
    obtain ⟨body, hbody, h⟩ := bind_eq_some_iff.mp h
    obtain ⟨semi, hsemi, h⟩ := bind_eq_some_iff.mp h
    obtain ⟨sig', hsig, h⟩ := bind_eq_some_iff.mp h
    obtain ⟨hlt, hat, -⟩ := List.findIdx?_eq_some_iff_getElem.mp hsemi
    rw [decide_eq_true_eq] at hat
    rw [List.isSuffixOf?_eq_some_iff_append_eq] at hbody
    rw [List.isPrefixOf?_eq_some_iff_append_eq] at hsig
    split at h
    · cases h
    next hlen =>
      rw [not_not] at hlen
      split at h
      · cases h
      next hrange =>
        obtain ⟨size', hsize, h⟩ := map_eq_some_iff.mp h
        cases h
        have hdigits : (body.take semi).length = semi := by
          rw [length_take]
          omega
        refine ⟨body.take semi, ?_, hlen, by rw [hdigits]; omega, hsize⟩
        rw [← hbody]
        conv_lhs => rw [← take_append_drop semi body, drop_eq_getElem_cons hlt, hat, ← hsig]
        simp [chunkHead, S3_CHUNK_SIG, ascii, append_assoc]
  · rintro ⟨digits, rfl, hlen, hrange, hsize⟩
    have hsemi : (digits ++ (S3_CHUNK_SIG ++ sig)).findIdx? (· = 0x3b) = some digits.length :=
      findIdx?_mark (chunkSizeOf_digits hsize rfl) (ascii "chunk-signature=" ++ sig)
    have hbody : List.isSuffixOf? CRLF (chunkHead digits sig) = some (digits ++ (S3_CHUNK_SIG ++ sig)) := by
      rw [List.isSuffixOf?_eq_some_iff_append_eq]
      simp [chunkHead]
    have hsig : List.isPrefixOf? (ascii "chunk-signature=")
        ((digits ++ (S3_CHUNK_SIG ++ sig)).drop (digits.length + 1)) = some sig := by
      rw [List.isPrefixOf?_eq_some_iff_append_eq, List.drop_length_add_append]
      rfl
    unfold chunkLine
    simp only [hbody, hsemi, hsig, bind_eq_bind, bind_some]
    rw [if_neg (by omega), if_neg (by omega), take_left, hsize]
    rfl

open S3Chunk

/-- The chunks behind a decoder that has been given `seen` and has given `body`, and where it is in the next one. -/
def Decoded (sha256 : Sha256) (key : S3ChunkKey) (seed : Bytes) (s : S3Chunked) (seen body : Bytes) : Prop :=
  ∃ chunks, Chained sha256 key seed chunks ∧ (∀ c ∈ chunks, c.Framed) ∧ s.prevSig = chainEnd seed chunks ∧
    s.decoded = UInt64.ofNat body.length ∧
    match s.state with
    | .line =>
      (∀ c ∈ chunks, c.data ≠ []) ∧ (s.hash = [] ∧ s.last = false) ∧ seen = chunks.flatMap wire ++ s.line ∧
        body = chunks.flatMap (·.data)
    | .data =>
      (∀ c ∈ chunks, c.data ≠ []) ∧ (s.line = [] ∧ s.last = false ∧ 0 < s.remaining) ∧
        ∃ digits, s.expectSig.length = 64 ∧ (0 < digits.length ∧ digits.length ≤ 16) ∧
          chunkSizeOf digits = some (s.hash.length + s.remaining) ∧
          seen = chunks.flatMap wire ++ (chunkHead digits s.expectSig ++ s.hash) ∧
          body = chunks.flatMap (·.data) ++ s.hash
    | .dataEnd =>
      (∀ c ∈ chunks, c.data ≠ []) ∧ (s.line.length < 2 ∧ (s.last = true ↔ s.hash = [])) ∧
        ∃ digits, s.expectSig.length = 64 ∧ (0 < digits.length ∧ digits.length ≤ 16) ∧
          chunkSizeOf digits = some s.hash.length ∧
          seen = chunks.flatMap wire ++ (chunkHead digits s.expectSig ++ (s.hash ++ s.line)) ∧
          body = chunks.flatMap (·.data) ++ s.hash
    | .done =>
      (∃ data last, chunks = data ++ [last] ∧ (∀ c ∈ data, c.data ≠ []) ∧ last.data = []) ∧
        seen = chunks.flatMap wire ∧ body = chunks.flatMap (·.data)

section Decoded

variable {sha256 : Sha256} {key : S3ChunkKey} {seed seen body : Bytes} {s t : S3Chunked} {l out rest : Bytes}

theorem Decoded.new (sha256 : Sha256) (key : S3ChunkKey) (seed : Bytes) :
    Decoded sha256 key seed (.new seed) [] [] :=
  ⟨[], trivial, nofun, rfl, rfl, nofun, ⟨rfl, rfl⟩, rfl, rfl⟩

theorem decoded_line (hstate : s.state = .line) (h : s.lineTurn l = .next out t rest) :
    ∃ took, l = took ++ rest ∧ ∀ seen body, Decoded sha256 key seed s seen body →
      Decoded sha256 key seed t (seen ++ took) (body ++ out) := by
  rcases mark_cases 10 l with hnone | ⟨a, rest', ha, rfl⟩
  · rw [S3Chunked.lineTurn_short hnone] at h
    split at h
    · cases h
    · cases h
      refine ⟨l, (append_nil l).symm, ?_⟩
      rintro seen body ⟨chunks, hchain, hframed, hprev, hcount, hrest⟩
      rw [hstate] at hrest
      obtain ⟨hdata, hfresh, hseen, hbody⟩ := hrest
      refine ⟨chunks, hchain, hframed, hprev, by rw [append_nil]; exact hcount, ?_⟩
      dsimp only
      rw [hstate, hseen, append_assoc, append_nil]
      exact ⟨hdata, hfresh, rfl, hbody⟩
  · rw [S3Chunked.lineTurn_end ha] at h
    split at h
    · cases h
    · unfold S3Chunked.wholeLine at h
      split at h
      · cases h
      next size sig hline =>
        cases h
        refine ⟨a ++ [10], by simp, ?_⟩
        rintro seen body ⟨chunks, hchain, hframed, hprev, hcount, hrest⟩
        rw [hstate] at hrest
        obtain ⟨hdata, ⟨hhash, hlast⟩, hseen, hbody⟩ := hrest
        obtain ⟨digits, hhead, hsig, hdigits, hsize⟩ := chunkLine_iff.mp hline
        have hseen' : seen ++ (a ++ [10]) = chunks.flatMap wire ++ chunkHead digits sig := by
          rw [hseen, append_assoc, hhead]
        refine ⟨chunks, hchain, hframed, hprev, by rw [append_nil]; exact hcount, ?_⟩
        dsimp only
        rw [hhash, hseen', append_nil body, hbody]
        by_cases hzero : size = 0
        · rw [if_pos hzero]
          refine ⟨hdata, ⟨Nat.two_pos, by rw [if_pos hzero]; exact Iff.intro (fun _ => rfl) fun _ => rfl⟩, digits, hsig,
            hdigits, by rw [hsize, hzero]; rfl, ?_, ?_⟩
          · rw [append_nil, append_nil]
          · rw [append_nil]
        · rw [if_neg hzero]
          refine ⟨hdata, ⟨rfl, by rw [if_neg hzero]; exact hlast, Nat.pos_of_ne_zero hzero⟩, digits, hsig, hdigits,
            by rw [length_nil, Nat.zero_add]; exact hsize, ?_, ?_⟩
          · rw [append_nil]
          · rw [append_nil]

theorem decoded_data (hstate : s.state = .data) (h : s.dataTurn l = .next out t rest) :
    ∃ took, l = took ++ rest ∧ ∀ seen body, Decoded sha256 key seed s seen body →
      Decoded sha256 key seed t (seen ++ took) (body ++ out) := by
  cases h
  refine ⟨l.take (min s.remaining l.length), (take_append_drop _ _).symm, ?_⟩
  rintro seen body ⟨chunks, hchain, hframed, hprev, hcount, hrest⟩
  rw [hstate] at hrest
  obtain ⟨hdata, ⟨hline, hlast, hpos⟩, digits, hsig, hdigits, hsize, hseen, hbody⟩ := hrest
  have htake : (l.take (min s.remaining l.length)).length = min s.remaining l.length := by
    rw [length_take]
    omega
  refine ⟨chunks, hchain, hframed, hprev, ?_, ?_⟩
  · rw [length_append, htake, UInt64.ofNat_add, ← hcount]
  · dsimp only
    by_cases hend : s.remaining - min s.remaining l.length = 0
    · rw [if_pos hend]
      refine ⟨hdata, ⟨by rw [hline]; exact Nat.two_pos, ?_⟩, digits, hsig, hdigits, ?_, ?_, ?_⟩
      · rw [hlast]
        refine iff_of_false false_ne_true fun hnil => ?_
        have hlength := congrArg List.length (append_eq_nil_iff.mp hnil).2
        rw [htake, length_nil] at hlength
        omega
      · rw [hsize, length_append, htake, Option.some.injEq]
        omega
      · rw [hseen, hline, append_nil]
        simp only [append_assoc]
      · rw [hbody, append_assoc]
    · rw [if_neg hend, hstate]
      refine ⟨hdata, ⟨hline, hlast, Nat.pos_of_ne_zero hend⟩, digits, hsig, hdigits, ?_, ?_, ?_⟩
      · rw [hsize, length_append, htake, Option.some.injEq]
        omega
      · rw [hseen]
        simp only [append_assoc]
      · rw [hbody, append_assoc]

theorem closeChunk_ok (h : s.closeChunk sha256 key = .ok t) :
    s.expectSig = signed sha256 key s.prevSig s.hash ∧ t = { s with hash := [], prevSig := s.expectSig } := by
  unfold S3Chunked.closeChunk at h
  dsimp only at h
  split at h
  next heq =>
    rw [sv4Eq_iff] at heq
    cases h
    rw [← heq]
    exact ⟨rfl, rfl⟩
  · cases h

theorem decoded_dataEnd (hstate : s.state = .dataEnd) (h : s.dataEndTurn sha256 key l = .next out t rest) :
    ∃ took, l = took ++ rest ∧ ∀ seen body, Decoded sha256 key seed s seen body →
      Decoded sha256 key seed t (seen ++ took) (body ++ out) := by
  unfold S3Chunked.dataEndTurn at h
  dsimp only at h
  split at h
  next hshort =>
    cases h
    refine ⟨_, (take_append_drop _ _).symm, ?_⟩
    rintro seen body ⟨chunks, hchain, hframed, hprev, hcount, hrest⟩
    rw [hstate] at hrest
    obtain ⟨hdata, ⟨-, hlast⟩, digits, hsig, hdigits, hsize, hseen, hbody⟩ := hrest
    refine ⟨chunks, hchain, hframed, hprev, by rw [append_nil]; exact hcount, ?_⟩
    dsimp only
    rw [hstate, hseen, append_nil]
    exact ⟨hdata, ⟨hshort, hlast⟩, digits, hsig, hdigits, hsize, by simp only [append_assoc], hbody⟩
  next hboth =>
    split at h
    · cases h
    next hend =>
      rw [not_not] at hend
      split at h
      · cases h
      next u hclose =>
        cases h
        refine ⟨_, (take_append_drop _ _).symm, ?_⟩
        rintro seen body ⟨chunks, hchain, hframed, hprev, hcount, hrest⟩
        rw [hstate] at hrest
        obtain ⟨hdata, ⟨hline, hlast⟩, digits, hsig, hdigits, hsize, hseen, hbody⟩ := hrest
        obtain ⟨hmatch, rfl⟩ := closeChunk_ok hclose
        dsimp only at hmatch
        -- The two bytes are the CRLF.
        have hfull : (s.line ++ l.take (min (2 - s.line.length) l.length)).length ≤ 2 := by
          rw [length_append, length_take]
          omega
        have hcrlf : s.line ++ l.take (min (2 - s.line.length) l.length) = CRLF :=
          (take_of_length_le hfull).symm.trans hend
        have hprev' : s.expectSig = chainEnd seed (chunks ++ [S3Chunk.mk digits s.expectSig s.hash]) :=
          (chainEnd_concat (c := ⟨digits, s.expectSig, s.hash⟩) seed chunks).symm
        have hchain' : Chained sha256 key seed (chunks ++ [S3Chunk.mk digits s.expectSig s.hash]) :=
          chained_concat.mpr ⟨hchain, hprev ▸ hmatch⟩
        have hframed' : ∀ c ∈ chunks ++ [S3Chunk.mk digits s.expectSig s.hash], c.Framed :=
          forall_mem_append.mpr ⟨hframed, fun c hc => mem_singleton.mp hc ▸ ⟨hsig, hdigits, hsize⟩⟩
        have hseen' : seen ++ l.take (min (2 - s.line.length) l.length) =
            (chunks ++ [S3Chunk.mk digits s.expectSig s.hash]).flatMap wire := by
          rw [hseen, flatMap_append, append_assoc, append_assoc, append_assoc, hcrlf]
          simp [wire]
        have hbody' : body = (chunks ++ [S3Chunk.mk digits s.expectSig s.hash]).flatMap (·.data) := by
          rw [hbody, flatMap_append]
          simp
        refine ⟨_, hchain', hframed', hprev', by rw [append_nil]; exact hcount, ?_⟩
        rw [hseen', append_nil body]
        dsimp only
        by_cases hdone : s.last = true
        · rw [if_pos hdone]
          exact ⟨⟨chunks, _, rfl, hdata, hlast.mp hdone⟩, rfl, hbody'⟩
        · rw [if_neg hdone]
          refine ⟨forall_mem_append.mpr ⟨hdata, fun c hc => ?_⟩, ⟨rfl, not_eq_true _ ▸ hdone⟩, ?_, hbody'⟩
          · rw [mem_singleton.mp hc]
            exact fun hnil => hdone (hlast.mpr hnil)
          · exact (append_nil _).symm

theorem decoded_feed {l out : Bytes} (hs : Decoded sha256 key seed s seen body)
    (h : s.feed sha256 key l = (out, .ok t)) : Decoded sha256 key seed t (seen ++ l) (body ++ out) := by
  refine (S3Chunked.loop sha256 key).feed_invariant (fun {s l out t rest} hturn => ?_)
    (fun {s l out t} hturn => ?_) hs h
  · change s.turn sha256 key l = _ at hturn
    unfold S3Chunked.turn at hturn
    split at hturn
    · cases hturn
    · split at hturn
      next => cases hturn
      next hstate => exact decoded_line hstate hturn
      next hstate => exact decoded_data hstate hturn
      next hstate => exact decoded_dataEnd hstate hturn
  · intro seen body hs
    obtain ⟨rfl, rfl, rfl⟩ := S3Chunked.turn_wait hturn
    rw [append_nil, append_nil]
    exact hs

/-- A decoder that is through has read a chain of signed chunks, an empty one last, and has given what they carry. -/
theorem done_chain {input : Bytes} (h : (S3Chunked.new seed).feed sha256 key input = (body, .ok t))
    (hdone : t.state = .done) :
    ∃ chunks last, Chained sha256 key seed (chunks ++ [last]) ∧ (∀ c ∈ chunks ++ [last], c.Framed) ∧
      (∀ c ∈ chunks, c.data ≠ []) ∧ last.data = [] ∧ input = (chunks ++ [last]).flatMap wire ∧
      body = (chunks ++ [last]).flatMap (·.data) := by
  obtain ⟨all, hchain, hframed, -, -, hstate⟩ := decoded_feed (Decoded.new sha256 key seed) h
  rw [hdone] at hstate
  obtain ⟨⟨chunks, last, rfl, hdata, hlast⟩, hseen, hbody⟩ := hstate
  exact ⟨chunks, last, hchain, hframed, hdata, hlast, hseen, hbody⟩

end Decoded

structure Ready (s : S3Chunked) (previous : Bytes) (given : Nat) : Prop where
  state : s.state = .line
  fresh : s.line = [] ∧ s.hash = [] ∧ s.last = false
  previous : s.prevSig = previous
  decoded : s.decoded = UInt64.ofNat given

section Accepts

variable {sha256 : Sha256} {key : S3ChunkKey} {s : S3Chunked} {previous : Bytes} {given : Nat} {c : S3Chunk}

theorem hex_no_newline (b : UInt8) : SV4_HEX.at0 (b >>> 4).toNat ≠ 10 ∧ SV4_HEX.at0 (b &&& 0xf).toNat ≠ 10 :=
  of_every_byte (P := fun b => SV4_HEX.at0 (b >>> 4).toNat ≠ 10 ∧ SV4_HEX.at0 (b &&& 0xf).toNat ≠ 10)
    (by decide +kernel) b

theorem sv4Hex_no_newline (data : Bytes) (room : Nat) : 10 ∉ sv4Hex data room := by
  induction data generalizing room with
  | nil => exact not_mem_nil
  | cons b data ih =>
    rw [sv4Hex]
    split
    · exact not_mem_nil
    · obtain ⟨hhigh, hlow⟩ := hex_no_newline b
      rw [mem_cons, mem_cons, not_or, not_or]
      exact ⟨hhigh.symm, hlow.symm, ih _⟩

variable (sha256 key) in
theorem feed_head (hs : Ready s previous given) (hc : c.Framed) (hsig : 10 ∉ c.sig) :
    s.feed sha256 key (chunkHead c.digits c.sig) = ([], .ok { s with
      expectSig := c.sig, remaining := c.data.length, last := if c.data.length = 0 then true else s.last,
      state := if c.data.length = 0 then .dataEnd else .data }) := by
  have hline : chunkHead c.digits c.sig = (c.digits ++ (S3_CHUNK_SIG ++ (c.sig ++ [13]))) ++ 10 :: [] := by
    simp [chunkHead, CRLF]
  have hnone : 10 ∉ c.digits ++ (S3_CHUNK_SIG ++ (c.sig ++ [13])) := by
    have hmark : 10 ∉ S3_CHUNK_SIG ++ (c.sig ++ [13]) := by
      simp [S3_CHUNK_SIG, ascii, hsig]
    rw [mem_append, not_or]
    exact ⟨chunkSizeOf_digits hc.size rfl, hmark⟩
  have hread : chunkLine (s.line ++ ((c.digits ++ (S3_CHUNK_SIG ++ (c.sig ++ [13]))) ++ [10])) =
      some (c.data.length, c.sig) := by
    rw [hs.fresh.1, nil_append, ← hline]
    exact chunkLine_iff.mpr ⟨c.digits, rfl, hc.sig, hc.digits, hc.size⟩
  have hroom : ¬ s.line.length + ((c.digits ++ (S3_CHUNK_SIG ++ (c.sig ++ [13]))).length + 1) > S3_CHUNK_LINE_MAX := by
    have hdigits := hc.digits.2
    simp only [hs.fresh.1, length_append, hc.sig, length_nil, length_singleton]
    change ¬ 0 + (c.digits.length + (17 + (64 + 1)) + 1) > 16 + 17 + 64 + 2
    omega
  have hturn : (S3Chunked.loop sha256 key).turn s (chunkHead c.digits c.sig) = .next [] { s with
      expectSig := c.sig, remaining := c.data.length, last := if c.data.length = 0 then true else s.last,
      state := if c.data.length = 0 then .dataEnd else .data } [] := by
    rw [hline, S3Chunked.loop_turn (append_ne_nil_of_right_ne_nil _ (cons_ne_nil _ _)), hs.state]
    dsimp only
    rw [S3Chunked.lineTurn_end hnone, if_neg hroom, S3Chunked.wholeLine, hread]
    dsimp only
    rw [hs.fresh.1]
  rw [S3Chunked.feed, Loop.feed_next hturn, Loop.feed_wait S3Chunked.loop_turn_nil]
  rfl

variable (sha256 key) in
theorem feed_data (hstate : s.state = .data) {data : Bytes} (hne : data ≠ []) (hall : s.remaining = data.length) :
    s.feed sha256 key data = (data, .ok { s with
      hash := s.hash ++ data, decoded := s.decoded + UInt64.ofNat data.length, remaining := 0, state := .dataEnd }) := by
  have hturn : (S3Chunked.loop sha256 key).turn s data = .next data { s with
      hash := s.hash ++ data, decoded := s.decoded + UInt64.ofNat data.length, remaining := 0, state := .dataEnd } [] := by
    rw [S3Chunked.loop_turn hne, hstate]
    dsimp only [S3Chunked.dataTurn]
    rw [hall, Nat.min_self, take_length, drop_length, Nat.sub_self, if_pos rfl]
  rw [S3Chunked.feed, Loop.feed_next hturn, Loop.feed_wait S3Chunked.loop_turn_nil, append_nil]

variable (sha256 key) in
theorem feed_dataEnd (hstate : s.state = .dataEnd) (hline : s.line = [])
    (hsig : s.expectSig = signed sha256 key s.prevSig s.hash) :
    s.feed sha256 key CRLF = ([], .ok { s with
      hash := [], prevSig := s.expectSig, state := if s.last then .done else .line }) := by
  have hclose : S3Chunked.closeChunk sha256 key { s with line := [] } =
      .ok { s with hash := [], line := [], prevSig := s.expectSig } := by
    unfold S3Chunked.closeChunk
    dsimp only
    rw [signed] at hsig
    rw [if_pos ((sv4Eq_iff _ _).mpr hsig.symm), ← hsig]
  have hturn : (S3Chunked.loop sha256 key).turn s CRLF = .next [] { s with
      hash := [], prevSig := s.expectSig, state := if s.last then .done else .line } [] := by
    rw [S3Chunked.loop_turn (show CRLF ≠ [] from nofun), hstate]
    dsimp only [S3Chunked.dataEndTurn]
    rw [hclose, hline]
    rfl
  rw [S3Chunked.feed, Loop.feed_next hturn, Loop.feed_wait S3Chunked.loop_turn_nil]
  rfl

theorem feed_behind {t : S3Chunked} {l out : Bytes} (h : s.feed sha256 key l = (out, .ok t)) (m : Bytes) :
    s.feed sha256 key (l ++ m) = (out ++ (t.feed sha256 key m).1, (t.feed sha256 key m).2) := by
  have happend := (S3Chunked.grows sha256 key).feed_append (s := s) trivial l m
  change s.feed sha256 key (l ++ m) = Fed.andThen (s.feed sha256 key l) fun t => t.feed sha256 key m at happend
  rw [happend, h]
  rfl

theorem feed_chunk (hs : Ready s previous given) (hc : c.Framed) (hsig : c.sig = signed sha256 key previous c.data)
    (hdata : c.data ≠ []) :
    ∃ t, s.feed sha256 key c.wire = (c.data, .ok t) ∧ Ready t c.sig (given + c.data.length) := by
  have hlen : c.data.length ≠ 0 := List.length_eq_zero_iff.not.mpr hdata
  have hhead := feed_head sha256 key hs hc (hsig ▸ sv4Hex_no_newline _ _)
  rw [if_neg hlen, if_neg hlen] at hhead
  have hbody := feed_data sha256 key (s := { s with
    expectSig := c.sig, remaining := c.data.length, last := s.last, state := .data }) rfl hdata rfl
  have hend := feed_dataEnd sha256 key (s := { s with
    expectSig := c.sig, remaining := 0, hash := s.hash ++ c.data, decoded := s.decoded + UInt64.ofNat c.data.length,
    state := .dataEnd }) rfl hs.fresh.1 (by rw [hs.fresh.2.1, hs.previous]; exact hsig)
  refine ⟨{ s with
    expectSig := c.sig, remaining := 0, hash := [], prevSig := c.sig,
    decoded := s.decoded + UInt64.ofNat c.data.length, state := .line }, ?_, ?_⟩
  · rw [S3Chunk.wire, feed_behind hhead, feed_behind hbody, hend, hs.fresh.2.2]
    simp
  · exact ⟨rfl, ⟨hs.fresh.1, rfl, hs.fresh.2.2⟩, rfl, by rw [hs.decoded, UInt64.ofNat_add]⟩

theorem feed_last (hs : Ready s previous given) (hc : c.Framed) (hsig : c.sig = signed sha256 key previous c.data)
    (hdata : c.data = []) :
    ∃ t, s.feed sha256 key c.wire = ([], .ok t) ∧ t.state = .done ∧ t.decoded = UInt64.ofNat given := by
  have hlen : c.data.length = 0 := length_eq_zero_iff.mpr hdata
  have hhead := feed_head sha256 key hs hc (hsig ▸ sv4Hex_no_newline _ _)
  rw [if_pos hlen, if_pos hlen] at hhead
  have hend := feed_dataEnd sha256 key (s := { s with
    expectSig := c.sig, remaining := c.data.length, last := true, state := .dataEnd }) rfl hs.fresh.1
    (by rw [hs.fresh.2.1, hs.previous, ← hdata]; exact hsig)
  refine ⟨{ s with
    expectSig := c.sig, remaining := c.data.length, last := true, hash := [], prevSig := c.sig, state := .done }, ?_, rfl,
    hs.decoded⟩
  have hwire : c.wire = chunkHead c.digits c.sig ++ CRLF := by rw [S3Chunk.wire, hdata, nil_append]
  rw [hwire, feed_behind hhead, hend]
  rfl

theorem feed_chunks (hs : Ready s previous given) (hframed : ∀ c ∈ chunks, c.Framed)
    (hchain : Chained sha256 key previous chunks) (hdata : ∀ c ∈ chunks, c.data ≠ []) :
    ∃ t, s.feed sha256 key (chunks.flatMap wire) = (chunks.flatMap (·.data), .ok t) ∧
      Ready t (chainEnd previous chunks) (given + (chunks.flatMap (·.data)).length) := by
  induction chunks generalizing s previous given with
  | nil => exact ⟨s, Loop.feed_wait S3Chunked.loop_turn_nil, hs⟩
  | cons c chunks ih =>
    rw [forall_mem_cons] at hframed hdata
    obtain ⟨t, hfed, ht⟩ := feed_chunk hs hframed.1 hchain.1 hdata.1
    obtain ⟨u, hrest, hu⟩ := ih ht hframed.2 hchain.2 hdata.2
    refine ⟨u, ?_, ?_⟩
    · rw [flatMap_cons, feed_behind hfed, hrest, flatMap_cons]
    · rw [flatMap_cons, length_append, ← Nat.add_assoc]
      exact hu

theorem feed_chain {seed : Bytes} {last : S3Chunk}
    (hchain : Chained sha256 key seed (chunks ++ [last])) (hframed : ∀ c ∈ chunks ++ [last], c.Framed)
    (hdata : ∀ c ∈ chunks, c.data ≠ []) (hlast : last.data = []) :
    ∃ t, (S3Chunked.new seed).feed sha256 key ((chunks ++ [last]).flatMap wire) = (chunks.flatMap (·.data), .ok t) ∧
      t.state = .done ∧ t.decoded = UInt64.ofNat (chunks.flatMap (·.data)).length := by
  rw [forall_mem_append, forall_mem_singleton] at hframed
  rw [chained_concat] at hchain
  have hready : Ready (.new seed) seed 0 := ⟨rfl, ⟨rfl, rfl, rfl⟩, rfl, rfl⟩
  obtain ⟨t, hfed, ht⟩ := feed_chunks hready hframed.1 hchain.1 hdata
  obtain ⟨u, hrest, hdone, hcount⟩ := feed_last ht hframed.2 hchain.2 hlast
  refine ⟨u, ?_, hdone, by rw [hcount, Nat.zero_add]⟩
  rw [flatMap_append, flatMap_singleton, feed_behind hfed, hrest, append_nil]

end Accepts

end Wave.Common
