import Wave.Lib.Segments

/-! # S3 names (`common/s3_serve_core.rs`)

`bucket/o/key`, `bucket/u/upload` and `/part` behind it: as no bucket holds a slash, they are apart. -/

namespace Wave.Common

open Lib

def S3_BUCKET_MIN : Nat := 3
def S3_BUCKET_MAX : Nat := 63
def S3_OBJECTS : Bytes := ascii "/o/"
def S3_UPLOADS : Bytes := ascii "/u/"
def S3_PART_NUMBER_MAX : Nat := 10000

inductive S3Err where
  | invalidBucketName
  | invalidArgument
  | keyTooLong
deriving DecidableEq

def bucketEdge (c : UInt8) : Bool := (0x61 ≤ c && c ≤ 0x7a) || (0x30 ≤ c && c ≤ 0x39)

def bucketBytes : UInt8 → Bytes → Bool
  | _, [] => true
  | prev, c :: b => (bucketEdge c || c = 0x2e || c = 0x2d) && !(c = 0x2e && prev = 0x2e) && bucketBytes c b

def ipPiece (p : Bytes) : Bool := !p.isEmpty && p.length ≤ 3 && p.all fun c => 0x30 ≤ c && c ≤ 0x39

def s3BucketValid (b : Bytes) : Bool :=
  if b.length < S3_BUCKET_MIN ∨ b.length > S3_BUCKET_MAX then false
  else if !bucketEdge (b.at0 0) || !bucketEdge (b.at0 (b.length - 1)) then false
  else if !bucketBytes 0 b then false
  else !((b.splitOn 0x2e).length = 4 && (b.splitOn 0x2e).all ipPiece)

/-- How long a character is that begins with `c`, and the smallest code point of that length. -/
def utf8Lead (c : UInt8) : Option (Nat × Nat) :=
  if 0xc2 ≤ c ∧ c ≤ 0xdf then some (2, 0x80)
  else if 0xe0 ≤ c ∧ c ≤ 0xef then some (3, 0x800)
  else if 0xf0 ≤ c ∧ c ≤ 0xf4 then some (4, 0x10000)
  else none

def utf8Tail (cp : Nat) (tail : Bytes) : Option Nat :=
  tail.foldlM (fun (cp : Nat) (cc : UInt8) => if cc &&& 0xc0 ≠ 0x80 then none else some ((cp <<< 6) ||| (cc &&& 0x3f).toNat)) cp

def s3Utf8 : Bytes → Bool
  | [] => true
  | c :: b =>
    if c ≤ 0x7f then s3Utf8 b
    else
      match utf8Lead c with
      | none => false
      | some (len, least) =>
        if b.length < len - 1 then false
        else
          match utf8Tail (c.toNat &&& (0x7f >>> len)) (b.take (len - 1)) with
          | none => false
          | some cp =>
            if cp < least ∨ cp > 0x10ffff ∨ (0xd800 ≤ cp ∧ cp ≤ 0xdfff) then false else s3Utf8 (b.drop (len - 1))
termination_by b => b.length
decreasing_by
  · exact Nat.lt_succ_self _
  · rw [length_drop]
    exact Nat.lt_succ_of_le (Nat.sub_le _ _)

/-- The parts one behind the other, where they fit into `room` bytes. -/
def s3Join (room : Nat) (parts : List Bytes) : Option Bytes :=
  parts.foldlM (fun out p => if out.length + p.length > room then none else some (out ++ p)) []

def s3ObjectName (bucket key : Bytes) (room : Nat) : Except S3Err Bytes :=
  if !s3BucketValid bucket then .error .invalidBucketName
  else if key = [] ∨ !s3Utf8 key then .error .invalidArgument
  else
    match s3Join room [bucket, S3_OBJECTS, key] with
    | some name => .ok name
    | none => .error .keyTooLong

def paddedDigits : Nat → Nat → Bytes
  | 0, _ => []
  | n + 1, v => paddedDigits n (v / 10) ++ [UInt8.ofNat (0x30 + v % 10)]

/-- The staging name of an upload (`part` 0) or of one of its parts. -/
def s3UploadName (bucket upload : Bytes) (part room : Nat) : Option Bytes :=
  if part = 0 then s3Join room [bucket, S3_UPLOADS, upload]
  else if part > S3_PART_NUMBER_MAX then none
  else s3Join room [bucket, S3_UPLOADS, upload, ascii "/", paddedDigits 5 part]

def s3KeyOf (name bucket : Bytes) : Option Bytes := do List.isPrefixOf? S3_OBJECTS (← List.isPrefixOf? bucket name)

/-- The bucket a scope names, when it is `bucket/` or `bucket/o/<prefix>/`. -/
def s3ScopeBucket (scope : Bytes) : Option Bytes :=
  if scope.getLast? ≠ some 0x2f then none
  else do
    let slash ← scope.findIdx? (· = 0x2f)
    let bucket := scope.take slash
    if !s3BucketValid bucket then none
    else
      let rest := scope.drop slash
      if rest = ascii "/" ∨ (S3_OBJECTS.isPrefixOf rest ∧ rest.length > S3_OBJECTS.length) then some bucket else none

section Buckets

variable {bucket key upload name : Bytes} {room : Nat}

theorem bucketBytes_slash {prev : UInt8} {b : Bytes} (h : bucketBytes prev b = true) : 0x2f ∉ b := by
  induction b generalizing prev with
  | nil => exact not_mem_nil
  | cons c b ih =>
    rw [bucketBytes, and_eq_true, and_eq_true] at h
    rw [mem_cons, not_or]
    refine ⟨?_, ih h.2⟩
    rintro rfl
    exact absurd h.1.1 (by decide)

theorem s3BucketValid_slash (h : s3BucketValid bucket = true) : 0x2f ∉ bucket := by
  unfold s3BucketValid at h
  split at h
  · cases h
  split at h
  · cases h
  split at h
  · cases h
  next hbytes => exact bucketBytes_slash (by simpa using hbytes)

theorem s3Join_eq (room : Nat) (parts : List Bytes) :
    s3Join room parts = if parts.flatten.length ≤ room then some parts.flatten else none := by
  have hloop : ∀ (parts : List Bytes) (out : Bytes), out.length ≤ room →
      parts.foldlM (fun out p => if out.length + p.length > room then none else some (out ++ p)) out =
        if (out ++ parts.flatten).length ≤ room then some (out ++ parts.flatten) else none := by
    intro parts
    induction parts with
    | nil =>
      intro out hout
      rw [flatten_nil, append_nil, if_pos hout]
      rfl
    | cons p parts ih =>
      intro out hout
      rw [foldlM_cons, flatten_cons, ← append_assoc]
      split
      next hover =>
        rw [if_neg]
        · rfl
        · rw [length_append, length_append]
          omega
      next hfits => exact ih _ (by rw [length_append]; omega)
  exact hloop parts [] (Nat.zero_le _)

theorem s3Join_some {room : Nat} {parts : List Bytes} (h : s3Join room parts = some name) :
    name = parts.flatten := by
  rw [s3Join_eq] at h
  split at h
  · exact (Option.some.inj h).symm
  · cases h

theorem s3Join_fits {room : Nat} {parts : List Bytes} (h : (parts.map List.length).sum ≤ room) :
    s3Join room parts = some parts.flatten := by
  rw [s3Join_eq, if_pos (List.length_flatten.trans_le h)]

theorem s3ObjectName_named (hb : s3BucketValid bucket = true) (hkey : key ≠ []) (hutf8 : s3Utf8 key = true)
    (hroom : bucket.length + 3 + key.length ≤ room) : ∃ name, s3ObjectName bucket key room = .ok name := by
  have hjoin : s3Join room [bucket, S3_OBJECTS, key] = some [bucket, S3_OBJECTS, key].flatten :=
    s3Join_fits (by simp [S3_OBJECTS, ascii]; omega)
  unfold s3ObjectName
  rw [hb, hutf8, hjoin]
  exact ⟨_, if_neg (not_or.mpr ⟨hkey, false_ne_true⟩)⟩

theorem s3ObjectName_ok (h : s3ObjectName bucket key room = .ok name) :
    0x2f ∉ bucket ∧ name = bucket ++ 0x2f :: 0x6f :: 0x2f :: key := by
  unfold s3ObjectName at h
  split at h
  · cases h
  next hvalid =>
    split at h
    · cases h
    · split at h
      next hjoin =>
        cases h
        refine ⟨s3BucketValid_slash (by simpa using hvalid), ?_⟩
        rw [s3Join_some hjoin]
        simp [S3_OBJECTS, ascii]
      · cases h

def partSuffix (part : Nat) : Bytes := if part = 0 then [] else 0x2f :: paddedDigits 5 part

theorem s3UploadName_some {part : Nat} (h : s3UploadName bucket upload part room = some name) :
    part ≤ S3_PART_NUMBER_MAX ∧ name = bucket ++ 0x2f :: 0x75 :: 0x2f :: (upload ++ partSuffix part) := by
  unfold s3UploadName at h
  unfold partSuffix
  split at h
  next hzero =>
    rw [if_pos hzero, s3Join_some h]
    refine ⟨by omega, by simp [S3_UPLOADS, ascii]⟩
  next hzero =>
    split at h
    · cases h
    next hmax =>
      rw [if_neg hzero, s3Join_some h]
      refine ⟨Nat.le_of_not_lt hmax, by simp [S3_UPLOADS, ascii]⟩

theorem length_paddedDigits (n v : Nat) : (paddedDigits n v).length = n := by
  induction n generalizing v with
  | zero => rfl
  | succ n ih => rw [paddedDigits, length_append, ih, length_singleton]

theorem s3UploadName_named {part : Nat} (hpart : part ≤ S3_PART_NUMBER_MAX)
    (hroom : bucket.length + 3 + upload.length + (if part = 0 then 0 else 6) ≤ room) :
    ∃ name, s3UploadName bucket upload part room = some name := by
  unfold s3UploadName
  split
  next hzero =>
    rw [if_pos hzero] at hroom
    exact ⟨_, s3Join_fits (by simp [S3_UPLOADS, ascii]; omega)⟩
  next hzero =>
    rw [if_neg hzero] at hroom
    rw [if_neg (Nat.not_lt_of_le hpart)]
    exact ⟨_, s3Join_fits (by simp [S3_UPLOADS, ascii, length_paddedDigits]; omega)⟩

end Buckets

theorem paddedDigits_inj {n v w : Nat} (h : paddedDigits n v = paddedDigits n w) (hv : v < 10 ^ n) (hw : w < 10 ^ n) :
    v = w := by
  induction n generalizing v w with
  | zero => omega
  | succ n ih =>
    rw [Nat.pow_succ] at hv hw
    obtain ⟨hfront, hlast⟩ := List.append_inj' h rfl
    have hdiv := ih hfront (by omega) (by omega)
    have hmod := congrArg UInt8.toNat (List.singleton_inj.mp hlast)
    rw [UInt8.toNat_ofNat_of_lt' (show 48 + v % 10 < 256 by omega),
      UInt8.toNat_ofNat_of_lt' (show 48 + w % 10 < 256 by omega)] at hmod
    omega

theorem slash_inj {a b x y : Bytes} (ha : 0x2f ∉ a) (hb : 0x2f ∉ b) :
    a ++ 0x2f :: x = b ++ 0x2f :: y ↔ a = b ∧ x = y := by
  induction a generalizing b with
  | nil =>
    cases b with
    | nil => simp
    | cons c b =>
      refine iff_of_false (fun h => hb ?_) fun h => cons_ne_nil c b h.1.symm
      rw [(List.cons.inj h).1]
      exact mem_cons_self
  | cons c a ih =>
    cases b with
    | nil =>
      refine iff_of_false (fun h => ha ?_) fun h => cons_ne_nil c a h.1
      rw [← (List.cons.inj h).1]
      exact mem_cons_self
    | cons d b =>
      rw [cons_append, cons_append, List.cons.injEq, ih (List.not_mem_of_not_mem_cons ha)
        (List.not_mem_of_not_mem_cons hb), List.cons.injEq, and_assoc]

theorem slash_front {a b x y : Bytes} (ha : 0x2f ∉ a) (hb : 0x2f ∉ b) :
    a ++ 0x2f :: x <+: b ++ 0x2f :: y ↔ a = b ∧ x <+: y := by
  constructor
  · rintro ⟨rest, h⟩
    rw [append_assoc, cons_append, slash_inj ha hb] at h
    exact ⟨h.1, rest, h.2⟩
  · rintro ⟨rfl, rest, rfl⟩
    exact ⟨rest, by rw [append_assoc, cons_append]⟩

theorem s3ScopeBucket_some {scope bucket : Bytes} (h : s3ScopeBucket scope = some bucket) :
    0x2f ∉ bucket ∧
      (scope = bucket ++ [0x2f] ∨ ∃ p, scope = bucket ++ 0x2f :: 0x6f :: 0x2f :: (p ++ [0x2f])) := by
  unfold s3ScopeBucket at h
  split at h
  · cases h
  next hlast =>
    rw [not_not] at hlast
    obtain ⟨slash, hslash, h⟩ := bind_eq_some_iff.mp h
    dsimp only at h
    split at h
    · cases h
    next hvalid =>
      split at h
      next hrest =>
        obtain rfl := Option.some.inj h
        refine ⟨s3BucketValid_slash (by simpa using hvalid), ?_⟩
        have hsplit : scope = scope.take slash ++ scope.drop slash := (take_append_drop slash scope).symm
        rcases hrest with hrest | ⟨hfront, hlen⟩
        · exact .inl (hsplit.trans (congrArg (scope.take slash ++ ·) hrest))
        · right
          obtain ⟨p, hp⟩ := isPrefixOf_iff_prefix.mp hfront
          rw [← hp] at hsplit hlen
          rcases eq_nil_or_concat p with rfl | ⟨p, c, rfl⟩
          · rw [append_nil] at hlen
            omega
          · rw [concat_eq_append] at hsplit
            rw [hsplit, ← append_assoc, ← append_assoc, List.getLast?_concat, Option.some.injEq] at hlast
            rw [hlast] at hsplit
            exact ⟨p, hsplit⟩
      · cases h

theorem findIdx?_slash {bucket rest : Bytes} (h : 0x2f ∉ bucket) :
    (bucket ++ 0x2f :: rest).findIdx? (· = 0x2f) = some bucket.length := by
  induction bucket with
  | nil => rfl
  | cons c bucket ih =>
    rw [cons_append, List.findIdx?_cons, ih (List.not_mem_of_not_mem_cons h)]
    have hc : ¬ c = 0x2f := fun hc => h (hc ▸ mem_cons_self)
    simp [hc]

theorem s3ScopeBucket_named {bucket : Bytes} (hb : s3BucketValid bucket = true) :
    s3ScopeBucket (bucket ++ [0x2f]) = some bucket ∧
      ∀ p, s3ScopeBucket (bucket ++ S3_OBJECTS ++ p ++ [0x2f]) = some bucket := by
  have hnamed : ∀ rest : Bytes, (bucket ++ 0x2f :: rest).getLast? = some 0x2f →
      (0x2f :: rest = ascii "/" ∨ (S3_OBJECTS.isPrefixOf (0x2f :: rest) ∧ (0x2f :: rest).length > S3_OBJECTS.length)) →
      s3ScopeBucket (bucket ++ 0x2f :: rest) = some bucket := by
    intro rest hlast hrest
    unfold s3ScopeBucket
    rw [if_neg (not_not.mpr hlast), findIdx?_slash (s3BucketValid_slash hb)]
    dsimp only [bind_eq_bind, bind_some]
    rw [take_left, drop_left, hb, if_neg (by decide), if_pos hrest]
  refine ⟨hnamed [] (List.getLast?_concat) (.inl rfl), fun p => ?_⟩
  have hscope : bucket ++ S3_OBJECTS ++ p ++ [0x2f] = bucket ++ 0x2f :: (0x6f :: 0x2f :: (p ++ [0x2f])) := by
    simp [S3_OBJECTS, ascii]
  rw [hscope]
  refine hnamed _ ?_ (.inr ⟨List.isPrefixOf_iff_prefix.mpr ⟨p ++ [0x2f], rfl⟩, ?_⟩)
  · rw [← hscope, List.getLast?_concat]
  · simp [S3_OBJECTS, ascii]

section Names

variable {bucket bucket' key key' upload upload' name scope : Bytes} {part part' room room' : Nat}

theorem object_name_inj (h : s3ObjectName bucket key room = .ok name) (h' : s3ObjectName bucket' key' room' = .ok name) :
    bucket = bucket' ∧ key = key' := by
  obtain ⟨hb, hname⟩ := s3ObjectName_ok h
  obtain ⟨hb', hname'⟩ := s3ObjectName_ok h'
  obtain ⟨rfl, hrest⟩ := (slash_inj hb hb').mp (hname.symm.trans hname')
  simp only [List.cons.injEq, true_and] at hrest
  exact ⟨rfl, hrest⟩

theorem s3KeyOf_objectName (h : s3ObjectName bucket key room = .ok name) : s3KeyOf name bucket = some key := by
  obtain ⟨-, rfl⟩ := s3ObjectName_ok h
  have hbucket : List.isPrefixOf? bucket (bucket ++ 0x2f :: 0x6f :: 0x2f :: key) = some (S3_OBJECTS ++ key) :=
    List.isPrefixOf?_eq_some_iff_append_eq.mpr rfl
  unfold s3KeyOf
  rw [hbucket]
  exact List.isPrefixOf?_eq_some_iff_append_eq.mpr rfl

theorem upload_name_inj (hb : s3BucketValid bucket = true) (hb' : s3BucketValid bucket' = true) (hu : 0x2f ∉ upload)
    (hu' : 0x2f ∉ upload') (h : s3UploadName bucket upload part room = some name)
    (h' : s3UploadName bucket' upload' part' room' = some name) : bucket = bucket' ∧ upload = upload' ∧ part = part' := by
  obtain ⟨hpart, hname⟩ := s3UploadName_some h
  obtain ⟨hpart', hname'⟩ := s3UploadName_some h'
  obtain ⟨rfl, hrest⟩ :=
    (slash_inj (s3BucketValid_slash hb) (s3BucketValid_slash hb')).mp (hname.symm.trans hname')
  simp only [List.cons.injEq, true_and] at hrest
  refine ⟨rfl, ?_⟩
  unfold S3_PART_NUMBER_MAX at hpart hpart'
  unfold partSuffix at hrest
  by_cases hzero : part = 0
  · by_cases hzero' : part' = 0
    · rw [if_pos hzero, if_pos hzero', append_nil, append_nil] at hrest
      exact ⟨hrest, hzero.trans hzero'.symm⟩
    · -- The name of an upload has no slash behind the upload.
      rw [if_pos hzero, if_neg hzero', append_nil] at hrest
      exact absurd (hrest ▸ mem_append_right _ mem_cons_self) hu
  · by_cases hzero' : part' = 0
    · rw [if_neg hzero, if_pos hzero', append_nil] at hrest
      exact absurd (hrest ▸ mem_append_right _ mem_cons_self) hu'
    · rw [if_neg hzero, if_neg hzero'] at hrest
      obtain ⟨rfl, hdigits⟩ := (slash_inj hu hu').mp hrest
      exact ⟨rfl, paddedDigits_inj hdigits (by omega) (by omega)⟩

theorem object_ne_upload (h : s3ObjectName bucket key room = .ok name) (hb' : s3BucketValid bucket' = true) :
    s3UploadName bucket' upload part room' ≠ some name := by
  intro h'
  obtain ⟨hb, hname⟩ := s3ObjectName_ok h
  obtain ⟨-, hname'⟩ := s3UploadName_some h'
  obtain ⟨-, hrest⟩ := (slash_inj hb (s3BucketValid_slash hb')).mp (hname.symm.trans hname')
  exact absurd (List.cons.inj hrest).1 (by decide)

/-- An object is under the scope of its bucket and of no other one; and it is not where a scope of a bucket begins. -/
theorem object_bucket_scope (h : s3ObjectName bucket key room = .ok name) (hb' : 0x2f ∉ bucket') :
    (bucket' ++ [0x2f] <+: name ↔ bucket = bucket') ∧ ¬ name <+: bucket' ++ [0x2f] := by
  obtain ⟨hb, rfl⟩ := s3ObjectName_ok h
  rw [slash_front hb' hb, slash_front hb hb', and_iff_left nil_prefix]
  refine ⟨eq_comm, fun hall => ?_⟩
  exact absurd (List.prefix_nil.mp hall.2) (cons_ne_nil _ _)

theorem object_prefix_scope (h : s3ObjectName bucket key room = .ok name) (hb' : 0x2f ∉ bucket') (p : Bytes) :
    bucket' ++ 0x2f :: 0x6f :: 0x2f :: (p ++ [0x2f]) <+: name ↔ bucket = bucket' ∧ p ++ [0x2f] <+: key := by
  obtain ⟨hb, rfl⟩ := s3ObjectName_ok h
  rw [slash_front hb' hb, List.cons_prefix_cons, List.cons_prefix_cons, eq_comm]
  simp

theorem upload_scopes (hb : s3BucketValid bucket = true) (h : s3UploadName bucket upload part room = some name)
    (hb' : 0x2f ∉ bucket') (p : Bytes) :
    (bucket' ++ [0x2f] <+: name ↔ bucket = bucket') ∧
      ¬ bucket' ++ 0x2f :: 0x6f :: 0x2f :: (p ++ [0x2f]) <+: name := by
  obtain ⟨-, rfl⟩ := s3UploadName_some h
  rw [slash_front hb' (s3BucketValid_slash hb), slash_front hb' (s3BucketValid_slash hb), and_iff_left nil_prefix,
    List.cons_prefix_cons]
  exact ⟨eq_comm, fun hall => absurd hall.2.1 (by decide)⟩

end Names

/-- A key, an upload and its parts have names where there is room, a bucket its scopes. All are apart: an object's
name gives its key back, a staging name is one upload's or part's, and what is under a scope is in its bucket with its
prefix. -/
theorem names_apart :
    (∀ bucket key room, s3BucketValid bucket = true → key ≠ [] → s3Utf8 key = true → bucket.length + 3 + key.length ≤ room →
      ∃ name, s3ObjectName bucket key room = .ok name) ∧
    (∀ bucket upload part room, part ≤ S3_PART_NUMBER_MAX →
      bucket.length + 3 + upload.length + (if part = 0 then 0 else 6) ≤ room →
      ∃ name, s3UploadName bucket upload part room = some name) ∧
    (∀ bucket, s3BucketValid bucket = true → s3ScopeBucket (bucket ++ [0x2f]) = some bucket ∧
      ∀ p, s3ScopeBucket (bucket ++ S3_OBJECTS ++ p ++ [0x2f]) = some bucket) ∧
    (∀ bucket key room name, s3ObjectName bucket key room = .ok name → s3KeyOf name bucket = some key ∧
      ∀ bucket' key' room', s3ObjectName bucket' key' room' = .ok name → bucket = bucket' ∧ key = key') ∧
    (∀ bucket bucket' upload upload' part part' room room' name, s3BucketValid bucket = true →
      s3BucketValid bucket' = true → 0x2f ∉ upload → 0x2f ∉ upload' → s3UploadName bucket upload part room = some name →
      s3UploadName bucket' upload' part' room' = some name → bucket = bucket' ∧ upload = upload' ∧ part = part') ∧
    (∀ bucket key room name other upload part room', s3ObjectName bucket key room = .ok name →
      s3BucketValid other = true → s3UploadName other upload part room' ≠ some name ∧
        (bucket ≠ other → ¬ other ++ [0x2f] <+: name ∧ ¬ name <+: other ++ [0x2f])) ∧
    ∀ scope bucket, s3ScopeBucket scope = some bucket →
      (scope = bucket ++ [0x2f] ∧
        (∀ b key room name, s3ObjectName b key room = .ok name → (scope <+: name ↔ b = bucket)) ∧
        ∀ b upload part room name, s3BucketValid b = true → s3UploadName b upload part room = some name →
          (scope <+: name ↔ b = bucket)) ∨
      ∃ p, scope = bucket ++ S3_OBJECTS ++ p ++ [0x2f] ∧
        (∀ b key room name, s3ObjectName b key room = .ok name →
          (scope <+: name ↔ b = bucket ∧ p ++ [0x2f] <+: key)) ∧
        ∀ b upload part room name, s3BucketValid b = true → s3UploadName b upload part room = some name →
          ¬ scope <+: name := by
  refine ⟨fun _ _ _ => s3ObjectName_named, fun _ _ _ _ => s3UploadName_named, fun _ => s3ScopeBucket_named,
    fun bucket key room name h => ⟨s3KeyOf_objectName h, fun _ _ _ h' => object_name_inj h h'⟩,
    fun _ _ _ _ _ _ _ _ _ hb hb' hu hu' h h' => upload_name_inj hb hb' hu hu' h h', ?_, ?_⟩
  · intro bucket key room name other upload part room' h hother
    obtain ⟨hscope, hbegin⟩ := object_bucket_scope h (s3BucketValid_slash hother)
    exact ⟨object_ne_upload h hother, fun hne => ⟨fun hall => hne (hscope.mp hall), hbegin⟩⟩
  · intro scope bucket h
    obtain ⟨hb, rfl | ⟨p, rfl⟩⟩ := s3ScopeBucket_some h
    · exact .inl ⟨rfl, fun _ _ _ _ h => (object_bucket_scope h hb).1, fun _ _ _ _ _ hv h => (upload_scopes hv h hb []).1⟩
    · refine .inr ⟨p, by simp [S3_OBJECTS, ascii], fun _ _ _ _ h => object_prefix_scope h hb p,
        fun _ _ _ _ _ hv h => (upload_scopes hv h hb p).2⟩

theorem names_apart_sample :
    s3KeyOf (ascii "shop/o/u/1") (ascii "shop") = some (ascii "u/1") ∧
      s3UploadName (ascii "shop") (ascii "1") 8 64 ≠ some (ascii "shop/u/1/00007") ∧
      s3UploadName (ascii "shop") (ascii "1") 7 64 ≠ some (ascii "shop/o/u/1") ∧
      ¬ ascii "shop/o/u/" <+: ascii "shop/u/1/00007" := by
  obtain ⟨-, -, -, hkey, hstaged, hobject, hscopes⟩ := names_apart
  have hshop : s3BucketValid (ascii "shop") = true := by decide
  have hu : s3UploadName (ascii "shop") (ascii "1") 7 64 = some (ascii "shop/u/1/00007") := by decide
  refine ⟨(hkey (ascii "shop") (ascii "u/1") 64 (ascii "shop/o/u/1") (by decide +kernel)).1, fun h => ?_,
    (hobject (ascii "shop") (ascii "u/1") 64 (ascii "shop/o/u/1") (ascii "shop") (ascii "1") 7 64 (by decide +kernel) hshop).1, ?_⟩
  · exact absurd (hstaged _ _ _ _ _ _ _ _ _ hshop hshop (by decide) (by decide) hu h).2.2 (by decide)
  · rcases hscopes (ascii "shop/o/u/") (ascii "shop") (by decide) with ⟨hscope, -⟩ | ⟨p, -, -, hup⟩
    · exact absurd hscope (by decide)
    · exact hup (ascii "shop") (ascii "1") 7 64 _ hshop hu

end Wave.Common
