import Wave.Common.StunRoundTrip
import Mathlib.Data.List.TakeWhile

/-! # Attributes behind the integrity (`common/stun_core.rs`)

The integrity is over what is in front of it; the search for an attribute goes on to the message's end. -/

namespace Wave.Common.Stun

open Lib Lib.Bytes Common.Turn

def ATTR_USE_CANDIDATE : UInt16 := 0x0025

variable {buf : Bytes} {header : StunHeader}

def attributes (buf : Bytes) (header : StunHeader) : List (UInt16 × Nat × Nat) :=
  (walk buf (STUN_HEADER_LEN + header.length) STUN_HEADER_LEN).1

def beforeIntegrity (buf : Bytes) (header : StunHeader) : List (UInt16 × Nat × Nat) :=
  (attributes buf header).takeWhile (·.1 ≠ ATTR_MESSAGE_INTEGRITY)

def behindIntegrity (buf : Bytes) (header : StunHeader) : List (UInt16 × Nat × Nat) :=
  ((attributes buf header).dropWhile (·.1 ≠ ATTR_MESSAGE_INTEGRITY)).tail

/-- What is found, the two computed attributes apart, ends where the integrity starts or before. -/
def FoundCovered (buf : Bytes) (header : StunHeader) : Prop :=
  ∀ typ at_ len integrityAt integrityLen, typ ≠ ATTR_FINGERPRINT → typ ≠ ATTR_MESSAGE_INTEGRITY →
    findAttribute buf header ATTR_MESSAGE_INTEGRITY = some (integrityAt, integrityLen) →
    findAttribute buf header typ = some (at_, len) → at_ + len ≤ integrityAt - 4

theorem walk_ordered (buf : Bytes) (total at_ : Nat) :
    (walk buf total at_).1.Pairwise fun a b => a.2.1 + a.2.2 + 4 ≤ b.2.1 := by
  refine walk_induction (P := fun _ w => w.1.Pairwise fun a b => a.2.1 + a.2.2 + 4 ≤ b.2.1) (fun _ _ => List.Pairwise.nil) ?_ at_
  intro at_ typ valueAt len next hnext ih
  have hinside := nextAttribute_inside hnext
  refine List.Pairwise.cons (fun b hb => ?_) ih
  have hbehind := (walk_inside next b hb).1
  dsimp only
  omega

theorem findAttribute_attributes (buf : Bytes) (header : StunHeader) (typ : UInt16) :
    findAttribute buf header typ = ((attributes buf header).find? (·.1 = typ)).map (·.2) :=
  findAttribute_walk buf header typ

theorem integrity_found {sha1 : Sha1} {key : Bytes} (h : verifyMessageIntegrity sha1 buf header key = true) :
    ∃ found, findAttribute buf header ATTR_MESSAGE_INTEGRITY = some found := by
  unfold verifyMessageIntegrity at h
  split at h
  next => cases h
  next at_ len hfound => exact ⟨_, hfound⟩

theorem attributes_cut {found : Nat × Nat} (h : findAttribute buf header ATTR_MESSAGE_INTEGRITY = some found) :
    attributes buf header =
        beforeIntegrity buf header ++ (ATTR_MESSAGE_INTEGRITY, found) :: behindIntegrity buf header ∧
      ∀ a ∈ beforeIntegrity buf header, a.1 ≠ ATTR_MESSAGE_INTEGRITY := by
  have hfront : ∀ a ∈ beforeIntegrity buf header, a.1 ≠ ATTR_MESSAGE_INTEGRITY := fun a ha => by
    simpa using List.mem_takeWhile_imp ha
  refine ⟨?_, hfront⟩
  rw [findAttribute_attributes] at h
  obtain ⟨⟨typ, rest⟩, hfind, rfl⟩ := map_eq_some_iff.mp h
  have htyp : typ = ATTR_MESSAGE_INTEGRITY := by simpa using List.find?_some hfind
  subst htyp
  have hsplit : beforeIntegrity buf header ++ (attributes buf header).dropWhile (·.1 ≠ ATTR_MESSAGE_INTEGRITY) =
      attributes buf header := takeWhile_append_dropWhile
  have hnone : (beforeIntegrity buf header).find? (·.1 = ATTR_MESSAGE_INTEGRITY) = none :=
    List.find?_eq_none.mpr fun a ha => by simpa using hfront a ha
  rw [← hsplit, List.find?_append, hnone, Option.none_or] at hfind
  unfold behindIntegrity
  cases hdrop : (attributes buf header).dropWhile (·.1 ≠ ATTR_MESSAGE_INTEGRITY) with
  | nil => rw [hdrop] at hfind; cases hfind
  | cons a behind =>
    have hstop := List.head?_dropWhile_not (·.1 ≠ ATTR_MESSAGE_INTEGRITY) (attributes buf header)
    rw [hdrop] at hfind hstop hsplit
    have ha : a.1 = ATTR_MESSAGE_INTEGRITY := by simpa using hstop
    rw [List.find?_cons, decide_eq_true ha] at hfind
    obtain rfl := Option.some.inj hfind
    exact hsplit.symm

/-- What is found is covered exactly when every attribute behind the integrity is computed, or of a type in front of
it as well. -/
theorem foundCovered_iff (sha1 : Sha1) (key : Bytes) (h : verifyMessageIntegrity sha1 buf header key = true) :
    FoundCovered buf header ↔ ∀ a ∈ behindIntegrity buf header,
      a.1 = ATTR_FINGERPRINT ∨ a.1 = ATTR_MESSAGE_INTEGRITY ∨ ∃ b ∈ beforeIntegrity buf header, b.1 = a.1 := by
  obtain ⟨found, hfound⟩ := integrity_found h
  obtain ⟨hcut, hfront⟩ := attributes_cut hfound
  have hordered := walk_ordered buf (STUN_HEADER_LEN + header.length) STUN_HEADER_LEN
  rw [← attributes, hcut, List.pairwise_append, List.pairwise_cons] at hordered
  obtain ⟨-, ⟨hbehind, -⟩, hbefore⟩ := hordered
  constructor
  · intro hcovered a ha
    by_contra hnot
    simp only [not_or, not_exists, not_and] at hnot
    obtain ⟨hfinger, hintegrity, hnew⟩ := hnot
    -- the first of its type is behind the integrity
    have hnone : (beforeIntegrity buf header).find? (·.1 = a.1) = none :=
      List.find?_eq_none.mpr fun b hb => by simpa using hnew b hb
    have hsome : ((behindIntegrity buf header).find? (·.1 = a.1)).isSome :=
      List.find?_isSome.mpr ⟨a, ha, by simp⟩
    obtain ⟨c, hc⟩ := isSome_iff_exists.mp hsome
    have hfind : findAttribute buf header a.1 = some c.2 := by
      rw [findAttribute_attributes, hcut, List.find?_append, hnone, Option.none_or, List.find?_cons,
        decide_eq_false (Ne.symm hintegrity), hc]
      rfl
    have hle := hcovered a.1 c.2.1 c.2.2 found.1 found.2 hfinger hintegrity hfound hfind
    have hgt := hbehind c (List.mem_of_find?_eq_some hc)
    dsimp only at hgt
    omega
  · intro hknown typ at_ len integrityAt integrityLen hfinger hintegrity hat hfind
    obtain rfl := Option.some.inj (hfound.symm.trans hat)
    rw [findAttribute_attributes] at hfind
    obtain ⟨c, hc, hspan⟩ := map_eq_some_iff.mp hfind
    have htyp : c.1 = typ := by simpa using List.find?_some hc
    have hmem : c ∈ beforeIntegrity buf header := by
      rw [hcut, List.find?_append] at hc
      cases hfirst : (beforeIntegrity buf header).find? (·.1 = typ) with
      | some c' =>
        rw [hfirst, Option.some_or] at hc
        exact Option.some.inj hc ▸ List.mem_of_find?_eq_some hfirst
      | none =>
        rw [hfirst, Option.none_or, List.find?_cons, decide_eq_false (Ne.symm hintegrity)] at hc
        have hnew := List.find?_eq_none.mp hfirst
        rcases hknown c (List.mem_of_find?_eq_some hc) with hf | hi | ⟨b, hb, heq⟩
        · exact absurd (htyp.symm.trans hf) hfinger
        · exact absurd (htyp.symm.trans hi) hintegrity
        · exact absurd (heq.trans htyp) (by simpa using hnew b hb)
    have hle := hbefore c hmem _ mem_cons_self
    rw [hspan] at hle
    dsimp only at hle
    omega

/-- A binding request, its integrity, and what someone else put behind it. -/
def extended (sha1 : Sha1) (key : Bytes) (front rest : List (UInt16 × Bytes)) : List (UInt16 × Bytes) :=
  front ++ integrityOf sha1 0 1 (List.replicate 12 0) key front :: rest

def extendedHeader (sha1 : Sha1) (key : Bytes) (front rest : List (UInt16 × Bytes)) : StunHeader :=
  ⟨0, 1, (listed (extended sha1 key front rest)).length, List.replicate 12 0⟩

def extendedMessage (sha1 : Sha1) (key : Bytes) (front rest : List (UInt16 × Bytes)) : Bytes :=
  headerBytes 0 1 (listed (extended sha1 key front rest)).length (List.replicate 12 0) ++
    listed (extended sha1 key front rest)

section Extended

variable (sha1 : Sha1) (key : Bytes) {front rest : List (UInt16 × Bytes)}

theorem length_extended : (listed (extended sha1 key front rest)).length = (listed front).length + (24 + (listed rest).length) := by
  rw [listed, extended, flatMap_append, flatMap_cons, length_append, length_append, length_integrityOf]
  rfl

variable (hmax : (listed front).length + (24 + (listed rest).length) ≤ U16_MAX)

include hmax

theorem extended_verified (hfits : STUN_HEADER_LEN + (listed front).length ≤ STUN_SCRATCH)
    (hfront : ∀ a ∈ front, a.1 ≠ ATTR_MESSAGE_INTEGRITY) :
    verifyMessageIntegrity sha1 (extendedMessage sha1 key front rest) (extendedHeader sha1 key front rest) key = true :=
  integrity_verified rest rfl hfits hfront rfl (by rw [length_extended]; exact hmax)

theorem extended_parsed :
    parseStunHeader (extendedMessage sha1 key front rest) = some (extendedHeader sha1 key front rest) :=
  parse_headerBytes (by decide) (by decide) rfl (by rw [length_extended]; exact hmax) (listed_words _)

theorem extended_attributes :
    attributes (extendedMessage sha1 key front rest) (extendedHeader sha1 key front rest) =
      spans STUN_HEADER_LEN (extended sha1 key front rest) := by
  have hwalk := walk_bytes (listed_values (show (listed (extended sha1 key front rest)).length ≤ U16_MAX by
    rw [length_extended]; exact hmax))
    (headerBytes 0 1 (listed (extended sha1 key front rest)).length (List.replicate 12 0))
  rw [← listed, length_append, length_headerBytes _ _ _ rfl] at hwalk
  exact congrArg (·.1) hwalk

end Extended

/-- A USERNAME in front of the integrity and the FINGERPRINT behind it. -/
theorem foundCovered_plain :
    let sha1 : Sha1 := fun _ => .zero 20
    let front : List (UInt16 × Bytes) := [(0x0006, [0x61, 0x62])]
    let behind := [fingerprintOver 0 1 (List.replicate 12 0) (extended sha1 [1] front [])]
    let message := extendedMessage sha1 [1] front behind
    let header := extendedHeader sha1 [1] front behind
    verifyMessageIntegrity sha1 message header [1] = true ∧
      findAttribute message header 0x0006 = some (24, 2) ∧
      behindIntegrity message header = [(ATTR_FINGERPRINT, 56, 4)] ∧ FoundCovered message header := by
  intro sha1 front behind message header
  have hmax : (listed front).length + (24 + (listed behind).length) ≤ U16_MAX := by decide
  have hverified := extended_verified sha1 [1] hmax (by decide) (by decide)
  have hall := extended_attributes sha1 [1] hmax
  have hspans : spans STUN_HEADER_LEN (extended sha1 [1] front behind) =
      [(0x0006, 24, 2), (ATTR_MESSAGE_INTEGRITY, 32, 20), (ATTR_FINGERPRINT, 56, 4)] := by
    simp only [extended, front, behind, cons_append, nil_append, spans, integrityOf_length,
      length_integrityOf, fingerprintOver_length]
    rfl
  rw [hspans] at hall
  have hbehind : behindIntegrity message header = [(ATTR_FINGERPRINT, 56, 4)] := by
    rw [behindIntegrity, hall]
    rfl
  refine ⟨hverified, ?_, hbehind, (foundCovered_iff _ _ hverified).mpr fun a ha => .inl ?_⟩
  · rw [findAttribute_attributes, hall]
    rfl
  · rw [hbehind] at ha
    rw [mem_singleton.mp ha]

/-- Whatever the hash, a nomination put behind the integrity is found in a message that still verifies. -/
theorem nomination_behind_found :
    ¬ ∃ sha1 : Sha1, ∀ buf header key, parseStunHeader buf = some header →
      verifyMessageIntegrity sha1 buf header key = true → FoundCovered buf header := by
  rintro ⟨sha1, hclaim⟩
  have hmax : (listed []).length + (24 + (listed [(ATTR_USE_CANDIDATE, [])]).length) ≤ U16_MAX := by decide
  have hcovered := hclaim _ _ _ (extended_parsed sha1 [1] hmax)
    (extended_verified sha1 [1] hmax (by decide) (forall_mem_nil _))
  have hlist := extended_attributes sha1 [1] hmax
  have hspans : spans STUN_HEADER_LEN (extended sha1 [1] [] [(ATTR_USE_CANDIDATE, [])]) =
      [(ATTR_MESSAGE_INTEGRITY, 24, 20), (ATTR_USE_CANDIDATE, 48, 0)] := by
    rw [extended, nil_append, spans, integrityOf_length, length_integrityOf]
    rfl
  rw [hspans] at hlist
  have hfound : ∀ typ, findAttribute (extendedMessage sha1 [1] [] [(ATTR_USE_CANDIDATE, [])])
      (extendedHeader sha1 [1] [] [(ATTR_USE_CANDIDATE, [])]) typ =
        ([(ATTR_MESSAGE_INTEGRITY, 24, 20), (ATTR_USE_CANDIDATE, 48, 0)].find? (·.1 = typ)).map (·.2) := fun typ => by
    rw [findAttribute_attributes, hlist]
  have hle := hcovered ATTR_USE_CANDIDATE 48 0 24 20 (by decide) (by decide) (hfound _) (hfound _)
  exact absurd hle (by decide)

end Wave.Common.Stun
