import Wave.Common.RouteKey
import Wave.Lib.Decimal

/-! # Canonical hosts (`common/http_route_key.rs`)

What `norm_host` yields it leaves as it is, whatever port stands behind it (`normHost_canon`). -/

namespace Wave.Common

open Lib

variable {b : UInt8} {s : Bytes}

def COLON_BYTE : UInt8 := 0x3A

def isHostByte (b : UInt8) : Bool :=
  isAlphaByte b || isDigitByte b || b = 0x2D || b = 0x5F || b = 0x7E || b = 0x2E

def isLiteralByte (b : UInt8) : Bool := isHexByte b || b = COLON_BYTE || b = 0x2E

/-- The hosts of route keys: names in lower case without a dot at their end, and address literals in brackets. -/
inductive CanonHost : Bytes → Prop
  | name {h : Bytes} (hne : h ≠ []) (hok : regNameOk h = true) (hlast : h.getLast? ≠ some 0x2E)
    (hlower : h.map toAsciiLowercase = h) : CanonHost h
  | literal {inside : Bytes} (hok : ipv6Ok inside = true) (hlower : inside.map toAsciiLowercase = inside) :
    CanonHost (0x5B :: (inside ++ [0x5D]))

def isRefused (b : UInt8) : Bool := 0x80 ≤ b || b = 0x25 || b = 0x40

theorem byte_classes (b : UInt8) :
    (toAsciiLowercase (toAsciiLowercase b) = toAsciiLowercase b ∧
      (isHostByte b = true → isHostByte (toAsciiLowercase b) = true) ∧
      isHexByte (toAsciiLowercase b) = isHexByte b ∧ (isDigitByte b = true → toAsciiLowercase b = b) ∧
      (toAsciiLowercase b = 0x3A ↔ b = 0x3A) ∧ (toAsciiLowercase b = 0x2E ↔ b = 0x2E)) ∧
    (isHostByte b = true → isRefused b = false ∧ b ≠ COLON_BYTE ∧ b ≠ 0x5B ∧ b ≠ 0x2F ∧ b ≠ 0x23 ∧ b ≠ 0) ∧
    (isLiteralByte b = true → isRefused b = false ∧ b ≠ 0x5D ∧ b ≠ 0x2F ∧ b ≠ 0x23 ∧ b ≠ 0) ∧
    (isDigitByte b = true → isRefused b = false ∧ b ≠ COLON_BYTE ∧ b ≠ 0x2F ∧ b ≠ 0x23) := by
  revert b
  exact of_every_byte (by decide +kernel)

theorem lower_idem (b : UInt8) : toAsciiLowercase (toAsciiLowercase b) = toAsciiLowercase b := (byte_classes b).1.1

theorem lower_hostByte (h : isHostByte b = true) : isHostByte (toAsciiLowercase b) = true :=
  (byte_classes b).1.2.1 h

theorem lower_hex (b : UInt8) : isHexByte (toAsciiLowercase b) = isHexByte b := (byte_classes b).1.2.2.1

theorem lower_digit (h : isDigitByte b = true) : toAsciiLowercase b = b := (byte_classes b).1.2.2.2.1 h

theorem lower_mark (b : UInt8) : (toAsciiLowercase b = 0x3A ↔ b = 0x3A) ∧ (toAsciiLowercase b = 0x2E ↔ b = 0x2E) :=
  (byte_classes b).1.2.2.2.2

theorem hostByte_plain (h : isHostByte b = true) :
    isRefused b = false ∧ b ≠ COLON_BYTE ∧ b ≠ 0x5B ∧ b ≠ 0x2F ∧ b ≠ 0x23 ∧ b ≠ 0 := (byte_classes b).2.1 h

theorem literalByte_plain (h : isLiteralByte b = true) :
    isRefused b = false ∧ b ≠ 0x5D ∧ b ≠ 0x2F ∧ b ≠ 0x23 ∧ b ≠ 0 := (byte_classes b).2.2.1 h

theorem digit_plain (h : isDigitByte b = true) :
    isRefused b = false ∧ b ≠ COLON_BYTE ∧ b ≠ 0x2F ∧ b ≠ 0x23 := (byte_classes b).2.2.2 h

theorem colon_literal : isLiteralByte 0x3A = true := rfl

theorem hex_literal (h : isHexByte b = true) : isLiteralByte b = true := by
  rw [isLiteralByte, h]
  rfl

theorem regNameOk_iff {h : Bytes} : regNameOk h = true ↔
    h.head? ≠ some 0x2E ∧ findPat [0x2E, 0x2E] h = none ∧ ∀ b ∈ h, isHostByte b = true := by
  rw [regNameOk, and_eq_true, and_eq_true, decide_eq_true_eq, isNone_iff_eq_none, all_eq_true, and_assoc]
  rfl

theorem head_drop_takeWhile {α : Type*} {p : α → Bool} {l : List α} {x : α}
    (h : (l.drop (l.takeWhile p).length).head? = some x) : p x = false := by
  have hcut : l.takeWhile p ++ l.drop (l.takeWhile p).length = l := List.prefix_iff_eq_append.mp (List.takeWhile_prefix _)
  have hdrop : l.drop (l.takeWhile p).length = l.dropWhile p :=
    append_cancel_left (hcut.trans takeWhile_append_dropWhile.symm)
  have hstop := List.head?_dropWhile_not p l
  rwa [← hdrop, h] at hstop

theorem ipv4_bytes (h : ipv4Ok s = true) (hb : b ∈ s) : isDigitByte b = true ∨ b = 0x2E := by
  rw [ipv4Ok, and_eq_true, all_eq_true] at h
  have hjoin : [0x2E].intercalate (s.splitOn 0x2E) = s := List.intercalate_splitOn 0x2E
  rw [← hjoin] at hb
  rcases mem_intercalate hb with rfl | ⟨part, hpart, hin⟩
  · exact Or.inr rfl
  · have hdigits := h.2 part hpart
    simp only [and_eq_true, all_eq_true] at hdigits
    exact Or.inl (hdigits.1.2 b hin)

theorem map_lower_of_fixed (h : ∀ b ∈ s, toAsciiLowercase b = b) : s.map toAsciiLowercase = s := by
  rw [map_congr_left h, List.map_id']

theorem ipv4_lower (h : ipv4Ok s = true) : s.map toAsciiLowercase = s := by
  refine map_lower_of_fixed fun b hb => ?_
  rcases ipv4_bytes h hb with hdigit | rfl
  · exact lower_digit hdigit
  · rfl

theorem takeWhile_lower (s : Bytes) :
    (s.map toAsciiLowercase).takeWhile (· ≠ 0x3A) = (s.takeWhile (· ≠ 0x3A)).map toAsciiLowercase := by
  rw [List.takeWhile_map]
  congr 2
  funext b
  exact decide_eq_decide.mpr (not_congr (lower_mark b).1)

theorem contains_lower (s : Bytes) : (s.map toAsciiLowercase).contains 0x2E = s.contains 0x2E := by
  rw [Bool.eq_iff_iff, contains_iff_mem, contains_iff_mem, mem_map]
  constructor
  · rintro ⟨b, hb, hdot⟩
    exact (lower_mark b).2.mp hdot ▸ hb
  · exact fun h => ⟨0x2E, h, rfl⟩

def ipv6Rest (next : Bool → Bytes → Bool) (groups : Nat) (compressed : Bool) : Bytes → Bool
  | [] => if compressed then decide (groups < 8) else decide (groups = 8)
  | [_] => false
  | _ :: d :: rest =>
    if d = 0x3A then
      if compressed then false
      else if rest = [] then decide (groups < 8)
      else next true rest
    else next compressed (d :: rest)

theorem ipv6Groups_succ (fuel groups : Nat) (compressed : Bool) (s : Bytes) :
    ipv6Groups (fuel + 1) groups compressed s =
      let g := s.takeWhile (· ≠ 0x3A)
      let rest := s.drop g.length
      let dotted := g.contains 0x2E
      let groups := if dotted then groups + 2 else groups + 1
      if g = [] then false
      else if dotted && (!ipv4Ok g || rest ≠ []) then false
      else if !dotted && (4 < g.length || !g.all isHexByte) then false
      else if 8 < groups then false
      else ipv6Rest (ipv6Groups fuel groups) groups compressed rest := by
  rw [ipv6Groups]
  dsimp only
  congr 4
  generalize s.drop (s.takeWhile (· ≠ 0x3A)).length = rest
  match rest with
  | [] => rfl
  | [_] => rfl
  | c :: d :: rest =>
    rw [ipv6Rest]
    split
    next heq => cases heq
    next heq => cases heq
    next heq =>
      obtain ⟨rfl, rfl⟩ := List.cons.inj (List.cons.inj heq).2
      rfl
    next hcolon heq =>
      obtain ⟨-, rfl⟩ := List.cons.inj heq
      have hd : d ≠ 0x3A := by
        rintro rfl
        exact hcolon _ rfl
      rw [if_neg hd]

theorem ipv6Rest_lower {next : Bool → Bytes → Bool} {groups : Nat} {compressed : Bool} {rest : Bytes}
    (hnext : ∀ compressed s, next compressed s = true →
      next compressed (s.map toAsciiLowercase) = true ∧ ∀ b ∈ s, isLiteralByte b = true)
    (hcolon : ∀ c ∈ rest.head?, c = 0x3A) (h : ipv6Rest next groups compressed rest = true) :
    ipv6Rest next groups compressed (rest.map toAsciiLowercase) = true ∧ ∀ b ∈ rest, isLiteralByte b = true := by
  have hc := colon_literal
  match rest, h, hcolon with
  | [], h, _ => exact ⟨h, nofun⟩
  | [_], h, _ => cases h
  | c :: d :: rest, h, hcolon =>
    obtain rfl := hcolon c rfl
    rw [ipv6Rest] at h
    rw [map_cons, map_cons, ipv6Rest]
    by_cases hd : d = 0x3A
    · subst hd
      rw [if_pos rfl] at h
      rw [if_pos (show toAsciiLowercase 0x3A = 0x3A from rfl)]
      split at h
      · cases h
      next hfirst =>
        rw [if_neg hfirst]
        split at h
        next hend =>
          subst hend
          exact ⟨h, forall_mem_cons.mpr ⟨hc, forall_mem_cons.mpr ⟨hc, nofun⟩⟩⟩
        next hend =>
          rw [if_neg fun heq => hend (map_eq_nil_iff.mp heq)]
          obtain ⟨hlower, hrest⟩ := hnext true rest h
          exact ⟨hlower, forall_mem_cons.mpr ⟨hc, forall_mem_cons.mpr ⟨hc, hrest⟩⟩⟩
    · rw [if_neg hd] at h
      rw [if_neg fun heq => hd ((lower_mark d).1.mp heq)]
      obtain ⟨hlower, hrest⟩ := hnext compressed (d :: rest) h
      exact ⟨hlower, forall_mem_cons.mpr ⟨hc, hrest⟩⟩

theorem ipv6Groups_lower {fuel groups : Nat} {compressed : Bool} (h : ipv6Groups fuel groups compressed s = true) :
    ipv6Groups fuel groups compressed (s.map toAsciiLowercase) = true ∧ ∀ b ∈ s, isLiteralByte b = true := by
  induction fuel generalizing groups compressed s with
  | zero => cases h
  | succ fuel ih =>
    have hcut : s.takeWhile (· ≠ 0x3A) ++ s.drop (s.takeWhile (· ≠ 0x3A)).length = s :=
      List.prefix_iff_eq_append.mp (List.takeWhile_prefix _)
    have hcolon : ∀ c ∈ (s.drop (s.takeWhile (· ≠ 0x3A)).length).head?, c = 0x3A :=
      fun c hc => by simpa using head_drop_takeWhile hc
    rw [ipv6Groups_succ] at h ⊢
    dsimp only at h ⊢
    rw [takeWhile_lower, length_map, ← List.map_drop, contains_lower]
    generalize s.takeWhile (· ≠ 0x3A) = g at h hcut hcolon ⊢
    generalize s.drop g.length = rest at h hcut hcolon ⊢
    rw [← hcut]
    split at h
    · cases h
    next hne =>
      rw [if_neg fun heq => hne (map_eq_nil_iff.mp heq)]
      by_cases hdot : g.contains 0x2E = true
      · -- the last group is an IPv4 address
        rw [hdot, Bool.true_and] at h ⊢
        split at h
        · cases h
        next hlast =>
          rw [not_eq_true, or_eq_false_iff, Bool.not_eq_false', decide_eq_false_iff_not, not_not] at hlast
          obtain ⟨hip, rfl⟩ := hlast
          rw [ipv4_lower hip, hip]
          refine ⟨h, fun b hb => ?_⟩
          rw [append_nil] at hb
          rcases ipv4_bytes hip hb with hdigit | rfl
          · exact hex_literal (by rw [isHexByte, hdigit]; rfl)
          · rfl
      · rw [not_eq_true] at hdot
        have hall : (g.map toAsciiLowercase).all isHexByte = g.all isHexByte := by
          rw [List.all_map]
          congr 1
          funext b
          exact lower_hex b
        rw [hdot, Bool.false_and, if_neg nofun, Bool.not_false, Bool.true_and] at h ⊢
        rw [hall]
        split at h
        · cases h
        next hgroup =>
          rw [if_neg hgroup]
          simp only [false_eq_true, if_false] at h ⊢
          split at h
          · cases h
          next hfew =>
            rw [if_neg hfew]
            rw [not_eq_true, or_eq_false_iff, Bool.not_eq_false', all_eq_true] at hgroup
            obtain ⟨hlower, hrest⟩ := ipv6Rest_lower (fun _ _ => ih) hcolon h
            exact ⟨hlower, fun b hb => (mem_append.mp hb).elim (fun hin => hex_literal (hgroup.2 b hin)) (hrest b)⟩

theorem ipv6Ok_cons (c d : UInt8) (rest : Bytes) :
    ipv6Ok (c :: d :: rest) = if 45 < rest.length + 2 then false
      else if c = 0x3A then
        if d = 0x3A then decide (rest = []) || ipv6Groups (rest.length + 2) 0 true rest else false
      else ipv6Groups (rest.length + 2) 0 false (c :: d :: rest) := by
  have hlength : (c :: d :: rest).length = rest.length + 2 := rfl
  unfold ipv6Ok
  rw [hlength, decide_eq_false (by omega), Bool.false_or]
  by_cases hlong : 45 < rest.length + 2
  · rw [if_pos hlong, if_pos (decide_eq_true hlong)]
  · rw [if_neg hlong, if_neg (by rw [decide_eq_false hlong]; exact nofun)]
    split
    next heq =>
      obtain ⟨rfl, hrest⟩ := List.cons.inj heq
      obtain ⟨rfl, rfl⟩ := List.cons.inj hrest
      rfl
    next hone heq =>
      obtain ⟨rfl, rfl⟩ := List.cons.inj heq
      have hd : d ≠ 0x3A := by
        rintro rfl
        exact hone rest rfl
      rw [if_pos rfl, if_neg hd]
    next hone htwo =>
      have hc : c ≠ 0x3A := by
        rintro rfl
        exact htwo _ rfl
      rw [if_neg hc]

theorem ipv6Ok_lower (h : ipv6Ok s = true) :
    ipv6Ok (s.map toAsciiLowercase) = true ∧ ∀ b ∈ s, isLiteralByte b = true := by
  have hcolon := colon_literal
  match s, h with
  | [], h => cases h
  | [_], h => cases h
  | c :: d :: rest, h =>
    rw [ipv6Ok_cons] at h
    rw [map_cons, map_cons, ipv6Ok_cons, length_map]
    split at h
    · cases h
    next hlong =>
      rw [if_neg hlong]
      by_cases hc : c = 0x3A
      · subst hc
        rw [if_pos rfl] at h
        rw [if_pos (show toAsciiLowercase 0x3A = 0x3A from rfl)]
        split at h
        next hd =>
          subst hd
          rw [if_pos (show toAsciiLowercase 0x3A = 0x3A from rfl)]
          rw [or_eq_true, decide_eq_true_eq] at h ⊢
          rcases h with rfl | h
          · exact ⟨Or.inl rfl, forall_mem_cons.mpr ⟨hcolon, forall_mem_cons.mpr ⟨hcolon, nofun⟩⟩⟩
          · obtain ⟨hlower, hrest⟩ := ipv6Groups_lower h
            exact ⟨Or.inr hlower, forall_mem_cons.mpr ⟨hcolon, forall_mem_cons.mpr ⟨hcolon, hrest⟩⟩⟩
        · cases h
      · rw [if_neg hc] at h
        rw [if_neg fun heq => hc ((lower_mark c).1.mp heq)]
        exact ipv6Groups_lower h

section Canon

variable {host rest src : Bytes} {defaultPort port : Nat}

def PortSuffix (rest : Bytes) : Prop := rest = [] ∨ ∃ digits, rest = COLON_BYTE :: digits ∧ ∀ b ∈ digits, isDigitByte b = true

theorem CanonHost.plain (h : CanonHost host) (hb : b ∈ host) :
    isRefused b = false ∧ b ≠ 0x2F ∧ b ≠ 0x23 ∧ b ≠ 0 := by
  cases h with
  | name hne hok hlast hlower =>
    obtain ⟨hrefused, -, -, hslash, hhash, hzero⟩ := hostByte_plain ((regNameOk_iff.mp hok).2.2 b hb)
    exact ⟨hrefused, hslash, hhash, hzero⟩
  | @literal inside hok hlower =>
    rcases mem_cons.mp hb with rfl | hb
    · decide
    · rcases mem_append.mp hb with hb | hb
      · obtain ⟨hrefused, -, hplain⟩ := literalByte_plain ((ipv6Ok_lower hok).2 b hb)
        exact ⟨hrefused, hplain⟩
      · rw [mem_singleton.mp hb]
        decide

theorem PortSuffix.plain (h : PortSuffix rest) (hb : b ∈ rest) :
    isRefused b = false ∧ b ≠ 0x2F ∧ b ≠ 0x23 := by
  obtain rfl | ⟨digits, rfl, hdigits⟩ := h
  · cases hb
  · rcases mem_cons.mp hb with rfl | hb
    · decide
    · obtain ⟨hrefused, -, hplain⟩ := digit_plain (hdigits b hb)
      exact ⟨hrefused, hplain⟩

theorem CanonHost.ne_nil (h : CanonHost host) : host ≠ [] := by
  cases h with
  | name hne => exact hne
  | literal => exact cons_ne_nil _ _

theorem CanonHost.lower (h : CanonHost host) : host.map toAsciiLowercase = host := by
  cases h with
  | name hne hok hlast hlower => exact hlower
  | literal hok hlower =>
    rw [map_cons, map_append, hlower]
    rfl

theorem takeWhile_stop {α : Type*} {p : α → Bool} {l : List α} {x : α} {more : List α} (hl : ∀ y ∈ l, p y = true)
    (hx : p x = false) : (l ++ x :: more).takeWhile p = l := by
  rw [takeWhile_append_of_pos hl, takeWhile_cons_of_neg (by rw [hx]; exact nofun), append_nil]

theorem hostEnd_canon (h : CanonHost host) (hrest : PortSuffix rest) : hostEnd (host ++ rest) = .ok host.length := by
  cases h with
  | name hne hok hlast hlower =>
    have hbytes := (regNameOk_iff.mp hok).2.2
    have hcolon : ∀ b ∈ host, decide (b ≠ 0x3A) = true := fun b hb => decide_eq_true (hostByte_plain (hbytes b hb)).2.1
    have hname : (host ++ rest).takeWhile (· ≠ 0x3A) = host := by
      obtain rfl | ⟨digits, rfl, -⟩ := hrest
      · rw [takeWhile_append_of_pos hcolon]
        exact append_nil _
      · exact takeWhile_stop hcolon rfl
    have hone : ((host ++ rest).drop (host.length + 1)).contains 0x3A = false := by
      obtain rfl | ⟨digits, rfl, hdigits⟩ := hrest
      · rw [append_nil, drop_eq_nil_of_le (Nat.le_succ _)]
        rfl
      · rw [drop_append, drop_eq_nil_of_le (Nat.le_succ _), Nat.add_sub_cancel_left, nil_append,
          drop_one, tail_cons, eq_false_iff, ne_eq, contains_iff_mem]
        exact fun hin => (digit_plain (hdigits _ hin)).2.1 rfl
    have hhead : (host ++ rest).head? ≠ some 0x5B := by
      obtain ⟨b, bs, rfl⟩ := exists_cons_of_ne_nil hne
      exact fun heq => (hostByte_plain (hbytes b mem_cons_self)).2.2.1 (Option.some.inj heq)
    unfold hostEnd
    rw [if_neg hhead]
    dsimp only
    rw [hname, hone, hok]
    rfl
  | @literal inside hok hlower =>
    have hbytes := (ipv6Ok_lower hok).2
    have hinside : ((0x5B :: (inside ++ [0x5D]) ++ rest).drop 1).takeWhile (· ≠ 0x5D) = inside := by
      rw [cons_append, drop_one, tail_cons, append_assoc]
      exact takeWhile_stop (fun b hb => decide_eq_true (literalByte_plain (hbytes b hb)).2.1) rfl
    have hlength : (0x5B :: (inside ++ [0x5D])).length = inside.length + 2 := by
      rw [length_cons, length_append]
      rfl
    have hhead : ((0x5B : UInt8) :: (inside ++ [0x5D]) ++ rest).head? = some 0x5B := rfl
    unfold hostEnd
    rw [if_pos hhead]
    dsimp only
    rw [hinside, hok, if_neg, hlength]
    rw [length_append, hlength]
    simp
    omega

theorem find_refused_none (h : ∀ b ∈ src, isRefused b = false) :
    src.find? (fun b => 0x80 ≤ b || b = 0x25 || b = 0x40) = none := by
  rw [List.find?_eq_none]
  exact fun b hb => by rw [show (decide (0x80 ≤ b) || decide (b = 0x25) || decide (b = 0x40)) = false from h b hb]; exact nofun

theorem normHost_canon (h : CanonHost host) (hlength : host.length ≤ MAX_ROUTE_HOST) (hrest : PortSuffix rest)
    (hshort : rest.length ≤ PORT_SUFFIX_MAX) (defaultPort : Nat) :
    normHost (host ++ rest) defaultPort = (authorityPort rest defaultPort).map fun port => (host, port) := by
  have hne := h.ne_nil
  have hpos := length_pos_of_ne_nil hne
  have hplain : ∀ b ∈ host ++ rest, isRefused b = false := fun b hb =>
    (mem_append.mp hb).elim (fun hin => (h.plain hin).1) fun hin => (hrest.plain hin).1
  have hundotted : (decide ((host ++ rest).head? ≠ some 0x5B) && decide (1 < host.length) &&
      decide (Bytes.at0 (host ++ rest) (host.length - 1) = 0x2E)) = false := by
    cases h with
    | name _ hok hlast hlower =>
      have hat : Bytes.at0 (host ++ rest) (host.length - 1) ≠ 0x2E := by
        rw [Bytes.at0, List.getD_eq_getElem?_getD, List.getElem?_append_left (by omega), ← List.getLast?_eq_getElem?]
        intro heq
        rw [List.getLast?_eq_some_getLast hne] at hlast heq
        exact hlast (congrArg some heq)
      rw [decide_eq_false hat, Bool.and_false]
    | literal hok hlower => rfl
  unfold normHost
  rw [if_neg (append_ne_nil_of_left_ne_nil hne _), if_neg (by rw [length_append]; omega),
    find_refused_none hplain]
  dsimp only
  rw [hostEnd_canon h hrest]
  change (if _ then _ else _) = _
  rw [hundotted, if_neg false_ne_true, if_neg hpos.ne', if_neg (not_lt.mpr hlength), drop_left, take_left,
    h.lower]

theorem findPat_none_iff {α : Type*} [DecidableEq α] {pat l : List α} (hpat : pat ≠ []) :
    findPat pat l = none ↔ ¬ pat <:+: l := by
  constructor
  · rintro hnone ⟨a, b, rfl⟩
    obtain ⟨i, hi, -⟩ := findPat_of_occurs hpat a b
    rw [append_assoc, hi] at hnone
    cases hnone
  · intro hno
    cases hfind : findPat pat l with
    | none => rfl
    | some i =>
      obtain ⟨a, b, rfl, -⟩ := findPat_split hfind
      exact absurd ⟨a, b, rfl⟩ hno

theorem dots_lower (h : [0x2E, 0x2E] <:+: s.map toAsciiLowercase) : ([0x2E, 0x2E] : Bytes) <:+: s := by
  obtain ⟨a, b, hab⟩ := h
  obtain ⟨ac, b', rfl, hac, -⟩ := List.map_eq_append_iff.mp hab.symm
  obtain ⟨a', c, rfl, -, hc⟩ := List.map_eq_append_iff.mp hac
  obtain ⟨x, c', rfl, hx, hc'⟩ := List.map_eq_cons_iff.mp hc
  obtain ⟨y, c'', rfl, hy, hnil⟩ := List.map_eq_cons_iff.mp hc'
  obtain rfl := map_eq_nil_iff.mp hnil
  obtain rfl := (lower_mark x).2.mp hx
  obtain rfl := (lower_mark y).2.mp hy
  exact ⟨a', b', rfl⟩

theorem canonHost_of_name {name part more : Bytes} (hok : regNameOk name = true) (hpart : name = part ++ more) (hne : part ≠ [])
    (hlast : part.getLast? ≠ some 0x2E) : CanonHost (part.map toAsciiLowercase) := by
  obtain ⟨hhead, hdots, hbytes⟩ := regNameOk_iff.mp hok
  have hinside : part <:+: name := ⟨[], more, by rw [nil_append, hpart]⟩
  have hfirst : part.head? = name.head? := by
    obtain ⟨b, bs, rfl⟩ := exists_cons_of_ne_nil hne
    rw [hpart]
    rfl
  refine .name (fun heq => hne (map_eq_nil_iff.mp heq)) (regNameOk_iff.mpr ⟨?_, ?_, ?_⟩) ?_ ?_
  · rw [List.head?_map, hfirst]
    intro heq
    obtain ⟨b, hb, hlow⟩ := map_eq_some_iff.mp heq
    rw [(lower_mark b).2.mp hlow] at hb
    exact hhead hb
  · rw [findPat_none_iff (cons_ne_nil _ _)] at hdots ⊢
    exact fun h => hdots ((dots_lower h).trans hinside)
  · intro b hb
    obtain ⟨c, hc, rfl⟩ := mem_map.mp hb
    exact lower_hostByte (hbytes c (hinside.subset hc))
  · rw [List.getLast?_map]
    intro heq
    obtain ⟨b, hb, hlow⟩ := map_eq_some_iff.mp heq
    rw [(lower_mark b).2.mp hlow] at hb
    exact hlast hb
  · rw [map_map]
    exact map_congr_left fun b _ => lower_idem b

theorem canonHost_of_hostEnd {e : Nat} (hend : hostEnd src = .ok e)
    (hlen : (if decide (src.head? ≠ some 0x5B) && decide (1 < e) && decide (src.at0 (e - 1) = 0x2E) then e - 1 else e) ≠ 0) :
    CanonHost ((src.take (if decide (src.head? ≠ some 0x5B) && decide (1 < e) && decide (src.at0 (e - 1) = 0x2E)
      then e - 1 else e)).map toAsciiLowercase) := by
  unfold hostEnd at hend
  split at hend
  next hbracket =>
    dsimp only at hend
    split at hend
    · cases hend
    next hinside =>
      cases hend
      rw [decide_eq_false (not_not.mpr hbracket), Bool.false_and, Bool.false_and, if_neg false_ne_true]
      rw [not_eq_true, or_eq_false_iff, decide_eq_false_iff_not, Bool.not_eq_false'] at hinside
      obtain ⟨hlong, hok⟩ := hinside
      obtain ⟨rest, rfl⟩ := List.head?_eq_some_iff.mp hbracket
      rw [drop_one, tail_cons] at hlong hok ⊢
      have hcut : rest.takeWhile (· ≠ 0x5D) ++ rest.dropWhile (· ≠ 0x5D) = rest := takeWhile_append_dropWhile
      obtain ⟨more, hmore⟩ : ∃ more, rest.dropWhile (· ≠ 0x5D) = 0x5D :: more := by
        cases hdrop : rest.dropWhile (· ≠ 0x5D) with
        | nil =>
          rw [hdrop, append_nil] at hcut
          rw [hcut] at hlong
          exact absurd rfl hlong
        | cons c more =>
          have hstop := List.head?_dropWhile_not (fun b : UInt8 => decide (b ≠ 0x5D)) rest
          rw [hdrop] at hstop
          obtain rfl : c = 0x5D := by simpa using hstop
          exact ⟨more, rfl⟩
      rw [hmore] at hcut
      generalize rest.takeWhile (· ≠ 0x5D) = inside at hok hcut ⊢
      have htake : ((0x5B : UInt8) :: rest).take (inside.length + 2) = 0x5B :: (inside ++ [0x5D]) := by
        have hfront : (0x5B : UInt8) :: rest = 0x5B :: (inside ++ [0x5D]) ++ more := by
          rw [← hcut, cons_append, append_assoc]
          rfl
        have hlength : inside.length + 2 = ((0x5B : UInt8) :: (inside ++ [0x5D])).length := by
          rw [length_cons, length_append]
          rfl
        rw [hfront, hlength, take_left]
      rw [htake, map_cons, map_append]
      refine .literal (ipv6Ok_lower hok).1 ?_
      rw [map_map]
      exact map_congr_left fun b _ => lower_idem b
  next hname =>
    dsimp only at hend
    split at hend
    · cases hend
    next hok =>
      cases hend
      rw [not_eq_true, or_eq_false_iff, Bool.not_eq_false'] at hok
      obtain ⟨t, ht⟩ := takeWhile_prefix (fun b : UInt8 => decide (b ≠ 0x3A)) (l := src)
      rw [decide_eq_true hname, Bool.true_and] at hlen ⊢
      generalize src.takeWhile (· ≠ 0x3A) = name at hok ht hlen ⊢
      obtain ⟨hhead, hdots, -⟩ := regNameOk_iff.mp hok.2
      rcases List.eq_nil_or_concat' name with rfl | ⟨part, last, rfl⟩
      · exact absurd rfl hlen
      have hlength : (part ++ [last]).length = part.length + 1 := length_append
      have hat : src.at0 ((part ++ [last]).length - 1) = last := by
        rw [← ht, hlength, Nat.add_sub_cancel, Bytes.at0, append_assoc, List.getD_eq_getElem?_getD,
          List.getElem?_append_right le_rfl, Nat.sub_self]
        rfl
      by_cases hundotted : (decide (1 < (part ++ [last]).length) && decide (src.at0 ((part ++ [last]).length - 1) = 0x2E)) = true
      · rw [if_pos hundotted]
        rw [and_eq_true, decide_eq_true_eq, decide_eq_true_eq, hat] at hundotted
        obtain ⟨hlong, rfl⟩ := hundotted
        have htake : src.take ((part ++ [0x2E]).length - 1) = part := by
          rw [← ht, hlength, Nat.add_sub_cancel, append_assoc, take_left]
        rw [htake]
        refine canonHost_of_name hok.2 rfl (ne_nil_of_length_pos (by omega)) fun hlast => ?_
        rw [findPat_none_iff (cons_ne_nil _ _)] at hdots
        obtain ⟨front, rfl⟩ := List.getLast?_eq_some_iff.mp hlast
        exact hdots ⟨front, [], by simp⟩
      · rw [if_neg hundotted]
        have htake : src.take (part ++ [last]).length = part ++ [last] := by rw [← ht, take_left]
        rw [htake]
        refine canonHost_of_name hok.2 (append_nil _).symm (append_ne_nil_of_right_ne_nil _ (cons_ne_nil _ _))
          fun hlast => ?_
        obtain rfl : last = 0x2E := by simpa using hlast
        rw [hat, and_eq_true, not_and, decide_eq_true_eq] at hundotted
        have hnil : part = [] := by
          by_contra hne
          have hpos := length_pos_of_ne_nil hne
          exact hundotted (by omega) rfl
        rw [hnil] at hhead
        exact hhead rfl

theorem normHost_ok (h : normHost src defaultPort = .ok (host, port)) :
    CanonHost host ∧ host.length ≤ MAX_ROUTE_HOST ∧ (port = defaultPort ∨ 0 < port ∧ port ≤ 65535) := by
  unfold normHost at h
  split at h
  · cases h
  split at h
  · cases h
  split at h
  · cases h
  · cases h
  cases he : hostEnd src with
  | error e =>
    rw [he] at h
    cases h
  | ok e =>
    rw [he] at h
    have hcanon := fun hlen => canonHost_of_hostEnd he hlen
    dsimp only [Except.bind] at h
    generalize (if decide (src.head? ≠ some 0x5B) && decide (1 < e) && decide (src.at0 (e - 1) = 0x2E)
      then e - 1 else e) = len at h hcanon
    split at h
    · cases h
    next hlen =>
      split at h
      · cases h
      next hfits =>
        cases hport : authorityPort (src.drop e) defaultPort with
        | error err =>
          rw [hport] at h
          cases h
        | ok p =>
          rw [hport] at h
          cases h
          refine ⟨hcanon hlen, ?_, ?_⟩
          · rw [length_map, length_take]
            omega
          · unfold authorityPort at hport
            split at hport
            · cases hport
              exact Or.inl rfl
            · split at hport
              · cases hport
              split at hport
              · cases hport
                exact Or.inl rfl
              split at hport
              · cases hport
              dsimp only at hport
              split at hport
              · cases hport
              next hrange =>
                cases hport
                rw [or_eq_true, decide_eq_true_eq, decide_eq_true_eq, not_or] at hrange
                exact Or.inr ⟨Nat.pos_of_ne_zero hrange.1, not_lt.mp hrange.2⟩

theorem digitsValue_append (digits : Bytes) {d : Nat} (hd : d < 10) :
    digitsValue (digits ++ [digitByte d]) = digitsValue digits * 10 + d := by
  have hvalue : ∀ d < 10, (digitByte d).toNat - 0x30 = d := by decide
  rw [digitsValue, foldl_append, foldl_cons, foldl_nil, hvalue d hd]
  rfl

theorem digitsValue_decimal (n : Nat) : digitsValue (decimal n) = n := by
  refine decimal_induction (P := fun n digits => digitsValue digits = n) (fun d hd => ?_) (fun n digits d ih hd => ?_) n
  · have hone := digitsValue_append [] hd
    rw [nil_append] at hone
    rw [hone]
    exact Nat.zero_add d
  · rw [digitsValue_append digits hd, ih]

theorem digit_decimal {n : Nat} (h : b ∈ decimal n) : isDigitByte b = true := by
  obtain ⟨hlow, hhigh⟩ := mem_decimal h
  rw [isDigitByte, and_eq_true, decide_eq_true_eq, decide_eq_true_eq, UInt8.le_iff_toNat_le, UInt8.le_iff_toNat_le]
  exact ⟨hlow, hhigh⟩

theorem portSuffix_decimal (port : Nat) : PortSuffix (COLON_BYTE :: decimal port) :=
  Or.inr ⟨decimal port, rfl, fun _ => digit_decimal⟩

theorem length_port (hport : port ≤ 65535) : (COLON_BYTE :: decimal port).length ≤ PORT_SUFFIX_MAX :=
  Nat.succ_le_succ (length_decimal 4 (by omega))

theorem authorityPort_decimal (hpos : 0 < port) (hport : port ≤ 65535) (defaultPort : Nat) :
    authorityPort (COLON_BYTE :: decimal port) defaultPort = .ok port := by
  have hlength : (decimal port).length ≤ 5 := length_decimal 4 (by omega)
  have hdigits : (decimal port).all isDigitByte = true := all_eq_true.mpr fun _ => digit_decimal
  rw [authorityPort, if_neg (not_not.mpr (show COLON_BYTE = 0x3A from rfl)), if_neg (decimal_ne_nil port), decide_eq_false (not_lt.mpr hlength), hdigits]
  dsimp only
  rw [digitsValue_decimal, if_neg nofun, decide_eq_false hpos.ne', decide_eq_false (not_lt.mpr hport)]
  rfl

theorem normHost_port (h : CanonHost host) (hlength : host.length ≤ MAX_ROUTE_HOST) (hpos : 0 < port) (hport : port ≤ 65535)
    (defaultPort : Nat) : normHost (host ++ COLON_BYTE :: decimal port) defaultPort = .ok (host, port) := by
  rw [normHost_canon h hlength (portSuffix_decimal port) (length_port hport), authorityPort_decimal hpos hport]
  rfl

theorem normHost_bare (h : CanonHost host) (hlength : host.length ≤ MAX_ROUTE_HOST) (defaultPort : Nat) :
    normHost host defaultPort = .ok (host, defaultPort) := by
  have hbare := normHost_canon h hlength (Or.inl rfl) (Nat.zero_le _) defaultPort
  rwa [append_nil] at hbare

theorem canonicalAuthority_idem {room : Nat} {out : Bytes} (h : canonicalAuthority room src defaultPort = .ok out) :
    canonicalAuthority room out defaultPort = .ok out := by
  unfold canonicalAuthority at h
  cases hnorm : normHost src defaultPort with
  | error e =>
    rw [hnorm] at h
    cases h
  | ok r =>
    obtain ⟨host, port⟩ := r
    obtain ⟨hcanon, hlength, hport⟩ := normHost_ok hnorm
    have hagain : normHost (if port = defaultPort then host else host ++ 0x3A :: decimal port) defaultPort =
        .ok (host, port) := by
      split
      next heq =>
        rw [heq]
        exact normHost_bare hcanon hlength defaultPort
      next hne =>
        obtain heq | ⟨hpos, hmax⟩ := hport
        · exact absurd heq hne
        · exact normHost_port hcanon hlength hpos hmax defaultPort
    rw [hnorm] at h
    unfold canonicalAuthority
    dsimp only [Except.bind] at h
    generalize htext : (if port = defaultPort then host else host ++ 0x3A :: decimal port) = text at h hagain
    split at h
    · cases h
    next hfits =>
      cases h
      rw [hagain]
      dsimp only [Except.bind]
      rw [htext, if_neg hfits]

end Canon

end Wave.Common
