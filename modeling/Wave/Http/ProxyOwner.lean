import Wave.Http.ProxyDial

/-! # Replies reach the slot that dialled

`DialInv`: a slot that waits owns the connect, and an open connection is the backend of the slot that dialled it. -/

namespace Wave.Http

open Lib
open Function (update update_apply update_self update_of_ne)

variable {d : Nat} {conn : UInt16} {taken : Bool}

variable {w : DialWorld} {i : Nat} {c : ConnSlot} {s : Server} {me : UInt16} {inp : DialInput} {cmds : List NetCmd}

def Phase.holds : Phase → Bool
  | .proxyWaitConnect | .proxySendRequest | .proxyRelayHeaders | .proxyRelayBody | .closeConn => true
  | _ => false

/-- What a waiting slot has heard: its connection, a failure, or nothing yet, and
then its last dial still waits. -/
def Heard (c : ConnSlot) (waits : Prop) : Prop :=
  (c.proxyConnected = true ∧ c.proxyConnectFailed = false ∧ c.backendConnId ≠ none) ∨
  (c.backendConnId = none ∧ c.backendClosed = false ∧ c.proxyConnected = false ∧
    (c.proxyConnectFailed = true ∨ (c.proxyConnectFailed = false ∧ waits)))

structure DialInv (slot : Nat → ConnSlot) (owner : Option Nat) (count : Nat) (dial : Nat → Dial)
    (last : Nat → Option Nat) : Prop where
  backend : ∀ i conn, (slot i).backendConnId = some conn →
    (slot i).phase.holds = true ∧ ∃ d, last i = some d ∧ (dial d).conn = some conn
  forwards : ∀ i, (slot i).phase.forwards = true → (slot i).backendConnId ≠ none
  ready : ∀ i, (slot i).phase = .proxyConnect →
    (slot i).proxyConnected = false ∧ (slot i).proxyConnectFailed = false ∧
      (slot i).backendClosed = false
  begun : ∀ i, (slot i).phase = .proxyWaitConnect →
    owner = some i ∧ Heard (slot i) (∃ d, last i = some d ∧ (dial d).waiting = true)
  waiting : ∀ d, (dial d).waiting = true →
    last (dial d).slot = some d ∧ (slot (dial d).slot).phase = .proxyWaitConnect ∧
      (slot (dial d).slot).proxyConnected = false ∧ (slot (dial d).slot).proxyConnectFailed = false
  lastSlot : ∀ i d, last i = some d → d < count ∧ (dial d).slot = i
  later : ∀ d, count ≤ d → dial d = {}
  opened : ∀ d, (dial d).isOpen = true →
    last (dial d).slot = some d ∧ (slot (dial d).slot).backendConnId = (dial d).conn ∧
      (dial d).conn ≠ none ∧ (slot (dial d).slot).backendClosed = false
  uniq : ∀ i j conn, (slot i).backendConnId = some conn → (slot j).backendConnId = some conn → i = j
  apart : ∀ i j conn, (slot i).connId = some conn → (slot j).backendConnId ≠ some conn

theorem update_cases {α : Type*} (f : Nat → α) (i : Nat) (x : α) (j : Nat) :
    (j = i ∧ update f i x j = x) ∨ (j ≠ i ∧ update f i x j = f j) := by
  by_cases h : j = i
  · exact .inl ⟨h, by rw [h, update_self]⟩
  · exact .inr ⟨h, update_of_ne h _ _⟩

section DialInv

variable {slot : Nat → ConnSlot} {owner : Option Nat} {count : Nat} {dial : Nat → Dial}
  {last : Nat → Option Nat} {i : Nat}

section

variable (h : DialInv slot owner count dial last)

include h

theorem DialInv.waits_unique {j : Nat}
    (hi : (slot i).phase = .proxyWaitConnect) (hj : (slot j).phase = .proxyWaitConnect) : i = j :=
  Option.some.inj ((h.begun i hi).1.symm.trans (h.begun j hj).1)

theorem DialInv.waiting_slot (hd : (dial d).waiting = true) : owner = some (dial d).slot :=
  (h.begun _ (h.waiting d hd).2.1).1

theorem DialInv.lower {dial' : Nat → Dial}
    (hd : ∀ d, dial' d = dial d ∨ dial' d = { dial d with isOpen := false }) :
    DialInv slot owner count dial' last := by
  have hsame (d : Nat) : (dial' d).slot = (dial d).slot ∧ (dial' d).waiting = (dial d).waiting ∧
      (dial' d).conn = (dial d).conn := by
    rcases hd d with h | h <;> rw [h] <;> exact ⟨rfl, rfl, rfl⟩
  refine ⟨?_, h.forwards, h.ready, ?_, ?_, ?_, ?_, ?_, h.uniq, h.apart⟩
  · intro j conn hj
    obtain ⟨hph, d, hlast, hconn⟩ := h.backend j conn hj
    exact ⟨hph, d, hlast, by rw [(hsame d).2.2, hconn]⟩
  · intro j hj
    simpa only [(hsame _).2.1] using h.begun j hj
  · intro d hw
    rw [(hsame d).2.1] at hw
    rw [(hsame d).1]
    exact h.waiting d hw
  · intro j d hlast
    rw [(hsame d).1]
    exact h.lastSlot j d hlast
  · intro d hle
    rcases hd d with heq | heq <;> rw [heq, h.later d hle]
  · intro d ho
    rcases hd d with heq | heq
    · rw [heq] at ho ⊢
      exact h.opened d ho
    · rw [heq] at ho
      cases ho

theorem DialInv.settled {owner' : Option Nat} (hidle : ∀ d, (dial d).waiting = true → (dial d).slot ≠ i)
    (hconn : c.connId = (slot i).connId) (hback : c.backendConnId = (slot i).backendConnId)
    (hclosed : (slot i).backendConnId ≠ none → c.backendClosed = (slot i).backendClosed)
    (hholds : c.backendConnId ≠ none → c.phase.holds = true)
    (hfwd : c.phase.forwards = true → c.backendConnId ≠ none)
    (hready : c.phase = .proxyConnect →
      c.proxyConnected = false ∧ c.proxyConnectFailed = false ∧ c.backendClosed = false)
    (hphase : c.phase ≠ .proxyWaitConnect)
    (howner : ∀ j, j ≠ i → (slot j).phase = .proxyWaitConnect → owner' = some j) :
    DialInv (update slot i c) owner' count dial last := by
  have hbackAt (j : Nat) : (update slot i c j).backendConnId = (slot j).backendConnId := by
    obtain ⟨hj, heq⟩ | ⟨-, heq⟩ := update_cases slot i c j <;> rw [heq]
    rw [hj, hback]
  refine ⟨?_, ?_, ?_, ?_, ?_, h.lastSlot, h.later, ?_, ?_, ?_⟩
  · intro j conn hj
    rw [hbackAt] at hj
    refine ⟨?_, (h.backend j conn hj).2⟩
    obtain ⟨rfl, heq⟩ | ⟨-, heq⟩ := update_cases slot i c j <;> rw [heq]
    · exact hholds (by rw [hback, hj]; exact some_ne_none _)
    · exact (h.backend j conn hj).1
  · intro j hj
    obtain ⟨-, heq⟩ | ⟨-, heq⟩ := update_cases slot i c j <;> rw [heq] at hj ⊢
    · exact hfwd hj
    · exact h.forwards j hj
  · intro j hj
    obtain ⟨-, heq⟩ | ⟨-, heq⟩ := update_cases slot i c j <;> rw [heq] at hj ⊢
    · exact hready hj
    · exact h.ready j hj
  · intro j hj
    obtain ⟨-, heq⟩ | ⟨hji, heq⟩ := update_cases slot i c j <;> rw [heq] at hj ⊢
    · exact absurd hj hphase
    · exact ⟨howner j hji hj, (h.begun j hj).2⟩
  · intro d hd
    rw [update_of_ne (hidle d hd)]
    exact h.waiting d hd
  · intro d ho
    obtain ⟨hlast, hb, hsome, hcl⟩ := h.opened d ho
    refine ⟨hlast, by rw [hbackAt]; exact hb, hsome, ?_⟩
    obtain ⟨hdi, heq⟩ | ⟨-, heq⟩ := update_cases slot i c (dial d).slot <;> rw [heq]
    · rw [hdi] at hb hcl
      rw [hclosed (by rw [hb]; exact hsome), hcl]
    · exact hcl
  · intro j k conn hj hk
    rw [hbackAt] at hj hk
    exact h.uniq j k conn hj hk
  · intro j k conn hj
    rw [hbackAt]
    refine h.apart j k conn ?_
    obtain ⟨hji, heq⟩ | ⟨-, heq⟩ := update_cases slot i c j <;> rw [heq] at hj
    · rw [hji, ← hconn, hj]
    · exact hj

theorem DialInv.same (hconn : c.connId = (slot i).connId) (hback : c.backendConnId = (slot i).backendConnId)
    (hclosed : c.backendClosed = (slot i).backendClosed) (hphase : c.phase = (slot i).phase)
    (hcn : c.proxyConnected = (slot i).proxyConnected)
    (hfl : c.proxyConnectFailed = (slot i).proxyConnectFailed) :
    DialInv (update slot i c) owner count dial last := by
  have hat (j : Nat) : (update slot i c j).connId = (slot j).connId ∧
      (update slot i c j).backendConnId = (slot j).backendConnId ∧
      (update slot i c j).backendClosed = (slot j).backendClosed ∧
      (update slot i c j).phase = (slot j).phase ∧
      (update slot i c j).proxyConnected = (slot j).proxyConnected ∧
      (update slot i c j).proxyConnectFailed = (slot j).proxyConnectFailed := by
    obtain ⟨rfl, heq⟩ | ⟨-, heq⟩ := update_cases slot i c j <;> rw [heq]
    · exact ⟨hconn, hback, hclosed, hphase, hcn, hfl⟩
    · exact ⟨rfl, rfl, rfl, rfl, rfl, rfl⟩
  constructor
  · simpa only [(hat _).2.1, (hat _).2.2.2.1] using h.backend
  · simpa only [(hat _).2.1, (hat _).2.2.2.1] using h.forwards
  · simpa only [(hat _).2.2.1, (hat _).2.2.2.1, (hat _).2.2.2.2.1, (hat _).2.2.2.2.2] using h.ready
  · simpa only [Heard, (hat _).2.1, (hat _).2.2.1, (hat _).2.2.2.1, (hat _).2.2.2.2.1,
      (hat _).2.2.2.2.2] using h.begun
  · simpa only [(hat _).2.2.2.1, (hat _).2.2.2.2.1, (hat _).2.2.2.2.2] using h.waiting
  · exact h.lastSlot
  · exact h.later
  · simpa only [(hat _).2.1, (hat _).2.2.1] using h.opened
  · simpa only [(hat _).2.1] using h.uniq
  · simpa only [(hat _).1, (hat _).2.1] using h.apart

theorem DialInv.claim (hown : owner = none ∨ owner = some i) : DialInv slot (some i) count dial last := by
  refine ⟨h.backend, h.forwards, h.ready, ?_, h.waiting, h.lastSlot, h.later, h.opened, h.uniq,
    h.apart⟩
  intro j hj
  obtain ⟨hown', hheard⟩ := h.begun j hj
  rcases hown with hown | hown
  · rw [hown] at hown'
    cases hown'
  · exact ⟨hown.symm.trans hown', hheard⟩

end

theorem DialInv.sent (h : DialInv slot (some i) count dial last)
    (hphase : (slot i).phase = .proxyConnect) (hconn : c.connId = (slot i).connId)
    (hback : c.backendConnId = (slot i).backendConnId)
    (hclosed : c.backendClosed = (slot i).backendClosed) (hc : c.phase = .proxyWaitConnect)
    (hcn : c.proxyConnected = (slot i).proxyConnected)
    (hfl : c.proxyConnectFailed = (slot i).proxyConnectFailed) :
    DialInv (update slot i c) (some i) (count + 1)
      (update dial count { slot := i, waiting := true })
      (update last i (some count)) := by
  obtain ⟨hcn', hfl', hclosed'⟩ := h.ready i hphase
  -- the slot holds nothing, and no slot waits while the connect is this one's
  have hnone : (slot i).backendConnId = none := by
    cases hb : (slot i).backendConnId with
    | none => rfl
    | some conn =>
      have := (h.backend i conn hb).1
      rw [hphase] at this
      cases this
  have hquiet (d : Nat) : (dial d).waiting = false := by
    cases hw : (dial d).waiting with
    | false => rfl
    | true =>
      have hslot := Option.some.inj (h.waiting_slot hw)
      have := (h.waiting d hw).2.1
      rw [← hslot, hphase] at this
      cases this
  have hlt {j d : Nat} (hl : last j = some d) : d ≠ count := Nat.ne_of_lt (h.lastSlot j d hl).1
  have hbackAt (j : Nat) : (update slot i c j).backendConnId = (slot j).backendConnId := by
    obtain ⟨hj, heq⟩ | ⟨-, heq⟩ := update_cases slot i c j <;> rw [heq]
    rw [hj, hback]
  have hne {j : Nat} {conn : UInt16} (hj : (slot j).backendConnId = some conn) : j ≠ i := by
    rintro rfl
    rw [hnone] at hj
    cases hj
  refine ⟨?_, ?_, ?_, ?_, ?_, ?_, ?_, ?_, ?_, ?_⟩
  · intro j conn hj
    rw [hbackAt] at hj
    obtain ⟨hph, d, hl, hd⟩ := h.backend j conn hj
    rw [update_of_ne (hne hj), update_of_ne (hne hj)]
    exact ⟨hph, d, hl, by rw [update_of_ne (hlt hl)]; exact hd⟩
  · intro j hj
    rw [hbackAt]
    obtain ⟨-, heq⟩ | ⟨-, heq⟩ := update_cases slot i c j <;> rw [heq] at hj
    · rw [hc] at hj
      cases hj
    · exact h.forwards j hj
  · intro j hj
    obtain ⟨-, heq⟩ | ⟨-, heq⟩ := update_cases slot i c j <;> rw [heq] at hj ⊢
    · rw [hc] at hj
      cases hj
    · exact h.ready j hj
  · intro j hj
    obtain ⟨hji, heq⟩ | ⟨hji, heq⟩ := update_cases slot i c j <;> rw [heq] at hj ⊢
    · refine ⟨by rw [hji], .inr ⟨hback.trans hnone, hclosed.trans hclosed', hcn.trans hcn', .inr
        ⟨hfl.trans hfl', count, by rw [hji, update_self], by rw [update_self]⟩⟩⟩
    · exact absurd (Option.some.inj (h.begun j hj).1).symm hji
  · intro d hd
    obtain ⟨hdc, heq⟩ | ⟨-, heq⟩ := update_cases dial count { slot := i, waiting := true } d
    · rw [heq]
      simp only [update_self]
      exact ⟨by rw [hdc], hc, hcn.trans hcn', hfl.trans hfl'⟩
    · rw [heq, hquiet] at hd
      cases hd
  · intro j d hl
    obtain ⟨hji, heq⟩ | ⟨-, heq⟩ := update_cases last i (some count) j <;> rw [heq] at hl
    · obtain rfl := Option.some.inj hl
      rw [update_self]
      exact ⟨Nat.lt_succ_self _, hji.symm⟩
    · rw [update_of_ne (hlt hl)]
      exact ⟨Nat.lt_succ_of_lt (h.lastSlot j d hl).1, (h.lastSlot j d hl).2⟩
  · intro d hle
    rw [update_of_ne (Nat.ne_of_gt hle)]
    exact h.later d (Nat.le_of_succ_le hle)
  · intro d ho
    obtain ⟨-, heq⟩ | ⟨-, heq⟩ := update_cases dial count { slot := i, waiting := true } d <;>
      rw [heq] at ho ⊢
    · cases ho
    · obtain ⟨hlast, hb, hsome, hcl⟩ := h.opened d ho
      obtain ⟨conn, hconn'⟩ := Option.ne_none_iff_exists'.mp hsome
      have hdi := hne (hb.trans hconn')
      rw [update_of_ne hdi, update_of_ne hdi]
      exact ⟨hlast, hb, hsome, hcl⟩
  · intro j k conn hj hk
    rw [hbackAt] at hj hk
    exact h.uniq j k conn hj hk
  · intro j k conn hj
    rw [hbackAt]
    refine h.apart j k conn ?_
    obtain ⟨hji, heq⟩ | ⟨-, heq⟩ := update_cases slot i c j <;> rw [heq] at hj
    · rw [hji, ← hconn, hj]
    · exact hj

section

variable (h : DialInv slot owner count dial last)

include h

theorem DialInv.waiting_unique {d e : Nat}
    (hd : (dial d).waiting = true) (he : (dial e).waiting = true) : e = d := by
  have hslot : (dial e).slot = (dial d).slot :=
    Option.some.inj ((h.waiting_slot he).symm.trans (h.waiting_slot hd))
  have hlast := (h.waiting e he).1
  rw [hslot, (h.waiting d hd).1] at hlast
  exact (Option.some.inj hlast).symm

theorem DialInv.waiting_backend (hd : (dial d).waiting = true) :
    (slot (dial d).slot).backendConnId = none ∧ (slot (dial d).slot).backendClosed = false := by
  obtain ⟨-, hph, hcn, -⟩ := h.waiting d hd
  rcases (h.begun _ hph).2 with ⟨hcn', -⟩ | ⟨hb, hcl, -⟩
  · rw [hcn] at hcn'
    cases hcn'
  · exact ⟨hb, hcl⟩

theorem DialInv.failed (hd : (dial d).waiting = true) :
    DialInv (update slot (dial d).slot
        { slot (dial d).slot with proxyConnectFailed := true }) owner count
      (update dial d { dial d with waiting := false }) last := by
  obtain ⟨hlast, hph, hcn, -⟩ := h.waiting d hd
  obtain ⟨hnone, hcl⟩ := h.waiting_backend hd
  generalize hi : (dial d).slot = i at *
  let c : ConnSlot := { slot i with proxyConnectFailed := true }
  have hslotAt (e : Nat) : (update dial d { dial d with waiting := false } e).slot =
      (dial e).slot := by
    obtain ⟨rfl, heq⟩ | ⟨-, heq⟩ := update_cases dial d { dial d with waiting := false } e <;> rw [heq]
  have hconnAt (e : Nat) : (update dial d { dial d with waiting := false } e).conn =
      (dial e).conn := by
    obtain ⟨rfl, heq⟩ | ⟨-, heq⟩ := update_cases dial d { dial d with waiting := false } e <;> rw [heq]
  have hopenAt (e : Nat) : (update dial d { dial d with waiting := false } e).isOpen =
      (dial e).isOpen := by
    obtain ⟨rfl, heq⟩ | ⟨-, heq⟩ := update_cases dial d { dial d with waiting := false } e <;> rw [heq]
  have hat (j : Nat) : (update slot i c j).connId = (slot j).connId ∧
      (update slot i c j).backendConnId = (slot j).backendConnId ∧
      (update slot i c j).backendClosed = (slot j).backendClosed ∧
      (update slot i c j).phase = (slot j).phase ∧
      (update slot i c j).proxyConnected = (slot j).proxyConnected := by
    obtain ⟨rfl, heq⟩ | ⟨-, heq⟩ := update_cases slot i c j <;> rw [heq]
    · exact ⟨rfl, rfl, rfl, rfl, rfl⟩
    · exact ⟨rfl, rfl, rfl, rfl, rfl⟩
  show DialInv (update slot i c) _ _ _ _
  constructor
  · simpa only [(hat _).2.1, (hat _).2.2.2.1, hconnAt] using h.backend
  · simpa only [(hat _).2.1, (hat _).2.2.2.1] using h.forwards
  · intro j hj
    rw [(hat j).2.2.2.1] at hj
    have hji : j ≠ i := by
      rintro rfl
      rw [hph] at hj
      cases hj
    rw [update_of_ne hji]
    exact h.ready j hj
  · intro j hj
    rw [(hat j).2.2.2.1] at hj
    obtain rfl : i = j := h.waits_unique hph hj
    rw [update_self]
    exact ⟨(h.begun i hj).1, .inr ⟨hnone, hcl, hcn, .inl rfl⟩⟩
  · intro e he
    obtain ⟨-, heq⟩ | ⟨hed, heq⟩ := update_cases dial d { dial d with waiting := false } e <;>
      rw [heq] at he
    · cases he
    · exact absurd (h.waiting_unique hd he) hed
  · simpa only [hslotAt] using h.lastSlot
  · intro e hle
    have hed : e ≠ d := by
      rintro rfl
      rw [h.later e hle] at hd
      cases hd
    rw [update_of_ne hed]
    exact h.later e hle
  · simpa only [hslotAt, hconnAt, hopenAt, (hat _).2.1, (hat _).2.2.1] using h.opened
  · simpa only [(hat _).2.1] using h.uniq
  · simpa only [(hat _).1, (hat _).2.1] using h.apart

theorem DialInv.connected (hd : (dial d).waiting = true)
    (hfresh : ∀ j, (slot j).connId ≠ some conn ∧ (slot j).backendConnId ≠ some conn) :
    DialInv (update slot (dial d).slot
        { slot (dial d).slot with backendConnId := some conn, proxyConnected := true }) owner count
      (update dial d { dial d with waiting := false, conn := some conn, isOpen := true })
      last := by
  obtain ⟨hlast, hph, hcn, hfl⟩ := h.waiting d hd
  obtain ⟨hnone, hcl⟩ := h.waiting_backend hd
  generalize hi : (dial d).slot = i at *
  let c : ConnSlot := { slot i with backendConnId := some conn, proxyConnected := true }
  let x : Dial := { dial d with waiting := false, conn := some conn, isOpen := true }
  have hslotAt (e : Nat) : (update dial d x e).slot = (dial e).slot := by
    obtain ⟨rfl, heq⟩ | ⟨-, heq⟩ := update_cases dial d x e <;> rw [heq]
  have hphaseAt (j : Nat) : (update slot i c j).phase = (slot j).phase := by
    obtain ⟨rfl, heq⟩ | ⟨-, heq⟩ := update_cases slot i c j <;> rw [heq]
  -- a dial that is some other slot's last one is not this one
  have hother {j e : Nat} (hji : j ≠ i) (hl : last j = some e) : e ≠ d := by
    rintro rfl
    exact hji ((h.lastSlot j e hl).2.symm.trans hi)
  show DialInv (update slot i c) _ _ (update dial d x) _
  constructor
  · intro j conn' hj
    rw [hphaseAt]
    obtain ⟨hji, heq⟩ | ⟨hji, heq⟩ := update_cases slot i c j <;> rw [heq] at hj
    · rw [hji, hph]
      refine ⟨rfl, d, hlast, ?_⟩
      rw [update_self]
      exact hj
    · obtain ⟨hph', e, hl, he⟩ := h.backend j conn' hj
      exact ⟨hph', e, hl, by rw [update_of_ne (hother hji hl)]; exact he⟩
  · intro j hj
    rw [hphaseAt] at hj
    obtain ⟨-, heq⟩ | ⟨-, heq⟩ := update_cases slot i c j <;> rw [heq]
    · exact some_ne_none _
    · exact h.forwards j hj
  · intro j hj
    rw [hphaseAt] at hj
    have hji : j ≠ i := by
      rintro rfl
      rw [hph] at hj
      cases hj
    rw [update_of_ne hji]
    exact h.ready j hj
  · intro j hj
    rw [hphaseAt] at hj
    obtain rfl : i = j := h.waits_unique hph hj
    rw [update_self]
    exact ⟨(h.begun i hj).1, .inl ⟨rfl, hfl, some_ne_none _⟩⟩
  · intro e he
    obtain ⟨-, heq⟩ | ⟨hed, heq⟩ := update_cases dial d x e <;> rw [heq] at he
    · cases he
    · exact absurd (h.waiting_unique hd he) hed
  · simpa only [hslotAt] using h.lastSlot
  · intro e hle
    have hed : e ≠ d := by
      rintro rfl
      rw [h.later e hle] at hd
      cases hd
    rw [update_of_ne hed]
    exact h.later e hle
  · intro e ho
    rw [hslotAt]
    obtain ⟨hed, heq⟩ | ⟨hed, heq⟩ := update_cases dial d x e <;> rw [heq] at ho ⊢
    · rw [hed, hi, update_self]
      exact ⟨hlast, rfl, some_ne_none _, hcl⟩
    · obtain ⟨hl, hb, hsome, hcl'⟩ := h.opened e ho
      have hei : (dial e).slot ≠ i := by
        intro heq
        rw [heq, hnone] at hb
        exact hsome hb.symm
      rw [update_of_ne hei]
      exact ⟨hl, hb, hsome, hcl'⟩
  · intro j k conn' hj hk
    obtain ⟨hji, heq⟩ | ⟨-, heq⟩ := update_cases slot i c j <;> rw [heq] at hj
    · obtain ⟨hki, heq⟩ | ⟨-, heq⟩ := update_cases slot i c k <;> rw [heq] at hk
      · rw [hji, hki]
      · exact absurd (hk.trans hj.symm) (hfresh k).2
    · obtain ⟨-, heq⟩ | ⟨-, heq⟩ := update_cases slot i c k <;> rw [heq] at hk
      · exact absurd (hj.trans hk.symm) (hfresh j).2
      · exact h.uniq j k conn' hj hk
  · intro j k conn' hj hk
    have hj' : (slot j).connId = some conn' := by
      obtain ⟨rfl, heq⟩ | ⟨-, heq⟩ := update_cases slot i c j <;> rw [heq] at hj <;> exact hj
    obtain ⟨-, heq⟩ | ⟨-, heq⟩ := update_cases slot i c k <;> rw [heq] at hk
    · exact (hfresh j).1 (hj'.trans hk.symm)
    · exact h.apart j k conn' hj' hk

theorem DialInv.release (hidle : ∀ d, (dial d).waiting = true → (dial d).slot ≠ i)
    (hshut : ∀ d, (dial d).isOpen = true → (dial d).slot ≠ i) :
    DialInv (update slot i {}) (if owner = some i then none else owner) count dial
      (update last i none) := by
  have hlastAt {j d : Nat} (hl : update last i none j = some d) : j ≠ i ∧ last j = some d := by
    obtain ⟨-, heq⟩ | ⟨hji, heq⟩ := update_cases last i none j <;> rw [heq] at hl
    · cases hl
    · exact ⟨hji, hl⟩
  have hbackAt {j : Nat} {conn : UInt16}
      (hj : (update slot i {} j).backendConnId = some conn) :
      j ≠ i ∧ (slot j).backendConnId = some conn := by
    obtain ⟨-, heq⟩ | ⟨hji, heq⟩ := update_cases slot i {} j <;> rw [heq] at hj
    · cases hj
    · exact ⟨hji, hj⟩
  constructor
  · intro j conn hj
    obtain ⟨hji, hj⟩ := hbackAt hj
    rw [update_of_ne hji, update_of_ne hji]
    exact h.backend j conn hj
  · intro j hj
    obtain ⟨-, heq⟩ | ⟨-, heq⟩ := update_cases slot i {} j <;> rw [heq] at hj ⊢
    · cases hj
    · exact h.forwards j hj
  · intro j hj
    obtain ⟨-, heq⟩ | ⟨-, heq⟩ := update_cases slot i {} j <;> rw [heq] at hj ⊢
    · cases hj
    · exact h.ready j hj
  · intro j hj
    obtain ⟨-, heq⟩ | ⟨hji, heq⟩ := update_cases slot i {} j <;> rw [heq] at hj ⊢
    · cases hj
    · obtain ⟨hown, hheard⟩ := h.begun j hj
      rw [update_of_ne hji]
      refine ⟨?_, hheard⟩
      rw [if_neg (by rw [hown]; exact fun heq => hji (Option.some.inj heq)), hown]
  · intro d hd
    rw [update_of_ne (hidle d hd), update_of_ne (hidle d hd)]
    exact h.waiting d hd
  · intro j d hl
    exact h.lastSlot j d (hlastAt hl).2
  · exact h.later
  · intro d ho
    rw [update_of_ne (hshut d ho), update_of_ne (hshut d ho)]
    exact h.opened d ho
  · intro j k conn hj hk
    exact h.uniq j k conn (hbackAt hj).2 (hbackAt hk).2
  · intro j k conn hj hk
    obtain ⟨-, heq⟩ | ⟨-, heq⟩ := update_cases slot i {} j <;> rw [heq] at hj
    · cases hj
    · exact h.apart j k conn hj (hbackAt hk).2

theorem DialInv.backendGone (hback : (slot i).backendConnId ≠ none)
    (hshut : ∀ d, (dial d).isOpen = true → (dial d).slot ≠ i) :
    DialInv (update slot i { slot i with backendClosed := true }) owner count dial last := by
  let c : ConnSlot := { slot i with backendClosed := true }
  have hat (j : Nat) : (update slot i c j).connId = (slot j).connId ∧
      (update slot i c j).backendConnId = (slot j).backendConnId ∧
      (update slot i c j).phase = (slot j).phase ∧
      (update slot i c j).proxyConnected = (slot j).proxyConnected ∧
      (update slot i c j).proxyConnectFailed = (slot j).proxyConnectFailed := by
    obtain ⟨rfl, heq⟩ | ⟨-, heq⟩ := update_cases slot i c j <;> rw [heq]
    · exact ⟨rfl, rfl, rfl, rfl, rfl⟩
    · exact ⟨rfl, rfl, rfl, rfl, rfl⟩
  have hholds : (slot i).phase.holds = true := by
    obtain ⟨conn, hconn⟩ := Option.ne_none_iff_exists'.mp hback
    exact (h.backend i conn hconn).1
  show DialInv (update slot i c) _ _ _ _
  constructor
  · simpa only [(hat _).2.1, (hat _).2.2.1] using h.backend
  · simpa only [(hat _).2.1, (hat _).2.2.1] using h.forwards
  · intro j hj
    rw [(hat j).2.2.1] at hj
    have hji : j ≠ i := by
      rintro rfl
      rw [hj] at hholds
      cases hholds
    rw [update_of_ne hji]
    exact h.ready j hj
  · intro j hj
    rw [(hat j).2.2.1] at hj
    obtain ⟨hown, hheard⟩ := h.begun j hj
    refine ⟨hown, ?_⟩
    obtain ⟨hji, heq⟩ | ⟨-, heq⟩ := update_cases slot i c j <;> rw [heq]
    · subst hji
      rcases hheard with hheard | ⟨hnone, -⟩
      · exact .inl hheard
      · exact absurd hnone hback
    · exact hheard
  · simpa only [(hat _).2.2.1, (hat _).2.2.2.1, (hat _).2.2.2.2] using h.waiting
  · exact h.lastSlot
  · exact h.later
  · intro d ho
    rw [update_of_ne (hshut d ho)]
    exact h.opened d ho
  · simpa only [(hat _).2.1] using h.uniq
  · simpa only [(hat _).1, (hat _).2.1] using h.apart

theorem DialInv.take (hidle : ∀ d, (dial d).waiting = true → (dial d).slot ≠ i)
    (hback : (slot i).backendConnId = none) (hc : c.backendConnId = none)
    (hconn : c.connId = some conn) (hphase : c.phase = .recvRequest)
    (hfresh : ∀ j, (slot j).backendConnId ≠ some conn) :
    DialInv (update slot i c) owner count dial last := by
  have hbackAt (j : Nat) : (update slot i c j).backendConnId = (slot j).backendConnId := by
    obtain ⟨hj, heq⟩ | ⟨-, heq⟩ := update_cases slot i c j <;> rw [heq]
    rw [hj, hback, hc]
  have hopen {d : Nat} (ho : (dial d).isOpen = true) : (dial d).slot ≠ i := by
    intro heq
    obtain ⟨-, hb, hsome, -⟩ := h.opened d ho
    rw [heq, hback] at hb
    exact hsome hb.symm
  constructor
  · intro j conn' hj
    rw [hbackAt] at hj
    have hji : j ≠ i := by
      rintro rfl
      rw [hback] at hj
      cases hj
    rw [update_of_ne hji]
    exact h.backend j conn' hj
  · intro j hj
    rw [hbackAt]
    obtain ⟨-, heq⟩ | ⟨-, heq⟩ := update_cases slot i c j <;> rw [heq] at hj
    · rw [hphase] at hj
      cases hj
    · exact h.forwards j hj
  · intro j hj
    obtain ⟨-, heq⟩ | ⟨-, heq⟩ := update_cases slot i c j <;> rw [heq] at hj ⊢
    · rw [hphase] at hj
      cases hj
    · exact h.ready j hj
  · intro j hj
    obtain ⟨-, heq⟩ | ⟨-, heq⟩ := update_cases slot i c j <;> rw [heq] at hj ⊢
    · rw [hphase] at hj
      cases hj
    · exact h.begun j hj
  · intro d hd
    rw [update_of_ne (hidle d hd)]
    exact h.waiting d hd
  · exact h.lastSlot
  · exact h.later
  · intro d ho
    rw [update_of_ne (hopen ho)]
    exact h.opened d ho
  · simpa only [hbackAt] using h.uniq
  · intro j k conn' hj
    rw [hbackAt]
    obtain ⟨-, heq⟩ | ⟨-, heq⟩ := update_cases slot i c j <;> rw [heq] at hj
    · obtain rfl : conn = conn' := Option.some.inj (hconn.symm.trans hj)
      exact hfresh k
    · exact h.apart j k conn' hj

theorem DialInv.forgetLast (hidle : ∀ d, (dial d).waiting = true → (dial d).slot ≠ i)
    (hback : (slot i).backendConnId = none) (hphase : (slot i).phase ≠ .proxyWaitConnect) :
    DialInv slot owner count dial (update last i none) := by
  constructor
  · intro j conn hj
    have hji : j ≠ i := by
      rintro rfl
      rw [hback] at hj
      cases hj
    rw [update_of_ne hji]
    exact h.backend j conn hj
  · exact h.forwards
  · exact h.ready
  · intro j hj
    have hji : j ≠ i := by
      rintro rfl
      exact hphase hj
    rw [update_of_ne hji]
    exact h.begun j hj
  · intro d hd
    rw [update_of_ne (hidle d hd)]
    exact h.waiting d hd
  · intro j d hl
    obtain ⟨-, heq⟩ | ⟨-, heq⟩ := update_cases last i none j <;> rw [heq] at hl
    · cases hl
    · exact h.lastSlot j d hl
  · exact h.later
  · intro d ho
    have hdi : (dial d).slot ≠ i := by
      intro heq
      obtain ⟨-, hb, hsome, -⟩ := h.opened d ho
      rw [heq, hback] at hb
      exact hsome hb.symm
    rw [update_of_ne hdi]
    exact h.opened d ho
  · exact h.uniq
  · exact h.apart

theorem DialInv.idle_of_phase
    (hphase : (slot i).phase ≠ .proxyWaitConnect) (d : Nat) (hd : (dial d).waiting = true) :
    (dial d).slot ≠ i := by
  intro heq
  exact hphase (heq ▸ (h.waiting d hd).2.1)

theorem DialInv.idle_of_heard
    (hheard : (slot i).proxyConnected = true ∨ (slot i).proxyConnectFailed = true) (d : Nat)
    (hd : (dial d).waiting = true) : (dial d).slot ≠ i := by
  intro heq
  obtain ⟨-, -, hcn, hfl⟩ := h.waiting d hd
  rw [heq] at hcn hfl
  rcases hheard with hheard | hheard
  · rw [hcn] at hheard; cases hheard
  · rw [hfl] at hheard; cases hheard

theorem DialInv.disown_owner (j : Nat) (hji : j ≠ i)
    (hj : (slot j).phase = .proxyWaitConnect) :
    (if owner = some i then none else owner) = some j := by
  have hown := (h.begun j hj).1
  rw [if_neg (by rw [hown]; exact fun heq => hji (Option.some.inj heq)), hown]

theorem DialInv.backend_none (hphase : (slot i).phase.holds = false) : (slot i).backendConnId = none := by
  cases hb : (slot i).backendConnId with
  | none => rfl
  | some conn =>
    rw [(h.backend i conn hb).1] at hphase
    cases hphase

end

end DialInv

/-! ## The steps of the server -/

theorem slot_setSlot (hi : i < s.slots.length) (c : ConnSlot) :
    (s.setSlot i c).slot = update s.slot i c := by
  funext j
  rw [Server.slot, Server.setSlot, getD_set_lt hi, update_apply]
  by_cases h : i = j
  · rw [if_pos h, if_pos h.symm]
  · rw [if_neg h, if_neg (Ne.symm h)]
    rfl

theorem slot_release (s : Server) (i : Nat) :
    (slotReleaseBuffers s i).slot = update s.slot i {} := by
  funext j
  rw [Server.slot, slotReleaseBuffers, getD_set_default, update_apply]
  by_cases h : i = j
  · rw [if_pos h, if_pos h.symm]
  · rw [if_neg h, if_neg (Ne.symm h)]
    rfl

theorem slot_lt (h : (s.slot i).phase ≠ .init) : i < s.slots.length := by
  by_contra hge
  apply h
  rw [Server.slot, List.getD_eq_getElem?_getD, List.getElem?_eq_none (Nat.le_of_not_lt hge)]
  rfl

def DialWorld.Inv (w : DialWorld) : Prop :=
  DialInv w.server.slot w.server.proxyConnectOwner w.count w.dial w.last

theorem closeDials_cases (dial : Nat → Dial) (conn : UInt16) (d : Nat) :
    closeDials dial conn d = dial d ∨ closeDials dial conn d = { dial d with isOpen := false } := by
  unfold closeDials
  split
  · exact .inr rfl
  · exact .inl rfl

theorem foldl_settle_closes (hc : ∀ x ∈ cmds, ∃ conn, x = .close conn) (w : DialWorld) (taken : Bool) :
    ∃ dial, cmds.foldl (settle · taken) w = { w with dial } ∧
      (∀ d, dial d = w.dial d ∨ dial d = { w.dial d with isOpen := false }) ∧
      (taken = true → ∀ conn, .close conn ∈ cmds → ∀ d, (w.dial d).conn = some conn →
        (dial d).isOpen = false) := by
  induction cmds generalizing w with
  | nil => exact ⟨w.dial, rfl, fun _ => .inl rfl, fun _ _ h => by cases h⟩
  | cons x cmds ih =>
    obtain ⟨conn, rfl⟩ := hc x mem_cons_self
    rw [foldl_cons]
    obtain ⟨dial, heq, hlow, hclosed⟩ := ih (fun y hy => hc y (mem_cons_of_mem _ hy))
      (settle w taken (.close conn))
    cases taken with
    | false => exact ⟨dial, heq, hlow, fun h => by cases h⟩
    | true =>
      have hstep := closeDials_cases w.dial conn
      refine ⟨dial, heq, fun d => ?_, fun _ conn' hmem d hd => ?_⟩
      · have hlow' : dial d = closeDials w.dial conn d ∨
            dial d = { closeDials w.dial conn d with isOpen := false } := hlow d
        rcases hlow' with hd | hd <;> rcases hstep d with hs | hs <;> rw [hs] at hd
        · exact .inl hd
        · exact .inr hd
        · exact .inr hd
        · exact .inr hd
      · have hconn : (closeDials w.dial conn d).conn = (w.dial d).conn := by
          rcases hstep d with hs | hs <;> rw [hs]
        rcases mem_cons.mp hmem with heq' | hmem
        · obtain rfl := NetCmd.close.inj heq'
          have hshut : closeDials w.dial conn' d = { w.dial d with isOpen := false } := by
            rw [closeDials, if_pos hd]
          have hlow' : dial d = closeDials w.dial conn' d ∨
            dial d = { closeDials w.dial conn' d with isOpen := false } := hlow d
          rcases hlow' with h | h <;> rw [h, hshut]
        · exact hclosed rfl conn' hmem d (hconn.trans hd)

theorem resetConnection_closes (s : Server) (i : Nat) :
    ∀ x ∈ (resetConnection s i).2, ∃ conn, x = NetCmd.close conn := by
  intro x hx
  unfold resetConnection at hx
  rcases mem_append.mp hx with hx | hx
  · split at hx
    · exact ⟨_, mem_singleton.mp hx⟩
    · cases hx
  · split at hx
    · split at hx
      · cases hx
      · exact ⟨_, mem_singleton.mp hx⟩
    · cases hx

theorem close_mem_resetConnection (hb : (s.slot i).backendConnId = some conn) (hc : (s.slot i).backendClosed = false) :
    NetCmd.close conn ∈ (resetConnection s i).2 := by
  rw [Server.slot] at hb hc
  apply mem_append_right
  rw [hb, hc]
  exact mem_singleton_self _

section

variable (h : w.Inv)

include h

theorem DialWorld.Inv.reset (hidle : ∀ d, (w.dial d).waiting = true → (w.dial d).slot ≠ i)
    (htaken : (w.server.slot i).backendConnId ≠ none → (w.server.slot i).backendClosed = false →
      taken = true) :
    DialWorld.Inv { (resetConnection w.server i).2.foldl (settle · taken) (w.forget i) with
      server := (resetConnection w.server i).1 } := by
  obtain ⟨dial, heq, hlow, hclosed⟩ :=
    foldl_settle_closes (resetConnection_closes w.server i) (w.forget i) taken
  rw [heq]
  have hlow' : DialInv w.server.slot w.server.proxyConnectOwner w.count dial w.last :=
    DialInv.lower h hlow
  have hsame (d : Nat) : (dial d).slot = (w.dial d).slot ∧ (dial d).waiting = (w.dial d).waiting := by
    rcases hlow d with hd | hd <;> rw [hd] <;> exact ⟨rfl, rfl⟩
  have hrel := hlow'.release (i := i) (fun d hd => ?_) (fun d ho => ?_)
  · show DialInv (slotReleaseBuffers w.server i).slot _ _ _ _
    rw [slot_release]
    exact hrel
  · rw [(hsame d).2] at hd
    rw [(hsame d).1]
    exact hidle d hd
  · intro hdi
    obtain ⟨-, hb, hsome, hcl⟩ := hlow'.opened d ho
    obtain ⟨conn, hconn⟩ := Option.ne_none_iff_exists'.mp hsome
    rw [hdi] at hb hcl
    have hslot : (w.server.slot i).backendConnId = some conn := hb.trans hconn
    have hwconn : (w.dial d).conn = some conn := by
      rcases hlow d with hd | hd <;> rw [hd] at hconn <;> exact hconn
    have hshut := hclosed (htaken (by rw [hslot]; exact some_ne_none _) hcl) conn
      (close_mem_resetConnection hslot hcl) d hwconn
    rw [ho] at hshut
    cases hshut

theorem DialWorld.Inv.closes (hc : ∀ x ∈ cmds, ∃ conn, x = NetCmd.close conn) :
    DialWorld.Inv { cmds.foldl (settle · taken) w with server := w.server } := by
  obtain ⟨dial, heq, hlow, -⟩ := foldl_settle_closes hc w taken
  rw [heq]
  exact DialInv.lower h hlow

theorem DialWorld.Inv.setSlot (hs : s.slots = w.server.slots) (hlt : i < w.server.slots.length)
    (hidle : ∀ d, (w.dial d).waiting = true → (w.dial d).slot ≠ i)
    (hconn : c.connId = (w.server.slot i).connId)
    (hback : c.backendConnId = (w.server.slot i).backendConnId)
    (hclosed : (w.server.slot i).backendConnId ≠ none →
      c.backendClosed = (w.server.slot i).backendClosed)
    (hholds : c.backendConnId ≠ none → c.phase.holds = true)
    (hfwd : c.phase.forwards = true → c.backendConnId ≠ none)
    (hready : c.phase = .proxyConnect →
      c.proxyConnected = false ∧ c.proxyConnectFailed = false ∧ c.backendClosed = false)
    (hphase : c.phase ≠ .proxyWaitConnect)
    (howner : ∀ j, j ≠ i → (w.server.slot j).phase = .proxyWaitConnect →
      s.proxyConnectOwner = some j) :
    DialWorld.Inv { w with server := s.setSlot i c } := by
  show DialInv (s.setSlot i c).slot s.proxyConnectOwner _ _ _
  rw [slot_setSlot (by rw [hs]; exact hlt),
    show s.slot = w.server.slot from funext fun j => by rw [Server.slot, hs]; rfl]
  exact DialInv.settled h hidle hconn hback hclosed hholds hfwd hready hphase howner

theorem DialWorld.Inv.connectFailed (nextBackend : Bool) (hlt : i < w.server.slots.length)
    (hidle : ∀ d, (w.dial d).waiting = true → (w.dial d).slot ≠ i)
    (hnone : (w.server.slot i).backendConnId = none)
    (hclosed : (w.server.slot i).backendClosed = false) :
    DialWorld.Inv { w with server := proxyConnectFailed w.server i nextBackend } := by
  unfold proxyConnectFailed
  dsimp only
  split
  · refine h.setSlot rfl hlt hidle rfl hnone.symm (fun hne => absurd hnone hne)
      (fun hne => absurd rfl hne) (fun hf => by cases hf) (fun _ => ⟨rfl, rfl, hclosed⟩)
      (fun hp => by cases hp) ?_
    exact fun j hji hj => DialInv.disown_owner h j hji hj
  · refine h.setSlot rfl hlt hidle rfl rfl (fun _ => rfl)
      (fun hne => absurd hnone hne) (fun hf => by cases hf) (fun hp => by cases hp)
      (fun hp => by cases hp) ?_
    exact fun j hji hj => DialInv.disown_owner h j hji hj

theorem DialWorld.Inv.stepWait (hph : (w.server.slot i).phase = .proxyWaitConnect)
    (hok : (w.server.slot i).proxyConnected = false →
      (w.server.slot i).proxyConnectFailed = false →
      inp.nowMs - (w.server.slot i).proxyConnectStartMs < PROXY_CONNECT_TIMEOUT_MS) :
    DialWorld.Inv { w with server := stepProxyWaitConnect w.server i inp } := by
  have hlt : i < w.server.slots.length := slot_lt (by rw [hph]; exact Phase.noConfusion)
  have hheard := (DialInv.begun h i hph).2
  unfold stepProxyWaitConnect
  dsimp only
  cases hfl : (w.server.slot i).proxyConnectFailed with
  | true =>
    rw [if_pos rfl]
    rcases hheard with ⟨-, hfl', -⟩ | ⟨hnone, hcl, -⟩
    · rw [hfl] at hfl'
      cases hfl'
    · exact h.connectFailed _ hlt (DialInv.idle_of_heard h (.inr hfl)) hnone hcl
  | false =>
    rw [if_neg false_ne_true]
    cases hcn : (w.server.slot i).proxyConnected with
    | true =>
      rw [if_pos rfl]
      have hback : (w.server.slot i).backendConnId ≠ none := by
        rcases hheard with ⟨-, -, hback⟩ | ⟨-, -, hcn', -⟩
        · exact hback
        · rw [hcn] at hcn'
          cases hcn'
      refine h.setSlot rfl hlt (DialInv.idle_of_heard h (.inl hcn)) rfl rfl
        (fun _ => rfl) (fun _ => rfl) (fun _ => hback) (fun hp => by cases hp)
        (fun hp => by cases hp) ?_
      exact fun j hji hj => DialInv.disown_owner h j hji hj
    | false =>
      rw [if_neg false_ne_true, if_neg (UInt32.not_le.mpr (hok hcn hfl))]
      exact h

theorem DialWorld.Inv.stepConnect (hph : (w.server.slot i).phase = .proxyConnect) :
    DialWorld.Inv { (stepProxyConnect w.server i inp).2.foldl (settle · taken) w with
      server := (stepProxyConnect w.server i inp).1 } := by
  have hlt : i < w.server.slots.length := slot_lt (by rw [hph]; exact Phase.noConfusion)
  unfold stepProxyConnect
  split
  · exact h
  · rename_i hfree
    have hown : w.server.proxyConnectOwner = none ∨ w.server.proxyConnectOwner = some i := by
      cases hown : w.server.proxyConnectOwner with
      | none => exact .inl rfl
      | some j =>
        right
        simpa [hown] using hfree
    have hclaim := DialInv.claim h hown
    dsimp only
    split
    · exact hclaim
    · have hslot := slot_setSlot (s := { w.server with proxyConnectOwner := some i }) hlt
        { w.server.slot i with proxyConnectStartMs := inp.nowMs, phase := .proxyWaitConnect }
      have hsent := hclaim.sent (c := { w.server.slot i with
        proxyConnectStartMs := inp.nowMs, phase := .proxyWaitConnect }) hph rfl rfl rfl rfl rfl rfl
      exact (congrArg (DialInv · _ _ _ _) hslot).mpr hsent

theorem DialWorld.Inv.stepRelay (hf : (w.server.slot i).phase.forwards = true) :
    DialWorld.Inv { w with server := stepProxyRelay w.server i inp } := by
  have hne {ph : Phase} (hph : ph.forwards = false) : (w.server.slot i).phase ≠ ph := by
    rintro rfl
    rw [hf] at hph
    cases hph
  unfold stepProxyRelay
  dsimp only
  split
  · refine h.setSlot rfl (slot_lt (hne rfl)) (DialInv.idle_of_phase h (hne rfl)) rfl rfl
      (fun _ => rfl) (fun _ => rfl) (fun hf => by cases hf) (fun hp => by cases hp)
      (fun hp => by cases hp) ?_
    exact fun j _ hj => (DialInv.begun h j hj).1
  · exact h

theorem DialWorld.Inv.step (hok : DialStepOk me w (.step i inp)) : (dialStep me w (.step i inp)).1.Inv := by
  obtain ⟨hwait, hclose⟩ := hok
  simp only [dialStep]
  by_cases hgone : (w.server.slot i).peerClosed = true ∧ (w.server.slot i).phase.isProxy = true
  · have hreset : stepProxy w.server i inp = resetConnection w.server i := by
      simp [stepProxy, hgone]
    rw [hreset, if_pos (by simp [hgone])]
    refine h.reset (fun d hd heq => ?_) (hclose (.inl hgone))
    obtain ⟨-, hph, hcn, hfl⟩ := DialInv.waiting h d hd
    rw [heq] at hph hcn hfl
    have := (hwait hph hcn hfl).1
    rw [hgone.1] at this
    cases this
  · have hgone' : ((w.server.slot i).peerClosed && (w.server.slot i).phase.isProxy) = false := by
      simpa using hgone
    unfold stepProxy
    simp only [hgone', false_eq_true, if_false, Bool.false_or]
    by_cases hst : (inp.stalled && (w.server.slot i).phase.forwards) = true
    · rw [if_pos hst]
      have hf : (w.server.slot i).phase.forwards = true := (and_eq_true_iff.mp hst).2
      have hph : (w.server.slot i).phase ≠ .proxyWaitConnect := by
        intro hph
        rw [hph] at hf
        cases hf
      have hcl : (w.server.slot i).phase ≠ .closeConn := by
        intro hph
        rw [hph] at hf
        cases hf
      rw [if_neg (by simpa using hcl)]
      refine h.setSlot rfl (slot_lt ?_) (DialInv.idle_of_phase h hph) rfl rfl (fun _ => rfl)
        (fun _ => rfl) (fun hf => by cases hf) (fun hp => by cases hp) (fun hp => by cases hp) ?_
      · intro hph
        rw [hph] at hf
        cases hf
      · exact fun j _ hj => (DialInv.begun h j hj).1
    · rw [if_neg hst]
      cases hph : (w.server.slot i).phase with
      | proxyConnect => exact h.stepConnect hph
      | proxyWaitConnect => exact h.stepWait hph fun hcn hfl => (hwait hph hcn hfl).2
      | proxySendRequest =>
        have hback := DialInv.forwards h i (by rw [hph]; rfl)
        have hsome : (w.server.slot i).backendConnId.isNone = false :=
          Option.isNone_eq_false_iff.mpr (isSome_iff_ne_none.mpr hback)
        simp only [stepProxySendRequest, hsome, false_eq_true, if_false]
        cases inp.headSent with
        | false => exact h
        | true =>
          refine h.setSlot rfl (slot_lt (by rw [hph]; exact Phase.noConfusion))
            (DialInv.idle_of_phase h (by rw [hph]; exact Phase.noConfusion)) rfl rfl (fun _ => rfl)
            (fun _ => rfl) (fun _ => hback) (fun hp => by cases hp) (fun hp => by cases hp) ?_
          exact fun j _ hj => (DialInv.begun h j hj).1
      | proxyRelayHeaders => exact h.stepRelay (by rw [hph]; rfl)
      | proxyRelayBody => exact h.stepRelay (by rw [hph]; rfl)
      | closeConn =>
        refine h.reset (DialInv.idle_of_phase h (by rw [hph]; exact Phase.noConfusion)) ?_
        exact hclose (.inr hph)
      | _ => exact h

theorem DialWorld.Inv.msgClosed (conn : UInt16) :
    DialWorld.Inv { w with
      server := demuxClosed w.server conn w.server, dial := closeDials w.dial conn } := by
  have hlow : DialInv w.server.slot w.server.proxyConnectOwner w.count (closeDials w.dial conn)
      w.last :=
    DialInv.lower h (closeDials_cases _ conn)
  unfold demuxClosed
  cases hclient : findSlotByConnId w.server.slots conn with
  | some i =>
    obtain ⟨hlt, -⟩ := List.findIdx?_eq_some_iff_getElem.mp hclient
    have hsame := hlow.same (c := { w.server.slot i with peerClosed := true }) rfl rfl rfl rfl rfl rfl
    exact (congrArg (DialInv · _ _ _ _) (slot_setSlot hlt _)).mpr hsame
  | none =>
    cases hback : findSlotByBackendConn w.server.slots conn with
    | none => exact hlow
    | some i =>
      obtain ⟨hlt, hconn, -⟩ := List.findIdx?_eq_some_iff_getElem.mp hback
      have hconn' : (w.server.slot i).backendConnId = some conn := by
        rw [Server.slot, List.getD_eq_getElem?_getD, List.getElem?_eq_getElem hlt]
        exact of_decide_eq_true hconn
      have hgone := hlow.backendGone (i := i) (by rw [hconn']; exact some_ne_none _) ?_
      · exact (congrArg (DialInv · _ _ _ _) (slot_setSlot hlt _)).mpr hgone
      · intro d ho heq
        obtain ⟨-, hb, -, -⟩ := hlow.opened d ho
        rw [heq, hconn'] at hb
        unfold closeDials at hb ho
        split at hb
        · rename_i hd
          rw [if_pos hd] at ho
          cases ho
        · rename_i hd
          exact hd hb.symm

theorem DialWorld.Inv.msg {m : NetMsg} {answers : Option Nat} (hok : DialStepOk me w (.msg m answers)) :
    (dialStep me w (.msg m answers)).1.Inv := by
  -- a reply finds its dial's slot as the owner
  have hreply {d : Nat} (hd : (w.dial d).waiting = true) (f : ConnSlot → ConnSlot) :
      (onOwner w.server f).slot =
        update w.server.slot (w.dial d).slot (f (w.server.slot (w.dial d).slot)) ∧
      (onOwner w.server f).proxyConnectOwner = w.server.proxyConnectOwner := by
    have hown := DialInv.waiting_slot h hd
    have hlt : (w.dial d).slot < w.server.slots.length :=
      slot_lt (by rw [(DialInv.waiting h d hd).2.1]; exact Phase.noConfusion)
    rw [onOwner, hown]
    exact ⟨slot_setSlot hlt _, hown⟩
  cases m with
  | connected conn tag =>
    cases answers with
    | none =>
      obtain ⟨h0, hme⟩ := hok
      have hsame : demuxMsg me w.server (.connected conn tag) = w.server := by
        simp [demuxMsg, h0, hme]
      show DialInv (demuxMsg me w.server (.connected conn tag)).slot
        (demuxMsg me w.server (.connected conn tag)).proxyConnectOwner _ _ _
      rw [hsame]
      exact h
    | some d =>
      obtain ⟨hd, rfl, hfresh⟩ := hok
      obtain ⟨hslot, hown⟩ := hreply hd
        fun c => { c with backendConnId := some conn, proxyConnected := true }
      show DialInv (demuxMsg tag w.server (.connected conn tag)).slot
        (demuxMsg tag w.server (.connected conn tag)).proxyConnectOwner _ _ _
      rw [demuxMsg, if_pos (.inr rfl), hslot, hown]
      exact DialInv.connected h hd hfresh
  | error conn tag =>
    cases answers with
    | none =>
      by_cases h0 : tag = 0
      · subst h0
        have hme : me ≠ 0 := Ne.symm hok
        have hclosed := h.msgClosed conn
        simpa [dialStep, demuxMsg, hme] using hclosed
      · have hsame : demuxMsg me w.server (.error conn tag) = w.server := by
          simp [demuxMsg, h0, show tag ≠ me from hok]
        simpa [dialStep, hsame, h0] using h
    | some d =>
      obtain ⟨hd, rfl, h0⟩ := hok
      obtain ⟨hslot, hown⟩ := hreply hd fun c => { c with proxyConnectFailed := true }
      show DialInv (demuxMsg tag w.server (.error conn tag)).slot
        (demuxMsg tag w.server (.error conn tag)).proxyConnectOwner _ _ _
      rw [demuxMsg]
      simp only [ne_eq, h0, not_false_eq_true, if_true]
      rw [hslot, hown]
      exact DialInv.failed h hd
  | closed conn => exact h.msgClosed conn

theorem DialWorld.Inv.choose (hc : chooseSlot w.server = some (i, s, cmds)) :
    DialWorld.Inv { cmds.foldl (settle · true) (w.forget i) with server := s } ∧
      (s.slot i).phase.holds = false := by
  obtain ⟨-, ⟨rfl, rfl, hfree⟩ | ⟨rfl, rfl, hidle⟩⟩ := chooseSlot_cases hc
  · rw [ConnSlot.isFree, and_eq_true, or_eq_true] at hfree
    have hquiet : (w.server.slot i).phase.holds = false := by
      rcases hfree.2 with hph | hph <;> rw [Server.slot, of_decide_eq_true hph] <;> rfl
    have hph : (w.server.slot i).phase ≠ .proxyWaitConnect := by
      intro hph
      rw [hph] at hquiet
      cases hquiet
    exact ⟨DialInv.forgetLast h (DialInv.idle_of_phase h hph) (DialInv.backend_none h hquiet) hph,
      hquiet⟩
  · have hph : (w.server.slot i).phase = .recvRequest := by
      simp only [ConnSlot.evictable, and_eq_true] at hidle
      exact of_decide_eq_true hidle.1.1.1.2
    refine ⟨h.reset (DialInv.idle_of_phase h (by rw [hph]; exact Phase.noConfusion))
      (fun _ _ => rfl), ?_⟩
    rw [slot_release, update_self]
    rfl

theorem DialWorld.Inv.accepted {me conn : UInt16} {nowMs : Nat}
    {heap : Bool} (hok : DialStepOk me w (.accepted conn nowMs heap)) :
    (dialStep me w (.accepted conn nowMs heap)).1.Inv := by
  simp only [dialStep]
  cases hdrain : w.server.bound && w.server.draining with
  | true =>
    rw [acceptConn_drained hdrain, chosenSlot, if_pos hdrain]
    exact h.closes (by simp : ∀ x ∈ [NetCmd.close conn], ∃ conn, x = NetCmd.close conn)
  | false =>
    rw [chosenSlot, if_neg (by rw [hdrain]; exact false_ne_true)]
    cases hc : chooseSlot w.server with
    | none =>
      rw [acceptConn_full hdrain hc]
      exact h.closes (by simp : ∀ x ∈ [NetCmd.close conn], ∃ conn, x = NetCmd.close conn)
    | some chosen =>
      obtain ⟨i, s', cmds⟩ := chosen
      obtain ⟨hw, hquiet⟩ := h.choose hc
      cases heap with
      | false =>
        rw [acceptConn_no_heap hdrain hc]
        simp only [map_some, foldl_append, foldl_cons, foldl_nil]
        exact DialInv.lower hw (closeDials_cases _ conn)
      | true =>
        rw [acceptConn_taken hdrain hc]
        have hback : ∀ j, (s'.slot j).backendConnId ≠ some conn := by
          obtain ⟨-, ⟨rfl, -⟩ | ⟨rfl, -⟩⟩ := chooseSlot_cases hc
          · exact fun j => (hok j).2
          · intro j
            rw [slot_release]
            obtain ⟨-, heq⟩ | ⟨-, heq⟩ := update_cases w.server.slot i {} j <;> rw [heq]
            · exact (some_ne_none conn).symm
            · exact (hok j).2
        have hnone := DialInv.backend_none hw hquiet
        have htake := DialInv.take hw (i := i) (c := { s'.slot i with
            connId := some conn, progressMs := nowMs, served := false, phase := .recvRequest })
          (DialInv.idle_of_phase hw fun hph => by rw [hph] at hquiet; cases hquiet)
          hnone hnone rfl rfl hback
        exact (congrArg (DialInv · _ _ _ _) (slot_setSlot (chooseSlot_lt hc) _)).mpr htake

theorem DialWorld.Inv.begin (i : Nat) (dynIdx : Option Nat) : (dialStep me w (.begin i dynIdx)).1.Inv := by
  simp only [dialStep]
  split
  · rename_i hph
    have hnone := DialInv.backend_none h (i := i) (by rw [hph]; rfl)
    refine h.setSlot rfl (slot_lt (by rw [hph]; exact Phase.noConfusion))
      (DialInv.idle_of_phase h (by rw [hph]; exact Phase.noConfusion)) rfl hnone.symm
      (fun hne => absurd hnone hne) (fun hne => absurd rfl hne) (fun hf => by cases hf)
      (fun _ => ⟨rfl, rfl, rfl⟩) (fun hp => by cases hp) ?_
    exact fun j _ hj => (DialInv.begun h j hj).1
  · exact h

theorem DialWorld.Inv.work (i : Nat) (c : ConnSlot) :
    (dialStep me w (.work i c)).1.Inv := by
  simp only [dialStep]
  split
  · exact h
  · rename_i hguard
    simp only [or_eq_true, decide_eq_true_eq, not_or, not_eq_true] at hguard
    obtain ⟨⟨hold, hclose⟩, hnew⟩ := hguard
    have hquiet : (w.server.slot i).phase.holds = false := by
      cases hph : (w.server.slot i).phase with
      | closeConn => exact absurd hph hclose
      | _ => first | rfl | (rw [hph] at hold; cases hold)
    have hnone := DialInv.backend_none h hquiet
    have hphase {ph : Phase} (hp : ph.isProxy = true) : c.phase ≠ ph := by
      rintro rfl
      rw [hnew] at hp
      cases hp
    by_cases hlt : i < w.server.slots.length
    · refine h.setSlot rfl hlt (DialInv.idle_of_phase h fun hph => ?_) rfl rfl (fun _ => rfl)
        (fun hne => absurd hnone hne) (fun hf => ?_) (fun hp => absurd hp (hphase rfl)) (hphase rfl)
        fun j _ hj => (DialInv.begun h j hj).1
      · rw [hph] at hold
        cases hold
      · have hf' : c.phase.forwards = true := hf
        have hp : c.phase.isProxy = true := by
          cases hph : c.phase <;> first | rfl | (rw [hph] at hf'; cases hf')
        rw [hnew] at hp
        cases hp
    · rw [Server.setSlot, set_eq_of_length_le (Nat.le_of_not_lt hlt)]
      exact h

end

theorem dialInv_init (p : Profile) : (DialWorld.init p).Inv := by
  have hslot (i : Nat) : (DialWorld.init p).server.slot i = {} := by
    simp only [DialWorld.init, Server.slot, Server.init, List.getD_eq_getElem?_getD,
      List.getElem?_replicate]
    split <;> rfl
  constructor
  · intro i conn hi
    rw [hslot] at hi
    cases hi
  · intro i hi
    rw [hslot] at hi
    cases hi
  · intro i hi
    rw [hslot] at hi
    cases hi
  · intro i hi
    rw [hslot] at hi
    cases hi
  · intro d hd
    cases hd
  · intro i d hl
    cases hl
  · exact fun _ _ => rfl
  · intro d hd
    cases hd
  · intro i j conn hi
    rw [hslot] at hi
    cases hi
  · intro i j conn hi
    rw [hslot] at hi
    cases hi

theorem DialWorld.Inv.run (h : w.Inv) {e : DialEvent} (hok : DialStepOk me w e) : (dialStep me w e).1.Inv := by
  cases e with
  | msg m answers => exact h.msg hok
  | accepted conn nowMs heap => exact h.accepted hok
  | begin i dynIdx => exact h.begin i dynIdx
  | step i inp => exact h.step hok
  | work i c => exact h.work i c

/-- In a run in which no dial is given up before its reply, and closes are taken, dials, slots and connections stay
together. -/
theorem dials_kept (p : Profile) (me : UInt16) (events : List DialEvent)
    (hal : (dialMachine me).Along (DialStepOk me) (DialWorld.init p) events) :
    DialsKept ((dialMachine me).run (DialWorld.init p) events).1 := by
  have hinv : DialWorld.Inv ((dialMachine me).run (DialWorld.init p) events).1 :=
    (dialMachine me).run_invariant (I := DialWorld.Inv) (fun _ _ h hok => h.run hok)
      (dialInv_init p) hal
  refine ⟨?_, DialInv.uniq hinv, ?_⟩
  · intro i hi
    obtain ⟨conn, hconn⟩ := Option.ne_none_iff_exists'.mp (DialInv.forwards hinv i hi)
    obtain ⟨-, d, hlast, hd⟩ := DialInv.backend hinv i conn hconn
    exact ⟨d, conn, hlast, (DialInv.lastSlot hinv i d hlast).2, hd, hconn⟩
  · intro d conn hd ho
    obtain ⟨hlast, hb, -, -⟩ := DialInv.opened hinv d ho
    exact ⟨hlast, hb.trans hd⟩

theorem dials_kept_one_relay :
    let events := [DialEvent.accepted 3 0 true, .work 0 { phase := .dispatchRoute }, .begin 0 none,
      .step 0 {}, .msg (.connected 7 1) (some 0), .step 0 {}]
    (dialMachine 1).Along (DialStepOk 1) (DialWorld.init smallProfile) events ∧
      DialsKept ((dialMachine 1).run (DialWorld.init smallProfile) events).1 := by
  intro events
  have hal : (dialMachine 1).Along (DialStepOk 1) (DialWorld.init smallProfile) events := by
    refine ⟨?_, trivial, trivial, ?_, ⟨by decide, rfl, ?_⟩, ?_, trivial⟩
    · intro i
      match i with
      | 0 | 1 => exact ⟨by decide, by decide⟩
      | n + 2 => exact ⟨of_decide_eq_true rfl, of_decide_eq_true rfl⟩
    · unfold DialStepOk
      decide
    · intro i
      match i with
      | 0 | 1 => exact ⟨by decide, by decide⟩
      | n + 2 => exact ⟨of_decide_eq_true rfl, of_decide_eq_true rfl⟩
    · unfold DialStepOk
      decide
  exact ⟨hal, dials_kept smallProfile 1 events hal⟩

/-- A slot gives up its dial, the next one dials, and the late reply becomes the second slot's backend. -/
theorem late_reply_crosses_slots :
    let events := [DialEvent.accepted 3 0 true, .accepted 4 0 true,
      .work 0 { phase := .dispatchRoute }, .work 1 { phase := .dispatchRoute },
      .begin 0 none, .begin 1 none, .step 0 {}, .step 0 { nowMs := 10000 }, .step 1 {},
      .msg (.connected 7 1) (some 0), .step 1 {}]
    let w := ((dialMachine 1).run (DialWorld.init smallProfile) events).1
    (w.server.slot 1).phase = .proxySendRequest ∧ (w.server.slot 1).backendConnId = some 7 ∧
      (w.dial 0).slot = 0 ∧ (w.dial 0).conn = some 7 ∧ ¬ DialsKept w := by
  intro events w
  refine ⟨by decide, by decide, by decide, by decide, ?_⟩
  intro hkept
  obtain ⟨d, conn, hlast, -, hconn, -⟩ := hkept.own 1 (by decide)
  have hd : w.last 1 = some 1 := by decide
  obtain rfl : d = 1 := Option.some.inj (hlast.symm.trans hd)
  have hnone : (w.dial 1).conn = none := by decide
  rw [hnone] at hconn
  cases hconn

end Wave.Http
