import Mathlib.Data.List.Basic
import Mathlib.Data.List.Perm.Basic
import Mathlib.Tactic.Common

/-! Stop-and-wait over a channel that loses and reorders messages but neither repeats
nor invents them. The sender counts acknowledged packets; the receiver acknowledges
every packet and stores it without looking at its number. -/
namespace NetTools.StopAndWait

variable {D P : Type*}

/-- A transfer: `acked` packets are acknowledged; `acks` are the acknowledgements on
their way back, wherever they are; `acking` and `storing` hold the packet that the
receiver has taken and not yet acknowledged, or acknowledged and not yet stored. -/
structure Transfer (D P : Type*) where
  acked : ℕ
  waiting : Bool
  data : List D
  acks : List ℕ
  acking : Option D
  storing : Option D
  stored : List P

/-- The packets to send, and what the receiver reads from a packet. -/
structure Protocol (D P : Type*) where
  packet : ℕ → D
  count : ℕ
  number : D → ℕ
  payload : D → P

inductive Step [BEq D] (π : Protocol D P) : Transfer D P → Transfer D P → Prop
  | send {t : Transfer D P} (hw : t.waiting = false) (hk : t.acked < π.count) :
      Step π t { t with data := t.data ++ [π.packet t.acked], waiting := true }
  | receive {t : Transfer D P} {d : D} (hd : d ∈ t.data) (ha : t.acking = none)
      (hs : t.storing = none) :
      Step π t { t with data := t.data.erase d, acking := some d }
  | acknowledge {t : Transfer D P} {d : D} {acks : List ℕ} (hd : t.acking = some d)
      (hp : acks.Perm (π.number d :: t.acks)) :
      Step π t { t with acking := none, storing := some d, acks := acks }
  | store {t : Transfer D P} {d : D} (hd : t.storing = some d) :
      Step π t { t with storing := none, stored := t.stored ++ [π.payload d] }
  | consume {t : Transfer D P} {acks : List ℕ} (hw : t.waiting = true)
      (hp : (π.number (π.packet t.acked) :: acks).Perm t.acks) :
      Step π t { t with acked := t.acked+1, waiting := false, acks := acks }
  | lose {t : Transfer D P} {data : List D} {acks : List ℕ} {acking : Option D}
      (hd : data.Sublist t.data) (ha : acks.Subperm t.acks)
      (hg : acking = t.acking ∨ acking = none) :
      Step π t { t with data := data, acks := acks, acking := acking }

namespace Transfer

/-- The packets that the receiver has acknowledged. -/
def received (t : Transfer D P) : ℕ := t.stored.length+t.storing.toList.length

/-- Messages of the transfer that are under way. -/
def underWay (t : Transfer D P) : ℕ := t.data.length+t.acking.toList.length+t.acks.length

/-- Nothing has happened yet. -/
def start : Transfer D P := ⟨0, false, [], [], none, none, []⟩

end Transfer

/-- The invariant: one message at most, always about packet `acked`, and the receiver is
at that packet or just behind it. -/
structure Sound (π : Protocol D P) (t : Transfer D P) : Prop where
  bound : t.acked ≤ π.count
  sent : t.waiting = true → t.acked < π.count
  one : t.underWay ≤ 1
  idle : t.waiting = false → t.underWay = 0
  data : ∀ d ∈ t.data, d = π.packet t.acked
  acking : ∀ d ∈ t.acking, d = π.packet t.acked
  acks : ∀ n ∈ t.acks, n = π.number (π.packet t.acked)
  storing : ∀ d ∈ t.storing, d = π.packet t.stored.length
  stored : t.stored = (List.range t.stored.length).map fun k => π.payload (π.packet k)
  ahead : t.received = t.acked ∨ (t.waiting = true ∧ t.received = t.acked+1)
  fresh : t.data ≠ [] ∨ t.acking ≠ none → t.received = t.acked
  answered : t.acks ≠ [] → t.received = t.acked+1
  apart : t.acking ≠ none → t.storing = none

variable {π : Protocol D P} {t u : Transfer D P}

theorem sound_start : Sound π .start where
  bound := Nat.zero_le _
  sent := nofun
  one := Nat.zero_le _
  idle _ := rfl
  data := nofun
  acking := nofun
  acks := nofun
  storing := nofun
  stored := rfl
  ahead := Or.inl rfl
  fresh h := by rcases h with h | h <;> exact absurd rfl h
  answered h := absurd rfl h
  apart h := absurd rfl h

/-- With nothing under way all three places are empty. -/
theorem underWay_eq_zero : t.underWay = 0 ↔ t.data = [] ∧ t.acking = none ∧ t.acks = [] := by
  unfold Transfer.underWay
  cases t.acking <;> simp [and_comm]

/-- With a message at one place the other two are empty. -/
theorem Sound.data_only (h : Sound π t) (hd : t.data ≠ []) : t.acking = none ∧ t.acks = [] := by
  have hone := h.one
  have hpos := List.length_pos_iff.mpr hd
  unfold Transfer.underWay at hone
  constructor
  · cases hg : t.acking with
    | none => rfl
    | some d =>
      simp only [hg, Option.toList_some, List.length_singleton] at hone
      omega
  · exact List.eq_nil_of_length_eq_zero (by omega)

theorem Sound.acking_only (h : Sound π t) {d : D} (hg : t.acking = some d) :
    t.data = [] ∧ t.acks = [] := by
  have hone := h.one
  simp only [Transfer.underWay, hg, Option.toList_some, List.length_singleton] at hone
  exact ⟨List.eq_nil_of_length_eq_zero (by omega), List.eq_nil_of_length_eq_zero (by omega)⟩

theorem Sound.acks_only (h : Sound π t) (ha : t.acks ≠ []) :
    t.data = [] ∧ t.acking = none ∧ t.acks.length = 1 := by
  have hone := h.one
  have hpos := List.length_pos_iff.mpr ha
  unfold Transfer.underWay at hone
  refine ⟨List.eq_nil_of_length_eq_zero (by omega), ?_, by omega⟩
  cases hg : t.acking with
  | none => rfl
  | some d =>
    simp only [hg, Option.toList_some, List.length_singleton] at hone
    omega

/-- A message under way means that the sender waits for it. -/
theorem Sound.waiting_of_underWay (h : Sound π t) (hu : t.underWay ≠ 0) : t.waiting = true := by
  cases hw : t.waiting with
  | true => rfl
  | false => exact absurd (h.idle hw) hu

section Steps

theorem sound_send (h : Sound π t) (hw : t.waiting = false) (hk : t.acked < π.count) :
    Sound π { t with data := t.data ++ [π.packet t.acked], waiting := true } := by
  -- nothing is under way, so the new message is the only one
  obtain ⟨hd, hg, ha⟩ := underWay_eq_zero.mp (h.idle hw)
  have hrec : t.received = t.acked := by
    rcases h.ahead with he | ⟨hw', -⟩
    · exact he
    · rw [hw] at hw'
      cases hw'
  refine ⟨h.bound, fun _ => hk, ?_, nofun, ?_, h.acking, h.acks, h.storing, h.stored, Or.inl hrec,
    fun _ => hrec, fun hne => absurd ha hne, h.apart⟩
  · simp [Transfer.underWay, hd, hg, ha]
  · intro d hm
    rw [hd, List.nil_append, List.mem_singleton] at hm
    exact hm

theorem sound_receive [BEq D] [LawfulBEq D] {d : D} (h : Sound π t) (hd : d ∈ t.data)
    (hg : t.acking = none) (hs : t.storing = none) :
    Sound π { t with data := t.data.erase d, acking := some d } := by
  obtain ⟨-, ha⟩ := h.data_only (List.ne_nil_of_mem hd)
  have hrec := h.fresh (Or.inl (List.ne_nil_of_mem hd))
  have hlen := List.length_erase_add_one hd
  have hone := h.one
  have hw := h.waiting_of_underWay (by unfold Transfer.underWay; omega)
  simp only [Transfer.underWay, hg, ha, Option.toList_none, List.length_nil] at hone
  refine ⟨h.bound, h.sent, ?_, ?_, ?_, ?_, h.acks, h.storing, h.stored, Or.inl hrec, fun _ => hrec,
    fun hne => absurd ha hne, fun _ => hs⟩
  · simp only [Transfer.underWay, ha, Option.toList_some, List.length_singleton, List.length_nil]
    omega
  · intro hw'
    rw [hw] at hw'
    cases hw'
  · intro e he
    exact h.data e (List.mem_of_mem_erase he)
  · intro e he
    rw [Option.mem_some_iff] at he
    exact he ▸ h.data d hd

theorem sound_acknowledge {d : D} {acks : List ℕ} (h : Sound π t) (hd : t.acking = some d)
    (hp : acks.Perm (π.number d :: t.acks)) :
    Sound π { t with acking := none, storing := some d, acks := acks } := by
  obtain ⟨hdata, ha⟩ := h.acking_only hd
  have hs := h.apart (by rw [hd]; exact Option.some_ne_none d)
  have hrec := h.fresh (Or.inr (by rw [hd]; exact Option.some_ne_none d))
  have hpacket := h.acking d hd
  have hw := h.waiting_of_underWay (by simp [Transfer.underWay, hd])
  rw [ha, List.perm_singleton] at hp
  subst hp
  have hstored : t.stored.length = t.acked := by
    rw [Transfer.received, hs] at hrec
    exact hrec
  have hnext : t.stored.length+(some d).toList.length = t.acked+1 := by
    rw [hstored]
    rfl
  refine ⟨h.bound, h.sent, ?_, ?_, ?_, nofun, ?_, ?_, h.stored, Or.inr ⟨hw, hnext⟩, ?_,
    fun _ => hnext, fun hne => absurd rfl hne⟩
  · simp [Transfer.underWay, hdata]
  · intro hw'
    rw [hw] at hw'
    cases hw'
  · rw [hdata]
    nofun
  · intro n hn
    rw [List.mem_singleton] at hn
    rw [hn, hpacket]
  · intro e he
    rw [Option.mem_some_iff] at he
    rw [← he, hpacket, hstored]
  · rintro (hne | hne)
    · exact absurd hdata hne
    · exact absurd rfl hne

theorem sound_store {d : D} (h : Sound π t) (hd : t.storing = some d) :
    Sound π { t with storing := none, stored := t.stored ++ [π.payload d] } := by
  have hrec : Transfer.received { t with storing := none, stored := t.stored ++ [π.payload d] } =
      t.received := by
    rw [Transfer.received, Transfer.received, hd, List.length_append]
    rfl
  have hg : t.acking = none := by
    by_contra hne
    rw [h.apart hne] at hd
    cases hd
  refine ⟨h.bound, h.sent, h.one, h.idle, h.data, h.acking, h.acks, nofun, ?_, ?_, ?_, ?_,
    fun hne => absurd hg hne⟩
  · rw [List.length_append, List.length_singleton, List.range_succ, List.map_append, ← h.stored,
      List.map_singleton, ← h.storing d hd]
  · rw [hrec]
    exact h.ahead
  · rw [hrec]
    exact h.fresh
  · rw [hrec]
    exact h.answered

theorem sound_consume {acks : List ℕ} (h : Sound π t) (hw : t.waiting = true)
    (hp : (π.number (π.packet t.acked) :: acks).Perm t.acks) :
    Sound π { t with acked := t.acked+1, waiting := false, acks := acks } := by
  have hne : t.acks ≠ [] := by
    intro hnil
    rw [hnil] at hp
    exact absurd hp.length_eq (by simp)
  obtain ⟨hd, hg, hlen⟩ := h.acks_only hne
  have hrec := h.answered hne
  -- the ACK was the only message under way
  have hnil : acks = [] := by
    have hl := hp.length_eq
    rw [List.length_cons] at hl
    exact List.eq_nil_of_length_eq_zero (by omega)
  subst hnil
  have hzero : Transfer.underWay { t with acked := t.acked+1, waiting := false, acks := [] } = 0 :=
    underWay_eq_zero.mpr ⟨hd, hg, rfl⟩
  refine ⟨h.sent hw, nofun, by omega, fun _ => hzero, ?_, ?_, nofun, h.storing, h.stored,
    Or.inl hrec, ?_, fun hne => absurd rfl hne, h.apart⟩
  · rw [hd]
    nofun
  · rw [hg]
    nofun
  · rintro (hne | hne)
    · exact absurd hd hne
    · exact absurd hg hne

theorem sound_lose {data : List D} {acks : List ℕ} {acking : Option D} (h : Sound π t)
    (hd : data.Sublist t.data) (ha : acks.Subperm t.acks)
    (hg : acking = t.acking ∨ acking = none) :
    Sound π { t with data := data, acks := acks, acking := acking } := by
  have hlen : acking.toList.length ≤ t.acking.toList.length := by
    rcases hg with rfl | rfl
    · exact Nat.le_refl _
    · exact Nat.zero_le _
  -- with less under way every clause that bounds it is kept
  have hle : Transfer.underWay { t with data := data, acks := acks, acking := acking } ≤ t.underWay :=
    Nat.add_le_add (Nat.add_le_add hd.length_le hlen) ha.length_le
  have hacking : acking ≠ none → acking = t.acking := by
    intro hne
    rcases hg with hg | hg
    · exact hg
    · exact absurd hg hne
  refine ⟨h.bound, h.sent, Nat.le_trans hle h.one, ?_, ?_, ?_, ?_, h.storing, h.stored, h.ahead, ?_,
    ?_, ?_⟩
  · intro hw
    exact Nat.le_zero.mp (Nat.le_trans hle (Nat.le_of_eq (h.idle hw)))
  · intro e he
    exact h.data e (hd.subset he)
  · intro e he
    refine h.acking e (hacking ?_ ▸ he)
    rintro rfl
    cases he
  · intro n hn
    exact h.acks n (ha.subset hn)
  · rintro (hne | hne)
    · refine h.fresh (Or.inl ?_)
      rintro hnil
      rw [hnil] at hd
      exact hne (List.sublist_nil.mp hd)
    · exact h.fresh (Or.inr (hacking hne ▸ hne))
  · intro hne
    refine h.answered ?_
    rintro hnil
    rw [hnil] at ha
    exact hne (List.subperm_nil.mp ha)
  · intro hne
    exact h.apart (hacking hne ▸ hne)

end Steps

/-- Every step keeps the invariant. -/
theorem sound_step [BEq D] [LawfulBEq D] (h : Sound π t) (hs : Step π t u) : Sound π u := by
  cases hs with
  | send hw hk => exact sound_send h hw hk
  | receive hd ha hs => exact sound_receive h hd ha hs
  | acknowledge hd hp => exact sound_acknowledge h hd hp
  | store hd => exact sound_store h hd
  | consume hw hp => exact sound_consume h hw hp
  | lose hd ha hg => exact sound_lose h hd ha hg

end NetTools.StopAndWait
