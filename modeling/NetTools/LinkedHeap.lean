import Mathlib.Data.List.Basic
import Mathlib.Data.List.Nodup
import Mathlib.Data.List.Perm.Subperm
import Mathlib.Logic.Function.Basic

/-! Singly linked lists in a heap: every cell holds a value and the address of the next cell.
A chain is the list that a pointer stands for; the walks over a list and its changes in place are
described on chains. -/
namespace NetTools.LinkedHeap

structure Cell (α : Type*) where
  value : α
  next : Option ℕ
  deriving DecidableEq

/-- The cells in use. They lie below `bound`, so that a walk that takes more steps goes round in
a cycle. -/
structure Heap (α : Type*) where
  cell : ℕ → Option (Cell α)
  bound : ℕ
  cell_of_le : ∀ a, bound ≤ a → cell a = none

namespace Heap

variable {α : Type*}

def empty : Heap α := ⟨fun _ => none, 0, fun _ _ => rfl⟩

/-- A cell comes into use. -/
def alloc (h : Heap α) (a : ℕ) (c : Cell α) : Heap α where
  cell := Function.update h.cell a (some c)
  bound := max h.bound (a+1)
  cell_of_le := by
    intro b hb
    rw [Function.update_of_ne (by omega)]
    exact h.cell_of_le b (by omega)

/-- The cell at `a` is given back. -/
def free (h : Heap α) (a : ℕ) : Heap α where
  cell := Function.update h.cell a none
  bound := h.bound
  cell_of_le := by
    intro b hb
    rw [Function.update_apply]
    split_ifs
    · rfl
    · exact h.cell_of_le b hb

/-- `N->next = q;` -/
def setNext (h : Heap α) (a : ℕ) (q : Option ℕ) : Heap α where
  cell := Function.update h.cell a ((h.cell a).map fun c => { c with next := q })
  bound := h.bound
  cell_of_le := by
    intro b hb
    rw [Function.update_apply]
    split_ifs with hba
    · rw [← hba, h.cell_of_le b hb]
      rfl
    · exact h.cell_of_le b hb

/-- `for (N = p; N != NULL; N = N->next) if (test(N)) break;`, as the address where it stops. It is
`none` when a cell that is not in use is read, or when the walk does not end in `n` steps. -/
def find (h : Heap α) (test : α → Bool) : ℕ → Option ℕ → Option (Option ℕ)
  | _, none => some none
  | 0, some _ => none
  | n+1, some a =>
    (h.cell a).bind fun c => if test c.value then some (some a) else h.find test n c.next

/-- `while (N->next != NULL) N = N->next;` from the cell at `a` on. -/
def last (h : Heap α) : ℕ → ℕ → Option ℕ
  | 0, _ => none
  | n+1, a =>
    (h.cell a).bind fun c =>
      match c.next with
      | none => some a
      | some b => h.last n b

/-- `for (N = a; N->next != NULL; N = N->next) if (test(N->next)) break;`, as the address where
it stops. -/
def before (h : Heap α) (test : α → Bool) : ℕ → ℕ → Option (Option ℕ)
  | 0, _ => none
  | n+1, a =>
    (h.cell a).bind fun c =>
      match c.next with
      | none => some none
      | some b => (h.cell b).bind fun d => if test d.value then some (some a) else h.before test n b

theorem alloc_cell_self (h : Heap α) (a : ℕ) (c : Cell α) : (h.alloc a c).cell a = some c :=
  Function.update_self _ _ _

theorem alloc_cell_of_ne (h : Heap α) {a b : ℕ} (c : Cell α) (hb : b ≠ a) :
    (h.alloc a c).cell b = h.cell b :=
  Function.update_of_ne hb _ _

theorem free_cell_self (h : Heap α) (a : ℕ) : (h.free a).cell a = none := Function.update_self _ _ _

theorem free_cell_of_ne (h : Heap α) {a b : ℕ} (hb : b ≠ a) : (h.free a).cell b = h.cell b :=
  Function.update_of_ne hb _ _

theorem setNext_cell_self (h : Heap α) {a : ℕ} {c : Cell α} (hc : h.cell a = some c)
    (q : Option ℕ) : (h.setNext a q).cell a = some { c with next := q } := by
  have hcell : (h.setNext a q).cell a = (h.cell a).map fun c => { c with next := q } :=
    Function.update_self _ _ _
  rw [hcell, hc, Option.map_some]

theorem setNext_cell_of_ne (h : Heap α) {a b : ℕ} (q : Option ℕ) (hb : b ≠ a) :
    (h.setNext a q).cell b = h.cell b :=
  Function.update_of_ne hb _ _

end Heap

variable {α : Type*}

/-- From the pointer `p` on stand the cells of `l`, given by their addresses and values. -/
def Chain (h : Heap α) : Option ℕ → List (ℕ × α) → Prop
  | p, [] => p = none
  | p, e :: l => p = some e.1 ∧ ∃ q, h.cell e.1 = some ⟨e.2, q⟩ ∧ Chain h q l

variable {h h' : Heap α} {p : Option ℕ} {l : List (ℕ × α)} {e : ℕ × α} {test : α → Bool} {n : ℕ}

/-- A chain needs its own cells only. -/
theorem Chain.frame (hc : Chain h p l) (heq : ∀ e ∈ l, h'.cell e.1 = h.cell e.1) : Chain h' p l := by
  induction l generalizing p with
  | nil => exact hc
  | cons e l ih =>
    obtain ⟨hp, q, hcell, hq⟩ := hc
    refine ⟨hp, q, ?_, ?_⟩
    · rw [heq e List.mem_cons_self, hcell]
    · apply ih hq
      intro d hd
      exact heq d (List.mem_cons_of_mem _ hd)

/-- A pointer stands for one list. -/
theorem Chain.unique {l' : List (ℕ × α)} (hc : Chain h p l) (hc' : Chain h p l') : l = l' := by
  induction l generalizing p l' with
  | nil =>
    cases l' with
    | nil => rfl
    | cons e l' =>
      have hp : p = none := hc
      rw [hp] at hc'
      cases hc'.1
  | cons e l ih =>
    obtain ⟨rfl, q, hcell, hq⟩ := hc
    cases l' with
    | nil => cases hc'
    | cons e' l' =>
      obtain ⟨hp, q', hcell', hq'⟩ := hc'
      have haddr : e.1 = e'.1 := Option.some.inj hp
      rw [← haddr, hcell] at hcell'
      obtain ⟨hvalue, rfl⟩ := Cell.mk.inj (Option.some.inj hcell')
      rw [ih hq hq', Prod.ext haddr hvalue]

/-- The rest of a chain is a chain. -/
theorem Chain.drop {front : List (ℕ × α)} (hc : Chain h p (front ++ e :: l)) :
    Chain h (some e.1) (e :: l) := by
  induction front generalizing p with
  | nil =>
    obtain ⟨rfl, hrest⟩ := hc
    exact ⟨rfl, hrest⟩
  | cons d front ih =>
    obtain ⟨-, q, -, hq⟩ := hc
    exact ih hq

/-- No cell stands twice in a chain: behind it the same cells would follow again. -/
theorem Chain.nodup (hc : Chain h p l) : (l.map Prod.fst).Nodup := by
  induction l generalizing p with
  | nil => exact List.nodup_nil
  | cons e l ih =>
    have hwhole := hc
    obtain ⟨rfl, q, hcell, hq⟩ := hc
    rw [List.map_cons, List.nodup_cons]
    refine ⟨?_, ih hq⟩
    intro hmem
    obtain ⟨d, hd, hde⟩ := List.mem_map.mp hmem
    obtain ⟨front, rest, rfl⟩ := List.append_of_mem hd
    have hagain := hq.drop
    rw [hde] at hagain
    have hlen := congrArg List.length (hwhole.unique hagain)
    simp only [List.length_cons, List.length_append] at hlen
    omega

theorem Chain.cell_of_mem (hc : Chain h p l) (he : e ∈ l) : ∃ q, h.cell e.1 = some ⟨e.2, q⟩ := by
  obtain ⟨front, rest, rfl⟩ := List.append_of_mem he
  obtain ⟨-, q, hcell, -⟩ := hc.drop
  exact ⟨q, hcell⟩

theorem Chain.notMem_of_cell_none (hc : Chain h p l) {a : ℕ} (ha : h.cell a = none) :
    ∀ e ∈ l, e.1 ≠ a := by
  rintro e he rfl
  obtain ⟨q, hcell⟩ := hc.cell_of_mem he
  rw [ha] at hcell
  cases hcell

/-- The bound of the heap is fuel enough for every chain. -/
theorem Chain.length_le (hc : Chain h p l) : l.length ≤ h.bound := by
  have hsub : l.map Prod.fst ⊆ List.range h.bound := by
    intro a ha
    obtain ⟨e, he, rfl⟩ := List.mem_map.mp ha
    rw [List.mem_range]
    by_contra hle
    exact hc.notMem_of_cell_none (h.cell_of_le e.1 (Nat.not_lt.mp hle)) e he rfl
  have hlen := (List.subperm_of_subset hc.nodup hsub).length_le
  rwa [List.length_map, List.length_range] at hlen

theorem Chain.eq_nil_iff (hc : Chain h p l) : p = none ↔ l = [] := by
  cases l with
  | nil => exact ⟨fun _ => rfl, fun _ => hc⟩
  | cons e l =>
    rw [hc.1]
    exact ⟨fun hp => absurd hp (Option.some_ne_none _), fun hl => absurd hl (List.cons_ne_nil _ _)⟩

/-- The search stops at the first cell that passes the test. -/
theorem Chain.find_eq (hc : Chain h p l) (hn : l.length ≤ n) :
    h.find test n p = some ((l.find? fun e => test e.2).map Prod.fst) := by
  induction l generalizing p n with
  | nil =>
    have hp : p = none := hc
    rw [hp, Heap.find]
    rfl
  | cons e l ih =>
    obtain ⟨rfl, q, hcell, hq⟩ := hc
    obtain ⟨n, rfl⟩ := Nat.exists_eq_add_one.mpr (Nat.zero_lt_of_lt hn)
    rw [Heap.find, hcell, Option.bind_some, List.find?_cons]
    cases htest : test e.2 with
    | true => rfl
    | false =>
      rw [List.length_cons] at hn
      exact ih hq (by omega)

/-- The walk to the end stops at the last cell. -/
theorem Chain.last_eq {front : List (ℕ × α)} (hc : Chain h p (front ++ [e])) {a : ℕ}
    (hp : p = some a) (hn : front.length < n) : h.last n a = some e.1 := by
  induction front generalizing p a n with
  | nil =>
    obtain ⟨n, rfl⟩ := Nat.exists_eq_add_one.mpr (Nat.zero_lt_of_lt hn)
    obtain ⟨hpe, q, hcell, hq⟩ := hc
    have hnext : q = none := hq
    rw [hp] at hpe
    rw [Option.some.inj hpe, Heap.last, hcell, hnext]
    rfl
  | cons d front ih =>
    obtain ⟨n, rfl⟩ := Nat.exists_eq_add_one.mpr (Nat.zero_lt_of_lt hn)
    obtain ⟨hpd, q, hcell, hq⟩ := hc
    rw [hp] at hpd
    rw [Option.some.inj hpd, Heap.last, hcell, Option.bind_some]
    rw [List.length_cons] at hn
    cases hqb : q with
    | none =>
      rw [hqb] at hq
      exact absurd (hq.eq_nil_iff.mp rfl) (List.append_ne_nil_of_right_ne_nil _ (by simp))
    | some b => exact ih hq hqb (by omega)

/-- The walk that looks one cell ahead stops in front of the first cell that passes the test. -/
theorem Chain.before_eq {front rest : List (ℕ × α)} {d : ℕ × α}
    (hc : Chain h p (front ++ d :: e :: rest)) {a : ℕ} (hp : p = some a)
    (hfront : ∀ x ∈ front ++ [d], test x.2 = false) (he : test e.2 = true)
    (hn : front.length < n) : h.before test n a = some (some d.1) := by
  induction front generalizing p a n with
  | nil =>
    obtain ⟨n, rfl⟩ := Nat.exists_eq_add_one.mpr (Nat.zero_lt_of_lt hn)
    obtain ⟨hpd, q, hcell, rfl, q', hcell', -⟩ := hc
    rw [hp] at hpd
    rw [Option.some.inj hpd, Heap.before, hcell, Option.bind_some]
    simp only [hcell', Option.bind_some, he, ↓reduceIte]
  | cons x front ih =>
    obtain ⟨n, rfl⟩ := Nat.exists_eq_add_one.mpr (Nat.zero_lt_of_lt hn)
    obtain ⟨hpx, q, hcell, hq⟩ := hc
    rw [hp] at hpx
    rw [List.length_cons] at hn
    -- the cell behind `x` is `d` or one in front of it, so it fails the test
    obtain ⟨b, y, q', hqb, hcell', hy⟩ : ∃ b y q', q = some b ∧ h.cell b = some ⟨y, q'⟩ ∧
        test y = false := by
      cases front with
      | nil =>
        obtain ⟨hqd, q', hcell', -⟩ := hq
        exact ⟨d.1, d.2, q', hqd, hcell', hfront d (by simp)⟩
      | cons y front =>
        obtain ⟨hqy, q', hcell', -⟩ := hq
        exact ⟨y.1, y.2, q', hqy, hcell', hfront y (by simp)⟩
    rw [Option.some.inj hpx, Heap.before, hcell, Option.bind_some]
    simp only [hqb, hcell', Option.bind_some, hy]
    apply ih hq hqb
    · intro z hz
      exact hfront z (List.mem_cons_of_mem _ hz)
    · omega

/-- The cells in front of one stay; what follows it is exchanged. -/
theorem Chain.relink {front rest rest' : List (ℕ × α)}
    (hc : Chain h p (front ++ e :: rest)) (q' : Option ℕ) (hrest : Chain h' q' rest')
    (hcell : h'.cell e.1 = some ⟨e.2, q'⟩) (heq : ∀ d ∈ front, h'.cell d.1 = h.cell d.1) :
    Chain h' p (front ++ e :: rest') := by
  induction front generalizing p with
  | nil => exact ⟨hc.1, q', hcell, hrest⟩
  | cons d front ih =>
    obtain ⟨hp, q, hcelld, hq⟩ := hc
    refine ⟨hp, q, ?_, ?_⟩
    · rw [heq d List.mem_cons_self, hcelld]
    · apply ih hq
      intro x hx
      exact heq x (List.mem_cons_of_mem _ hx)

theorem Chain.ne_of_mem_front {front rest : List (ℕ × α)} (hc : Chain h p (front ++ e :: rest)) :
    ∀ d ∈ front, d.1 ≠ e.1 := by
  intro d hd heq
  have hnodup := hc.nodup
  rw [List.map_append, List.nodup_append] at hnodup
  exact hnodup.2.2 d.1 (List.mem_map_of_mem hd) e.1 (by simp) heq

theorem Chain.ne_of_mem_rest {front rest : List (ℕ × α)} (hc : Chain h p (front ++ e :: rest)) :
    ∀ d ∈ rest, d.1 ≠ e.1 := by
  intro d hd heq
  have hnodup := hc.drop.nodup
  rw [List.map_cons, List.nodup_cons] at hnodup
  exact hnodup.1 (heq ▸ List.mem_map_of_mem hd)

/-- A new cell behind the last one. -/
theorem Chain.append {front : List (ℕ × α)} (hc : Chain h p (front ++ [e])) {b : ℕ}
    (hb : h.cell b = none) (v : α) :
    Chain ((h.alloc b ⟨v, none⟩).setNext e.1 (some b)) p (front ++ [e, (b, v)]) := by
  have hne := hc.notMem_of_cell_none hb
  have heb : e.1 ≠ b := hne e (by simp)
  obtain ⟨-, q, hcell, hq⟩ := hc.drop
  refine hc.relink (some b) ?_ ?_ ?_
  · refine ⟨rfl, none, ?_, rfl⟩
    rw [Heap.setNext_cell_of_ne _ _ heb.symm, Heap.alloc_cell_self]
  · apply Heap.setNext_cell_self (c := ⟨e.2, q⟩)
    rw [Heap.alloc_cell_of_ne _ _ heb, hcell]
  · intro d hd
    rw [Heap.setNext_cell_of_ne _ _ (hc.ne_of_mem_front d hd),
      Heap.alloc_cell_of_ne _ _ (hne d (List.mem_append_left _ hd))]

/-- The pointer past the first cell, which is given back. -/
theorem Chain.unlink_head (hc : Chain h p (e :: l)) :
    ∃ q, h.cell e.1 = some ⟨e.2, q⟩ ∧ Chain (h.free e.1) q l := by
  have hfirst : Chain h p ([] ++ e :: l) := hc
  have hne := hfirst.ne_of_mem_rest
  obtain ⟨-, q, hcell, hq⟩ := hc
  refine ⟨q, hcell, hq.frame ?_⟩
  intro d hd
  exact Heap.free_cell_of_ne _ (hne d hd)

/-- A cell in the middle or at the end is bridged and given back. -/
theorem Chain.unlink {front rest : List (ℕ × α)} {d : ℕ × α}
    (hc : Chain h p (front ++ d :: e :: rest)) :
    ∃ q, h.cell e.1 = some ⟨e.2, q⟩ ∧
      Chain ((h.setNext d.1 q).free e.1) p (front ++ d :: rest) := by
  have hsplit : front ++ d :: e :: rest = (front ++ [d]) ++ e :: rest := by simp
  have hde : ∀ x ∈ front ++ [d], x.1 ≠ e.1 := (hsplit ▸ hc).ne_of_mem_front
  have hrestd := hc.ne_of_mem_rest
  have hreste : ∀ x ∈ rest, x.1 ≠ e.1 := (hsplit ▸ hc).ne_of_mem_rest
  obtain ⟨-, q₀, hcelld, -, q, hcell, hq⟩ := hc.drop
  refine ⟨q, hcell, hc.relink q ?_ ?_ ?_⟩
  · apply hq.frame
    intro x hx
    rw [Heap.free_cell_of_ne _ (hreste x hx),
      Heap.setNext_cell_of_ne _ _ (hrestd x (List.mem_cons_of_mem _ hx))]
  · rw [Heap.free_cell_of_ne _ (hde d (by simp)), Heap.setNext_cell_self _ hcelld]
  · intro x hx
    rw [Heap.free_cell_of_ne _ (hde x (List.mem_append_left _ hx)),
      Heap.setNext_cell_of_ne _ _ (hc.ne_of_mem_front x hx)]

/-- The heap holds the cells of a list and nothing else. -/
def Exactly (h : Heap α) (l : List (ℕ × α)) : Prop := ∀ a, h.cell a ≠ none → ∃ e ∈ l, e.1 = a

theorem exactly_empty : Exactly (Heap.empty : Heap α) [] := fun _ ha => absurd rfl ha

theorem Exactly.cell_nil (h' : Exactly h []) (a : ℕ) : h.cell a = none := by
  by_contra ha
  obtain ⟨e, he, -⟩ := h' a ha
  cases he

theorem Exactly.alloc (hx : Exactly h l) {b : ℕ} {v : α} {q : Option ℕ} :
    Exactly (h.alloc b ⟨v, q⟩) (l ++ [(b, v)]) := by
  intro a ha
  by_cases hab : a = b
  · exact ⟨(b, v), by simp, hab.symm⟩
  · rw [Heap.alloc_cell_of_ne _ _ hab] at ha
    obtain ⟨e, he, hea⟩ := hx a ha
    exact ⟨e, List.mem_append_left _ he, hea⟩

/-- No cell comes into use by a change of `next`. -/
theorem Heap.used_of_setNext {a b : ℕ} {q : Option ℕ} (ha : (h.setNext b q).cell a ≠ none) :
    h.cell a ≠ none := by
  intro hnone
  apply ha
  by_cases hab : a = b
  · subst hab
    have hcell : (h.setNext a q).cell a = (h.cell a).map fun c => { c with next := q } :=
      Function.update_self _ _ _
    rw [hcell, hnone, Option.map_none]
  · rw [Heap.setNext_cell_of_ne _ _ hab, hnone]

theorem Heap.used_of_free {a b : ℕ} (ha : (h.free b).cell a ≠ none) : h.cell a ≠ none := by
  by_cases hab : a = b
  · rw [hab, Heap.free_cell_self] at ha
    exact absurd rfl ha
  · rwa [Heap.free_cell_of_ne _ hab] at ha

theorem Exactly.setNext (hx : Exactly h l) (b : ℕ) (q : Option ℕ) : Exactly (h.setNext b q) l :=
  fun a ha => hx a (Heap.used_of_setNext ha)

/-- When no cell comes into use and one of the list goes, the others are left. -/
theorem Exactly.remove {front rest : List (ℕ × α)} (hx : Exactly h (front ++ e :: rest))
    (hused : ∀ a, h'.cell a ≠ none → h.cell a ≠ none) (hfreed : h'.cell e.1 = none) :
    Exactly h' (front ++ rest) := by
  intro a ha
  obtain ⟨d, hd, hda⟩ := hx a (hused a ha)
  rw [List.mem_append, List.mem_cons] at hd
  rcases hd with hd | rfl | hd
  · exact ⟨d, List.mem_append_left _ hd, hda⟩
  · rw [hda] at hfreed
    exact absurd hfreed ha
  · exact ⟨d, List.mem_append_right _ hd, hda⟩

end NetTools.LinkedHeap
