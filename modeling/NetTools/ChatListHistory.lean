import NetTools.ChatListSteps
import NetTools.OrderedMap
import NetTools.Schedule

namespace NetTools.Chat

open CText LinkedHeap Schedule

def idOf (m : Memory) (c : ClientNode) : Bytes := m.str c.id

inductive MapCall
  | insert (id ip : ℕ) (port : Int) (malloc : Option ℕ)
  | remove (id : ℕ)

/-- The list and what came of the calls on it. -/
structure Logged where
  list : ClientList
  log : List (OrderedMap.Event ClientNode Bytes)

def Logged.start : Logged := ⟨newClientList, []⟩

/-- A call that returns. -/
def Logged.step (m : Memory) (s : Logged) : MapCall → Option Logged
  | .insert id ip port malloc =>
    match insertToList m s.list id ip port malloc with
    | .ok (L, result) =>
      let event := if result < 0 then .refused ⟨id, ip, port⟩ else .inserted ⟨id, ip, port⟩
      some ⟨L, s.log ++ [event]⟩
    | .error _ => none
  | .remove id =>
    match removeFromList m s.list id with
    | .ok L => some ⟨L, s.log ++ [.removed (m.str id)]⟩
    | .error _ => none

/-- The chain from `top` holds the entries of the map, in their order. -/
structure Represents (m : Memory) (L : ClientList) (s : OrderedMap (idOf m)) : Prop where
  chain : ∃ l, Chain L.heap L.top l ∧ l.map Prod.snd = s.toList
  count : L.numClients = s.toList.length

variable {m : Memory} {L L' : ClientList} {s : OrderedMap (idOf m)} {l : List (ℕ × ClientNode)}

theorem absent_iff {id : ℕ} (hl : l.map Prod.snd = s.toList) :
    Absent m l id ↔ ¬ s.Has (m.str id) := by
  have hmem (c : ClientNode) : c ∈ s.toList ↔ ∃ e ∈ l, e.2 = c := by rw [← hl, List.mem_map]
  constructor
  · rintro habsent ⟨c, hc, hid⟩
    obtain ⟨e, he, rfl⟩ := (hmem c).mp hc
    have hsame := habsent e he
    rw [sameId, decide_eq_false_iff_not] at hsame
    exact hsame hid.symm
  · intro hnot e he
    rw [sameId, decide_eq_false_iff_not]
    intro hid
    exact hnot ⟨e.2, (hmem e.2).mpr ⟨e, he, rfl⟩, hid.symm⟩

theorem represents_newClientList : Represents m newClientList .empty :=
  ⟨⟨[], rfl, rfl⟩, rfl⟩

/-- An insertion is refused because the id is there, and nothing but the mutex changes; or the node
is appended. -/
theorem represents_insert (h : Represents m L s) {id ip : ℕ} {port : Int} {malloc : Option ℕ}
    {result : Int} (hcall : insertToList m L id ip port malloc = .ok (L', result)) :
    (result = -1 ∧ s.Has (m.str id) ∧ L' = { L with locked := true }) ∨
      (result = 1 ∧ L'.numClients < 2^31 ∧ ∃ hnew : ¬ s.Has (idOf m ⟨id, ip, port⟩),
        Represents m L' (s.insert ⟨id, ip, port⟩ hnew)) := by
  obtain ⟨l, hchain, hl⟩ := h.chain
  have hcases := insertToList_cases m id hchain (free_of_insertToList hcall) ip port
    malloc
  rw [hcall] at hcases
  cases hcases with
  | refused hpresent => exact Or.inl ⟨rfl, not_not.mp ((absent_iff hl).not.mp hpresent), rfl⟩
  | node habsent hcell hchain' hcount hlt =>
    have hnew : ¬ s.Has (idOf m ⟨id, ip, port⟩) := (absent_iff hl).mp habsent
    refine Or.inr ⟨rfl, hlt, hnew, ⟨_, hchain', ?_⟩, ?_⟩
    · rw [List.map_append, hl, OrderedMap.toList_insert]
      rfl
    · rw [hcount, h.count, OrderedMap.toList_insert, List.length_append]
      rfl

/-- A removal that returns erases the id. -/
theorem represents_remove (h : Represents m L s) {id : ℕ}
    (hcall : removeFromList m L id = .ok L') :
    s.Has (m.str id) ∧ Represents m L' (s.erase (m.str id)) := by
  obtain ⟨l, hchain, hl⟩ := h.chain
  obtain ⟨front, e, rest, hfirst, hchain', -, hcount, -⟩ := removeFromList_ok hchain hcall
  have hid : m.str id = idOf m e.2 := of_decide_eq_true hfirst.same
  have hsplit : s.toList = front.map Prod.snd ++ e.2 :: rest.map Prod.snd := by
    rw [← hl, hfirst.split, List.map_append, List.map_cons]
  have herase : (s.erase (m.str id)).toList = (front ++ rest).map Prod.snd := by
    rw [hid, OrderedMap.toList_erase hsplit, List.map_append]
  refine ⟨⟨e.2, ?_, hid.symm⟩, ⟨_, hchain', herase.symm⟩, ?_⟩
  · rw [hsplit]
    exact List.mem_append_right _ List.mem_cons_self
  · rw [hcount, h.count, herase, hsplit]
    simp only [List.length_append, List.length_map, List.length_cons]
    omega

/-- Every sequence of calls that return is a history of the map that the list represents. -/
theorem history_of_reachable {t : Logged} (h : Reachable (Logged.step m) anyStep .start t) :
    ∃ s : OrderedMap (idOf m), OrderedMap.History t.log s ∧ Represents m t.list s := by
  refine h.invariant (P := fun t => ∃ s : OrderedMap (idOf m),
    OrderedMap.History t.log s ∧ Represents m t.list s) ?_ ?_
  · exact ⟨.empty, .start, represents_newClientList⟩
  · rintro t call u ⟨s, hlog, hrep⟩ - hstep
    cases call with
    | insert id ip port malloc =>
      rw [Logged.step] at hstep
      split at hstep
      · rename_i L result hcall
        cases hstep
        rcases represents_insert hrep hcall with ⟨rfl, hhas, rfl⟩ | ⟨rfl, -, hnew, hrep'⟩
        · exact ⟨s, hlog.refuse hhas, hrep.chain, hrep.count⟩
        · exact ⟨_, hlog.insert hnew, hrep'⟩
      · cases hstep
    | remove id =>
      rw [Logged.step] at hstep
      split at hstep
      · rename_i L hcall
        cases hstep
        obtain ⟨hhas, hrep'⟩ := represents_remove hrep hcall
        exact ⟨_, hlog.remove hhas, hrep'⟩
      · cases hstep

theorem Represents.lookup_iff (h : Represents m L s) (id : ℕ) :
    ∃ found, lookup m L id = .ok found ∧ (found ≠ none ↔ s.Has (m.str id)) := by
  obtain ⟨l, hchain, hl⟩ := h.chain
  rcases absent_or_first m l id with habsent | ⟨front, e, rest, hfirst⟩
  · have hnot := (absent_iff hl).mp habsent
    exact ⟨none, lookup_of_absent hchain habsent, by simp [hnot]⟩
  · have hhas := not_not.mp ((absent_iff hl).not.mp hfirst.not_absent)
    exact ⟨some e.2.id, lookup_of_first hchain hfirst, by simp [hhas]⟩

/-- `isEmpty` looks at the counter, and it is right. -/
theorem Represents.isEmpty_iff (h : Represents m L s) : isEmpty L = true ↔ L.top = none := by
  obtain ⟨l, hchain, hl⟩ := h.chain
  rw [isEmpty, decide_eq_true_eq, h.count, hchain.eq_nil_iff, ← hl, List.length_map]
  exact ⟨fun h => List.length_eq_zero_iff.mp (by omega), fun h => by rw [h]; rfl⟩

/-- After any sequence of calls that return, the chain from `top` holds what was inserted and not
removed, in order and with distinct ids; the counter and `lookup` agree with it; a refused insertion
leaves it as it is, and a removal takes out its own node only. -/
theorem chain_of_history {t : Logged} (h : Reachable (Logged.step m) anyStep .start t) :
    ∃ l, Chain t.list.heap t.list.top l ∧
      l.map Prod.snd = OrderedMap.remaining (idOf m) t.log ∧
      (l.map fun e => m.str e.2.id).Nodup ∧ t.list.numClients = l.length ∧
      (∀ id, ∃ found, lookup m t.list id = .ok found ∧
        (found ≠ none ↔ ∃ e ∈ l, m.str e.2.id = m.str id)) ∧
      (∀ id ip port malloc L', insertToList m t.list id ip port malloc = .ok (L', -1) →
        L'.heap = t.list.heap ∧ L'.top = t.list.top ∧ L'.numClients = t.list.numClients) ∧
      ∀ id L', removeFromList m t.list id = .ok L' → ∃ front e rest, l = front ++ e :: rest ∧
        m.str e.2.id = m.str id ∧ Chain L'.heap L'.top (front ++ rest) ∧
          L'.heap.cell e.1 = none := by
  obtain ⟨s, hlog, hrep⟩ := history_of_reachable h
  obtain ⟨l, hchain, hl⟩ := hrep.chain
  have hlen : l.length = s.toList.length := by rw [← hl, List.length_map]
  have hhas (k : Bytes) : s.Has k ↔ ∃ e ∈ l, m.str e.2.id = k := by
    rw [OrderedMap.Has, ← hl]
    simp only [List.mem_map, exists_exists_and_eq_and]
    rfl
  refine ⟨l, hchain, by rw [hl, hlog.toList_eq], ?_, by rw [hrep.count, hlen], ?_, ?_, ?_⟩
  · have hdistinct := s.distinct
    rw [← hl, List.map_map] at hdistinct
    exact hdistinct
  · intro id
    obtain ⟨found, hfound, hiff⟩ := hrep.lookup_iff id
    exact ⟨found, hfound, hiff.trans (hhas _)⟩
  · intro id ip port malloc L' hcall
    rcases represents_insert hrep hcall with ⟨-, -, rfl⟩ | ⟨hresult, -⟩
    · exact ⟨rfl, rfl, rfl⟩
    · cases hresult
  · intro id L' hcall
    obtain ⟨front, e, rest, hfirst, hchain', hfreed, -, -⟩ := removeFromList_ok hchain hcall
    have hid : m.str id = m.str e.2.id := of_decide_eq_true hfirst.same
    exact ⟨front, e, rest, hfirst.split, hid.symm, hchain', hfreed⟩

theorem chain_of_history_two :
    ∃ t, Reachable (Logged.step exampleMemory) anyStep .start t ∧
      t.log = [.inserted ⟨1, 3, 5001⟩, .inserted ⟨2, 3, 5002⟩, .removed (ascii "a")] ∧
      ∃ l, Chain t.list.heap t.list.top l ∧ l.map Prod.snd = [⟨2, 3, 5002⟩] ∧
        t.list.numClients = l.length := by
  obtain ⟨t, hr, hlog⟩ := exists_reachable_of_replayIf (C := anyStep)
    [.insert 1 3 5001 (some 7), .insert 2 3 5002 (some 4), .remove 1]
    (fun t : Logged => t.log = [.inserted ⟨1, 3, 5001⟩, .inserted ⟨2, 3, 5002⟩, .removed (ascii "a")])
    (by decide : (replayIf (Logged.step exampleMemory) anyStep .start _).any _ = true)
  obtain ⟨l, hchain, hl, -, hcount, -⟩ := chain_of_history hr
  refine ⟨t, hr, hlog, l, hchain, ?_, hcount⟩
  rw [hl, hlog]
  decide

end NetTools.Chat
