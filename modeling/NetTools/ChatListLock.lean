import NetTools.ChatListHistory

namespace NetTools.Chat

open CText LinkedHeap Schedule

inductive Call
  | insertToList (id ip : ℕ) (port : Int) (malloc : Option ℕ)
  | removeFromList (id : ℕ)
  | sendClientList (sends : ℕ → Bool)
  | sendClientInfo (id : ℕ) (send : Bool)

/-- The list behind a call that returns. -/
def call (m : Memory) (L : ClientList) : Call → Except Halt ClientList
  | .insertToList id ip port malloc => (insertToList m L id ip port malloc).map Prod.fst
  | .removeFromList id => removeFromList m L id
  | .sendClientList sends => (sendClientList m L sends).map Prod.fst
  | .sendClientInfo id send => (sendClientInfo m L id send).map Prod.fst

/-- Each call that returns leaves the mutex free, and none blocks. -/
def Releases (m : Memory) (L : ClientList) : List Call → Prop
  | [] => True
  | c :: calls =>
    match call m L c with
    | .ok L' => L'.locked = false ∧ Releases m L' calls
    | .error .blocked => False
    | .error (.ended _) => True

/-- The call inserts an id that is in the list. -/
def Collides (m : Memory) (L : ClientList) : Call → Prop
  | .insertToList id _ _ _ => ∃ found, lookup m L id = .ok (some found)
  | .removeFromList _ => False
  | .sendClientList _ => False
  | .sendClientInfo _ _ => False

/-- No call of the sequence inserts an id that is in the list at that time. -/
def CollisionFree (m : Memory) (L : ClientList) : List Call → Prop
  | [] => True
  | c :: calls =>
    ¬ Collides m L c ∧
      match call m L c with
      | .ok L' => CollisionFree m L' calls
      | .error _ => True

/-- A call that gives the mutex back, or ends the process. -/
inductive GivesBack : Except Halt ClientList → Prop
  | returned {L : ClientList} {l : List (ℕ × ClientNode)} :
      Chain L.heap L.top l → L.locked = false → GivesBack (.ok L)
  | ended (status : ProcessStatus) : GivesBack (.error (.ended status))

variable {m : Memory} {L : ClientList} {l : List (ℕ × ClientNode)}

theorem removeFromList_givesBack (hc : Chain L.heap L.top l) (hfree : L.locked = false) (id : ℕ) :
    GivesBack (removeFromList m L id) := by
  have hcases := removeSection_cases m id hc hfree
  rw [removeFromList]
  generalize removeSection m L id = result at hcases ⊢
  cases hcases with
  | absent => exact .ended _
  | @node L' front rest e hfirst hchain hfreed hcount hlocked =>
    rw [ok_bind]
    rcases addToCount_cases L' (-1) with ⟨hadd, -⟩ | hadd
    · rw [hadd]
      exact .returned (L := { L' with numClients := L'.numClients + -1 }) hchain hlocked
    · rw [hadd]
      exact .ended _

theorem sendClientList_givesBack (hc : Chain L.heap L.top l) (hfree : L.locked = false)
    (sends : ℕ → Bool) : GivesBack ((sendClientList m L sends).map Prod.fst) := by
  rw [sendClientList, lockMutex_of_free hfree, ok_bind]
  rcases sendIds_cases (m := m) hc sends hc.length_le 0 with ⟨⟨ids, all⟩, hsent⟩ | hsent
  · simp only [hsent, ok_bind]
    split_ifs
    · exact .returned (L := unlockMutex { L with locked := true }) hc rfl
    · exact .returned (L := unlockMutex { L with locked := true }) hc rfl
  · simp only [hsent, error_bind]
    exact .ended _

theorem sendClientInfo_givesBack (hc : Chain L.heap L.top l) (hfree : L.locked = false) (id : ℕ)
    (send : Bool) : GivesBack ((sendClientInfo m L id send).map Prod.fst) := by
  have hcases := searchSection_cases m id hc hfree send
  rw [sendClientInfo]
  generalize searchSection m L id send = result at hcases ⊢
  cases hcases with
  | absent => exact .returned hc hfree
  | found hfirst hinfo =>
    cases send with
    | true =>
      have hremove := removeFromList_givesBack (m := m) hc hfree id
      simp only [ok_bind, ↓reduceIte]
      generalize removeFromList m L id = removed at hremove ⊢
      cases hremove with
      | returned hchain hlocked => exact .returned hchain hlocked
      | ended status => exact .ended status
    | false => exact .returned hc hfree
  | failed => exact .ended _

/-- A call with a free mutex keeps the mutex if it collides, and gives it back otherwise. -/
theorem call_cases (hc : Chain L.heap L.top l) (hfree : L.locked = false) (c : Call) :
    (Collides m L c ∧ call m L c = .ok { L with locked := true }) ∨
      (¬ Collides m L c ∧ GivesBack (call m L c)) := by
  cases c with
  | insertToList id ip port malloc =>
    have hcases := insertToList_cases m id hc hfree ip port malloc
    rw [call, Collides]
    generalize insertToList m L id ip port malloc = result at hcases ⊢
    have hnot (habsent : Absent m l id) : ¬ ∃ found, lookup m L id = .ok (some found) := by
      rw [lookup_of_absent hc habsent]
      rintro ⟨found, hfound⟩
      cases hfound
    cases hcases with
    | refused hpresent =>
      left
      obtain ⟨front, e, rest, hfirst⟩ := (absent_or_first m l id).resolve_left hpresent
      exact ⟨⟨_, lookup_of_first hc hfirst⟩, rfl⟩
    | node habsent _ hchain _ _ hlocked => exact Or.inr ⟨hnot habsent, .returned hchain hlocked⟩
    | failed status habsent => exact Or.inr ⟨hnot habsent, .ended status⟩
  | removeFromList id => exact Or.inr ⟨fun h => h, removeFromList_givesBack hc hfree id⟩
  | sendClientList sends => exact Or.inr ⟨fun h => h, sendClientList_givesBack hc hfree sends⟩
  | sendClientInfo id send => exact Or.inr ⟨fun h => h, sendClientInfo_givesBack hc hfree id send⟩

theorem releases_iff_of_chain (hc : Chain L.heap L.top l) (hfree : L.locked = false)
    (calls : List Call) : Releases m L calls ↔ CollisionFree m L calls := by
  induction calls generalizing L l with
  | nil => exact Iff.rfl
  | cons c calls ih =>
    rw [Releases, CollisionFree]
    rcases call_cases (m := m) hc hfree c with ⟨hcollides, hcall⟩ | ⟨hnot, hback⟩
    · rw [hcall]
      simp [hcollides]
    · generalize call m L c = result at hback ⊢
      cases hback with
      | returned hchain hlocked => simp [hnot, hlocked, ih hchain hlocked]
      | ended status => simp [hnot]

/-- Over every sequence of calls: each leaves the mutex free and none blocks exactly when no call
inserts an id that is in the list. -/
theorem releases_iff (m : Memory) (calls : List Call) :
    Releases m newClientList calls ↔ CollisionFree m newClientList calls := by
  have hchain : Chain newClientList.heap newClientList.top [] := rfl
  exact releases_iff_of_chain hchain rfl calls

/-- The second insertion of an id keeps the mutex. -/
theorem not_releases : ¬ ∀ (m : Memory) (calls : List Call), Releases m newClientList calls := by
  intro h
  have htwice := h exampleMemory
    [.insertToList 1 3 5001 (some 7), .insertToList 1 3 5002 (some 4), .sendClientList fun _ => true]
  exact absurd htwice.2.1 (by decide)

/-- A call that returns. -/
def listStep (m : Memory) (L : ClientList) (c : Call) : Option ClientList := (call m L c).toOption

theorem listStep_eq_some {c : Call} {L' : ClientList} :
    listStep m L c = some L' ↔ call m L c = .ok L' := by
  rw [listStep]
  cases call m L c <;> simp [Except.toOption]

theorem map_fst_eq_ok {ε β γ : Type} {x : Except ε (β × γ)} {b : β} (h : x.map Prod.fst = .ok b) :
    ∃ c, x = .ok (b, c) := by
  cases x with
  | error e => cases h
  | ok pair =>
    cases h
    exact ⟨pair.2, rfl⟩

/-- `sendClientList` only reads the list. -/
theorem sendClientList_same {sends : ℕ → Bool} {L' : ClientList}
    (h : (sendClientList m L sends).map Prod.fst = .ok L') :
    L'.heap = L.heap ∧ L'.top = L.top ∧ L'.numClients = L.numClients := by
  rw [sendClientList] at h
  cases hlocked : L.locked with
  | true =>
    rw [lockMutex_of_locked hlocked] at h
    cases h
  | false =>
    rw [lockMutex_of_free hlocked, ok_bind] at h
    cases hsent : sendIds m L.heap sends L.heap.bound L.top 0 with
    | error halt =>
      simp only [hsent, error_bind] at h
      cases h
    | ok sent =>
      simp only [hsent, ok_bind] at h
      split_ifs at h
      · cases h
        exact ⟨rfl, rfl, rfl⟩
      · cases h
        exact ⟨rfl, rfl, rfl⟩

/-- What `sendClientInfo` does to the list is nothing, or the removal. -/
theorem sendClientInfo_same {id : ℕ} {send : Bool} {L' : ClientList} (hc : Chain L.heap L.top l)
    (h : (sendClientInfo m L id send).map Prod.fst = .ok L') :
    L' = L ∨ removeFromList m L id = .ok L' := by
  cases hlocked : L.locked with
  | true =>
    rw [sendClientInfo, searchSection, lockMutex_of_locked hlocked] at h
    cases h
  | false =>
    have hcases := searchSection_cases m id hc hlocked send
    rw [sendClientInfo] at h
    generalize searchSection m L id send = result at hcases h
    cases hcases with
    | absent =>
      cases h
      exact Or.inl rfl
    | found hfirst hinfo =>
      cases send with
      | true =>
        simp only [ok_bind, ↓reduceIte] at h
        generalize removeFromList m L id = removed at h ⊢
        cases removed with
        | ok L₁ =>
          cases h
          exact Or.inr rfl
        | error halt => cases h
      | false =>
        cases h
        exact Or.inl rfl
    | failed => cases h

/-- Every list that is reached by calls represents a map, and its counter is an `int`. -/
theorem represents_of_reachable (h : Reachable (listStep m) anyStep newClientList L) :
    (∃ s, Represents m L s) ∧ L.numClients < 2^31 := by
  refine h.invariant (P := fun L => (∃ s, Represents m L s) ∧ L.numClients < 2^31) ?_ ?_
  · exact ⟨⟨.empty, represents_newClientList⟩, by decide⟩
  · rintro L c L' ⟨⟨s, hrep⟩, hlt⟩ - hstep
    have hcall := listStep_eq_some.mp hstep
    have hremove (id : ℕ) (hcall : removeFromList m L id = .ok L') :
        (∃ s, Represents m L' s) ∧ L'.numClients < 2^31 := by
      obtain ⟨l, hchain, -⟩ := hrep.chain
      obtain ⟨-, -, -, -, -, -, hcount, -⟩ := removeFromList_ok hchain hcall
      exact ⟨⟨_, (represents_remove hrep hcall).2⟩, by omega⟩
    cases c with
    | insertToList id ip port malloc =>
      obtain ⟨result, hinsert⟩ := map_fst_eq_ok hcall
      rcases represents_insert hrep hinsert with ⟨-, -, rfl⟩ | ⟨-, hlt', hnew, hrep'⟩
      · exact ⟨⟨s, hrep.chain, hrep.count⟩, hlt⟩
      · exact ⟨⟨_, hrep'⟩, hlt'⟩
    | removeFromList id => exact hremove id hcall
    | sendClientList sends =>
      obtain ⟨hheap, htop, hcount⟩ := sendClientList_same hcall
      refine ⟨⟨s, ?_, hcount.trans hrep.count⟩, hcount ▸ hlt⟩
      rw [hheap, htop]
      exact hrep.chain
    | sendClientInfo id send =>
      obtain ⟨l, hchain, -⟩ := hrep.chain
      rcases sendClientInfo_same hchain hcall with rfl | hcall'
      · exact ⟨⟨s, hrep⟩, hlt⟩
      · exact hremove id hcall'

end NetTools.Chat
