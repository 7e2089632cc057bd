import NetTools.IRCSteps

namespace NetTools.IRC.Registry

open CText CArray

variable {r r' : Registry} {id : Bytes} {i : ℕ}

theorem mem_waiting : id ∈ r.waiting ↔ ∃ i : ℕ, (i : Int) < r.waitingCount ∧ r.waitingClients i = id := by
  rw [waiting, mem_slots]
  constructor
  · rintro ⟨i, hi, rfl⟩
    exact ⟨i, by omega, rfl⟩
  · rintro ⟨i, hi, rfl⟩
    exact ⟨i, by omega, rfl⟩

theorem waitingIndex_some (h : r.waitingIndex id = some i) :
    (i : Int) < r.waitingCount ∧ r.waitingClients i = id := by
  obtain ⟨hi, hp, -⟩ := search_eq_some h
  exact ⟨by omega, by simpa using hp⟩

theorem waitingIndex_none_iff : r.waitingIndex id = none ↔ id ∉ r.waiting := by
  rw [waiting, ← search_isSome_iff, waitingIndex, Option.isSome_iff_ne_none, not_not]

theorem waitingIndex_of_nodup (hd : r.waiting.Nodup) (hi : (i : Int) < r.waitingCount) :
    r.waitingIndex (r.waitingClients i) = some i :=
  search_eq_of_nodup hd (by omega)

theorem addClient_eq {socket : ℕ} (h : r.addClient id socket = some r') :
    r.clientCount < maxClients ∧
      r' = { r with
        clients := Function.update r.clients r.clientCount ⟨id, socket, -1, 'n'⟩
        clientCount := r.clientCount+1 } := by
  simp only [addClient, Option.ite_none_right_eq_some, Option.some.injEq] at h
  exact ⟨h.1, h.2.symm⟩

theorem removeClient_waitingClients (socket : ℕ) :
    (r.removeClient socket).waitingClients = r.waitingClients := by
  unfold removeClient
  split <;> rfl

theorem removeClient_waitingCount (socket : ℕ) :
    (r.removeClient socket).waitingCount = r.waitingCount := by
  unfold removeClient
  split <;> rfl

theorem removeClient_waiting (socket : ℕ) : (r.removeClient socket).waiting = r.waiting := by
  rw [waiting, removeClient_waitingClients, removeClient_waitingCount, waiting]

theorem addWaiting_eq {port : Int} (h : r.addWaiting id port = some r') :
    0 ≤ r.waitingCount ∧ r.waitingCount < maxWaiting ∧
      r' = { r with
        waitingClients := Function.update r.waitingClients r.waitingCount.toNat id
        clients := Function.update r.clients r.waitingCount.toNat
          { r.clients r.waitingCount.toNat with port := port, inChat := 'y' }
        waitingCount := r.waitingCount+1 } := by
  simp only [addWaiting, Option.ite_none_right_eq_some, Option.some.injEq] at h
  exact ⟨h.1.1, h.1.2, h.2.symm⟩

theorem addWaiting_waiting {port : Int} (h : r.addWaiting id port = some r') :
    r'.waiting = r.waiting ++ [id] := by
  obtain ⟨h0, -, rfl⟩ := addWaiting_eq h
  have hn : (r.waitingCount+1).toNat = r.waitingCount.toNat+1 := by omega
  simp only [waiting, hn, slots_push]

/-- The removal loop seen slot by slot, for any start index. -/
theorem removeWaiting_slots {t : Int} (h : r.removeWaiting t = some r') :
    r'.waitingCount = r.waitingCount-1 ∧ r'.clients = r.clients ∧ r'.clientCount = r.clientCount ∧
      ∀ j : ℕ, (j : Int) < r.waitingCount-1 →
        r'.waitingClients j = if t ≤ j then r.waitingClients (j+1) else r.waitingClients j := by
  unfold removeWaiting at h
  split_ifs at h with hlt h0
  · cases h
    refine ⟨rfl, rfl, rfl, ?_⟩
    intro j hj
    change shiftDown _ _ _ j = _
    rw [shiftDown_apply]
    by_cases htj : t ≤ j
    · rw [if_pos (by omega), if_pos htj]
    · rw [if_neg (by omega), if_neg htj]
  · cases h
    refine ⟨rfl, rfl, rfl, ?_⟩
    intro j hj
    rw [if_neg (by omega)]

/-- A removal that starts at a used slot erases exactly that slot. -/
theorem removeWaiting_waiting (h : r.removeWaiting i = some r') (hi : (i : Int) < r.waitingCount) :
    r'.waiting = r.waiting.eraseIdx i := by
  obtain ⟨hc, -, -, hw⟩ := removeWaiting_slots h
  have hlen : r'.waitingCount.toNat = r.waitingCount.toNat-1 := by omega
  rw [waiting, hlen, waiting, ← slots_shiftDown r.waitingClients (by omega)]
  apply slots_congr
  intro j hj
  rw [hw j (by omega), shiftDown_apply]
  by_cases hij : i ≤ j
  · rw [if_pos (by omega), if_pos (by omega)]
  · rw [if_neg (by omega), if_neg (by omega)]

/-- A removal at the index of an id takes that id off the list. -/
theorem mem_removeWaiting (hd : r.waiting.Nodup) (hi : r.waitingIndex id = some i)
    (hr : r.removeWaiting i = some r') {other : Bytes} :
    other ∈ r'.waiting ↔ other ≠ id ∧ other ∈ r.waiting := by
  obtain ⟨hlt, hid⟩ := waitingIndex_some hi
  have hlen : i < r.waiting.length := by
    rw [waiting, slots_length]
    omega
  have hget : r.waiting[i] = id := by simp only [waiting, slots_getElem, hid]
  rw [removeWaiting_waiting hr hlt, ← hd.erase_getElem i hlen, hget, hd.mem_erase_iff]

/-- Whatever the start index, a removal only drops ids and keeps their order. -/
theorem removeWaiting_sublist {t : Int} (h : r.removeWaiting t = some r') :
    r'.waiting.Sublist r.waiting := by
  by_cases ht : 0 ≤ t ∧ t < r.waitingCount
  · obtain ⟨k, rfl⟩ : ∃ k : ℕ, t = k := ⟨t.toNat, by omega⟩
    rw [removeWaiting_waiting h ht.2]
    exact List.eraseIdx_sublist _ _
  · -- no slot is shifted: only the counter goes down
    have heq : r' = { r with waitingCount := r.waitingCount-1 } := by
      unfold removeWaiting at h
      split_ifs at h with hlt h0
      · omega
      · exact (Option.some.inj h).symm
    rw [heq, waiting, waiting]
    rcases Int.lt_or_le 0 r.waitingCount with hpos | hneg
    · have hn : r.waitingCount.toNat = (r.waitingCount-1).toNat+1 := by omega
      rw [hn, slots_succ]
      exact List.sublist_append_left _ _
    · have hn : (r.waitingCount-1).toNat = 0 := by omega
      rw [hn, slots_zero]
      exact List.nil_sublist _

/-- A removal that starts at a used slot does not leave the arrays. -/
theorem removeWaiting_defined (r : Registry) (i : ℕ) : ∃ r', r.removeWaiting i = some r' := by
  unfold removeWaiting
  split_ifs with h h0
  · exact ⟨_, rfl⟩
  · exact absurd (Int.natCast_nonneg i) h0
  · exact ⟨_, rfl⟩

end NetTools.IRC.Registry
