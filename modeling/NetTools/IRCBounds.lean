import NetTools.IRCWaitingSet

namespace NetTools.IRC

open CText CArray Schedule Registry

/-- An access to one of the arrays; `unassigned` is an index variable that holds no value. -/
inductive ArrayUse
  | clients (i : Int)
  | waitingClients (i : Int)
  | unassigned
  deriving DecidableEq

/-- The index is a value inside its array. -/
def ArrayUse.Valid : ArrayUse → Prop
  | clients i => 0 ≤ i ∧ i < maxClients
  | waitingClients i => 0 ≤ i ∧ i < maxWaiting
  | unassigned => False

/-- The indices that a search loop over `n` slots looks at, up to its hit. -/
def scanned (hit : Option ℕ) (n : ℕ) : List ℕ := List.range ((hit.map fun i => i+1).getD n)

namespace Registry

def idSlot (r : Registry) (clientId : Bytes) : Option ℕ :=
  search (fun c => c.id == clientId) r.clients r.clientCount

def socketSlot (r : Registry) (clientSocket : ℕ) : Option ℕ :=
  search (fun c => c.socket == clientSocket) r.clients r.clientCount

/-- The search loop of `/wait`, `/connect` and `/stop_wait`. -/
def waitingScan (r : Registry) (id : Bytes) : List ArrayUse :=
  (scanned (r.waitingIndex id) r.waitingCount.toNat).map fun i : ℕ => .waitingClients i

/-- `for (i = target_index; i < waiting_count-1; i++)` with its `strcpy`. -/
def shiftUses (r : Registry) (targetIndex : Int) : List ArrayUse :=
  (List.range (r.waitingCount-1-targetIndex).toNat).flatMap fun j : ℕ =>
    [.waitingClients (targetIndex+j), .waitingClients (targetIndex+j+1)]

/-- Up to the check for a taken id, and where the client is added. -/
def registerUses (r : Registry) (clientId : Bytes) : List ArrayUse :=
  (scanned (r.idSlot clientId) r.clientCount).map (fun i : ℕ => .clients i) ++
    if r.idTaken clientId then [] else [.clients r.clientCount]

/-- The removal on disconnect. -/
def removeUses (r : Registry) (clientSocket : ℕ) : List ArrayUse :=
  (scanned (r.socketSlot clientSocket) r.clientCount).map (fun i : ℕ => .clients i) ++
    ((r.socketSlot clientSocket).map fun i : ℕ =>
      [.clients i, .clients ((r.clientCount : Int)-1)]).getD []

/-- A positive port is stored in both arrays at `waiting_count`. -/
def portUses (r : Registry) (listeningPort : Int) : List ArrayUse :=
  if 0 < listeningPort then [.waitingClients r.waitingCount, .clients r.waitingCount] else []

def connectUses (r : Registry) (targetId : Bytes) : List ArrayUse :=
  r.waitingScan targetId ++
    ((r.waitingIndex targetId).map fun i : ℕ => .clients i :: r.shiftUses i).getD []

/-- Without a hit `target_index` has no value; `stackIndex` is what it happens to hold. -/
def stopUses (r : Registry) (clientId : Bytes) (stackIndex : Int) : List ArrayUse :=
  r.waitingScan clientId ++ (if (r.waitingIndex clientId).isSome then [] else [.unassigned]) ++
    r.shiftUses (stopIndex r clientId stackIndex)

end Registry

/-- The accesses of a command. -/
def commandUses (r : Registry) (clientId buffer stackId : Bytes) (stackIndex : Int) : List ArrayUse :=
  match commandOf buffer with
  | .wait => r.waitingScan clientId
  | .connect => ((connectTarget buffer stackId).map r.connectUses).getD []
  | .stopWait => r.stopUses clientId stackIndex
  | _ => []

/-- The accesses of a step of the server. -/
def uses (s : Server) : Action → List ArrayUse
  | .register x => ((s.sessions x).map fun ses => s.registry.registerUses ses.clientId).getD []
  | .removeClient x => ((s.sessions x).map fun ses => s.registry.removeUses ses.socket).getD []
  | .exec x stackId stackIndex => ((s.sessions x).bind fun ses => ses.pending.map fun buffer =>
      commandUses s.registry ses.clientId buffer stackId stackIndex).getD []
  | .sendList _ => (List.range s.registry.waitingCount.toNat).map fun i : ℕ => .waitingClients i
  | .recvPort _ data => s.registry.portUses (atoi data)
  | _ => []

/-- Both counters are between 0 and the length of their array. -/
structure CountsInBounds (r : Registry) : Prop where
  clients : r.clientCount ≤ maxClients
  waiting : 0 ≤ r.waitingCount ∧ r.waitingCount ≤ maxWaiting

/-- A free id is registered only below 100 clients, a port is stored only below 100 waiting clients,
and only a waiting client stops waiting. -/
def RoomFor (s : Server) : Action → Prop
  | .register x => ∀ ses ∈ s.sessions x, s.registry.idTaken ses.clientId = false →
      s.registry.clientCount < maxClients
  | .recvPort _ data => 0 < atoi data → s.registry.waitingCount < maxWaiting
  | .exec x _ _ => ∀ ses ∈ s.sessions x, ∀ buffer ∈ ses.pending,
      commandOf buffer = .stopWait → ses.clientId ∈ s.registry.waiting
  | _ => True

instance (s : Server) : ∀ a, Decidable (RoomFor s a)
  | .register x => inferInstanceAs (Decidable (∀ ses ∈ s.sessions x,
      s.registry.idTaken ses.clientId = false → s.registry.clientCount < maxClients))
  | .recvPort _ data =>
    inferInstanceAs (Decidable (0 < atoi data → s.registry.waitingCount < maxWaiting))
  | .exec x _ _ => inferInstanceAs (Decidable (∀ ses ∈ s.sessions x, ∀ buffer ∈ ses.pending,
      commandOf buffer = .stopWait → ses.clientId ∈ s.registry.waiting))
  | .accept .. | .recvId .. | .recvCommand .. | .removeClient _ | .sendList _ => isTrue trivial

theorem stopsWaiter_of_roomFor {s : Server} {a : Action} (h : RoomFor s a) : StopsWaiter s a := by
  cases a with
  | exec x g k => exact h
  | _ => trivial

theorem mem_scanned_lt {hit : Option ℕ} {n i : ℕ} (hhit : ∀ j ∈ hit, j < n)
    (h : i ∈ scanned hit n) : i < n := by
  rw [scanned, List.mem_range] at h
  cases hit with
  | none => exact h
  | some j =>
    have hj := hhit j rfl
    rw [Option.map_some, Option.getD_some] at h
    omega

/-- How a step changes the two counters. -/
theorem Step.counts {s t : Server} {a : Action} (h : Step s a t) :
    (t.registry.clientCount ≤ s.registry.clientCount ∨
      s.registry.clientCount < maxClients ∧ t.registry.clientCount = s.registry.clientCount+1) ∧
    (t.registry.waitingCount ≤ s.registry.waitingCount ∨
      s.registry.waitingCount < maxWaiting ∧
        t.registry.waitingCount = s.registry.waitingCount+1) := by
  cases h with
  | register hx hp hm ht hr =>
    obtain ⟨hlt, rfl⟩ := addClient_eq hr
    exact ⟨Or.inr ⟨hlt, rfl⟩, Or.inl le_rfl⟩
  | @removeClient x ses hx hp hm =>
    refine ⟨Or.inl ?_, Or.inl (removeClient_waitingCount _).le⟩
    change (s.registry.removeClient ses.socket).clientCount ≤ _
    unfold Registry.removeClient
    split
    · exact Nat.sub_le _ _
    · exact le_rfl
  | portOk hx hp hm hl hport hr =>
    obtain ⟨-, hlt, rfl⟩ := addWaiting_eq hr
    exact ⟨Or.inl le_rfl, Or.inr ⟨hlt, rfl⟩⟩
  | connect hx hp hc hm ht hi hr =>
    obtain ⟨hcount, -, hclients, -⟩ := removeWaiting_slots hr
    exact ⟨Or.inl hclients.le, Or.inl (hcount.trans_le (Int.sub_le_self _ (by decide)))⟩
  | stopWait hx hp hc hm hr =>
    obtain ⟨hcount, -, hclients, -⟩ := removeWaiting_slots hr
    exact ⟨Or.inl hclients.le, Or.inl (hcount.trans_le (Int.sub_le_self _ (by decide)))⟩
  | _ => exact ⟨Or.inl le_rfl, Or.inl le_rfl⟩

/-- In a run with room the counters stay in bounds. -/
theorem countsInBounds_of_reachable {s : Server} (h : Reachable Server.step RoomFor .start s) :
    CountsInBounds s.registry := by
  have hcounts : s.registry.clientCount ≤ maxClients ∧ s.registry.waitingCount ≤ maxWaiting := by
    apply h.invariant
    · decide
    · rintro s a t ⟨hclients, hwaiting⟩ - hstep
      obtain ⟨hc, hw⟩ := (step_cases hstep).counts
      omega
  -- the count is the size of the set that the arrays hold, so it is not negative
  obtain ⟨l, hl⟩ := exists_represents (fun _ _ => stopsWaiter_of_roomFor) h
  refine ⟨hcounts.1, ?_, hcounts.2⟩
  rw [hl.2]
  exact Int.natCast_nonneg _

section Uses

variable {r : Registry} (hr : CountsInBounds r)
include hr

theorem valid_clients {i : ℕ} (hi : i < r.clientCount) : (ArrayUse.clients i).Valid := by
  have hle := hr.clients
  exact ⟨Int.natCast_nonneg i, by omega⟩

theorem valid_waitingClients {i : Int} (h0 : 0 ≤ i) (hi : i < r.waitingCount) :
    (ArrayUse.waitingClients i).Valid := by
  have hle := hr.waiting.2
  exact ⟨h0, by omega⟩

theorem waitingScan_valid (id : Bytes) : ∀ u ∈ r.waitingScan id, u.Valid := by
  intro u hu
  obtain ⟨i, hi, rfl⟩ := List.mem_map.mp hu
  have hlt := mem_scanned_lt (fun j hj => (search_eq_some hj).1) hi
  exact valid_waitingClients hr (Int.natCast_nonneg i) (by omega)

/-- A shift from a slot of the list stays in the list. -/
theorem shiftUses_valid {t : Int} (ht : 0 ≤ t) : ∀ u ∈ r.shiftUses t, u.Valid := by
  intro u hu
  obtain ⟨j, hj, hu⟩ := List.mem_flatMap.mp hu
  rw [List.mem_range] at hj
  simp only [List.mem_cons, List.not_mem_nil, or_false] at hu
  rcases hu with rfl | rfl
  · exact valid_waitingClients hr (by omega) (by omega)
  · exact valid_waitingClients hr (by omega) (by omega)

theorem registerUses_valid_iff (clientId : Bytes) :
    (∀ u ∈ r.registerUses clientId, u.Valid) ↔
      (r.idTaken clientId = false → r.clientCount < maxClients) := by
  have hscan : ∀ u ∈ (scanned (r.idSlot clientId) r.clientCount).map fun i : ℕ =>
      ArrayUse.clients i, u.Valid := by
    intro u hu
    obtain ⟨i, hi, rfl⟩ := List.mem_map.mp hu
    exact valid_clients hr (mem_scanned_lt (fun j hj => (search_eq_some hj).1) hi)
  rw [Registry.registerUses, List.forall_mem_append, and_iff_right hscan]
  cases r.idTaken clientId with
  | true => simp
  | false => simp [ArrayUse.Valid]

theorem removeUses_valid (clientSocket : ℕ) : ∀ u ∈ r.removeUses clientSocket, u.Valid := by
  rw [Registry.removeUses, List.forall_mem_append]
  constructor
  · intro u hu
    obtain ⟨i, hi, rfl⟩ := List.mem_map.mp hu
    exact valid_clients hr (mem_scanned_lt (fun j hj => (search_eq_some hj).1) hi)
  · cases hslot : r.socketSlot clientSocket with
    | none => simp
    | some i =>
      have hi := (search_eq_some hslot).1
      have hlast : ((r.clientCount : Int)-1) = (r.clientCount-1 : ℕ) := by omega
      simp only [Option.map_some, Option.getD_some, List.forall_mem_cons, hlast]
      exact ⟨valid_clients hr hi, valid_clients hr (by omega), List.forall_mem_nil _⟩

theorem portUses_valid_iff (listeningPort : Int) :
    (∀ u ∈ r.portUses listeningPort, u.Valid) ↔
      (0 < listeningPort → r.waitingCount < maxWaiting) := by
  -- `waiting_count` is an index into both arrays, and they have one length
  have hsame : maxClients = maxWaiting := rfl
  rw [Registry.portUses]
  split_ifs with hport
  · simp [ArrayUse.Valid, hr.waiting.1, hport, hsame]
  · simp [hport]

theorem connectUses_valid (targetId : Bytes) : ∀ u ∈ r.connectUses targetId, u.Valid := by
  rw [Registry.connectUses, List.forall_mem_append]
  refine ⟨waitingScan_valid hr targetId, ?_⟩
  cases hi : r.waitingIndex targetId with
  | none => simp
  | some i =>
    have hlt := (waitingIndex_some hi).1
    have hle := hr.waiting.2
    have hsame : maxClients = maxWaiting := rfl
    simp only [Option.map_some, Option.getD_some, List.forall_mem_cons]
    exact ⟨⟨Int.natCast_nonneg i, by omega⟩, shiftUses_valid hr (Int.natCast_nonneg i)⟩

theorem stopUses_valid_iff (clientId : Bytes) (k : Int) :
    (∀ u ∈ r.stopUses clientId k, u.Valid) ↔ clientId ∈ r.waiting := by
  have hscan := waitingScan_valid hr clientId
  rw [Registry.stopUses, List.append_assoc, List.forall_mem_append, and_iff_right hscan]
  by_cases hmem : clientId ∈ r.waiting
  · obtain ⟨i, hi, hidx⟩ := stopIndex_of_mem hmem k
    rw [hi, hidx]
    exact iff_of_true (shiftUses_valid hr (Int.natCast_nonneg i)) hmem
  -- the search fails, and `target_index` is used without a value
  · rw [waitingIndex_none_iff.mpr hmem]
    apply iff_of_false _ hmem
    intro h
    exact h .unassigned (by simp)

end Uses

/-- A command uses valid indices unless it is a `/stop_wait` by a client that does not wait. -/
theorem commandUses_valid_iff {r : Registry} (hr : CountsInBounds r)
    (clientId buffer stackId : Bytes) (k : Int) :
    (∀ u ∈ commandUses r clientId buffer stackId k, u.Valid) ↔
      (commandOf buffer = .stopWait → clientId ∈ r.waiting) := by
  rw [commandUses]
  cases hc : commandOf buffer with
  | wait => exact iff_of_true (waitingScan_valid hr clientId) (by simp)
  | connect =>
    refine iff_of_true ?_ (by simp)
    cases connectTarget buffer stackId with
    | none => simp
    | some targetId => exact connectUses_valid hr targetId
  | stopWait => simpa using stopUses_valid_iff hr clientId k
  | list | quit | badPrompt => simp

/-- The accesses of a step are valid exactly when there is room for it. -/
theorem uses_valid_iff {s : Server} (hs : CountsInBounds s.registry) {a : Action}
    (ha : Ready s a) : (∀ u ∈ uses s a, u.Valid) ↔ RoomFor s a := by
  cases a with
  | register x =>
    obtain ⟨ses, hx, -⟩ := ha
    simp only [uses, RoomFor, hx, Option.map_some, Option.getD_some, Option.mem_some_iff,
      forall_eq']
    exact registerUses_valid_iff hs ses.clientId
  | removeClient x =>
    obtain ⟨ses, hx, -⟩ := ha
    simp only [uses, hx, Option.map_some, Option.getD_some]
    exact iff_of_true (removeUses_valid hs ses.socket) trivial
  | exec x g k =>
    obtain ⟨ses, buffer, hx, hp, -⟩ := ha
    have hpending : ses.pending = some buffer := Session.mem_pending.mpr hp
    simp only [uses, RoomFor, hx, hpending, Option.map_some, Option.bind_some, Option.getD_some,
      Option.mem_some_iff, forall_eq']
    exact commandUses_valid_iff hs ses.clientId buffer g k
  | sendList x =>
    refine iff_of_true ?_ trivial
    intro u hu
    obtain ⟨i, hi, rfl⟩ := List.mem_map.mp hu
    rw [List.mem_range] at hi
    exact valid_waitingClients hs (Int.natCast_nonneg i) (by omega)
  | recvPort x data => exact portUses_valid_iff hs (atoi data)
  | accept | recvId | recvCommand => exact iff_of_true (List.forall_mem_nil _) trivial

/-- In a run with room for every step the counters stay within the arrays, and the accesses of the
next step have valid indices exactly when there is room for it, too. -/
theorem indices_in_bounds {s : Server} (h : Reachable Server.step RoomFor .start s) :
    CountsInBounds s.registry ∧ ∀ a, Ready s a → ((∀ u ∈ uses s a, u.Valid) ↔ RoomFor s a) := by
  have hs := countsInBounds_of_reachable h
  exact ⟨hs, fun a ha => uses_valid_iff hs ha⟩

set_option maxRecDepth 4096 in
/-- A waiter is connected to and leaves. -/
theorem indices_in_bounds_oneWaiter :
    ∃ s, Reachable Server.step RoomFor .start s ∧ s.registry.clientCount = 1 ∧
      CountsInBounds s.registry := by
  have hrun : ∃ s, Reachable Server.step RoomFor .start s ∧ s.registry.clientCount = 1 := by
    refine exists_reachable_of_replayIf (joinAs 0 "a" ++ joinAs 1 "b" ++ waitOn 0 "5001" ++
      command 1 "/connect a" ++ [.recvCommand 0 [], .removeClient 0]) _ ?_
    decide
  obtain ⟨s, hs, hcount⟩ := hrun
  exact ⟨s, hs, hcount, (indices_in_bounds hs).1⟩

set_option maxRecDepth 4096 in
/-- A client that never waited stops waiting: `target_index` has no value, and the count of waiting
clients becomes -1. -/
theorem stop_wait_without_wait : ¬ ∀ s, Reachable Server.step anyStep .start s →
    CountsInBounds s.registry ∧ ∀ a, Ready s a → ∀ u ∈ uses s a, u.Valid := by
  intro h
  have hrun : ∃ s, Reachable Server.step anyStep .start s ∧ s.registry.waitingCount = -1 := by
    refine exists_reachable_of_replayIf (joinAs 0 "a" ++ command 0 "/stop_wait") _ ?_
    decide
  obtain ⟨s, hs, hcount⟩ := hrun
  have hwaiting := (h s hs).1.waiting.1
  rw [hcount] at hwaiting
  exact absurd hwaiting (by decide)

end NetTools.IRC
