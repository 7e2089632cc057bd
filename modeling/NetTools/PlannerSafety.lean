import NetTools.ChunkPlan

namespace NetTools.Download

/-- `servers[10][256]` and `ports[10]` in `main` of both download clients. -/
def maxServers : ℕ := 10

/-- What one `fscanf(file, "%s %d", ...)` that is not `EOF` stores; the port is missing when `%d`
does not match. -/
structure Entry where
  server : Bytes
  port : Option Int
  deriving DecidableEq

/-- The operations of these lines that have no defined result. -/
inductive Hazard
  | serverSlots
  | divisionByZero
  | arrayLength
  | remainderByZero
  deriving DecidableEq

/-- One turn of the loop over the server-info file; the arrays have no slot for an eleventh
server. -/
def ServerInfo.put (info : ServerInfo) (entry : Entry) : Except Hazard ServerInfo :=
  if info.serverCount < maxServers then
    .ok
      { servers := Function.update info.servers info.serverCount entry.server
        ports := Function.update info.ports info.serverCount
          (entry.port.getD (info.ports info.serverCount))
        serverCount := info.serverCount+1 }
  else .error .serverSlots

/-- The loop over the server-info file. -/
def readServers (info : ServerInfo) : List Entry → Except Hazard ServerInfo
  | [] => .ok info
  | entry :: rest => (info.put entry).bind fun info => readServers info rest

/-- `file_size / num_connections`. -/
def divideFile (fileSize : ℕ) (numConnections : Int) : Except Hazard ℕ :=
  if toSizeT numConnections = 0 then .error .divisionByZero
  else .ok (chunkSize fileSize numConnections)

/-- `threads[num_connections]` and `tasks[num_connections]`. -/
def declareArrays (numConnections : Int) : Except Hazard ℕ :=
  if numConnections ≤ 0 then .error .arrayLength else .ok numConnections.toNat

/-- The task loop; its first turn takes `i % server_count`. -/
def taskLoop (info : ServerInfo) (filename : Bytes) (fileSize : ℕ) (numConnections : Int) :
    Except Hazard (Option (List DownloadTask)) :=
  if info.serverCount = 0 then .error .remainderByZero
  else .ok (planTasks info filename fileSize numConnections)

/-- The planning of `main`: the number of connections and the tasks, or `none` where it exits with
an error. `calloc` says whether the allocation succeeds; `stack` is what the arrays hold at first.
-/
def planMain (stack : ServerInfo) (entries : List Entry) (calloc : Bool) (filename : Bytes)
    (fileSize : ℕ) (numConnections : Int) :
    Except Hazard (Option (Int × List DownloadTask)) := do
  let info ← readServers { stack with serverCount := 0 } entries
  let n := clampConnections fileSize numConnections
  let _ ← divideFile fileSize n
  let _ ← declareArrays n
  if calloc = false then return none
  let tasks ← taskLoop info filename fileSize numConnections
  return tasks.map fun tasks => (n, tasks)

/-- No operation is undefined, and the task loop is reached with at least one connection. -/
def PlansSafely (result : Except Hazard (Option (Int × List DownloadTask))) : Prop :=
  ∃ planned, result = .ok planned ∧ ∀ p ∈ planned, 1 ≤ p.1

/-- The number of connections is positive after the clamp. A negative one becomes a `size_t` close
to 2^64, and for a smaller file the `int` takes the low half of the file size. -/
def ClampsPositive (fileSize : ℕ) (numConnections : Int) : Prop :=
  0 < numConnections ∨ numConnections < 0 ∧ (fileSize : Int) < 2^64+numConnections ∧
    0 < fileSize%2^32 ∧ fileSize%2^32 < 2^31

theorem put_eq {info : ServerInfo} (h : info.serverCount < maxServers) (entry : Entry) :
    ∃ info', info.put entry = .ok info' ∧ info'.serverCount = info.serverCount+1 :=
  ⟨_, if_pos h, rfl⟩

/-- Up to ten servers are read. -/
theorem readServers_ok {info : ServerInfo} {entries : List Entry}
    (h : info.serverCount+entries.length ≤ maxServers) :
    ∃ info', readServers info entries = .ok info' ∧
      info'.serverCount = info.serverCount+entries.length := by
  induction entries generalizing info with
  | nil => exact ⟨info, rfl, rfl⟩
  | cons entry rest ih =>
    rw [List.length_cons] at h
    obtain ⟨next, hput, hcount⟩ := put_eq (by omega : info.serverCount < maxServers) entry
    obtain ⟨info', hread, hcount'⟩ := ih (by omega : next.serverCount+rest.length ≤ maxServers)
    refine ⟨info', ?_, by rw [hcount', hcount, List.length_cons]; omega⟩
    rw [readServers, hput]
    exact hread

/-- The eleventh server is stored behind the arrays. -/
theorem readServers_error {info : ServerInfo} {entries : List Entry}
    (hinfo : info.serverCount ≤ maxServers)
    (h : maxServers < info.serverCount+entries.length) :
    readServers info entries = .error .serverSlots := by
  induction entries generalizing info with
  | nil => exact absurd h (Nat.not_lt.mpr hinfo)
  | cons entry rest ih =>
    rw [List.length_cons] at h
    rw [readServers]
    by_cases hroom : info.serverCount < maxServers
    · obtain ⟨next, hput, hcount⟩ := put_eq hroom entry
      rw [hput]
      exact ih (by omega) (by omega)
    · rw [ServerInfo.put, if_neg hroom]
      rfl

theorem toSizeT_eq_zero_iff {n : Int} (hlow : -2^31 ≤ n) (hhigh : n < 2^31) :
    toSizeT n = 0 ↔ n = 0 := by
  rw [toSizeT]
  omega

theorem bmod_natCast (n m : ℕ) :
    Int.bmod n m = if n%m < (m+1)/2 then ((n%m : ℕ) : Int) else ((n%m : ℕ) : Int)-m := by
  rw [Int.bmod_def, ← Int.natCast_mod]
  have hlt : ((n%m : ℕ) : Int) < ((m : Int)+1)/2 ↔ n%m < (m+1)/2 := by omega
  simp only [hlt]

/-- The `int` that keeps a `size_t` has its low half. -/
theorem toInt_eq (n : ℕ) :
    toInt n = if n%2^32 < 2^31 then ((n%2^32 : ℕ) : Int) else ((n%2^32 : ℕ) : Int)-(2^32 : ℕ) := by
  have hhalf : (2^32+1)/2 = 2^31 := by decide
  calc toInt n
      = if n%2^32 < (2^32+1)/2 then ((n%2^32 : ℕ) : Int)
          else ((n%2^32 : ℕ) : Int)-(2^32 : ℕ) := bmod_natCast n (2^32)
    _ = _ := by simp only [hhalf]

theorem toInt_pos_iff (n : ℕ) : 0 < toInt n ↔ 0 < n%2^32 ∧ n%2^32 < 2^31 := by
  have hlt : n%2^32 < 2^32 := Nat.mod_lt n (by decide)
  rw [toInt_eq]
  generalize n%2^32 = v at *
  split_ifs <;> omega

theorem toInt_range (n : ℕ) : -2^31 ≤ toInt n ∧ toInt n < 2^31 := by
  have hlt : n%2^32 < 2^32 := Nat.mod_lt n (by decide)
  rw [toInt_eq]
  generalize n%2^32 = v at *
  split_ifs <;> omega

section Clamp

variable {fileSize : ℕ} {numConnections : Int}

theorem clampConnections_range (hlow : -2^31 ≤ numConnections) (hhigh : numConnections < 2^31) :
    -2^31 ≤ clampConnections fileSize numConnections ∧
      clampConnections fileSize numConnections < 2^31 := by
  rw [clampConnections]
  split_ifs
  · exact toInt_range fileSize
  · exact ⟨hlow, hhigh⟩

theorem clampConnections_pos_iff (hf : 1 ≤ fileSize) (hlow : -2^31 ≤ numConnections)
    (hhigh : numConnections < 2^31) :
    0 < clampConnections fileSize numConnections ↔ ClampsPositive fileSize numConnections := by
  rw [ClampsPositive]
  rcases lt_trichotomy numConnections 0 with hneg | rfl | hpos
  -- as a `size_t` a negative number is close to 2^64, and smaller files replace it
  · have hsize : toSizeT numConnections > fileSize ↔ (fileSize : Int) < 2^64+numConnections := by
      rw [toSizeT]
      omega
    have hnot : ¬ 0 < numConnections := hneg.not_gt
    simp only [clampConnections, hsize]
    split_ifs with hless
    · rw [toInt_pos_iff]
      simp only [hnot, hneg, hless, false_or, true_and]
    · simp only [hnot, hless, false_or, false_and, and_false]
  -- zero is below every file size and stays
  · have hzero : clampConnections fileSize 0 = 0 := if_neg (Nat.not_lt_zero fileSize)
    simp [hzero]
  · obtain ⟨n, hclamp, hn, -, -⟩ := clampConnections_eq hf hpos hhigh
    rw [hclamp]
    exact iff_of_true (Int.natCast_pos.mpr hn) (Or.inl hpos)

end Clamp

/-- The planning behind the server-info file. -/
theorem planMain_eq {stack info : ServerInfo} {entries : List Entry}
    (h : readServers { stack with serverCount := 0 } entries = .ok info) (calloc : Bool)
    (filename : Bytes) (fileSize : ℕ) (numConnections : Int) :
    planMain stack entries calloc filename fileSize numConnections =
      if toSizeT (clampConnections fileSize numConnections) = 0 then .error .divisionByZero
      else if clampConnections fileSize numConnections ≤ 0 then .error .arrayLength
      else if calloc = false then .ok none
      else if info.serverCount = 0 then .error .remainderByZero
      else .ok ((planTasks info filename fileSize numConnections).map fun tasks =>
        (clampConnections fileSize numConnections, tasks)) := by
  have hsteps : planMain stack entries calloc filename fileSize numConnections =
      (divideFile fileSize (clampConnections fileSize numConnections)).bind fun _ =>
        (declareArrays (clampConnections fileSize numConnections)).bind fun _ =>
          if calloc = false then .ok none
          else (taskLoop info filename fileSize numConnections).map fun tasks =>
            tasks.map fun tasks => (clampConnections fileSize numConnections, tasks) := by
    rw [planMain, h]
    cases calloc <;> rfl
  rw [hsteps]
  generalize clampConnections fileSize numConnections = n
  by_cases hzero : toSizeT n = 0
  · rw [if_pos hzero, divideFile, if_pos hzero]
    rfl
  rw [if_neg hzero, divideFile, if_neg hzero]
  by_cases hneg : n ≤ 0
  · rw [if_pos hneg, declareArrays, if_pos hneg]
    rfl
  rw [if_neg hneg, declareArrays, if_neg hneg]
  cases calloc with
  | false => rfl
  | true =>
    rw [if_neg Bool.true_eq_false.mp]
    by_cases hempty : info.serverCount = 0
    · rw [if_pos hempty, taskLoop, if_pos hempty]
      rfl
    · rw [if_neg hempty, taskLoop, if_neg hempty]
      rfl

/-- The planning is safe for at most ten servers and a number of connections that stays positive,
and at least one server when the task loop is reached. -/
theorem plansSafely_iff {fileSize : ℕ} {numConnections : Int} (hf : 1 ≤ fileSize)
    (hlow : -2^31 ≤ numConnections) (hhigh : numConnections < 2^31) (stack : ServerInfo)
    (entries : List Entry) (calloc : Bool) (filename : Bytes) :
    PlansSafely (planMain stack entries calloc filename fileSize numConnections) ↔
      entries.length ≤ maxServers ∧ ClampsPositive fileSize numConnections ∧
        (calloc = true → entries ≠ []) := by
  obtain ⟨hlow', hhigh'⟩ : -2^31 ≤ clampConnections fileSize numConnections ∧
      clampConnections fileSize numConnections < 2^31 := clampConnections_range hlow hhigh
  rw [← clampConnections_pos_iff hf hlow hhigh]
  by_cases hroom : entries.length ≤ maxServers
  · have hfits : ({ stack with serverCount := 0 } : ServerInfo).serverCount+entries.length ≤
        maxServers := (Nat.zero_add _).trans_le hroom
    obtain ⟨info, hread, hcount⟩ := readServers_ok hfits
    have hnil : info.serverCount = 0 ↔ entries = [] := by
      rw [hcount, Nat.zero_add, List.length_eq_zero_iff]
    rw [planMain_eq hread, and_iff_right hroom]
    -- the outcomes in the order of the code: division, arrays, `calloc`, the remainder
    simp only [toSizeT_eq_zero_iff hlow' hhigh', hnil]
    split_ifs with hzero hneg hcalloc hempty
    · simp [PlansSafely, hzero]
    · simp [PlansSafely, hneg]
    · simp [PlansSafely, hcalloc, Int.not_le.mp hneg]
    · simp [PlansSafely, hcalloc, hempty]
    · simp only [PlansSafely, Except.ok.injEq, exists_eq_left', Option.mem_def]
      refine iff_of_true ?_ ⟨Int.not_le.mp hneg, fun _ => hempty⟩
      intro p hp
      obtain ⟨tasks, -, rfl⟩ := Option.map_eq_some_iff.mp hp
      exact Int.not_le.mp hneg
  -- the eleventh entry is stored behind the slots, whatever comes then
  · have hover : maxServers <
        ({ stack with serverCount := 0 } : ServerInfo).serverCount+entries.length :=
      (Nat.lt_of_not_le hroom).trans_eq (Nat.zero_add _).symm
    have herror := readServers_error (Nat.zero_le _) hover
    rw [planMain, herror]
    apply iff_of_false
    · rintro ⟨planned, ⟨⟩, -⟩
    · exact fun h => hroom h.1

/-- Two connections for five bytes and one server. -/
theorem plansSafely_two : 1 ≤ 5 ∧ PlansSafely (planMain ⟨fun _ => [], fun _ => 0, 0⟩
    [⟨[49], some 1024⟩] true [102] 5 2) :=
  ⟨by decide, (plansSafely_iff (by decide) (by decide) (by decide) _ _ _ _).mpr
    ⟨by decide, Or.inl (by decide), fun _ => List.cons_ne_nil _ _⟩⟩

/-- No connections: the file size is divided by zero. -/
theorem not_plansSafely : ¬ ∀ (fileSize : ℕ) (numConnections : Int) (stack : ServerInfo)
    (entries : List Entry) (calloc : Bool) (filename : Bytes), 1 ≤ fileSize →
      -2^31 ≤ numConnections → numConnections < 2^31 →
        PlansSafely (planMain stack entries calloc filename fileSize numConnections) := by
  intro h
  obtain ⟨planned, hplanned, -⟩ := h 5 0 ⟨fun _ => [], fun _ => 0, 0⟩ [⟨[49], some 1024⟩] true [102]
    (by decide) (by decide) (by decide)
  cases hplanned

end NetTools.Download
