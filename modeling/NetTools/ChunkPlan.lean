import NetTools.CText
import NetTools.SliceWrites
import Mathlib.Tactic.Ring

/-! How both download clients split a file into one task for each connection, and what `main` makes
of the ends of their threads. These lines of `ftp/client.c` and `tftp/client.c` are the same, but for
the `pthread_detach` of the second. -/
namespace NetTools.Download

open CArray SliceWrites

/-- Conversion of an `int` to `size_t`. -/
def toSizeT (n : Int) : ℕ := (n%2^64).toNat

/-- Conversion of a `size_t` to `int`. -/
def toInt (n : ℕ) : Int := Int.bmod n (2^32)

/-- Conversion of a `size_t` to `ssize_t`. -/
def toSSize (n : ℕ) : Int := Int.bmod n (2^64)

/-- A chunk; `output` is the index of `task->output` in `file_data`. -/
structure DownloadTask where
  serverIp : Bytes
  serverPort : Int
  filename : Bytes
  offset : ℕ
  size : ℕ
  output : ℕ

/-- `servers[10][256]` and `ports[10]` with the number of entries that were read. -/
structure ServerInfo where
  servers : ℕ → Bytes
  ports : ℕ → Int
  serverCount : ℕ

/-- `if (num_connections > file_size) num_connections = file_size;`. -/
def clampConnections (fileSize : ℕ) (numConnections : Int) : Int :=
  if toSizeT numConnections > fileSize then toInt fileSize else numConnections

def chunkSize (fileSize : ℕ) (numConnections : Int) : ℕ :=
  let c := fileSize/toSizeT numConnections
  if c < 1 then 1 else c

/-- The task of thread `i`, for the clamped number of connections. -/
def chunkTask (info : ServerInfo) (filename : Bytes) (fileSize : ℕ) (numConnections : Int)
    (i : ℕ) : DownloadTask :=
  let c := chunkSize fileSize numConnections
  let offset := toSizeT i*c%2^64
  { serverIp := info.servers (i%info.serverCount)
    serverPort := info.ports (i%info.serverCount)
    filename := filename
    offset := offset
    size := if (i : Int) = numConnections-1 then toSizeT (fileSize-((c*toSizeT i%2^64 : ℕ) : Int)) else c
    output := offset }

/-- The condition that avoids the `Invalid chunk calculation` exit. -/
def validChunk (fileSize : ℕ) (task : DownloadTask) : Bool :=
  !(task.size ≤ 0 || (task.offset+task.size)%2^64 > fileSize)

/-- The planning loop; `none` is its `Invalid chunk calculation` exit. -/
def planTasks (info : ServerInfo) (filename : Bytes) (fileSize : ℕ) (numConnections : Int) :
    Option (List DownloadTask) :=
  let n := clampConnections fileSize numConnections
  (List.range n.toNat).mapM fun i =>
    let task := chunkTask info filename fileSize n i
    if validChunk fileSize task then some task else none

/-- The tasks' ranges are non-empty, disjoint and cover the file. -/
structure Tiles (fileSize : ℕ) (tasks : List DownloadTask) : Prop where
  nonempty : ∀ task ∈ tasks, 0 < task.size
  inside : ∀ task ∈ tasks, task.offset+task.size ≤ fileSize
  output : ∀ task ∈ tasks, task.output = task.offset
  exactlyOne : ∀ p < fileSize, ∃! i : ℕ, ∃ task : DownloadTask, tasks[i]? = some task ∧
    task.offset ≤ p ∧ p < task.offset+task.size

/-- The products, the difference and the sum of the planning loop as natural numbers:
none of them leaves the range of `size_t`. -/
def NoWrap (fileSize : ℕ) (n : Int) : Prop :=
  ∀ i < n.toNat, toSizeT i*chunkSize fileSize n < 2^64 ∧
    chunkSize fileSize n*toSizeT i ≤ fileSize ∧
    toSizeT i*chunkSize fileSize n+chunkSize fileSize n < 2^64

theorem toInt_natCast {n : ℕ} (hn : n < 2^31) : toInt n = n := by
  apply Int.bmod_eq_of_le_mul_two
  · push_cast
    omega
  · push_cast
    omega

theorem toSSize_natCast {n : ℕ} (hn : n < 2^63) : toSSize n = n := by
  apply Int.bmod_eq_of_le_mul_two
  · push_cast
    omega
  · push_cast
    omega

/-- From 2^63 on a `size_t` is a negative `ssize_t`. -/
theorem toSSize_neg {n : ℕ} (hlow : 2^63 ≤ n) (hn : n < 2^64) : toSSize n < 0 := by
  calc toSSize n
      = Int.bmod (n-(2^64 : ℕ)) (2^64) := (Int.sub_bmod_right _ _).symm
    _ = n-(2^64 : ℕ) := by
      apply Int.bmod_eq_of_le_mul_two
      · push_cast
        omega
      · push_cast
        omega
    _ < 0 := by
      push_cast
      omega

theorem toSizeT_natCast {i : ℕ} (hi : i < 2^64) : toSizeT i = i := by
  rw [toSizeT]
  omega

/-- The clamped number of connections is positive and at most the file size. -/
theorem clampConnections_eq {fileSize : ℕ} {numConnections : Int} (hf : 1 ≤ fileSize)
    (hn : 0 < numConnections) (hn' : numConnections < 2^31) :
    ∃ n : ℕ, clampConnections fileSize numConnections = n ∧ 0 < n ∧ n ≤ fileSize ∧ n < 2^31 := by
  have hs : toSizeT numConnections = numConnections.toNat := by
    rw [toSizeT]
    omega
  rw [clampConnections, hs]
  by_cases h : numConnections.toNat > fileSize
  -- the `int` keeps the file size, which is below the number asked for
  · have h31 : fileSize < 2^31 := by omega
    refine ⟨fileSize, ?_, hf, Nat.le_refl _, h31⟩
    rw [if_pos h, toInt_natCast h31]
  · refine ⟨numConnections.toNat, ?_, by omega, by omega, by omega⟩
    rw [if_neg h]
    omega

section Planned

variable {info : ServerInfo} {filename : Bytes} {fileSize n i : ℕ}

theorem chunkSize_eq (hn : 0 < n) (hn' : n ≤ fileSize) (hn31 : n < 2^31) :
    chunkSize fileSize n = fileSize/n := by
  have hpos : 1 ≤ fileSize/n := (Nat.one_le_div_iff hn).mpr hn'
  rw [chunkSize, toSizeT_natCast (by omega)]
  exact if_neg (by omega)

theorem chunk_mul_le (fileSize : ℕ) (hi : i < n) : i*(fileSize/n)+fileSize/n ≤ fileSize := by
  calc i*(fileSize/n)+fileSize/n = (i+1)*(fileSize/n) := by ring
    _ ≤ n*(fileSize/n) := Nat.mul_le_mul_right _ hi
    _ ≤ fileSize := Nat.mul_div_le fileSize n

/-- The task of thread `i` without its machine arithmetic. -/
theorem chunkTask_eq (hi : i < n) (hn' : n ≤ fileSize) (hn31 : n < 2^31)
    (hf : fileSize < 2^64) :
    chunkTask info filename fileSize n i =
      { serverIp := info.servers (i%info.serverCount)
        serverPort := info.ports (i%info.serverCount)
        filename := filename
        offset := i*(fileSize/n)
        size := if i+1 = n then fileSize-i*(fileSize/n) else fileSize/n
        output := i*(fileSize/n) } := by
  have hle := chunk_mul_le fileSize hi
  simp only [chunkTask, chunkSize_eq (by omega : 0 < n) hn' hn31,
    toSizeT_natCast (by omega : i < 2^64)]
  rw [Nat.mul_comm (fileSize/n) i]
  -- from here on only the bound on the last chunk matters, not the division
  generalize fileSize/n = c at *
  generalize i*c = o at *
  have hoffset : o%2^64 = o := Nat.mod_eq_of_lt (by omega)
  rw [hoffset]
  by_cases hlast : i+1 = n
  · have hsize : toSizeT (fileSize-o : Int) = fileSize-o := by
      rw [toSizeT]
      omega
    rw [if_pos (by omega), if_pos hlast, hsize]
  · rw [if_neg (by omega), if_neg hlast]

theorem noWrap (hn : 0 < n) (hn' : n ≤ fileSize) (hn31 : n < 2^31) (hf : fileSize < 2^64) :
    NoWrap fileSize n := by
  intro i hi
  rw [Int.toNat_natCast] at hi
  have hle := chunk_mul_le fileSize hi
  rw [toSizeT_natCast (by omega), chunkSize_eq hn hn' hn31, Nat.mul_comm (fileSize/n) i]
  generalize fileSize/n = c at *
  generalize i*c = o at *
  omega

theorem chunkTask_range (hi : i < n) (hn' : n ≤ fileSize) (hn31 : n < 2^31)
    (hf : fileSize < 2^64) {p : ℕ} (hp : p < fileSize) :
    (chunkTask info filename fileSize n i).offset ≤ p ∧
      p < (chunkTask info filename fileSize n i).offset+(chunkTask info filename fileSize n i).size ↔
    i = min (p/(fileSize/n)) (n-1) := by
  have hc : 0 < fileSize/n := (Nat.one_le_div_iff (by omega)).mpr hn'
  rw [chunkTask_eq hi hn' hn31 hf]
  dsimp only
  have hdiv := Nat.le_div_iff_mul_le hc (x := i) (y := p)
  have hdiv' := Nat.div_lt_iff_lt_mul hc (x := p) (y := i+1)
  rw [Nat.add_mul, Nat.one_mul] at hdiv'
  have hle := chunk_mul_le fileSize hi
  -- the last task also takes the remainder: every address behind it has a quotient of at
  -- least `n-1`
  generalize p/(fileSize/n) = q at *
  generalize i*(fileSize/n) = o at *
  split_ifs with hlast
  · omega
  · omega

theorem chunkTask_valid (hi : i < n) (hn' : n ≤ fileSize) (hn31 : n < 2^31)
    (hf : fileSize < 2^64) : validChunk fileSize (chunkTask info filename fileSize n i) = true ∧
      0 < (chunkTask info filename fileSize n i).size ∧
      (chunkTask info filename fileSize n i).offset+(chunkTask info filename fileSize n i).size
        ≤ fileSize := by
  have hc : 0 < fileSize/n := (Nat.one_le_div_iff (by omega)).mpr hn'
  have hle := chunk_mul_le fileSize hi
  rw [chunkTask_eq hi hn' hn31 hf]
  simp only [validChunk, Bool.not_eq_true', Bool.or_eq_false_iff, decide_eq_false_iff_not]
  generalize i*(fileSize/n) = o at *
  split_ifs <;> omega

end Planned

theorem mapM_eq_some {α β : Type} {f : α → Option β} {g : α → β} {l : List α}
    (h : ∀ x ∈ l, f x = some (g x)) : l.mapM f = some (l.map g) := by
  induction l with
  | nil => rfl
  | cons x xs ih =>
    rw [List.mapM_cons, h x List.mem_cons_self, ih fun y hy => h y (List.mem_cons_of_mem x hy)]
    rfl

/-- The exit for an invalid chunk is not taken, and the tasks tile the file. -/
theorem planTasks_tiles (info : ServerInfo) (filename : Bytes) {fileSize : ℕ}
    {numConnections : Int} (hf : 1 ≤ fileSize) (hf' : fileSize < 2^64) (hn : 0 < numConnections)
    (hn' : numConnections < 2^31) :
    ∃ tasks, planTasks info filename fileSize numConnections = some tasks ∧
      tasks.length = (clampConnections fileSize numConnections).toNat ∧
      NoWrap fileSize (clampConnections fileSize numConnections) ∧ Tiles fileSize tasks := by
  obtain ⟨n, hclamp, hpos, hle, h31⟩ := clampConnections_eq hf hn hn'
  have hplan : planTasks info filename fileSize numConnections =
      some ((List.range n).map (chunkTask info filename fileSize n)) := by
    rw [planTasks, hclamp, Int.toNat_natCast]
    apply mapM_eq_some
    intro i hi
    exact if_pos (chunkTask_valid (List.mem_range.mp hi) hle h31 hf').1
  refine ⟨_, hplan, ?_, ?_, ?_, ?_, ?_, ?_⟩
  · rw [List.length_map, List.length_range, hclamp, Int.toNat_natCast]
  · rw [hclamp]
    exact noWrap hpos hle h31 hf'
  · intro task htask
    obtain ⟨i, hi, rfl⟩ := List.mem_map.mp htask
    exact (chunkTask_valid (List.mem_range.mp hi) hle h31 hf').2.1
  · intro task htask
    obtain ⟨i, hi, rfl⟩ := List.mem_map.mp htask
    exact (chunkTask_valid (List.mem_range.mp hi) hle h31 hf').2.2
  · intro task htask
    obtain ⟨i, hi, rfl⟩ := List.mem_map.mp htask
    rfl
  · intro p hp
    -- the task of an address is found by division, and the last one takes the remainder
    have hget (i : ℕ) (task : DownloadTask) : ((List.range n).map
        (chunkTask info filename fileSize n))[i]? = some task ↔
          i < n ∧ chunkTask info filename fileSize n i = task := by
      simp only [List.getElem?_map, Option.map_eq_some_iff, List.getElem?_eq_some_iff,
        List.length_range, List.getElem_range]
      constructor
      · rintro ⟨j, ⟨hin, rfl⟩, rfl⟩
        exact ⟨hin, rfl⟩
      · rintro ⟨hin, rfl⟩
        exact ⟨i, ⟨hin, rfl⟩, rfl⟩
    have hlt : min (p/(fileSize/n)) (n-1) < n := by omega
    refine ⟨min (p/(fileSize/n)) (n-1), ?_, ?_⟩
    · exact ⟨_, (hget _ _).mpr ⟨hlt, rfl⟩, (chunkTask_range hlt hle h31 hf' hp).mpr rfl⟩
    · rintro i ⟨task, htask, hrange⟩
      obtain ⟨hi, rfl⟩ := (hget i task).mp htask
      exact (chunkTask_range hi hle h31 hf' hp).mp hrange

/-- What a thread leaves: a value for `pthread_join`, the end of the process, or a call whose
effect is not defined. -/
inductive ThreadStatus
  | joined (status : ℕ)
  | process (exitCode : ℕ)
  | undefined
  deriving DecidableEq

/-- The pieces that a thread has stored from `task->output` on, in order. -/
structure ThreadEnd where
  status : ThreadStatus
  copied : List Bytes

/-- What a run of `main` leaves; `failed` lists the threads it reports. -/
structure Outcome where
  exitCode : ℕ
  outputDat : Option Bytes
  failed : List ℕ
  deriving DecidableEq

/-- How a run of `main` ends. -/
inductive Ending
  | exited (outcome : Outcome)
  | undefined
  deriving DecidableEq

/-- What two calls of `main` do that C and POSIX leave undefined. `pthread_join` stores the eight
bytes of a `void *` at the `int thread_status`: with `spare` nothing that is still used lies in the
four bytes behind it. `detaches n`: `pthread_detach` returns for each of `n` joined threads. -/
structure Machine where
  spare : Bool
  detaches : ℕ → Bool

/-- `main` of `ftp/client.c` detaches no thread. -/
def Machine.ftp (spare : Bool) : Machine := ⟨spare, fun _ => true⟩

/-- `main` comes through its joins and detaches of `n` threads. -/
def Machine.allows (m : Machine) (n : ℕ) : Bool := n = 0 || (m.spare && m.detaches n)

/-- `tasks[i].output` as an index of `file_data`. -/
def outputOf (tasks : List DownloadTask) (i : ℕ) : ℕ :=
  match tasks[i]? with
  | some task => task.output
  | none => 0

/-- `file_data` after the appends of the threads, from the zeros of `calloc`. -/
def fileData (tasks : List DownloadTask) (schedule : List (ℕ × Bytes)) : ℕ → Byte :=
  appends (fun _ => 0) (outputOf tasks) schedule

/-- The pieces of thread `i` in a schedule. -/
def piecesOf (i : ℕ) (schedule : List (ℕ × Bytes)) : List Bytes :=
  (schedule.filter fun p => p.1 = i).map Prod.snd

def processExit (ends : ℕ → ThreadEnd) (i : ℕ) : Option ℕ :=
  match (ends i).status with
  | .process exitCode => some exitCode
  | _ => none

def reported (ends : ℕ → ThreadEnd) (i : ℕ) : Bool :=
  match (ends i).status with
  | .joined status => status ≠ 0
  | _ => false

/-- From the planning loop on. `created i` is the result of `pthread_create`; with `joinsFirst` the
first join returns before a thread calls `exit`. A thread whose join gives a non-zero status is
reported, and the file is written all the same. -/
def clientMain (m : Machine) (plan : Option (List DownloadTask)) (fileSize : ℕ) (created : ℕ → Bool)
    (joinsFirst : Bool) (ends : ℕ → ThreadEnd) (schedule : List (ℕ × Bytes)) : Ending :=
  match plan with
  | none => .exited ⟨1, none, []⟩
  | some tasks =>
    let threads := List.range tasks.length
    if threads.any (fun i => (ends i).status = .undefined) then .undefined
    else if threads.all created then
      match threads.findSome? (processExit ends) with
      | some exitCode =>
        if joinsFirst && !m.spare then .undefined else .exited ⟨exitCode, none, []⟩
      | none =>
        if m.allows tasks.length then
          .exited ⟨0, some (slots (fileData tasks schedule) fileSize),
            threads.filter (reported ends)⟩
        else .undefined
    else .exited ⟨1, none, []⟩

theorem written_eq_flatten (i : ℕ) (schedule : List (ℕ × Bytes)) :
    written i schedule = (piecesOf i schedule).flatten := by
  rw [written, piecesOf, List.flatMap_def]

end NetTools.Download
