import NetTools.ChunkAssembly
import NetTools.TFTPCopies

namespace NetTools.Download

open CArray SliceWrites

/-- Either the whole file was received and written, or the run fails and writes nothing; in
particular its behaviour is defined. -/
def AllOrNothing (file : Bytes) (tasks : List DownloadTask) (ends : ℕ → ThreadEnd)
    (ending : Ending) : Prop :=
  ∃ outcome, ending = .exited outcome ∧
    ((outcome.exitCode = 0 ∧ outcome.outputDat = some file ∧
      ∀ i task, tasks[i]? = some task → (ends i).copied.flatten = slice file task) ∨
    (outcome.exitCode ≠ 0 ∧ outcome.outputDat = none))

/-- A schedule of the appends of all threads. -/
structure Interleaves (tasks : List DownloadTask) (ends : ℕ → ThreadEnd)
    (schedule : List (ℕ × Bytes)) : Prop where
  thread : ∀ p ∈ schedule, p.1 < tasks.length
  pieces : ∀ i < tasks.length, piecesOf i schedule = (ends i).copied

theorem processExit_eq_some {ends : ℕ → ThreadEnd} {i exitCode : ℕ} :
    processExit ends i = some exitCode ↔ (ends i).status = .process exitCode := by
  unfold processExit
  split
  · rename_i e h
    rw [h, Option.some.injEq, ThreadStatus.process.injEq]
  · rename_i h
    exact iff_of_false (Option.some_ne_none _).symm (h exitCode)

section

variable {tasks : List DownloadTask} {fileSize : ℕ} {m : Machine} {created : ℕ → Bool}
  {joinsFirst : Bool} {ends : ℕ → ThreadEnd} {schedule : List (ℕ × Bytes)}

theorem clientMain_of_undefined {i : ℕ} (hi : i < tasks.length)
    (h : (ends i).status = .undefined) :
    clientMain m (some tasks) fileSize created joinsFirst ends schedule = .undefined := by
  have hany : (List.range tasks.length).any (fun i => (ends i).status = .undefined) = true :=
    List.any_eq_true.mpr ⟨i, List.mem_range.mpr hi, decide_eq_true h⟩
  rw [clientMain]
  exact if_pos hany

/-- `main` when no thread has left the defined calls. -/
theorem clientMain_of_defined (hdef : ∀ i < tasks.length, (ends i).status ≠ .undefined) :
    clientMain m (some tasks) fileSize created joinsFirst ends schedule =
      if (List.range tasks.length).all created then
        match (List.range tasks.length).findSome? (processExit ends) with
        | some exitCode =>
          if joinsFirst && !m.spare then .undefined else .exited ⟨exitCode, none, []⟩
        | none =>
          if m.allows tasks.length then
            .exited ⟨0, some (slots (fileData tasks schedule) fileSize),
              (List.range tasks.length).filter (reported ends)⟩
          else .undefined
      else .exited ⟨1, none, []⟩ := by
  have hany : ¬ (List.range tasks.length).any (fun i => (ends i).status = .undefined) = true := by
    rw [List.any_eq_true]
    rintro ⟨i, hi, h⟩
    exact hdef i (List.mem_range.mp hi) (of_decide_eq_true h)
  rw [clientMain]
  exact if_neg hany

theorem clientMain_of_not_created (hdef : ∀ i < tasks.length, (ends i).status ≠ .undefined)
    {k : ℕ} (hk : k < tasks.length) (h : created k = false) :
    clientMain m (some tasks) fileSize created joinsFirst ends schedule = .exited ⟨1, none, []⟩ := by
  have hnot : ¬ (List.range tasks.length).all created = true := by
    rw [List.all_eq_true]
    intro hall
    have htrue := hall k (List.mem_range.mpr hk)
    rw [h] at htrue
    exact Bool.false_ne_true htrue
  rw [clientMain_of_defined hdef, if_neg hnot]

/-- A thread that calls `exit` ends the process, unless a join has done harm before. -/
theorem clientMain_of_exit (hdef : ∀ i < tasks.length, (ends i).status ≠ .undefined)
    (hcreated : ∀ i < tasks.length, created i = true) {i exitCode : ℕ} (hi : i < tasks.length)
    (hexit : (ends i).status = .process exitCode) :
    ∃ j exitCode', (ends j).status = .process exitCode' ∧
      clientMain m (some tasks) fileSize created joinsFirst ends schedule =
        if joinsFirst && !m.spare then .undefined else .exited ⟨exitCode', none, []⟩ := by
  have hall : (List.range tasks.length).all created = true :=
    List.all_eq_true.mpr fun i hi => hcreated i (List.mem_range.mp hi)
  rw [clientMain_of_defined hdef, if_pos hall]
  cases hp : (List.range tasks.length).findSome? (processExit ends) with
  | none =>
    have hnone := List.findSome?_eq_none_iff.mp hp i (List.mem_range.mpr hi)
    rw [processExit_eq_some.mpr hexit] at hnone
    exact absurd hnone (Option.some_ne_none _)
  | some exitCode' =>
    obtain ⟨j, -, hj⟩ := List.exists_of_findSome?_eq_some hp
    exact ⟨j, exitCode', processExit_eq_some.mp hj, rfl⟩

/-- All threads are joined. -/
theorem clientMain_of_joined (hdef : ∀ i < tasks.length, (ends i).status ≠ .undefined)
    (hcreated : ∀ i < tasks.length, created i = true)
    (hjoined : ∀ i < tasks.length, ∀ exitCode, (ends i).status ≠ .process exitCode) :
    clientMain m (some tasks) fileSize created joinsFirst ends schedule =
      if m.allows tasks.length then
        .exited ⟨0, some (slots (fileData tasks schedule) fileSize),
          (List.range tasks.length).filter (reported ends)⟩
      else .undefined := by
  have hall : (List.range tasks.length).all created = true :=
    List.all_eq_true.mpr fun i hi => hcreated i (List.mem_range.mp hi)
  have hfind : (List.range tasks.length).findSome? (processExit ends) = none := by
    rw [List.findSome?_eq_none_iff]
    intro i hi
    rw [Option.eq_none_iff_forall_ne_some]
    intro exitCode h
    exact hjoined i (List.mem_range.mp hi) exitCode (processExit_eq_some.mp h)
  rw [clientMain_of_defined hdef, if_pos hall, hfind]

end

theorem Machine.allows_iff {m : Machine} {n : ℕ} (hn : 0 < n) :
    m.allows n = true ↔ m.spare = true ∧ m.detaches n = true := by
  simp [Machine.allows, hn.ne']

theorem not_allOrNothing_undefined {file : Bytes} {tasks : List DownloadTask}
    {ends : ℕ → ThreadEnd} : ¬ AllOrNothing file tasks ends .undefined := by
  rintro ⟨outcome, h, -⟩
  cases h

/-- For any threads whose calls are defined: the download is all or nothing exactly when a thread
cannot be created, a thread ends the process before a join does harm, or every thread stores its
whole slice and `main` comes through its joins. -/
theorem clientMain_allOrNothing {file : Bytes} {tasks : List DownloadTask} {m : Machine}
    {created : ℕ → Bool} {joinsFirst : Bool} {ends : ℕ → ThreadEnd} {schedule : List (ℕ × Bytes)}
    (ht : Tiles file.length tasks) (hs : Interleaves tasks ends schedule)
    (hn : 0 < tasks.length) (hexit : ∀ i, (ends i).status ≠ .process 0)
    (hdef : ∀ i < tasks.length, (ends i).status ≠ .undefined) :
    AllOrNothing file tasks ends
        (clientMain m (some tasks) file.length created joinsFirst ends schedule) ↔
      (∃ i < tasks.length, created i = false) ∨
      ((∃ i < tasks.length, ∃ exitCode, (ends i).status = .process exitCode) ∧
        (joinsFirst = false ∨ m.spare = true)) ∨
      (m.spare = true ∧ m.detaches tasks.length = true ∧
        ∀ i task, tasks[i]? = some task → (ends i).copied.flatten = slice file task) := by
  by_cases hc : ∃ i < tasks.length, created i = false
  · obtain ⟨i, hi, hfalse⟩ := hc
    rw [clientMain_of_not_created hdef hi hfalse]
    exact iff_of_true ⟨_, rfl, Or.inr ⟨Nat.one_ne_zero, rfl⟩⟩ (Or.inl ⟨i, hi, hfalse⟩)
  rw [or_iff_right hc]
  have hcreated : ∀ i < tasks.length, created i = true := by simpa using hc
  by_cases hp : ∃ i < tasks.length, ∃ exitCode, (ends i).status = .process exitCode
  · rw [and_iff_right hp]
    obtain ⟨i, hi, exitCode, hstatus⟩ := hp
    obtain ⟨j, exitCode', hj, hmain⟩ :
        ∃ j exitCode', (ends j).status = .process exitCode' ∧
          clientMain m (some tasks) file.length created joinsFirst ends schedule =
            if joinsFirst && !m.spare then .undefined else .exited ⟨exitCode', none, []⟩ :=
      clientMain_of_exit hdef hcreated hi hstatus
    rw [hmain]
    by_cases harmed : (joinsFirst && !m.spare) = true
    · -- a join has come before the `exit`
      rw [if_pos harmed]
      rw [Bool.and_eq_true, Bool.not_eq_true'] at harmed
      refine iff_of_false not_allOrNothing_undefined ?_
      simp [harmed]
    · rw [if_neg harmed]
      have hne : exitCode' ≠ 0 := by
        rintro rfl
        exact hexit j hj
      refine iff_of_true ⟨_, rfl, Or.inr ⟨hne, rfl⟩⟩ (Or.inl ?_)
      rwa [Bool.and_eq_true, Bool.not_eq_true', not_and_or, Bool.not_eq_true, Bool.not_eq_false]
        at harmed
  · rw [or_iff_right (fun h => hp h.1)]
    have hjoined : ∀ i < tasks.length, ∀ exitCode, (ends i).status ≠ .process exitCode :=
      fun i hi exitCode h => hp ⟨i, hi, exitCode, h⟩
    rw [clientMain_of_joined hdef hcreated hjoined, ← and_assoc, ← Machine.allows_iff hn]
    by_cases hm : m.allows tasks.length = true
    · rw [if_pos hm, and_iff_right hm]
      -- `output.dat` is written whatever the joins report, so it is the file only if every slice
      -- is complete
      constructor
      · rintro ⟨outcome, ⟨⟩, ⟨-, -, hall⟩ | ⟨hne, -⟩⟩
        · exact hall
        · exact absurd rfl hne
      · intro hall
        refine ⟨_, rfl, Or.inl ⟨rfl, congrArg some (fileData_eq ht ⟨hs.thread, ?_⟩), hall⟩⟩
        intro i task hi
        have hlt := (List.getElem?_eq_some_iff.mp hi).1
        rw [written_eq_flatten, hs.pieces i hlt, hall i task hi]
    · rw [if_neg hm]
      exact iff_of_false not_allOrNothing_undefined fun h => hm h.1

/-- What the threads of the FTP client leave, for the results of their calls. -/
def ftpEnds (tasks : List DownloadTask) (calls : ℕ → FTP.Calls) (i : ℕ) : ThreadEnd :=
  FTP.threadEnd ((tasks[i]?.map DownloadTask.size).getD 0) (calls i)

def tftpEnds (tasks : List DownloadTask) (calls : ℕ → TFTP.Calls) (i : ℕ) : ThreadEnd :=
  TFTP.threadEnd ((tasks[i]?.map DownloadTask.size).getD 0) (calls i)

theorem slice_bounds {file : Bytes} {tasks : List DownloadTask} (hf : file.length < 2^63)
    (ht : Tiles file.length tasks) {i : ℕ} {task : DownloadTask} (hi : tasks[i]? = some task) :
    (slice file task).length = task.size ∧ 0 < task.size ∧ task.size < 2^63 := by
  have hm := List.mem_of_getElem? hi
  have hpos := ht.nonempty task hm
  have hin := ht.inside task hm
  exact ⟨slice_length ht hm, hpos, by omega⟩

theorem ftpEnds_complete {file : Bytes} {tasks : List DownloadTask} {calls : ℕ → FTP.Calls}
    (hf : file.length < 2^63) (ht : Tiles file.length tasks) {i : ℕ} {task : DownloadTask}
    (hi : tasks[i]? = some task) (hserver : (calls i).recvs.flatten <+: slice file task) :
    (ftpEnds tasks calls i).copied.flatten = slice file task ↔ FTP.Delivers task.size (calls i) := by
  obtain ⟨hlen, hpos, hlt⟩ := slice_bounds hf ht hi
  have h := FTP.downloadChunk_complete (by omega) (by omega) hserver
  rw [hlen] at h
  rw [ftpEnds, hi]
  exact h

theorem tftpEnds_outcome {file : Bytes} {tasks : List DownloadTask} {calls : ℕ → TFTP.Calls}
    (hf : file.length < 2^63) (ht : Tiles file.length tasks) {i : ℕ} {task : DownloadTask}
    (hi : tasks[i]? = some task) (hserver : TFTP.FromServer (slice file task) (calls i).turns) :
    ((tftpEnds tasks calls i).copied.flatten = slice file task ↔
      TFTP.Delivers task.size (calls i)) ∧
    ((∃ exitCode, (tftpEnds tasks calls i).status = .process exitCode) ↔
      TFTP.EndsProcess task.size (calls i)) := by
  obtain ⟨hlen, hpos, hlt⟩ := slice_bounds hf ht hi
  have h := TFTP.downloadChunk_outcome (by omega) (by omega) hserver
  rw [hlen] at h
  rw [tftpEnds, hi]
  exact h

/-- The server sends no runt. -/
theorem tftpEnds_defined {file : Bytes} {tasks : List DownloadTask} {calls : ℕ → TFTP.Calls}
    (hf : file.length < 2^63) (ht : Tiles file.length tasks) {i : ℕ} {task : DownloadTask}
    (hi : tasks[i]? = some task) (hserver : TFTP.FromServer (slice file task) (calls i).turns) :
    (tftpEnds tasks calls i).status ≠ .undefined := by
  obtain ⟨-, -, hlt⟩ := slice_bounds hf ht hi
  rw [tftpEnds, hi]
  exact TFTP.threadEnd_defined hlt fun r hr hrunt => (hserver.packet r hr
    (List.length_pos_iff.mp hrunt.1)).not_gt hrunt.2

/-- The run of the FTP client ends before the joins, or these do no harm and every chunk arrives. -/
def FtpGoesThrough (spare : Bool) (tasks : List DownloadTask) (created : ℕ → Bool)
    (calls : ℕ → FTP.Calls) : Prop :=
  (∃ i < tasks.length, created i = false) ∨
  (spare = true ∧ ∀ i task, tasks[i]? = some task → FTP.Delivers task.size (calls i))

/-- The process of the TFTP client ends before a join does harm, or joins and detaches do none and
every chunk arrives. -/
def TftpGoesThrough (m : Machine) (tasks : List DownloadTask) (created : ℕ → Bool)
    (joinsFirst : Bool) (calls : ℕ → TFTP.Calls) : Prop :=
  (∃ i < tasks.length, created i = false) ∨
  ((∃ i task, tasks[i]? = some task ∧ TFTP.EndsProcess task.size (calls i)) ∧
    (joinsFirst = false ∨ m.spare = true)) ∨
  (m.spare = true ∧ m.detaches tasks.length = true ∧
    ∀ i task, tasks[i]? = some task → TFTP.Delivers task.size (calls i))

theorem Tiles.length_pos {fileSize : ℕ} {tasks : List DownloadTask} (ht : Tiles fileSize tasks)
    (hf : 1 ≤ fileSize) : 0 < tasks.length := by
  obtain ⟨i, ⟨task, hi, -⟩, -⟩ := ht.exactlyOne 0 hf
  exact Nat.zero_lt_of_lt (List.getElem?_eq_some_iff.mp hi).1

/-- For every plan, every combination of the results of the threads' calls and every
interleaving of their appends, where the data that arrives is the server's: on every machine the
download is all or nothing exactly when it goes through. -/
theorem download_all_or_nothing (info : ServerInfo) (filename file : Bytes) (numConnections : Int)
    (tasks : List DownloadTask) (hf : 1 ≤ file.length) (hf' : file.length < 2^63)
    (hn : 0 < numConnections) (hn' : numConnections < 2^31) :
    (∀ spare created joinsFirst calls schedule,
      FTP.planTasks info filename file.length numConnections = some tasks →
      (∀ i task, tasks[i]? = some task → (calls i).recvs.flatten <+: slice file task) →
      Interleaves tasks (ftpEnds tasks calls) schedule →
      (AllOrNothing file tasks (ftpEnds tasks calls)
          (clientMain (.ftp spare) (FTP.planTasks info filename file.length numConnections)
            file.length created joinsFirst (ftpEnds tasks calls) schedule) ↔
        FtpGoesThrough spare tasks created calls)) ∧
    ∀ m created joinsFirst calls schedule,
      TFTP.planTasks info filename file.length numConnections = some tasks →
      (∀ i task, tasks[i]? = some task → TFTP.FromServer (slice file task) (calls i).turns) →
      Interleaves tasks (tftpEnds tasks calls) schedule →
      (AllOrNothing file tasks (tftpEnds tasks calls)
          (clientMain m (TFTP.planTasks info filename file.length numConnections) file.length created
            joinsFirst (tftpEnds tasks calls) schedule) ↔
        TftpGoesThrough m tasks created joinsFirst calls) := by
  obtain ⟨tasks', hplan, -, -, ht⟩ :=
    planTasks_tiles info filename hf (show file.length < 2^64 by omega) hn hn'
  have hpos := ht.length_pos hf
  constructor
  · intro spare created joinsFirst calls schedule hp hserver hs
    obtain rfl : tasks' = tasks := Option.some.inj (hplan.symm.trans hp)
    rw [hp]
    refine Iff.trans (clientMain_allOrNothing ht hs hpos (fun i => FTP.status_ne_process _ _ _)
      fun i _ => FTP.status_ne_undefined _ _) ?_
    apply or_congr Iff.rfl
    -- no thread of the FTP client ends the process
    have hprocess : ¬ ∃ i < tasks'.length, ∃ exitCode,
        (ftpEnds tasks' calls i).status = .process exitCode := by
      rintro ⟨i, -, exitCode, h⟩
      exact FTP.status_ne_process _ _ _ h
    rw [or_iff_right fun h => hprocess h.1]
    apply and_congr_right
    intro _
    rw [Machine.ftp, and_iff_right rfl]
    apply forall₃_congr
    intro i task hi
    exact ftpEnds_complete hf' ht hi (hserver i task hi)
  · intro m created joinsFirst calls schedule hp hserver hs
    obtain rfl : tasks' = tasks := Option.some.inj (hplan.symm.trans hp)
    rw [hp]
    have hdef : ∀ i < tasks'.length, (tftpEnds tasks' calls i).status ≠ .undefined := by
      intro i hi
      have htask := List.getElem?_eq_getElem hi
      exact tftpEnds_defined hf' ht htask (hserver i _ htask)
    refine Iff.trans (clientMain_allOrNothing ht hs hpos (fun i => TFTP.Exit.status_ne_zero _)
      hdef) ?_
    apply or_congr Iff.rfl
    apply or_congr
    · apply and_congr_left
      intro _
      constructor
      · rintro ⟨i, hi, h⟩
        have htask := List.getElem?_eq_getElem hi
        exact ⟨i, _, htask, (tftpEnds_outcome hf' ht htask (hserver i _ htask)).2.mp h⟩
      · rintro ⟨i, task, hi, h⟩
        exact ⟨i, (List.getElem?_eq_some_iff.mp hi).1,
          (tftpEnds_outcome hf' ht hi (hserver i task hi)).2.mpr h⟩
    · apply and_congr_right
      intro _
      apply and_congr_right
      intro _
      apply forall₃_congr
      intro i task hi
      exact (tftpEnds_outcome hf' ht hi (hserver i task hi)).1

/-- One local server on port 5000. -/
def localServer : ServerInfo := ⟨fun _ => CText.ascii "127.0.0.1", fun _ => 5000, 1⟩

/-- The file `abc` over one connection. -/
def oneTask : DownloadTask := ⟨CText.ascii "127.0.0.1", 5000, CText.ascii "f", 0, 3, 0⟩

/-- The file arrives in two pieces. -/
def ftpAbc : FTP.Calls := ⟨true, [true], true, [CText.ascii "ab", CText.ascii "c"], 0⟩

/-- The file arrives in one packet, after a timeout. -/
def tftpAbc : TFTP.Calls :=
  ⟨true, true, [TFTP.idle, ⟨true, TFTP.dataPacket 0 (CText.ascii "abc"), true⟩]⟩

/-- The joins do no harm, and up to four joined threads can be detached. -/
def lenientMachine : Machine := ⟨true, fun n => n ≤ 4⟩

theorem download_all_or_nothing_abc :
    AllOrNothing (CText.ascii "abc") [oneTask] (ftpEnds [oneTask] fun _ => ftpAbc)
      (clientMain (.ftp true) (FTP.planTasks localServer (CText.ascii "f") 3 1) 3 (fun _ => true) true
        (ftpEnds [oneTask] fun _ => ftpAbc) [(0, CText.ascii "ab"), (0, CText.ascii "c")]) ∧
    AllOrNothing (CText.ascii "abc") [oneTask] (tftpEnds [oneTask] fun _ => tftpAbc)
      (clientMain lenientMachine (TFTP.planTasks localServer (CText.ascii "f") 3 1) 3
        (fun _ => true) true (tftpEnds [oneTask] fun _ => tftpAbc) [(0, CText.ascii "abc")]) := by
  have h := download_all_or_nothing localServer (CText.ascii "f") (CText.ascii "abc") 1 [oneTask]
    (by decide) (by decide) (by decide) (by decide)
  have hone (i : ℕ) (task : DownloadTask) (hi : [oneTask][i]? = some task) : task = oneTask :=
    List.mem_singleton.mp (List.mem_of_getElem? hi)
  have hftp : FTP.Delivers 3 ftpAbc := ⟨rfl, by decide, rfl, 2, by decide, rfl⟩
  have htftp : TFTP.Delivers 3 tftpAbc := ⟨rfl, rfl, 2, ⟨by decide, by decide⟩, rfl⟩
  constructor
  · refine (h.1 _ _ _ _ _ rfl ?_ ⟨by decide, by decide⟩).mpr (Or.inr ⟨rfl, ?_⟩)
    · intro i task hi
      rw [hone i task hi]
      decide
    · intro i task hi
      rw [hone i task hi]
      exact hftp
  · refine (h.2 _ _ _ _ _ rfl ?_ ⟨by decide, by decide⟩).mpr (Or.inr (Or.inr ⟨rfl, rfl, ?_⟩))
    · intro i task hi
      rw [hone i task hi]
      exact ⟨by decide, by decide⟩
    · intro i task hi
      rw [hone i task hi]
      exact htftp

/-- A connection that the server closes at once, and five retries without a packet: on a machine
that lets them come to it both clients report thread 0, write three zero bytes as `output.dat` and
return 0. -/
theorem failed_chunk_leaves_zeros :
    (clientMain (.ftp true) (FTP.planTasks localServer (CText.ascii "f") 3 1) 3 (fun _ => true) true
      (ftpEnds [oneTask] fun _ => ⟨true, [true], true, [[]], 0⟩) [] =
        .exited ⟨0, some [0, 0, 0], [0]⟩ ∧
    clientMain lenientMachine (TFTP.planTasks localServer (CText.ascii "f") 3 1) 3 (fun _ => true)
      true (tftpEnds [oneTask] fun _ => ⟨true, true, []⟩) [] =
        .exited ⟨0, some [0, 0, 0], [0]⟩) ∧
    ¬ AllOrNothing (CText.ascii "abc") [oneTask]
      (ftpEnds [oneTask] fun _ => ⟨true, [true], true, [[]], 0⟩) (.exited ⟨0, some [0, 0, 0], [0]⟩) ∧
    ¬ AllOrNothing (CText.ascii "abc") [oneTask]
      (tftpEnds [oneTask] fun _ => ⟨true, true, []⟩) (.exited ⟨0, some [0, 0, 0], [0]⟩) := by
  have hzeros : some [0, 0, 0] ≠ some (CText.ascii "abc") := by decide
  have hnot (ends : ℕ → ThreadEnd) : ¬ AllOrNothing (CText.ascii "abc") [oneTask] ends
      (.exited ⟨0, some [0, 0, 0], [0]⟩) := by
    rintro ⟨outcome, ⟨⟩, ⟨-, h, -⟩ | ⟨h, -⟩⟩
    · exact hzeros h
    · exact h rfl
  exact ⟨⟨by decide, by decide⟩, hnot _, hnot _⟩

end NetTools.Download
