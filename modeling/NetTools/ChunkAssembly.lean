import NetTools.FTPDelivery
import NetTools.TFTPClient

namespace NetTools.Download

open CArray SliceWrites

/-- The bytes of the file that a task is to fetch. -/
def slice (file : Bytes) (task : DownloadTask) : Bytes := (file.drop task.offset).take task.size

/-- Every thread of the plan, and no other, appends its slice in pieces of any sizes. -/
structure AppendsSlices (file : Bytes) (tasks : List DownloadTask)
    (schedule : List (ℕ × Bytes)) : Prop where
  thread : ∀ p ∈ schedule, p.1 < tasks.length
  slices : ∀ i task, tasks[i]? = some task → written i schedule = slice file task

theorem slice_length {file : Bytes} {tasks : List DownloadTask} (ht : Tiles file.length tasks)
    {task : DownloadTask} (hm : task ∈ tasks) : (slice file task).length = task.size := by
  have hin := ht.inside task hm
  rw [slice, List.length_take, List.length_drop]
  omega

theorem written_of_not_thread {tasks : List DownloadTask} {schedule : List (ℕ × Bytes)}
    (h : ∀ p ∈ schedule, p.1 < tasks.length) {i : ℕ} (hi : tasks[i]? = none) :
    written i schedule = [] := by
  have hle := List.getElem?_eq_none_iff.mp hi
  rw [written, List.filter_eq_nil_iff.mpr, List.flatMap_nil]
  intro p hp
  have hlt := h p hp
  simp only [decide_eq_true_eq]
  omega

/-- The addresses that thread `i` writes are the range of its task. -/
theorem region_iff {file : Bytes} {tasks : List DownloadTask} {schedule : List (ℕ × Bytes)}
    (ht : Tiles file.length tasks) (ha : AppendsSlices file tasks schedule) {i p : ℕ} :
    (outputOf tasks i ≤ p ∧ p < outputOf tasks i+(written i schedule).length) ↔
      ∃ task : DownloadTask, tasks[i]? = some task ∧ task.offset ≤ p ∧
        p < task.offset+task.size := by
  cases hi : tasks[i]? with
  | none =>
    rw [written_of_not_thread ha.thread hi]
    simp only [List.length_nil, reduceCtorEq, false_and, exists_false, iff_false]
    omega
  | some task =>
    have hm := List.mem_of_getElem? hi
    have hout : outputOf tasks i = task.offset := by
      rw [outputOf, hi]
      exact ht.output task hm
    rw [hout, ha.slices i task hi, slice_length ht hm]
    simp only [Option.some.injEq, exists_eq_left']

/-- Tasks that tile the file assemble it under every interleaving of the appends. -/
theorem fileData_eq {file : Bytes} {tasks : List DownloadTask} {schedule : List (ℕ × Bytes)}
    (ht : Tiles file.length tasks) (ha : AppendsSlices file tasks schedule) :
    slots (fileData tasks schedule) file.length = file := by
  apply slots_appends_eq
  · intro i p hle hlt
    obtain ⟨task, hi, -, hp⟩ := (region_iff ht ha).mp ⟨hle, hlt⟩
    have hm := List.mem_of_getElem? hi
    have hout : outputOf tasks i = task.offset := by
      rw [outputOf, hi]
      exact ht.output task hm
    rw [ha.slices i task hi, hout, slice, List.getElem?_take, if_pos (by omega),
      List.getElem?_drop]
    congr 1
    omega
  · intro p hp
    obtain ⟨i, hi, -⟩ := ht.exactlyOne p hp
    exact ⟨i, (region_iff ht ha).mpr hi⟩
  -- two tasks on one address would be one task
  · intro i j p hij hi hi' hj hj'
    obtain ⟨task, hit, hle, hlt⟩ := (region_iff ht ha).mp ⟨hi, hi'⟩
    have hin := ht.inside task (List.mem_of_getElem? hit)
    obtain ⟨k, -, hk⟩ := ht.exactlyOne p (by omega)
    have hik := hk i ⟨task, hit, hle, hlt⟩
    have hjk := hk j ((region_iff ht ha).mp ⟨hj, hj'⟩)
    exact hij (hik.trans hjk.symm)

/-- The plan is made without its `Invalid chunk calculation` exit and without a wrap, its
tasks tile the file, and their appends assemble it. -/
def PlanAssembles (plan : Option (List DownloadTask)) (fileSize : ℕ) (numConnections : Int) :
    Prop :=
  ∃ tasks, plan = some tasks ∧
    tasks.length = (clampConnections fileSize numConnections).toNat ∧
    NoWrap fileSize (clampConnections fileSize numConnections) ∧ Tiles fileSize tasks ∧
    ∀ (file : Bytes) (schedule : List (ℕ × Bytes)), file.length = fileSize →
      AppendsSlices file tasks schedule → slots (fileData tasks schedule) fileSize = file

theorem planTasks_assembles (info : ServerInfo) (filename : Bytes) {fileSize : ℕ}
    {numConnections : Int} (hf : 1 ≤ fileSize) (hf' : fileSize < 2^64) (hn : 0 < numConnections)
    (hn' : numConnections < 2^31) :
    PlanAssembles (planTasks info filename fileSize numConnections) fileSize numConnections := by
  obtain ⟨tasks, hplan, hlen, hwrap, ht⟩ := planTasks_tiles info filename hf hf' hn hn'
  refine ⟨tasks, hplan, hlen, hwrap, ht, ?_⟩
  rintro file schedule rfl ha
  exact fileData_eq ht ha

/-- For every file of at least one byte and every positive number of connections, both
clients' plans tile the file and every interleaving of the appends assembles it. -/
theorem chunk_plan_assembles (info : ServerInfo) (filename : Bytes) (fileSize : ℕ)
    (numConnections : Int) (hf : 1 ≤ fileSize) (hf' : fileSize < 2^64) (hn : 0 < numConnections)
    (hn' : numConnections < 2^31) :
    PlanAssembles (FTP.planTasks info filename fileSize numConnections) fileSize numConnections ∧
    PlanAssembles (TFTP.planTasks info filename fileSize numConnections) fileSize
      numConnections :=
  ⟨planTasks_assembles info filename hf hf' hn hn', planTasks_assembles info filename hf hf' hn hn'⟩

/-- Ten bytes over three connections. -/
theorem chunk_plan_assembles_ten :
    PlanAssembles (FTP.planTasks ⟨fun _ => [], fun _ => 5000, 1⟩ [] 10 3) 10 3 ∧
    PlanAssembles (TFTP.planTasks ⟨fun _ => [], fun _ => 5000, 1⟩ [] 10 3) 10 3 :=
  chunk_plan_assembles _ _ 10 3 (by decide) (by decide) (by decide) (by decide)

end NetTools.Download
