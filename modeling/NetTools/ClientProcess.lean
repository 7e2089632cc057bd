import NetTools.AllOrNothing
import NetTools.WorkerPool

/-! The process of a download client from the planning loop on: `main` creates its threads while
those that it has created already run, joins them one after the other and writes `output.dat`. -/
namespace NetTools.Download

open CArray SliceWrites Schedule WorkerPool

/-- A `download_chunk`, call by call. `start` is given `task->size`; `stores` is what a call writes
at `output_ptr`, and `copied` are all pieces written so far. -/
structure Downloader (σ α : Type*) extends Worker σ α where
  start : ℕ → σ
  stores : σ → α → Option Bytes
  outputPtr : σ → ℕ
  copied : σ → List Bytes
  status : σ → Option ThreadStatus

/-- `memory` is `file_data`, and `failed` are the threads that `main` has reported. -/
structure ClientProcess (σ : Type*) where
  pool : Pool σ
  created : ℕ
  joined : ℕ
  failed : List ℕ
  memory : ℕ → Byte
  ending : Option Ending

/-- `create` is a `pthread_create` of `main` with its result, `call` a call of a thread. In
`tftp/client.c` the detaches come with the `write`. -/
inductive ProcessAction (α : Type*)
  | create (ok : Bool)
  | call (i : ℕ) (a : α)
  | join
  | write

/-- `task->size` of thread `i`. -/
def sizeOf (tasks : List DownloadTask) (i : ℕ) : ℕ := (tasks[i]?.map DownloadTask.size).getD 0

section

variable {σ α : Type*} (D : Downloader σ α) (m : Machine) (tasks : List DownloadTask) (fileSize : ℕ)

namespace ClientProcess

def start : ClientProcess σ :=
  ⟨⟨none, fun i => D.start (sizeOf tasks i)⟩, 0, 0, [], fun _ => 0, none⟩

/-- The process is over. -/
def ended (s : ClientProcess σ) (ending : Ending) : ClientProcess σ :=
  { s with ending := some ending }

/-- `file_data` after a call of thread `i`. -/
def memoryAfter (s : ClientProcess σ) (i : ℕ) (a : α) : ℕ → Byte :=
  match D.stores (s.pool.workers i) a with
  | some piece => blit s.memory (outputOf tasks i+D.outputPtr (s.pool.workers i)) piece
  | none => s.memory

/-- The threads after a call of thread `i`, with what it has written; an `exit` in a thread, or a
call without defined behaviour, ends them all. -/
def called (s : ClientProcess σ) (i : ℕ) (a : α) (pool : Pool σ) : ClientProcess σ :=
  let t := { s with pool := pool, memory := s.memoryAfter D tasks i a }
  match D.status (pool.workers i) with
  | some (.process exitCode) => t.ended (.exited ⟨exitCode, none, []⟩)
  | some .undefined => t.ended .undefined
  | _ => t

/-- The thread that is joined next has ended with this value. -/
def joins (s : ClientProcess σ) (status : ℕ) : ClientProcess σ :=
  { s with
    joined := s.joined+1
    failed := if status = 0 then s.failed else s.failed ++ [s.joined] }

/-- One step; `none` when it is not possible. -/
def step (s : ClientProcess σ) : ProcessAction α → Option (ClientProcess σ)
  | .create ok =>
    if s.ending = none ∧ s.created < tasks.length then
      some (if ok then { s with created := s.created+1 } else s.ended (.exited ⟨1, none, []⟩))
    else none
  | .call i a =>
    if s.ending = none ∧ i < s.created then (s.pool.step D.toWorker i a).map (s.called D tasks i a)
    else none
  | .join =>
    if s.ending = none ∧ s.created = tasks.length ∧ s.joined < tasks.length then
      match D.status (s.pool.workers s.joined) with
      | some (.joined status) => some (if m.spare then s.joins status else s.ended .undefined)
      | _ => none
    else none
  | .write =>
    if s.ending = none ∧ s.created = tasks.length ∧ s.joined = tasks.length then
      some (s.ended (if m.allows tasks.length then
        .exited ⟨0, some (slots s.memory fileSize), s.failed⟩ else .undefined))
    else none

end ClientProcess

/-- What the process relies on in its threads. `Ends n e` says that a thread with `n` bytes to
receive can end with `e`. A thread that runs could still end without another byte. -/
structure Downloader.Sound (Ends : ℕ → ThreadEnd → Prop) : Prop where
  copied_start : ∀ n, D.copied (D.start n) = []
  running_start : ∀ n, D.status (D.start n) = none
  free_start : ∀ n, D.holds (D.start n) = false
  copied_step : ∀ w a w', D.step w a = some w' → D.copied w' = D.copied w ++ (D.stores w a).toList
  finished : ∀ w a, D.status w ≠ none → D.step w a = none
  released : ∀ w, D.status w ≠ none → D.holds w = false
  outputPtr : ∀ n w, Reachable D.step anyStep (D.start n) w →
    D.outputPtr w = (D.copied w).flatten.length
  ends : ∀ n w status, Reachable D.step anyStep (D.start n) w → D.status w = some status →
    Ends n ⟨status, D.copied w⟩
  canEnd : ∀ n w, Reachable D.step anyStep (D.start n) w → D.status w = none →
    ∃ status, Ends n ⟨.joined status, D.copied w⟩

namespace ClientProcess

/-- What can be told of the threads in every state: each has made a run of its own, and `file_data`
is what some order of their appends leaves. -/
structure Books (threads : ℕ → σ) (memory : ℕ → Byte) : Prop where
  runs : ∀ i, Reachable D.step anyStep (D.start (sizeOf tasks i)) (threads i)
  memory : ∃ schedule, (∀ p ∈ schedule, p.1 < tasks.length) ∧
    (∀ i, piecesOf i schedule = D.copied (threads i)) ∧ memory = fileData tasks schedule

/-- What can be told of a process that is not over. -/
structure Alive (s : ClientProcess σ) : Prop where
  books : Books D tasks s.pool.workers s.memory
  created : s.created ≤ tasks.length
  joined : s.joined ≤ s.created
  guarded : s.pool.Guarded D.toWorker
  waiting : ∀ i, s.created ≤ i → s.pool.workers i = D.start (sizeOf tasks i)
  joinable : ∀ i status, D.status (s.pool.workers i) = some status → ∃ value, status = .joined value
  finished : ∀ i < s.joined, D.status (s.pool.workers i) ≠ none
  failed : s.failed =
    (List.range s.joined).filter fun i => D.status (s.pool.workers i) ≠ some (.joined 0)

variable {D tasks} {Ends : ℕ → ThreadEnd → Prop} {s : ClientProcess σ} {pool : Pool σ} {i : ℕ}
  {a : α}

theorem piecesOf_append (i : ℕ) (schedule schedule' : List (ℕ × Bytes)) :
    piecesOf i (schedule ++ schedule') = piecesOf i schedule ++ piecesOf i schedule' := by
  rw [piecesOf, List.filter_append, List.map_append]
  rfl

theorem alive_start (hD : D.Sound Ends) : Alive D tasks (start D tasks) := by
  have hstatus (i : ℕ) : D.status ((start D tasks).pool.workers i) = none := hD.running_start _
  refine ⟨⟨fun i => .start, [], by simp, fun i => (hD.copied_start _).symm, rfl⟩, Nat.zero_le _,
    le_refl 0, ?_, fun i _ => rfl, ?_, fun i hi => absurd hi (Nat.not_lt_zero i), rfl⟩
  · intro i
    exact iff_of_false (by simp [start]) (by simp [start, hD.free_start])
  · intro i status h
    rw [hstatus] at h
    cases h

/-- A call writes its piece behind the pieces of its thread. -/
theorem Books.called (hD : D.Sound Ends) (h : Books D tasks s.pool.workers s.memory)
    (hi : i < tasks.length) (hs : s.pool.step D.toWorker i a = some pool) :
    Books D tasks pool.workers (s.memoryAfter D tasks i a) := by
  obtain ⟨w', hw, -, hworkers⟩ := Pool.step_eq_some hs
  have hcopied := hD.copied_step _ _ _ hw
  have hruns (j : ℕ) : Reachable D.step anyStep (D.start (sizeOf tasks j)) (pool.workers j) := by
    rw [hworkers]
    by_cases hji : j = i
    · subst hji
      rw [Function.update_self]
      exact (h.runs j).step trivial hw
    · rw [Function.update_of_ne hji]
      exact h.runs j
  obtain ⟨schedule, hthread, hpieces, hmemory⟩ := h.memory
  refine ⟨hruns, schedule ++ ((D.stores (s.pool.workers i) a).map fun piece => (i, piece)).toList,
    ?_, ?_, ?_⟩
  · intro p hp
    rcases List.mem_append.mp hp with hp | hp
    · exact hthread p hp
    · obtain ⟨piece, -, rfl⟩ := Option.map_eq_some_iff.mp (Option.mem_toList.mp hp)
      exact hi
  · intro j
    rw [piecesOf_append, hpieces, hworkers]
    by_cases hji : j = i
    · subst hji
      rw [Function.update_self, hcopied]
      cases D.stores (s.pool.workers j) a <;> simp [piecesOf]
    · rw [Function.update_of_ne hji]
      cases D.stores (s.pool.workers i) a <;> simp [piecesOf, Ne.symm hji]
  · rw [memoryAfter]
    cases hstores : D.stores (s.pool.workers i) a with
    | none => simpa using hmemory
    -- `output_ptr` is where the pieces so far end
    | some piece =>
      have hcursor : D.outputPtr (s.pool.workers i) = (written i schedule).length := by
        rw [written_eq_flatten, hpieces, hD.outputPtr _ _ (h.runs i)]
      change blit s.memory _ piece = fileData tasks (schedule ++ [(i, piece)])
      rw [fileData, appends_concat, ← fileData, hmemory, hcursor]

/-- An end for every thread: its own, or for a thread that still runs one without another byte. -/
theorem Books.exists_ends (hD : D.Sound Ends) {threads : ℕ → σ} {memory : ℕ → Byte}
    (h : Books D tasks threads memory) : ∃ ends schedule,
    (∀ i, Ends (sizeOf tasks i) (ends i)) ∧ Interleaves tasks ends schedule ∧
    memory = fileData tasks schedule ∧
    ∀ i, D.status (threads i) = some (ends i).status ∨
      D.status (threads i) = none ∧ ∃ status, (ends i).status = .joined status := by
  have hend (i : ℕ) : ∃ e : ThreadEnd, Ends (sizeOf tasks i) e ∧
      e.copied = D.copied (threads i) ∧
      (D.status (threads i) = some e.status ∨
        D.status (threads i) = none ∧ ∃ status, e.status = .joined status) := by
    cases hstatus : D.status (threads i) with
    | some status => exact ⟨_, hD.ends _ _ _ (h.runs i) hstatus, rfl, Or.inl rfl⟩
    | none =>
      obtain ⟨status, he⟩ := hD.canEnd _ _ (h.runs i) hstatus
      exact ⟨_, he, rfl, Or.inr ⟨rfl, status, rfl⟩⟩
  choose ends hends hcopied hstatus using hend
  -- the appends so far are all that these ends write
  obtain ⟨schedule, hthread, hpieces, hmemory⟩ := h.memory
  exact ⟨ends, schedule, hends, ⟨hthread, fun i _ => (hpieces i).trans (hcopied i).symm⟩, hmemory,
    hstatus⟩

end ClientProcess

/-- The process ends as `clientMain` does for some ends of the threads and some order of their
appends. -/
def Summarised (Ends : ℕ → ThreadEnd → Prop) (ending : Ending) : Prop :=
  ∃ created joinsFirst ends schedule, (∀ i, Ends (sizeOf tasks i) (ends i)) ∧
    Interleaves tasks ends schedule ∧
    ending = clientMain m (some tasks) fileSize created joinsFirst ends schedule

namespace ClientProcess

variable {D m tasks fileSize} {Ends : ℕ → ThreadEnd → Prop} {s t : ClientProcess σ} {pool : Pool σ}
  {i : ℕ} {a : α}

/-- In a process that is alive an end that each thread could come to has a value for its join. -/
theorem Alive.exists_ends (hD : D.Sound Ends) (h : s.Alive D tasks) : ∃ ends schedule,
    (∀ i, Ends (sizeOf tasks i) (ends i)) ∧ Interleaves tasks ends schedule ∧
    s.memory = fileData tasks schedule ∧ (∀ i, ∃ value, (ends i).status = .joined value) ∧
    ∀ i status, D.status (s.pool.workers i) = some status → (ends i).status = status := by
  obtain ⟨ends, schedule, hends, hs, hmemory, hstatus⟩ := h.books.exists_ends hD
  refine ⟨ends, schedule, hends, hs, hmemory, fun i => ?_, fun i status hi => ?_⟩
  · rcases hstatus i with hsame | ⟨-, hjoined⟩
    · exact h.joinable i _ hsame
    · exact hjoined
  · rcases hstatus i with hsame | ⟨hnone, -⟩
    · exact Option.some.inj (hsame.symm.trans hi)
    · rw [hnone] at hi
      cases hi

/-- `pthread_create` fails. -/
theorem Alive.summarised_create (hD : D.Sound Ends) (h : s.Alive D tasks)
    (hlt : s.created < tasks.length) : Summarised m tasks fileSize Ends (.exited ⟨1, none, []⟩) := by
  obtain ⟨ends, schedule, hends, hs, -, hjoined, -⟩ := h.exists_ends hD
  refine ⟨fun i => decide (i ≠ s.created), false, ends, schedule, hends, hs, ?_⟩
  refine (clientMain_of_not_created (fun i _ hundefined => ?_) hlt (by simp)).symm
  obtain ⟨value, hvalue⟩ := hjoined i
  rw [hvalue] at hundefined
  cases hundefined

/-- The ends of all threads behind a call of thread `i`, which has ended in it without a value for
its join: the others have one. -/
theorem Alive.exists_ends_called (hD : D.Sound Ends) (h : s.Alive D tasks) (hi : i < tasks.length)
    (hs : s.pool.step D.toWorker i a = some pool) {status : ThreadStatus}
    (hstatus : D.status (pool.workers i) = some status) : ∃ ends schedule,
      (∀ i, Ends (sizeOf tasks i) (ends i)) ∧ Interleaves tasks ends schedule ∧
      (ends i).status = status ∧ ∀ j, j ≠ i → ∃ value, (ends j).status = .joined value := by
  obtain ⟨w', -, -, hworkers⟩ := Pool.step_eq_some hs
  obtain ⟨ends, schedule, hends, hinter, -, hends'⟩ := (h.books.called hD hi hs).exists_ends hD
  refine ⟨ends, schedule, hends, hinter, ?_, fun j hji => ?_⟩
  · rcases hends' i with hsame | ⟨hnone, -⟩
    · exact Option.some.inj (hsame.symm.trans hstatus)
    · rw [hnone] at hstatus
      cases hstatus
  · rcases hends' j with hsame | ⟨-, hjoined⟩
    · rw [hworkers, Function.update_of_ne hji] at hsame
      exact h.joinable j _ hsame
    · exact hjoined

/-- Thread `i` calls `exit`. No other thread has done so before. -/
theorem Alive.summarised_exit (hD : D.Sound Ends) (h : s.Alive D tasks) (hi : i < tasks.length)
    (hs : s.pool.step D.toWorker i a = some pool) {exitCode : ℕ}
    (hexit : D.status (pool.workers i) = some (.process exitCode)) :
    Summarised m tasks fileSize Ends (.exited ⟨exitCode, none, []⟩) := by
  obtain ⟨ends, schedule, hends, hinter, hend, hothers⟩ := h.exists_ends_called hD hi hs hexit
  have hdef : ∀ j < tasks.length, (ends j).status ≠ .undefined := by
    intro j _ hundefined
    by_cases hji : j = i
    · rw [hji, hend] at hundefined
      cases hundefined
    · obtain ⟨value, hvalue⟩ := hothers j hji
      rw [hvalue] at hundefined
      cases hundefined
  refine ⟨fun _ => true, false, ends, schedule, hends, hinter, ?_⟩
  obtain ⟨j, exitCode', hj, hmain⟩ : ∃ j exitCode', (ends j).status = .process exitCode' ∧
      clientMain m (some tasks) fileSize (fun _ => true) false ends schedule =
        if false && !m.spare then .undefined else .exited ⟨exitCode', none, []⟩ :=
    clientMain_of_exit hdef (fun _ _ => rfl) hi hend
  have hcode : exitCode' = exitCode := by
    by_cases hji : j = i
    · rw [hji, hend] at hj
      exact (ThreadStatus.process.inj hj).symm
    · obtain ⟨value, hvalue⟩ := hothers j hji
      rw [hvalue] at hj
      cases hj
  rw [hmain, hcode, Bool.false_and, if_neg Bool.false_ne_true]

/-- Thread `i` comes to a call without defined behaviour. -/
theorem Alive.summarised_undefined (hD : D.Sound Ends) (h : s.Alive D tasks)
    (hi : i < tasks.length) (hs : s.pool.step D.toWorker i a = some pool)
    (hundefined : D.status (pool.workers i) = some .undefined) :
    Summarised m tasks fileSize Ends .undefined := by
  obtain ⟨ends, schedule, hends, hinter, hend, -⟩ := h.exists_ends_called hD hi hs hundefined
  exact ⟨fun _ => true, false, ends, schedule, hends, hinter, (clientMain_of_undefined hi hend).symm⟩

/-- What `main` makes of the threads of a process that is alive. -/
theorem Alive.exists_main (hD : D.Sound Ends) (h : s.Alive D tasks) : ∃ ends schedule,
    (∀ i, Ends (sizeOf tasks i) (ends i)) ∧ Interleaves tasks ends schedule ∧
    (∀ i status, D.status (s.pool.workers i) = some status → (ends i).status = status) ∧
    clientMain m (some tasks) fileSize (fun _ => true) true ends schedule =
      if m.allows tasks.length then
        .exited ⟨0, some (slots s.memory fileSize),
          (List.range tasks.length).filter (reported ends)⟩
      else .undefined := by
  obtain ⟨ends, schedule, hends, hs, hmemory, hjoined, hsame⟩ := h.exists_ends hD
  refine ⟨ends, schedule, hends, hs, hsame, ?_⟩
  rw [hmemory]
  refine clientMain_of_joined ?_ (fun _ _ => rfl) ?_
  · intro i _ hundefined
    obtain ⟨value, hvalue⟩ := hjoined i
    rw [hvalue] at hundefined
    cases hundefined
  · intro i _ exitCode hexit
    obtain ⟨value, hvalue⟩ := hjoined i
    rw [hvalue] at hexit
    cases hexit

/-- A join stores behind `thread_status`. -/
theorem Alive.summarised_join (hD : D.Sound Ends) (h : s.Alive D tasks) (hn : 0 < tasks.length)
    (hspare : m.spare = false) : Summarised m tasks fileSize Ends .undefined := by
  obtain ⟨ends, schedule, hends, hs, -, hmain⟩ := h.exists_main (m := m) hD
  refine ⟨fun _ => true, true, ends, schedule, hends, hs, ?_⟩
  rw [hmain, if_neg]
  simp [Machine.allows, hspare, hn.ne']

/-- All threads are joined and the file is written. -/
theorem Alive.summarised_write (hD : D.Sound Ends) (h : s.Alive D tasks)
    (hjoined : s.joined = tasks.length) :
    Summarised m tasks fileSize Ends (if m.allows tasks.length then
      .exited ⟨0, some (slots s.memory fileSize), s.failed⟩ else .undefined) := by
  obtain ⟨ends, schedule, hends, hs, hsame, hmain⟩ := h.exists_main (m := m) hD
  have hfailed : s.failed = (List.range tasks.length).filter (reported ends) := by
    rw [h.failed, hjoined]
    apply List.filter_congr
    intro i hi
    rw [← hjoined] at hi
    obtain ⟨status, hstatus⟩ :=
      Option.ne_none_iff_exists'.mp (h.finished i (List.mem_range.mp hi))
    obtain ⟨value, rfl⟩ := h.joinable i _ hstatus
    rw [hstatus, reported, hsame i _ hstatus]
    simp
  refine ⟨fun _ => true, true, ends, schedule, hends, hs, ?_⟩
  rw [hmain, hfailed]

theorem Alive.call (hD : D.Sound Ends) (h : s.Alive D tasks) (hi : i < s.created)
    (hs : s.pool.step D.toWorker i a = some pool)
    (hjoinable : ∀ status, D.status (pool.workers i) = some status → ∃ value, status = .joined value) :
    Alive D tasks { s with pool := pool, memory := s.memoryAfter D tasks i a } := by
  obtain ⟨w', hw, -, hworkers⟩ := Pool.step_eq_some hs
  have hkeep {j : ℕ} (hj : j ≠ i) : pool.workers j = s.pool.workers j := by
    rw [hworkers, Function.update_of_ne hj]
  -- a thread that makes a call has not ended, so it is not one of those that are joined
  have hne {j : ℕ} (hj : j < s.joined) : j ≠ i := by
    rintro rfl
    rw [hD.finished _ _ (h.finished j hj)] at hw
    exact absurd hw.symm (Option.some_ne_none _)
  refine ⟨h.books.called hD (by have := h.created; omega) hs, h.created, h.joined,
    h.guarded.step hs, ?_, ?_, ?_, ?_⟩
  · intro j hj
    change s.created ≤ j at hj
    change pool.workers j = _
    rw [hkeep (by omega), h.waiting j hj]
  · intro j status hj
    change D.status (pool.workers j) = _ at hj
    by_cases hji : j = i
    · subst hji
      exact hjoinable status hj
    · rw [hkeep hji] at hj
      exact h.joinable j status hj
  · intro j hj
    change D.status (pool.workers j) ≠ none
    rw [hkeep (hne hj)]
    exact h.finished j hj
  · change s.failed = _
    rw [h.failed]
    apply List.filter_congr
    intro j hj
    change _ = decide (D.status (pool.workers j) ≠ _)
    rw [hkeep (hne (List.mem_range.mp hj))]

theorem Alive.join (h : s.Alive D tasks) (hlt : s.joined < s.created) {status : ℕ}
    (hstatus : D.status (s.pool.workers s.joined) = some (.joined status)) :
    Alive D tasks (s.joins status) := by
  refine ⟨h.books, h.created, hlt, h.guarded, h.waiting, h.joinable, ?_, ?_⟩
  · intro j hj
    rcases Nat.lt_succ_iff_lt_or_eq.mp hj with hj | rfl
    · exact h.finished j hj
    · change D.status (s.pool.workers s.joined) ≠ none
      rw [hstatus]
      exact Option.some_ne_none _
  · change (if status = 0 then s.failed else s.failed ++ [s.joined]) =
      (List.range (s.joined+1)).filter _
    have hsame (i : ℕ) : (s.joins status).pool.workers i = s.pool.workers i := rfl
    simp only [hsame]
    rw [List.range_succ, List.filter_append, ← h.failed]
    by_cases hzero : status = 0 <;> simp [hstatus, hzero]

theorem Alive.create (h : s.Alive D tasks) (hlt : s.created < tasks.length) :
    Alive D tasks { s with created := s.created+1 } where
  books := h.books
  created := hlt
  joined := h.joined.trans (Nat.le_succ _)
  guarded := h.guarded
  waiting i hi := h.waiting i (Nat.le_of_succ_le hi)
  joinable := h.joinable
  finished := h.finished
  failed := h.failed

/-- A step leads to a process that goes on, or to an end of `clientMain`. -/
theorem Alive.step (hD : D.Sound Ends) (h : s.Alive D tasks) {act : ProcessAction α}
    (hs : s.step D m tasks fileSize act = some t) :
    (t.ending = none ∧ t.Alive D tasks) ∨
      ∃ ending, t.ending = some ending ∧ Summarised m tasks fileSize Ends ending := by
  cases act with
  | create ok =>
    obtain ⟨⟨hnone, hlt⟩, rfl⟩ := Option.ite_none_right_eq_some.mp hs |>.imp_right Option.some.inj
    cases ok with
    | true => exact Or.inl ⟨hnone, h.create hlt⟩
    | false => exact Or.inr ⟨_, rfl, h.summarised_create hD hlt⟩
  | call i a =>
    obtain ⟨⟨hnone, hi⟩, hs⟩ := Option.ite_none_right_eq_some.mp hs
    obtain ⟨pool, hpool, rfl⟩ := Option.map_eq_some_iff.mp hs
    rw [called]
    split
    · rename_i exitCode hexit
      exact Or.inr ⟨_, rfl, h.summarised_exit hD (by have := h.created; omega) hpool hexit⟩
    · rename_i hundefined
      exact Or.inr ⟨_, rfl, h.summarised_undefined hD (by have := h.created; omega) hpool hundefined⟩
    · rename_i hexit hundefined
      refine Or.inl ⟨hnone, h.call hD hi hpool fun status hstatus => ?_⟩
      cases status with
      | joined value => exact ⟨value, rfl⟩
      | process exitCode => exact absurd hstatus (hexit exitCode)
      | undefined => exact absurd hstatus hundefined
  | join =>
    obtain ⟨⟨hnone, hall, hlt⟩, hs⟩ := Option.ite_none_right_eq_some.mp hs
    split at hs
    · rename_i status hstatus
      rw [← Option.some.inj hs]
      cases hspare : m.spare with
      | true => exact Or.inl ⟨hnone, h.join (by omega) hstatus⟩
      | false => exact Or.inr ⟨_, rfl, h.summarised_join hD (by omega) hspare⟩
    · exact absurd hs.symm (Option.some_ne_none _)
  | write =>
    obtain ⟨⟨hnone, -, hjoined⟩, rfl⟩ :=
      Option.ite_none_right_eq_some.mp hs |>.imp_right Option.some.inj
    exact Or.inr ⟨_, rfl, h.summarised_write hD hjoined⟩

theorem not_step_of_ended {act : ProcessAction α} (h : s.ending ≠ none) :
    s.step D m tasks fileSize act = none := by
  cases act <;> simp [ClientProcess.step, h]

/-- In every run the process is alive or has ended as `clientMain` can end. -/
theorem alive_or_summarised (hD : D.Sound Ends)
    (h : Reachable (ClientProcess.step D m tasks fileSize) anyStep (start D tasks) s) :
    (s.ending = none ∧ s.Alive D tasks) ∨
      ∃ ending, s.ending = some ending ∧ Summarised m tasks fileSize Ends ending := by
  refine h.invariant (P := fun s : ClientProcess σ => (s.ending = none ∧ s.Alive D tasks) ∨
    ∃ ending, s.ending = some ending ∧ Summarised m tasks fileSize Ends ending)
    (Or.inl ⟨rfl, alive_start hD⟩) ?_
  rintro s act t (⟨-, halive⟩ | ⟨ending, hended, -⟩) - hs
  · exact halive.step hD hs
  · have hnot : s.step D m tasks fileSize act = none :=
      not_step_of_ended (by rw [hended]; exact Option.some_ne_none _)
    rw [hnot] at hs
    exact absurd hs.symm (Option.some_ne_none _)

theorem alive_of_reachable (hD : D.Sound Ends)
    (h : Reachable (ClientProcess.step D m tasks fileSize) anyStep (start D tasks) s)
    (hnone : s.ending = none) : s.Alive D tasks := by
  rcases alive_or_summarised hD h with ⟨-, halive⟩ | ⟨ending, hended, -⟩
  · exact halive
  · rw [hnone] at hended
    exact absurd hended.symm (Option.some_ne_none _)

end ClientProcess

/-- Every call that meets `C` brings its thread nearer to its end, and a thread that runs has
one. -/
structure Downloader.Settles (D : Downloader σ α) (C : α → Prop) (rank : σ → ℕ) : Prop where
  falls : ∀ n w a w', Reachable D.step anyStep (D.start n) w → C a → D.step w a = some w' →
    rank w' < rank w
  moves : ∀ w, D.status w = none → ∃ a w', C a ∧ D.step w a = some w'

/-- The condition `C` on the calls of the threads. -/
def ProcessAction.Meets (C : α → Prop) : ProcessAction α → Prop
  | .call _ a => C a
  | _ => True

instance (C : α → Prop) [DecidablePred C] : ∀ act : ProcessAction α, Decidable (act.Meets C)
  | .call _ a => inferInstanceAs (Decidable (C a))
  | .create _ | .join | .write => inferInstanceAs (Decidable True)

namespace ClientProcess

/-- A bound for the steps to the end: what the threads have left, the threads to be created and
joined, and the end itself. -/
def stepsLeft (rank : σ → ℕ) (s : ClientProcess σ) : ℕ :=
  (∑ i ∈ Finset.range tasks.length, rank (s.pool.workers i)) + (tasks.length-s.created) +
    (tasks.length-s.joined) + (if s.ending = none then 1 else 0)

variable {D m tasks fileSize} {Ends : ℕ → ThreadEnd → Prop} {C : α → Prop} {rank : σ → ℕ}
  {s t : ClientProcess σ} {pool : Pool σ} {i : ℕ} {a : α}

theorem stepsLeft_ended (hnone : s.ending = none) (ending : Ending) :
    stepsLeft tasks rank (s.ended ending)+1 = stepsLeft tasks rank s := by
  simp [stepsLeft, ended, hnone]

theorem Alive.stepsLeft_call (hR : D.Settles C rank) (h : s.Alive D tasks) (hC : C a)
    (hi : i < tasks.length) (hs : s.pool.step D.toWorker i a = some pool)
    (hnone : s.ending = none) :
    stepsLeft tasks rank (s.called D tasks i a pool) < stepsLeft tasks rank s := by
  obtain ⟨w', hw, -, hworkers⟩ := Pool.step_eq_some hs
  have hsum : ∑ j ∈ Finset.range tasks.length, rank (pool.workers j) <
      ∑ j ∈ Finset.range tasks.length, rank (s.pool.workers j) := by
    apply sum_rank_lt hi
    · rw [hworkers, Function.update_self]
      exact hR.falls _ _ _ _ (h.books.runs i) hC hw
    · intro j hj
      rw [hworkers, Function.update_of_ne hj]
  -- a thread that ends the process takes the step to the end as well
  let u : ClientProcess σ := { s with pool := pool, memory := s.memoryAfter D tasks i a }
  have hu : stepsLeft tasks rank u < stepsLeft tasks rank s := by
    simp only [stepsLeft, u]
    omega
  have hended (ending : Ending) : stepsLeft tasks rank (u.ended ending) < stepsLeft tasks rank s := by
    have hunone : u.ending = none := hnone
    exact lt_trans (Nat.lt_of_succ_le (stepsLeft_ended hunone ending).le) hu
  rw [called]
  split
  · exact hended _
  · exact hended _
  · exact hu

theorem Alive.stepsLeft_lt (hR : D.Settles C rank) (h : s.Alive D tasks) {act : ProcessAction α}
    (hC : act.Meets C) (hs : s.step D m tasks fileSize act = some t) :
    stepsLeft tasks rank t < stepsLeft tasks rank s := by
  have hcreated := h.created
  cases act with
  | create ok =>
    obtain ⟨⟨hnone, hlt⟩, rfl⟩ := Option.ite_none_right_eq_some.mp hs |>.imp_right Option.some.inj
    cases ok with
    | true =>
      simp only [stepsLeft, hnone, if_true]
      omega
    | false => exact Nat.lt_of_succ_le (stepsLeft_ended hnone _).le
  | call i a =>
    obtain ⟨⟨hnone, hi⟩, hs⟩ := Option.ite_none_right_eq_some.mp hs
    obtain ⟨pool, hpool, rfl⟩ := Option.map_eq_some_iff.mp hs
    exact h.stepsLeft_call hR hC (by omega) hpool hnone
  | join =>
    obtain ⟨⟨hnone, hall, hlt⟩, hs⟩ := Option.ite_none_right_eq_some.mp hs
    split at hs
    · rw [← Option.some.inj hs]
      cases m.spare with
      | true =>
        simp only [stepsLeft, joins, hnone, if_true]
        omega
      | false => exact Nat.lt_of_succ_le (stepsLeft_ended hnone _).le
    · exact absurd hs.symm (Option.some_ne_none _)
  | write =>
    obtain ⟨⟨hnone, -, hjoined⟩, rfl⟩ :=
      Option.ite_none_right_eq_some.mp hs |>.imp_right Option.some.inj
    exact Nat.lt_of_succ_le (stepsLeft_ended hnone _).le

/-- A process that is not over can go on: a thread that runs, the one with the lock if there is one;
without such a thread `main`. -/
theorem Alive.exists_step (hD : D.Sound Ends) (hR : D.Settles C rank) (h : s.Alive D tasks)
    (hnone : s.ending = none) : ∃ act t, act.Meets C ∧ s.step D m tasks fileSize act = some t := by
  by_cases hrunning : ∃ i, i < s.created ∧ D.status (s.pool.workers i) = none
  · obtain ⟨i, hi⟩ := hrunning
    have hholds (j : ℕ) (hj : D.holds (s.pool.workers j) = true) :
        j < s.created ∧ D.status (s.pool.workers j) = none := by
      constructor
      · by_contra hnot
        rw [h.waiting j (Nat.not_lt.mp hnot), hD.free_start] at hj
        exact Bool.false_ne_true hj
      · by_contra hnot
        rw [hD.released _ hnot] at hj
        exact Bool.false_ne_true hj
    have hmoves (j : ℕ) (hj : j < s.created ∧ D.status (s.pool.workers j) = none) :
        ∃ a w', C a ∧ D.step (s.pool.workers j) a = some w' := hR.moves _ hj.2
    obtain ⟨j, a, pool, hj, hC, hpool⟩ := h.guarded.exists_step hmoves hholds hi
    refine ⟨.call j a, s.called D tasks j a pool, hC, ?_⟩
    rw [ClientProcess.step, if_pos ⟨hnone, hj.1⟩, hpool, Option.map_some]
  · have hall (i : ℕ) (hi : i < s.created) : D.status (s.pool.workers i) ≠ none :=
      fun hrun => hrunning ⟨i, hi, hrun⟩
    have hcreated := h.created
    by_cases hmore : s.created < tasks.length
    · exact ⟨.create true, _, trivial, if_pos ⟨hnone, hmore⟩⟩
    · by_cases hjoin : s.joined < tasks.length
      · have hover := hall s.joined (by omega)
        cases hstatus : D.status (s.pool.workers s.joined) with
        | none => exact absurd hstatus hover
        | some status =>
          obtain ⟨value, rfl⟩ := h.joinable _ _ hstatus
          refine ⟨.join, if m.spare then s.joins value else s.ended .undefined, trivial, ?_⟩
          rw [ClientProcess.step, if_pos ⟨hnone, by omega, hjoin⟩, hstatus]
      · have hjoined := h.joined
        exact ⟨.write, _, trivial, if_pos ⟨hnone, by omega, by omega⟩⟩

/-- From every state that a run has reached, the process ends after a bounded number of steps that
meet the condition, and until then it has such a step. -/
theorem ends_after [DecidablePred C] (hD : D.Sound Ends) (hR : D.Settles C rank)
    (h : Reachable (ClientProcess.step D m tasks fileSize) anyStep (start D tasks) s)
    {run : List (ProcessAction α)}
    (hrun : replayIf (ClientProcess.step D m tasks fileSize) (fun _ act => act.Meets C) s run =
      some t) :
    run.length+stepsLeft tasks rank t ≤ stepsLeft tasks rank s ∧
      (t.ending = none → ∃ act u, act.Meets C ∧ t.step D m tasks fileSize act = some u) := by
  -- a step keeps the process alive or ends it, and either way there is less left
  have hstep (s : ClientProcess σ) (act : ProcessAction α) (t : ClientProcess σ)
      (halive : s.ending = none → s.Alive D tasks) (hC : act.Meets C)
      (hs : s.step D m tasks fileSize act = some t) :
      (t.ending = none → t.Alive D tasks) ∧ stepsLeft tasks rank t < stepsLeft tasks rank s := by
    by_cases hnone : s.ending = none
    · refine ⟨fun htnone => ?_, (halive hnone).stepsLeft_lt hR hC hs⟩
      rcases (halive hnone).step hD hs with ⟨-, ht⟩ | ⟨ending, hended, -⟩
      · exact ht
      · rw [hended] at htnone
        exact absurd htnone (Option.some_ne_none _)
    · rw [not_step_of_ended hnone] at hs
      exact absurd hs.symm (Option.some_ne_none _)
  obtain ⟨ht, hlength⟩ :=
    replayIf_spends (stepsLeft tasks rank) hstep (alive_of_reachable hD h) hrun
  exact ⟨hlength, fun hnone => (ht hnone).exists_step hD hR hnone⟩

end ClientProcess

/-- The steps left at the beginning, when a thread has a bound that grows with its task. -/
theorem stepsLeft_start_le {D : Downloader σ α} {tasks : List DownloadTask} {rank : σ → ℕ}
    {bound : ℕ → ℕ} (hrank : ∀ n, rank (D.start n) ≤ bound n) :
    ClientProcess.stepsLeft tasks rank (ClientProcess.start D tasks) ≤
      (∑ i ∈ Finset.range tasks.length, bound (sizeOf tasks i))+2*tasks.length+1 := by
  have hsum : ∑ i ∈ Finset.range tasks.length, rank ((ClientProcess.start D tasks).pool.workers i) ≤
      ∑ i ∈ Finset.range tasks.length, bound (sizeOf tasks i) := by
    apply Finset.sum_le_sum
    intro i _
    exact hrank (sizeOf tasks i)
  have hleft : ClientProcess.stepsLeft tasks rank (ClientProcess.start D tasks) =
      (∑ i ∈ Finset.range tasks.length, rank ((ClientProcess.start D tasks).pool.workers i)) +
        tasks.length+tasks.length+1 := rfl
  omega

theorem toSSize_toNat_le (n : ℕ) : (toSSize n).toNat ≤ n := by
  have hle (m : ℕ) : Int.bmod n m ≤ n := by
    have hmod : (n : Int)%m ≤ n := by
      rw [← Int.natCast_mod, Nat.cast_le]
      exact Nat.mod_le n m
    rw [Int.bmod]
    split_ifs <;> omega
  exact Int.toNat_le.mpr (hle (2^64))

end

end NetTools.Download
