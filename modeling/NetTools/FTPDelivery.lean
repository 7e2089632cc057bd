import NetTools.ChunkPlan
import Mathlib.Data.List.Infix
import Mathlib.Data.List.Flatten

namespace NetTools.FTP

open Download

/-- The ways in which `download_chunk` of `ftp/client.c` ends. -/
inductive Exit
  | socketFailed
  | unableToConnect
  | writeFailed
  | recvFailed
  | moreThanExpected
  | success
  deriving DecidableEq

/-- The status that the join sees. A thread that receives everything returns without a
value, so its status is whatever is in the return register. -/
def Exit.status (stray : ℕ) : Exit → ThreadStatus
  | socketFailed | unableToConnect | writeFailed | moreThanExpected => .joined 0
  | recvFailed => .joined 1
  | success => .joined stray

/-- The value of `retries` after the connect loop, for the results of the successive
calls of `connect`; when they are used up every further call fails. -/
def connectLoop (retries : ℕ) : List Bool → ℕ
  | [] => 0
  | true :: _ => retries
  | false :: rest => if 0 < retries then connectLoop (retries-1) rest else retries

/-- `while (bytes_remaining > 0)`, for the results of the successive calls of `recv`; no
data stands for a result that is not positive, also after the list. `recv` stores what
it returns before the check of its length. -/
def recvLoop (bytesRemaining : Int) : List Bytes → Exit × List Bytes
  | [] => if 0 < bytesRemaining then (.recvFailed, []) else (.success, [])
  | data :: rest =>
    if 0 < bytesRemaining then
      if data = [] then (.recvFailed, [])
      else if data.length > bytesRemaining then (.moreThanExpected, [data])
      else
        let (exit, copied) := recvLoop (bytesRemaining-data.length) rest
        (exit, data :: copied)
    else (.success, [])

/-- What all the calls of `download_chunk` return. -/
structure Calls where
  socket : Bool
  connects : List Bool
  write : Bool
  recvs : List Bytes
  stray : ℕ

def downloadChunk (size : ℕ) (calls : Calls) : Exit × List Bytes :=
  if calls.socket = false then (.socketFailed, [])
  else if connectLoop 3 calls.connects = 0 then (.unableToConnect, [])
  else if calls.write = false then (.writeFailed, [])
  else recvLoop (toSSize size) calls.recvs

def planTasks : ServerInfo → Bytes → ℕ → Int → Option (List DownloadTask) := Download.planTasks

def threadEnd (size : ℕ) (calls : Calls) : ThreadEnd :=
  let (exit, copied) := downloadChunk size calls
  ⟨exit.status calls.stray, copied⟩

/-- The chunk arrives: a socket, a connection in the first three attempts, the request
sent, and data for the whole chunk before `recv` fails. -/
structure Delivers (size : ℕ) (calls : Calls) : Prop where
  socket : calls.socket = true
  connect : true ∈ calls.connects.take 3
  write : calls.write = true
  data : ∃ k, (∀ data ∈ calls.recvs.take k, data ≠ []) ∧
    (calls.recvs.take k).flatten.length = size

/-- The thread comes to its receive loop. -/
structure Starts (calls : Calls) : Prop where
  socket : calls.socket = true
  connect : true ∈ calls.connects.take 3
  write : calls.write = true

/-- Data for `n` bytes comes before `recv` gives none. -/
def Arrives (n : ℕ) (recvs : List Bytes) : Prop :=
  ∃ k, (∀ data ∈ recvs.take k, data ≠ []) ∧ (recvs.take k).flatten.length = n

/-- With some of `n` bytes missing `recv` gives more than is missing. -/
def Overruns (n : ℕ) (recvs : List Bytes) : Prop :=
  ∃ k, (∀ data ∈ recvs.take k, data ≠ []) ∧ (recvs.take k).flatten.length < n ∧
    n < (recvs.take (k+1)).flatten.length

/-- The ways in which the receive loop ends, each with what it needs and what it leaves. -/
inductive LoopEnd (n : ℕ) (recvs : List Bytes) : Exit × List Bytes → Prop
  | success {copied : List Bytes} (arrives : Arrives n recvs) (fits : ¬ Overruns n recvs)
      (received : copied.flatten.length = n) : LoopEnd n recvs (.success, copied)
  | moreThanExpected {copied : List Bytes} (overruns : Overruns n recvs)
      (received : n < copied.flatten.length) : LoopEnd n recvs (.moreThanExpected, copied)
  | recvFailed {copied : List Bytes} (missing : ¬ Arrives n recvs) (fits : ¬ Overruns n recvs)
      (received : copied.flatten.length < n) : LoopEnd n recvs (.recvFailed, copied)

theorem connectLoop_ne_zero (retries : ℕ) (connects : List Bool) :
    connectLoop retries connects ≠ 0 ↔ true ∈ connects.take retries := by
  induction connects generalizing retries with
  | nil => simp [connectLoop]
  | cons c rest ih =>
    cases retries with
    | zero => cases c <;> simp [connectLoop]
    | succ n => cases c <;> simp [connectLoop, ih]

section

variable {n size : ℕ} {data : Bytes} {rest recvs : List Bytes} {calls : Calls}

theorem downloadChunk_of_starts (h : Starts calls) :
    downloadChunk size calls = recvLoop (toSSize size) calls.recvs := by
  have hconnect := (connectLoop_ne_zero 3 calls.connects).mpr h.connect
  rw [downloadChunk, h.socket, h.write, if_neg Bool.true_eq_false.mp, if_neg hconnect,
    if_neg Bool.true_eq_false.mp]

/-- Every exit before the receive loop is `pthread_exit(NULL)`. -/
theorem downloadChunk_of_not_starts (size : ℕ) (h : ¬ Starts calls) :
    (∀ stray, (downloadChunk size calls).1.status stray = .joined 0) ∧
      (downloadChunk size calls).2 = [] := by
  have hconnect := connectLoop_ne_zero 3 calls.connects
  rw [downloadChunk]
  split_ifs with hsocket hconn hwrite
  · exact ⟨fun _ => rfl, rfl⟩
  · exact ⟨fun _ => rfl, rfl⟩
  · exact ⟨fun _ => rfl, rfl⟩
  · rw [Bool.not_eq_false] at hsocket hwrite
    exact absurd ⟨hsocket, hconnect.mp hconn, hwrite⟩ h

theorem arrives_zero (recvs : List Bytes) : Arrives 0 recvs := ⟨0, by simp, rfl⟩

theorem not_overruns_zero (recvs : List Bytes) : ¬ Overruns 0 recvs := by
  rintro ⟨k, -, hlt, -⟩
  exact Nat.not_lt_zero _ hlt

/-- A stream no longer than the chunk does not overrun it. -/
theorem not_overruns_of_length_le (h : recvs.flatten.length ≤ n) : ¬ Overruns n recvs := by
  rintro ⟨k, -, -, hmore⟩
  have hle := (List.take_sublist (k+1) recvs).flatten.length_le
  omega

theorem arrives_cons (hn : 0 < n) :
    Arrives n (data :: rest) ↔
      data ≠ [] ∧ data.length ≤ n ∧ Arrives (n-data.length) rest := by
  constructor
  · rintro ⟨k, hne, hlen⟩
    cases k with
    | zero => exact absurd hlen hn.ne
    | succ k =>
      rw [List.take_succ_cons, List.forall_mem_cons] at hne
      rw [List.take_succ_cons, List.flatten_cons, List.length_append] at hlen
      exact ⟨hne.1, by omega, k, hne.2, by omega⟩
  · rintro ⟨hdata, hle, k, hne, hlen⟩
    refine ⟨k+1, ?_, ?_⟩
    · rw [List.take_succ_cons, List.forall_mem_cons]
      exact ⟨hdata, hne⟩
    · rw [List.take_succ_cons, List.flatten_cons, List.length_append]
      omega

theorem overruns_cons (hn : 0 < n) :
    Overruns n (data :: rest) ↔
      n < data.length ∨ data ≠ [] ∧ data.length ≤ n ∧ Overruns (n-data.length) rest := by
  constructor
  · rintro ⟨k, hne, hlt, hmore⟩
    rw [List.take_succ_cons, List.flatten_cons, List.length_append] at hmore
    cases k with
    | zero =>
      rw [List.take_zero, List.flatten_nil, List.length_nil] at hmore
      exact Or.inl hmore
    | succ k =>
      rw [List.take_succ_cons, List.forall_mem_cons] at hne
      rw [List.take_succ_cons, List.flatten_cons, List.length_append] at hlt
      exact Or.inr ⟨hne.1, by omega, k, hne.2, by omega, by omega⟩
  · rintro (hmore | ⟨hdata, hle, k, hne, hlt, hmore⟩)
    · refine ⟨0, by simp, hn, ?_⟩
      rw [List.take_succ_cons, List.take_zero, List.flatten_singleton]
      exact hmore
    · refine ⟨k+1, ?_, ?_, ?_⟩
      · rw [List.take_succ_cons, List.forall_mem_cons]
        exact ⟨hdata, hne⟩
      · rw [List.take_succ_cons, List.flatten_cons, List.length_append]
        omega
      · rw [List.take_succ_cons, List.flatten_cons, List.length_append]
        omega

/-- The loop goes on behind a piece that fits. -/
theorem LoopEnd.cons {result : Exit × List Bytes} (hn : 0 < n) (hdata : data ≠ [])
    (hle : data.length ≤ n) (h : LoopEnd (n-data.length) rest result) :
    LoopEnd n (data :: rest) (result.1, data :: result.2) := by
  have hlen (copied : List Bytes) :
      (data :: copied).flatten.length = data.length+copied.flatten.length := by
    rw [List.flatten_cons, List.length_append]
  have hover : Overruns n (data :: rest) ↔ Overruns (n-data.length) rest := by
    rw [overruns_cons hn]
    constructor
    · rintro (hmore | ⟨-, -, h⟩)
      · omega
      · exact h
    · exact fun h => Or.inr ⟨hdata, hle, h⟩
  cases h with
  | @success copied harrives hfits hreceived =>
    refine .success ((arrives_cons hn).mpr ⟨hdata, hle, harrives⟩) (hover.not.mpr hfits) ?_
    rw [hlen copied]
    omega
  | @moreThanExpected copied hoverruns hreceived =>
    refine .moreThanExpected (hover.mpr hoverruns) ?_
    rw [hlen copied]
    omega
  | @recvFailed copied hmissing hfits hreceived =>
    refine .recvFailed ?_ (hover.not.mpr hfits) ?_
    · rw [arrives_cons hn]
      exact fun h => hmissing h.2.2
    · rw [hlen copied]
      omega

theorem loopEnd_recvLoop (n : ℕ) (recvs : List Bytes) : LoopEnd n recvs (recvLoop n recvs) := by
  induction recvs generalizing n with
  | nil =>
    rcases Nat.eq_zero_or_pos n with rfl | hn
    · exact .success (arrives_zero []) (not_overruns_zero []) rfl
    · rw [recvLoop, if_pos (by omega)]
      refine .recvFailed ?_ ?_ hn
      · rintro ⟨k, -, hlen⟩
        rw [List.take_nil] at hlen
        exact hn.ne hlen
      · rintro ⟨k, -, -, hmore⟩
        rw [List.take_nil] at hmore
        exact Nat.not_lt_zero _ hmore
  | cons data rest ih =>
    rcases Nat.eq_zero_or_pos n with rfl | hn
    · exact .success (arrives_zero _) (not_overruns_zero _) rfl
    · rw [recvLoop, if_pos (by omega)]
      split_ifs with hdata hmore
      · subst hdata
        refine .recvFailed ?_ ?_ hn
        · rw [arrives_cons hn]
          exact fun h => h.1 rfl
        · rw [overruns_cons hn]
          rintro (h | ⟨h, -⟩)
          · exact Nat.not_lt_zero _ h
          · exact h rfl
      · refine .moreThanExpected ((overruns_cons hn).mpr (Or.inl (by omega))) ?_
        rw [List.flatten_singleton]
        omega
      · have hle : data.length ≤ n := by omega
        have hrest := (ih (n-data.length)).cons hn hdata hle
        rw [Nat.cast_sub hle] at hrest
        exact hrest

theorem recvLoop_of_nonpos {remaining : Int} (h : remaining ≤ 0) (recvs : List Bytes) :
    recvLoop remaining recvs = (.success, []) := by
  cases recvs <;> rw [recvLoop, if_neg (by omega)]

/-- What is stored is a beginning of what arrives. -/
theorem recvLoop_beginning (remaining : Int) (recvs : List Bytes) :
    (recvLoop remaining recvs).2.flatten <+: recvs.flatten := by
  induction recvs generalizing remaining with
  | nil =>
    rw [recvLoop]
    split_ifs <;> exact List.prefix_refl _
  | cons data rest ih =>
    rw [recvLoop]
    split_ifs
    · exact List.nil_prefix
    · rw [List.flatten_singleton, List.flatten_cons]
      exact List.prefix_append data _
    · rw [List.flatten_cons, List.flatten_cons]
      exact (List.prefix_append_right_inj data).mpr (ih _)
    · exact List.nil_prefix

/-- The receive loop stores the whole chunk exactly when enough data arrives before
`recv` fails. -/
theorem recvLoop_complete {s : Bytes} (h : recvs.flatten <+: s) :
    (recvLoop s.length recvs).2.flatten = s ↔ Arrives s.length recvs := by
  have hbegin := (recvLoop_beginning s.length recvs).trans h
  have hlen : (recvLoop s.length recvs).2.flatten = s ↔
      (recvLoop s.length recvs).2.flatten.length = s.length :=
    ⟨congrArg List.length, hbegin.eq_of_length⟩
  have hfits := not_overruns_of_length_le h.length_le
  have hend := loopEnd_recvLoop s.length recvs
  rw [hlen]
  generalize recvLoop s.length recvs = result at hend
  cases hend with
  | success harrives _ hreceived => exact iff_of_true hreceived harrives
  | moreThanExpected hoverruns => exact absurd hoverruns hfits
  | recvFailed hmissing _ hreceived => exact iff_of_false hreceived.ne hmissing

theorem downloadChunk_complete {s : Bytes} (hs : 0 < s.length) (hs' : s.length < 2^63)
    (h : calls.recvs.flatten <+: s) :
    (downloadChunk s.length calls).2.flatten = s ↔ Delivers s.length calls := by
  by_cases hstarts : Starts calls
  · rw [downloadChunk_of_starts hstarts, toSSize_natCast hs', recvLoop_complete h]
    constructor
    · intro hdata
      exact ⟨hstarts.socket, hstarts.connect, hstarts.write, hdata⟩
    · intro hd
      exact hd.data
  · rw [(downloadChunk_of_not_starts _ hstarts).2]
    refine iff_of_false ?_ ?_
    · rintro rfl
      exact Nat.lt_irrefl 0 hs
    · intro hd
      exact hstarts ⟨hd.socket, hd.connect, hd.write⟩

end

theorem status_ne_undefined (exit : Exit) (stray : ℕ) : exit.status stray ≠ .undefined := by
  cases exit <;> simp [Exit.status]

theorem status_ne_process (exit : Exit) (stray exitCode : ℕ) :
    exit.status stray ≠ .process exitCode := by
  cases exit <;> simp [Exit.status]

end NetTools.FTP
