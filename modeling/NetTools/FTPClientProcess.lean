import NetTools.ClientProcess
import NetTools.FTPServer

namespace NetTools.FTP

open CText Schedule Download

/-- Where a `download_chunk` is; `stray` is what it leaves in the return register. -/
inductive ChunkPlace
  | opening
  | connecting (retries : ℕ)
  | connected
  | receiving
  | ended (e : Exit) (stray : ℕ)
  deriving DecidableEq

structure ChunkThread where
  place : ChunkPlace
  bytesRemaining : Int
  outputPtr : ℕ
  copied : List Bytes

/-- The calls of a thread with their results. No data stands for a result of `recv` that is not
positive. -/
inductive ChunkCall
  | socket (ok : Bool)
  | connect (ok : Bool)
  | write (ok : Bool)
  | recv (data : Bytes)
  | finish (stray : ℕ)

namespace ChunkThread

def start (size : ℕ) : ChunkThread := ⟨.opening, toSSize size, 0, []⟩

def goTo (t : ChunkThread) (place : ChunkPlace) : ChunkThread := { t with place := place }

def status (t : ChunkThread) : Option ThreadStatus :=
  match t.place with
  | .ended e stray => some (e.status stray)
  | _ => none

/-- One turn of the connect loop; without retries left the thread gives up, also when it has just
connected. -/
def afterConnect (retries : ℕ) (ok : Bool) : ChunkPlace :=
  if retries = 0 then .ended .unableToConnect 0
  else if ok then .connected
  else .connecting (retries-1)

/-- One turn of the receive loop. -/
def received (t : ChunkThread) (data : Bytes) : ChunkThread :=
  if data = [] then t.goTo (.ended .recvFailed 0)
  else if data.length > t.bytesRemaining then
    { t with place := .ended .moreThanExpected 0, copied := t.copied ++ [data] }
  else
    { t with
      bytesRemaining := t.bytesRemaining-data.length
      outputPtr := t.outputPtr+data.length
      copied := t.copied ++ [data] }

/-- One call; `none` when it is not possible. -/
def step (t : ChunkThread) (call : ChunkCall) : Option ChunkThread :=
  match t.place, call with
  | .opening, .socket ok => some (t.goTo (if ok then .connecting 3 else .ended .socketFailed 0))
  | .connecting retries, .connect ok => some (t.goTo (afterConnect retries ok))
  | .connected, .write ok => some (t.goTo (if ok then .receiving else .ended .writeFailed 0))
  | .receiving, .recv data =>
    if 0 < t.bytesRemaining ∧ data.length ≤ bufferSize ∧ (data.length : Int) ≤ t.bytesRemaining then
      some (t.received data)
    else none
  | .receiving, .finish stray =>
    if 0 < t.bytesRemaining then none else some (t.goTo (.ended .success stray))
  | _, _ => none

/-- `recv` stores what it returns. -/
def stores (t : ChunkThread) (call : ChunkCall) : Option Bytes :=
  match t.place, call with
  | .receiving, .recv data => if data = [] then none else some data
  | _, _ => none

end ChunkThread

/-- The threads of `ftp/client.c`. -/
def chunkDownloader : Downloader ChunkThread ChunkCall where
  step := ChunkThread.step
  holds _ := false
  start := ChunkThread.start
  stores := ChunkThread.stores
  outputPtr := ChunkThread.outputPtr
  copied := ChunkThread.copied
  status := ChunkThread.status

/-- What each call does. -/
inductive ChunkStep (t : ChunkThread) : ChunkCall → ChunkThread → Prop
  | socket (hp : t.place = .opening) : ChunkStep t (.socket true) (t.goTo (.connecting 3))
  | socketFails (hp : t.place = .opening) :
    ChunkStep t (.socket false) (t.goTo (.ended .socketFailed 0))
  | connect {retries : ℕ} {ok : Bool} (hp : t.place = .connecting retries) :
    ChunkStep t (.connect ok) (t.goTo (ChunkThread.afterConnect retries ok))
  | write (hp : t.place = .connected) : ChunkStep t (.write true) (t.goTo .receiving)
  | writeFails (hp : t.place = .connected) :
    ChunkStep t (.write false) (t.goTo (.ended .writeFailed 0))
  | recvFails (hp : t.place = .receiving) (hmore : 0 < t.bytesRemaining) :
    ChunkStep t (.recv []) (t.goTo (.ended .recvFailed 0))
  | recv {data : Bytes} (hp : t.place = .receiving) (hmore : 0 < t.bytesRemaining)
    (hdata : data ≠ []) (hfits : (data.length : Int) ≤ t.bytesRemaining) : ChunkStep t (.recv data)
      ⟨.receiving, t.bytesRemaining-data.length, t.outputPtr+data.length, t.copied ++ [data]⟩
  | finish {stray : ℕ} (hp : t.place = .receiving) (hdone : ¬ 0 < t.bytesRemaining) :
    ChunkStep t (.finish stray) (t.goTo (.ended .success stray))

theorem chunkStep_of_step {t t' : ChunkThread} {call : ChunkCall} (h : t.step call = some t') :
    ChunkStep t call t' := by
  unfold ChunkThread.step at h
  split at h
  · rename_i ok hp
    cases ok <;> cases h
    · exact .socketFails hp
    · exact .socket hp
  · rename_i retries ok hp
    cases h
    exact .connect hp
  · rename_i ok hp
    cases ok <;> cases h
    · exact .writeFails hp
    · exact .write hp
  · rename_i data hp
    obtain ⟨⟨hmore, -, hfits⟩, h⟩ := Option.ite_none_right_eq_some.mp h
    cases h
    rw [ChunkThread.received]
    by_cases hdata : data = []
    · rw [if_pos hdata]
      subst hdata
      exact .recvFails hp hmore
    -- `recv` was not asked for more than remains
    · rw [if_neg hdata, if_neg (by omega), hp]
      exact .recv hp hmore hdata hfits
  · rename_i stray hp
    obtain ⟨hdone, h⟩ := Option.ite_none_left_eq_some.mp h
    cases h
    exact .finish hp hdone
  · exact absurd h.symm (Option.some_ne_none _)

/-- The connect loop is left with a connection, for some results of its calls. -/
def Connects (connects : List Bool) : Prop := connectLoop 3 connects ≠ 0

/-- The loop variables after some calls of `recv`: what is still to come decides how the loop goes
on. -/
def Reached (size : ℕ) (bytesRemaining : Int) (copied : List Bytes) : Prop :=
  ∃ recvs, ∀ rest, recvLoop (toSSize size) (recvs ++ rest) =
    ((recvLoop bytesRemaining rest).1, copied ++ (recvLoop bytesRemaining rest).2)

section

variable {size : ℕ} {bytesRemaining : Int} {copied : List Bytes}

theorem reached_start : Reached size (toSSize size) [] := ⟨[], fun _ => rfl⟩

theorem Reached.recv (h : Reached size bytesRemaining copied) (hmore : 0 < bytesRemaining)
    {data : Bytes} (hdata : data ≠ []) (hfits : (data.length : Int) ≤ bytesRemaining) :
    Reached size (bytesRemaining-data.length) (copied ++ [data]) := by
  obtain ⟨recvs, hrecvs⟩ := h
  refine ⟨recvs ++ [data], fun rest => ?_⟩
  have hloop : recvLoop bytesRemaining (data :: rest) =
      ((recvLoop (bytesRemaining-data.length) rest).1,
        data :: (recvLoop (bytesRemaining-data.length) rest).2) := by
    rw [recvLoop, if_pos hmore, if_neg hdata, if_neg (by omega)]
  rw [List.append_assoc, List.singleton_append, hrecvs, hloop, List.append_assoc]
  rfl

theorem downloadChunk_connected {connects : List Bool} (hc : Connects connects) (recvs : List Bytes)
    (stray : ℕ) : downloadChunk size ⟨true, connects, true, recvs, stray⟩ =
      recvLoop (toSSize size) recvs := by
  rw [Connects] at hc
  simp [downloadChunk, hc]

/-- The end of the loop, when nothing more is received. -/
theorem Reached.ends (h : Reached size bytesRemaining copied) {connects : List Bool}
    (hc : Connects connects) (stray : ℕ) :
    ∃ calls, calls.stray = stray ∧ downloadChunk size calls =
      (if 0 < bytesRemaining then .recvFailed else .success, copied) := by
  obtain ⟨recvs, hrecvs⟩ := h
  refine ⟨⟨true, connects, true, recvs, stray⟩, rfl, ?_⟩
  have hrest := hrecvs []
  rw [List.append_nil, recvLoop] at hrest
  rw [downloadChunk_connected hc, hrest]
  split_ifs <;> simp

end

namespace ChunkThread

/-- What can be told of a thread at its place. -/
def Told (size : ℕ) (t : ChunkThread) : Prop :=
  match t.place with
  | .opening => t.bytesRemaining = toSSize size ∧ t.copied = []
  | .connecting retries => t.bytesRemaining = toSSize size ∧ t.copied = [] ∧
      ∃ connects, ∀ rest, connectLoop 3 (connects ++ rest) = connectLoop retries rest
  | .connected => t.bytesRemaining = toSSize size ∧ t.copied = [] ∧ ∃ connects, Connects connects
  | .receiving => Reached size t.bytesRemaining t.copied ∧ ∃ connects, Connects connects
  | .ended e stray => ∃ calls, calls.stray = stray ∧ downloadChunk size calls = (e, t.copied)

variable {size : ℕ} {t t' : ChunkThread} {call : ChunkCall}

theorem told_connect {retries : ℕ} (ok : Bool) (hbytes : t.bytesRemaining = toSSize size)
    (hcopied : t.copied = []) {connects : List Bool}
    (hloop : ∀ rest, connectLoop 3 (connects ++ rest) = connectLoop retries rest) :
    (t.goTo (afterConnect retries ok)).Told size := by
  rw [afterConnect]
  split_ifs with hzero hok
  -- the loop ends without retries, whatever `connect` returned
  · refine ⟨⟨true, connects, true, [], 0⟩, rfl, ?_⟩
    have hnone : connectLoop 3 connects = 0 := by
      have hrest := hloop []
      rwa [List.append_nil, connectLoop] at hrest
    change _ = (Exit.unableToConnect, t.copied)
    rw [hcopied]
    simp [downloadChunk, hnone]
  · refine ⟨hbytes, hcopied, connects ++ [true], ?_⟩
    rw [Connects, hloop, connectLoop]
    exact hzero
  · refine ⟨hbytes, hcopied, connects ++ [false], fun rest => ?_⟩
    rw [List.append_assoc, hloop, List.singleton_append, connectLoop,
      if_pos (Nat.pos_of_ne_zero hzero)]

theorem told_step (ht : t.Told size) (h : ChunkStep t call t') : t'.Told size := by
  cases h with
  | socket hp =>
    rw [Told, hp] at ht
    exact ⟨ht.1, ht.2, [], fun _ => rfl⟩
  | socketFails hp =>
    rw [Told, hp] at ht
    exact ⟨⟨false, [], true, [], 0⟩, rfl, by rw [goTo, ht.2]; rfl⟩
  | connect hp =>
    rw [Told, hp] at ht
    obtain ⟨hbytes, hcopied, connects, hloop⟩ := ht
    exact told_connect _ hbytes hcopied hloop
  | write hp =>
    rw [Told, hp] at ht
    refine ⟨?_, ht.2.2⟩
    rw [goTo, ht.1, ht.2.1]
    exact reached_start
  | writeFails hp =>
    rw [Told, hp] at ht
    obtain ⟨-, hcopied, connects, hc⟩ := ht
    refine ⟨⟨true, connects, false, [], 0⟩, rfl, ?_⟩
    rw [Connects] at hc
    change _ = (Exit.writeFailed, t.copied)
    rw [hcopied]
    simp [downloadChunk, hc]
  | recvFails hp hmore =>
    rw [Told, hp] at ht
    obtain ⟨hreached, connects, hc⟩ := ht
    obtain ⟨calls, hstray, hcalls⟩ := hreached.ends hc 0
    exact ⟨calls, hstray, by rw [hcalls, if_pos hmore]; rfl⟩
  | recv hp hmore hdata hfits =>
    rw [Told, hp] at ht
    exact ⟨ht.1.recv hmore hdata hfits, ht.2⟩
  | finish hp hdone =>
    rw [Told, hp] at ht
    obtain ⟨hreached, connects, hc⟩ := ht
    obtain ⟨calls, hstray, hcalls⟩ := hreached.ends hc _
    exact ⟨calls, hstray, by rw [hcalls, if_neg hdone]; rfl⟩

theorem told_of_reachable (h : Reachable step anyStep (start size) t) : t.Told size := by
  have hstart : (start size).Told size := by simp [Told, start]
  refine h.invariant (P := fun t : ChunkThread => t.Told size) hstart ?_
  intro t call t' ht _ hs
  exact told_step ht (chunkStep_of_step hs)

/-- `output_ptr` is where the data ends. -/
theorem outputPtr_step (ht : t.outputPtr = t.copied.flatten.length) (h : ChunkStep t call t') :
    t'.outputPtr = t'.copied.flatten.length := by
  cases h with
  | recv => simp [ht]
  | _ => exact ht

theorem outputPtr_of_reachable (h : Reachable step anyStep (start size) t) :
    t.outputPtr = t.copied.flatten.length := by
  refine h.invariant (P := fun t : ChunkThread => t.outputPtr = t.copied.flatten.length) rfl ?_
  intro t call t' ht _ hs
  exact outputPtr_step ht (chunkStep_of_step hs)

theorem stores_of_ne (h : ∀ data, data ≠ [] → call ≠ .recv data) : t.stores call = none := by
  unfold stores
  split
  · rename_i data hp
    by_cases hdata : data = []
    · exact if_pos hdata
    · exact absurd rfl (h data hdata)
  · rfl

theorem copied_step (h : ChunkStep t call t') : t'.copied = t.copied ++ (t.stores call).toList := by
  cases h with
  | @recv data hp hmore hdata hfits =>
    have hstores : t.stores (.recv data) = some data := by
      unfold stores
      rw [hp]
      exact if_neg hdata
    rw [hstores]
    rfl
  | _ =>
    rw [stores_of_ne (by simp)]
    exact (List.append_nil _).symm

theorem not_ended (h : ChunkStep t call t') (e : Exit) (stray : ℕ) : t.place ≠ .ended e stray := by
  intro he
  cases h with
  | _ hp =>
    rw [he] at hp
    cases hp

theorem status_eq_some {status : ThreadStatus} (h : t.status = some status) :
    ∃ e stray, t.place = .ended e stray ∧ e.status stray = status := by
  rw [ChunkThread.status] at h
  split at h
  · rename_i e stray hp
    exact ⟨e, stray, hp, Option.some.inj h⟩
  · exact absurd h.symm (Option.some_ne_none _)

/-- Nothing more is received from a thread that runs. -/
theorem canEnd (h : t.Told size) (hrun : t.status = none) :
    ∃ calls e status, downloadChunk size calls = (e, t.copied) ∧
      e.status calls.stray = .joined status := by
  rw [Told] at h
  cases hp : t.place with
  | opening =>
    rw [hp] at h
    exact ⟨⟨false, [], true, [], 0⟩, .socketFailed, 0, by rw [h.2]; rfl, rfl⟩
  | connecting retries =>
    rw [hp] at h
    exact ⟨⟨false, [], true, [], 0⟩, .socketFailed, 0, by rw [h.2.1]; rfl, rfl⟩
  | connected =>
    rw [hp] at h
    exact ⟨⟨false, [], true, [], 0⟩, .socketFailed, 0, by rw [h.2.1]; rfl, rfl⟩
  | receiving =>
    rw [hp] at h
    obtain ⟨hreached, connects, hc⟩ := h
    obtain ⟨calls, -, hcalls⟩ := hreached.ends hc 0
    by_cases hmore : 0 < t.bytesRemaining
    · rw [if_pos hmore] at hcalls
      exact ⟨calls, .recvFailed, 1, hcalls, rfl⟩
    · rw [if_neg hmore] at hcalls
      exact ⟨calls, .success, calls.stray, hcalls, rfl⟩
  | ended e stray =>
    rw [ChunkThread.status, hp] at hrun
    exact absurd hrun (Option.some_ne_none _)

/-- A bound for the calls that a thread has left. -/
def callsLeft (t : ChunkThread) : ℕ :=
  match t.place with
  | .opening => t.bytesRemaining.toNat+8
  | .connecting retries => t.bytesRemaining.toNat+retries+4
  | .connected => t.bytesRemaining.toNat+2
  | .receiving => t.bytesRemaining.toNat+1
  | .ended _ _ => 0

theorem callsLeft_connect {retries : ℕ} (hp : t.place = .connecting retries) (ok : Bool) :
    (t.goTo (afterConnect retries ok)).callsLeft < t.callsLeft := by
  have hcalls : t.callsLeft = t.bytesRemaining.toNat+retries+4 := by rw [callsLeft, hp]
  rw [hcalls, afterConnect]
  split_ifs with hzero hok
  · exact Nat.succ_pos _
  · change t.bytesRemaining.toNat+2 < _
    omega
  · change t.bytesRemaining.toNat+(retries-1)+4 < _
    omega

theorem callsLeft_step (h : ChunkStep t call t') : t'.callsLeft < t.callsLeft := by
  cases h with
  | socket hp =>
    have hcalls : t.callsLeft = t.bytesRemaining.toNat+8 := by rw [callsLeft, hp]
    rw [hcalls]
    exact Nat.lt_succ_self _
  | connect hp => exact callsLeft_connect hp _
  | write hp =>
    have hcalls : t.callsLeft = t.bytesRemaining.toNat+2 := by rw [callsLeft, hp]
    rw [hcalls]
    exact Nat.lt_succ_self _
  | @recv data hp hmore hdata hfits =>
    have hcalls : t.callsLeft = t.bytesRemaining.toNat+1 := by rw [callsLeft, hp]
    have hpos := List.length_pos_iff.mpr hdata
    rw [hcalls]
    change (t.bytesRemaining-data.length).toNat+1 < _
    omega
  | socketFails hp | writeFails hp | recvFails hp | finish hp =>
    have hended (e : Exit) (stray : ℕ) : (t.goTo (.ended e stray)).callsLeft = 0 := rfl
    rw [hended, callsLeft, hp]
    exact Nat.succ_pos _

/-- A thread that runs has a call. -/
theorem exists_call (hrun : t.status = none) : ∃ call t', t.step call = some t' := by
  have hstep (call : ChunkCall) (t' : ChunkThread) (hs : t.step call = some t') :
      ∃ call t', t.step call = some t' := ⟨call, t', hs⟩
  unfold step at hstep
  cases hp : t.place with
  | opening => exact hstep (.socket true) _ (by rw [hp])
  | connecting retries => exact hstep (.connect true) _ (by rw [hp])
  | connected => exact hstep (.write true) _ (by rw [hp])
  | receiving =>
    by_cases hmore : 0 < t.bytesRemaining
    · exact hstep (.recv []) _ (by rw [hp]; exact if_pos ⟨hmore, Nat.zero_le _, hmore.le⟩)
    · exact hstep (.finish 0) _ (by rw [hp]; exact if_neg hmore)
  | ended e stray =>
    rw [ChunkThread.status, hp] at hrun
    exact absurd hrun (Option.some_ne_none _)

end ChunkThread

/-- How a thread with `size` bytes to receive can end. -/
def EndsAs (size : ℕ) (e : ThreadEnd) : Prop := ∃ calls, e = threadEnd size calls

theorem threadEnd_eq_of {size : ℕ} {calls : Calls} {e : Exit} {copied : List Bytes}
    (h : downloadChunk size calls = (e, copied)) :
    threadEnd size calls = ⟨e.status calls.stray, copied⟩ := by
  rw [threadEnd, h]

theorem chunkDownloader_sound : chunkDownloader.Sound EndsAs where
  copied_start _ := rfl
  running_start _ := rfl
  free_start _ := rfl
  copied_step _ _ _ h := ChunkThread.copied_step (chunkStep_of_step h)
  finished t call h := by
    obtain ⟨status, hstatus⟩ := Option.ne_none_iff_exists'.mp h
    obtain ⟨e, stray, hp, -⟩ := ChunkThread.status_eq_some hstatus
    cases hs : t.step call with
    | none => exact hs
    | some t' => exact absurd hp (ChunkThread.not_ended (chunkStep_of_step hs) e stray)
  released _ _ := rfl
  outputPtr _ _ h := ChunkThread.outputPtr_of_reachable h
  ends size t status h hstatus := by
    obtain ⟨e, stray, hp, rfl⟩ := ChunkThread.status_eq_some hstatus
    have htold := ChunkThread.told_of_reachable h
    rw [ChunkThread.Told, hp] at htold
    obtain ⟨calls, rfl, hcalls⟩ := htold
    exact ⟨calls, (threadEnd_eq_of hcalls).symm⟩
  canEnd size t h hrun := by
    obtain ⟨calls, e, status, hcalls, hjoined⟩ :=
      ChunkThread.canEnd (ChunkThread.told_of_reachable h) hrun
    refine ⟨status, calls, ?_⟩
    rw [threadEnd_eq_of hcalls, hjoined]
    rfl

theorem chunkDownloader_settles :
    chunkDownloader.Settles (fun _ => True) ChunkThread.callsLeft where
  falls _ _ _ _ _ _ hs := ChunkThread.callsLeft_step (chunkStep_of_step hs)
  moves _ hrun := by
    obtain ⟨call, t', hs⟩ := ChunkThread.exists_call hrun
    exact ⟨call, t', trivial, hs⟩

/-- The six bytes "abcdef" over two connections. -/
def twoChunks : List DownloadTask :=
  [⟨ascii "127.0.0.1", 5000, ascii "f", 0, 3, 0⟩, ⟨ascii "127.0.0.1", 5000, ascii "f", 3, 3, 3⟩]

/-- Thread `i` up to its receive loop. -/
def request (i : ℕ) : List (ProcessAction ChunkCall) :=
  [.create true, .call i (.socket true), .call i (.connect true), .call i (.write true)]

end NetTools.FTP
