import NetTools.ClientProcess
import NetTools.TFTPReceiver

namespace NetTools.TFTP

open CText Schedule Download WorkerPool

/-- Where a `download_chunk` is. In `receiving` and `sending` it has the lock; before them it may
have to wait for it. -/
inductive ChunkPlace
  | opening
  | requesting
  | looping
  | receiving
  | acking (datagram : Bytes)
  | sending (datagram : Bytes)
  | storing (datagram : Bytes)
  | ended (e : Exit)
  deriving DecidableEq

structure ChunkThread where
  size : ℕ
  receiver : Receiver
  place : ChunkPlace

/-- The calls of a thread with their results. `recvfrom` returns the lock; no data stands for a
result that is not positive. -/
inductive ChunkCall
  | socket (ok : Bool)
  | request (ok : Bool)
  | lock
  | setsockoptFails
  | recvfrom (datagram : Bytes)
  | sendto (ok : Bool)
  | store
  | finish

namespace ChunkThread

def start (size : ℕ) : ChunkThread := ⟨size, .start size, .opening⟩

def goTo (t : ChunkThread) (place : ChunkPlace) : ChunkThread := { t with place := place }

/-- The loop variables after a turn, or the end of the thread. -/
def after (t : ChunkThread) : Except Exit Receiver → ChunkThread
  | .ok d => { t with receiver := d, place := .looping }
  | .error e => t.goTo (.ended e)

/-- The thread has `shared_socket_lock`. -/
def holds (t : ChunkThread) : Bool :=
  match t.place with
  | .receiving | .sending _ => true
  | _ => false

def status (t : ChunkThread) : Option ThreadStatus :=
  match t.place with
  | .ended e => some e.status
  | _ => none

/-- One call; `none` when it is not possible. -/
def step (t : ChunkThread) (call : ChunkCall) : Option ChunkThread :=
  match t.place, call with
  | .opening, .socket ok => some (t.goTo (if ok then .requesting else .ended .socketFailed))
  | .requesting, .request ok => some (t.goTo (if ok then .looping else .ended .requestFailed))
  | .looping, .lock => if 0 < t.receiver.bytesRemaining then some (t.goTo .receiving) else none
  | .looping, .finish =>
    if 0 < t.receiver.bytesRemaining then none else some (t.goTo (.ended .success))
  | .receiving, .setsockoptFails => some (t.goTo (.ended .setsockoptFailed))
  | .receiving, .recvfrom datagram =>
    if datagram.length ≤ bufferSize then
      some (if datagram = [] then t.after t.receiver.onTimeout else t.goTo (.acking datagram))
    else none
  | .acking datagram, .lock => some (t.goTo (.sending datagram))
  | .sending datagram, .sendto ok =>
    some (t.goTo (if ok then .storing datagram else .ended .ackFailed))
  | .storing datagram, .store => some (t.after (t.receiver.storePayload t.size datagram))
  | _, _ => none

/-- The `memcpy` behind the two checks. -/
def stores (t : ChunkThread) (call : ChunkCall) : Option Bytes :=
  match t.place, call with
  | .storing datagram, .store =>
    (t.receiver.storePayload t.size datagram).toOption.map fun _ => payloadOf datagram
  | _, _ => none

end ChunkThread

/-- The threads of `tftp/client.c`. -/
def chunkDownloader : Downloader ChunkThread ChunkCall where
  step := ChunkThread.step
  holds := ChunkThread.holds
  start := ChunkThread.start
  stores := ChunkThread.stores
  outputPtr t := t.receiver.outputPtr.toNat
  copied t := t.receiver.copied
  status := ChunkThread.status

/-- What each call does. -/
inductive ChunkStep (t : ChunkThread) : ChunkCall → ChunkThread → Prop
  | socket (hp : t.place = .opening) : ChunkStep t (.socket true) (t.goTo .requesting)
  | socketFails (hp : t.place = .opening) :
    ChunkStep t (.socket false) (t.goTo (.ended .socketFailed))
  | request (hp : t.place = .requesting) : ChunkStep t (.request true) (t.goTo .looping)
  | requestFails (hp : t.place = .requesting) :
    ChunkStep t (.request false) (t.goTo (.ended .requestFailed))
  | enter (hp : t.place = .looping) (hmore : 0 < t.receiver.bytesRemaining) :
    ChunkStep t .lock (t.goTo .receiving)
  | finish (hp : t.place = .looping) (hdone : ¬ 0 < t.receiver.bytesRemaining) :
    ChunkStep t .finish (t.goTo (.ended .success))
  | setsockoptFails (hp : t.place = .receiving) :
    ChunkStep t .setsockoptFails (t.goTo (.ended .setsockoptFailed))
  | timeout (hp : t.place = .receiving) : ChunkStep t (.recvfrom []) (t.after t.receiver.onTimeout)
  | receive {datagram : Bytes} (hp : t.place = .receiving) (hdata : datagram ≠ []) :
    ChunkStep t (.recvfrom datagram) (t.goTo (.acking datagram))
  | enterAck {datagram : Bytes} (hp : t.place = .acking datagram) :
    ChunkStep t .lock (t.goTo (.sending datagram))
  | sendAck {datagram : Bytes} (hp : t.place = .sending datagram) :
    ChunkStep t (.sendto true) (t.goTo (.storing datagram))
  | ackFails {datagram : Bytes} (hp : t.place = .sending datagram) :
    ChunkStep t (.sendto false) (t.goTo (.ended .ackFailed))
  | store {datagram : Bytes} (hp : t.place = .storing datagram) :
    ChunkStep t .store (t.after (t.receiver.storePayload t.size datagram))

theorem chunkStep_of_step {t t' : ChunkThread} {call : ChunkCall} (h : t.step call = some t') :
    ChunkStep t call t' := by
  unfold ChunkThread.step at h
  split at h
  · rename_i ok hp
    cases ok <;> cases h
    · exact .socketFails hp
    · exact .socket hp
  · rename_i ok hp
    cases ok <;> cases h
    · exact .requestFails hp
    · exact .request hp
  · rename_i hp
    obtain ⟨hmore, h⟩ := Option.ite_none_right_eq_some.mp h
    cases h
    exact .enter hp hmore
  · rename_i hp
    obtain ⟨hdone, h⟩ := Option.ite_none_left_eq_some.mp h
    cases h
    exact .finish hp hdone
  · rename_i hp
    cases h
    exact .setsockoptFails hp
  · rename_i datagram hp
    obtain ⟨-, h⟩ := Option.ite_none_right_eq_some.mp h
    by_cases hdata : datagram = []
    · subst hdata
      cases h
      exact .timeout hp
    · rw [if_neg hdata] at h
      cases h
      exact .receive hp hdata
  · rename_i hp
    cases h
    exact .enterAck hp
  · rename_i ok hp
    cases ok <;> cases h
    · exact .ackFails hp
    · exact .sendAck hp
  · rename_i hp
    cases h
    exact .store hp
  · exact absurd h.symm (Option.some_ne_none _)

/-- The loop variables after some turns: what is still to come decides how the loop goes on. -/
def Reached (size : ℕ) (d : Receiver) : Prop :=
  ∃ turns, ∀ rest, (Receiver.start size).run size (turns ++ rest) = d.run size rest

section

variable {size : ℕ} {d d' : Receiver} {r : Turn} {e : Exit}

theorem reached_start : Reached size (.start size) := ⟨[], fun _ => rfl⟩

theorem run_cons_ok (hmore : 0 < d.bytesRemaining) (ht : d.turn size r = .ok d')
    (rest : List Turn) : d.run size (r :: rest) = d'.run size rest := by
  simp only [Receiver.run, hmore, ht, if_true]

theorem run_cons_error (hmore : 0 < d.bytesRemaining) (ht : d.turn size r = .error e)
    (rest : List Turn) : d.run size (r :: rest) = (e, d) := by
  simp only [Receiver.run, hmore, ht, if_true]

theorem Reached.turn (h : Reached size d) (hmore : 0 < d.bytesRemaining)
    (ht : d.turn size r = .ok d') : Reached size d' := by
  obtain ⟨turns, hturns⟩ := h
  refine ⟨turns ++ [r], fun rest => ?_⟩
  rw [List.append_assoc, List.singleton_append, hturns, run_cons_ok hmore ht]

/-- The loop ends in a turn. -/
theorem Reached.exits (h : Reached size d) (hmore : 0 < d.bytesRemaining)
    (ht : d.turn size r = .error e) : ∃ calls, downloadChunk size calls = (e, d) := by
  obtain ⟨turns, hturns⟩ := h
  refine ⟨⟨true, true, turns ++ [r]⟩, ?_⟩
  rw [downloadChunk_started, hturns, run_cons_error hmore ht]

theorem Reached.succeeds (h : Reached size d) (hdone : ¬ 0 < d.bytesRemaining) :
    ∃ calls, downloadChunk size calls = (.success, d) := by
  obtain ⟨turns, hturns⟩ := h
  refine ⟨⟨true, true, turns⟩, ?_⟩
  have hrest := hturns []
  rw [List.append_nil] at hrest
  rw [downloadChunk_started, hrest, Receiver.run, if_neg hdone]

/-- Nothing more arrives. -/
theorem Reached.times_out (h : Reached size d) :
    ∃ calls e status, downloadChunk size calls = (e, d) ∧ e.status = .joined status := by
  by_cases hmore : 0 < d.bytesRemaining
  · obtain ⟨turns, hturns⟩ := h
    refine ⟨⟨true, true, turns⟩, .retriesUsedUp, 1, ?_, rfl⟩
    have hrest := hturns []
    rw [List.append_nil] at hrest
    rw [downloadChunk_started, hrest, Receiver.run, if_pos hmore]
  · obtain ⟨calls, hcalls⟩ := h.succeeds hmore
    exact ⟨calls, .success, 0, hcalls, rfl⟩

/-- What a copy does to the loop variables. -/
theorem storePayload_eq_ok {datagram : Bytes} (h : d.storePayload size datagram = .ok d') :
    seqSize ≤ datagram.length ∧ d' = d.stored (payloadOf datagram) := by
  rw [Receiver.storePayload] at h
  split_ifs at h with hmore hbeyond hwild
  have hlen : seqSize ≤ datagram.length := by omega
  have hpay : ((payloadOf datagram).length : Int) = datagram.length-seqSize := by
    rw [payloadOf, List.length_drop]
    omega
  refine ⟨hlen, ?_⟩
  rw [← Except.ok.inj h, Receiver.stored, hpay]
  rfl

end

namespace ChunkThread

/-- What can be told of a thread at its place. -/
def Told (size : ℕ) (t : ChunkThread) : Prop :=
  match t.place with
  | .opening | .requesting => t.receiver = .start size
  | .looping => Reached size t.receiver
  | .receiving => Reached size t.receiver ∧ 0 < t.receiver.bytesRemaining
  | .acking datagram | .sending datagram | .storing datagram =>
    Reached size t.receiver ∧ 0 < t.receiver.bytesRemaining ∧ datagram ≠ []
  | .ended e => ∃ calls, downloadChunk size calls = (e, t.receiver)

variable {size : ℕ} {t t' : ChunkThread} {call : ChunkCall}

theorem told_after {r : Turn} (h : Reached size t.receiver) (hmore : 0 < t.receiver.bytesRemaining)
    {result : Except Exit Receiver} (ht : t.receiver.turn size r = result) :
    (t.after result).Told size := by
  cases result with
  | ok d => exact h.turn hmore ht
  | error e => exact h.exits hmore ht

theorem size_after (t : ChunkThread) (result : Except Exit Receiver) :
    (t.after result).size = t.size := by
  cases result <;> rfl

theorem size_step (h : ChunkStep t call t') : t'.size = t.size := by
  cases h with
  | timeout | store => exact size_after t _
  | _ => rfl

theorem told_step (hsize : t.size = size) (ht : t.Told size) (h : ChunkStep t call t') :
    t'.Told size := by
  cases h with
  | socket hp =>
    rw [Told, hp] at ht
    exact ht
  | socketFails hp =>
    rw [Told, hp] at ht
    exact ⟨⟨false, true, []⟩, by rw [goTo, ht]; rfl⟩
  | request hp =>
    rw [Told, hp] at ht
    change Reached size t.receiver
    rw [ht]
    exact reached_start
  | requestFails hp =>
    rw [Told, hp] at ht
    exact ⟨⟨true, false, []⟩, by rw [goTo, ht]; rfl⟩
  | enter hp hmore =>
    rw [Told, hp] at ht
    exact ⟨ht, hmore⟩
  | finish hp hdone =>
    rw [Told, hp] at ht
    exact ht.succeeds hdone
  | setsockoptFails hp =>
    rw [Told, hp] at ht
    have hturn : t.receiver.turn size ⟨false, [], true⟩ = .error .setsockoptFailed := rfl
    exact ht.1.exits ht.2 hturn
  | timeout hp =>
    rw [Told, hp] at ht
    have hturn : t.receiver.turn size ⟨true, [], true⟩ = t.receiver.onTimeout := rfl
    exact told_after ht.1 ht.2 hturn
  | receive hp hdata =>
    rw [Told, hp] at ht
    exact ⟨ht.1, ht.2, hdata⟩
  | enterAck hp | sendAck hp =>
    rw [Told, hp] at ht
    exact ht
  -- from here the calls since `receiving` make one turn of the loop
  | @ackFails datagram hp =>
    rw [Told, hp] at ht
    have hturn : t.receiver.turn size ⟨true, datagram, false⟩ = .error .ackFailed := by
      simp [Receiver.turn, ht.2.2]
    exact ht.1.exits ht.2.1 hturn
  | @store datagram hp =>
    rw [Told, hp] at ht
    have hturn : t.receiver.turn size ⟨true, datagram, true⟩ =
        t.receiver.storePayload t.size datagram := by
      simp [Receiver.turn, ht.2.2, hsize]
    exact told_after ht.1 ht.2.1 hturn

theorem told_of_reachable (h : Reachable step anyStep (start size) t) :
    t.size = size ∧ t.Told size := by
  have hstart : (start size).Told size := by
    change Receiver.start size = .start size
    rfl
  refine h.invariant (P := fun t : ChunkThread => t.size = size ∧ t.Told size) ⟨rfl, hstart⟩ ?_
  intro t call t' ht _ hs
  have hstep := chunkStep_of_step hs
  exact ⟨(size_step hstep).trans ht.1, told_step ht.1 ht.2 hstep⟩

/-- `output_ptr` is where the copies end. -/
theorem outputPtr_step (ht : t.receiver.outputPtr = t.receiver.written.length)
    (h : ChunkStep t call t') : t'.receiver.outputPtr = t'.receiver.written.length := by
  cases h with
  | timeout hp =>
    rw [Receiver.onTimeout]
    split_ifs <;> exact ht
  | @store datagram hp =>
    cases hs : t.receiver.storePayload t.size datagram with
    | ok d =>
      obtain ⟨-, rfl⟩ := storePayload_eq_ok hs
      change (t.receiver.stored _).outputPtr = _
      rw [after, Receiver.written_stored, List.length_append, Receiver.stored, ht]
      push_cast
      rfl
    | error e => exact ht
  | _ => exact ht

theorem outputPtr_of_reachable (h : Reachable step anyStep (start size) t) :
    t.receiver.outputPtr = t.receiver.written.length := by
  refine h.invariant (P := fun t : ChunkThread => t.receiver.outputPtr = t.receiver.written.length)
    rfl ?_
  intro t call t' ht _ hs
  exact outputPtr_step ht (chunkStep_of_step hs)

theorem stores_of_ne (h : call ≠ .store) : t.stores call = none := by
  unfold stores
  split
  · exact absurd rfl h
  · rfl

/-- A call stores what `memcpy` copies, and nothing else. -/
theorem copied_step (h : ChunkStep t call t') :
    t'.receiver.copied = t.receiver.copied ++ (t.stores call).toList := by
  cases h with
  | timeout hp =>
    rw [stores_of_ne (by simp), Receiver.onTimeout]
    split_ifs <;> exact (List.append_nil _).symm
  | @store datagram hp =>
    have hstores : t.stores .store = (t.receiver.storePayload t.size datagram).toOption.map
        fun _ => payloadOf datagram := by
      unfold stores
      rw [hp]
    rw [hstores]
    cases hs : t.receiver.storePayload t.size datagram with
    | ok d =>
      obtain ⟨-, rfl⟩ := storePayload_eq_ok hs
      rfl
    | error e => exact (List.append_nil _).symm
  | _ =>
    rw [stores_of_ne (by simp)]
    exact (List.append_nil _).symm

theorem not_ended (h : ChunkStep t call t') (e : Exit) : t.place ≠ .ended e := by
  intro he
  cases h with
  | _ hp =>
    rw [he] at hp
    cases hp

theorem status_eq_some {status : ThreadStatus} (h : t.status = some status) :
    ∃ e, t.place = .ended e ∧ e.status = status := by
  rw [ChunkThread.status] at h
  split at h
  · rename_i e hp
    exact ⟨e, hp, Option.some.inj h⟩
  · exact absurd h.symm (Option.some_ne_none _)

/-- A thread that runs can still time out. -/
theorem canEnd (h : Reachable step anyStep (start size) t) (hrun : t.status = none) :
    ∃ calls e status, downloadChunk size calls = (e, t.receiver) ∧ e.status = .joined status := by
  have htold := (told_of_reachable h).2
  rw [Told] at htold
  cases hp : t.place with
  | opening | requesting =>
    rw [hp] at htold
    exact ⟨⟨false, true, []⟩, .socketFailed, 0, by rw [htold]; rfl, rfl⟩
  | looping =>
    rw [hp] at htold
    exact htold.times_out
  | receiving | acking datagram | sending datagram | storing datagram =>
    rw [hp] at htold
    exact htold.1.times_out
  | ended e =>
    rw [ChunkThread.status, hp] at hrun
    exact absurd hrun (Option.some_ne_none _)

end ChunkThread

/-- How a thread with `size` bytes to receive can end. -/
def EndsAs (size : ℕ) (e : ThreadEnd) : Prop := ∃ calls, e = threadEnd size calls

theorem threadEnd_eq_of {size : ℕ} {calls : Calls} {e : Exit} {d : Receiver}
    (h : downloadChunk size calls = (e, d)) : threadEnd size calls = ⟨e.status, d.copied⟩ := by
  rw [threadEnd, h]

theorem chunkDownloader_sound : chunkDownloader.Sound EndsAs where
  copied_start _ := rfl
  running_start _ := rfl
  free_start _ := rfl
  copied_step _ _ _ h := ChunkThread.copied_step (chunkStep_of_step h)
  finished t call h := by
    obtain ⟨status, hstatus⟩ := Option.ne_none_iff_exists'.mp h
    obtain ⟨e, hp, -⟩ := ChunkThread.status_eq_some hstatus
    cases hs : t.step call with
    | none => exact hs
    | some t' => exact absurd hp (ChunkThread.not_ended (chunkStep_of_step hs) e)
  released t h := by
    obtain ⟨status, hstatus⟩ := Option.ne_none_iff_exists'.mp h
    obtain ⟨e, hp, -⟩ := ChunkThread.status_eq_some hstatus
    change t.holds = false
    rw [ChunkThread.holds, hp]
  outputPtr size t h := by
    change t.receiver.outputPtr.toNat = t.receiver.written.length
    rw [ChunkThread.outputPtr_of_reachable h, Int.toNat_natCast]
  ends size t status h hstatus := by
    obtain ⟨e, hp, rfl⟩ := ChunkThread.status_eq_some hstatus
    have htold := (ChunkThread.told_of_reachable h).2
    rw [ChunkThread.Told, hp] at htold
    obtain ⟨calls, hcalls⟩ := htold
    exact ⟨calls, (threadEnd_eq_of hcalls).symm⟩
  canEnd size t h hrun := by
    obtain ⟨calls, e, status, hcalls, hjoined⟩ := ChunkThread.canEnd h hrun
    refine ⟨status, calls, ?_⟩
    rw [threadEnd_eq_of hcalls, hjoined]
    rfl

/-- A datagram that arrives is more than a sequence number. -/
def ChunkCall.HasPayload : ChunkCall → Prop
  | .recvfrom datagram => datagram = [] ∨ seqSize < datagram.length
  | _ => True

instance : DecidablePred ChunkCall.HasPayload
  | .recvfrom datagram => inferInstanceAs (Decidable (datagram = [] ∨ seqSize < datagram.length))
  | .socket _ | .request _ | .lock | .setsockoptFails | .sendto _ | .store | .finish =>
    inferInstanceAs (Decidable True)

namespace ChunkThread

/-- What the loop has left behind the copy of a datagram. -/
def leftAfter (t : ChunkThread) (datagram : Bytes) : ℕ :=
  18*(t.receiver.bytesRemaining-(payloadOf datagram).length).toNat+17

/-- A bound for the calls that a thread has left: each byte is worth the calls of a whole row of
timeouts. -/
def callsLeft (t : ChunkThread) : ℕ :=
  let loop := 18*t.receiver.bytesRemaining.toNat+2*(maxRetries+1-t.receiver.retryCount)
  match t.place with
  | .opening => 18*t.receiver.bytesRemaining.toNat+19
  | .requesting => 18*t.receiver.bytesRemaining.toNat+18
  | .looping => loop+5
  | .receiving => loop+4
  | .acking datagram => t.leftAfter datagram+3
  | .sending datagram => t.leftAfter datagram+2
  | .storing datagram => t.leftAfter datagram+1
  | .ended _ => 0

variable {size : ℕ} {t t' : ChunkThread} {call : ChunkCall}

theorem callsLeft_ended (t : ChunkThread) (e : Exit) : (t.goTo (.ended e)).callsLeft = 0 := rfl

theorem callsLeft_timeout (hp : t.place = .receiving) :
    (t.after t.receiver.onTimeout).callsLeft < t.callsLeft := by
  rw [Receiver.onTimeout, callsLeft, callsLeft, hp]
  split_ifs with hlast
  · exact Nat.succ_pos _
  -- a retry is worth the two calls of a turn
  · rw [maxRetries] at hlast
    simp only [after, maxRetries]
    omega

theorem callsLeft_receive {datagram : Bytes} (hp : t.place = .receiving)
    (hmore : 0 < t.receiver.bytesRemaining) (hload : seqSize < datagram.length) :
    (t.goTo (.acking datagram)).callsLeft < t.callsLeft := by
  have hleft : t.leftAfter datagram ≤ 18*t.receiver.bytesRemaining.toNat := by
    -- at least one byte less is to be received
    have hbytes : 0 < (payloadOf datagram).length := by
      rw [payloadOf, List.length_drop]
      omega
    rw [leftAfter]
    omega
  have hcalls : t.callsLeft = 18*t.receiver.bytesRemaining.toNat +
      2*(maxRetries+1-t.receiver.retryCount)+4 := by
    rw [callsLeft, hp]
  have hgo : (t.goTo (.acking datagram)).callsLeft = t.leftAfter datagram+3 := rfl
  omega

theorem callsLeft_store {datagram : Bytes} (hp : t.place = .storing datagram) :
    (t.after (t.receiver.storePayload t.size datagram)).callsLeft < t.callsLeft := by
  have hcalls : t.callsLeft = t.leftAfter datagram+1 := by rw [callsLeft, hp]
  rw [hcalls]
  cases hs : t.receiver.storePayload t.size datagram with
  | ok d =>
    obtain ⟨-, rfl⟩ := storePayload_eq_ok hs
    exact Nat.lt_succ_self _
  | error e => exact Nat.succ_pos _

theorem callsLeft_step (ht : t.Told size) (hload : call.HasPayload) (h : ChunkStep t call t') :
    t'.callsLeft < t.callsLeft := by
  cases h with
  | timeout hp => exact callsLeft_timeout hp
  | receive hp hdata =>
    rw [Told, hp] at ht
    exact callsLeft_receive hp ht.2 (hload.resolve_left hdata)
  | store hp => exact callsLeft_store hp
  | request hp =>
    have hcalls : t.callsLeft = 18*t.receiver.bytesRemaining.toNat+18 := by rw [callsLeft, hp]
    have hgo : (t.goTo .looping).callsLeft = 18*t.receiver.bytesRemaining.toNat +
        2*(maxRetries+1-t.receiver.retryCount)+5 := rfl
    rw [maxRetries] at hgo
    omega
  | socketFails hp | requestFails hp | finish hp | setsockoptFails hp | ackFails hp =>
    rw [callsLeft_ended, callsLeft, hp]
    exact Nat.succ_pos _
  | socket hp | enter hp | enterAck hp | sendAck hp =>
    unfold callsLeft
    rw [hp]
    exact Nat.lt_succ_self _

/-- A thread that runs has a call, which never needs a datagram. -/
theorem exists_call (hrun : t.status = none) :
    ∃ call t', call.HasPayload ∧ t.step call = some t' := by
  have hstep (call : ChunkCall) (t' : ChunkThread) (hload : call.HasPayload)
      (hs : t.step call = some t') : ∃ call t', call.HasPayload ∧ t.step call = some t' :=
    ⟨call, t', hload, hs⟩
  unfold step at hstep
  cases hp : t.place with
  | opening => exact hstep (.socket true) _ trivial (by rw [hp])
  | requesting => exact hstep (.request true) _ trivial (by rw [hp])
  | looping =>
    by_cases hmore : 0 < t.receiver.bytesRemaining
    · exact hstep .lock _ trivial (by rw [hp]; exact if_pos hmore)
    · exact hstep .finish _ trivial (by rw [hp]; exact if_neg hmore)
  | receiving => exact hstep (.recvfrom []) _ (Or.inl rfl) (by rw [hp]; rfl)
  | acking datagram => exact hstep .lock _ trivial (by rw [hp])
  | sending datagram => exact hstep (.sendto true) _ trivial (by rw [hp])
  | storing datagram => exact hstep .store _ trivial (by rw [hp])
  | ended e =>
    rw [ChunkThread.status, hp] at hrun
    exact absurd hrun (Option.some_ne_none _)

end ChunkThread

theorem chunkDownloader_settles :
    chunkDownloader.Settles ChunkCall.HasPayload ChunkThread.callsLeft where
  falls _ _ _ _ h hload hs :=
    ChunkThread.callsLeft_step (ChunkThread.told_of_reachable h).2 hload (chunkStep_of_step hs)
  moves _ hrun := ChunkThread.exists_call hrun

/-- The six bytes "abcdef" over two connections. -/
def twoChunks : List DownloadTask :=
  [⟨ascii "127.0.0.1", 5000, ascii "f", 0, 3, 0⟩, ⟨ascii "127.0.0.1", 5000, ascii "f", 3, 3, 3⟩]

/-- Thread `i` acknowledges the datagram that it has received, stores it and ends. -/
def acknowledge (i : ℕ) : List (ProcessAction ChunkCall) :=
  [.call i .lock, .call i (.sendto true), .call i .store, .call i .finish]

/-- From every state that a run has reached, on every machine: as long as every datagram that
arrives has a payload, or nothing arrives, the process ends after a bounded number of steps, and
until then it is never stuck. From the start the bound is linear in the sizes of the chunks. -/
theorem tftp_process_ends (m : Machine) (tasks : List DownloadTask) (fileSize : ℕ)
    (s t : ClientProcess ChunkThread)
    (h : Reachable (ClientProcess.step chunkDownloader m tasks fileSize) anyStep
      (ClientProcess.start chunkDownloader tasks) s) (run : List (ProcessAction ChunkCall))
    (hrun : replayIf (ClientProcess.step chunkDownloader m tasks fileSize)
      (fun _ act => act.Meets ChunkCall.HasPayload) s run = some t) :
    run.length+ClientProcess.stepsLeft tasks ChunkThread.callsLeft t ≤
        ClientProcess.stepsLeft tasks ChunkThread.callsLeft s ∧
      (t.ending = none → ∃ act u, act.Meets ChunkCall.HasPayload ∧
        t.step chunkDownloader m tasks fileSize act = some u) ∧
      ClientProcess.stepsLeft tasks ChunkThread.callsLeft
          (ClientProcess.start chunkDownloader tasks) ≤
        (∑ i ∈ Finset.range tasks.length, (18*sizeOf tasks i+19))+2*tasks.length+1 := by
  obtain ⟨hlength, hnext⟩ :=
    ClientProcess.ends_after chunkDownloader_sound chunkDownloader_settles h hrun
  have hbound (n : ℕ) : ChunkThread.callsLeft (chunkDownloader.start n) ≤ 18*n+19 := by
    have hcalls : (ChunkThread.start n).callsLeft = 18*(toSSize n).toNat+19 := by
      simp only [ChunkThread.callsLeft, ChunkThread.start, Receiver.start]
    exact hcalls.trans_le (Nat.add_le_add_right (Nat.mul_le_mul_left 18 (toSSize_toNat_le n)) 19)
  exact ⟨hlength, hnext, stepsLeft_start_le hbound⟩

/-- One thread and a server that never answers. -/
def silentRun : List (ProcessAction ChunkCall) :=
  [.create true, .call 0 (.socket true), .call 0 (.request true)] ++
    (List.replicate 6 [.call 0 .lock, .call 0 (.recvfrom [])]).flatten ++ [.join, .write]

/-- The thread is reported, and the file of zeros is written all the same. -/
theorem tftp_process_ends_silent : ∃ t : ClientProcess ChunkThread,
    t.ending = some (.exited ⟨0, some [0, 0, 0], [0]⟩) ∧
    silentRun.length+ClientProcess.stepsLeft (twoChunks.take 1) ChunkThread.callsLeft t ≤
      ClientProcess.stepsLeft (twoChunks.take 1) ChunkThread.callsLeft
        (ClientProcess.start chunkDownloader (twoChunks.take 1)) := by
  have hrun : (replayIf (ClientProcess.step chunkDownloader lenientMachine (twoChunks.take 1) 3)
      (fun _ act => act.Meets ChunkCall.HasPayload)
      (ClientProcess.start chunkDownloader (twoChunks.take 1)) silentRun).any
        (fun t => decide (t.ending = some (.exited ⟨0, some [0, 0, 0], [0]⟩))) = true := by
    decide
  obtain ⟨t, ht, hending⟩ := (Option.any_eq_true _ _).mp hrun
  exact ⟨t, of_decide_eq_true hending,
    (tftp_process_ends lenientMachine (twoChunks.take 1) 3 _ t .start silentRun ht).1⟩

end NetTools.TFTP
