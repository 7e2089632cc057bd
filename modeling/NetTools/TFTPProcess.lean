import NetTools.FTPSurvival
import NetTools.TFTPAckStore

/-! `tftp/server.c` as a process: the receive loop, the threads that it creates for any
datagram of any client, and what their failures do to the process that they share. -/
namespace NetTools.TFTP

open CText Schedule

/-- A thread before its `fopen`. A number that `sscanf` did not store is what the allocation
held. -/
structure RequestThread where
  clientAddr : ℕ
  command : Bytes
  filename : Bytes
  offset : ℕ
  chunkSize : ℕ

/-- The handlers that are in their `GET` loop are those of `queue`. -/
structure Process where
  status : ProcessStatus
  socketOpen : Bool
  requests : ℕ → Option RequestThread
  queue : AckServer

/-- `heap` is what a fresh `ClientRequest` holds, `stackSeq` what `seq_num` does;
`created` is the thread, when `pthread_create` gives one. -/
inductive Event
  | receive (clientAddr : ℕ) (datagram : Bytes) (stackSeq : ℕ) (heap : ℕ × ℕ) (created : Option ℕ)
  | receiveFails
  | fopen (x : ℕ) (file : Option Bytes)
  | loop (a : QueueAction)

/-- The steps of the `GET` loop. -/
def QueueAction.inLoop : QueueAction → Bool
  | begin .. | enqueue _ => false
  | _ => true

def QueueAction.sends : QueueAction → Bool
  | send _ => true
  | _ => false

/-- The branch with `close(request->server_socket)`. -/
def QueueAction.closes : QueueAction → Bool
  | sendFails _ => true
  | _ => false

namespace Process

def start : Process := ⟨.running, true, fun _ => none, .start⟩

def ended (s : Process) (status : ProcessStatus) : Process :=
  { s with status := status, socketOpen := false }

def withQueue (s : Process) (q : AckServer) : Process := { s with queue := q }

def setRequest (s : Process) (x : ℕ) (r : Option RequestThread) : Process :=
  { s with requests := Function.update s.requests x r }

/-- The receive loop. `recvfrom` cuts the datagram at the size of the buffer, and a full buffer
has no room for the NUL behind it. -/
def receive (s : Process) (clientAddr : ℕ) (datagram : Bytes) (stackSeq : ℕ) (heap : ℕ × ℕ)
    (created : Option ℕ) : Option Process :=
  if datagram.length ≥ bufferSize then some (s.ended .undefined)
  else match route datagram with
    | .ack seqNum => (s.queue.step (.enqueue ⟨seqNum.getD stackSeq, clientAddr⟩)).map s.withQueue
    | .malformed => some s
    | .request request =>
      match created with
      | none => some s
      | some x =>
        if s.requests x = none ∧ s.queue.threads x = none then
          some (s.setRequest x (some ⟨clientAddr, request.command, request.filename,
            request.offset.getD heap.1, request.chunkSize.getD heap.2⟩))
        else none

/-- `handle_request` up to the `GET` loop. The replies to `CHECK` and for a missing file are
sent without a look at what `sendto` returns. -/
def handle (s : Process) (x : ℕ) (r : RequestThread) (file : Option Bytes) : Option Process :=
  if r.command = ascii "GET" then
    match file with
    | some file =>
      if RangeRejected r.offset r.chunkSize file.length then some (s.ended (.exited exitFailure))
      else (s.queue.step (.begin x r.clientAddr file r.offset r.chunkSize)).map
        (s.setRequest x none).withQueue
    | none => some (s.setRequest x none)
  else some (s.setRequest x none)

/-- One step; `none` when it is not possible. -/
def step (s : Process) (e : Event) : Option Process :=
  if s.status = .running then
    match e with
    | .receive clientAddr datagram stackSeq heap created =>
      if s.socketOpen then s.receive clientAddr datagram stackSeq heap created else none
    | .receiveFails => some s
    | .fopen x file => (s.requests x).bind fun r => s.handle x r file
    | .loop a =>
      if a.inLoop ∧ (a.sends → s.socketOpen) then
        (s.queue.step a).map fun q => { s.withQueue q with socketOpen := s.socketOpen && !a.closes }
      else none
  else none

/-- The process runs and its service socket is open. -/
def Alive (s : Process) : Prop := s.status = .running ∧ s.socketOpen = true

/-- The steps that leave the server alive: no datagram fills the buffer, no `GET` of an
existing file is out of its range, and no data packet fails to be sent. -/
def Harmless (s : Process) : Event → Prop
  | .receive _ datagram _ _ _ => datagram.length < bufferSize
  | .fopen x (some file) => ∀ r, s.requests x = some r → r.command = ascii "GET" →
      ¬ RangeRejected r.offset r.chunkSize file.length
  | .loop a => a.closes = false
  | _ => True

variable {s t : Process} {e : Event}

theorem not_alive_ended (status : ProcessStatus) : ¬ (s.ended status).Alive := nofun

/-- The receive loop survives every datagram that leaves room for the NUL. -/
theorem alive_receive {clientAddr stackSeq : ℕ} {datagram : Bytes} {heap : ℕ × ℕ}
    {created : Option ℕ}
    (h : s.receive clientAddr datagram stackSeq heap created = some t) :
    t.Alive ↔ s.Alive ∧ datagram.length < bufferSize := by
  unfold receive at h
  split_ifs at h with hfull
  · cases h
    exact iff_of_false (not_alive_ended _) fun hh => absurd hh.2 (not_lt.mpr hfull)
  · have hlt := not_le.mp hfull
    split at h
    -- an ACK, a text that is no request, and a request with or without a thread
    · obtain ⟨q, -, rfl⟩ := Option.map_eq_some_iff.mp h
      exact (and_iff_left hlt).symm
    · cases h
      exact (and_iff_left hlt).symm
    · split at h
      · cases h
        exact (and_iff_left hlt).symm
      · simp only [Option.ite_none_right_eq_some, Option.some.injEq] at h
        obtain ⟨-, rfl⟩ := h
        exact (and_iff_left hlt).symm

theorem alive_handle {x : ℕ} {r : RequestThread} {file : Option Bytes} (hx : s.requests x = some r)
    (h : s.handle x r file = some t) : t.Alive ↔ s.Alive ∧ s.Harmless (.fopen x file) := by
  have hkeep : ∀ file, (∀ f, file = some f → r.command = ascii "GET" →
      ¬ RangeRejected r.offset r.chunkSize f.length) → s.Harmless (.fopen x file) := by
    intro file hf
    cases file with
    | none => trivial
    | some f =>
      intro r' hr'
      obtain rfl : r = r' := Option.some.inj (hx.symm.trans hr')
      exact hf f rfl
  unfold handle at h
  split_ifs at h with hget
  · cases file with
    | none =>
      cases h
      exact (and_iff_left trivial).symm
    | some file =>
      simp only at h
      split_ifs at h with hrange
      · cases h
        exact iff_of_false (not_alive_ended _) fun hh => hh.2 r hx hget hrange
      · obtain ⟨q, -, rfl⟩ := Option.map_eq_some_iff.mp h
        refine (and_iff_left (hkeep _ fun f hf _ => ?_)).symm
        obtain rfl := Option.some.inj hf
        exact hrange
  · cases h
    exact (and_iff_left (hkeep _ fun f _ hc => absurd hc hget)).symm

/-- The server is alive after a step exactly when it was before and the step is harmless. -/
theorem alive_step_iff (h : s.step e = some t) : t.Alive ↔ s.Alive ∧ s.Harmless e := by
  simp only [step, Option.ite_none_right_eq_some] at h
  obtain ⟨hrun, h⟩ := h
  cases e with
  | receive clientAddr datagram stackSeq heap created =>
    simp only [Option.ite_none_right_eq_some] at h
    exact alive_receive h.2
  | receiveFails =>
    cases h
    exact (and_iff_left trivial).symm
  | fopen x file =>
    obtain ⟨r, hx, h⟩ := Option.bind_eq_some_iff.mp h
    exact alive_handle hx h
  | loop a =>
    simp only [Option.ite_none_right_eq_some] at h
    obtain ⟨q, -, rfl⟩ := Option.map_eq_some_iff.mp h.2
    simp [Alive, Harmless, withQueue, and_assoc]

/-- The server survives exactly the schedules of harmless steps. -/
theorem reachable_harmless_iff :
    Reachable step Harmless start s ↔ Reachable step anyStep start s ∧ s.Alive :=
  reachable_iff_of_exact ⟨rfl, rfl⟩ fun _ _ _ _ hstep => alive_step_iff hstep

/-- A step of the process is at most one step of the queue that its handlers share. -/
theorem queue_step (h : s.step e = some t) :
    t.queue = s.queue ∨ ∃ a, s.queue.step a = some t.queue := by
  simp only [step, Option.ite_none_right_eq_some] at h
  obtain ⟨-, h⟩ := h
  cases e with
  | receive clientAddr datagram stackSeq heap created =>
    simp only [receive, Option.ite_none_right_eq_some] at h
    obtain ⟨-, h⟩ := h
    split_ifs at h
    · cases h
      exact .inl rfl
    -- of the three branches only that for an ACK touches the queue
    · split at h
      · obtain ⟨q, hq, rfl⟩ := Option.map_eq_some_iff.mp h
        exact .inr ⟨_, hq⟩
      · cases h
        exact .inl rfl
      · split at h
        · cases h
          exact .inl rfl
        · simp only [Option.ite_none_right_eq_some, Option.some.injEq] at h
          obtain ⟨-, rfl⟩ := h
          exact .inl rfl
  | receiveFails =>
    cases h
    exact .inl rfl
  | fopen x file =>
    obtain ⟨r, -, h⟩ := Option.bind_eq_some_iff.mp h
    unfold handle at h
    split_ifs at h
    · split at h
      · split_ifs at h
        · cases h
          exact .inl rfl
        · obtain ⟨q, hq, rfl⟩ := Option.map_eq_some_iff.mp h
          exact .inr ⟨_, hq⟩
      · cases h
        exact .inl rfl
    · cases h
      exact .inl rfl
  | loop a =>
    simp only [Option.ite_none_right_eq_some] at h
    obtain ⟨q, hq, rfl⟩ := Option.map_eq_some_iff.mp h.2
    exact .inr ⟨a, hq⟩

/-- What holds of the queue under any schedule of the receive loop and the handlers holds of
it in the running process. -/
theorem queue_reachable (h : Reachable step anyStep start s) :
    Reachable AckServer.step anyStep .start s.queue := by
  refine h.invariant (P := fun s => Reachable AckServer.step anyStep .start s.queue) .start ?_
  intro s e t hs _ hstep
  obtain heq | ⟨a, ha⟩ := queue_step hstep
  · rwa [heq]
  · exact .step hs trivial ha

end Process

end NetTools.TFTP

namespace NetTools

open CText Schedule

/-- Both servers run with an open service socket exactly as long as every step is harmless. -/
theorem file_servers_survive_iff (s : FTP.Server) (t : TFTP.Process) :
    (Reachable FTP.Server.step FTP.Server.Harmless .start s ↔
      Reachable FTP.Server.step anyStep .start s ∧ s.Alive) ∧
    (Reachable TFTP.Process.step TFTP.Process.Harmless .start t ↔
      Reachable TFTP.Process.step anyStep .start t ∧ t.Alive) :=
  ⟨FTP.Server.reachable_harmless_iff, TFTP.Process.reachable_harmless_iff⟩

set_option maxRecDepth 8192 in
/-- A `GET` beyond the end of the file ends either server, and one data packet of the TFTP
server that cannot be sent closes the socket of all. -/
theorem bad_range_ends_server :
    (∃ s, Reachable FTP.Server.step anyStep .start s ∧ s.status = .exited exitFailure) ∧
    (∃ s, Reachable TFTP.Process.step anyStep .start s ∧ s.status = .exited exitFailure) ∧
    (∃ s, Reachable TFTP.Process.step anyStep .start s ∧ s.socketOpen = false ∧
      s.status = .running) ∧
    ¬ ((∀ s, Reachable FTP.Server.step anyStep .start s → s.Alive) ∧
      ∀ s, Reachable TFTP.Process.step anyStep .start s → s.Alive) := by
  have hftp : ∃ s, Reachable FTP.Server.step anyStep .start s ∧ s.status = .exited exitFailure := by
    refine exists_reachable_of_replayIf [.accept true,
      .recv (some (ascii "GET f 0 10")) (ascii "0123456789"),
      .fopen (some (ascii "abc")), .fopen (some (ascii "abc"))] _ ?_
    decide
  have htftp : ∃ s, Reachable TFTP.Process.step anyStep .start s ∧
      s.status = .exited exitFailure := by
    refine exists_reachable_of_replayIf [.receive 7 (ascii "GET f 0 10") 0 (0, 0) (some 0),
      .fopen 0 (some (ascii "abc"))] _ ?_
    decide
  have hclosed : ∃ s, Reachable TFTP.Process.step anyStep .start s ∧
      s.socketOpen = false ∧ s.status = .running := by
    refine exists_reachable_of_replayIf [.receive 7 (ascii "GET f 0 3") 0 (0, 0) (some 0),
      .fopen 0 (some (ascii "abc")), .loop (.sendFails 0)] _ ?_
    decide
  refine ⟨hftp, htftp, hclosed, fun h => ?_⟩
  obtain ⟨s, hs, hend⟩ := hftp
  exact ProcessStatus.noConfusion ((h.1 s hs).1.symm.trans hend)

end NetTools
