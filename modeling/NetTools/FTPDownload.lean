import NetTools.FTPNetwork
import NetTools.DownloadContents
import NetTools.CheckExchange
import Mathlib.Algebra.BigOperators.Ring.Finset
import Mathlib.Order.Interval.Finset.Nat

namespace NetTools.FTP

open CText Schedule Download CArray SliceWrites
open TFTP (IsFilename)

/-- The calls that a server has still to make for a connection; `size` is that of the chunk. -/
def Place.rank (size : ℕ) : Place → ℕ
  | .receiving => 2*size+3
  | .opening _ => 2*size+2
  | .reopening _ => 2*size+1
  | place => place.callsLeft

def Stage.rank : Stage → ℕ
  | .connecting => 2
  | .connected => 1
  | .requested => 0

namespace Session

/-- The steps that the thread and its server have still to make. -/
def rank (size : ℕ) (s : Session) : ℕ :=
  s.thread.stage.rank+s.thread.bytesRemaining.toNat+
    (match s.server with
    | some srv => srv.place.rank size
    | none => if s.thread.closed then 0 else 2*size+4)

/-- What the client has received and what is on its way. -/
def arrived (s : Session) : Bytes := s.thread.copied.flatten ++ s.thread.toClient

/-- The connection from its beginning to its end, for the command and the slice that it is about. -/
inductive At (command : Command) (slice : Bytes) (s : Session) : Prop
  | waiting (hnone : s.server = none) (haccepted : s.thread.accepted = false)
      (hclosed : s.thread.closed = false) (harrived : s.arrived = [])
      (hrequest : s.thread.toServer = if s.thread.stage = .requested then command.request else [])
  | receiving {srv : Server} (hsrv : s.server = some srv) (haccepted : s.thread.accepted = true)
      (hclosed : s.thread.closed = false) (harrived : s.arrived = [])
      (hrequest : s.thread.toServer = if s.thread.stage = .requested then command.request else [])
      (hstage : s.thread.stage ≠ .connecting) (hrun : srv.status = .running)
      (hplace : srv.place = .receiving) (hstream : srv.stream = [])
  | opening {srv : Server} (hsrv : s.server = some srv) (haccepted : s.thread.accepted = true)
      (hclosed : s.thread.closed = false) (harrived : s.arrived = []) (hrequest : s.thread.toServer = [])
      (hstage : s.thread.stage = .requested) (hrun : srv.status = .running)
      (hplace : srv.place = .opening command ∨ srv.place = .reopening command)
      (hstream : srv.stream = [])
  | transferring {srv : Server} (hsrv : s.server = some srv) (haccepted : s.thread.accepted = true)
      (hclosed : s.thread.closed = false) (harrived : s.arrived = srv.stream)
      (hrequest : s.thread.toServer = []) (hstage : s.thread.stage = .requested)
      (hrun : srv.status = .running) (hserves : srv.Serves slice) (hplace : srv.place ≠ .accepting)
  | closed (hnone : s.server = none) (haccepted : s.thread.accepted = true)
      (hclosed : s.thread.closed = true) (harrived : s.arrived = slice)
      (hrequest : s.thread.toServer = []) (hstage : s.thread.stage = .requested)

/-- Besides, `bytes_remaining` counts what is missing of the slice. -/
structure Ok (command : Command) (slice : Bytes) (s : Session) : Prop where
  at_ : s.At command slice
  remaining : s.thread.bytesRemaining = slice.length-s.thread.copied.flatten.length

end Session

namespace Server

variable {s t : Server} {c : Call}

/-- Only `accept` takes anything out of the stream. -/
theorem stream_step (h : s.step c = some t) (hp : s.place ≠ .accepting) : s.stream <+: t.stream := by
  obtain ⟨-, hstep⟩ := step_cases h
  cases hstep with
  | accept hp' => exact absurd hp' hp
  | @recv data stale =>
    unfold receive
    split
    · exact List.prefix_rfl
    · exact List.prefix_rfl
    · split <;> exact List.prefix_rfl
  | @answer text result =>
    cases result with
    | sent n => exact List.prefix_append _ _
    | failed => exact List.prefix_rfl
    | brokenPipe => exact List.prefix_rfl
  | fopen => split_ifs <;> exact List.prefix_rfl
  | @reopen command file =>
    cases command <;> cases file
    · exact List.prefix_rfl
    · exact List.prefix_rfl
    · exact List.prefix_rfl
    · simp only [reopen]
      split_ifs <;> exact List.prefix_rfl
  | fread => split_ifs <;> exact List.prefix_rfl
  | @send tr result =>
    have hgo (u : Server) (tr' : Transfer) : (u.goOn tr').stream = u.stream := by
      simp only [goOn]
      split_ifs <;> rfl
    cases result with
    | brokenPipe => exact List.prefix_rfl
    | failed =>
      change s.stream <+: (s.goOn (tr.wrote (2^64-1))).stream
      rw [hgo]
    | sent n =>
      cases n with
      | zero => exact List.prefix_rfl
      | succ n =>
        rw [send_sent (Nat.succ_pos n), hgo]
        exact List.prefix_append _ _

/-- A whole request leads to the first `fopen`. -/
theorem step_request {command : Command} (h : command.Sendable) (hf : IsFilename command.filename)
    {stale : Bytes} (hstep : s.step (.recv (some command.request) stale) = some t) :
    t = s.goTo (.opening command) := by
  have hparse : parse (command.request.takeWhile fun b => b ≠ 0) stale = .accepted command := by
    rw [takeWhile_ne_zero (zero_notMem_request h)]
    exact parse_request h hf stale
  have hreceive : s.receive (some command.request) stale = s.goTo (.opening command) := by
    obtain ⟨b, rest, hdata⟩ := List.exists_cons_of_ne_nil (request_ne_nil command)
    rw [hdata] at hparse ⊢
    simp only [receive, hparse]
  obtain ⟨-, hcases⟩ := step_cases hstep
  cases hcases with
  | recv => exact hreceive

end Server

/-- A `GET` inside the file, of a name that the request carries. -/
structure Command.Serveable (command : Command) (file slice : Bytes) : Prop where
  sendable : command.Sendable
  name : IsFilename command.filename
  range : ∃ offset size, command = .get command.filename offset size ∧ 0 < size ∧
    offset+size ≤ file.length ∧ slice = (file.drop offset).take size
  fits : file.length < 2^63

namespace Session

variable {command : Command} {file slice : Bytes} {s t : Session}

/-- A step of a thread that only moves bytes from the way to the memory. -/
theorem At.recv {th : Thread} (h : s.At command slice) (hstage : th.stage = s.thread.stage)
    (haccepted : th.accepted = s.thread.accepted) (hclosed : th.closed = s.thread.closed)
    (hrequest : th.toServer = s.thread.toServer)
    (harrived : (⟨th, s.server⟩ : Session).arrived = s.arrived) :
    At command slice { s with thread := th } := by
  cases h with
  | waiting hnone ha hc harr hreq =>
    exact .waiting hnone (haccepted.trans ha) (hclosed.trans hc) (harrived.trans harr)
      (by dsimp only; rw [hrequest, hreq, hstage])
  | receiving hsrv ha hc harr hreq hst hrun hplace hstream =>
    exact .receiving hsrv (haccepted.trans ha) (hclosed.trans hc) (harrived.trans harr)
      (by dsimp only; rw [hrequest, hreq, hstage]) (by dsimp only; rw [hstage]; exact hst) hrun hplace
      hstream
  | opening hsrv ha hc harr hreq hst hrun hplace hstream =>
    exact .opening hsrv (haccepted.trans ha) (hclosed.trans hc) (harrived.trans harr)
      (hrequest.trans hreq) (hstage.trans hst) hrun hplace hstream
  | transferring hsrv ha hc harr hreq hst hrun hserves hplace =>
    exact .transferring hsrv (haccepted.trans ha) (hclosed.trans hc) (harrived.trans harr)
      (hrequest.trans hreq) (hstage.trans hst) hrun hserves hplace
  | closed hnone ha hc harr hreq hst =>
    exact .closed hnone (haccepted.trans ha) (hclosed.trans hc) (harrived.trans harr)
      (hrequest.trans hreq) (hstage.trans hst)

/-- What a step of a session keeps, and what it spends. -/
structure Moves (command : Command) (slice : Bytes) (s t : Session) : Prop where
  ok : t.Ok command slice
  rank : t.rank slice.length < s.rank slice.length

theorem Ok.connect (h : s.Ok command slice) (hs : s.thread.stage = .connecting) :
    Moves command slice s { s with thread := { s.thread with stage := .connected } } := by
  constructor
  · refine ⟨?_, h.remaining⟩
    cases h.at_ with
    | waiting hnone ha hc harr hreq =>
      rw [hs] at hreq
      exact .waiting hnone ha hc harr hreq
    | receiving hsrv ha hc harr hreq hst => exact absurd hs hst
    | opening hsrv ha hc harr hreq hst => cases hs.symm.trans hst
    | transferring hsrv ha hc harr hreq hst => cases hs.symm.trans hst
    | closed hnone ha hc harr hreq hst => cases hs.symm.trans hst
  · simp only [Session.rank, hs, Stage.rank]
    omega

theorem Ok.request (h : s.Ok command slice) (hs : s.thread.stage = .connected) :
    Moves command slice s
      { s with thread := { s.thread with stage := .requested, toServer := command.request } } := by
  constructor
  · refine ⟨?_, h.remaining⟩
    cases h.at_ with
    | waiting hnone ha hc harr => exact .waiting hnone ha hc harr rfl
    | receiving hsrv ha hc harr hreq hst hrun hplace hstream =>
      exact .receiving hsrv ha hc harr rfl (by simp) hrun hplace hstream
    | opening hsrv ha hc harr hreq hst => cases hs.symm.trans hst
    | transferring hsrv ha hc harr hreq hst => cases hs.symm.trans hst
    | closed hnone ha hc harr hreq hst => cases hs.symm.trans hst
  · simp only [Session.rank, hs, Stage.rank]
    omega

theorem Ok.recv (h : s.Ok command slice) {n : ℕ} (hn : 0 < n)
    (hle : (n : Int) ≤ s.thread.bytesRemaining) (hlen : n ≤ s.thread.toClient.length) :
    Moves command slice s
      { s with thread :=
        { s.thread with
          toClient := s.thread.toClient.drop n
          bytesRemaining := s.thread.bytesRemaining-n
          copied := s.thread.copied ++ [s.thread.toClient.take n] } } := by
  constructor
  · refine ⟨h.at_.recv rfl rfl rfl rfl ?_, ?_⟩
    · simp only [arrived, List.flatten_append, List.flatten_singleton, List.append_assoc,
        List.take_append_drop]
    · have htake : (s.thread.toClient.take n).length = n := by
        rw [List.length_take, Nat.min_eq_left hlen]
      have hrem := h.remaining
      simp only [List.flatten_append, List.flatten_singleton, List.length_append, htake]
      push_cast
      omega
  · simp only [Session.rank]
    omega

theorem Ok.accept {srv : Server} (h : s.Ok command slice) (hs : s.thread.stage ≠ .connecting)
    (ha : s.thread.accepted = false) (hnone : s.server = none) (hrun : srv.status = .running) :
    Moves command slice s
      ⟨{ s.thread with accepted := true, closed := false },
        some ({ srv with stream := [] }.goTo .receiving)⟩ := by
  cases h.at_ with
  | waiting hnone' ha' hc harr hreq =>
    constructor
    · exact ⟨.receiving rfl rfl rfl harr hreq hs hrun rfl rfl, h.remaining⟩
    · simp only [Session.rank, hnone, hc]
      change _+_+(2*slice.length+3) < _+_+(2*slice.length+4)
      omega
  | receiving hsrv => cases hnone.symm.trans hsrv
  | opening hsrv => cases hnone.symm.trans hsrv
  | transferring hsrv => cases hnone.symm.trans hsrv
  | closed hnone' ha' => cases ha.symm.trans ha'

/-- The session behind a call of its server. -/
def served (s : Session) (srv t : Server) (toServer : Bytes) : Session :=
  ⟨{ s.thread with
      toServer := toServer
      toClient := s.thread.toClient ++ t.stream.drop srv.stream.length
      closed := t.place = .accepting },
    if t.place = .accepting then none else some t⟩

theorem served_server_of_ne {srv u : Server} (s : Session) (toServer : Bytes)
    (hp : u.place ≠ .accepting) : (s.served srv u toServer).server = some u := if_neg hp

/-- What the server writes is on its way. -/
theorem arrived_served {srv u : Server} (toServer : Bytes) (h : srv.stream <+: u.stream)
    (harrived : s.arrived = srv.stream) : (s.served srv u toServer).arrived = u.stream := by
  obtain ⟨rest, hrest⟩ := h
  have hdrop : u.stream.drop srv.stream.length = rest := by
    rw [← hrest, List.drop_left]
  calc s.thread.copied.flatten ++ (s.thread.toClient ++ u.stream.drop srv.stream.length)
      = s.arrived ++ rest := by rw [hdrop, arrived, List.append_assoc]
    _ = u.stream := by rw [harrived, hrest]

/-- The rank falls when the server's does. -/
theorem rank_served_lt {srv u : Server} {toServer : Bytes} {size : ℕ} (hserver : s.server = some srv)
    (h : u.place ≠ .accepting → u.place.rank size < srv.place.rank size)
    (h' : u.place = .accepting → 0 < srv.place.rank size) :
    (s.served srv u toServer).rank size < s.rank size := by
  simp only [Session.rank, served, hserver]
  by_cases hp : u.place = .accepting
  · have hlt := h' hp
    simp only [hp, decide_true, ↓reduceIte]
    omega
  · have hlt := h hp
    simp only [hp, ↓reduceIte]
    omega

/-- In the loops the rank is the number of calls that are left. -/
theorem rank_of_serves {srv : Server} (h : srv.Serves slice) (hp : srv.place ≠ .accepting)
    (size : ℕ) : srv.place.rank size = srv.place.callsLeft ∧ srv.place.wanted = none := by
  cases h with
  | reading hp' => rw [hp']; exact ⟨rfl, rfl⟩
  | sending hp' => rw [hp']; exact ⟨rfl, rfl⟩
  | done hp' => exact absurd hp' hp

/-- A server in the loops of its `GET`, or behind them. -/
theorem ok_served_of_serves {srv u : Server} (h : s.Ok command slice)
    (haccepted : s.thread.accepted = true) (hstage : s.thread.stage = .requested)
    (harrived : (s.served srv u []).arrived = u.stream) (hrun : u.status = .running)
    (hserves : u.Serves slice) : (s.served srv u []).Ok command slice := by
  refine ⟨?_, h.remaining⟩
  by_cases hp : u.place = .accepting
  · have hstream : u.stream = slice := by
      cases hserves with
      | reading hp' => cases hp.symm.trans hp'
      | sending hp' => cases hp.symm.trans hp'
      | done hp' hstream => exact hstream
    exact .closed (if_pos hp) haccepted (decide_eq_true hp) (harrived.trans hstream) rfl hstage
  · exact .transferring (if_neg hp) haccepted (decide_eq_false hp) harrived rfl hstage hrun hserves hp

theorem Ok.serve_request {srv u : Server} {stale : Bytes} (hc : command.Serveable file slice)
    (h : s.Ok command slice) (hserver : s.server = some srv) (hne : s.thread.toServer ≠ [])
    (hstep : srv.step (.recv (some s.thread.toServer) stale) = some u) :
    Moves command slice s (s.served srv u []) ∧ u.status = .running := by
  cases h.at_ with
  | waiting hnone => cases hnone.symm.trans hserver
  | closed hnone => cases hnone.symm.trans hserver
  | opening hsrv ha hcl harr hreq => exact absurd hreq hne
  | transferring hsrv ha hcl harr hreq => exact absurd hreq hne
  | @receiving srv' hsrv ha hcl harr hreq hst hrun hplace hstream =>
    obtain rfl : srv' = srv := Option.some.inj (hsrv.symm.trans hserver)
    have hstage : s.thread.stage = .requested := by
      by_contra hstage
      rw [if_neg hstage] at hreq
      exact hne hreq
    rw [hreq, if_pos hstage] at hstep
    obtain rfl := Server.step_request hc.sendable hc.name hstep
    have hgo : (srv'.goTo (.opening command)).place ≠ .accepting := by simp [Server.goTo]
    have harrived : (s.served srv' (srv'.goTo (.opening command)) []).arrived = srv'.stream :=
      arrived_served [] List.prefix_rfl (harr.trans hstream.symm)
    refine ⟨⟨⟨.opening (served_server_of_ne s [] hgo) ha (decide_eq_false hgo) (harrived.trans hstream)
      rfl hstage hrun (Or.inl rfl) hstream, h.remaining⟩, ?_⟩, hrun⟩
    refine rank_served_lt hserver (fun _ => ?_) fun hp => absurd hp hgo
    rw [hplace]
    exact Nat.lt_succ_self _

theorem Ok.serve_fopen {srv u : Server} {name : Bytes} (hc : command.Serveable file slice)
    (h : s.Ok command slice) (hserver : s.server = some srv) (hwanted : srv.place.wanted = some name)
    (hstep : srv.step (.fopen (if name = command.filename then some file else none)) = some u) :
    Moves command slice s (s.served srv u s.thread.toServer) ∧ u.status = .running := by
  cases h.at_ with
  | waiting hnone => cases hnone.symm.trans hserver
  | closed hnone => cases hnone.symm.trans hserver
  | receiving hsrv ha hcl harr hreq hst hrun hplace =>
    obtain rfl := Option.some.inj (hsrv.symm.trans hserver)
    rw [hplace] at hwanted
    cases hwanted
  | transferring hsrv ha hcl harr hreq hst hrun hserves hplace =>
    obtain rfl := Option.some.inj (hsrv.symm.trans hserver)
    rw [(rank_of_serves hserves hplace 0).2] at hwanted
    cases hwanted
  | @opening srv' hsrv ha hcl harr hreq hst hrun hplace hstream =>
    obtain rfl : srv' = srv := Option.some.inj (hsrv.symm.trans hserver)
    rw [hreq]
    have hname : name = command.filename := by
      rcases hplace with hplace | hplace
      · rw [hplace] at hwanted
        exact (Option.some.inj hwanted).symm
      · rw [hplace] at hwanted
        exact (Option.some.inj hwanted).symm
    rw [if_pos hname] at hstep
    obtain ⟨offset, size, hget, hsize, hrange, hslice⟩ := hc.range
    obtain ⟨-, hcases⟩ := step_cases hstep
    rcases hplace with hplace | hplace
    -- the first `fopen`
    · cases hcases with
      | reopen hp => cases hplace.symm.trans hp
      | @fopen command' file' hp =>
        cases hplace.symm.trans hp
        rw [if_neg (Option.some_ne_none file)]
        have hgo : (srv'.goTo (.reopening command)).place ≠ .accepting := by simp [Server.goTo]
        have harrived : (s.served srv' (srv'.goTo (.reopening command)) []).arrived = srv'.stream :=
          arrived_served [] List.prefix_rfl (harr.trans hstream.symm)
        refine ⟨⟨⟨.opening (served_server_of_ne s [] hgo) ha (decide_eq_false hgo)
          (harrived.trans hstream) rfl hst hrun (Or.inr rfl) hstream, h.remaining⟩, ?_⟩, hrun⟩
        refine rank_served_lt hserver (fun _ => ?_) fun hp => absurd hp hgo
        rw [hplace]
        exact Nat.lt_succ_self _
    -- the second one finds the range inside the file
    · cases hcases with
      | fopen hp => cases hplace.symm.trans hp
      | @reopen command' file' hp =>
        cases hplace.symm.trans hp
        have hfits := hc.fits
        obtain ⟨hstatus, hserves, hcalls⟩ :=
          Server.serves_reopen command.filename hsize hrange (by omega) hstream
        rw [← hget, ← hslice] at hserves
        rw [← hget] at hstatus hcalls
        have hprefix : srv'.stream <+: (srv'.reopen (some file) command).stream := by
          rw [hstream]
          exact List.nil_prefix
        refine ⟨⟨ok_served_of_serves h ha hst (arrived_served [] hprefix (harr.trans hstream.symm))
          (hstatus.trans hrun) hserves, ?_⟩, hstatus.trans hrun⟩
        have hlen : slice.length = size := by
          rw [hslice, List.length_take, List.length_drop]
          omega
        refine rank_served_lt hserver (fun hne => ?_) fun _ => ?_
        · rw [(rank_of_serves hserves hne slice.length).1, hcalls, hplace, hlen]
          exact Nat.lt_succ_self _
        · rw [hplace]
          exact Nat.succ_pos _

theorem Ok.serve_call {srv u : Server} {c : Call} (h : s.Ok command slice)
    (hserver : s.server = some srv) (hprog : srv.Progresses c) (hstep : srv.step c = some u) :
    Moves command slice s (s.served srv u s.thread.toServer) ∧ u.status = .running := by
  have hloops (hreading : ∀ t, srv.place ≠ .reading t) (hsending : ∀ t, srv.place ≠ .sending t) :
      ∃ text, srv.place = .answering text := by
    obtain ⟨-, hcases⟩ := step_cases hstep
    cases hcases with
    | accept => cases hprog
    | recv => cases hprog
    | fopen => cases hprog
    | reopen => cases hprog
    | answer hp => exact ⟨_, hp⟩
    | fread hp => exact absurd hp (hreading _)
    | send hp => exact absurd hp (hsending _)
  cases h.at_ with
  | waiting hnone => cases hnone.symm.trans hserver
  | closed hnone => cases hnone.symm.trans hserver
  | receiving hsrv ha hcl harr hreq hst hrun hplace =>
    obtain rfl := Option.some.inj (hsrv.symm.trans hserver)
    obtain ⟨text, htext⟩ := hloops (by simp [hplace]) (by simp [hplace])
    cases hplace.symm.trans htext
  | opening hsrv ha hcl harr hreq hst hrun hplace =>
    obtain rfl := Option.some.inj (hsrv.symm.trans hserver)
    rcases hplace with hplace | hplace
    · obtain ⟨text, htext⟩ := hloops (by simp [hplace]) (by simp [hplace])
      cases hplace.symm.trans htext
    · obtain ⟨text, htext⟩ := hloops (by simp [hplace]) (by simp [hplace])
      cases hplace.symm.trans htext
  | @transferring srv' hsrv ha hcl harr hreq hst hrun hserves hplace =>
    obtain rfl : srv' = srv := Option.some.inj (hsrv.symm.trans hserver)
    obtain ⟨⟨hrun', hserves'⟩, hlt⟩ := Server.serves_step hrun hserves hprog hstep
    have hprefix := Server.stream_step hstep hplace
    have hrank := (rank_of_serves hserves hplace slice.length).1
    rw [hreq]
    refine ⟨⟨ok_served_of_serves h ha hst (arrived_served [] hprefix harr) hrun' hserves', ?_⟩, hrun'⟩
    refine rank_served_lt hserver (fun hne => ?_) fun _ => ?_
    · rw [(rank_of_serves hserves' hne slice.length).1, hrank]
      exact hlt
    · rw [hrank]
      omega

end Session

namespace Job

variable (job : Job) {i : ℕ}

theorem slice_eq (hi : i < job.tasks.length) :
    job.slice i = (job.file.drop (outputOf job.tasks i)).take (job.size i) := by
  have htask := List.getElem?_eq_getElem hi
  rw [slice, size, outputOf_eq job.tiles htask, htask]
  rfl

theorem range (hi : i < job.tasks.length) :
    0 < job.size i ∧ outputOf job.tasks i+job.size i ≤ job.file.length := by
  have htask := List.getElem?_eq_getElem hi
  have hm := List.getElem_mem hi
  rw [size, outputOf_eq job.tiles htask, htask]
  exact ⟨job.tiles.nonempty _ hm, job.tiles.inside _ hm⟩

theorem slice_length (hi : i < job.tasks.length) : (job.slice i).length = job.size i := by
  have hrange := job.range hi
  rw [job.slice_eq hi, List.length_take, List.length_drop]
  omega

/-- Every chunk of the plan can be asked for and served. -/
theorem serveable (hi : i < job.tasks.length) :
    (job.command i).Serveable job.file (job.slice i) := by
  obtain ⟨hpos, hin⟩ := job.range hi
  have hfits := job.fits
  refine ⟨⟨job.noNul, by omega, hpos, by omega⟩, job.name, ?_, hfits⟩
  exact ⟨outputOf job.tasks i, job.size i, rfl, hpos, hin, job.slice_eq hi⟩

end Job

namespace Net

variable {job : Job} {s t : Net}

/-- The invariant: every session is well on its way, a server that serves nobody waits in `accept`,
and `file_data` has been given the pieces that the threads have received. -/
structure Sound (job : Job) (s : Net) : Prop where
  sessions : ∀ i < job.tasks.length, (s.session job i).Ok (job.command i) (job.slice i)
  idle : ∀ k, s.serving k = none →
    (s.servers k).status = .running ∧ (s.servers k).place = .accepting
  busy : ∀ k i, s.serving k = some i → i < job.tasks.length ∧ job.home i = k
  thread : ∀ p ∈ s.appends, p.1 < job.tasks.length ∧ p.2 ≠ []
  pieces : ∀ i, piecesOf i s.appends = (s.threads i).copied

theorem put_threads_self (s : Net) (i : ℕ) (th : Thread) : (s.put i th).threads i = th :=
  Function.update_self _ _ _

theorem put_threads_ne (s : Net) {i j : ℕ} (hj : j ≠ i) (th : Thread) :
    (s.put i th).threads j = s.threads j :=
  Function.update_of_ne hj _ _

theorem session_put_self (i : ℕ) (th : Thread) :
    (s.put i th).session job i = ⟨th, (s.session job i).server⟩ := by
  rw [session, put_threads_self]
  rfl

theorem session_put_ne {i j : ℕ} (hj : j ≠ i) (th : Thread) :
    (s.put i th).session job j = s.session job j := by
  rw [session, put_threads_ne s hj]
  rfl

theorem session_served {k i : ℕ} (hhome : job.home i = k) (srv : Server) (th : Thread) :
    (s.served k i srv th).session job i =
      (⟨th, none⟩ : Session).served (s.servers k) srv th.toServer := by
  simp only [session, served, hhome, Function.update_self, Session.served]
  by_cases hp : srv.place = .accepting
  · simp only [hp, ↓reduceIte, reduceCtorEq]
  · simp only [hp, ↓reduceIte]

/-- The connections of a server's other clients wait. -/
theorem session_served_ne {k i j : ℕ} (hk : s.serving k = none ∨ s.serving k = some i) (hj : j ≠ i)
    (srv : Server) (th : Thread) :
    (s.served k i srv th).session job j = s.session job j := by
  have hthread : (s.served k i srv th).threads j = s.threads j := Function.update_of_ne hj _ _
  rw [session, session, hthread]
  by_cases hhome : job.home j = k
  · have hother : s.serving k ≠ some j := by
      rcases hk with hk | hk <;> rw [hk]
      · exact Option.some_ne_none j ∘ Eq.symm
      · exact fun h => hj (Option.some.inj h).symm
    have hother' : (s.served k i srv th).serving k ≠ some j := by
      simp only [served, Function.update_self]
      split_ifs
      · exact Option.some_ne_none j ∘ Eq.symm
      · exact fun h => hj (Option.some.inj h).symm
    rw [hhome, if_neg hother, if_neg hother']
  · simp only [served, Function.update_of_ne hhome]

/-- What a step of the net keeps: it moves one session. -/
structure Moves (job : Job) (s t : Net) (i : ℕ) : Prop where
  lt : i < job.tasks.length
  session : Session.Moves (job.command i) (job.slice i) (s.session job i) (t.session job i)
  others : ∀ j, j ≠ i → t.session job j = s.session job j

theorem Moves.sessions {i : ℕ} (h : Moves job s t i) (hs : s.Sound job) :
    ∀ j < job.tasks.length, (t.session job j).Ok (job.command j) (job.slice j) := by
  intro j hj
  by_cases hji : j = i
  · subst hji
    exact h.session.ok
  · rw [h.others j hji]
    exact hs.sessions j hj

/-- A call of a thread that does not store anything. -/
theorem sound_put {i : ℕ} (th : Thread) (hs : s.Sound job) (hi : i < job.tasks.length)
    (h : Session.Moves (job.command i) (job.slice i) (s.session job i) ⟨th, (s.session job i).server⟩)
    (hcopied : th.copied = (s.threads i).copied) :
    (s.put i th).Sound job ∧ Moves job s (s.put i th) i := by
  have hmoves : Moves job s (s.put i th) i := by
    refine ⟨hi, ?_, fun j hj => session_put_ne hj th⟩
    rw [session_put_self]
    exact h
  refine ⟨⟨hmoves.sessions hs, hs.idle, hs.busy, hs.thread, fun j => ?_⟩, hmoves⟩
  rw [show (s.put i th).appends = s.appends from rfl, hs.pieces j]
  by_cases hj : j = i
  · subst hj
    rw [put_threads_self, hcopied]
  · rw [put_threads_ne s hj]

/-- A call of a server for the thread that it serves. -/
theorem sound_served {k i : ℕ} (srv : Server) (th : Thread) (hs : s.Sound job)
    (hi : i < job.tasks.length) (hhome : job.home i = k)
    (hk : s.serving k = none ∨ s.serving k = some i)
    (h : Session.Moves (job.command i) (job.slice i) (s.session job i)
      ((⟨th, none⟩ : Session).served (s.servers k) srv th.toServer))
    (hcopied : th.copied = (s.threads i).copied) (hrun : srv.status = .running) :
    (s.served k i srv th).Sound job ∧ Moves job s (s.served k i srv th) i := by
  have hmoves : Moves job s (s.served k i srv th) i := by
    refine ⟨hi, ?_, fun j hj => session_served_ne hk hj srv th⟩
    rw [session_served hhome]
    exact h
  refine ⟨⟨hmoves.sessions hs, ?_, ?_, hs.thread, fun j => ?_⟩, hmoves⟩
  · intro l hl
    by_cases hlk : l = k
    · subst hlk
      simp only [served, Function.update_self] at hl ⊢
      split_ifs at hl with hp
      exact ⟨hrun, hp⟩
    · simp only [served, Function.update_of_ne hlk] at hl ⊢
      exact hs.idle l hl
  · intro l j hl
    by_cases hlk : l = k
    · subst hlk
      simp only [served, Function.update_self] at hl
      split_ifs at hl
      cases hl
      exact ⟨hi, hhome⟩
    · simp only [served, Function.update_of_ne hlk] at hl
      exact hs.busy l j hl
  · rw [show (s.served k i srv th).appends = s.appends from rfl, hs.pieces j]
    by_cases hj : j = i
    · subst hj
      simp only [served, Function.update_self, hcopied]
    · simp only [served, Function.update_of_ne hj]

theorem piecesOf_append (i : ℕ) (xs ys : List (ℕ × Bytes)) :
    piecesOf i (xs ++ ys) = piecesOf i xs ++ piecesOf i ys := by
  simp only [piecesOf, List.filter_append, List.map_append]

theorem piecesOf_single (i j : ℕ) (data : Bytes) :
    piecesOf i [(j, data)] = if j = i then [data] else [] := by
  simp only [piecesOf, List.filter_cons, List.filter_nil, decide_eq_true_eq]
  split_ifs <;> rfl

/-- What a thread receives goes to its part of `file_data`. -/
theorem sound_recv {i : ℕ} (th : Thread) (data : Bytes) (hs : s.Sound job)
    (hi : i < job.tasks.length)
    (h : Session.Moves (job.command i) (job.slice i) (s.session job i) ⟨th, (s.session job i).server⟩)
    (hcopied : th.copied = (s.threads i).copied ++ [data]) (hdata : data ≠ []) :
    Sound job { s.put i th with appends := s.appends ++ [(i, data)] } ∧
      Moves job s { s.put i th with appends := s.appends ++ [(i, data)] } i := by
  have hmoves : Moves job s { s.put i th with appends := s.appends ++ [(i, data)] } i := by
    refine ⟨hi, ?_, fun j hj => session_put_ne hj th⟩
    change Session.Moves _ _ _ ((s.put i th).session job i)
    rw [session_put_self]
    exact h
  refine ⟨⟨hmoves.sessions hs, hs.idle, hs.busy, ?_, fun j => ?_⟩, hmoves⟩
  · intro p hp
    rcases List.mem_append.mp hp with hp | hp
    · exact hs.thread p hp
    · rw [List.mem_singleton.mp hp]
      exact ⟨hi, hdata⟩
  · change piecesOf j (s.appends ++ [(i, data)]) = ((s.put i th).threads j).copied
    rw [piecesOf_append, piecesOf_single, hs.pieces j]
    by_cases hj : j = i
    · subst hj
      rw [if_pos rfl, put_threads_self, hcopied]
    · rw [if_neg (Ne.symm hj), List.append_nil, put_threads_ne s hj]

theorem server_of_serving {k i : ℕ} (hs : s.Sound job) (hk : s.serving k = some i) :
    (s.session job i).server = some (s.servers k) := by
  obtain ⟨-, rfl⟩ := hs.busy k i hk
  exact if_pos hk

theorem sound_step {a : NetAction} (hs : s.Sound job) (h : s.step job a = some t) :
    t.Sound job ∧ ∃ i, Moves job s t i := by
  cases a with
  | connect i =>
    simp only [step, Option.ite_none_right_eq_some, Option.some.injEq] at h
    obtain ⟨⟨hi, hstage⟩, rfl⟩ := h
    have hput := sound_put _ hs hi ((hs.sessions i hi).connect hstage) rfl
    exact ⟨hput.1, i, hput.2⟩
  | request i =>
    simp only [step, Option.ite_none_right_eq_some, Option.some.injEq] at h
    obtain ⟨⟨hi, hstage⟩, rfl⟩ := h
    have hput := sound_put _ hs hi ((hs.sessions i hi).request hstage) rfl
    exact ⟨hput.1, i, hput.2⟩
  | recv i n =>
    simp only [step, Option.ite_none_right_eq_some, Option.some.injEq] at h
    obtain ⟨⟨hi, hstage, hpos, hn, hbuf, hle, hlen⟩, rfl⟩ := h
    have hmoves := (hs.sessions i hi).recv hn hle hlen
    -- no data would be the end of the stream, which does not come before the chunk is complete
    have hdata : (s.threads i).toClient.take n ≠ [] := by
      rw [← List.length_pos_iff, List.length_take]
      omega
    have hput := sound_recv _ ((s.threads i).toClient.take n) hs hi hmoves rfl hdata
    exact ⟨hput.1, i, hput.2⟩
  | accept k i =>
    simp only [step, Option.ite_none_right_eq_some, Option.map_eq_some_iff] at h
    obtain ⟨⟨hi, hhome, hstage, haccepted, hnone⟩, srv, hsrv, rfl⟩ := h
    -- a server accepts when it serves nobody, with an empty stream for the new connection
    have hsession : (s.session job i).server = none := by
      rw [session, hhome, hnone]
      rfl
    obtain ⟨hrun, hplace⟩ := hs.idle k hnone
    have hsrv' : srv = { s.servers k with stream := [] }.goTo .receiving := by
      obtain ⟨-, hcases⟩ := step_cases hsrv
      cases hcases with
      | accept => rfl
    subst hsrv'
    have hmoves := (hs.sessions i hi).accept hstage haccepted hsession hrun
    have hstream : (s.threads i).toClient =
        (s.threads i).toClient ++ ([] : Bytes).drop (s.servers k).stream.length := by
      rw [List.drop_nil, List.append_nil]
    have hserved := sound_served ({ s.servers k with stream := [] }.goTo .receiving)
      { s.threads i with accepted := true } hs hi hhome (Or.inl hnone) ?_ rfl hrun
    · exact ⟨hserved.1, i, hserved.2⟩
    · rw [Session.served]
      dsimp only [Server.goTo]
      rw [← hstream]
      exact hmoves
  | recvRequest k stale =>
    obtain ⟨i, hk, h⟩ := Option.bind_eq_some_iff.mp h
    simp only [Option.ite_none_left_eq_some, Option.map_eq_some_iff] at h
    obtain ⟨hne, srv, hsrv, rfl⟩ := h
    obtain ⟨hi, hhome⟩ := hs.busy k i hk
    obtain ⟨hmoves, hrun⟩ := (hs.sessions i hi).serve_request (job.serveable hi)
      (server_of_serving hs hk) hne hsrv
    have hserved := sound_served srv { s.threads i with toServer := [] } hs hi hhome (Or.inr hk) hmoves
      rfl hrun
    exact ⟨hserved.1, i, hserved.2⟩
  | fopen k =>
    obtain ⟨i, hk, h⟩ := Option.bind_eq_some_iff.mp h
    obtain ⟨name, hwanted, h⟩ := Option.bind_eq_some_iff.mp h
    obtain ⟨srv, hsrv, rfl⟩ := Option.map_eq_some_iff.mp h
    obtain ⟨hi, hhome⟩ := hs.busy k i hk
    obtain ⟨hmoves, hrun⟩ := (hs.sessions i hi).serve_fopen (job.serveable hi)
      (server_of_serving hs hk) hwanted hsrv
    have hserved := sound_served srv (s.threads i) hs hi hhome (Or.inr hk) hmoves rfl hrun
    exact ⟨hserved.1, i, hserved.2⟩
  | call k c =>
    obtain ⟨i, hk, h⟩ := Option.bind_eq_some_iff.mp h
    simp only [Option.ite_none_right_eq_some, Option.map_eq_some_iff] at h
    obtain ⟨hprog, srv, hsrv, rfl⟩ := h
    obtain ⟨hi, hhome⟩ := hs.busy k i hk
    obtain ⟨hmoves, hrun⟩ := (hs.sessions i hi).serve_call (server_of_serving hs hk) hprog hsrv
    have hserved := sound_served srv (s.threads i) hs hi hhome (Or.inr hk) hmoves rfl hrun
    exact ⟨hserved.1, i, hserved.2⟩

theorem sound_start (job : Job) : (start job).Sound job := by
  refine ⟨fun i hi => ⟨?_, ?_⟩, fun k _ => ⟨rfl, rfl⟩, ?_, ?_, fun i => rfl⟩
  · exact .waiting rfl rfl rfl rfl rfl
  · have hrange := job.range hi
    have hfits := job.fits
    have hsize : toSSize (job.size i) = job.size i := toSSize_natCast (by omega)
    rw [job.slice_length hi]
    simp only [session, start, hsize, List.flatten_nil, List.length_nil, Nat.cast_zero, Int.sub_zero]
  · intro k i hk
    cases hk
  · intro p hp
    cases hp

/-- A server that serves a thread can make its next call, or its client can send the request. -/
theorem server_moves {k j : ℕ} (hs : s.Sound job) (hk : s.serving k = some j) :
    ∃ a t, s.step job a = some t := by
  obtain ⟨hj, hhome⟩ := hs.busy k j hk
  have hserver := server_of_serving hs hk
  cases (hs.sessions j hj).at_ with
  | waiting hnone => cases hnone.symm.trans hserver
  | closed hnone => cases hnone.symm.trans hserver
  | @receiving srv hsrv ha hcl harr hreq hst hrun hplace hstream =>
    obtain rfl := Option.some.inj (hsrv.symm.trans hserver)
    by_cases hstage : (s.threads j).stage = .requested
    · have hrequest : (s.threads j).toServer = (job.command j).request := hreq.trans (if_pos hstage)
      have hlen : (job.command j).request.length < bufferSize := by
        have hle : (job.command j).request.length ≤ bufferSize-1 := List.length_take_le _ _
        have hpos : 0 < bufferSize := by decide
        omega
      have hstep : (s.servers k).step (.recv (some (job.command j).request) (List.replicate 10 0)) =
          some ((s.servers k).receive (some (job.command j).request) (List.replicate 10 0)) := by
        simp only [Server.step, if_pos hrun, hplace, Option.getD_some, hlen, List.length_replicate,
          and_self, ↓reduceIte]
      refine ⟨.recvRequest k (List.replicate 10 0), s.served k j
        ((s.servers k).receive (some (job.command j).request) (List.replicate 10 0))
        { s.threads j with toServer := [] }, ?_⟩
      simp only [step, hk, Option.bind_some, hrequest, request_ne_nil, ↓reduceIte, hstep,
        Option.map_some]
    · -- the thread has connected and not written its request yet
      have hconnected : (s.threads j).stage = .connected := by
        cases hst' : (s.threads j).stage with
        | connecting => exact absurd hst' hst
        | connected => rfl
        | requested => exact absurd hst' hstage
      exact ⟨.request j, s.put j
        { s.threads j with stage := .requested, toServer := (job.command j).request },
        if_pos ⟨hj, hconnected⟩⟩
  | @opening srv hsrv ha hcl harr hreq hst hrun hplace hstream =>
    obtain rfl := Option.some.inj (hsrv.symm.trans hserver)
    have hopen (file : Option Bytes) : ∃ u, (s.servers k).step (.fopen file) = some u := by
      rcases hplace with hplace | hplace
      · simp only [Server.step, if_pos hrun, hplace, Option.some.injEq, exists_eq']
      · simp only [Server.step, if_pos hrun, hplace, Option.some.injEq, exists_eq']
    have hwanted : (s.servers k).place.wanted = some (job.command j).filename := by
      rcases hplace with hplace | hplace <;> rw [hplace] <;> rfl
    obtain ⟨u, hu⟩ := hopen (if (job.command j).filename = job.filename then some job.file else none)
    exact ⟨.fopen k, s.served k j u (s.threads j), by
      rw [step, hk, Option.bind_some, hwanted, Option.bind_some, hu, Option.map_some]⟩
  | @transferring srv hsrv ha hcl harr hreq hst hrun hserves hplace =>
    obtain rfl := Option.some.inj (hsrv.symm.trans hserver)
    rcases Server.serves_progress hrun hserves with ⟨hp, -⟩ | ⟨c, u, hprog, hstep⟩
    · exact absurd hp hplace
    · refine ⟨.call k c, s.served k j u (s.threads j), ?_⟩
      rw [step, hk, Option.bind_some, if_pos hprog, hstep, Option.map_some]

/-- What is on the way or received is a beginning of the slice. -/
theorem arrived_beginning {command : Command} {slice : Bytes} {x : Session} (h : x.At command slice) :
    x.arrived <+: slice := by
  cases h with
  | waiting _ _ _ harr => exact harr ▸ List.nil_prefix
  | receiving _ _ _ harr => exact harr ▸ List.nil_prefix
  | opening _ _ _ harr => exact harr ▸ List.nil_prefix
  | transferring _ _ _ harr _ _ _ hserves =>
    rw [harr]
    cases hserves with
    | reading _ _ _ hstream => exact ⟨_, hstream⟩
    | sending _ _ _ _ _ hstream => exact ⟨_, hstream⟩
    | done _ hstream => exact hstream ▸ List.prefix_rfl
  | closed _ _ _ harr => exact harr ▸ List.prefix_rfl

/-- A thread takes what is on its way. -/
theorem recv_moves {i : ℕ} (hi : i < job.tasks.length) (hstage : (s.threads i).stage = .requested)
    (hne : (s.threads i).toClient ≠ []) (hrem : 0 < (s.threads i).bytesRemaining) :
    ∃ a t, s.step job a = some t := by
  have hbuf : 1 ≤ bufferSize := by decide
  have hlen : 1 ≤ (s.threads i).toClient.length := List.length_pos_iff.mpr hne
  let th := s.threads i
  exact ⟨.recv i 1, { s.put i
    { th with
      toClient := th.toClient.drop 1
      bytesRemaining := th.bytesRemaining-(1 : ℕ)
      copied := th.copied ++ [th.toClient.take 1] } with
        appends := s.appends ++ [(i, th.toClient.take 1)] },
    if_pos ⟨hi, hstage, hrem, Nat.one_pos, hbuf, by omega, hlen⟩⟩

/-- A connection that was never accepted is, or its server serves another one first. -/
theorem waiting_moves {i : ℕ} (hs : s.Sound job) (hi : i < job.tasks.length)
    (hstage : (s.threads i).stage = .requested) (haccepted : (s.threads i).accepted = false) :
    ∃ a t, s.step job a = some t := by
  cases hk : s.serving (job.home i) with
  | some j => exact server_moves hs hk
  | none =>
    obtain ⟨hrun, hplace⟩ := hs.idle _ hk
    have hstep : (s.servers (job.home i)).step (.accept true) =
        some ({ s.servers (job.home i) with stream := [] }.goTo .receiving) := by
      simp only [Server.step, if_pos hrun, hplace, ↓reduceIte]
    refine ⟨.accept (job.home i) i, s.served (job.home i) i
      ({ s.servers (job.home i) with stream := [] }.goTo .receiving)
      { s.threads i with accepted := true }, ?_⟩
    refine (if_pos ⟨hi, rfl, by simp [hstage], haccepted, hk⟩).trans ?_
    rw [hstep, Option.map_some]

/-- No state is stuck before every chunk is stored. -/
theorem progress (hs : s.Sound job) : s.Finished job ∨ ∃ a t, s.step job a = some t := by
  by_contra h
  rw [not_or] at h
  obtain ⟨hnot, hstuck⟩ := h
  refine hnot fun i hi => ?_
  have hok := hs.sessions i hi
  have hstage : (s.threads i).stage = .requested := by
    cases hst : (s.threads i).stage with
    | connecting =>
      exact absurd ⟨.connect i, s.put i { s.threads i with stage := .connected },
        if_pos ⟨hi, hst⟩⟩ hstuck
    | connected =>
      exact absurd ⟨.request i, s.put i
        { s.threads i with stage := .requested, toServer := (job.command i).request },
        if_pos ⟨hi, hst⟩⟩ hstuck
    | requested => rfl
  refine ⟨hstage, ?_⟩
  have hrem : (s.threads i).bytesRemaining =
      (job.slice i).length-(s.threads i).copied.flatten.length := hok.remaining
  have hle : (s.threads i).copied.flatten.length+(s.threads i).toClient.length ≤
      (job.slice i).length := by
    have hle := (arrived_beginning hok.at_).length_le
    rwa [Session.arrived, List.length_append] at hle
  have hempty : (s.threads i).toClient = [] := by
    by_contra hne
    exact hstuck (recv_moves hi hstage hne (by
      have hpos := List.length_pos_iff.mpr hne
      omega))
  -- a server that serves the thread could go on
  have hserver (srv : Server) : (s.session job i).server ≠ some srv := by
    intro hsrv
    refine hstuck (server_moves hs (k := job.home i) (j := i) ?_)
    by_contra hk
    rw [session, if_neg hk] at hsrv
    cases hsrv
  cases hok.at_ with
  | waiting hnone haccepted => exact absurd (waiting_moves hs hi hstage haccepted) hstuck
  | receiving hsrv => exact absurd hsrv (hserver _)
  | opening hsrv => exact absurd hsrv (hserver _)
  | transferring hsrv => exact absurd hsrv (hserver _)
  | closed hnone ha hcl harr =>
    have hcopied : (s.threads i).copied.flatten = job.slice i := by
      rw [← harr, Session.arrived]
      change _ = (s.threads i).copied.flatten ++ (s.threads i).toClient
      rw [hempty, List.append_nil]
    rw [hrem, hcopied]
    omega

/-- The results of the calls that thread `i` has made. -/
def calls (s : Net) (stray : ℕ → ℕ) (i : ℕ) : Calls :=
  ⟨true, [true], true, (s.threads i).copied, stray i⟩

end Net

end NetTools.FTP
