import NetTools.IRCChatProcess
import Mathlib.Data.Fintype.EquivFin

namespace NetTools.IRC

open CText Schedule

namespace ChatProcess

/-- In CHAT with an open peer socket. -/
def Chatting (c : ChatProcess) : Prop :=
  c.status = .running ∧ c.peer.mode = .chat ∧ ∃ k ∈ c.openSockets, c.peer.socket = some k

/-- Socket, peer id and receive thread are those of the conversation, and the socket is open. -/
structure Continues (c d : ChatProcess) : Prop where
  peer : d.peer = c.peer
  receivers : d.receivers = c.receivers
  isOpen : ∀ k, c.peer.socket = some k → k ∈ d.openSockets

/-- The socket of the conversation is closed and the mode is back to INFO. -/
structure Over (c d : ChatProcess) : Prop where
  closed : ∀ k, c.peer.socket = some k → k ∉ d.openSockets
  mode : d.peer.mode = .info

/-- What a step may do to a conversation: nothing, end it, or end the process. -/
def Keeps (c d : ChatProcess) : Prop := Continues c d ∨ Over c d ∨ d.status = .exited exitSuccess

/-- Another conversation takes the place of one whose socket stays open. -/
structure Replaces (c d : ChatProcess) : Prop where
  chatting : c.Chatting
  other : d.Chatting
  socket : d.peer.socket ≠ c.peer.socket
  isOpen : ∀ k, c.peer.socket = some k → k ∈ d.openSockets

/-- A message of the server that `receive_server_messages` has room for and can read. -/
def Readable (data : Bytes) : Prop := data.length < bufferSize ∧ serverMessage data ≠ none

instance (data : Bytes) : Decidable (Readable data) :=
  inferInstanceAs (Decidable (data.length < bufferSize ∧ serverMessage data ≠ none))

/-- A `/wait` that gets a listener finds no thread in `accept` and no `/connect` without an
answer, a `/connect` finds no thread in `accept`, what the server sends during a conversation can
be read, and a `CONNECT` for which no `/connect` was typed comes neither during a conversation nor,
when its `connect` succeeds, beside a thread in `accept`. -/
def Orderly (c : ChatProcess) : ChatEvent → Prop
  | .typeLine line _ opened => c.peer.mode = .info →
      (startsWith line (ascii "/wait") = true → opened = true →
          c.waitThreads = [] ∧ c.unanswered = 0) ∧
      (startsWith line (ascii "/connect") = true → c.waitThreads = [])
  | .recvServer data _ socket connected =>
      (c.peer.mode = .chat → data ≠ [] → Readable data) ∧
      (namesPeer data = true → c.unanswered = 0 → c.peer.mode ≠ .chat ∧
        (connected = true → socket ≠ none → c.waitThreads = []))
  | _ => True

instance (c : ChatProcess) : ∀ e, Decidable (c.Orderly e)
  | .typeLine line _ opened => inferInstanceAs (Decidable (c.peer.mode = .info →
      (startsWith line (ascii "/wait") = true → opened = true →
          c.waitThreads = [] ∧ c.unanswered = 0) ∧
      (startsWith line (ascii "/connect") = true → c.waitThreads = [])))
  | .recvServer data _ socket connected =>
    inferInstanceAs (Decidable ((c.peer.mode = .chat → data ≠ [] → Readable data) ∧
      (namesPeer data = true → c.unanswered = 0 → c.peer.mode ≠ .chat ∧
        (connected = true → socket ≠ none → c.waitThreads = []))))
  | .sigint | .accept .. | .acceptFails _ | .recvPeer .. => isTrue trivial

theorem Replaces.not_keeps {c d : ChatProcess} (h : Replaces c d) : ¬ Keeps c d := by
  obtain ⟨-, -, k, hk, hsock⟩ := h.chatting
  rintro (hsame | hover | hexit)
  · exact h.socket (congrArg PeerInfo.socket hsame.peer)
  · exact hover.closed k hsock (h.isOpen k hsock)
  · exact ProcessStatus.noConfusion (h.other.1.symm.trans hexit)

/-- What a step does. -/
inductive ChatStep (c : ChatProcess) : ChatEvent → ChatProcess → Prop
  | nothing {e : ChatEvent} : ChatStep c e c
  | exit {e : ChatEvent} : ChatStep c e (c.ended (.exited exitSuccess))
  | unreadable {data : Bytes} {answers : Bool} {socket : Option ℕ} {connected : Bool}
      (hd : data ≠ [])
      (hu : ¬ Readable data) :
      ChatStep c (.recvServer data answers socket connected) (c.ended .undefined)
  | idTooLong {i socket : ℕ} {sent : Bytes} (hi : i < c.waitThreads.length) :
      ChatStep c (.accept i socket sent) (c.ended .undefined)
  | stopWait (hm : c.peer.mode = .wait) :
      ChatStep c .sigint
        { c.close c.listener with listener := none, peer := { c.peer with mode := .info } }
  | startWait {line : Bytes} {listener : Option ℕ} {opened : Bool} (hm : c.peer.mode = .info)
      (hl : startsWith line (ascii "/wait") = true) :
      ChatStep c (.typeLine line listener opened) (c.startWait listener opened)
  | connect {line : Bytes} {listener : Option ℕ} {opened : Bool} (hm : c.peer.mode = .info)
      (hl : startsWith line (ascii "/connect") = true) :
      ChatStep c (.typeLine line listener opened) { c with unanswered := c.unanswered+1 }
  | answer {data : Bytes} {answers : Bool} {socket : Option ℕ} {connected : Bool}
      (hr : c.serverThread = none) :
      ChatStep c (.recvServer data answers socket connected) (c.answered answers)
  | handleConnect {data peerId : Bytes} {answers : Bool} {socket : Option ℕ} {connected : Bool}
      (hr : c.serverThread = none)
      (hnames : namesPeer data = true) :
      ChatStep c (.recvServer data answers socket connected)
        ((c.answered answers).handleConnect peerId socket connected)
  | waitEnds {e : ChatEvent} {i : ℕ} (hi : i < c.waitThreads.length) : ChatStep c e (c.waitEnds i)
  | accept {i socket : ℕ} {sent peerId : Bytes} (hi : i < c.waitThreads.length) :
      ChatStep c (.accept i socket sent) ((c.waitEnds i).install socket peerId)
  | hangUp {i : ℕ} {r : Receiver} {data : Option Bytes} (hi : c.receivers[i]? = some r) :
      ChatStep c (.recvPeer i data)
        { (c.receiverEnds i r).close c.peer.socket with
          peer := { c.peer with socket := none, mode := .info } }
  | receiverEnds {i : ℕ} {r : Receiver} {data : Option Bytes} (hi : c.receivers[i]? = some r)
      (hp : c.peer.socket = none) : ChatStep c (.recvPeer i data) (c.receiverEnds i r)
  | print {i k : ℕ} {r : Receiver} {data : Option Bytes} (hi : c.receivers[i]? = some r)
      (hp : c.peer.socket = some k) :
      ChatStep c (.recvPeer i data) { c with receivers := c.receivers.set i { r with socket := k } }

theorem chatStep_cases {c d : ChatProcess} {e : ChatEvent} (h : c.step e = some d) :
    c.status = .running ∧ ChatStep c e d := by
  simp only [step, Option.ite_none_right_eq_some] at h
  obtain ⟨hrun, h⟩ := h
  refine ⟨hrun, ?_⟩
  cases e with
  | typeLine line listener opened =>
    simp only [Option.ite_none_right_eq_some, Option.some.injEq] at h
    obtain ⟨-, rfl⟩ := h
    unfold typeLine
    split_ifs with hnil hquit hchat hwait hw hconnect hw
    · exact .nothing
    · exact .exit
    · exact .nothing
    · exact .nothing
    -- neither CHAT nor WAIT leaves INFO
    · exact .startWait (by cases hm : c.peer.mode <;> simp_all) hwait
    · exact .nothing
    · exact .connect (by cases hm : c.peer.mode <;> simp_all) hconnect
    · exact .nothing
  | sigint =>
    cases h
    unfold sigint
    split
    · exact .nothing
    · exact .nothing
    · rename_i hm
      exact .stopWait hm
  | recvServer data answers socket connected =>
    simp only [Option.ite_none_right_eq_some] at h
    obtain ⟨⟨hr, -, -⟩, h⟩ := h
    rw [recvServer] at h
    by_cases hend : data = []
    · rw [if_pos hend] at h
      cases h
      exact .exit
    rw [if_neg hend] at h
    by_cases hfull : data.length ≥ bufferSize
    · rw [if_pos hfull] at h
      cases h
      exact .unreadable hend fun hr => absurd hr.1 (not_lt.mpr hfull)
    rw [if_neg hfull, Option.ite_none_left_eq_some] at h
    obtain ⟨-, h⟩ := h
    split at h
    · rename_i hm
      cases h
      exact .unreadable hend fun hr => hr.2 hm
    · rename_i hm
      cases h
      exact .handleConnect hr (by rw [namesPeer, hm])
    · cases h
      exact .exit
    · cases h
      exact .answer hr
  | accept i socket peerId =>
    simp only [Option.ite_none_right_eq_some, Option.some.injEq] at h
    obtain ⟨⟨hi, -, -⟩, rfl⟩ := h
    unfold ChatProcess.accept
    dsimp only
    split_ifs
    · exact .waitEnds hi
    · exact .accept hi
    · exact .idTooLong hi
  | acceptFails i =>
    simp only [Option.ite_none_right_eq_some, Option.some.injEq] at h
    obtain ⟨hi, rfl⟩ := h
    exact .waitEnds hi
  | recvPeer i data =>
    obtain ⟨r, hi, rfl⟩ := Option.map_eq_some_iff.mp h
    unfold recvPeer
    split_ifs
    · exact .hangUp hi
    · split
      · rename_i hp
        exact .receiverEnds hi hp
      · rename_i k hp
        exact .print hi hp

/-- The client in an orderly run: at most one thread is in `accept` and then no `/connect` is
open, and CHAT is one conversation with one receive thread, beside which nothing is about to
install another. -/
structure Steady (c : ChatProcess) : Prop where
  waiters : c.waitThreads.length ≤ 1
  exclusive : c.waitThreads ≠ [] → c.unanswered = 0
  quiet : c.peer.mode ≠ .chat → c.receivers = [] ∧ c.serverThread = none
  alone : c.peer.mode = .chat → c.waitThreads = []
  chat : c.peer.mode = .chat → ∃ k n, c.peer.socket = some k ∧ k ∈ c.openSockets ∧
    c.receivers = [⟨n, k⟩] ∧ (c.serverThread = some n ∨ c.serverThread = none ∧ c.unanswered = 0)

theorem steady_start : start.Steady := ⟨Nat.zero_le _, nofun, fun _ => ⟨rfl, rfl⟩, nofun, nofun⟩

variable {c d : ChatProcess} {e : ChatEvent}

/-- While the server is listened to in CHAT, no `/connect` is open. -/
theorem Steady.unanswered (h : c.Steady) (hm : c.peer.mode = .chat) (hr : c.serverThread = none) :
    c.unanswered = 0 := by
  obtain ⟨k, n, -, -, -, hs | ⟨-, hu⟩⟩ := h.chat hm
  · rw [hr] at hs
    cases hs
  · exact hu

/-- A receive thread runs only in CHAT, and it is the one of the conversation. -/
theorem Steady.receiver (h : c.Steady) {i : ℕ} {r : Receiver} (hi : c.receivers[i]? = some r) :
    c.peer.mode = .chat ∧ i = 0 ∧ c.receivers = [r] ∧ c.peer.socket = some r.socket ∧
      r.socket ∈ c.openSockets ∧ (c.serverThread = some r.thread ∨ c.serverThread = none) := by
  by_cases hm : c.peer.mode = .chat
  · obtain ⟨k, n, hs, hk, hone, hj⟩ := h.chat hm
    rw [hone] at hi ⊢
    cases i with
    | zero =>
      cases hi
      exact ⟨hm, rfl, rfl, hs, hk, hj.imp id And.left⟩
    | succ i => cases hi
  · rw [(h.quiet hm).1] at hi
    cases hi

/-- A thread in `accept` excludes a conversation and an open `/connect`. -/
theorem Steady.waiting (h : c.Steady) {i : ℕ} (hi : i < c.waitThreads.length) :
    i = 0 ∧ c.waitThreads.length = 1 ∧ c.unanswered = 0 ∧ c.peer.mode ≠ .chat := by
  have hlen := h.waiters
  have hne : c.waitThreads ≠ [] := List.length_pos_iff.mp (by omega)
  exact ⟨by omega, by omega, h.exclusive hne, fun hm => hne (h.alone hm)⟩

/-- Before an orderly `CONNECT` there is no conversation, and no thread in `accept` beside a
`/connect` that is open or a connection that succeeds. -/
theorem Steady.beforeConnect (h : c.Steady) {data : Bytes} {answers : Bool} {socket : Option ℕ}
    {connected : Bool} (ho : c.Orderly (.recvServer data answers socket connected))
    (hr : c.serverThread = none) (hnames : namesPeer data = true) :
    c.peer.mode ≠ .chat ∧ (connected = true → socket ≠ none → c.waitThreads = []) ∧
      (c.waitThreads ≠ [] → c.unanswered = 0) := by
  by_cases hu : c.unanswered = 0
  · obtain ⟨hm, hw⟩ := ho.2 hnames hu
    exact ⟨hm, hw, h.exclusive⟩
  · have hw : c.waitThreads = [] := by
      by_contra hne
      exact hu (h.exclusive hne)
    exact ⟨fun hm => hu (h.unanswered hm hr), fun _ _ => hw, h.exclusive⟩

theorem steady_step (h : c.Steady) (ho : c.Orderly e) (hs : ChatStep c e d) : d.Steady := by
  cases hs with
  | nothing => exact h
  | exit | unreadable | idTooLong => exact ⟨h.waiters, h.exclusive, h.quiet, h.alone, h.chat⟩
  | stopWait hm =>
    exact ⟨h.waiters, h.exclusive, fun _ => h.quiet (by rw [hm]; decide), nofun, nofun⟩
  | @startWait line listener opened hm hl =>
    have hquiet := h.quiet (by rw [hm]; decide)
    cases opened with
    | false => exact ⟨h.waiters, h.exclusive, fun _ => hquiet, nofun, nofun⟩
    | true =>
      obtain ⟨hw, hu⟩ := (ho hm).1 hl rfl
      refine ⟨?_, fun _ => hu, fun _ => hquiet, nofun, nofun⟩
      change (c.waitThreads ++ listener.toList).length ≤ 1
      rw [hw, List.nil_append]
      cases listener <;> simp
  | connect hm hl =>
    have hw := (ho hm).2 hl
    refine ⟨h.waiters, fun hne => absurd hw hne, h.quiet, h.alone, fun hc => ?_⟩
    rw [hm] at hc
    cases hc
  | @answer data answers socket connected hr =>
    refine ⟨h.waiters, fun hne => ?_, h.quiet, h.alone, fun hm => ?_⟩
    · change c.unanswered-_ = 0
      rw [h.exclusive hne, Nat.zero_sub]
    · obtain ⟨k, n, hk, ho, hone, -⟩ := h.chat hm
      refine ⟨k, n, hk, ho, hone, .inr ⟨hr, ?_⟩⟩
      change c.unanswered-_ = 0
      rw [h.unanswered hm hr, Nat.zero_sub]
  | @handleConnect data peerId answers socket connected hr hnames =>
    obtain ⟨hm, hw, hu⟩ := h.beforeConnect ho hr hnames
    have hquiet := h.quiet hm
    unfold ChatProcess.handleConnect
    split
    · rename_i k
      have hnone := hw rfl (Option.some_ne_none k)
      refine ⟨h.waiters, fun hne => absurd hnone hne, nofun, fun _ => hnone, fun _ => ?_⟩
      refine ⟨k, c.created, rfl, List.mem_cons_self, ?_, .inl rfl⟩
      change c.receivers ++ _ = _
      rw [hquiet.1]
      rfl
    · refine ⟨h.waiters, fun hne => ?_, fun _ => hquiet, fun hc => absurd hc hm,
        fun hc => absurd hc hm⟩
      change c.unanswered-_ = 0
      rw [hu hne, Nat.zero_sub]
  | @waitEnds e i hi =>
    obtain ⟨rfl, hlen, hu, hm⟩ := h.waiting hi
    refine ⟨?_, fun _ => hu, h.quiet, fun hc => absurd hc hm, fun hc => absurd hc hm⟩
    exact (List.length_eraseIdx_le _ _).trans h.waiters
  -- the thread in `accept` was the only one, and it leaves with its conversation
  | @accept i k sent peerId hi =>
    obtain ⟨rfl, hlen, hu, hm⟩ := h.waiting hi
    have hnone : c.waitThreads.eraseIdx 0 = [] := by
      rw [← List.length_eq_zero_iff, List.length_eraseIdx_of_lt hi, hlen]
    have hquiet := h.quiet hm
    refine ⟨?_, fun _ => hu, nofun, fun _ => hnone, fun _ => ?_⟩
    · exact (List.length_eraseIdx_le _ _).trans h.waiters
    · refine ⟨k, c.created, rfl, List.mem_cons_self, ?_, .inr ⟨hquiet.2, hu⟩⟩
      change c.receivers ++ _ = _
      rw [hquiet.1]
      rfl
  | @hangUp i r data hi =>
    obtain ⟨hm, rfl, hone, -, -, hj⟩ := h.receiver hi
    refine ⟨h.waiters, h.exclusive, fun _ => ⟨?_, ?_⟩, nofun, nofun⟩
    · change c.receivers.eraseIdx 0 = []
      rw [hone]
      rfl
    · change (if c.serverThread = some r.thread then none else c.serverThread) = none
      obtain hj | hj := hj <;> simp [hj]
  | receiverEnds hi hp =>
    obtain ⟨-, -, -, hsock, -⟩ := h.receiver hi
    rw [hp] at hsock
    cases hsock
  -- the thread is on the socket of the conversation already
  | @print i k r data hi hp =>
    obtain ⟨-, rfl, hone, hsock, -⟩ := h.receiver hi
    obtain rfl : k = r.socket := Option.some.inj (hp.symm.trans hsock)
    have hset : c.receivers.set 0 { r with socket := r.socket } = c.receivers := by
      rw [hone]
      rfl
    rw [hset]
    exact h

theorem steady_of_reachable (h : Reachable step Orderly start c) : c.Steady := by
  refine h.invariant (P := fun c => c.Steady) steady_start ?_
  intro c e d hc ho hstep
  exact steady_step hc ho (chatStep_cases hstep).2

/-- An orderly step keeps the conversation, ends it, or ends the process. -/
theorem keeps_step (h : c.Steady) (hc : c.Chatting) (ho : c.Orderly e) (hs : ChatStep c e d) :
    Keeps c d := by
  obtain ⟨-, hm, k, hk, hsock⟩ := hc
  have hopen : ∀ j, c.peer.socket = some j → j ∈ c.openSockets := by
    intro j hj
    obtain rfl : k = j := Option.some.inj (hsock.symm.trans hj)
    exact hk
  have hwait {i : ℕ} (hi : i < c.waitThreads.length) : False := (h.waiting hi).2.2.2 hm
  -- what could install another conversation is excluded by `Steady` or not orderly
  cases hs with
  | nothing => exact .inl ⟨rfl, rfl, hopen⟩
  | exit => exact .inr (.inr rfl)
  | unreadable hd hu => exact absurd (ho.1 hm hd) hu
  | idTooLong hi | waitEnds hi | accept hi => exact (hwait hi).elim
  | stopWait hw | startWait hw | connect hw =>
    rw [hm] at hw
    cases hw
  | answer hr => exact .inl ⟨rfl, rfl, hopen⟩
  | handleConnect hr hnames => exact absurd hm (h.beforeConnect ho hr hnames).1
  | hangUp hi =>
    refine .inr (.inl ⟨fun j hj hin => ?_, rfl⟩)
    exact absurd hj.symm (of_decide_eq_true (List.mem_filter.mp hin).2)
  | receiverEnds hi hp =>
    rw [hsock] at hp
    cases hp
  | @print i j r data hi hp =>
    obtain ⟨-, rfl, hone, hr, -⟩ := h.receiver hi
    obtain rfl : j = r.socket := Option.some.inj (hp.symm.trans hr)
    refine .inl ⟨rfl, ?_, hopen⟩
    change c.receivers.set 0 { r with socket := r.socket } = c.receivers
    rw [hone]
    rfl

/-- Some orderly continuation replaces a conversation. -/
def CanReplace (c : ChatProcess) : Prop :=
  ∃ u e v, Reachable step Orderly c u ∧ u.Orderly e ∧ u.step e = some v ∧ Replaces u v

theorem exists_fresh (c : ChatProcess) : ∃ k, c.Fresh (some k) := by
  obtain ⟨k, hk⟩ := Infinite.exists_notMem_finset c.openSockets.toFinset
  refine ⟨k, fun j hj => ?_⟩
  cases hj
  exact fun hin => hk (List.mem_toFinset.mpr hin)

/-- A thread in `accept` installs the next peer, whatever the mode is. -/
theorem step_accept {k : ℕ} (hrun : c.status = .running) (hw : c.waitThreads ≠ [])
    (hk : c.Fresh (some k)) :
    c.step (.accept 0 k (ascii "carol")) = some ((c.waitEnds 0).install k (ascii "carol")) := by
  have hlen := List.length_pos_iff.mpr hw
  have hid : (ascii "carol").takeWhile (fun b => b ≠ 0) = ascii "carol" := by decide
  have haccept : c.accept 0 k (ascii "carol") = (c.waitEnds 0).install k (ascii "carol") := by
    rw [ChatProcess.accept]
    simp only [hid]
    rw [if_neg (by decide), if_pos (by decide)]
  rw [step, if_pos hrun]
  simp only [haccept]
  exact if_pos ⟨hlen, hk, by decide⟩

theorem chatting_install (hrun : c.status = .running) (k : ℕ) (peerId : Bytes) :
    (c.install k peerId).Chatting :=
  ⟨hrun, rfl, k, List.mem_cons_self, rfl⟩

theorem canReplace_of_chatting (hc : c.Chatting) (hw : c.waitThreads ≠ []) : CanReplace c := by
  obtain ⟨hrun, hm, j, hj, hsock⟩ := hc
  obtain ⟨k, hk⟩ := c.exists_fresh
  refine ⟨c, .accept 0 k (ascii "carol"), _, .start, trivial, step_accept hrun hw hk,
    ⟨hrun, hm, j, hj, hsock⟩,
    chatting_install hrun _ _, ?_, ?_⟩
  · rw [hsock]
    rintro he
    exact hk k rfl (Option.some.inj he ▸ hj)
  · intro i hi
    obtain rfl : j = i := Option.some.inj (hsock.symm.trans hi)
    exact List.mem_cons_of_mem _ hj

theorem CanReplace.of_step (ho : c.Orderly e) (hs : c.step e = some d) (h : CanReplace d) :
    CanReplace c := by
  obtain ⟨u, e', v, hu, hrest⟩ := h
  exact ⟨u, e', v, (Reachable.single ho hs).trans hu, hrest⟩

/-- Two threads in `accept` take two peers. -/
theorem canReplace_of_two_waiters (hrun : c.status = .running) (hw : 2 ≤ c.waitThreads.length) :
    CanReplace c := by
  obtain ⟨k, hk⟩ := c.exists_fresh
  have hne : c.waitThreads ≠ [] := List.length_pos_iff.mp (by omega)
  refine (canReplace_of_chatting (chatting_install (c := c.waitEnds 0) hrun k
    (ascii "carol")) ?_).of_step (e := .accept 0 k (ascii "carol")) trivial
    (step_accept hrun hne hk)
  rw [← List.length_pos_iff]
  change 0 < (c.waitThreads.eraseIdx 0).length
  rw [List.length_eraseIdx_of_lt (by omega)]
  omega

/-- The answer to a `/connect` installs its peer beside a thread in `accept`. -/
theorem canReplace_of_connect (hrun : c.status = .running) (hr : c.serverThread = none)
    (hw : c.waitThreads ≠ []) (hu : 0 < c.unanswered) : CanReplace c := by
  obtain ⟨k, hk⟩ := c.exists_fresh
  have hmessage : serverMessage (ascii "CONNECT bob 127.0.0.1 5001\n") =
      some (.connect (ascii "bob") 5001) := by decide
  have hanswer : c.step (.recvServer (ascii "CONNECT bob 127.0.0.1 5001\n") true (some k) true) =
      some ((c.answered true).handleConnect (ascii "bob") (some k) true) := by
    have hfull : ¬ (ascii "CONNECT bob 127.0.0.1 5001\n").length ≥ bufferSize := by decide
    have hans : ¬ (true = true ∧ c.unanswered = 0) := by omega
    have hrecv : c.recvServer (ascii "CONNECT bob 127.0.0.1 5001\n") true (some k) true =
        some ((c.answered true).handleConnect (ascii "bob") (some k) true) := by
      rw [recvServer, if_neg (by decide), if_neg hfull, if_neg hans, hmessage]
    rw [step, if_pos hrun]
    simp only [hrecv]
    exact if_pos ⟨hr, hk, by decide⟩
  have horderly : c.Orderly (.recvServer (ascii "CONNECT bob 127.0.0.1 5001\n") true (some k) true) := by
    refine ⟨fun _ _ => ⟨by decide, ?_⟩, fun _ hzero => absurd hzero (Nat.ne_of_gt hu)⟩
    rw [hmessage]
    exact Option.some_ne_none _
  exact (canReplace_of_chatting (c := (c.answered true).handleConnect (ascii "bob") (some k) true)
    ⟨hrun, rfl, k, List.mem_cons_self, rfl⟩ hw).of_step horderly hanswer

theorem typeLine_wait {line : Bytes} {listener : Option ℕ} {opened : Bool}
    (hm : c.peer.mode = .info)
    (hl : startsWith line (ascii "/wait") = true) :
    c.typeLine line listener opened = c.startWait listener opened := by
  have hquit := not_startsWith hl (b := ascii "/quit") (by decide) (by decide)
  have hnil : line ≠ [] := by
    rintro rfl
    cases hl
  simp only [typeLine, hnil, hquit, hl, hm, Bool.false_eq_true, reduceCtorEq, ↓reduceIte]

theorem typeLine_connect {line : Bytes} {listener : Option ℕ} {opened : Bool}
    (hm : c.peer.mode = .info)
    (hl : startsWith line (ascii "/connect") = true) :
    c.typeLine line listener opened = { c with unanswered := c.unanswered+1 } := by
  have h5 := startsWith_take hl 5
  have hquit := not_startsWith h5 (b := ascii "/quit") (by decide) (by decide)
  have hwait := not_startsWith h5 (b := ascii "/wait") (by decide) (by decide)
  have hnil : line ≠ [] := by
    rintro rfl
    cases hl
  simp only [typeLine, hnil, hquit, hwait, hl, hm, Bool.false_eq_true, reduceCtorEq, ↓reduceIte]

/-- Every command out of order makes it possible that a conversation is replaced. -/
theorem canReplace_of_disorder {line : Bytes} {listener : Option ℕ} {opened : Bool} (h : c.Steady)
    (ho : ¬ c.Orderly (.typeLine line listener opened))
    (hs : c.step (.typeLine line listener opened) = some d) : CanReplace d := by
  simp only [step, Option.ite_none_right_eq_some, Option.some.injEq] at hs
  obtain ⟨hrun, ⟨-, hlistener⟩, rfl⟩ := hs
  obtain ⟨hm, ho⟩ := Classical.not_imp.mp ho
  have hr := (h.quiet (by rw [hm]; decide)).2
  by_cases hwait : startsWith line (ascii "/wait") = true
  · rw [typeLine_wait hm hwait]
    have hconnect : startsWith line (ascii "/connect") = false := by
      rw [Bool.eq_false_iff]
      intro hl
      have h5 := not_startsWith (startsWith_take hl 5) (b := ascii "/wait") (by decide) (by decide)
      rw [hwait] at h5
      cases h5
    have hbad : ¬ (opened = true → c.waitThreads = [] ∧ c.unanswered = 0) := by
      intro hfine
      apply ho
      refine ⟨fun _ => hfine, fun hl => ?_⟩
      rw [hconnect] at hl
      cases hl
    obtain ⟨hopened, hbusy⟩ := Classical.not_imp.mp hbad
    obtain ⟨l, hl⟩ := Option.ne_none_iff_exists'.mp (hlistener hopened)
    have hthreads : (c.startWait listener opened).waitThreads = c.waitThreads ++ [l] := by
      rw [hopened, hl]
      rfl
    by_cases hw : c.waitThreads = []
    · -- the `/connect` on its way installs its peer beside the new thread
      refine canReplace_of_connect hrun hr ?_ (Nat.pos_of_ne_zero fun hu => hbusy ⟨hw, hu⟩)
      rw [hthreads]
      exact List.append_ne_nil_of_right_ne_nil _ (List.cons_ne_nil _ _)
    -- an earlier thread is still in `accept`
    · refine canReplace_of_two_waiters hrun ?_
      have hpos := List.length_pos_iff.mpr hw
      rw [hthreads, List.length_append, List.length_singleton]
      omega
  -- a `/connect` beside a thread in `accept`
  · have hboth : ¬ (startsWith line (ascii "/connect") = true → c.waitThreads = []) := fun hfine =>
      ho ⟨fun hl => absurd hl hwait, hfine⟩
    obtain ⟨hconnect, hw⟩ := Classical.not_imp.mp hboth
    rw [typeLine_connect hm hconnect]
    exact canReplace_of_connect hrun hr hw (Nat.succ_pos _)

/-- A message that cannot be read leaves nothing to say about the process. -/
theorem undefined_of_unreadable {data : Bytes} {answers : Bool} {socket : Option ℕ}
    {connected : Bool}
    (hd : data ≠ []) (hu : ¬ Readable data)
    (hs : c.step (.recvServer data answers socket connected) = some d) :
    d.status = .undefined := by
  simp only [step, Option.ite_none_right_eq_some] at hs
  obtain ⟨-, -, hs⟩ := hs
  rw [recvServer, if_neg hd] at hs
  by_cases hfull : data.length ≥ bufferSize
  · rw [if_pos hfull] at hs
    cases hs
    rfl
  · have hnone : serverMessage data = none := by
      by_contra hm
      exact hu ⟨not_le.mp hfull, hm⟩
    rw [if_neg hfull, Option.ite_none_left_eq_some, hnone] at hs
    cases hs.2
    rfl

/-- `handle_connect` takes the place of a conversation, or its socket away. -/
theorem not_keeps_handleConnect (hc : c.Chatting) (answers : Bool) (peerId : Bytes)
    {socket : Option ℕ} (hfresh : c.Fresh socket) (connected : Bool) :
    ¬ Keeps c ((c.answered answers).handleConnect peerId socket connected) := by
  obtain ⟨hrun, hm, k, hk, hsock⟩ := hc
  unfold ChatProcess.handleConnect
  split
  · rename_i j
    apply Replaces.not_keeps
    refine ⟨⟨hrun, hm, k, hk, hsock⟩, ⟨hrun, rfl, j, List.mem_cons_self, rfl⟩, ?_, ?_⟩
    · rw [hsock]
      rintro hj
      exact hfresh j rfl (Option.some.inj hj ▸ hk)
    · intro i hi
      obtain rfl : k = i := Option.some.inj (hsock.symm.trans hi)
      exact List.mem_cons_of_mem _ hk
  · rintro (hsame | hover | hexit)
    · have hnone : none = c.peer.socket := congrArg PeerInfo.socket hsame.peer
      rw [hsock] at hnone
      exact Option.some_ne_none k hnone.symm
    · have hinfo : c.peer.mode = .info := hover.mode
      rw [hm] at hinfo
      cases hinfo
    · exact ProcessStatus.noConfusion (hrun.symm.trans hexit)

/-- A message out of order is undefined, disturbs the conversation at once, or connects beside a
thread in `accept`. -/
theorem disturbs_of_disorder {data : Bytes} {answers : Bool} {socket : Option ℕ}
    {connected : Bool} (h : c.Steady)
    (ho : ¬ c.Orderly (.recvServer data answers socket connected))
    (hs : c.step (.recvServer data answers socket connected) = some d) :
    d.status = .undefined ∨ (c.Chatting ∧ ¬ Keeps c d) ∨ CanReplace d := by
  by_cases hread : c.peer.mode = .chat → data ≠ [] → Readable data
  · obtain ⟨hnames, hopen⟩ := Classical.not_imp.mp fun h => ho ⟨hread, h⟩
    obtain ⟨hu, hdisorder⟩ := Classical.not_imp.mp hopen
    simp only [step, Option.ite_none_right_eq_some] at hs
    obtain ⟨hrun, ⟨hr, hfresh, -⟩, hs⟩ := hs
    obtain ⟨peerId, port, hmessage⟩ : ∃ peerId port,
        serverMessage data = some (.connect peerId port) := by
      rw [namesPeer] at hnames
      split at hnames
      · exact ⟨_, _, by assumption⟩
      · cases hnames
    have hne : data ≠ [] := by
      rintro rfl
      cases hmessage
    rw [recvServer, if_neg hne] at hs
    by_cases hfull : data.length ≥ bufferSize
    · rw [if_pos hfull] at hs
      cases hs
      exact .inl rfl
    rw [if_neg hfull, Option.ite_none_left_eq_some, hmessage] at hs
    obtain ⟨-, hs⟩ := hs
    cases hs
    by_cases hm : c.peer.mode = .chat
    · obtain ⟨k, -, hsock, hk, -⟩ := h.chat hm
      have hc : c.Chatting := ⟨hrun, hm, k, hk, hsock⟩
      exact .inr (.inl ⟨hc, not_keeps_handleConnect hc _ _ hfresh _⟩)
    -- the connection succeeds beside a thread in `accept`
    · obtain ⟨rfl, hbeside⟩ := Classical.not_imp.mp fun h => hdisorder ⟨hm, h⟩
      obtain ⟨hsocket, hw⟩ := Classical.not_imp.mp hbeside
      obtain ⟨k, rfl⟩ := Option.ne_none_iff_exists'.mp hsocket
      exact .inr (.inr (canReplace_of_chatting ⟨hrun, rfl, k, List.mem_cons_self, rfl⟩ hw))
  · obtain ⟨-, hread⟩ := Classical.not_imp.mp hread
    obtain ⟨hd, hu⟩ := Classical.not_imp.mp hread
    exact .inl (undefined_of_unreadable hd hu hs)

end ChatProcess

open ChatProcess

/-- In an orderly run every conversation lasts until its socket is closed and the mode is INFO
again, or the process ends. Every step out of order disturbs a conversation, makes it possible that
one is replaced without another step out of order, or is not defined. -/
theorem one_conversation {c : ChatProcess} (hr : Reachable ChatProcess.step Orderly .start c) :
    (∀ e d, c.Chatting → c.Orderly e → c.step e = some d → Keeps c d) ∧
    ∀ e d, ¬ c.Orderly e → c.step e = some d →
      d.status = .undefined ∨ (c.Chatting ∧ ¬ Keeps c d) ∨ CanReplace d := by
  constructor
  · intro e d hc ho hs
    exact keeps_step (steady_of_reachable hr) hc ho (chatStep_cases hs).2
  · intro e d ho hs
    cases e with
    | typeLine line listener opened =>
      exact .inr (.inr (canReplace_of_disorder (steady_of_reachable hr) ho hs))
    | recvServer data answers socket connected =>
      exact disturbs_of_disorder (steady_of_reachable hr) ho hs
    | sigint | accept | acceptFails | recvPeer => exact absurd trivial ho

set_option maxRecDepth 4096 in
/-- `/connect bob` and then `/wait`, before the reply: bob is connected, and the next peer at
the listener takes his place. -/
theorem crossing_commands_replace :
    ∃ c, Reachable ChatProcess.step anyStep .start c ∧ c.peer = ⟨ascii "bob", some 5, .chat⟩ ∧
      ∃ d, c.step (.accept 0 6 (ascii "carol")) = some d ∧ d.peer = ⟨ascii "carol", some 6, .chat⟩ ∧
        Replaces c d ∧ ¬ Keeps c d := by
  have hrun : ∃ c, Reachable ChatProcess.step anyStep .start c ∧ c.status = .running ∧
      c.peer = ⟨ascii "bob", some 5, .chat⟩ ∧ c.openSockets = [5, 4] ∧ c.waitThreads = [4] := by
    refine exists_reachable_of_replayIf [.typeLine (ascii "/connect bob") none false,
      .typeLine (ascii "/wait") (some 4) true,
      .recvServer (ascii "CONNECT bob 127.0.0.1 5001\n") true (some 5) true] _ ?_
    decide
  obtain ⟨c, hr, hrunning, hpeer, hopen, hw⟩ := hrun
  have hfresh : c.Fresh (some 6) := by
    rintro k hk
    cases hk
    rw [hopen]
    decide
  have hstep := step_accept hrunning (by rw [hw]; decide) hfresh
  have hreplaces : Replaces c ((c.waitEnds 0).install 6 (ascii "carol")) := by
    refine ⟨⟨hrunning, ?_, 5, ?_, ?_⟩, chatting_install hrunning _ _, ?_, fun k hk => ?_⟩
    · rw [hpeer]
    · rw [hopen]
      decide
    · rw [hpeer]
    · rw [hpeer]
      change some 6 ≠ some 5
      decide
    · rw [hpeer] at hk
      cases hk
      change 5 ∈ 6 :: c.openSockets
      rw [hopen]
      decide
  exact ⟨c, hr, hpeer, _, hstep, rfl, hreplaces, hreplaces.not_keeps⟩

set_option maxRecDepth 4096 in
/-- A message of bob leaves the conversation with him as it is; a `/wait` while he is still
being asked for does not have to. -/
theorem one_conversation_bob :
    (∃ c d : ChatProcess, c.Chatting ∧ c.step (.recvPeer 0 (some (ascii "hi"))) = some d ∧
      Keeps c d) ∧
    ∃ c d : ChatProcess, c.step (.typeLine (ascii "/wait") (some 4) true) = some d ∧
      (d.status = .undefined ∨ (c.Chatting ∧ ¬ Keeps c d) ∨ CanReplace d) := by
  constructor
  · have hrun : ∃ c, Reachable ChatProcess.step Orderly .start c ∧ c.status = .running ∧
        c.peer.mode = .chat ∧ c.openSockets = [5] ∧ c.peer.socket = some 5 ∧
        (c.step (.recvPeer 0 (some (ascii "hi")))).isSome = true := by
      refine exists_reachable_of_replayIf [.typeLine (ascii "/connect bob") none false,
        .recvServer (ascii "CONNECT bob 127.0.0.1 5001\n") true (some 5) true] _ ?_
      decide
    obtain ⟨c, hr, hrunning, hm, hopen, hsock, hsome⟩ := hrun
    obtain ⟨d, hd⟩ := Option.isSome_iff_exists.mp hsome
    have hc : c.Chatting := ⟨hrunning, hm, 5, by rw [hopen]; decide, hsock⟩
    exact ⟨c, d, hc, hd, (one_conversation hr).1 (.recvPeer 0 (some (ascii "hi"))) d hc trivial hd⟩
  · have hrun : ∃ c, Reachable ChatProcess.step Orderly .start c ∧
        ¬ c.Orderly (.typeLine (ascii "/wait") (some 4) true) ∧
        (c.step (.typeLine (ascii "/wait") (some 4) true)).isSome = true := by
      refine exists_reachable_of_replayIf [.typeLine (ascii "/connect bob") none false] _ ?_
      decide
    obtain ⟨c, hr, ho, hsome⟩ := hrun
    obtain ⟨d, hd⟩ := Option.isSome_iff_exists.mp hsome
    exact ⟨c, d, hd, (one_conversation hr).2 _ d ho hd⟩

end NetTools.IRC
