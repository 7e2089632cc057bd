import NetTools.IRCOneConversation

namespace NetTools.IRC

open CText Schedule

/-- A client, and whether the thread of its latest `/wait` is in `accept`. The number of a closed
listener can be in use again while a thread is still in `accept` on the old one, so that the
numbers alone do not tell. -/
structure Watched where
  process : ChatProcess
  accepting : Bool

/-- The ends of a conversation for `receive_peer_messages`. -/
def hangsUp (data : Option Bytes) : Bool :=
  data.all fun data => data = [] ∨ startsWith data (ascii "LEAVE") = true

namespace Watched

def start : Watched := ⟨.start, false⟩

/-- The thread of the latest `/wait` is the last one. -/
def acceptingAfter (w : Watched) : ChatEvent → Bool
  | .typeLine line _ opened =>
    if w.process.peer.mode = .info ∧ startsWith line (ascii "/wait") = true then opened
    else w.accepting
  | .accept i _ _ | .acceptFails i => w.accepting && decide (i+1 ≠ w.process.waitThreads.length)
  | .sigint | .recvServer .. | .recvPeer .. => w.accepting

def step (w : Watched) (e : ChatEvent) : Option Watched :=
  (w.process.step e).map fun c => ⟨c, w.acceptingAfter e⟩

/-- The listener socket is open, and the thread of its `/wait` is pending on it. -/
def Listens (w : Watched) : Prop :=
  ∃ k, w.process.listener = some k ∧ k ∈ w.process.openSockets ∧
    w.accepting = true ∧ w.process.waitThreads.getLast? = some k

/-- The peer socket is open, and a receive thread is running on it. -/
def Talks (w : Watched) : Prop :=
  ∃ k, w.process.peer.socket = some k ∧ k ∈ w.process.openSockets ∧
    ∃ r ∈ w.process.receivers, r.socket = k

/-- The mode says which of the two the client does. -/
structure ModeTells (w : Watched) : Prop where
  wait : w.process.peer.mode = .wait ↔ w.Listens
  chat : w.process.peer.mode = .chat ↔ w.Talks
  info : w.process.peer.mode = .info → ¬ w.Listens ∧ ¬ w.Talks

/-- Nothing undefined has happened, and while the process runs its mode matches its resources. -/
def Matches (w : Watched) : Prop :=
  w.process.status ≠ .undefined ∧ (w.process.status = .running → w.ModeTells)

/-- `/wait` gets its listener, `accept` of its thread succeeds, with an id, and no other thread
installs a peer before; in WAIT no `connect` succeeds and no receive thread that is left over
ends, in CHAT no `connect` fails; and messages and ids fit their buffers. -/
def KeepsMode (w : Watched) : ChatEvent → Prop
  | .typeLine line _ opened => w.process.peer.mode = .info →
      startsWith line (ascii "/wait") = true → opened = true
  | .sigint => True
  | .recvServer data _ socket connected => data ≠ [] → ChatProcess.Readable data ∧
      (namesPeer data = true →
        if connected = true ∧ socket ≠ none then w.process.peer.mode ≠ .wait
        else w.process.peer.mode ≠ .chat)
  | .accept i _ sent =>
    let peerId := sent.takeWhile fun b => b ≠ 0
    peerId.length < idSize ∧ (w.process.peer.mode = .wait →
      (peerId ≠ [] ↔ i+1 = w.process.waitThreads.length))
  | .acceptFails i => w.process.peer.mode = .wait → i+1 ≠ w.process.waitThreads.length
  | .recvPeer _ data => w.process.peer.mode = .wait → hangsUp data = false

instance (w : Watched) : ∀ e, Decidable (w.KeepsMode e)
  | .typeLine line _ opened => inferInstanceAs (Decidable (w.process.peer.mode = .info →
      startsWith line (ascii "/wait") = true → opened = true))
  | .sigint => isTrue trivial
  | .recvServer data _ socket connected =>
    inferInstanceAs (Decidable (data ≠ [] → ChatProcess.Readable data ∧
      (namesPeer data = true →
        if connected = true ∧ socket ≠ none then w.process.peer.mode ≠ .wait
        else w.process.peer.mode ≠ .chat)))
  | .accept i _ sent =>
    inferInstanceAs (Decidable ((sent.takeWhile fun b => b ≠ 0).length < idSize ∧
      (w.process.peer.mode = .wait → ((sent.takeWhile fun b => b ≠ 0) ≠ [] ↔
        i+1 = w.process.waitThreads.length))))
  | .acceptFails i =>
    inferInstanceAs (Decidable (w.process.peer.mode = .wait → i+1 ≠ w.process.waitThreads.length))
  | .recvPeer _ data =>
    inferInstanceAs (Decidable (w.process.peer.mode = .wait → hangsUp data = false))

/-- What the variables hold in every run: a descriptor that is not -1 is open and is not the other
one, the last thread in `accept` is on the listener, and the peer socket has its receive thread. -/
structure Holds (w : Watched) : Prop where
  listener : ∀ k, w.process.listener = some k →
    k ∈ w.process.openSockets ∧ w.process.peer.socket ≠ some k
  last : ∀ k, w.process.listener = some k → w.accepting = true →
    w.process.waitThreads.getLast? = some k
  peer : ∀ k, w.process.peer.socket = some k →
    k ∈ w.process.openSockets ∧ ∃ r ∈ w.process.receivers, r.socket = k

variable {w : Watched}

/-- Without a listener only the peer socket is left to look at. -/
theorem holds_of_noListener (hl : w.process.listener = none)
    (hpeer : ∀ k, w.process.peer.socket = some k →
      k ∈ w.process.openSockets ∧ ∃ r ∈ w.process.receivers, r.socket = k) : w.Holds := by
  constructor
  · intro k hk
    cases hl.symm.trans hk
  · intro k hk
    cases hl.symm.trans hk
  · exact hpeer

theorem holds_start : start.Holds := by
  apply holds_of_noListener
  · rfl
  · intro k hk
    cases hk

theorem Holds.listens_iff (h : w.Holds) :
    w.Listens ↔ w.process.listener ≠ none ∧ w.accepting = true := by
  constructor
  · rintro ⟨k, hk, -, haccepting, -⟩
    rw [hk]
    exact ⟨Option.some_ne_none k, haccepting⟩
  · rintro ⟨hne, haccepting⟩
    obtain ⟨k, hk⟩ := Option.ne_none_iff_exists'.mp hne
    exact ⟨k, hk, (h.listener k hk).1, haccepting, h.last k hk haccepting⟩

theorem Holds.talks_iff (h : w.Holds) : w.Talks ↔ w.process.peer.socket ≠ none := by
  constructor
  · rintro ⟨k, hk, -⟩
    rw [hk]
    exact Option.some_ne_none k
  · intro hne
    obtain ⟨k, hk⟩ := Option.ne_none_iff_exists'.mp hne
    obtain ⟨hopen, hr⟩ := h.peer k hk
    exact ⟨k, hk, hopen, hr⟩

/-- The descriptors that are not -1 and the flag decide whether the mode tells. -/
theorem Holds.modeTells_iff (h : w.Holds) : w.ModeTells ↔
    (w.process.peer.mode = .wait ↔ w.process.listener ≠ none ∧ w.accepting = true) ∧
      (w.process.peer.mode = .chat ↔ w.process.peer.socket ≠ none) := by
  rw [← h.listens_iff, ← h.talks_iff]
  constructor
  · intro hm
    exact ⟨hm.wait, hm.chat⟩
  · rintro ⟨hwait, hchat⟩
    refine ⟨hwait, hchat, ?_⟩
    intro hinfo
    rw [← hwait, ← hchat, hinfo]
    decide

/-- Outside WAIT the mode tells when no wait thread is pending, if CHAT and the socket agree. -/
theorem Holds.modeTells_iff_of_ne (h : w.Holds) (hmode : w.process.peer.mode ≠ .wait)
    (hchat : w.process.peer.mode = .chat ↔ w.process.peer.socket ≠ none) :
    w.ModeTells ↔ ¬ w.Listens := by
  rw [h.modeTells_iff, ← h.listens_iff]
  constructor
  · intro hd hl
    exact hmode (hd.1.mpr hl)
  · intro hl
    exact ⟨iff_of_false hmode hl, hchat⟩

section Operations

variable {c : ChatProcess} {b : Bool}

/-- A descriptor that the kernel gives out is that of neither variable. -/
theorem Holds.socket_ne_fresh (h : Holds ⟨c, b⟩) {k : ℕ} (hk : c.Fresh (some k)) :
    c.listener ≠ some k ∧ c.peer.socket ≠ some k := by
  have hfresh : k ∉ c.openSockets := hk k rfl
  constructor
  · intro hl
    exact hfresh (h.listener k hl).1
  · intro hp
    exact hfresh (h.peer k hp).1

theorem Holds.startWait (h : Holds ⟨c, b⟩) {listener : Option ℕ} {opened : Bool}
    (hfresh : c.Fresh listener) : Holds ⟨c.startWait listener opened, opened⟩ := by
  constructor
  · intro k hk
    obtain rfl : listener = some k := hk
    exact ⟨List.mem_cons_self, (h.socket_ne_fresh hfresh).2⟩
  · -- the new thread comes behind the older ones
    intro k hk hopened
    obtain rfl : listener = some k := hk
    obtain rfl : opened = true := hopened
    exact List.getLast?_concat
  · intro k hk
    obtain ⟨hopen, hr⟩ := h.peer k hk
    exact ⟨List.mem_append_right _ hopen, hr⟩

theorem Holds.stopWait (h : Holds ⟨c, b⟩) :
    Holds ⟨{ c.close c.listener with
      listener := none, peer := { c.peer with mode := .info } }, b⟩ := by
  apply holds_of_noListener
  · rfl
  · intro k hk
    obtain ⟨hopen, hr⟩ := h.peer k hk
    refine ⟨List.mem_filter.mpr ⟨hopen, ?_⟩, hr⟩
    rw [decide_eq_true_eq]
    intro hl
    exact (h.listener k hl.symm).2 hk

/-- A thread that is not the last one leaves the last one where it is. -/
theorem getLast?_eraseIdx {l : List ℕ} {i : ℕ} (hi : i < l.length) (hne : i+1 ≠ l.length) :
    (l.eraseIdx i).getLast? = l.getLast? := by
  rw [List.getLast?_eq_getElem?, List.getLast?_eq_getElem?, List.length_eraseIdx_of_lt hi,
    List.getElem?_eraseIdx_of_ge (by omega)]
  congr 1
  omega

theorem Holds.waitEnds (h : Holds ⟨c, b⟩) {i : ℕ} (hi : i < c.waitThreads.length) :
    Holds ⟨c.waitEnds i, b && decide (i+1 ≠ c.waitThreads.length)⟩ := by
  constructor
  · exact h.listener
  · intro k hk hb
    rw [Bool.and_eq_true, decide_eq_true_eq] at hb
    show (c.waitThreads.eraseIdx i).getLast? = some k
    rw [getLast?_eraseIdx hi hb.2]
    exact h.last k hk hb.1
  · exact h.peer

theorem Holds.install (h : Holds ⟨c, b⟩) {socket : ℕ} (hfresh : c.Fresh (some socket))
    (peerId : Bytes) : Holds ⟨c.install socket peerId, b⟩ := by
  constructor
  · intro k hk
    refine ⟨List.mem_cons_of_mem _ (h.listener k hk).1, ?_⟩
    intro hs
    exact (h.socket_ne_fresh hfresh).1 (hk.trans hs.symm)
  · exact h.last
  · intro k hk
    obtain rfl : socket = k := Option.some.inj hk
    refine ⟨List.mem_cons_self, ⟨c.created, socket⟩, ?_, rfl⟩
    exact List.mem_append_right _ List.mem_cons_self

/-- Closing the peer socket, or -1, does not close the listener. -/
theorem Holds.closePeer (h : Holds ⟨c, b⟩) {d : ChatProcess} (hl : d.listener = c.listener)
    (hw : d.waitThreads = c.waitThreads) (hs : d.peer.socket = none)
    (hopen : ∀ k ∈ c.openSockets, some k ≠ c.peer.socket → k ∈ d.openSockets) :
    Holds ⟨d, b⟩ := by
  constructor
  · intro k hk
    obtain ⟨hin, hne⟩ := h.listener k (hl.symm.trans hk)
    refine ⟨hopen k hin hne.symm, ?_⟩
    show d.peer.socket ≠ some k
    rw [hs]
    exact (Option.some_ne_none k).symm
  · intro k hk hb
    show d.waitThreads.getLast? = some k
    rw [hw]
    exact h.last k (hl.symm.trans hk) hb
  · intro k hk
    cases hs.symm.trans hk

theorem Holds.hangUp (h : Holds ⟨c, b⟩) (i : ℕ) (r : Receiver) :
    Holds ⟨{ (c.receiverEnds i r).close c.peer.socket with
      peer := { c.peer with socket := none, mode := .info } }, b⟩ := by
  apply h.closePeer
  · rfl
  · rfl
  · rfl
  · intro k hk hne
    exact List.mem_filter.mpr ⟨hk, decide_eq_true hne⟩

theorem Holds.connectFails (h : Holds ⟨c, b⟩) (socket : Option ℕ) :
    Holds ⟨{ (c.opens socket).close c.peer.socket with
      peer := { c.peer with socket := none } }, b⟩ := by
  apply h.closePeer
  · rfl
  · rfl
  · rfl
  · intro k hk hne
    exact List.mem_filter.mpr ⟨List.mem_append_right _ hk, decide_eq_true hne⟩

theorem Holds.receiverEnds (h : Holds ⟨c, b⟩) (i : ℕ) (r : Receiver)
    (hp : c.peer.socket = none) : Holds ⟨c.receiverEnds i r, b⟩ := by
  apply h.closePeer
  · rfl
  · rfl
  · exact hp
  · intro k hk hne
    exact hk

theorem Holds.print (h : Holds ⟨c, b⟩) {i k : ℕ} {r : Receiver} (hi : c.receivers[i]? = some r)
    (hp : c.peer.socket = some k) :
    Holds ⟨{ c with receivers := c.receivers.set i { r with socket := k } }, b⟩ := by
  obtain ⟨hlt, -⟩ := List.getElem?_eq_some_iff.mp hi
  constructor
  · exact h.listener
  · exact h.last
  · intro j hj
    obtain rfl : k = j := Option.some.inj (hp.symm.trans hj)
    exact ⟨(h.peer k hp).1, { r with socket := k }, List.mem_set hlt _, rfl⟩

end Operations

section Steps

theorem matches_iff (hrun : w.process.status = .running) : w.Matches ↔ w.ModeTells := by
  constructor
  · intro h
    exact h.2 hrun
  · intro h
    refine ⟨?_, fun _ => h⟩
    rw [hrun]
    decide

theorem matches_exited {c : ChatProcess} {b : Bool} {code : Int} :
    Matches ⟨c.ended (.exited code), b⟩ := by
  constructor
  · intro h
    cases h
  · intro h
    cases h

theorem not_matches_undefined {c : ChatProcess} {b : Bool} : ¬ Matches ⟨c.ended .undefined, b⟩ := by
  intro h
  exact h.1 rfl

variable {c : ChatProcess} {b : Bool} (h : Holds ⟨c, b⟩)
include h

/-- A new peer matches exactly when no wait thread is pending on the listener. -/
theorem Holds.install_tells {socket : ℕ} (hfresh : c.Fresh (some socket)) (peerId : Bytes) :
    ModeTells ⟨c.install socket peerId, b⟩ ↔ ¬ Listens ⟨c, b⟩ := by
  have hd := h.install hfresh peerId
  have hchat : (c.install socket peerId).peer.mode = .chat := rfl
  have hsocket : (c.install socket peerId).peer.socket = some socket := rfl
  calc ModeTells ⟨c.install socket peerId, b⟩
      ↔ ¬ Listens ⟨c.install socket peerId, b⟩ := by
        apply hd.modeTells_iff_of_ne
        · rw [hchat]
          decide
        · rw [hchat, hsocket]
          exact iff_of_true rfl (Option.some_ne_none socket)
    _ ↔ ¬ Listens ⟨c, b⟩ := not_congr (hd.listens_iff.trans h.listens_iff.symm)

/-- So does the end of a conversation. -/
theorem Holds.hangUp_tells (i : ℕ) (r : Receiver) :
    ModeTells ⟨{ (c.receiverEnds i r).close c.peer.socket with
      peer := { c.peer with socket := none, mode := .info } }, b⟩ ↔ ¬ Listens ⟨c, b⟩ := by
  have hd := h.hangUp i r
  calc ModeTells _
      ↔ ¬ Listens _ := by
        apply hd.modeTells_iff_of_ne
        · show Mode.info ≠ .wait
          decide
        · show Mode.info = .chat ↔ (none : Option ℕ) ≠ none
          decide
    _ ↔ ¬ Listens ⟨c, b⟩ := not_congr (hd.listens_iff.trans h.listens_iff.symm)

variable (hm : ModeTells ⟨c, b⟩)
include hm

/-- `/wait` in INFO matches exactly when there is a thread in `accept`. -/
theorem Holds.startWait_tells {listener : Option ℕ} {opened : Bool} (hinfo : c.peer.mode = .info)
    (hfresh : c.Fresh listener) (hopened : opened = true → listener ≠ none) :
    ModeTells ⟨c.startWait listener opened, opened⟩ ↔ opened = true := by
  have hsocket : ¬ c.peer.socket ≠ none := by
    intro hs
    exact (hm.info hinfo).2 (h.talks_iff.mpr hs)
  rw [(h.startWait hfresh).modeTells_iff]
  constructor
  · intro hd
    exact (hd.1.mp rfl).2
  · intro ho
    refine ⟨iff_of_true rfl ⟨hopened ho, ho⟩, iff_of_false ?_ hsocket⟩
    intro hc
    cases hc

theorem Holds.stopWait_tells (hwait : c.peer.mode = .wait) :
    ModeTells ⟨{ c.close c.listener with
      listener := none, peer := { c.peer with mode := .info } }, b⟩ := by
  have hsocket : c.peer.socket = none := by
    by_contra hs
    cases hwait.symm.trans (hm.chat.mpr (h.talks_iff.mpr hs))
  apply (h.stopWait.modeTells_iff_of_ne _ _).mpr
  · rw [h.stopWait.listens_iff]
    intro hl
    exact hl.1 rfl
  · show Mode.info ≠ .wait
    decide
  · show Mode.info = .chat ↔ c.peer.socket ≠ none
    rw [hsocket]
    decide

/-- A failed `connect` takes the peer socket of a conversation away. -/
theorem Holds.connectFails_tells (socket : Option ℕ) :
    ModeTells ⟨{ (c.opens socket).close c.peer.socket with
      peer := { c.peer with socket := none } }, b⟩ ↔ c.peer.mode ≠ .chat := by
  rw [(h.connectFails socket).modeTells_iff]
  constructor
  · intro hd hc
    exact hd.2.mp hc rfl
  · intro hc
    exact ⟨(h.modeTells_iff.mp hm).1, iff_of_false hc (fun hs => hs rfl)⟩

/-- A wait thread that returns without a peer leaves WAIT behind if it was the last one. -/
theorem Holds.waitEnds_tells {i : ℕ} (hi : i < c.waitThreads.length) :
    ModeTells ⟨c.waitEnds i, b && decide (i+1 ≠ c.waitThreads.length)⟩ ↔
      (c.peer.mode = .wait → i+1 ≠ c.waitThreads.length) := by
  obtain ⟨hwait, hchat⟩ := h.modeTells_iff.mp hm
  rw [(h.waitEnds hi).modeTells_iff]
  constructor
  · intro hd hw
    have hflag := (hd.1.mp hw).2
    rw [Bool.and_eq_true, decide_eq_true_eq] at hflag
    exact hflag.2
  · intro hlast
    refine ⟨?_, hchat⟩
    show c.peer.mode = .wait ↔ c.listener ≠ none ∧ (b && decide (i+1 ≠ c.waitThreads.length)) = true
    rw [Bool.and_eq_true, decide_eq_true_eq]
    constructor
    · intro hw
      obtain ⟨hl, hb⟩ := hwait.mp hw
      exact ⟨hl, hb, hlast hw⟩
    · rintro ⟨hl, hb, -⟩
      exact hwait.mpr ⟨hl, hb⟩

end Steps

section Events

variable {c : ChatProcess} {b : Bool} {d : Watched}

/-- What a line does that starts no `/wait`. -/
theorem typeLine_cases {line : Bytes} (listener : Option ℕ) (opened : Bool)
    (hno : ¬ (c.peer.mode = .info ∧ startsWith line (ascii "/wait") = true)) :
    c.typeLine line listener opened = c ∨
      c.typeLine line listener opened = c.ended (.exited exitSuccess) ∨
      c.typeLine line listener opened = { c with unanswered := c.unanswered+1 } := by
  unfold ChatProcess.typeLine
  split_ifs with hnil hquit hchat hwait hw hconnect hw
  · exact Or.inl rfl
  · exact Or.inr (Or.inl rfl)
  · exact Or.inl rfl
  · exact Or.inl rfl
  · apply absurd _ hno
    refine ⟨?_, hwait⟩
    cases hm : c.peer.mode with
    | info => rfl
    | wait => exact absurd hm hw
    | chat => exact absurd hm hchat
  · exact Or.inl rfl
  · exact Or.inr (Or.inr rfl)
  · exact Or.inl rfl

/-- What a step needs to be shown: the variables keep what they hold, and the mode matches exactly
when the step keeps it. -/
def Checks (w : Watched) (e : ChatEvent) (d : Watched) : Prop :=
  d.Holds ∧ (d.Matches ↔ w.KeepsMode e)

variable (hrun : c.status = .running) (h : Holds ⟨c, b⟩) (hm : ModeTells ⟨c, b⟩)
include hrun h hm

theorem checks_typeLine {line : Bytes} {listener : Option ℕ} {opened : Bool}
    (hfresh : c.Fresh listener) (hopened : opened = true → listener ≠ none) :
    Checks ⟨c, b⟩ (.typeLine line listener opened)
      ⟨c.typeLine line listener opened, acceptingAfter ⟨c, b⟩ (.typeLine line listener opened)⟩ := by
  rw [acceptingAfter]
  by_cases hstart : c.peer.mode = .info ∧ startsWith line (ascii "/wait") = true
  · rw [if_pos hstart, ChatProcess.typeLine_wait hstart.1 hstart.2]
    refine ⟨h.startWait hfresh, ?_⟩
    rw [matches_iff hrun, h.startWait_tells hm hstart.1 hfresh hopened]
    constructor
    · intro ho _ _
      exact ho
    · intro hk
      exact hk hstart.1 hstart.2
  · have hkeeps : KeepsMode ⟨c, b⟩ (.typeLine line listener opened) := by
      intro hinfo hwait
      exact absurd ⟨hinfo, hwait⟩ hstart
    rw [if_neg hstart]
    rcases typeLine_cases listener opened hstart with he | he | he
    · rw [he]
      exact ⟨h, iff_of_true ((matches_iff hrun).mpr hm) hkeeps⟩
    · rw [he]
      exact ⟨⟨h.listener, h.last, h.peer⟩, iff_of_true matches_exited hkeeps⟩
    · rw [he]
      refine ⟨⟨h.listener, h.last, h.peer⟩, iff_of_true ?_ hkeeps⟩
      exact (matches_iff hrun).mpr ⟨hm.wait, hm.chat, hm.info⟩

theorem checks_sigint : Checks ⟨c, b⟩ .sigint ⟨c.sigint, b⟩ := by
  have hsame : Checks ⟨c, b⟩ .sigint ⟨c, b⟩ :=
    ⟨h, iff_of_true ((matches_iff hrun).mpr hm) trivial⟩
  unfold ChatProcess.sigint
  cases hmode : c.peer.mode with
  | info => exact hsame
  | chat => exact hsame
  | wait =>
    refine ⟨h.stopWait, iff_of_true ?_ trivial⟩
    exact (matches_iff hrun).mpr (h.stopWait_tells hm hmode)

theorem checks_handleConnect {data peerId : Bytes} {answers : Bool} {socket : Option ℕ}
    {connected : Bool} (hfresh : c.Fresh socket) (hd : data ≠ [])
    (hread : ChatProcess.Readable data) (hnames : namesPeer data = true) :
    Checks ⟨c, b⟩ (.recvServer data answers socket connected)
      ⟨(c.answered answers).handleConnect peerId socket connected, b⟩ := by
  have hc : Holds ⟨c.answered answers, b⟩ := ⟨h.listener, h.last, h.peer⟩
  have hcm : ModeTells ⟨c.answered answers, b⟩ := ⟨hm.wait, hm.chat, hm.info⟩
  have hkeeps : KeepsMode ⟨c, b⟩ (.recvServer data answers socket connected) ↔
      if connected = true ∧ socket ≠ none then c.peer.mode ≠ .wait else c.peer.mode ≠ .chat := by
    constructor
    · intro hk
      exact (hk hd).2 hnames
    · intro hk _
      exact ⟨hread, fun _ => hk⟩
  rw [Checks, hkeeps]
  unfold ChatProcess.handleConnect
  split
  -- connected: the peer takes the place of whatever there was
  · rename_i k
    rw [if_pos ⟨rfl, Option.some_ne_none k⟩]
    have hinstall := hc.install hfresh peerId
    refine ⟨⟨hinstall.listener, hinstall.last, hinstall.peer⟩, ?_⟩
    rw [matches_iff hrun]
    refine Iff.trans ?_ ((hc.install_tells hfresh peerId).trans (not_congr hcm.wait.symm))
    constructor
    · intro ht
      exact ⟨ht.wait, ht.chat, ht.info⟩
    · intro ht
      exact ⟨ht.wait, ht.chat, ht.info⟩
  -- failed: the socket of `global_peer_info` is closed, the mode stays
  · rename_i hno
    have hfails : ¬ (connected = true ∧ socket ≠ none) := by
      rintro ⟨rfl, hs⟩
      obtain ⟨k, rfl⟩ := Option.ne_none_iff_exists'.mp hs
      exact hno k rfl rfl
    rw [if_neg hfails]
    refine ⟨hc.connectFails socket, ?_⟩
    rw [matches_iff hrun]
    exact hc.connectFails_tells hcm socket

theorem checks_recvServer {data : Bytes} {answers : Bool} {socket : Option ℕ} {connected : Bool}
    {c' : ChatProcess} (hfresh : c.Fresh socket)
    (hs : c.recvServer data answers socket connected = some c') :
    Checks ⟨c, b⟩ (.recvServer data answers socket connected) ⟨c', b⟩ := by
  have hended (status : ProcessStatus) : Holds ⟨c.ended status, b⟩ := ⟨h.listener, h.last, h.peer⟩
  rw [ChatProcess.recvServer] at hs
  by_cases hend : data = []
  · rw [if_pos hend] at hs
    cases hs
    exact ⟨hended _, iff_of_true matches_exited fun hne => absurd hend hne⟩
  rw [if_neg hend] at hs
  by_cases hfull : data.length ≥ bufferSize
  · rw [if_pos hfull] at hs
    cases hs
    refine ⟨hended _, iff_of_false not_matches_undefined ?_⟩
    intro hk
    exact absurd (hk hend).1.1 (not_lt.mpr hfull)
  rw [if_neg hfull, Option.ite_none_left_eq_some] at hs
  obtain ⟨-, hs⟩ := hs
  cases hmessage : serverMessage data with
  | none =>
    rw [hmessage] at hs
    cases hs
    refine ⟨hended _, iff_of_false not_matches_undefined ?_⟩
    intro hk
    exact (hk hend).1.2 hmessage
  | some message =>
    have hread : ChatProcess.Readable data := by
      refine ⟨not_le.mp hfull, ?_⟩
      rw [hmessage]
      exact Option.some_ne_none message
    -- only a `CONNECT` names a peer
    have hkeeps (hother : namesPeer data = false) :
        KeepsMode ⟨c, b⟩ (.recvServer data answers socket connected) := by
      intro _
      refine ⟨hread, ?_⟩
      intro hnames
      cases hother.symm.trans hnames
    rw [hmessage] at hs
    cases message with
    | connect peerId peerPort =>
      cases hs
      apply checks_handleConnect hrun h hm hfresh hend hread
      rw [namesPeer, hmessage]
    | idTaken =>
      cases hs
      refine ⟨hended _, iff_of_true matches_exited (hkeeps ?_)⟩
      rw [namesPeer, hmessage]
    | other =>
      cases hs
      refine ⟨⟨h.listener, h.last, h.peer⟩, iff_of_true ?_ (hkeeps ?_)⟩
      · exact (matches_iff hrun).mpr ⟨hm.wait, hm.chat, hm.info⟩
      · rw [namesPeer, hmessage]

theorem checks_accept {i socket : ℕ} {sent : Bytes} (hi : i < c.waitThreads.length)
    (hfresh : c.Fresh (some socket)) :
    Checks ⟨c, b⟩ (.accept i socket sent)
      ⟨c.accept i socket sent, acceptingAfter ⟨c, b⟩ (.accept i socket sent)⟩ := by
  rw [acceptingAfter]
  unfold ChatProcess.accept
  dsimp only
  by_cases hid : (sent.takeWhile fun b => b ≠ 0) = []
  · -- without an id the thread only ends
    rw [if_pos hid]
    refine ⟨h.waitEnds hi, ?_⟩
    rw [matches_iff hrun, h.waitEnds_tells hm hi]
    constructor
    · intro hlast
      refine ⟨?_, fun hw => iff_of_false (not_not_intro hid) (hlast hw)⟩
      rw [hid]
      decide
    · intro hk hw hlast
      exact (hk.2 hw).mpr hlast hid
  rw [if_neg hid]
  by_cases hlen : (sent.takeWhile fun b => b ≠ 0).length < idSize
  · -- in WAIT the listener is left behind unless this was its thread
    rw [if_pos hlen]
    have hends := h.waitEnds hi
    refine ⟨hends.install hfresh _, ?_⟩
    rw [matches_iff hrun, hends.install_tells hfresh, hends.listens_iff]
    obtain ⟨hwait, -⟩ := h.modeTells_iff.mp hm
    rw [Bool.and_eq_true, decide_eq_true_eq]
    constructor
    · intro hleft
      refine ⟨hlen, fun hw => iff_of_true hid ?_⟩
      by_contra hne
      exact hleft ⟨(hwait.mp hw).1, (hwait.mp hw).2, hne⟩
    · rintro hk ⟨hl, hb, hne⟩
      exact hne ((hk.2 (hwait.mpr ⟨hl, hb⟩)).mp hid)
  · rw [if_neg hlen]
    refine ⟨⟨h.listener, ?_, h.peer⟩, iff_of_false not_matches_undefined (fun hk => hlen hk.1)⟩
    intro k hk hb
    rw [Bool.and_eq_true] at hb
    exact h.last k hk hb.1

theorem checks_recvPeer {i : ℕ} {r : Receiver} {data : Option Bytes}
    (hi : c.receivers[i]? = some r) :
    Checks ⟨c, b⟩ (.recvPeer i data) ⟨c.recvPeer i r data, b⟩ := by
  unfold ChatProcess.recvPeer
  rw [← hangsUp]
  by_cases hend : hangsUp data = true
  -- in WAIT this is a thread whose conversation was replaced
  · rw [if_pos hend]
    refine ⟨h.hangUp i r, ?_⟩
    rw [matches_iff hrun, h.hangUp_tells i r, ← hm.wait]
    constructor
    · intro hw hmode
      exact absurd hmode hw
    · intro hk hmode
      cases hend.symm.trans (hk hmode)
  · have hkeeps : KeepsMode ⟨c, b⟩ (.recvPeer i data) := fun _ => Bool.eq_false_iff.mpr hend
    rw [if_neg hend]
    cases hp : c.peer.socket with
    | none =>
      have hends := h.receiverEnds i r hp
      refine ⟨hends, iff_of_true ?_ hkeeps⟩
      rw [matches_iff hrun, hends.modeTells_iff]
      exact h.modeTells_iff.mp hm
    | some k =>
      have hprints := h.print hi hp
      refine ⟨hprints, iff_of_true ?_ hkeeps⟩
      rw [matches_iff hrun, hprints.modeTells_iff]
      exact h.modeTells_iff.mp hm

end Events

theorem holds_step {d : Watched} {e : ChatEvent} (h : w.Holds) (hm : w.Matches)
    (hstep : w.step e = some d) : Checks w e d := by
  obtain ⟨c, b⟩ := w
  obtain ⟨c', hs, rfl⟩ := Option.map_eq_some_iff.mp hstep
  simp only [ChatProcess.step, Option.ite_none_right_eq_some] at hs
  obtain ⟨hrun, hs⟩ := hs
  have htells := hm.2 hrun
  cases e with
  | typeLine line listener opened =>
    simp only [Option.ite_none_right_eq_some, Option.some.injEq] at hs
    obtain ⟨⟨hfresh, hopened⟩, rfl⟩ := hs
    exact checks_typeLine hrun h htells hfresh hopened
  | sigint =>
    cases hs
    exact checks_sigint hrun h htells
  | recvServer data answers socket connected =>
    simp only [Option.ite_none_right_eq_some] at hs
    obtain ⟨⟨-, hfresh, -⟩, hs⟩ := hs
    exact checks_recvServer hrun h htells hfresh hs
  | accept i socket sent =>
    simp only [Option.ite_none_right_eq_some, Option.some.injEq] at hs
    obtain ⟨⟨hi, hfresh, -⟩, rfl⟩ := hs
    exact checks_accept hrun h htells hi hfresh
  | acceptFails i =>
    simp only [Option.ite_none_right_eq_some, Option.some.injEq] at hs
    obtain ⟨hi, rfl⟩ := hs
    refine ⟨h.waitEnds hi, ?_⟩
    exact (matches_iff hrun).trans (h.waitEnds_tells htells hi)
  | recvPeer i data =>
    obtain ⟨r, hi, rfl⟩ := Option.map_eq_some_iff.mp hs
    exact checks_recvPeer hrun h htells hi

theorem holds_matches_of_reachable (h : Reachable step KeepsMode start w) :
    w.Holds ∧ w.Matches := by
  apply h.invariant
  · refine ⟨holds_start, (matches_iff rfl).mpr ?_⟩
    rw [holds_start.modeTells_iff]
    decide
  · rintro w e d ⟨hw, hm⟩ hk hs
    obtain ⟨hd, hiff⟩ := holds_step hw hm hs
    exact ⟨hd, hiff.mpr hk⟩

end Watched

open Watched

/-- In a run all of whose steps keep the mode, it matches the resources in every state; and the
next step leaves it matching exactly when it keeps the mode, too. -/
theorem mode_matches_resources {w : Watched} (h : Reachable Watched.step KeepsMode .start w) :
    w.Matches ∧ ∀ e d, w.step e = some d → (d.Matches ↔ w.KeepsMode e) := by
  obtain ⟨hw, hm⟩ := holds_matches_of_reachable h
  refine ⟨hm, ?_⟩
  intro e d hs
  exact (holds_step hw hm hs).2

set_option maxRecDepth 4096 in
/-- A `/wait`, a conversation with the peer that comes, and another `/wait` that is stopped. -/
theorem mode_matches_resources_twoWaits :
    ∃ w, Reachable Watched.step KeepsMode .start w ∧ w.process.status = .running ∧
      w.process.waitThreads = [6] ∧ w.ModeTells := by
  have hrun : ∃ w, Reachable Watched.step KeepsMode .start w ∧ w.process.status = .running ∧
      w.process.waitThreads = [6] := by
    refine exists_reachable_of_replayIf [.typeLine (ascii "/wait") (some 4) true,
      .accept 0 5 (ascii "bob"), .recvPeer 0 (some (ascii "hi")), .recvPeer 0 (some (ascii "LEAVE")),
      .typeLine (ascii "/wait") (some 6) true, .sigint] _ ?_
    decide
  obtain ⟨w, hw, hrunning, hthreads⟩ := hrun
  exact ⟨w, hw, hrunning, hthreads, (mode_matches_resources hw).1.2 hrunning⟩

set_option maxRecDepth 4096 in
/-- `bind` fails: the client is in WAIT, and no thread waits. -/
theorem wait_without_thread :
    ¬ ∀ w, Reachable Watched.step anyStep .start w → w.Matches := by
  intro h
  have hrun : ∃ w, Reachable Watched.step anyStep .start w ∧ w.process.status = .running ∧
      w.process.peer.mode = .wait ∧ w.process.waitThreads = [] := by
    refine exists_reachable_of_replayIf [.typeLine (ascii "/wait") (some 4) false] _ ?_
    decide
  obtain ⟨w, hw, hrunning, hmode, hthreads⟩ := hrun
  obtain ⟨k, -, -, -, hlast⟩ := ((h w hw).2 hrunning).wait.mp hmode
  rw [hthreads] at hlast
  cases hlast

end NetTools.IRC
