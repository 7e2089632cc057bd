import NetTools.TFTPProcess
import NetTools.TFTPTransfer
import Mathlib.Data.Finset.Card

namespace NetTools.TFTP

open CText CArray Schedule

/-- A thread that has no more than its first packet behind it: it has ended only if it was asked
for no byte. -/
structure HandlerThread.Fresh (th : HandlerThread) : Prop where
  seqNum : th.handler.seqNum = 0
  inFile : th.handler.phase = .sending → th.handler.pos < th.handler.file.length
  ended : th.handler.phase = .ended → th.handler.bytesRemaining = 0

/-- A later state of a thread that got no ACK. -/
structure HandlerThread.Stays (th th' : HandlerThread) : Prop where
  clientAddr : th'.clientAddr = th.clientAddr
  seqNum : th'.handler.seqNum = th.handler.seqNum
  waits : th.handler.isWaiting = true → th'.handler.isWaiting = true
  ended : th.handler.phase = .ended → th'.handler.phase = .ended
  fresh : th.Fresh → th'.Fresh

/-- What a thread does when there is no ACK for it. -/
inductive HandlerThread.Idle (th : HandlerThread) : Handler → Prop
  | send (hp : th.handler.phase = .sending) : Idle th th.handler.sent
  | finish (hp : th.handler.phase = .sending) (hend : th.handler.atEnd = true) :
      Idle th { th.handler with phase := .ended }
  | sleep (hp : th.handler.phase = .scanning) : Idle th { th.handler with phase := .asleep }
  | wake (hp : th.handler.phase = .asleep) : Idle th th.handler.wake

namespace HandlerThread

variable {th th' th'' : HandlerThread} {h : Handler}

/-- A loop that ends at the first packet had no byte to send. -/
theorem Idle.fresh (hi : th.Idle h) (hf : th.Fresh) :
    ({ th with handler := h } : HandlerThread).Fresh := by
  cases hi with
  | send hp => exact ⟨hf.seqNum, by simp [Handler.sent], by simp [Handler.sent]⟩
  | finish hp hend =>
    refine ⟨hf.seqNum, by simp, fun _ => ?_⟩
    have hpos := hf.inFile hp
    -- in front of the end of the file a read is empty only when nothing is left to send
    by_contra hne
    change ¬ th.handler.bytesRemaining = 0 at hne
    simp only [Handler.atEnd, Bool.or_eq_true, decide_eq_true_eq, hne, false_or] at hend
    have hlen := congrArg List.length hend
    have hroom : payloadSize = 1016 := rfl
    simp only [Handler.read, List.length_take, List.length_drop, List.length_nil] at hlen
    split_ifs at hlen <;> omega
  | sleep hp => exact ⟨hf.seqNum, by simp, by simp⟩
  | wake hp =>
    have hwake : th.handler.wake = { th.handler with phase := .scanning } := if_pos hp
    rw [hwake]
    exact ⟨hf.seqNum, by simp, by simp⟩

theorem Stays.refl (th : HandlerThread) : th.Stays th := ⟨rfl, rfl, id, id, id⟩

theorem Stays.trans (h : th.Stays th') (h' : th'.Stays th'') : th.Stays th'' :=
  ⟨h'.clientAddr.trans h.clientAddr, h'.seqNum.trans h.seqNum, h'.waits ∘ h.waits, h'.ended ∘ h.ended,
    h'.fresh ∘ h.fresh⟩

theorem Idle.stays (hi : th.Idle h) : th.Stays { th with handler := h } := by
  have hfresh := hi.fresh
  cases hi with
  | send hp => exact ⟨rfl, rfl, fun _ => rfl, fun hend => by simp [hp] at hend, hfresh⟩
  | finish hp hend =>
    exact ⟨rfl, rfl, fun hw => by simp [Handler.isWaiting, hp] at hw, fun _ => rfl, hfresh⟩
  | sleep hp => exact ⟨rfl, rfl, fun _ => rfl, fun hend => by simp [hp] at hend, hfresh⟩
  | wake hp =>
    refine ⟨rfl, th.handler.seqNum_wake, fun _ => ?_, fun hend => by simp [hp] at hend, hfresh⟩
    simp [Handler.wake, hp, Handler.isWaiting]

end HandlerThread

theorem Handler.start_fresh {file : Bytes} {offset chunkSize : ℕ} {h : Handler} (clientAddr : ℕ)
    (hh : Handler.start file offset chunkSize = some h) : (⟨clientAddr, h⟩ : HandlerThread).Fresh := by
  simp only [Handler.start, Option.ite_none_left_eq_some, Option.some.injEq, not_or] at hh
  obtain ⟨⟨hin, -⟩, rfl⟩ := hh
  exact ⟨rfl, fun _ => by simpa using hin, by simp⟩

namespace AckServer

variable {s t u : AckServer} {a : QueueAction} {x : ℕ} {th : HandlerThread} {h : Handler}

/-- The queue is full, and no thread that runs will look for one of its entries. -/
structure Clogged (s : AckServer) : Prop where
  full : s.store.ackQueueSize = maxQueueSize
  unclaimed : ∀ ack ∈ s.store.acks, ∀ x th, s.threads x = some th → th.clientAddr = ack.clientAddr →
    th.handler.phase = .ended ∨ ack.seqNum < th.handler.seqNum

/-- A later state: the queue is as it was, no thread has advanced, and a new one, for an address
that has no entry in the queue, is at its first packet. -/
structure Stands (s t : AckServer) : Prop where
  store : t.store = s.store
  kept : ∀ x th, s.threads x = some th → ∃ th', t.threads x = some th' ∧ th.Stays th'
  fresh : ∀ x th', s.threads x = none → t.threads x = some th' →
    th'.Fresh ∧ ∀ ack ∈ s.store.acks, th'.clientAddr ≠ ack.clientAddr

/-- No `GET` is from an address with an entry in the queue. -/
def Spares (s : AckServer) : QueueAction → Prop
  | .begin _ clientAddr _ _ _ => ∀ ack ∈ s.store.acks, clientAddr ≠ ack.clientAddr
  | _ => True

theorem Stands.of_threads (hstore : t.store = s.store) (hthreads : t.threads = s.threads) :
    s.Stands t := by
  refine ⟨hstore, fun x th hx => ⟨th, by rw [hthreads, hx], .refl th⟩, ?_⟩
  intro x th' hx hx'
  rw [hthreads, hx] at hx'
  cases hx'

theorem Stands.trans (h : s.Stands t) (h' : t.Stands u) : s.Stands u := by
  refine ⟨h'.store.trans h.store, ?_, ?_⟩
  · intro x th hx
    obtain ⟨th', hx', hstays⟩ := h.kept x th hx
    obtain ⟨th'', hx'', hstays'⟩ := h'.kept x th' hx'
    exact ⟨th'', hx'', hstays.trans hstays'⟩
  · intro x th'' hx hx''
    cases hx' : t.threads x with
    | none =>
      rw [← h.store]
      exact h'.fresh x th'' hx' hx''
    | some th' =>
      obtain ⟨hfresh, hstranger⟩ := h.fresh x th' hx hx'
      obtain ⟨th, hth, hstays⟩ := h'.kept x th' hx'
      obtain rfl : th = th'' := Option.some.inj (hth.symm.trans hx'')
      exact ⟨hstays.fresh hfresh, hstays.clientAddr ▸ hstranger⟩

/-- A clogged queue stays clogged. -/
theorem Stands.clogged (h : s.Stands t) (hs : s.Clogged) : t.Clogged := by
  refine ⟨h.store ▸ hs.full, ?_⟩
  intro ack hack x th' hx' haddr
  rw [AckStore.acks, h.store] at hack
  cases hx : s.threads x with
  | none => exact absurd haddr ((h.fresh x th' hx hx').2 ack hack)
  | some th =>
    obtain ⟨th'', hth, hstays⟩ := h.kept x th hx
    obtain rfl : th'' = th' := Option.some.inj (hth.symm.trans hx')
    rw [hstays.seqNum]
    rw [hstays.clientAddr] at haddr
    exact (hs.unclaimed ack hack x th hx haddr).imp_left hstays.ended

theorem stands_put (hx : s.threads x = some th) (hidle : th.Idle h) :
    s.Stands (s.putHandler x th h) := by
  refine ⟨rfl, ?_, ?_⟩
  · intro y th' hy
    by_cases hyx : y = x
    · subst hyx
      obtain rfl : th = th' := Option.some.inj (hx.symm.trans hy)
      exact ⟨_, by rw [putHandler, put_threads, if_pos rfl], hidle.stays⟩
    · exact ⟨th', by rw [putHandler, put_threads, if_neg hyx, hy], .refl th'⟩
  · intro y th' hy hy'
    rw [putHandler, put_threads] at hy'
    split_ifs at hy' with hyx
    · rw [hyx, hx] at hy
      cases hy
    · rw [hy] at hy'
      cases hy'

theorem stands_begin {clientAddr offset chunkSize : ℕ} {file : Bytes} (hx : s.threads x = none)
    (hh : Handler.start file offset chunkSize = some h)
    (haddr : ∀ ack ∈ s.store.acks, clientAddr ≠ ack.clientAddr) : s.Stands (s.put x ⟨clientAddr, h⟩) := by
  refine ⟨rfl, ?_, ?_⟩
  · intro y th hy
    have hyx : y ≠ x := by
      rintro rfl
      rw [hx] at hy
      cases hy
    exact ⟨th, by rw [put_threads, if_neg hyx, hy], .refl th⟩
  · intro y th' hy hy'
    rw [put_threads] at hy'
    split_ifs at hy' with hyx
    · cases hy'
      exact ⟨Handler.start_fresh clientAddr hh, haddr⟩
    · rw [hy] at hy'
      cases hy'

/-- A scan finds nothing in a clogged queue, and nothing gets into it. -/
theorem stands_step (hs : s.Clogged) (ha : s.Spares a) (hc : a.closes = false)
    (h : s.step a = some t) : s.Stands t := by
  cases a with
  | begin x clientAddr file offset chunkSize =>
    simp only [step, Option.ite_none_right_eq_some] at h
    obtain ⟨hx, h⟩ := h
    obtain ⟨hd, hh, rfl⟩ := Option.map_eq_some_iff.mp h
    exact stands_begin hx hh ha
  | send x =>
    obtain ⟨th, hx, h⟩ := Option.bind_eq_some_iff.mp h
    simp only [Option.ite_none_right_eq_some, Option.some.injEq] at h
    obtain ⟨⟨hp, -⟩, rfl⟩ := h
    exact stands_put hx (.send hp)
  | sendFails x => cases hc
  | scan x =>
    obtain ⟨th, hx, h⟩ := Option.bind_eq_some_iff.mp h
    simp only [Option.ite_none_right_eq_some] at h
    obtain ⟨hp, h⟩ := h
    have hnone : s.store.find th.wanted = none := by
      apply AckStore.find_eq_none_iff.mpr
      intro hmem
      -- the thread that looks for the entry has not ended and wants its own number
      rcases hs.unclaimed th.wanted hmem x th hx rfl with hend | hlt
      · simp [hp] at hend
      · exact absurd hlt (Nat.lt_irrefl _)
    rw [hnone] at h
    cases h
    exact stands_put hx (.sleep hp)
  | wake x =>
    obtain ⟨th, hx, h⟩ := Option.bind_eq_some_iff.mp h
    simp only [Option.ite_none_right_eq_some, Option.some.injEq] at h
    obtain ⟨hp, rfl⟩ := h
    exact stands_put hx (.wake hp)
  | finish x =>
    obtain ⟨th, hx, h⟩ := Option.bind_eq_some_iff.mp h
    simp only [Option.ite_none_right_eq_some, Option.some.injEq] at h
    obtain ⟨⟨hp, hend⟩, rfl⟩ := h
    exact stands_put hx (.finish hp hend)
  | enqueue ack =>
    have hfull : ¬ s.store.ackQueueSize < maxQueueSize := by
      rw [hs.full]
      exact Nat.lt_irrefl _
    simp only [step, if_neg hfull] at h
    cases h
    exact .of_threads rfl rfl

/-- Every thread is sound. -/
def Sound (s : AckServer) : Prop := ∀ x th, s.threads x = some th → th.handler.Sound

theorem Sound.put (hs : s.Sound) (hth : th.handler.Sound) : (s.put x th).Sound := by
  intro y th' hy
  rw [put_threads] at hy
  split_ifs at hy
  · cases hy
    exact hth
  · exact hs y th' hy

theorem sound_step (hs : s.Sound) (h : s.step a = some t) : t.Sound := by
  cases queueStep_cases h with
  | begin hx hh => exact hs.put (Handler.start_seqNum hh).2
  | @quiet _ x th h hx ha hq hf => exact hs.put (hf.sound (hs x th hx))
  | @take x i th hx hp hi => exact hs.put ((hs x th hx).acked hp).2
  | enqueue hroom =>
    intro x th' hx'
    obtain ⟨th, hx, rfl⟩ := Option.map_eq_some_iff.mp hx'
    exact (hs x th hx).wake
  | drop hfull => exact hs

theorem sound_of_reachable (h : Reachable step anyStep start s) : s.Sound :=
  h.invariant (P := Sound) (fun _ _ hx => by cases hx) fun _ _ _ hs _ hstep => sound_step hs hstep

/-- The thread has its file open. -/
def InLoop (s : AckServer) (x : ℕ) : Prop := ∃ th, s.threads x = some th ∧ th.handler.phase ≠ .ended

theorem inLoop_put (y : ℕ) :
    (s.put x th).InLoop y ↔ if y = x then th.handler.phase ≠ .ended else s.InLoop y := by
  rw [InLoop, put_threads]
  split_ifs
  · simp
  · rfl

end AckServer

/-- The threads with an open file behind an action: `fopen` is in front of the loop and `fclose`
behind it. -/
def QueueAction.filesAfter (files : Finset ℕ) : QueueAction → Finset ℕ
  | .begin x .. => insert x files
  | .finish x => files.erase x
  | _ => files

namespace AckServer

variable {s t : AckServer} {a : QueueAction} {files : Finset ℕ}

/-- A thread that stays in the loop. -/
theorem inLoop_putHandler {x : ℕ} {th : HandlerThread} {h : Handler} (hx : s.threads x = some th)
    (hth : th.handler.phase ≠ .ended) (hh : h.phase ≠ .ended) (y : ℕ) :
    (s.putHandler x th h).InLoop y ↔ s.InLoop y := by
  rw [putHandler, inLoop_put]
  by_cases hyx : y = x
  · subst hyx
    rw [if_pos rfl]
    exact iff_of_true hh ⟨th, hx, hth⟩
  · rw [if_neg hyx]

/-- While no packet fails to be sent, the threads in the loop are those with an open file. -/
theorem inLoop_step (hs : s.Sound) (hc : a.closes = false) (h : s.step a = some t)
    (hfiles : ∀ x, x ∈ files ↔ s.InLoop x) (x : ℕ) : x ∈ a.filesAfter files ↔ t.InLoop x := by
  cases a with
  | begin y clientAddr file offset chunkSize =>
    simp only [step, Option.ite_none_right_eq_some] at h
    obtain ⟨hy, h⟩ := h
    obtain ⟨hd, hh, rfl⟩ := Option.map_eq_some_iff.mp h
    have hphase : hd.phase ≠ .ended := by
      simp only [Handler.start, Option.ite_none_left_eq_some, Option.some.injEq] at hh
      obtain ⟨-, rfl⟩ := hh
      simp
    rw [QueueAction.filesAfter, Finset.mem_insert, inLoop_put, hfiles]
    split_ifs with hxy
    · exact iff_of_true (Or.inl hxy) hphase
    · exact or_iff_right hxy
  | send y =>
    obtain ⟨th, hy, h⟩ := Option.bind_eq_some_iff.mp h
    simp only [Option.ite_none_right_eq_some, Option.some.injEq] at h
    obtain ⟨⟨hp, -⟩, rfl⟩ := h
    exact (hfiles x).trans (inLoop_putHandler hy (by simp [hp]) (by simp [Handler.sent]) x).symm
  | sendFails y => cases hc
  | scan y =>
    obtain ⟨th, hy, h⟩ := Option.bind_eq_some_iff.mp h
    simp only [Option.ite_none_right_eq_some] at h
    obtain ⟨hp, h⟩ := h
    split at h
    · cases h
      -- a sound thread goes on with the next packet
      have hle := hs y th hy (Or.inl hp)
      have hacked : th.handler.acked.phase ≠ .ended := by
        rw [Handler.acked, if_neg (by omega)]
        simp
      exact (hfiles x).trans (inLoop_putHandler hy (by simp [hp]) hacked x).symm
    · cases h
      exact (hfiles x).trans (inLoop_putHandler hy (by simp [hp]) (by simp) x).symm
  | wake y =>
    obtain ⟨th, hy, h⟩ := Option.bind_eq_some_iff.mp h
    simp only [Option.ite_none_right_eq_some, Option.some.injEq] at h
    obtain ⟨hp, rfl⟩ := h
    have hwake : th.handler.wake.phase ≠ .ended := by simp [Handler.wake, hp]
    exact (hfiles x).trans (inLoop_putHandler hy (by simp [hp]) hwake x).symm
  | finish y =>
    obtain ⟨th, hy, h⟩ := Option.bind_eq_some_iff.mp h
    simp only [Option.ite_none_right_eq_some, Option.some.injEq] at h
    obtain ⟨-, rfl⟩ := h
    rw [QueueAction.filesAfter, Finset.mem_erase, putHandler, inLoop_put, hfiles]
    split_ifs with hxy
    · simp [hxy]
    · exact and_iff_right hxy
  | enqueue ack =>
    apply (hfiles x).trans
    simp only [step] at h
    split_ifs at h
    · cases h
      -- the broadcast wakes sleepers and ends nobody
      have hwake (h : Handler) : h.wake.phase = .ended ↔ h.phase = .ended := by
        rw [Handler.wake]
        split_ifs with hp
        · simp [hp]
        · rfl
      simp only [InLoop, broadcast, withStore, Option.map_eq_some_iff]
      constructor
      · rintro ⟨th, hx, hp⟩
        exact ⟨_, ⟨th, hx, rfl⟩, mt (hwake _).mp hp⟩
      · rintro ⟨-, ⟨th, hx, rfl⟩, hp⟩
        exact ⟨th, hx, mt (hwake _).mpr hp⟩
    · cases h
      exact Iff.rfl

end AckServer

/-- The process with the threads that have a file open. A `CHECK` closes its file before it
answers. -/
structure Holder where
  process : Process
  files : Finset ℕ

namespace Holder

def start : Holder := ⟨.start, ∅⟩

/-- The standard streams, the socket and the files. -/
def size (p : Holder) : ℕ := 4+p.files.card

/-- `fopen` succeeds only while a descriptor is free. -/
def allows (limit : ℕ) (p : Holder) : Event → Bool
  | .fopen _ (some _) => p.size < limit
  | _ => true

/-- The open files behind an event that leaves the process as `t`; its end closes all. -/
def filesAfter (p : Holder) (e : Event) (t : Process) : Finset ℕ :=
  if t.status ≠ .running then ∅
  else
    match e with
    | .fopen x (some _) =>
      if (p.process.requests x).any fun r => r.command = ascii "GET" then insert x p.files else p.files
    | .loop a => a.filesAfter p.files
    | _ => p.files

def step (limit : ℕ) (p : Holder) (e : Event) : Option Holder :=
  if p.allows limit e then (p.process.step e).map fun t => ⟨t, p.filesAfter e t⟩ else none

/-- The queue is full, and each thread with an open file is past the entries from its address. -/
def Clogged (p : Holder) : Prop :=
  p.process.queue.store.ackQueueSize = maxQueueSize ∧
    ∀ ack ∈ p.process.queue.store.acks, ∀ x ∈ p.files, ∀ th ∈ p.process.queue.threads x,
      th.clientAddr = ack.clientAddr → ack.seqNum < th.handler.seqNum

/-- Every thread with an open file waits for an ACK. -/
def AllWait (p : Holder) : Prop :=
  ∀ x ∈ p.files, ∀ th ∈ p.process.queue.threads x, th.handler.isWaiting = true

/-- No `GET` is handled that is from an address with an entry in the queue. -/
def Spares (p : Holder) : Event → Prop
  | .fopen x _ => ∀ r ∈ p.process.requests x, r.command = ascii "GET" →
      ∀ ack ∈ p.process.queue.store.acks, r.clientAddr ≠ ack.clientAddr
  | _ => True

end Holder

namespace Process

variable {s t : Process} {x : ℕ}

/-- The receive loop does nothing to the queue but store ACKs. -/
theorem queue_receive {clientAddr stackSeq : ℕ} {datagram : Bytes} {heap : ℕ × ℕ} {created : Option ℕ}
    (h : s.receive clientAddr datagram stackSeq heap created = some t) :
    t.queue = s.queue ∨ ∃ ack, s.queue.step (.enqueue ack) = some t.queue := by
  unfold receive at h
  split_ifs at h
  · cases h
    exact Or.inl rfl
  · split at h
    · obtain ⟨q, hq, rfl⟩ := Option.map_eq_some_iff.mp h
      exact Or.inr ⟨_, hq⟩
    · cases h
      exact Or.inl rfl
    · split at h
      · cases h
        exact Or.inl rfl
      · simp only [Option.ite_none_right_eq_some, Option.some.injEq] at h
        obtain ⟨-, rfl⟩ := h
        exact Or.inl rfl

/-- A `GET` of a file goes into its loop; every other request leaves the queue and its threads
alone. -/
theorem queue_handle {r : RequestThread} {file : Option Bytes} (h : s.handle x r file = some t)
    (hrun : t.status = .running) :
    (t.queue = s.queue ∧ (r.command = ascii "GET" → file = none)) ∨
      ∃ f, file = some f ∧ r.command = ascii "GET" ∧
        s.queue.step (.begin x r.clientAddr f r.offset r.chunkSize) = some t.queue := by
  unfold handle at h
  split_ifs at h with hget
  · cases file with
    | none =>
      cases h
      exact Or.inl ⟨rfl, fun _ => rfl⟩
    | some f =>
      dsimp only at h
      split_ifs at h
      · cases h
        cases hrun
      · obtain ⟨q, hq, rfl⟩ := Option.map_eq_some_iff.mp h
        exact Or.inr ⟨f, rfl, hget, hq⟩
  · cases h
    exact Or.inl ⟨rfl, fun hc => absurd hc hget⟩

end Process

/-- The handler of a request goes into its loop. -/
def QueueAction.begins : QueueAction → Bool
  | .begin .. => true
  | _ => false

theorem QueueAction.card_filesAfter (files : Finset ℕ) (a : QueueAction) :
    (a.filesAfter files).card ≤ files.card+a.begins.toNat := by
  cases a with
  | begin x _ _ _ _ => exact Finset.card_insert_le x files
  | finish x => exact Finset.card_erase_le
  | _ => exact Nat.le_refl _

theorem AckServer.spares_of_not_begins {a : QueueAction} (s : AckServer) (ha : a.begins = false) :
    s.Spares a := by
  cases a with
  | begin => cases ha
  | _ => trivial

namespace Holder

variable {limit : ℕ} {p q r : Holder} {e : Event}

theorem step_cases (h : p.step limit e = some q) :
    p.allows limit e = true ∧ p.process.step e = some q.process ∧
      q.files = p.filesAfter e q.process := by
  simp only [step, Option.ite_none_right_eq_some, Option.map_eq_some_iff] at h
  obtain ⟨hallows, t, ht, rfl⟩ := h
  exact ⟨hallows, ht, rfl⟩

/-- What a step that leaves the server alive does to the queue, its threads and their files. -/
def Does (limit : ℕ) (p : Holder) (e : Event) (a : QueueAction) (q : Holder) : Prop :=
  p.process.queue.step a = some q.process.queue ∧ q.files = a.filesAfter p.files ∧ a.closes = false ∧
    (a.begins = true → p.size < limit) ∧ (p.Spares e → p.process.queue.Spares a)

theorem does_of_step (h : p.step limit e = some q) (hq : q.process.Alive) :
    p.process.Alive ∧
      ((q.process.queue = p.process.queue ∧ q.files = p.files) ∨ ∃ a, p.Does limit e a q) := by
  obtain ⟨hallows, hstep, hfiles⟩ := step_cases h
  obtain ⟨hp, hharmless⟩ := (Process.alive_step_iff hstep).mp hq
  refine ⟨hp, ?_⟩
  have hafter : q.files = _ := hfiles.trans (if_neg (not_not_intro hq.1))
  simp only [Process.step, if_pos hp.1] at hstep
  cases e with
  | receive clientAddr datagram stackSeq heap created =>
    simp only [Option.ite_none_right_eq_some] at hstep
    rcases Process.queue_receive hstep.2 with hsame | ⟨ack, hack⟩
    · exact Or.inl ⟨hsame, hafter⟩
    · exact Or.inr ⟨.enqueue ack, hack, hafter, rfl, by simp [QueueAction.begins], fun _ => trivial⟩
  | receiveFails =>
    have hsame := Option.some.inj hstep
    exact Or.inl ⟨by rw [hsame], hafter⟩
  | fopen x file =>
    obtain ⟨r, hx, hstep⟩ := Option.bind_eq_some_iff.mp hstep
    rcases Process.queue_handle hstep hq.1 with ⟨hsame, hnone⟩ | ⟨f, rfl, hget, hbegin⟩
    · refine Or.inl ⟨hsame, hafter.trans ?_⟩
      cases file with
      | none => rfl
      | some f =>
        have hother : r.command ≠ ascii "GET" := fun hget => by cases hnone hget
        simp [hx, hother]
    -- a `GET` whose file could be opened: its handler enters the loop
    · refine Or.inr ⟨_, hbegin, hafter.trans ?_, rfl, fun _ => of_decide_eq_true hallows, ?_⟩
      · simp [hx, hget, QueueAction.filesAfter]
      · intro hspares
        exact hspares r hx hget
  | loop a =>
    simp only [Option.ite_none_right_eq_some] at hstep
    obtain ⟨⟨hloop, -⟩, hstep⟩ := hstep
    obtain ⟨u, hu, hqu⟩ := Option.map_eq_some_iff.mp hstep
    have hnot : a.begins = false := by
      cases a with
      | begin => cases hloop
      | _ => rfl
    have hqueue : q.process.queue = u := by
      rw [← hqu]
      rfl
    refine Or.inr ⟨a, by rw [hu, hqueue], hafter, hharmless, fun hb => ?_, fun _ => ?_⟩
    · rw [hnot] at hb
      cases hb
    · exact AckServer.spares_of_not_begins _ hnot

/-- While the server is alive, the books of its files are right. -/
structure Held (limit : ℕ) (p : Holder) : Prop where
  sound : p.process.queue.Sound
  files : ∀ x, x ∈ p.files ↔ p.process.queue.InLoop x
  fits : p.size ≤ limit

theorem held_step (hp : Held limit p) (h : p.step limit e = some q) (hq : q.process.Alive) :
    Held limit q := by
  obtain ⟨-, ⟨hqueue, hfiles⟩ | ⟨a, hstep, hfiles, hcloses, hroom, -⟩⟩ := does_of_step h hq
  · refine ⟨hqueue ▸ hp.sound, ?_, ?_⟩
    · rw [hfiles, hqueue]
      exact hp.files
    · rw [size, hfiles]
      exact hp.fits
  · refine ⟨AckServer.sound_step hp.sound hstep, ?_, ?_⟩
    · rw [hfiles]
      exact AckServer.inLoop_step hp.sound hcloses hstep hp.files
    · have hcard := a.card_filesAfter p.files
      have hfits := hp.fits
      rw [size] at hfits hroom ⊢
      rw [hfiles]
      cases hb : a.begins with
      -- the new file found a free descriptor
      | true =>
        have hlt := hroom hb
        rw [hb] at hcard
        change _ ≤ _+1 at hcard
        omega
      | false =>
        rw [hb] at hcard
        change _ ≤ _+0 at hcard
        omega

theorem held_of_reachable (hl : 4 ≤ limit) (h : Reachable (Holder.step limit) anyStep .start p) :
    p.process.Alive → Held limit p := by
  refine h.invariant (P := fun p => p.process.Alive → Held limit p) (fun _ => ?_) ?_
  · refine ⟨fun _ _ hx => (by cases hx), fun x => ?_, hl⟩
    exact iff_of_false (Finset.notMem_empty x) fun ⟨_, hx, _⟩ => by cases hx
  · intro p e q hp _ hstep hq
    exact held_step (hp (does_of_step hstep hq).1) hstep hq

theorem Clogged.queue (hc : p.Clogged) (hp : Held limit p) : p.process.queue.Clogged := by
  refine ⟨hc.1, ?_⟩
  intro ack hack x th hx haddr
  by_cases hend : th.handler.phase = .ended
  · exact Or.inl hend
  · exact Or.inr (hc.2 ack hack x ((hp.files x).mpr ⟨th, hx, hend⟩) th hx haddr)

theorem stands_of_reachable (hc : p.process.queue.Clogged)
    (h : Reachable (Holder.step limit) Spares p q) :
    q.process.Alive → p.process.queue.Stands q.process.queue := by
  refine h.invariant (P := fun q => q.process.Alive → p.process.queue.Stands q.process.queue)
    (fun _ => .of_threads rfl rfl) ?_
  intro q e r hq hspares hstep hr
  obtain ⟨halive, ⟨hqueue, -⟩ | ⟨a, hqueue, -, hcloses, -, hspare⟩⟩ := does_of_step hstep hr
  · rw [hqueue]
    exact hq halive
  · have hstands := hq halive
    exact hstands.trans (AckServer.stands_step (hstands.clogged hc) (hspare hspares) hcloses hqueue)

/-- A thread that waits does not close its file. -/
theorem filesAfter_eq {a : QueueAction} {s t : AckServer} {files : Finset ℕ}
    (hwait : ∀ x ∈ files, ∀ th ∈ s.threads x, th.handler.isWaiting = true) (hb : a.begins = false)
    (h : s.step a = some t) : a.filesAfter files = files := by
  cases a with
  | begin => cases hb
  | finish x =>
    apply Finset.erase_eq_of_notMem
    intro hx
    obtain ⟨th, hth, h⟩ := Option.bind_eq_some_iff.mp h
    simp only [Option.ite_none_right_eq_some] at h
    have hw := hwait x hx th hth
    simp [Handler.isWaiting, h.1.1] at hw
  | _ => rfl

theorem blocked_of_reachable (hc : p.process.queue.Clogged) (hfull : p.size = limit) (hwait : p.AllWait)
    (hp : Held limit p) (h : Reachable (Holder.step limit) anyStep p q) :
    q.process.Alive → p.process.queue.Stands q.process.queue ∧ q.files = p.files := by
  refine h.invariant (P := fun q => q.process.Alive →
    p.process.queue.Stands q.process.queue ∧ q.files = p.files) (fun _ => ⟨.of_threads rfl rfl, rfl⟩) ?_
  intro q e r hq _ hstep hr
  obtain ⟨halive, ⟨hqueue, hfiles⟩ | ⟨a, hqueue, hfiles, hcloses, hroom, -⟩⟩ := does_of_step hstep hr
  · rw [hqueue, hfiles]
    exact hq halive
  · obtain ⟨hstands, hsame⟩ := hq halive
    -- without a free descriptor nothing begins, and who waits does not finish
    have hb : a.begins = false := by
      by_contra hb
      have hlt := hroom (by simpa using hb)
      rw [size, hsame] at hlt
      exact absurd hlt (by rw [← hfull]; exact Nat.lt_irrefl _)
    refine ⟨hstands.trans (AckServer.stands_step (hstands.clogged hc)
      (AckServer.spares_of_not_begins _ hb) hcloses hqueue), ?_⟩
    rw [hfiles, hsame]
    apply filesAfter_eq _ hb hqueue
    intro x hx th hth
    obtain ⟨th', hth', -⟩ := (hp.files x).mp hx
    obtain ⟨th'', hth'', hstays⟩ := hstands.kept x th' hth'
    obtain rfl : th'' = th := Option.some.inj (hth''.symm.trans hth)
    exact hstays.waits (hwait x hx th' hth')

/-- While the server is alive, its descriptors are four and one for each thread in a `GET` loop.
Once the queue is full of ACKs that all such threads of their addresses are past, then in every run
without a `GET` from their addresses the queue stays as it is, no thread advances and no new one
gets past its first packet. If moreover the threads that wait hold all descriptors, this is so in
every run, and no `fopen` succeeds again. -/
theorem strangers_stop_server (hl : 4 ≤ limit) (h : Reachable (Holder.step limit) anyStep .start p)
    (halive : p.process.Alive) :
    (∀ x, x ∈ p.files ↔ p.process.queue.InLoop x) ∧ p.size ≤ limit ∧
    (p.Clogged →
      (∀ q, Reachable (Holder.step limit) Spares p q → q.process.Alive →
        p.process.queue.Stands q.process.queue) ∧
      (p.size = limit → p.AllWait → ∀ q, Reachable (Holder.step limit) anyStep p q →
        q.process.Alive → p.process.queue.Stands q.process.queue ∧ q.files = p.files ∧
          ∀ x file, q.step limit (.fopen x (some file)) = none)) := by
  have hheld := held_of_reachable hl h halive
  refine ⟨hheld.files, hheld.fits, fun hclogged => ?_⟩
  have hc := hclogged.queue hheld
  refine ⟨fun q hq hqalive => stands_of_reachable hc hq hqalive, ?_⟩
  intro hfull hwait q hq hqalive
  obtain ⟨hstands, hfiles⟩ := blocked_of_reachable hc hfull hwait hheld hq hqalive
  refine ⟨hstands, hfiles, fun x file => ?_⟩
  have hnone : q.allows limit (.fopen x (some file)) = false := by
    rw [allows, size, hfiles]
    exact decide_eq_false (by rw [← hfull]; exact Nat.lt_irrefl _)
  rw [step, if_neg (by rw [hnone]; exact Bool.false_ne_true)]

/-- A datagram `ACK 0` from an address that has no transfer. -/
def strayAck (clientAddr : ℕ) : Event := .receive clientAddr (ascii "ACK 0") 0 (0, 0) none

/-- The steps of a `GET` for a byte, up to the wait for its ACK. -/
def silentGet (x clientAddr : ℕ) : List Event :=
  [.receive clientAddr (ascii "GET f 0 1") 0 (0, 0) (some x), .fopen x (some (ascii "a")),
    .loop (.send x), .loop (.scan x)]

set_option maxRecDepth 8192 in
/-- With five descriptors: five stray ACKs and one client that does not answer. -/
theorem strangers_stop_server_five :
    ∃ p, Reachable (Holder.step 5) anyStep .start p ∧ p.files = {0} ∧
      ∀ q, Reachable (Holder.step 5) anyStep p q → q.process.Alive →
        q.files = {0} ∧ ∀ x file, q.step 5 (.fopen x (some file)) = none := by
  have hrun : ∃ p, Reachable (Holder.step 5) anyStep .start p ∧ p.files = {0} ∧
      (p.process.status = .running ∧ p.process.socketOpen = true) ∧
      (p.process.queue.store.ackQueueSize = maxQueueSize ∧
        ∀ ack ∈ p.process.queue.store.acks, ∀ x ∈ p.files, ∀ th ∈ p.process.queue.threads x,
          th.clientAddr = ack.clientAddr → ack.seqNum < th.handler.seqNum) ∧
      ∀ x ∈ p.files, ∀ th ∈ p.process.queue.threads x, th.handler.isWaiting = true := by
    refine exists_reachable_of_replayIf ([strayAck 1, strayAck 2, strayAck 3, strayAck 4, strayAck 5] ++
      silentGet 0 9) _ ?_
    decide
  obtain ⟨p, hp, hfiles, halive, hclogged, hwait⟩ := hrun
  have hfull : p.size = 5 := by
    rw [size, hfiles]
    rfl
  refine ⟨p, hp, hfiles, fun q hq hqalive => ?_⟩
  have h := ((strangers_stop_server (by decide) hp halive).2.2 hclogged).2 hfull hwait q hq hqalive
  exact ⟨h.2.1.trans hfiles, h.2.2⟩

end Holder

end NetTools.TFTP
