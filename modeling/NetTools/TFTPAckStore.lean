import NetTools.TFTPServer
import NetTools.CArray
import NetTools.Ledger
import NetTools.Schedule

namespace NetTools.TFTP

open CArray Schedule

structure AckStore where
  ackQueue : ℕ → AckPacket
  ackQueueSize : ℕ

namespace AckStore

def empty : AckStore := ⟨fun _ => ⟨0, 0⟩, 0⟩

/-- The used slots of the array. -/
def acks (q : AckStore) : List AckPacket := slots q.ackQueue q.ackQueueSize

/-- The receive loop stores an ACK in the first unused slot. -/
def enqueue (q : AckStore) (ack : AckPacket) : AckStore :=
  if q.ackQueueSize < maxQueueSize then
    ⟨Function.update q.ackQueue q.ackQueueSize ack, q.ackQueueSize+1⟩
  else q

/-- The first slot with this sequence number and address. -/
def find (q : AckStore) (ack : AckPacket) : Option ℕ :=
  search (fun p => p == ack) q.ackQueue q.ackQueueSize

/-- `ack_queue_size--`, then the `memmove` of `ack_queue_size-i` entries. -/
def removeAt (q : AckStore) (i : ℕ) : AckStore :=
  let n := q.ackQueueSize-1
  ⟨shiftDown q.ackQueue i (n-i), n⟩

end AckStore

structure HandlerThread where
  clientAddr : ℕ
  handler : Handler

/-- The ACK that a thread looks for. -/
def HandlerThread.wanted (th : HandlerThread) : AckPacket := ⟨th.handler.seqNum, th.clientAddr⟩

structure AckServer where
  store : AckStore
  threads : ℕ → Option HandlerThread

/-- `wake` is a spurious wakeup; those of the broadcast come with `enqueue`. -/
inductive QueueAction
  | begin (x clientAddr : ℕ) (file : Bytes) (offset chunkSize : ℕ)
  | send (x : ℕ)
  | sendFails (x : ℕ)
  | scan (x : ℕ)
  | wake (x : ℕ)
  | finish (x : ℕ)
  | enqueue (ack : AckPacket)

namespace AckServer

def start : AckServer := ⟨.empty, fun _ => none⟩

def put (s : AckServer) (x : ℕ) (th : HandlerThread) : AckServer :=
  { s with threads := Function.update s.threads x (some th) }

/-- Thread `x` goes on with other loop variables. -/
def putHandler (s : AckServer) (x : ℕ) (th : HandlerThread) (h : Handler) : AckServer :=
  s.put x { th with handler := h }

def withStore (s : AckServer) (q : AckStore) : AckServer := { s with store := q }

/-- `pthread_cond_broadcast`. -/
def broadcast (s : AckServer) : AckServer :=
  { s with threads := fun x => (s.threads x).map fun th => { th with handler := th.handler.wake } }

def step (s : AckServer) : QueueAction → Option AckServer
  | .begin x clientAddr file offset chunkSize =>
    if s.threads x = none then
      (Handler.start file offset chunkSize).map fun h => s.put x ⟨clientAddr, h⟩
    else none
  | .send x => (s.threads x).bind fun th =>
    if th.handler.phase = .sending ∧ th.handler.atEnd = false then
      some (s.putHandler x th th.handler.sent)
    else none
  | .sendFails x => (s.threads x).bind fun th =>
    if th.handler.phase = .sending ∧ th.handler.atEnd = false then
      some (s.putHandler x th { th.handler with phase := .ended })
    else none
  | .scan x => (s.threads x).bind fun th =>
    if th.handler.phase = .scanning then
      match s.store.find th.wanted with
      | some i => some ((s.putHandler x th th.handler.acked).withStore (s.store.removeAt i))
      | none => some (s.putHandler x th { th.handler with phase := .asleep })
    else none
  | .wake x => (s.threads x).bind fun th =>
    if th.handler.phase = .asleep then some (s.putHandler x th th.handler.wake) else none
  | .finish x => (s.threads x).bind fun th =>
    if th.handler.phase = .sending ∧ th.handler.atEnd = true then
      some (s.putHandler x th { th.handler with phase := .ended })
    else none
  | .enqueue ack =>
    -- the broadcast is inside the test for room
    if s.store.ackQueueSize < maxQueueSize then
      some ((s.withStore (s.store.enqueue ack)).broadcast)
    else some s

end AckServer

namespace AckStore

variable {q : AckStore} {ack : AckPacket} {i : ℕ}

theorem find_eq_some (h : q.find ack = some i) :
    i < q.ackQueueSize ∧ q.ackQueue i = ack ∧ ∀ j < i, q.ackQueue j ≠ ack := by
  obtain ⟨hi, hp, hj⟩ := search_eq_some h
  exact ⟨hi, by simpa using hp, fun j hji => by simpa using hj j hji⟩

theorem find_eq_none_iff : q.find ack = none ↔ ack ∉ q.acks := by
  rw [acks, ← search_isSome_iff, find, Option.isSome_iff_ne_none, not_not]

theorem removeAt_size (q : AckStore) (i : ℕ) : (q.removeAt i).ackQueueSize = q.ackQueueSize-1 := rfl

/-- Decrement, then move: slot `i` is gone and no other entry is lost, the last slot of a
full queue included. -/
theorem acks_removeAt (hi : i < q.ackQueueSize) : (q.removeAt i).acks = q.acks.eraseIdx i :=
  slots_shiftDown q.ackQueue hi

/-- Around the entry that a scan finds the queue is unchanged. -/
theorem acks_split (h : q.find ack = some i) :
    q.acks = q.acks.take i ++ ack :: q.acks.drop (i+1) ∧ ack ∉ q.acks.take i := by
  obtain ⟨hi, hget, hfirst⟩ := find_eq_some h
  have hlen : i < q.acks.length := by rwa [acks, slots_length]
  constructor
  · conv_lhs => rw [← List.take_append_drop i q.acks]
    rw [List.drop_eq_getElem_cons hlen]
    simp only [acks, slots_getElem, hget]
  · intro hm
    obtain ⟨j, hj, he⟩ := List.mem_take_iff_getElem.mp hm
    simp only [acks, slots_getElem] at he
    exact hfirst j (by omega) he

/-- The scan of a handler takes the first match, as on the list. -/
theorem acks_take (h : q.find ack = some i) : takeAck q.acks ack = some (q.removeAt i).acks := by
  obtain ⟨hsplit, hnot⟩ := acks_split h
  have hi := (find_eq_some h).1
  have hmem : ack ∈ q.acks := by
    rw [hsplit]
    exact List.mem_append_right _ List.mem_cons_self
  have herase : q.acks.erase ack = q.acks.take i ++ q.acks.drop (i+1) := by
    conv_lhs => rw [hsplit]
    rw [List.erase_append_right _ hnot, List.erase_cons_head]
  rw [takeAck, if_pos hmem, acks_removeAt hi, herase, List.eraseIdx_eq_take_drop_succ]

/-- What is not the wanted entry stays, in order. -/
theorem filter_acks_removeAt (h : q.find ack = some i) (p : AckPacket → Bool) (hp : p ack = false) :
    (q.removeAt i).acks.filter p = q.acks.filter p := by
  obtain ⟨hsplit, -⟩ := acks_split h
  rw [acks_removeAt (find_eq_some h).1, List.eraseIdx_eq_take_drop_succ, List.filter_append]
  conv_rhs => rw [hsplit]
  rw [List.filter_append, List.filter_cons_of_neg (by rw [hp]; exact Bool.false_ne_true)]

end AckStore

/-- An ACK that a scan took out of the queue: the number of its arrival, and who advanced
past which packet with it. -/
structure Consumption where
  arrival : ℕ
  thread : ℕ
  seqNum : ℕ

/-- The server with the books of its queue. -/
structure Booked where
  server : AckServer
  ledger : Ledger AckPacket
  consumed : List Consumption

/-- The slot that a step empties, and the thread that advances with it. -/
def consumes (s : AckServer) : QueueAction → Option (ℕ × ℕ × HandlerThread)
  | .scan x => (s.threads x).bind fun th => (s.store.find th.wanted).map fun i => (i, x, th)
  | _ => none

namespace Booked

def start : Booked := ⟨.start, .empty, []⟩

/-- The books follow the array: an entry is put when there is room, and the entry of the
emptied slot is taken. -/
def book (s : Booked) (a : QueueAction) (t : AckServer) : Booked :=
  match a with
  | .enqueue ack =>
    if s.server.store.ackQueueSize < maxQueueSize then ⟨t, s.ledger.put ack, s.consumed⟩
    else ⟨t, s.ledger, s.consumed⟩
  | _ =>
    match consumes s.server a with
    | some (i, x, th) => ⟨t, s.ledger.take i, s.consumed ++
        (s.ledger.queued[i]?.toList.map fun n => ⟨n, x, th.handler.seqNum⟩)⟩
    | none => ⟨t, s.ledger, s.consumed⟩

def step (s : Booked) (a : QueueAction) : Option Booked := (s.server.step a).map (s.book a)

/-- The packets that thread `x` has advanced past, in order. -/
def advances (s : Booked) (x : ℕ) : List ℕ :=
  (s.consumed.filter fun c => c.thread = x).map Consumption.seqNum

end Booked

/-- A handler that waits has sent no more than it has to send. -/
def Handler.Sound (h : Handler) : Prop :=
  h.phase = .scanning ∨ h.phase = .asleep → h.payload.length ≤ h.bytesRemaining

/-- The same thread, not advanced. -/
structure HandlerThread.Follows (th th' : HandlerThread) : Prop where
  clientAddr : th'.clientAddr = th.clientAddr
  seqNum : th'.handler.seqNum = th.handler.seqNum
  sound : th.handler.Sound → th'.handler.Sound

/-- What a step does to the queue and to the threads. -/
inductive QueueStep (s : AckServer) : QueueAction → AckServer → Prop
  | begin {x clientAddr offset chunkSize : ℕ} {file : Bytes} {h : Handler} (hx : s.threads x = none)
      (hh : Handler.start file offset chunkSize = some h) :
      QueueStep s (.begin x clientAddr file offset chunkSize) (s.put x ⟨clientAddr, h⟩)
  | quiet {a : QueueAction} {x : ℕ} {th : HandlerThread} {h : Handler} (hx : s.threads x = some th)
      (ha : consumes s a = none) (hq : ∀ ack, a ≠ .enqueue ack)
      (hf : th.Follows { th with handler := h }) : QueueStep s a (s.putHandler x th h)
  | take {x i : ℕ} {th : HandlerThread} (hx : s.threads x = some th)
      (hp : th.handler.phase = .scanning) (hi : s.store.find th.wanted = some i) :
      QueueStep s (.scan x) ((s.putHandler x th th.handler.acked).withStore (s.store.removeAt i))
  | enqueue {ack : AckPacket} (hroom : s.store.ackQueueSize < maxQueueSize) :
      QueueStep s (.enqueue ack) ((s.withStore (s.store.enqueue ack)).broadcast)
  | drop {ack : AckPacket} (hfull : ¬ s.store.ackQueueSize < maxQueueSize) :
      QueueStep s (.enqueue ack) s

namespace Handler

theorem read_length_le (h : Handler) : h.read.length ≤ h.bytesRemaining := by
  rw [read, List.length_take]
  split_ifs <;> omega

theorem sound_sent (h : Handler) : h.sent.Sound := fun _ => h.read_length_le

theorem sound_of_phase {h : Handler} (hs : h.phase ≠ .scanning) (ha : h.phase ≠ .asleep) :
    h.Sound :=
  fun hp => (hp.elim hs ha).elim

theorem seqNum_wake (h : Handler) : h.wake.seqNum = h.seqNum := by
  unfold wake
  split_ifs <;> rfl

theorem Sound.wake {h : Handler} (hs : h.Sound) : h.wake.Sound := by
  unfold Handler.wake
  split_ifs with ha
  · exact fun _ => hs (Or.inr ha)
  · exact hs

/-- A sound handler advances by exactly one packet. -/
theorem Sound.acked {h : Handler} (hs : h.Sound) (hp : h.phase = .scanning) :
    h.acked.seqNum = h.seqNum+1 ∧ h.acked.Sound := by
  have hle := hs (Or.inl hp)
  rw [Handler.acked, if_neg (by omega)]
  exact ⟨rfl, sound_of_phase (by simp) (by simp)⟩

theorem start_seqNum {file : Bytes} {offset chunkSize : ℕ} {h : Handler}
    (hh : start file offset chunkSize = some h) : h.seqNum = 0 ∧ h.Sound := by
  simp only [start, Option.ite_none_left_eq_some, Option.some.injEq] at hh
  obtain ⟨-, rfl⟩ := hh
  exact ⟨rfl, sound_of_phase (by simp) (by simp)⟩

end Handler

theorem queueStep_cases {s t : AckServer} {a : QueueAction} (h : s.step a = some t) :
    QueueStep s a t := by
  cases a with
  | begin x clientAddr file offset chunkSize =>
    simp only [AckServer.step, Option.ite_none_right_eq_some] at h
    obtain ⟨hx, h⟩ := h
    obtain ⟨hd, hh, rfl⟩ := Option.map_eq_some_iff.mp h
    exact .begin hx hh
  | scan x =>
    obtain ⟨th, hx, h⟩ := Option.bind_eq_some_iff.mp h
    simp only [Option.ite_none_right_eq_some] at h
    obtain ⟨hp, h⟩ := h
    split at h
    · rename_i i hi
      cases h
      exact .take hx hp hi
    · rename_i hi
      cases h
      refine .quiet hx ?_ nofun ⟨rfl, rfl, fun hs _ => hs (Or.inl hp)⟩
      simp only [consumes, hx, Option.bind_some, hi, Option.map_none]
  | send x =>
    obtain ⟨th, hx, h⟩ := Option.bind_eq_some_iff.mp h
    simp only [Option.ite_none_right_eq_some, Option.some.injEq] at h
    obtain ⟨-, rfl⟩ := h
    exact .quiet hx rfl nofun ⟨rfl, rfl, fun _ => th.handler.sound_sent⟩
  | sendFails x | finish x =>
    obtain ⟨th, hx, h⟩ := Option.bind_eq_some_iff.mp h
    simp only [Option.ite_none_right_eq_some, Option.some.injEq] at h
    obtain ⟨-, rfl⟩ := h
    exact .quiet hx rfl nofun ⟨rfl, rfl, fun _ => Handler.sound_of_phase (by simp) (by simp)⟩
  | wake x =>
    obtain ⟨th, hx, h⟩ := Option.bind_eq_some_iff.mp h
    simp only [Option.ite_none_right_eq_some, Option.some.injEq] at h
    obtain ⟨-, rfl⟩ := h
    exact .quiet hx rfl nofun ⟨rfl, th.handler.seqNum_wake, Handler.Sound.wake⟩
  | enqueue ack =>
    simp only [AckServer.step] at h
    split_ifs at h with hroom
    · cases h
      exact .enqueue hroom
    · cases h
      exact .drop hroom

/-- The books of the queue. -/
structure QueueBooks (s : Booked) : Prop where
  size : s.server.store.ackQueueSize ≤ maxQueueSize
  balanced : s.ledger.Balanced
  contents : s.server.store.acks.map some = s.ledger.contents
  taken : s.ledger.taken = s.consumed.map Consumption.arrival

/-- The books of the threads: what was consumed was meant for its thread, and a thread has
consumed one ACK for each packet before its next one. -/
structure ThreadBooks (s : Booked) : Prop where
  meant : ∀ c ∈ s.consumed, ∃ th, s.server.threads c.thread = some th ∧
    s.ledger.arrived[c.arrival]? = some ⟨c.seqNum, th.clientAddr⟩
  advances : ∀ x th, s.server.threads x = some th → s.advances x = List.range th.handler.seqNum
  sound : ∀ x th, s.server.threads x = some th → th.handler.Sound

theorem queueBooks_start : QueueBooks .start :=
  ⟨Nat.zero_le _, Ledger.balanced_empty, rfl, rfl⟩

theorem threadBooks_start : ThreadBooks .start := ⟨nofun, nofun, nofun⟩

/-- The books of the threads over a step that consumes nothing. -/
theorem ThreadBooks.keep {s : Booked} {t : AckServer} {l : Ledger AckPacket} (h : ThreadBooks s)
    (hl : s.ledger.arrived <+: l.arrived)
    (hkeep : ∀ x th, s.server.threads x = some th → ∃ th', t.threads x = some th' ∧ th.Follows th')
    (hnew : ∀ x th', s.server.threads x = none → t.threads x = some th' →
      th'.handler.seqNum = 0 ∧ th'.handler.Sound) : ThreadBooks ⟨t, l, s.consumed⟩ := by
  have hmeant : ∀ c ∈ s.consumed, ∃ th, t.threads c.thread = some th ∧
      l.arrived[c.arrival]? = some ⟨c.seqNum, th.clientAddr⟩ := by
    intro c hc
    obtain ⟨th, hx, harr⟩ := h.meant c hc
    obtain ⟨th', hx', hf⟩ := hkeep c.thread th hx
    obtain ⟨hlt, -⟩ := List.getElem?_eq_some_iff.mp harr
    obtain ⟨l', hl'⟩ := hl
    exact ⟨th', hx', by rw [hf.clientAddr, ← harr, ← hl', List.getElem?_append_left hlt]⟩
  refine ⟨hmeant, ?_, ?_⟩
  · intro x th' hx'
    cases hx : s.server.threads x with
    | some th =>
      obtain ⟨th'', hx'', hf⟩ := hkeep x th hx
      obtain rfl : th'' = th' := Option.some.inj (hx''.symm.trans hx')
      rw [hf.seqNum, ← h.advances x th hx]
      rfl
    | none =>
      -- a new thread has no record yet
      rw [(hnew x th' hx hx').1, List.range_zero, Booked.advances, List.map_eq_nil_iff,
        List.filter_eq_nil_iff]
      intro c hc hcx
      obtain ⟨th, hth, -⟩ := h.meant c hc
      rw [of_decide_eq_true hcx, hx] at hth
      cases hth
  · intro x th' hx'
    cases hx : s.server.threads x with
    | some th =>
      obtain ⟨th'', hx'', hf⟩ := hkeep x th hx
      obtain rfl : th'' = th' := Option.some.inj (hx''.symm.trans hx')
      exact hf.sound (h.sound x th hx)
    | none => exact (hnew x th' hx hx').2

theorem put_threads (s : AckServer) (x : ℕ) (th : HandlerThread) (y : ℕ) :
    (s.put x th).threads y = if y = x then some th else s.threads y :=
  Function.update_apply _ _ _ _

theorem HandlerThread.Follows.refl (th : HandlerThread) : th.Follows th := ⟨rfl, rfl, id⟩

namespace Booked

variable {s : Booked} {t : AckServer} {x i : ℕ} {th : HandlerThread}

theorem book_quiet {a : QueueAction} (ha : consumes s.server a = none)
    (hne : ∀ ack, a ≠ .enqueue ack) :
    s.book a t = ⟨t, s.ledger, s.consumed⟩ := by
  cases a with
  | enqueue ack => exact absurd rfl (hne ack)
  | _ => simp only [book, ha]

theorem book_scan (hx : s.server.threads x = some th) (hi : s.server.store.find th.wanted = some i)
    {n : ℕ} (hn : s.ledger.queued[i]? = some n) :
    s.book (.scan x) t =
      ⟨t, s.ledger.take i, s.consumed ++ [⟨n, x, th.handler.seqNum⟩]⟩ := by
  have hc : consumes s.server (.scan x) = some (i, x, th) := by
    simp only [consumes, hx, Option.bind_some, hi, Option.map_some]
  simp only [book, hc, hn, Option.toList_some, List.map_cons, List.map_nil]

end Booked

/-- The number of the arrival in a slot that a scan finds. -/
theorem QueueBooks.arrival {s : Booked} (h : QueueBooks s) {ack : AckPacket} {i : ℕ}
    (hi : s.server.store.find ack = some i) :
    ∃ hlt : i < s.ledger.queued.length, s.ledger.arrived[s.ledger.queued[i]]? = some ack := by
  obtain ⟨hsize, hget, -⟩ := AckStore.find_eq_some hi
  have hlen : s.ledger.queued.length = s.server.store.ackQueueSize := by
    have hl := congrArg List.length h.contents
    simpa [Ledger.contents, AckStore.acks] using hl.symm
  have hlt : i < s.ledger.queued.length := by omega
  refine ⟨hlt, ?_⟩
  have hc := congrArg (fun l => l[i]?) h.contents
  simp only [Ledger.contents, List.getElem?_map, List.getElem?_eq_getElem hlt, Option.map_some,
    AckStore.acks] at hc
  rw [List.getElem?_eq_getElem (by rwa [slots_length]), slots_getElem, hget] at hc
  exact (Option.some.inj hc).symm

/-- The books of the queue over the step in which a thread takes the entry of slot `i`. -/
theorem QueueBooks.take {s : Booked} {x i : ℕ} {th : HandlerThread} (h : QueueBooks s)
    (hi : s.server.store.find th.wanted = some i) {n : ℕ} (hn : s.ledger.queued[i]? = some n)
    {t : AckServer} (ht : t.store = s.server.store.removeAt i) :
    QueueBooks ⟨t, s.ledger.take i, s.consumed ++ [⟨n, x, th.handler.seqNum⟩]⟩ := by
  have hsize := (AckStore.find_eq_some hi).1
  obtain ⟨hlt, hget⟩ := List.getElem?_eq_some_iff.mp hn
  refine ⟨?_, h.balanced.take hlt, ?_, ?_⟩
  · have hle := h.size
    change t.store.ackQueueSize ≤ maxQueueSize
    rw [ht, AckStore.removeAt_size]
    omega
  · change t.store.acks.map some = (s.ledger.take i).contents
    rw [ht, AckStore.acks_removeAt hsize, ← List.eraseIdx_map, h.contents, Ledger.contents_take]
  · simp only [Ledger.take, hn, h.taken, List.map_append, Option.toList_some, List.map_cons, List.map_nil]

/-- The books of the threads over the step in which thread `x` advances with arrival `n`. -/
theorem ThreadBooks.take {s : Booked} {x i n : ℕ} {th : HandlerThread} (h : ThreadBooks s)
    (hx : s.server.threads x = some th) (hp : th.handler.phase = .scanning)
    (hn : s.ledger.arrived[n]? = some th.wanted) {t : AckServer}
    (ht : t.threads = (s.server.putHandler x th th.handler.acked).threads) :
    ThreadBooks ⟨t, s.ledger.take i, s.consumed ++ [⟨n, x, th.handler.seqNum⟩]⟩ := by
  have hself : t.threads x = some { th with handler := th.handler.acked } := by
    rw [ht, AckServer.putHandler, put_threads, if_pos rfl]
  have hother (y : ℕ) (hy : y ≠ x) : t.threads y = s.server.threads y := by
    rw [ht, AckServer.putHandler, put_threads, if_neg hy]
  obtain ⟨hseq, hsound⟩ := (h.sound x th hx).acked hp
  refine ⟨?_, ?_, ?_⟩
  -- the record is for this thread, whose address does not change
  · intro c hc
    rcases List.mem_append.mp hc with hc | hc
    · obtain ⟨th', hx', harr⟩ := h.meant c hc
      by_cases hcx : c.thread = x
      · rw [hcx, hx, Option.some.injEq] at hx'
        subst hx'
        exact ⟨{ th with handler := th.handler.acked }, (congrArg t.threads hcx).trans hself, harr⟩
      · exact ⟨th', (hother _ hcx).trans hx', harr⟩
    · rw [List.mem_singleton.mp hc]
      exact ⟨_, hself, hn⟩
  · intro y th' hy
    by_cases hyx : y = x
    · subst hyx
      obtain rfl : { th with handler := th.handler.acked } = th' :=
        Option.some.inj (hself.symm.trans hy)
      have hold := h.advances y th hx
      simp only [Booked.advances, List.filter_append, List.map_append] at hold ⊢
      rw [hold, hseq, List.range_succ]
      simp
    · rw [← h.advances y th' ((hother y hyx).symm.trans hy)]
      simp [Booked.advances, List.filter_append, Ne.symm hyx]
  · intro y th' hy
    by_cases hyx : y = x
    · subst hyx
      obtain rfl : { th with handler := th.handler.acked } = th' :=
        Option.some.inj (hself.symm.trans hy)
      exact hsound
    · exact h.sound y th' ((hother y hyx).symm.trans hy)

theorem books_step {s t : Booked} {a : QueueAction} (hq : QueueBooks s) (ht : ThreadBooks s)
    (h : s.step a = some t) : QueueBooks t ∧ ThreadBooks t := by
  obtain ⟨u, hu, rfl⟩ := Option.map_eq_some_iff.mp h
  cases queueStep_cases hu with
  | @begin x clientAddr offset chunkSize file hd hx hh =>
    refine ⟨⟨hq.size, hq.balanced, hq.contents, hq.taken⟩, ht.keep List.prefix_rfl ?_ ?_⟩
    · intro y th hy
      have hyx : y ≠ x := by
        rintro rfl
        rw [hx] at hy
        cases hy
      exact ⟨th, by rw [put_threads, if_neg hyx, hy], .refl th⟩
    · intro y th' hy hy'
      rw [put_threads] at hy'
      split_ifs at hy' with hyx
      · cases hy'
        exact Handler.start_seqNum hh
      · rw [hy] at hy'
        cases hy'
  -- thread `x` goes on, the others and the queue stay
  | @quiet _ x th hd hx ha hne hf =>
    rw [Booked.book_quiet ha hne]
    refine ⟨⟨hq.size, hq.balanced, hq.contents, hq.taken⟩, ht.keep List.prefix_rfl ?_ ?_⟩
    · intro y th' hy
      by_cases hyx : y = x
      · subst hyx
        obtain rfl : th = th' := Option.some.inj (hx.symm.trans hy)
        exact ⟨_, by rw [AckServer.putHandler, put_threads, if_pos rfl], hf⟩
      · exact ⟨th', by rw [AckServer.putHandler, put_threads, if_neg hyx, hy], .refl th'⟩
    · intro y th' hy hy'
      rw [AckServer.putHandler, put_threads] at hy'
      split_ifs at hy' with hyx
      · rw [hyx, hx] at hy
        cases hy
      · rw [hy] at hy'
        cases hy'
  | @take x i th hx hp hi =>
    obtain ⟨hlt, harr⟩ := hq.arrival hi
    have hn := List.getElem?_eq_getElem hlt
    rw [Booked.book_scan hx hi hn]
    exact ⟨hq.take hi hn rfl, ht.take hx hp harr rfl⟩
  -- the books gain an arrival, and the broadcast wakes threads without advancing them
  | @enqueue ack hroom =>
    have hbook : s.book (.enqueue ack)
        ((s.server.withStore (s.server.store.enqueue ack)).broadcast) =
        ⟨(s.server.withStore (s.server.store.enqueue ack)).broadcast, s.ledger.put ack, s.consumed⟩ :=
      if_pos hroom
    have hstore : s.server.store.enqueue ack =
        ⟨Function.update s.server.store.ackQueue s.server.store.ackQueueSize ack,
          s.server.store.ackQueueSize+1⟩ := if_pos hroom
    rw [hbook]
    refine ⟨⟨?_, hq.balanced.put ack, ?_, hq.taken⟩, ht.keep (List.prefix_append _ _) ?_ ?_⟩
    · change (s.server.store.enqueue ack).ackQueueSize ≤ maxQueueSize
      rw [hstore]
      exact hroom
    · change (s.server.store.enqueue ack).acks.map some = (s.ledger.put ack).contents
      rw [Ledger.contents_put hq.balanced, ← hq.contents, hstore]
      simp only [AckStore.acks, slots_push, List.map_append, List.map_cons, List.map_nil]
    · intro y th hy
      refine ⟨{ th with handler := th.handler.wake }, ?_, ⟨rfl, th.handler.seqNum_wake, .wake⟩⟩
      simp only [AckServer.broadcast, AckServer.withStore, hy, Option.map_some]
    · intro y th' hy hy'
      simp only [AckServer.broadcast, AckServer.withStore, hy, Option.map_none] at hy'
      cases hy'
  | @drop ack hfull =>
    have hbook : s.book (.enqueue ack) s.server = s := if_neg hfull
    rw [hbook]
    exact ⟨hq, ht⟩

theorem books_of_reachable {C : Booked → QueueAction → Prop} {s : Booked}
    (h : Reachable Booked.step C .start s) : QueueBooks s ∧ ThreadBooks s :=
  h.invariant (P := fun s => QueueBooks s ∧ ThreadBooks s) ⟨queueBooks_start, threadBooks_start⟩
    fun _ _ _ hs _ hstep => books_step hs.1 hs.2 hstep

/-- In every run the queue fits its array and holds, in order of arrival, exactly the stored
ACKs that were not consumed. No ACK is consumed twice, each one is consumed by a thread of
its client that waits for its number, and a thread consumes one for each packet that it
advances past. A scan leaves every entry alone but the one that it wants. -/
theorem ack_queue_conserved (s : Booked) (h : Reachable Booked.step anyStep .start s) :
    s.server.store.ackQueueSize ≤ maxQueueSize ∧
    s.server.store.acks.map some = ((List.range s.ledger.arrived.length).filter fun n =>
      n ∉ s.consumed.map Consumption.arrival).map (fun n => s.ledger.arrived[n]?) ∧
    (s.consumed.map Consumption.arrival).Nodup ∧
    (∀ c ∈ s.consumed, ∃ th, s.server.threads c.thread = some th ∧
      s.ledger.arrived[c.arrival]? = some ⟨c.seqNum, th.clientAddr⟩) ∧
    (∀ x th, s.server.threads x = some th → s.advances x = List.range th.handler.seqNum) ∧
    ∀ x th t, s.server.threads x = some th → s.server.step (.scan x) = some t →
      t.store.acks.filter (fun ack => ack ≠ th.wanted) =
        s.server.store.acks.filter (fun ack => ack ≠ th.wanted) := by
  obtain ⟨hq, ht⟩ := books_of_reachable h
  refine ⟨hq.size, ?_, hq.taken ▸ hq.balanced.taken_nodup, ht.meant, ht.advances, ?_⟩
  · rw [hq.contents, Ledger.contents, hq.balanced.queued_eq, hq.taken]
  -- a scan that finds nothing leaves the queue alone
  · intro x th t hx hs
    obtain ⟨th', hx', hs⟩ := Option.bind_eq_some_iff.mp hs
    obtain rfl : th = th' := Option.some.inj (hx.symm.trans hx')
    simp only [Option.ite_none_right_eq_some] at hs
    obtain ⟨-, hs⟩ := hs
    split at hs
    · rename_i i hi
      cases hs
      exact AckStore.filter_acks_removeAt hi _ (by simp)
    · cases hs
      rfl

/-- One `GET` of a byte at each of the addresses 7 and 8, up to the wait for the ACK. -/
def twoWaiting : List QueueAction :=
  [.begin 0 7 [1, 2] 0 1, .send 0, .begin 1 8 [1, 2] 1 1, .send 1]

set_option maxRecDepth 4096 in
/-- A full queue: the ACK of address 8 is in the last slot and is taken from there. -/
theorem ack_queue_conserved_full :
    ∃ s, Reachable Booked.step anyStep .start s ∧
      s.server.store.acks = [⟨0, 7⟩, ⟨0, 7⟩, ⟨3, 8⟩, ⟨0, 9⟩] ∧
      s.consumed.map Consumption.arrival = [4] ∧ s.server.store.ackQueueSize ≤ maxQueueSize := by
  have hrun : ∃ s, Reachable Booked.step anyStep .start s ∧
      s.server.store.acks = [⟨0, 7⟩, ⟨0, 7⟩, ⟨3, 8⟩, ⟨0, 9⟩] ∧
      s.consumed.map Consumption.arrival = [4] := by
    refine exists_reachable_of_replayIf (twoWaiting ++ [.enqueue ⟨0, 7⟩, .enqueue ⟨0, 7⟩,
      .enqueue ⟨3, 8⟩, .enqueue ⟨0, 9⟩, .enqueue ⟨0, 8⟩, .enqueue ⟨0, 7⟩, .scan 1]) _ ?_
    decide
  obtain ⟨s, hs, hacks, harr⟩ := hrun
  exact ⟨s, hs, hacks, harr, (ack_queue_conserved s hs).1⟩

end NetTools.TFTP
