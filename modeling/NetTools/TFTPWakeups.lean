import NetTools.Monitors
import NetTools.TFTPAckStore

/-! `ack_queue_lock` and `ack_queue_cond` of `tftp/server.c`. A step is what a thread does
between two points at which the others can see it, so that other threads run while one of them
is in its critical section. -/
namespace NetTools.TFTP

open CArray Schedule Monitors

/-- Where the thread is that holds `ack_queue_lock`: the receive loop before its test for
room, before its broadcast or before its unlock, or a handler at slot `i` of its scan, at a
match, or after the removal. -/
inductive LockState
  | free
  | arrived (ack : AckPacket)
  | stored
  | routed
  | looking (x i : ℕ)
  | found (x i : ℕ)
  | leaving (x : ℕ)
  deriving DecidableEq

structure LockedServer where
  lock : LockState
  server : AckServer

/-- `outside` is a step that needs no lock; `wake` among them is a spurious wakeup. A thread
that was woken takes the lock again with `lock`. -/
inductive LockAction
  | outside (a : QueueAction)
  | arrive (ack : AckPacket)
  | store
  | broadcast
  | unlockLoop
  | lock (x : ℕ)
  | look
  | remove
  | unlock

def QueueAction.isOutside : QueueAction → Bool
  | scan _ | enqueue _ => false
  | _ => true

namespace LockedServer

def start : LockedServer := ⟨.free, .start⟩

/-- Slot `i` of the scan; behind the last one `pthread_cond_wait` gives the lock away and
sleeps in one step. -/
def look (s : LockedServer) (x i : ℕ) (th : HandlerThread) : LockedServer :=
  if i < s.server.store.ackQueueSize then
    if s.server.store.ackQueue i = th.wanted then ⟨.found x i, s.server⟩
    else ⟨.looking x (i+1), s.server⟩
  else ⟨.free, s.server.putHandler x th { th.handler with phase := .asleep }⟩

/-- One step; `none` when it is not possible. -/
def step (s : LockedServer) : LockAction → Option LockedServer
  | .outside a =>
    if a.isOutside then (s.server.step a).map fun server => ⟨s.lock, server⟩ else none
  | .arrive ack => if s.lock = .free then some ⟨.arrived ack, s.server⟩ else none
  | .store =>
    match s.lock with
    | .arrived ack =>
      if s.server.store.ackQueueSize < maxQueueSize then
        some ⟨.stored, s.server.withStore (s.server.store.enqueue ack)⟩
      else some ⟨.routed, s.server⟩
    | _ => none
  | .broadcast => if s.lock = .stored then some ⟨.routed, s.server.broadcast⟩ else none
  | .unlockLoop => if s.lock = .routed then some ⟨.free, s.server⟩ else none
  | .lock x => (s.server.threads x).bind fun th =>
    if s.lock = .free ∧ th.handler.phase = .scanning then some ⟨.looking x 0, s.server⟩ else none
  | .look =>
    match s.lock with
    | .looking x i => (s.server.threads x).map fun th => s.look x i th
    | _ => none
  | .remove =>
    match s.lock with
    | .found x i => some ⟨.leaving x, s.server.withStore (s.server.store.removeAt i)⟩
    | _ => none
  | .unlock =>
    match s.lock with
    | .leaving x => (s.server.threads x).map fun th =>
      ⟨.free, s.server.putHandler x th th.handler.acked⟩
    | _ => none

/-- What the scan has found out so far. -/
def Scanned (s : LockedServer) : Prop :=
  match s.lock with
  | .looking x i => ∃ th, s.server.threads x = some th ∧ th.handler.phase = .scanning ∧
      ∀ j < i, s.server.store.ackQueue j ≠ th.wanted
  | .found x i => ∃ th, s.server.threads x = some th ∧ th.handler.phase = .scanning ∧
      s.server.store.find th.wanted = some i
  | .leaving x => ∃ th, s.server.threads x = some th ∧ th.handler.phase = .scanning
  | _ => True

/-- The critical sections in one step each: an ACK comes with its broadcast, and a removal
with what the handler does after it. -/
def atomic (s : LockedServer) : AckServer :=
  match s.lock with
  | .stored => s.server.broadcast
  | .leaving x =>
    match s.server.threads x with
    | some th => s.server.putHandler x th th.handler.acked
    | none => s.server
  | _ => s.server

end LockedServer

/-- What each step does. -/
inductive LockStep (s : LockedServer) : LockAction → LockedServer → Prop
  | outside {a : QueueAction} {u : AckServer} (ha : a.isOutside = true)
      (hu : s.server.step a = some u) : LockStep s (.outside a) ⟨s.lock, u⟩
  | arrive {ack : AckPacket} (hl : s.lock = .free) : LockStep s (.arrive ack) ⟨.arrived ack, s.server⟩
  | store {ack : AckPacket} (hl : s.lock = .arrived ack)
      (hroom : s.server.store.ackQueueSize < maxQueueSize) :
      LockStep s .store ⟨.stored, s.server.withStore (s.server.store.enqueue ack)⟩
  | drop {ack : AckPacket} (hl : s.lock = .arrived ack)
      (hfull : ¬ s.server.store.ackQueueSize < maxQueueSize) : LockStep s .store ⟨.routed, s.server⟩
  | broadcast (hl : s.lock = .stored) : LockStep s .broadcast ⟨.routed, s.server.broadcast⟩
  | unlockLoop (hl : s.lock = .routed) : LockStep s .unlockLoop ⟨.free, s.server⟩
  | lock {x : ℕ} {th : HandlerThread} (hl : s.lock = .free) (hx : s.server.threads x = some th)
      (hp : th.handler.phase = .scanning) : LockStep s (.lock x) ⟨.looking x 0, s.server⟩
  | look {x i : ℕ} {th : HandlerThread} (hl : s.lock = .looking x i)
      (hx : s.server.threads x = some th) : LockStep s .look (s.look x i th)
  | remove {x i : ℕ} (hl : s.lock = .found x i) :
      LockStep s .remove ⟨.leaving x, s.server.withStore (s.server.store.removeAt i)⟩
  | unlock {x : ℕ} {th : HandlerThread} (hl : s.lock = .leaving x)
      (hx : s.server.threads x = some th) :
      LockStep s .unlock ⟨.free, s.server.putHandler x th th.handler.acked⟩

theorem lockStep_cases {s t : LockedServer} {a : LockAction} (h : s.step a = some t) :
    LockStep s a t := by
  cases a with
  | outside a =>
    simp only [LockedServer.step, Option.ite_none_right_eq_some] at h
    obtain ⟨ha, h⟩ := h
    obtain ⟨u, hu, rfl⟩ := Option.map_eq_some_iff.mp h
    exact .outside ha hu
  | arrive ack =>
    simp only [LockedServer.step, Option.ite_none_right_eq_some, Option.some.injEq] at h
    obtain ⟨hl, rfl⟩ := h
    exact .arrive hl
  | store =>
    simp only [LockedServer.step] at h
    split at h
    · rename_i ack hl
      split_ifs at h with hroom
      · cases h
        exact .store hl hroom
      · cases h
        exact .drop hl hroom
    · cases h
  | broadcast =>
    simp only [LockedServer.step, Option.ite_none_right_eq_some, Option.some.injEq] at h
    obtain ⟨hl, rfl⟩ := h
    exact .broadcast hl
  | unlockLoop =>
    simp only [LockedServer.step, Option.ite_none_right_eq_some, Option.some.injEq] at h
    obtain ⟨hl, rfl⟩ := h
    exact .unlockLoop hl
  | lock x =>
    obtain ⟨th, hx, h⟩ := Option.bind_eq_some_iff.mp h
    simp only [Option.ite_none_right_eq_some, Option.some.injEq] at h
    obtain ⟨⟨hl, hp⟩, rfl⟩ := h
    exact .lock hl hx hp
  | look =>
    simp only [LockedServer.step] at h
    split at h
    · rename_i x i hl
      obtain ⟨th, hx, rfl⟩ := Option.map_eq_some_iff.mp h
      exact .look hl hx
    · cases h
  | remove =>
    simp only [LockedServer.step] at h
    split at h
    · rename_i x i hl
      cases h
      exact .remove hl
    · cases h
  | unlock =>
    simp only [LockedServer.step] at h
    split at h
    · rename_i x hl
      obtain ⟨th, hx, rfl⟩ := Option.map_eq_some_iff.mp h
      exact .unlock hl hx
    · cases h

/-- A step outside the lock is about one thread that is not scanning, leaves it awake, and
depends on nothing else. -/
structure Outside (s : AckServer) (a : QueueAction) (x : ℕ) (th' : HandlerThread) : Prop where
  awake : th'.handler.phase ≠ .asleep
  holdsNot : ∀ th, s.threads x = some th → th.handler.phase ≠ .scanning
  woken : ∀ th, s.threads x = some th → th.handler.phase = .asleep →
    th' = { th with handler := th.handler.wake }
  step : ∀ v : AckServer, v.threads x = s.threads x → v.step a = some (v.put x th')

theorem outside_cases {s u : AckServer} {a : QueueAction} (ha : a.isOutside = true)
    (h : s.step a = some u) : ∃ x th', u = s.put x th' ∧ Outside s a x th' := by
  cases a with
  | begin x clientAddr file offset chunkSize =>
    simp only [AckServer.step, Option.ite_none_right_eq_some] at h
    obtain ⟨hx, h⟩ := h
    obtain ⟨hd, hh, rfl⟩ := Option.map_eq_some_iff.mp h
    have hphase : hd.phase = .sending := by
      simp only [Handler.start, Option.ite_none_left_eq_some, Option.some.injEq] at hh
      obtain ⟨-, rfl⟩ := hh
      rfl
    refine ⟨x, _, rfl, ?_, ?_, ?_, fun v hv => ?_⟩
    · rw [hphase]
      simp
    · intro th hth
      cases hx.symm.trans hth
    · intro th hth
      cases hx.symm.trans hth
    · simp only [AckServer.step, hv, hx, hh, ↓reduceIte, Option.map_some]
  | send x | sendFails x | finish x =>
    obtain ⟨th, hx, h⟩ := Option.bind_eq_some_iff.mp h
    simp only [Option.ite_none_right_eq_some, Option.some.injEq] at h
    obtain ⟨hp, rfl⟩ := h
    -- all three are steps of a thread that is in its sending loop
    have hsending {th' : HandlerThread} (hth : s.threads x = some th') :
        th'.handler.phase = .sending := by
      obtain rfl : th = th' := Option.some.inj (hx.symm.trans hth)
      exact hp.1
    refine ⟨x, _, rfl, by simp [Handler.sent], ?_, ?_, fun v hv => ?_⟩
    · intro th' hth
      rw [hsending hth]
      simp
    · intro th' hth ha
      cases (hsending hth).symm.trans ha
    · simp only [AckServer.step, hv, hx, Option.bind_some, if_pos hp]
      rfl
  | wake x =>
    obtain ⟨th, hx, h⟩ := Option.bind_eq_some_iff.mp h
    simp only [Option.ite_none_right_eq_some, Option.some.injEq] at h
    obtain ⟨hp, rfl⟩ := h
    refine ⟨x, _, rfl, by simp [Handler.wake, hp], ?_, ?_, fun v hv => ?_⟩
    · intro th' hth
      obtain rfl : th = th' := Option.some.inj (hx.symm.trans hth)
      rw [hp]
      simp
    · intro th' hth _
      obtain rfl : th = th' := Option.some.inj (hx.symm.trans hth)
      rfl
    · simp only [AckServer.step, hv, hx, Option.bind_some, if_pos hp]
      rfl
  | scan x | enqueue ack => cases ha

namespace LockedServer

variable {s t : LockedServer} {a : LockAction}

/-- The holder of the lock keeps its place while others step outside of it. -/
theorem threads_outside {u : AckServer} {b : QueueAction} {x : ℕ} {th : HandlerThread}
    (hb : b.isOutside = true) (hu : s.server.step b = some u) (hx : s.server.threads x = some th)
    (hp : th.handler.phase = .scanning) : u.threads x = some th ∧ u.store = s.server.store := by
  obtain ⟨y, th', rfl, hy⟩ := outside_cases hb hu
  have hxy : x ≠ y := by
    rintro rfl
    exact hy.holdsNot th hx hp
  rw [put_threads, if_neg hxy]
  exact ⟨hx, rfl⟩

/-- The holder of the lock at slot `i` has passed the slots before it. -/
theorem Scanned.looking {x i : ℕ} {th : HandlerThread} (hs : s.Scanned)
    (hl : s.lock = .looking x i) (hx : s.server.threads x = some th) :
    th.handler.phase = .scanning ∧ ∀ j < i, s.server.store.ackQueue j ≠ th.wanted := by
  unfold Scanned at hs
  rw [hl] at hs
  obtain ⟨th', hx', hp, hq⟩ := hs
  obtain rfl : th = th' := Option.some.inj (hx.symm.trans hx')
  exact ⟨hp, hq⟩

theorem Scanned.found {x i : ℕ} (hs : s.Scanned) (hl : s.lock = .found x i) :
    ∃ th, s.server.threads x = some th ∧ th.handler.phase = .scanning ∧
      s.server.store.find th.wanted = some i := by
  unfold Scanned at hs
  rwa [hl] at hs

theorem Scanned.leaving {x : ℕ} (hs : s.Scanned) (hl : s.lock = .leaving x) :
    ∃ th, s.server.threads x = some th ∧ th.handler.phase = .scanning := by
  unfold Scanned at hs
  rwa [hl] at hs

theorem scanned_step (hs : s.Scanned) (h : LockStep s a t) : t.Scanned := by
  cases h with
  | @outside b u hb hu =>
    unfold Scanned at hs ⊢
    dsimp only
    cases hl : s.lock with
    | looking x i | found x i =>
      rw [hl] at hs
      obtain ⟨th, hx, hp, hq⟩ := hs
      obtain ⟨hx', hstore⟩ := threads_outside hb hu hx hp
      exact ⟨th, hx', hp, by rw [hstore]; exact hq⟩
    | leaving x =>
      rw [hl] at hs
      obtain ⟨th, hx, hp⟩ := hs
      exact ⟨th, (threads_outside hb hu hx hp).1, hp⟩
    | free | arrived ack | stored | routed => trivial
  | lock hl hx hp => exact ⟨_, hx, hp, fun j hj => absurd hj (Nat.not_lt_zero j)⟩
  | @look x i th hl hx =>
    obtain ⟨hp, hq⟩ := hs.looking hl hx
    unfold look
    split_ifs with hi he
    · refine ⟨th, hx, hp, List.find?_range_eq_some.mpr ⟨?_, List.mem_range.mpr hi, ?_⟩⟩
      · simpa using he
      · intro j hj
        simpa using hq j hj
    · refine ⟨th, hx, hp, fun j hj => ?_⟩
      rcases Nat.lt_succ_iff_lt_or_eq.mp hj with hj | rfl
      · exact hq j hj
      · exact he
    · trivial
  | remove hl =>
    obtain ⟨th, hx, hp, -⟩ := hs.found hl
    exact ⟨th, hx, hp⟩
  | arrive | store | drop | broadcast | unlockLoop | unlock => trivial

theorem scanned_start : start.Scanned := trivial

theorem scanned_of_reachable (h : Reachable step anyStep start s) : s.Scanned :=
  h.invariant (P := Scanned) scanned_start fun _ _ _ hs _ hstep => scanned_step hs (lockStep_cases hstep)

/-- The sleepers of `ack_queue_cond`: each waits for its ACK, and the receive loop owes them a
broadcast once it has stored one. -/
def ackMonitor : Monitor LockedServer ℕ where
  asleep s x := ∃ th, s.server.threads x = some th ∧ th.handler.phase = .asleep
  ready s x := ∃ th, s.server.threads x = some th ∧ th.wanted ∈ s.server.store.acks
  owes s := s.lock = .stored

/-- A step that only moves thread `y`, and adds no ACK. -/
theorem disciplined_put {l : LockState} {q : AckStore} {y : ℕ} {th' : HandlerThread}
    (hq : ∀ ack ∈ q.acks, ack ∈ s.server.store.acks) (hl : s.lock = .stored → l = .stored)
    (hy : th'.handler.phase = .asleep → th'.wanted ∉ q.acks) :
    Disciplined ackMonitor s ⟨l, (s.server.put y th').withStore q⟩ := by
  have hthreads (x : ℕ) : ((s.server.put y th').withStore q).threads x =
      if x = y then some th' else s.server.threads x := put_threads _ _ _ _
  refine ⟨?_, ?_, fun howes => .inl (hl howes)⟩
  · rintro x ⟨th, hx, hp⟩ hs ⟨th₂, hx₂, hr⟩
    obtain rfl : th = th₂ := Option.some.inj (hx.symm.trans hx₂)
    simp only [hthreads] at hx
    split_ifs at hx with hxy
    · cases hx
      exact hy hp hr
    · exact hs ⟨th, hx, hp⟩
  · rintro x hs ⟨th, hx, hp⟩ ⟨th₂, hx₂, hr⟩
    obtain rfl : th = th₂ := Option.some.inj (hx.symm.trans hx₂)
    simp only [hthreads] at hx
    split_ifs at hx with hxy
    · cases hx
      exact absurd hr (hy hp)
    · exact .inl ⟨th, hx, hq _ hr⟩

/-- A step that moves no thread. -/
theorem disciplined_quiet {l : LockState} {q : AckStore} (hq : ∀ ack ∈ q.acks,
    ack ∈ s.server.store.acks ∨ l = .stored) (hl : s.lock = .stored → l = .stored) :
    Disciplined ackMonitor s ⟨l, s.server.withStore q⟩ := by
  refine ⟨fun x ha hs => absurd ha hs, ?_, fun howes => .inl (hl howes)⟩
  rintro x - - ⟨th, hx, hr⟩
  exact (hq _ hr).imp_left fun hr => ⟨th, hx, hr⟩

theorem mem_removeAt {q : AckStore} {i : ℕ} (hi : i < q.ackQueueSize) {ack : AckPacket}
    (h : ack ∈ (q.removeAt i).acks) : ack ∈ q.acks := by
  rw [AckStore.acks_removeAt hi] at h
  exact List.mem_of_mem_eraseIdx h

theorem not_asleep_broadcast (u : AckServer) {l : LockState} (x : ℕ) :
    ¬ ackMonitor.asleep ⟨l, u.broadcast⟩ x := by
  rintro ⟨th, hx, hp⟩
  obtain ⟨th', -, rfl⟩ := Option.map_eq_some_iff.mp hx
  simp only [Handler.wake] at hp
  split_ifs at hp with ha
  exact ha hp

/-- In any other state of the lock no broadcast is due. -/
theorem not_owes {l l' : LockState} (hl : s.lock = l) (hne : l ≠ .stored)
    (howes : s.lock = .stored) : l' = .stored :=
  absurd (hl.symm.trans howes) hne

/-- Every step of the server keeps the discipline of its condition variable. -/
theorem disciplined_step (hs : s.Scanned) (h : LockStep s a t) : Disciplined ackMonitor s t := by
  cases h with
  | @outside b u hb hu =>
    obtain ⟨y, th', rfl, hy⟩ := outside_cases hb hu
    exact disciplined_put (q := s.server.store) (fun _ h => h) id fun ha => absurd ha hy.awake
  | arrive hl | unlockLoop hl | lock hl | drop hl =>
    exact disciplined_quiet (q := s.server.store) (fun _ h => .inl h) (not_owes hl (by simp))
  -- the entry comes with a broadcast to follow
  | store hl hroom => exact disciplined_quiet (fun _ _ => .inr rfl) fun _ => rfl
  | broadcast hl =>
    have hnone := not_asleep_broadcast (l := .routed) s.server
    exact ⟨fun x ha => absurd ha (hnone x), fun x _ ha => absurd ha (hnone x), fun _ => .inr hnone⟩
  | @look x i th hl hx =>
    obtain ⟨hp, hq⟩ := hs.looking hl hx
    have hno {l' : LockState} : s.lock = .stored → l' = .stored := not_owes hl (by simp)
    unfold look
    split_ifs with hi he
    · exact disciplined_quiet (q := s.server.store) (fun _ h => .inl h) hno
    · exact disciplined_quiet (q := s.server.store) (fun _ h => .inl h) hno
    -- the scan has seen every slot before the thread falls asleep
    · refine disciplined_put (q := s.server.store) (fun _ h => h) hno fun _ hm => ?_
      obtain ⟨j, hj, he⟩ := mem_slots.mp hm
      exact hq j (by omega) he
  | @remove x i hl =>
    obtain ⟨th, hx, hp, hi⟩ := hs.found hl
    have hi := (AckStore.find_eq_some hi).1
    exact disciplined_quiet (fun _ h => .inl (mem_removeAt hi h)) (not_owes hl (by simp))
  | @unlock x th hl hx =>
    refine disciplined_put (q := s.server.store) (fun _ h => h) (not_owes hl (by simp)) ?_
    intro ha
    unfold Handler.acked at ha
    split_ifs at ha

/-- No wakeup is lost: in every run, while the lock is free, the queue holds no ACK that a
sleeping handler waits for. -/
theorem no_sleeper_has_its_ack (s : LockedServer) (h : Reachable step anyStep start s)
    (hfree : s.lock = .free) (x : ℕ) (th : HandlerThread) (hx : s.server.threads x = some th)
    (hp : th.handler.phase = .asleep) : th.wanted ∉ s.server.store.acks := by
  have hsound : Monitors.Sound ackMonitor s := by
    refine Monitors.sound_of_reachable ?_ (fun s a t hr _ hstep => ?_) h
    · rintro x ⟨th, hx, -⟩
      cases hx
    · exact disciplined_step (scanned_of_reachable hr) (lockStep_cases hstep)
  intro hm
  have hlock : s.lock ≠ .stored := by
    rw [hfree]
    nofun
  exact hsound.not_ready hlock ⟨th, hx, hp⟩ ⟨th, hx, hm⟩

set_option maxRecDepth 4096 in
/-- The ACK of address 8 is in the queue, and the handler of address 7 has looked at it and
sleeps again. -/
theorem no_sleeper_has_its_ack_other :
    ∃ s th, Reachable step anyStep start s ∧ s.server.store.acks = [⟨0, 8⟩] ∧
      s.server.threads 0 = some th ∧ th.handler.phase = .asleep ∧
      th.wanted ∉ s.server.store.acks := by
  have hrun : ∃ s, Reachable step anyStep start s ∧ s.lock = .free ∧
      s.server.store.acks = [⟨0, 8⟩] ∧
      ∃ th ∈ s.server.threads 0, th.handler.phase = .asleep := by
    refine exists_reachable_of_replayIf (twoWaiting.map .outside ++ [.lock 0, .look,
      .arrive ⟨0, 8⟩, .store, .broadcast, .unlockLoop, .lock 0, .look, .look]) _ ?_
    decide
  obtain ⟨s, hs, hfree, hacks, th, hx, hp⟩ := hrun
  exact ⟨s, th, hs, hacks, hx, hp, no_sleeper_has_its_ack s hs hfree 0 th hx hp⟩

theorem put_put_comm (u : AckServer) {x y : ℕ} (hxy : x ≠ y) (th th' : HandlerThread) :
    (u.put x th).put y th' = (u.put y th').put x th := by
  rw [AckServer.put, AckServer.put, AckServer.put, AckServer.put, Function.update_comm hxy]

theorem broadcast_put (u : AckServer) (x : ℕ) (th : HandlerThread) :
    (u.put x th).broadcast = u.broadcast.put x { th with handler := th.handler.wake } := by
  have hthreads : (fun y => ((u.put x th).threads y).map fun th =>
      ({ th with handler := th.handler.wake } : HandlerThread)) =
      Function.update (fun y => (u.threads y).map fun th =>
        ({ th with handler := th.handler.wake } : HandlerThread)) x
        (some { th with handler := th.handler.wake }) := by
    funext y
    rw [put_threads, Function.update_apply]
    split_ifs <;> rfl
  rw [AckServer.broadcast, hthreads]
  rfl

theorem wake_of_awake {h : Handler} (hp : h.phase ≠ .asleep) : h.wake = h := if_neg hp

/-- A step outside the lock, seen past the broadcast that is due. -/
theorem broadcast_outside {u v : AckServer} {b : QueueAction} (hb : b.isOutside = true)
    (hu : u.step b = some v) :
    v.broadcast = u.broadcast ∨ u.broadcast.step b = some v.broadcast := by
  obtain ⟨x, th', rfl, hx⟩ := outside_cases hb hu
  rw [broadcast_put, wake_of_awake hx.awake]
  by_cases hasleep : ∃ th, u.threads x = some th ∧ th.handler.phase = .asleep
  -- the broadcast would have woken the thread anyway
  · obtain ⟨th, hth, hp⟩ := hasleep
    left
    have hself : u.broadcast.threads x = some th' := by
      rw [hx.woken th hth hp]
      simp only [AckServer.broadcast, hth, Option.map_some]
    rw [AckServer.put, ← hself, Function.update_eq_self]
  · right
    apply hx.step
    cases hth : u.threads x with
    | none => simp only [AckServer.broadcast, hth, Option.map_none]
    | some th =>
      have hp : th.handler.phase ≠ .asleep := fun hp => hasleep ⟨th, hth, hp⟩
      simp only [AckServer.broadcast, hth, Option.map_some, wake_of_awake hp]

/-- Every step of a thread is, seen from the others, a whole critical section or nothing. -/
theorem atomic_step (hs : s.Scanned) (h : LockStep s a t) :
    t.atomic = s.atomic ∨ ∃ b, s.atomic.step b = some t.atomic := by
  cases h with
  | @outside b u hb hu =>
    cases hl : s.lock with
    | stored =>
      simp only [atomic, hl]
      exact (broadcast_outside hb hu).imp_right fun h => ⟨b, h⟩
    | leaving x =>
      obtain ⟨th, hx, hp⟩ := hs.leaving hl
      have hx' := (threads_outside hb hu hx hp).1
      simp only [atomic, hl, hx, hx']
      obtain ⟨y, th', rfl, hy⟩ := outside_cases hb hu
      have hxy : y ≠ x := by
        rintro rfl
        exact hy.holdsNot th hx hp
      refine .inr ⟨b, ?_⟩
      rw [AckServer.putHandler, AckServer.putHandler, put_put_comm _ hxy]
      exact hy.step _ (by rw [put_threads, if_neg hxy])
    | free | arrived ack | routed | looking x i | found x i =>
      simp only [atomic, hl]
      exact .inr ⟨b, hu⟩
  | arrive hl | unlockLoop hl | lock hl | drop hl =>
    left
    simp only [atomic, hl]
  | @store ack hl hroom =>
    right
    refine ⟨.enqueue ack, ?_⟩
    simp only [atomic, hl, AckServer.step, if_pos hroom]
  | broadcast hl =>
    left
    simp only [atomic, hl]
  | @look x i th hl hx =>
    obtain ⟨hp, hq⟩ := hs.looking hl hx
    unfold look
    split_ifs with hi he
    · left
      simp only [atomic, hl]
    · left
      simp only [atomic, hl]
    -- the whole scan found nothing
    · right
      have hnone : s.server.store.find th.wanted = none := by
        refine AckStore.find_eq_none_iff.mpr fun hm => ?_
        obtain ⟨j, hj, he⟩ := mem_slots.mp hm
        exact hq j (by omega) he
      refine ⟨.scan x, ?_⟩
      simp only [atomic, hl, AckServer.step, hx, Option.bind_some, if_pos hp, hnone]
  | @remove x i hl =>
    obtain ⟨th, hx, hp, hi⟩ := hs.found hl
    right
    refine ⟨.scan x, ?_⟩
    have hx' : (s.server.withStore (s.server.store.removeAt i)).threads x = some th := hx
    simp only [atomic, hl, hx', AckServer.step, hx, Option.bind_some, if_pos hp, hi]
    rfl
  | unlock hl hx =>
    left
    simp only [atomic, hl, hx]

/-- What holds of the queue when its critical sections are single steps holds of it here. -/
theorem atomic_reachable (h : Reachable step anyStep start s) :
    Reachable AckServer.step anyStep .start s.atomic := by
  induction h with
  | start => exact .start
  | step hr _ hs ih =>
    obtain heq | ⟨b, hb⟩ := atomic_step (scanned_of_reachable hr) (lockStep_cases hs)
    · rwa [heq]
    · exact .step ih trivial hb

end LockedServer

end NetTools.TFTP
