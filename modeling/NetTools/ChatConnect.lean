import NetTools.ChatListLock
import Mathlib.Algebra.BigOperators.Group.Finset.Basic
import Mathlib.Algebra.Order.BigOperators.Group.Finset

/-! Several `/connect` commands for one id at the same time: `serverThread` of
`archive/chat/src/myserver.c` around `sendClientInfo`, which gives the mutex back between its search
and its removal. A critical section is one step. -/
namespace NetTools.Chat

open CText LinkedHeap Schedule

/-- Where a thread is in its `/connect`: before the search, between the two critical sections, in
front of `numClients--`, behind the call, and back in its loop. -/
inductive Caller
  | waiting
  | found
  | unlinked
  | returned (result : Int)
  | served
  deriving DecidableEq

structure Connects where
  process : ProcessStatus
  list : ClientList
  caller : ℕ → Caller
  received : ℕ → Option Bytes
  removals : ℕ

namespace Connects

def start (L : ClientList) : Connects := ⟨.running, L, fun _ => .waiting, fun _ => none, 0⟩

inductive Act
  | search (i : ℕ) (send : Bool)
  | remove (i : ℕ)
  | count (i : ℕ)
  | check (i : ℕ)

def Act.thread : Act → ℕ
  | search i _ => i
  | remove i => i
  | count i => i
  | check i => i

def goTo (s : Connects) (i : ℕ) (c : Caller) : Connects :=
  { s with caller := Function.update s.caller i c }

def receive (s : Connects) (i : ℕ) (message : Option Bytes) : Connects :=
  { s with received := Function.update s.received i message }

/-- A step that ends the process, blocks, or goes on. -/
def goOn {β : Type} (s : Connects) (result : Except Halt β) (next : β → Connects) :
    Option Connects :=
  match result with
  | .ok b => some (next b)
  | .error .blocked => none
  | .error (.ended status) => some { s with process := status }

/-- The step of one of `k` threads that connect to `id`. -/
def step (m : Memory) (id k : ℕ) (s : Connects) (a : Act) : Option Connects :=
  if s.process ≠ .running ∨ k ≤ a.thread then none
  else match a, s.caller a.thread with
    | .search i send, .waiting =>
      s.goOn (searchSection m s.list id send) fun r =>
        ({ s with list := r.list }.goTo i (if r.found then .found else .returned (-1))).receive i
          r.received
    | .remove i, .found =>
      s.goOn (removeSection m s.list id) fun L =>
        { s with list := L, removals := s.removals+1 }.goTo i .unlinked
    | .count i, .unlinked =>
      s.goOn (addToCount s.list (-1)) fun L => { s with list := L }.goTo i (.returned 1)
    | .check i, .returned result =>
      -- a negative result is taken for a failure
      if result < 0 then some { s with process := .exited (-1) } else some (s.goTo i .served)
    | _, _ => none

/-- The threads' own test of the result is left out: only the calls are looked at. -/
def inCall (_ : Connects) : Act → Prop
  | .check _ => False
  | _ => True

/-- No search while another call is between its two critical sections, and every send succeeds. -/
def apart (k : ℕ) (s : Connects) : Act → Prop
  | .search _ send => send = true ∧ ∀ j < k, s.caller j ≠ .found
  | .check _ => False
  | _ => True

instance : ∀ (s : Connects) (a : Act), Decidable (inCall s a)
  | _, .search _ _ => inferInstanceAs (Decidable True)
  | _, .remove _ => inferInstanceAs (Decidable True)
  | _, .count _ => inferInstanceAs (Decidable True)
  | _, .check _ => inferInstanceAs (Decidable False)

/-- No step that meets `C` is left. -/
def Over (m : Memory) (id k : ℕ) (C : Connects → Act → Prop) (s : Connects) : Prop :=
  ∀ a, C s a → step m id k s a = none

end Connects

/-- The buffer with a node's address and port. -/
def address (m : Memory) (c : ClientNode) : Bytes :=
  padded maxMsgLength (m.str c.ip ++ ascii " " ++ decimalInt c.port)

def doesNotExist : Bytes := padded maxMsgLength (ascii "DNE")

/-- What `sprintf` makes of the node is its address. -/
def SendsAddress (m : Memory) (c : ClientNode) : Prop :=
  ∃ info, clientInfo m c = .ok info ∧ padded maxMsgLength info = address m c

/-- The process runs, one of the `k` threads was sent the address and all others DNE, and the node
was removed once. -/
def ConnectedOnce (m : Memory) (c : ClientNode) (k : ℕ) (s : Connects) : Prop :=
  s.process = .running ∧ s.removals = 1 ∧ ∃ i < k, s.received i = some (address m c) ∧
    ∀ j < k, j ≠ i → s.received j = some doesNotExist

namespace Connects

variable {m : Memory} {id k : ℕ} {s t : Connects} {a : Act}

@[simp] theorem goTo_process (s : Connects) (i : ℕ) (c : Caller) :
    (s.goTo i c).process = s.process := rfl

@[simp] theorem goTo_list (s : Connects) (i : ℕ) (c : Caller) : (s.goTo i c).list = s.list := rfl

@[simp] theorem goTo_received (s : Connects) (i : ℕ) (c : Caller) :
    (s.goTo i c).received = s.received := rfl

@[simp] theorem goTo_removals (s : Connects) (i : ℕ) (c : Caller) :
    (s.goTo i c).removals = s.removals := rfl

@[simp] theorem goTo_caller_self (s : Connects) (i : ℕ) (c : Caller) : (s.goTo i c).caller i = c :=
  Function.update_self _ _ _

theorem goTo_caller_of_ne (s : Connects) {i j : ℕ} (c : Caller) (h : j ≠ i) :
    (s.goTo i c).caller j = s.caller j :=
  Function.update_of_ne h _ _

@[simp] theorem receive_process (s : Connects) (i : ℕ) (message : Option Bytes) :
    (s.receive i message).process = s.process := rfl

@[simp] theorem receive_list (s : Connects) (i : ℕ) (message : Option Bytes) :
    (s.receive i message).list = s.list := rfl

@[simp] theorem receive_caller (s : Connects) (i : ℕ) (message : Option Bytes) :
    (s.receive i message).caller = s.caller := rfl

@[simp] theorem receive_removals (s : Connects) (i : ℕ) (message : Option Bytes) :
    (s.receive i message).removals = s.removals := rfl

@[simp] theorem receive_received_self (s : Connects) (i : ℕ) (message : Option Bytes) :
    (s.receive i message).received i = message :=
  Function.update_self _ _ _

theorem receive_received_of_ne (s : Connects) {i j : ℕ} (message : Option Bytes) (h : j ≠ i) :
    (s.receive i message).received j = s.received j :=
  Function.update_of_ne h _ _

/-- The state behind the search of thread `i`. -/
def searched (s : Connects) (i : ℕ) (r : Searched) : Connects :=
  ({ s with list := r.list }.goTo i (if r.found then .found else .returned (-1))).receive i r.received

def removed (s : Connects) (i : ℕ) (L : ClientList) : Connects :=
  { s with list := L, removals := s.removals+1 }.goTo i .unlinked

def counted (s : Connects) (i : ℕ) (L : ClientList) : Connects :=
  { s with list := L }.goTo i (.returned 1)

/-- What a step of a thread can do while the process runs. -/
inductive Steps (m : Memory) (id : ℕ) (s : Connects) : Act → Connects → Prop
  | search {i : ℕ} {send : Bool} {r : Searched} : s.caller i = .waiting →
      searchSection m s.list id send = .ok r → Steps m id s (.search i send) (s.searched i r)
  | dies {i : ℕ} {send : Bool} {status : ProcessStatus} : s.caller i = .waiting →
      searchSection m s.list id send = .error (.ended status) →
      Steps m id s (.search i send) { s with process := status }
  | remove {i : ℕ} {L : ClientList} : s.caller i = .found → removeSection m s.list id = .ok L →
      Steps m id s (.remove i) (s.removed i L)
  | exits {i : ℕ} {status : ProcessStatus} : s.caller i = .found →
      removeSection m s.list id = .error (.ended status) →
      Steps m id s (.remove i) { s with process := status }
  | count {i : ℕ} {L : ClientList} : s.caller i = .unlinked → addToCount s.list (-1) = .ok L →
      Steps m id s (.count i) (s.counted i L)
  | overflows {i : ℕ} {status : ProcessStatus} : s.caller i = .unlinked →
      addToCount s.list (-1) = .error (.ended status) →
      Steps m id s (.count i) { s with process := status }
  | fails {i : ℕ} {result : Int} : s.caller i = .returned result → result < 0 →
      Steps m id s (.check i) { s with process := .exited (-1) }
  | serves {i : ℕ} {result : Int} : s.caller i = .returned result → 0 ≤ result →
      Steps m id s (.check i) (s.goTo i .served)

theorem goOn_eq_some {β : Type} {result : Except Halt β} {next : β → Connects} :
    s.goOn result next = some t ↔
      (∃ b, result = .ok b ∧ t = next b) ∨
        ∃ status, result = .error (.ended status) ∧ t = { s with process := status } := by
  cases result with
  | ok b => simp [goOn, eq_comm]
  | error halt =>
    cases halt with
    | blocked => simp [goOn]
    | ended status => simp [goOn, eq_comm]

theorem step_cases (h : step m id k s a = some t) :
    s.process = .running ∧ a.thread < k ∧ Steps m id s a t := by
  unfold step at h
  rw [Option.ite_none_left_eq_some, not_or, not_not, not_le] at h
  obtain ⟨⟨hrun, hk⟩, h⟩ := h
  refine ⟨hrun, hk, ?_⟩
  cases a with
  | search i send =>
    cases hcaller : s.caller i with
    | waiting =>
      simp only [Act.thread, hcaller] at h
      obtain ⟨r, hr, rfl⟩ | ⟨status, hr, rfl⟩ := goOn_eq_some.mp h
      · exact .search hcaller hr
      · exact .dies hcaller hr
    | _ => simp [Act.thread, hcaller] at h
  | remove i =>
    cases hcaller : s.caller i with
    | found =>
      simp only [Act.thread, hcaller] at h
      obtain ⟨L, hL, rfl⟩ | ⟨status, hL, rfl⟩ := goOn_eq_some.mp h
      · exact .remove hcaller hL
      · exact .exits hcaller hL
    | _ => simp [Act.thread, hcaller] at h
  | count i =>
    cases hcaller : s.caller i with
    | unlinked =>
      simp only [Act.thread, hcaller] at h
      obtain ⟨L, hL, rfl⟩ | ⟨status, hL, rfl⟩ := goOn_eq_some.mp h
      · exact .count hcaller hL
      · exact .overflows hcaller hL
    | _ => simp [Act.thread, hcaller] at h
  | check i =>
    cases hcaller : s.caller i with
    | returned result =>
      simp only [Act.thread, hcaller] at h
      split_ifs at h with hneg
      · cases h
        exact .fails hcaller hneg
      · cases h
        exact .serves hcaller (Int.not_lt.mp hneg)
    | _ => simp [Act.thread, hcaller] at h

end Connects

end NetTools.Chat
