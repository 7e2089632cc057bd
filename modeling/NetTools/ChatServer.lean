import NetTools.ChatConnect
import NetTools.Tokens

/-! `archive/chat/src/myserver.c`: `main`, which exits once it has made the thread of its first client,
and this thread. A `/wait` puts the pointer `id` into the list and then frees it. -/
namespace NetTools.Chat

open CText LinkedHeap Schedule Tokens

/-- A turn of the loop in `serverThread`: the text that stands in `command`, for a `/wait` the text
in `port` and what `malloc` gives, and which of the sends succeed. -/
structure Turn where
  command : Bytes
  port : Bytes
  malloc : Option ℕ
  sends : ℕ → Bool

def isBlank (b : Byte) : Bool := b = 32

/-- The first word of the command, and the text behind it. -/
def Turn.words (t : Turn) : Option (Bytes × Bytes) := strtok isBlank t.command

/-- The pointers of the thread: `id`, what `inet_ntoa` gives, and where `connectid` points. -/
structure Pointers where
  id : ℕ
  ip : ℕ
  connectid : ℕ

/-- The list as the thread has it, and whether `id` is still allocated. -/
structure Session where
  list : ClientList
  idHeld : Bool

/-- What was sent in a turn, and the thread behind it or the end of the process. -/
abbrev Outcome := List Bytes × Except Halt Session

namespace Session

def start : Session := ⟨newClientList, true⟩

/-- A function of the list has returned `result`: below zero the process exits. -/
def goOn (sent : List Bytes) (result : Int) (s : Session) : Outcome :=
  (sent, if result < 0 then .error (.ended (.exited (-1))) else .ok s)

def onList (m : Memory) (s : Session) (t : Turn) : Outcome :=
  match sendClientList m s.list t.sends with
  | .error h => ([], .error h)
  | .ok (L, sent, result) => goOn sent result ⟨L, s.idHeld⟩

def onWait (m : Memory) (p : Pointers) (s : Session) (t : Turn) : Outcome :=
  match insertToList m s.list p.id p.ip (atoi t.port) t.malloc with
  | .error h => ([], .error h)
  | .ok (L, result) => goOn [] result ⟨L, false⟩

/-- `connectid` may be `NULL`, which is not read while the list is empty. -/
def onConnect (m : Memory) (p : Pointers) (s : Session) (t : Turn) (connectid : Option Bytes) : Outcome :=
  if connectid = none ∧ s.list.top ≠ none then ([], .error (.ended .undefined))
  else
    let m := { m with str := Function.update m.str p.connectid (connectid.getD []) }
    match sendClientInfo m s.list p.connectid (t.sends 0) with
    | .error h => ([], .error h)
    | .ok (L, sent, result) => goOn sent.toList result ⟨L, s.idHeld⟩

/-- Every function of the list reads the id of the first node, if there is one, and all nodes have
the pointer `id`. -/
def readsFreed (s : Session) : Bool := s.list.top.isSome && !s.idHeld

/-- One turn. A command without a word leaves `token` as `NULL`, and `token[0]` is read. -/
def turn (m : Memory) (p : Pointers) (s : Session) (t : Turn) : Outcome :=
  match t.words with
  | none => ([], .error (.ended .undefined))
  | some (token, rest) =>
    if token = ascii "/list" ∨ token = ascii "/wait" ∨ token = ascii "/connect" then
      if s.readsFreed then ([], .error (.ended .undefined))
      else if token = ascii "/list" then s.onList m t
      else if token = ascii "/wait" then s.onWait m p t
      else s.onConnect m p t ((strtok isBlank rest).map Prod.fst)
    else ([], .ok s)

end Session

/-- The process, with all that its one client was sent. -/
structure Server where
  status : ProcessStatus
  thread : Option Session
  sent : List Bytes

/-- `accept` goes up to the loop of the thread: whether a client is accepted, the thread created,
and the client's id received and its address found. `leave` is the `exit(0)` of `main`, which may
come at any time from the creation of the thread on. -/
inductive ServerEvent
  | accept (accepted created identified : Bool)
  | turn (t : Turn)
  | leave

namespace Server

def start : Server := ⟨.running, none, []⟩

def ended (s : Server) (status : ProcessStatus) : Server := { s with status := status }

/-- What a turn does to the process. A blocked thread makes no step. -/
def after (s : Server) (o : Outcome) : Option Server :=
  match o.2 with
  | .ok session => some ⟨.running, some session, s.sent ++ o.1⟩
  | .error (.ended status) => some ⟨status, s.thread, s.sent ++ o.1⟩
  | .error .blocked => none

def step (m : Memory) (p : Pointers) (s : Server) : ServerEvent → Option Server
  | .accept accepted created identified =>
    if s.status = .running ∧ s.thread.isNone then
      if accepted && created then
        -- without an id the socket is closed, and `getpeername` fails
        if identified then some { s with thread := some .start } else some (s.ended (.exited (-1)))
      else some (s.ended (.exited 1))
    else none
  | .turn t =>
    if s.status = .running then s.thread.bind fun session => s.after (session.turn m p t) else none
  | .leave => if s.status = .running ∧ s.thread.isSome then some (s.ended (.exited 0)) else none

end Server

section Empty

variable (m : Memory)

/-- The functions of the list on an empty one. -/
theorem sendClientList_empty (sends : ℕ → Bool) :
    sendClientList m newClientList sends =
      if sends 0 then .ok (newClientList, [ascii "\n"], 1) else .ok (newClientList, [], -1) := by
  have hall : sendClientList m newClientList sends = if true && sends 0 then
      .ok (newClientList, [ascii "\n"], 1) else .ok (newClientList, [], -1) := rfl
  rw [hall, Bool.true_and]

theorem insertToList_empty (id ip : ℕ) (port : Int) (malloc : Option ℕ) :
    insertToList m newClientList id ip port malloc = .error (.ended .killed) ∧ malloc = none ∨
      ∃ a L, malloc = some a ∧ insertToList m newClientList id ip port malloc = .ok (L, 1) ∧
        L.top = some a := by
  cases malloc with
  | none => exact Or.inl ⟨rfl, rfl⟩
  | some a => exact Or.inr ⟨a, _, rfl, rfl, rfl⟩

end Empty

namespace Session

/-- The client is in the list, and its `id` is freed. -/
def Waits (s : Session) : Prop := s.list.top ≠ none ∧ s.idHeld = false

/-- A command that one of the functions of the list is called for. -/
def UsesList (t : Turn) : Prop :=
  ∃ w ∈ t.words, w.1 = ascii "/list" ∨ w.1 = ascii "/wait" ∨ w.1 = ascii "/connect"

variable {m : Memory} {p : Pointers} {s : Session} {t : Turn}

/-- What a turn comes to in the two states that the thread can be in. -/
structure Turned (s : Session) (t : Turn) (o : Outcome) : Prop where
  sent : ∀ x ∈ o.1, x = ascii "\n" ∨ x = doesNotExist
  list : ∀ s', o.2 = .ok s' → (s' = start ∨ s'.Waits) ∧ ∀ x ∈ o.1, x = ascii "\n"
  undefined : o.2 = .error (.ended .undefined) ↔ t.words = none ∨ s.Waits ∧ UsesList t
  halts : ∀ h, o.2 = .error h → h ≠ .blocked ∧ h ≠ .ended .running

theorem onList_start (m : Memory) (t : Turn) : start.onList m t =
    if t.sends 0 then ([ascii "\n"], .ok start) else ([], .error (.ended (.exited (-1)))) := by
  have hcall : start.onList m t = match sendClientList m newClientList t.sends with
    | .error h => ([], .error h)
    | .ok (L, sent, result) => goOn sent result ⟨L, true⟩ := rfl
  rw [hcall, sendClientList_empty]
  cases t.sends 0 with
  | true => rfl
  | false => rfl

theorem onConnect_start (m : Memory) (p : Pointers) (t : Turn) (connectid : Option Bytes) :
    start.onConnect m p t connectid =
      (if t.sends 0 then [doesNotExist] else [], .error (.ended (.exited (-1)))) := by
  have hempty : ¬ (connectid = none ∧ start.list.top ≠ none) := fun h => h.2 rfl
  rw [onConnect, if_neg hempty]
  cases hs : t.sends 0 with
  | true => rfl
  | false => rfl

theorem onWait_start (m : Memory) (p : Pointers) (t : Turn) :
    start.onWait m p t = ([], .error (.ended .killed)) ∨
      ∃ s : Session, s.Waits ∧ start.onWait m p t = ([], .ok s) := by
  have hcall : start.onWait m p t =
    match insertToList m newClientList p.id p.ip (atoi t.port) t.malloc with
    | .error h => ([], .error h)
    | .ok (L, result) => goOn [] result ⟨L, false⟩ := rfl
  rw [hcall]
  rcases insertToList_empty m p.id p.ip (atoi t.port) t.malloc with ⟨hkilled, -⟩ | ⟨a, L, -, hok, htop⟩
  · rw [hkilled]
    exact Or.inl rfl
  · rw [hok]
    exact Or.inr ⟨⟨L, false⟩, ⟨by simp [htop], rfl⟩, rfl⟩

/-- A turn without undefined behaviour from a thread that is not in the list. -/
theorem Turned.of_defined {o : Outcome} (hw : t.words ≠ none) (hs : ¬ s.Waits)
    (hsent : ∀ x ∈ o.1, x = ascii "\n" ∨ x = doesNotExist)
    (hlist : ∀ s', o.2 = .ok s' → (s' = start ∨ s'.Waits) ∧ ∀ x ∈ o.1, x = ascii "\n")
    (ho : o.2 ≠ .error (.ended .undefined))
    (hhalts : ∀ h, o.2 = .error h → h ≠ .blocked ∧ h ≠ .ended .running) : Turned s t o :=
  ⟨hsent, hlist, iff_of_false ho (by simp [hw, hs]), hhalts⟩

theorem turned_start (m : Memory) (p : Pointers) (t : Turn) : Turned start t (start.turn m p t) := by
  have hnot : ¬ start.Waits := fun h => h.1 rfl
  have hreads : start.readsFreed = false := rfl
  cases hw : t.words with
  | none =>
    simp only [turn, hw]
    exact ⟨nofun, nofun, iff_of_true rfl (Or.inl hw), by simp⟩
  | some w =>
    have hne : t.words ≠ none := by
      rw [hw]
      exact Option.some_ne_none w
    simp only [turn, hw, hreads, Bool.false_eq_true, ↓reduceIte]
    split_ifs with hcommand hlist hwait
    · rw [onList_start]
      cases t.sends 0 with
      | true => exact .of_defined hne hnot (by simp) (by simp) nofun (by simp)
      | false => exact .of_defined hne hnot (by simp) (by simp) nofun (by simp)
    · rcases onWait_start m p t with hkilled | ⟨s', hs', hok⟩
      · rw [hkilled]
        exact .of_defined hne hnot (by simp) (by simp) nofun (by simp)
      · rw [hok]
        exact .of_defined hne hnot (by simp) (by simp [hs']) nofun (by simp)
    · rw [onConnect_start]
      cases t.sends 0 with
      | true => exact .of_defined hne hnot (by simp) (by simp) nofun (by simp)
      | false => exact .of_defined hne hnot (by simp) (by simp) nofun (by simp)
    · exact .of_defined hne hnot (by simp) (by simp) nofun (by simp)

/-- Once the client is in the list, every function of the list is undefined. -/
theorem turned_waits (m : Memory) (p : Pointers) (hs : s.Waits) (t : Turn) :
    Turned s t (s.turn m p t) := by
  have hreads : s.readsFreed = true := by
    rw [readsFreed, hs.2, Option.isSome_iff_ne_none.mpr hs.1]
    rfl
  cases hw : t.words with
  | none =>
    simp only [turn, hw]
    exact ⟨nofun, nofun, iff_of_true rfl (Or.inl hw), by simp⟩
  | some w =>
    have huses : UsesList t ↔
        w.1 = ascii "/list" ∨ w.1 = ascii "/wait" ∨ w.1 = ascii "/connect" := by
      simp [UsesList, hw]
    simp only [turn, hw, hreads, ↓reduceIte]
    split_ifs with hcommand
    · exact ⟨nofun, nofun, iff_of_true rfl (Or.inr ⟨hs, huses.mpr hcommand⟩), by simp⟩
    · refine ⟨nofun, ?_, ?_, by simp⟩
      · intro s' hs'
        cases hs'
        exact ⟨Or.inr hs, nofun⟩
      · refine iff_of_false nofun ?_
        rintro (hnone | ⟨-, hlist⟩)
        · rw [hw] at hnone
          cases hnone
        · exact hcommand (huses.mp hlist)

end Session

namespace Server

variable {m : Memory} {p : Pointers} {s t : Server}

/-- What holds of the process in every run. -/
structure Quiet (s : Server) : Prop where
  thread : s.status = .running → ∀ session ∈ s.thread, session = .start ∨ session.Waits
  sent : ∀ x ∈ s.sent, x = ascii "\n" ∨ x = doesNotExist
  lists : s.status = .running → ∀ x ∈ s.sent, x = ascii "\n"

theorem turned (m : Memory) (p : Pointers) (hs : s.Quiet) (hrun : s.status = .running) {session : Session}
    (hsession : s.thread = some session) (t : Turn) : session.Turned t (session.turn m p t) := by
  rcases hs.thread hrun session hsession with rfl | hwaits
  · exact Session.turned_start m p t
  · exact Session.turned_waits m p hwaits t

theorem quiet_ended (hs : s.Quiet) {status : ProcessStatus} (hstatus : status ≠ .running) :
    (s.ended status).Quiet :=
  ⟨fun h => absurd h hstatus, hs.sent, fun h => absurd h hstatus⟩

theorem quiet_step {e : ServerEvent} (hs : s.Quiet) (h : s.step m p e = some t) : t.Quiet := by
  cases e with
  | accept accepted created identified =>
    simp only [step, Option.ite_none_right_eq_some] at h
    obtain ⟨⟨hrun, -⟩, h⟩ := h
    split_ifs at h
    · cases h
      refine ⟨fun _ session hsession => Or.inl ?_, hs.sent, hs.lists⟩
      exact (Option.some.inj hsession).symm
    · cases h
      exact quiet_ended hs nofun
    · cases h
      exact quiet_ended hs nofun
  | leave =>
    simp only [step, Option.ite_none_right_eq_some, Option.some.injEq] at h
    obtain ⟨-, rfl⟩ := h
    exact quiet_ended hs nofun
  | turn turn =>
    simp only [step, Option.ite_none_right_eq_some] at h
    obtain ⟨hrun, h⟩ := h
    obtain ⟨session, hsession, h⟩ := Option.bind_eq_some_iff.mp h
    -- what the one thread sends in a turn is known from the state of its list
    have hturned := turned m p hs hrun hsession turn
    have hsent : ∀ x ∈ s.sent ++ (session.turn m p turn).1, x = ascii "\n" ∨ x = doesNotExist := by
      intro x hx
      exact (List.mem_append.mp hx).elim (hs.sent x) (hturned.sent x)
    unfold after at h
    split at h
    · rename_i s' hs'
      cases h
      obtain ⟨hnext, hlists⟩ := hturned.list s' hs'
      refine ⟨fun _ session hsession => ?_, hsent, fun _ x hx => ?_⟩
      · rw [← Option.some.inj hsession]
        exact hnext
      · exact (List.mem_append.mp hx).elim (hs.lists hrun x) (hlists x)
    · rename_i status hstatus
      cases h
      have hended := (hturned.halts _ hstatus).2
      have hne : status ≠ .running := fun heq => hended (heq ▸ rfl)
      exact ⟨fun hrun => absurd hrun hne, hsent, fun hrun => absurd hrun hne⟩
    · cases h

theorem quiet_of_reachable (h : Reachable (Server.step m p) anyStep .start s) : s.Quiet := by
  refine h.invariant (P := Quiet) ⟨fun _ => by simp [start], by simp [start], fun _ => by simp [start]⟩ ?_
  intro s e t hs _ hstep
  exact quiet_step hs hstep

/-- In every run the one client of the server is sent nothing but ends of empty lists, and at the
end of the process perhaps that an id does not exist: nobody is ever told of a client. A turn is
always taken; it is undefined exactly for a command without a word and, behind a `/wait`, for every
command that uses the list. -/
theorem server_tells_of_nobody (h : Reachable (Server.step m p) anyStep .start s) :
    (∀ x ∈ s.sent, x = ascii "\n" ∨ x = doesNotExist) ∧
    (s.status = .running → ∀ x ∈ s.sent, x = ascii "\n") ∧
    ∀ session ∈ s.thread, s.status = .running → (session = .start ∨ session.Waits) ∧
      ∀ turn, ∃ t, s.step m p (.turn turn) = some t ∧
        (t.status = .undefined ↔ turn.words = none ∨ session.Waits ∧ Session.UsesList turn) := by
  have hs := quiet_of_reachable h
  refine ⟨hs.sent, hs.lists, ?_⟩
  intro session hsession hrun
  refine ⟨hs.thread hrun session hsession, fun turn => ?_⟩
  have hturned := turned m p hs hrun hsession turn
  have hstep : s.step m p (.turn turn) = s.after (session.turn m p turn) := by
    have hbind : s.thread.bind (fun session => s.after (session.turn m p turn)) =
        s.after (session.turn m p turn) := by
      rw [show s.thread = some session from hsession, Option.bind_some]
    rw [step, if_pos hrun, hbind]
  rw [hstep, ← hturned.undefined]
  cases ho : (session.turn m p turn).2 with
  | ok s' =>
    refine ⟨⟨.running, some s', s.sent ++ (session.turn m p turn).1⟩, ?_, by simp⟩
    rw [after, ho]
  | error halt =>
    cases halt with
    | blocked => exact absurd rfl (hturned.halts _ ho).1
    | ended status =>
      refine ⟨⟨status, s.thread, s.sent ++ (session.turn m p turn).1⟩, ?_, by simp⟩
      rw [after, ho]

/-- A turn with a command in which every send succeeds. -/
def turnOf (command : String) : Turn := ⟨ascii command, ascii "5000", some 1, fun _ => true⟩

/-- A `/list` of an empty list, a `/wait`, and what the next `/list` does. -/
theorem server_tells_of_nobody_list :
    ∃ s t, Reachable (Server.step exampleMemory ⟨1, 3, 4⟩) anyStep .start s ∧ s.sent = [ascii "\n"] ∧
      s.step exampleMemory ⟨1, 3, 4⟩ (.turn (turnOf "/list")) = some t ∧ t.status = .undefined := by
  have hrun : ∃ s, Reachable (Server.step exampleMemory ⟨1, 3, 4⟩) anyStep .start s ∧
      s.status = .running ∧ s.sent = [ascii "\n"] ∧
      ∃ session ∈ s.thread, session.list.top ≠ none ∧ session.idHeld = false := by
    refine exists_reachable_of_replayIf [.accept true true true, .turn (turnOf "/list"),
      .turn (turnOf "/wait")] _ ?_
    decide
  obtain ⟨s, hs, hstatus, hsent, session, hsession, hwaits⟩ := hrun
  obtain ⟨t, ht, hiff⟩ := ((server_tells_of_nobody hs).2.2 session hsession hstatus).2 (turnOf "/list")
  refine ⟨s, t, hs, hsent, ht, hiff.mpr (Or.inr ⟨hwaits, ?_⟩)⟩
  exact ⟨(ascii "/list", []), by decide, Or.inl rfl⟩

end Server

end NetTools.Chat
