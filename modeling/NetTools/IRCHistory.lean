import NetTools.IRCWaitingSet

namespace NetTools.IRC

open CText CArray Schedule Registry

/-- A command line that has been answered. -/
structure Exchange where
  session : ℕ
  clientId : Bytes
  line : Bytes
  reply : Reply
  deriving DecidableEq

/-- The server with the command lines that each handler has received and with all exchanges. -/
structure Recorded where
  server : Server
  received : ℕ → List Bytes
  log : List Exchange

/-- The command line that a step reads. -/
def Action.lines : Action → List Bytes
  | .recvCommand _ data => if data = [] then [] else (lineIn bufferSize data).toList
  | _ => []

namespace Recorded

def start : Recorded := ⟨.start, fun _ => [], []⟩

/-- What a step adds to the log: a reply answers the last line that its handler received. -/
def exchangesOf (s : Recorded) (a : Action) (t : Server) : List Exchange :=
  match (s.received a.actor).getLast?, t.sessions a.actor with
  | some line, some ses =>
    (ses.outbox.drop (sentTo s.server a.actor).length).map fun r => ⟨a.actor, ses.clientId, line, r⟩
  | _, _ => []

/-- The record after a step of the server to `t`. -/
def after (s : Recorded) (a : Action) (t : Server) : Recorded where
  server := t
  received := Function.update s.received a.actor (s.received a.actor ++ a.lines)
  log := s.log ++ s.exchangesOf a t

def step (s : Recorded) (a : Action) : Option Recorded := (s.server.step a).map (s.after a)

/-- The exchanges of one session. -/
def exchanges (s : Recorded) (x : ℕ) : List Exchange := s.log.filter fun e => e.session = x

/-- A `/stop_wait` is executed only while its client is in the waiting list. -/
def StopsWaiter (s : Recorded) (a : Action) : Prop := IRC.StopsWaiter s.server a

instance (s : Recorded) (a : Action) : Decidable (s.StopsWaiter a) :=
  inferInstanceAs (Decidable (IRC.StopsWaiter s.server a))

end Recorded

/-- The command that a reply belongs to; the two replies to an id belong to none. -/
def Reply.command : Reply → Option Command
  | .idTaken | .connected _ => none
  | .noneWaiting | .waitingList _ => some .list
  | .waiting | .invalidPort | .alreadyWaiting => some .wait
  | .notWaiting | .connect _ _ => some .connect
  | .stoppedWaiting => some .stopWait
  | .badPrompt => some .badPrompt

/-- Whether `/connect` names an id; without an argument it may name any, as `target_id` is what the
stack holds. -/
def namesTarget (line targetId : Bytes) : Bool :=
  let token := (scanToken (line.drop 8)).1
  token = [] || token == targetId

/-- The waiting room as one thread would serve it: the room after an exchange, `none` where the
reply is not one that the room gives. -/
def roomAfter (room : OrderedSet Bytes) (e : Exchange) : Option (OrderedSet Bytes) :=
  if e.reply.command ≠ some (commandOf e.line) then none
  else match e.reply with
    | .noneWaiting => if room.toList = [] then some room else none
    | .waitingList ids => if room.toList = ids then some room else none
    | .waiting => if e.clientId ∈ room then none else some (room.insert e.clientId)
    | .invalidPort => if e.clientId ∈ room then none else some room
    | .alreadyWaiting => if e.clientId ∈ room then some room else none
    | .notWaiting =>
      let token := (scanToken (e.line.drop 8)).1
      if token ≠ [] ∧ token ∈ room then none else some room
    | .connect targetId _ =>
      if targetId ∈ room ∧ namesTarget e.line targetId then some (room.erase targetId) else none
    | .stoppedWaiting => if e.clientId ∈ room then some (room.erase e.clientId) else none
    | .badPrompt => some room
    | .idTaken | .connected _ => none

/-- The line that a handler in a phase has received and not answered. Nothing answers `/quit`. -/
inductive Pending : Phase → List Bytes → Prop
  | reading : Pending .reading []
  | running (line : Bytes) : Pending (.running line) [line]
  | listing {line : Bytes} (hc : commandOf line = .list) : Pending .listing [line]
  | portRecv {line : Bytes} (hc : commandOf line = .wait) : Pending .portRecv [line]
  | leaving : Pending .leaving []
  | gone : Pending .ended []
  | quit {line : Bytes} (hc : commandOf line = .quit) : Pending .ended [line]

/-- A registered session: it was sent one reply for each line it has received, but for those that
are pending, and the log holds these pairs in order. -/
structure Served (s : Recorded) (x : ℕ) (ses : Session) (pending : List Bytes) : Prop where
  sent : ses.outbox = .connected ses.clientId :: (s.exchanges x).map Exchange.reply
  received : s.received x = (s.exchanges x).map Exchange.line ++ pending
  exchanges : ∀ e ∈ s.exchanges x,
    e.clientId = ses.clientId ∧ e.reply.command = some (commandOf e.line)

/-- How what a session has sent and received stands in the log. -/
inductive Transcript (s : Recorded) (x : ℕ) (ses : Session) : Prop
  | opening (hp : ses.phase = .joining ∨ ses.phase = .registering) (ho : ses.outbox = [])
      (hr : s.received x = []) (he : s.exchanges x = [])
  | refused (hp : ses.phase = .ended) (ho : ses.outbox = [.idTaken]) (hr : s.received x = [])
      (he : s.exchanges x = [])
  | served {pending : List Bytes} (hp : Pending ses.phase pending) (h : Served s x ses pending)

section Log

variable {s : Recorded} {t : Server} {a : Action} {ses ses' : Session}

theorem sentTo_of_session {srv : Server} {x : ℕ} (hx : srv.sessions x = some ses) :
    sentTo srv x = ses.outbox := by
  rw [sentTo, hx]
  rfl

/-- A step whose actor says nothing adds nothing. -/
theorem exchangesOf_quiet (hx' : t.sessions a.actor = some ses')
    (ho : ses'.outbox = sentTo s.server a.actor) : s.exchangesOf a t = [] := by
  unfold Recorded.exchangesOf
  split
  · rename_i line ses₁ hline hses
    obtain rfl : ses₁ = ses' := Option.some.inj (hses.symm.trans hx')
    rw [ho, List.drop_length, List.map_nil]
  · rfl

/-- Before its first line a handler adds nothing, whatever it says. -/
theorem exchangesOf_of_received_nil (hr : s.received a.actor = []) : s.exchangesOf a t = [] := by
  simp only [Recorded.exchangesOf, hr, List.getLast?_nil]

/-- A reply answers the line received last. -/
theorem exchangesOf_say {lines : List Bytes} {line : Bytes} {r : Reply} {p : Phase}
    (hr : s.received a.actor = lines ++ [line]) (hx : s.server.sessions a.actor = some ses)
    (hx' : t.sessions a.actor = some (ses.say r p)) :
    s.exchangesOf a t = [⟨a.actor, ses.clientId, line, r⟩] := by
  have hout : (ses.say r p).outbox = ses.outbox ++ [r] := rfl
  simp only [Recorded.exchangesOf, hr, hx', List.getLast?_concat, sentTo_of_session hx, hout,
    List.drop_left, List.map_cons, List.map_nil]
  rfl

theorem session_exchangesOf {e : Exchange} (he : e ∈ s.exchangesOf a t) : e.session = a.actor := by
  unfold Recorded.exchangesOf at he
  split at he
  · obtain ⟨r, -, rfl⟩ := List.mem_map.mp he
    rfl
  · cases he

theorem exchanges_after_self :
    (s.after a t).exchanges a.actor = s.exchanges a.actor ++ s.exchangesOf a t := by
  have hall : (s.exchangesOf a t).filter (fun e => e.session = a.actor) = s.exchangesOf a t := by
    rw [List.filter_eq_self]
    intro e he
    simpa using session_exchangesOf he
  rw [Recorded.exchanges, Recorded.after, List.filter_append, hall]
  rfl

theorem exchanges_after_ne {y : ℕ} (hy : y ≠ a.actor) :
    (s.after a t).exchanges y = s.exchanges y := by
  have hnone : (s.exchangesOf a t).filter (fun e => e.session = y) = [] := by
    rw [List.filter_eq_nil_iff]
    intro e he
    simpa [session_exchangesOf he] using hy.symm
  rw [Recorded.exchanges, Recorded.after, List.filter_append, hnone, List.append_nil]
  rfl

theorem received_after_self :
    (s.after a t).received a.actor = s.received a.actor ++ a.lines :=
  Function.update_self _ _ _

theorem received_after_ne {y : ℕ} (hy : y ≠ a.actor) : (s.after a t).received y = s.received y :=
  Function.update_of_ne hy _ _

/-- Before its first line, a handler's record stays empty. -/
theorem after_opening (hr : s.received a.actor = []) (he : s.exchanges a.actor = [])
    (hl : a.lines = []) :
    (s.after a t).received a.actor = [] ∧ (s.after a t).exchanges a.actor = [] := by
  constructor
  · rw [received_after_self, hr, hl, List.append_nil]
  · rw [exchanges_after_self, he, exchangesOf_of_received_nil hr, List.append_nil]

/-- A step that says nothing only adds the line that it reads. -/
theorem Served.quiet {pending pending' : List Bytes} (h : Served s a.actor ses pending)
    (hx : s.server.sessions a.actor = some ses) (hx' : t.sessions a.actor = some ses')
    (ho : ses'.outbox = ses.outbox) (hid : ses'.clientId = ses.clientId)
    (hl : pending ++ a.lines = pending') : Served (s.after a t) a.actor ses' pending' := by
  have hnew : (s.after a t).exchanges a.actor = s.exchanges a.actor := by
    rw [exchanges_after_self, exchangesOf_quiet hx' (ho.trans (sentTo_of_session hx).symm),
      List.append_nil]
  constructor
  · rw [ho, hid, hnew, h.sent]
  · rw [received_after_self, hnew, h.received, List.append_assoc, hl]
  · rw [hnew, hid]
    exact h.exchanges

/-- A reply makes an exchange of the line that is pending. -/
theorem Served.answer {line : Bytes} {r : Reply} {p : Phase} (h : Served s a.actor ses [line])
    (hx : s.server.sessions a.actor = some ses) (hx' : t.sessions a.actor = some (ses.say r p))
    (hl : a.lines = []) (hr : r.command = some (commandOf line)) :
    Served (s.after a t) a.actor (ses.say r p) [] := by
  have hnew : (s.after a t).exchanges a.actor =
      s.exchanges a.actor ++ [⟨a.actor, ses.clientId, line, r⟩] := by
    rw [exchanges_after_self, exchangesOf_say h.received hx hx']
  constructor
  · rw [hnew, List.map_append]
    change ses.outbox ++ [r] = _
    rw [h.sent]
    rfl
  · rw [received_after_self, hl, hnew, h.received, List.map_append]
    rfl
  · intro e he
    rw [hnew, List.mem_append, List.mem_singleton] at he
    rcases he with he | rfl
    · exact h.exchanges e he
    · exact ⟨rfl, hr⟩

end Log

/-- Every session's transcript stands in the log. -/
structure Transcribed (s : Recorded) : Prop where
  absent : ∀ x, s.server.sessions x = none → s.received x = [] ∧ s.exchanges x = []
  present : ∀ x ses, s.server.sessions x = some ses → Transcript s x ses

section Transcribed

variable {s : Recorded} {x : ℕ} {ses : Session}

theorem transcribed_start : Transcribed .start := by
  constructor
  · intro x _
    exact ⟨rfl, rfl⟩
  · intro x ses hx
    cases hx

theorem Transcript.served_of (h : Transcript s x ses)
    (hp : ses.phase ≠ .joining ∧ ses.phase ≠ .registering ∧ ses.phase ≠ .ended) :
    ∃ pending, Pending ses.phase pending ∧ Served s x ses pending := by
  cases h with
  | opening hp' =>
    rcases hp' with hp' | hp'
    · exact absurd hp' hp.1
    · exact absurd hp' hp.2.1
  | refused hp' => exact absurd hp' hp.2.2
  | served hpend h => exact ⟨_, hpend, h⟩

theorem Transcribed.opening (hs : Transcribed s) (hx : s.server.sessions x = some ses)
    (hp : ses.phase = .joining ∨ ses.phase = .registering) :
    ses.outbox = [] ∧ s.received x = [] ∧ s.exchanges x = [] := by
  cases hs.present x ses hx with
  | opening _ ho hr he => exact ⟨ho, hr, he⟩
  | refused hp' => rcases hp with hp | hp <;> cases hp.symm.trans hp'
  | served hpend h => rcases hp with hp | hp <;> rw [hp] at hpend <;> cases hpend

theorem Transcribed.idle (hs : Transcribed s) (hx : s.server.sessions x = some ses)
    (hp : ses.phase = .reading ∨ ses.phase = .leaving) : Served s x ses [] := by
  have hne : ses.phase ≠ .joining ∧ ses.phase ≠ .registering ∧ ses.phase ≠ .ended := by
    rcases hp with hp | hp <;> simp [hp]
  obtain ⟨pending, hpend, h⟩ := (hs.present x ses hx).served_of hne
  rcases hp with hp | hp
  all_goals
    rw [hp] at hpend
    cases hpend
    exact h

theorem Transcribed.running {buffer : Bytes} (hs : Transcribed s) (hx : s.server.sessions x = some ses)
    (hp : ses.phase = .running buffer) : Served s x ses [buffer] := by
  obtain ⟨pending, hpend, h⟩ := (hs.present x ses hx).served_of (by simp [hp])
  rw [hp] at hpend
  cases hpend
  exact h

theorem Transcribed.listing (hs : Transcribed s) (hx : s.server.sessions x = some ses)
    (hp : ses.phase = .listing) : ∃ line, commandOf line = .list ∧ Served s x ses [line] := by
  obtain ⟨pending, hpend, h⟩ := (hs.present x ses hx).served_of (by simp [hp])
  rw [hp] at hpend
  cases hpend with
  | listing hc => exact ⟨_, hc, h⟩

theorem Transcribed.portRecv (hs : Transcribed s) (hx : s.server.sessions x = some ses)
    (hp : ses.phase = .portRecv) : ∃ line, commandOf line = .wait ∧ Served s x ses [line] := by
  obtain ⟨pending, hpend, h⟩ := (hs.present x ses hx).served_of (by simp [hp])
  rw [hp] at hpend
  cases hpend with
  | portRecv hc => exact ⟨_, hc, h⟩

/-- The step of a handler keeps its own transcript. -/
theorem Transcribed.actor {t : Server} {a : Action} (hs : Transcribed s) (h : Step s.server a t)
    (hx' : t.sessions a.actor = some ses) : Transcript (s.after a t) a.actor ses := by
  have hsame {ses' : Session} {x : ℕ} {srv : Server} (hx : (srv.put x ses').sessions x = some ses) :
      ses' = ses :=
    Option.some.inj ((put_sessions_self srv x ses').symm.trans hx)
  cases h with
  | @accept x socket hx hfd =>
    obtain rfl := hsame hx'
    obtain ⟨hr, he⟩ := after_opening (a := .accept x socket) (hs.absent x hx).1 (hs.absent x hx).2 rfl
    exact .opening (Or.inl rfl) rfl hr he
  | @recvId x ses₀ data id hx hp hl hid =>
    obtain rfl := hsame hx'
    obtain ⟨ho, hr, he⟩ := hs.opening hx (Or.inl hp)
    obtain ⟨hr', he'⟩ := after_opening (a := .recvId x data) hr he rfl
    exact .opening (Or.inr rfl) ho hr' he'
  | @refuse x ses₀ hx hp hm ht =>
    obtain rfl := hsame hx'
    obtain ⟨ho, hr, he⟩ := hs.opening hx (Or.inr hp)
    obtain ⟨hr', he'⟩ := after_opening (a := .register x) hr he rfl
    exact .refused rfl (congrArg (· ++ [Reply.idTaken]) ho) hr' he'
  | @register x ses₀ r hx hp hm ht hreg =>
    obtain rfl := hsame hx'
    obtain ⟨ho, hr, he⟩ := hs.opening hx (Or.inr hp)
    obtain ⟨hr', he'⟩ := after_opening (a := .register x) hr he rfl
    refine .served .reading ⟨?_, ?_, ?_⟩
    · rw [he']
      exact congrArg (· ++ [Reply.connected ses₀.clientId]) ho
    · rw [he', hr']
      rfl
    · rw [he']
      exact List.forall_mem_nil _
  -- steps that say nothing
  | hangUp hx hp =>
    obtain rfl := hsame hx'
    exact .served .leaving ((hs.idle hx (Or.inl hp)).quiet hx hx' rfl rfl rfl)
  | @recvCommand x ses₀ data buffer hx hp hl hne hb =>
    obtain rfl := hsame hx'
    have hlines : (Action.recvCommand x data).lines = [buffer] := by
      simp only [Action.lines, if_neg hne, hb, Option.toList_some]
    exact .served (.running buffer) ((hs.idle hx (Or.inl hp)).quiet hx hx' rfl rfl hlines)
  | removeClient hx hp =>
    obtain rfl := hsame hx'
    exact .served .gone ((hs.idle hx (Or.inr hp)).quiet hx hx' rfl rfl rfl)
  | listSome hx hp hc =>
    obtain rfl := hsame hx'
    exact .served (.listing hc) ((hs.running hx hp).quiet hx hx' rfl rfl rfl)
  | waitLock hx hp hc =>
    obtain rfl := hsame hx'
    exact .served (.portRecv hc) ((hs.running hx hp).quiet hx hx' rfl rfl rfl)
  | quit hx hp hc =>
    obtain rfl := hsame hx'
    exact .served (.quit hc) ((hs.running hx hp).quiet hx hx' rfl rfl rfl)
  -- steps that answer the pending line
  | listNone hx hp hc | waitAgain hx hp hc | connectNone hx hp hc | connect hx hp hc
  | stopWait hx hp hc | badPrompt hx hp hc =>
    obtain rfl := hsame hx'
    exact .served .reading ((hs.running hx hp).answer hx hx' rfl (congrArg some hc.symm))
  | sendList hx hp =>
    obtain rfl := hsame hx'
    obtain ⟨line, hc, h⟩ := hs.listing hx hp
    exact .served .reading (h.answer hx hx' rfl (congrArg some hc.symm))
  | portOk hx hp | portBad hx hp =>
    obtain rfl := hsame hx'
    obtain ⟨line, hc, h⟩ := hs.portRecv hx hp
    exact .served .reading (h.answer hx hx' rfl (congrArg some hc.symm))

/-- A session stands in the log as before when another one takes the step. -/
theorem Transcript.frame {t : Server} {a : Action} (h : Transcript s x ses) (hx : x ≠ a.actor) :
    Transcript (s.after a t) x ses := by
  have hr : (s.after a t).received x = s.received x := received_after_ne hx
  have he : (s.after a t).exchanges x = s.exchanges x := exchanges_after_ne hx
  cases h with
  | opening hp ho hr' he' => exact .opening hp ho (hr.trans hr') (he.trans he')
  | refused hp ho hr' he' => exact .refused hp ho (hr.trans hr') (he.trans he')
  | served hp h =>
    apply Transcript.served hp
    constructor
    · rw [he, h.sent]
    · rw [hr, he, h.received]
    · rw [he]
      exact h.exchanges

theorem Transcribed.after {t : Server} {a : Action} (hs : Transcribed s) (h : Step s.server a t) :
    Transcribed (s.after a t) := by
  constructor
  · intro y hy
    change t.sessions y = none at hy
    by_cases hya : y = a.actor
    · -- the actor has a session
      subst hya
      cases h <;> cases (put_sessions_self _ _ _).symm.trans hy
    · rw [h.sessions_ne hya] at hy
      rw [received_after_ne hya, exchanges_after_ne hya]
      exact hs.absent y hy
  · intro y ses hy
    change t.sessions y = some ses at hy
    by_cases hya : y = a.actor
    · subst hya
      exact hs.actor h hy
    · rw [h.sessions_ne hya] at hy
      exact (hs.present y ses hy).frame hya

end Transcribed

section Room

variable {s : Recorded} {t : Server} {a : Action} {ses : Session} {room : OrderedSet Bytes}

/-- One answer is one exchange with the room. -/
theorem replay_answer {line : Bytes} {r : Reply} {p : Phase} (h : Served s a.actor ses [line])
    (hx : s.server.sessions a.actor = some ses) (hx' : t.sessions a.actor = some (ses.say r p)) :
    (s.exchangesOf a t).foldlM roomAfter room = roomAfter room ⟨a.actor, ses.clientId, line, r⟩ := by
  rw [exchangesOf_say h.received hx hx']
  exact bind_pure _

theorem stopsWaiter_of_ne {srv : Server} {x : ℕ} {buffer g : Bytes} {k : Int}
    (hx : srv.sessions x = some ses) (hp : ses.phase = .running buffer)
    (hc : commandOf buffer ≠ .stopWait) : StopsWaiter srv (.exec x g k) := by
  intro ses' hx' buffer' hb hc'
  obtain rfl : ses' = ses := Option.some.inj (hx'.symm.trans hx)
  rw [Session.mem_pending, hp, Phase.running.injEq] at hb
  exact absurd (hb ▸ hc') hc

/-- The target of a `/connect` with an argument is that argument. -/
theorem connectTarget_token {line stackId targetId : Bytes}
    (h : connectTarget line stackId = some targetId) (hne : (scanToken (line.drop 8)).1 ≠ []) :
    (scanToken (line.drop 8)).1 = targetId := by
  unfold connectTarget at h
  simp only [if_neg hne] at h
  split_ifs at h
  exact Option.some.inj h

theorem namesTarget_of_connectTarget {line stackId targetId : Bytes}
    (h : connectTarget line stackId = some targetId) : namesTarget line targetId = true := by
  by_cases hne : (scanToken (line.drop 8)).1 = []
  · simp [namesTarget, hne]
  · simp [namesTarget, connectTarget_token h hne]

/-- The room gives the replies that the server sends, and only a stray `/stop_wait` gets one that it
does not give. -/
theorem replay_step (hs : Transcribed s) (hlock : WaitLock s.server)
    (hroom : Represents s.server.registry room) (h : Step s.server a t) (room' : OrderedSet Bytes) :
    (s.exchangesOf a t).foldlM roomAfter room = some room' ↔
      s.StopsWaiter a ∧ room' = (waitingChange s.server a).apply room := by
  have hmem (id : Bytes) : id ∈ room ↔ id ∈ s.server.registry.waiting := by
    rw [OrderedSet.mem_def, hroom.1]
  -- every case but one is orderly, and then it is enough to serve what the step has logged
  have hiff (hstop : s.StopsWaiter a)
      (hserve : (s.exchangesOf a t).foldlM roomAfter room =
        some ((waitingChange s.server a).apply room)) :
      (s.exchangesOf a t).foldlM roomAfter room = some room' ↔
        s.StopsWaiter a ∧ room' = (waitingChange s.server a).apply room := by
    rw [hserve, Option.some.injEq, eq_comm]
    exact (and_iff_right hstop).symm
  -- without a reply nothing is logged, and a reply logs one exchange
  have hquiet {x : ℕ} {ses ses' : Session} (hx : s.server.sessions x = some ses)
      (ha : a.actor = x) (hx' : t.sessions x = some ses') (ho : ses'.outbox = ses.outbox)
      (hch : (waitingChange s.server a).apply room = room) :
      (s.exchangesOf a t).foldlM roomAfter room = some ((waitingChange s.server a).apply room) := by
    subst ha
    rw [exchangesOf_quiet hx' (ho.trans (sentTo_of_session hx).symm), hch]
    rfl
  have hanswer {x : ℕ} {ses : Session} {line : Bytes} {r : Reply} {p : Phase}
      (h : Served s x ses [line]) (ha : a.actor = x) (hx : s.server.sessions x = some ses)
      (hx' : t.sessions x = some (ses.say r p)) :
      (s.exchangesOf a t).foldlM roomAfter room = roomAfter room ⟨x, ses.clientId, line, r⟩ := by
    subst ha
    exact replay_answer h hx hx'
  cases h with
  | @accept x socket hx hfd =>
    apply hiff trivial
    rw [exchangesOf_of_received_nil (hs.absent x hx).1]
    rfl
  | @refuse x ses hx hp hm ht =>
    apply hiff trivial
    rw [exchangesOf_of_received_nil (hs.opening hx (Or.inr hp)).2.1]
    rfl
  | @register x ses r hx hp hm ht hr =>
    apply hiff trivial
    rw [exchangesOf_of_received_nil (hs.opening hx (Or.inr hp)).2.1]
    rfl
  | recvId hx | hangUp hx | recvCommand hx | removeClient hx =>
    exact hiff trivial (hquiet hx rfl (put_sessions_self _ _ _) rfl rfl)
  | listSome hx hp hc | waitLock hx hp hc | quit hx hp hc =>
    apply hiff (stopsWaiter_of_ne hx hp (by simp [hc]))
    apply hquiet hx rfl (put_sessions_self _ _ _) rfl
    rw [waitingChange_exec hx hp, hc]
    rfl
  | listNone hx hp hc hw =>
    apply hiff (stopsWaiter_of_ne hx hp (by simp [hc]))
    have hnil : room.toList = [] := by
      apply List.eq_nil_of_length_eq_zero
      have hlen := hroom.2
      omega
    rw [hanswer (hs.running hx hp) rfl hx (put_sessions_self _ _ _), waitingChange_exec hx hp, hc]
    simp [roomAfter, Reply.command, hc, hnil, WaitingChange.apply]
  | sendList hx hp =>
    apply hiff trivial
    obtain ⟨line, hc, h⟩ := hs.listing hx hp
    rw [hanswer h rfl hx (put_sessions_self _ _ _)]
    simp [roomAfter, Reply.command, hc, hroom.1, waitingChange, WaitingChange.apply]
  | waitAgain hx hp hc hm hi =>
    apply hiff (stopsWaiter_of_ne hx hp (by simp [hc]))
    have hin := (hmem _).mpr (mem_waiting.mpr ⟨_, waitingIndex_some hi⟩)
    rw [hanswer (hs.running hx hp) rfl hx (put_sessions_self _ _ _), waitingChange_exec hx hp, hc]
    simp [roomAfter, Reply.command, hc, hin, WaitingChange.apply]
  | @portOk x ses data r hx hp hm hl hport hr =>
    apply hiff trivial
    obtain ⟨line, hc, h⟩ := hs.portRecv hx hp
    have hout : ses.clientId ∉ room := fun hin => (hlock.holder x ses hx hp).2 ((hmem _).mp hin)
    rw [hanswer h rfl hx (put_sessions_self _ _ _)]
    simp [roomAfter, Reply.command, hc, hout, waitingChange, hx, hport, WaitingChange.apply]
  | @portBad x ses data hx hp hm hl hport =>
    apply hiff trivial
    obtain ⟨line, hc, h⟩ := hs.portRecv hx hp
    have hout : ses.clientId ∉ room := fun hin => (hlock.holder x ses hx hp).2 ((hmem _).mp hin)
    rw [hanswer h rfl hx (put_sessions_self _ _ _)]
    simp [roomAfter, Reply.command, hc, hout, waitingChange, hx, hport, WaitingChange.apply]
  | @connectNone x ses buffer g targetId k hx hp hc hm ht hi =>
    apply hiff (stopsWaiter_of_ne hx hp (by simp [hc]))
    have hout : targetId ∉ room := fun hin => waitingIndex_none_iff.mp hi ((hmem _).mp hin)
    -- the room reads the word of the line, the handler the target that was left in its buffer
    have hasked : ¬ ((scanToken (buffer.drop 8)).1 ≠ [] ∧ (scanToken (buffer.drop 8)).1 ∈ room) := by
      intro hin
      exact hout (connectTarget_token ht hin.1 ▸ hin.2)
    rw [hanswer (hs.running hx hp) rfl hx (put_sessions_self _ _ _), waitingChange_exec hx hp, hc, ht]
    simp only [roomAfter, Reply.command, hc, ne_eq, not_true_eq_false, ↓reduceIte, WaitingChange.apply,
      OrderedSet.erase_of_notMem hout]
    exact if_neg hasked
  | @connect x i ses buffer g targetId k r hx hp hc hm ht hi hr =>
    apply hiff (stopsWaiter_of_ne hx hp (by simp [hc]))
    have hin := (hmem _).mpr (mem_waiting.mpr ⟨_, waitingIndex_some hi⟩)
    rw [hanswer (hs.running hx hp) rfl hx (put_sessions_self _ _ _), waitingChange_exec hx hp, hc, ht]
    simp [roomAfter, Reply.command, hc, hin, namesTarget_of_connectTarget ht, WaitingChange.apply]
  | @stopWait x ses buffer g k r hx hp hc hm hr =>
    -- the room refuses a `/stop_wait` of an id that it does not hold
    have hstop : s.StopsWaiter (.exec x g k) ↔ ses.clientId ∈ room := by
      rw [hmem]
      constructor
      · intro hw
        exact hw ses hx buffer (Session.mem_pending.mpr hp) hc
      · intro hin ses' hx' _ _ _
        rwa [Option.some.inj (hx'.symm.trans hx)]
    rw [hanswer (hs.running hx hp) rfl hx (put_sessions_self _ _ _), waitingChange_exec hx hp, hc,
      hstop]
    by_cases hin : ses.clientId ∈ room
    · simp [roomAfter, Reply.command, hc, hin, WaitingChange.apply, eq_comm]
    · simp [roomAfter, Reply.command, hc, hin]
  | badPrompt hx hp hc =>
    apply hiff (stopsWaiter_of_ne hx hp (by simp [hc]))
    rw [hanswer (hs.running hx hp) rfl hx (put_sessions_self _ _ _), waitingChange_exec hx hp, hc]
    simp [roomAfter, Reply.command, hc, WaitingChange.apply]

/-- What the record of a run shows: the transcripts, and the waiting room where it gives all the
replies. -/
structure Consistent (s : Recorded) : Prop where
  transcribed : Transcribed s
  lock : WaitLock s.server
  represents : ∀ room, s.log.foldlM roomAfter .empty = some room → Represents s.server.registry room

/-- The whole log after a step. -/
theorem replay_after {room' : OrderedSet Bytes} :
    (s.after a t).log.foldlM roomAfter .empty = some room' ↔
      ∃ room, s.log.foldlM roomAfter .empty = some room ∧
        (s.exchangesOf a t).foldlM roomAfter room = some room' := by
  rw [Recorded.after, List.foldlM_append]
  exact Option.bind_eq_some_iff

theorem Consistent.after (hs : Consistent s) (h : Step s.server a t) : Consistent (s.after a t) := by
  refine ⟨hs.transcribed.after h, waitLock_step hs.lock h, ?_⟩
  intro room' hreplay
  obtain ⟨room, hroom, hstep⟩ := replay_after.mp hreplay
  have hrep := hs.represents room hroom
  obtain ⟨hstop, rfl⟩ := (replay_step hs.transcribed hs.lock hrep h room').mp hstep
  exact hrep.step hs.lock h hstop

theorem consistent_of_reachable {C : Recorded → Action → Prop} {s : Recorded}
    (h : Reachable Recorded.step C .start s) : Consistent s := by
  apply h.invariant
  · refine ⟨transcribed_start, waitLock_start, ?_⟩
    intro room hreplay
    cases hreplay
    exact represents_empty
  · intro s a t hs _ hstep
    obtain ⟨u, hu, rfl⟩ := Option.map_eq_some_iff.mp hstep
    exact hs.after (step_cases hu)

end Room

/-- In every run and for every client, the server sends one reply to each command line that it
receives, in the order of the lines and of the kind that the line asks for. Only the line it is
working on, or a `/quit`, has none. -/
theorem replies_answer_lines (s : Recorded) (h : Reachable Recorded.step anyStep .start s) (x : ℕ)
    (ses : Session) (hx : s.server.sessions x = some ses) : Transcript s x ses :=
  (consistent_of_reachable h).transcribed.present x ses hx

/-- `a` waits, `b` lists it and connects to it, and `a` stops waiting too late. -/
def lateStopRun : List Action :=
  joinAs 0 "a" ++ joinAs 1 "b" ++ waitOn 0 "5001" ++ command 1 "/list" ++ [.sendList 1] ++
    command 1 "/connect a" ++ command 0 "/stop_wait" ++ [.recvCommand 1 (ascii "/quit")]

set_option maxRecDepth 4096 in
/-- The transcript of `b` in that run. -/
theorem replies_answer_lines_lateStop :
    ∃ s ses, Reachable Recorded.step anyStep .start s ∧ s.server.sessions 1 = some ses ∧
      s.received 1 = [ascii "/list", ascii "/connect a", ascii "/quit"] ∧
      ses.outbox = [.connected (ascii "b"), .waitingList [ascii "a"], .connect (ascii "a") 5001] ∧
      Transcript s 1 ses := by
  have hrun : ∃ s, Reachable Recorded.step anyStep .start s ∧
      (s.received 1 = [ascii "/list", ascii "/connect a", ascii "/quit"] ∧
        (s.server.sessions 1).map Session.outbox =
          some [.connected (ascii "b"), .waitingList [ascii "a"], .connect (ascii "a") 5001]) := by
    refine exists_reachable_of_replayIf lateStopRun _ ?_
    decide
  obtain ⟨s, hs, hreceived, hout⟩ := hrun
  obtain ⟨ses, hx, ho⟩ := Option.map_eq_some_iff.mp hout
  exact ⟨s, ses, hs, hx, hreceived, ho, replies_answer_lines s hs 1 ses hx⟩

end NetTools.IRC
