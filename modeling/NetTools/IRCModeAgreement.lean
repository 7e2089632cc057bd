import NetTools.IRCServed

namespace NetTools.IRC

open CText Schedule Registry

variable {s t : System} {x : ℕ} {c : ClientProcess}

theorem systemOk_start : SystemOk .start where
  waitLock := waitLock_start
  unknown _ _ := ⟨rfl, rfl, rfl⟩
  distinct _ _ _ _ hx := by cases hx
  clients _ _ hc := by cases hc

theorem typeLine_eq {c' : ClientProcess} {line : Bytes} (h : (c.typeLine line).1 = some c') :
    c'.id = c.id ∧ c'.serverThread = c.serverThread ∧ ∀ m ∈ (c.typeLine line).2, m = line := by
  unfold ClientProcess.typeLine at h ⊢
  split_ifs at h ⊢ <;> cases h <;> simp

theorem accepted_eq (peerId : Bytes) : (c.accepted peerId).id = c.id ∧
    (c.accepted peerId).serverThread = c.serverThread := by
  unfold ClientProcess.accepted
  split_ifs <;> exact ⟨rfl, rfl⟩

theorem SystemOk.typesLine {line : Bytes} (h : SystemOk s) (hc : s.processes x = some c)
    (ho : Orderly s (.typeLine x line)) (hopen : c.opening = false) (hline : IsLine line) :
    SystemOk ((s.setProcess x (c.typeLine line).1).send x (c.typeLine line).2) := by
  cases hp : (c.typeLine line).1 with
  | none =>
    have hquit : startsWith line (ascii "/quit") = true := by
      by_contra hq
      unfold ClientProcess.typeLine at hp
      rw [if_neg hq] at hp
      split_ifs at hp
    have hsent : (c.typeLine line).2 = [] := by rw [ClientProcess.typeLine, if_pos hquit]
    rw [hsent, send_nil]
    have hexits := h.exits hc (ho.1 hquit) (s.toClient x)
    rw [System.setToClient, Function.update_eq_self] at hexits
    exact hexits
  | some c' =>
    obtain ⟨hid, hthread, hsent⟩ := typeLine_eq hp
    refine h.acts hc hid (by rw [hthread]) (fun m hm => hsent m hm ▸ hline) fun p e he => ?_
    exact he.typeLine hopen hp fun hstop => ho.2 hstop c hc

theorem SystemOk.recvsServer {data : Bytes} (h : SystemOk s) (hc : s.processes x = some c)
    (hthread : c.serverThread = .receiving) (ho : Orderly s (.recvServer x data))
    (hs : s.recvServer x c data = some t) : SystemOk t := by
  unfold System.recvServer at hs
  split_ifs at hs with hd hclosed
  · cases hs
    have hexits := h.exits hc (ho.2 (Or.inl hd)) (s.toClient x)
    rw [System.setToClient, Function.update_eq_self] at hexits
    exact hexits
  · obtain ⟨rest, hrest, hs⟩ := Option.bind_eq_some_iff.mp hs
    obtain ⟨message, hmessage, rfl⟩ := Option.map_eq_some_iff.mp hs
    obtain ⟨sends, hsends⟩ := List.head?_eq_some_iff.mp (ho.1.resolve_left hd)
    rw [hsends, takeFrom_self hd, Option.some.injEq] at hrest
    subst hrest
    -- the thread is about to read the head of the stream, and has no target of its own yet
    have hold : s.targets x = ((serverMessage data).bind ServerMessage.target).toList ++
        sends.filterMap fun m => (serverMessage m).bind ServerMessage.target := by
      rw [targets_of_process hc, hsends, hthread, List.filterMap_cons]
      cases (serverMessage data).bind ServerMessage.target <;> simp [ServerThread.target]
    cases message with
    | idTaken => exact h.exits hc (ho.2 (Or.inr hmessage)) sends
    | connect peerId peerPort =>
      refine h.hears hc rfl ?_ fun id hid => ?_
      · intro p e he
        refine he.congr rfl rfl rfl ?_
        rw [ClientProcess.talks, ClientProcess.talks, hthread]
        rfl
      · rw [hold, hmessage] at hid
        rw [targets_setProcess_self]
        simp only [System.setToClient, Function.update_self]
        exact List.mem_append.mpr (List.mem_append.mp hid).symm
    | other =>
      have hsame : s.setToClient x sends = (s.setToClient x sends).setProcess x (some c) := by
        simp only [System.setProcess, System.setToClient, ← hc, Function.update_eq_self]
      rw [hsame]
      refine h.hears hc rfl (fun p e he => he) fun id hid => ?_
      rw [hold, hmessage] at hid
      rw [targets_setProcess_self]
      simp only [System.setToClient, Function.update_self]
      exact List.mem_append_left _ hid

/-- Every orderly step keeps the invariant. -/
theorem SystemOk.step {e : Event} (h : SystemOk s) (ho : Orderly s e) (hs : s.step e = some t) :
    SystemOk t := by
  cases e with
  | server a =>
    obtain ⟨toServer, hts, hs⟩ := Option.bind_eq_some_iff.mp hs
    obtain ⟨u, hu, rfl⟩ := Option.map_eq_some_iff.mp hs
    have hstep := step_cases hu
    exact h.serves hstep hts (fun _ hx hl => actor_inLoop hstep ho hx hl)
      (fun _ hc => h.actor hstep hts ho hc) fun _ _ hy hc => h.others hstep hts ho hy hc
  | start x id =>
    simp only [System.step, Option.ite_none_right_eq_some, Option.some.injEq] at hs
    obtain ⟨⟨hx, -⟩, rfl⟩ := hs
    exact h.joins hx ho
  | typeLine x line =>
    obtain ⟨c, hc, hs⟩ := Option.bind_eq_some_iff.mp hs
    simp only [Option.ite_none_right_eq_some, Option.some.injEq] at hs
    obtain ⟨⟨hopen, hline⟩, rfl⟩ := hs
    exact h.typesLine hc ho hopen hline
  | sigint x =>
    obtain ⟨c, hc, rfl⟩ := Option.map_eq_some_iff.mp hs
    -- all that the handler may send to the server is a `/stop_wait`
    have hsigint : c.sigint.1.id = c.id ∧ c.sigint.1.serverThread = c.serverThread ∧
        ∀ m ∈ c.sigint.2, m = ascii "/stop_wait" := by
      unfold ClientProcess.sigint
      split <;> simp
    refine h.acts hc hsigint.1 (by rw [hsigint.2.1]) ?_ fun p e he => he.sigint
    intro m hm
    rw [hsigint.2.2 m hm]
    decide
  | bindFails x =>
    obtain ⟨c, hc, hs⟩ := Option.bind_eq_some_iff.mp hs
    simp only [Option.ite_none_right_eq_some, Option.some.injEq] at hs
    obtain ⟨hopen, rfl⟩ := hs
    exact h.goesOn hc rfl rfl fun p e he => he.bindFails (ho c hc)
  | announce x port =>
    obtain ⟨c, hc, hs⟩ := Option.bind_eq_some_iff.mp hs
    simp only [Option.ite_none_right_eq_some, Option.some.injEq] at hs
    obtain ⟨⟨hopen, hport, hpos⟩, rfl⟩ := hs
    refine h.acts hc rfl rfl ?_ fun p e he => he.announce hopen hport hpos
    intro m hm
    rw [List.mem_singleton.mp hm]
    exact isLine_decimal hport
  | recvServer x data =>
    obtain ⟨c, hc, hs⟩ := Option.bind_eq_some_iff.mp hs
    simp only [Option.ite_none_right_eq_some] at hs
    exact h.recvsServer hc hs.1.1 ho hs.2
  | connect x y =>
    obtain ⟨c, hc, hs⟩ := Option.bind_eq_some_iff.mp hs
    obtain ⟨d, hd, hs⟩ := Option.bind_eq_some_iff.mp hs
    split at hs
    · rename_i peerId port hth
      simp only [Option.ite_none_right_eq_some, Option.some.injEq] at hs
      obtain ⟨-, rfl⟩ := hs
      obtain ⟨hm, howed⟩ := ho c hc
      have howed := howed peerId (target_connecting hth)
      -- the client that is owed the connection is in WAIT mode, this one in INFO mode
      have hxy : x ≠ y := by
        rintro rfl
        obtain ⟨-, -, c', hc', -, hm', -⟩ := howed
        rw [Option.some.inj (hc'.symm.trans hc), hm] at hm'
        cases hm'
      rw [System.modify, processes_setProcess_ne _ hxy, hc]
      exact h.connects hc hd hth hm howed
    · cases hs
  | connectFails x =>
    obtain ⟨c, hc, hs⟩ := Option.bind_eq_some_iff.mp hs
    split at hs
    · rename_i peerId port hth
      cases hs
      exact h.connectFails hc hth (ho c hc peerId (target_connecting hth))
    · cases hs
  | acceptPeer x =>
    obtain ⟨c, hc, hs⟩ := Option.bind_eq_some_iff.mp hs
    split at hs
    · rename_i peerId rest hb
      simp only [Option.ite_none_right_eq_some, Option.some.injEq] at hs
      obtain ⟨-, rfl⟩ := hs
      obtain ⟨hid, hthread⟩ := accepted_eq (c := { c with backlog := rest }) peerId
      exact h.goesOn hc hid (by rw [hthread]) fun p e he => he.accepted hb
    · cases hs
  | acceptFails x =>
    obtain ⟨c, hc, hs⟩ := Option.bind_eq_some_iff.mp hs
    simp only [Option.ite_none_right_eq_some, Option.some.injEq] at hs
    obtain ⟨-, rfl⟩ := hs
    exact h.goesOn hc rfl rfl fun p e he => he.congr rfl rfl rfl rfl
  | leave x own =>
    obtain ⟨c, hc, hs⟩ := Option.bind_eq_some_iff.mp hs
    split_ifs at hs with hown hjoin htalk
    · cases hs
      refine h.goesOn hc rfl (by rw [hjoin]; rfl) fun p e he => he.leaves rfl rfl ?_
      rw [ClientProcess.talks, ClientProcess.talks, hjoin, if_pos rfl, if_neg (by simp)]
      dsimp only
      omega
    · cases hs
      refine h.goesOn hc rfl rfl fun p e he => he.leaves rfl rfl ?_
      unfold ClientProcess.talks
      dsimp only
      omega

theorem systemOk_of_reachable (h : Reachable System.step Orderly .start s) : SystemOk s :=
  h.invariant systemOk_start fun _ _ _ hs ho hstep => hs.step ho hstep

/-- In a quiescent state nobody is about to connect. -/
theorem not_named_of_quiescent (h : SystemOk s) (hq : s.Quiescent) (id : Bytes) : ¬ s.Named id := by
  rintro ⟨z, hz, hid⟩
  obtain ⟨d, hd⟩ := Option.isSome_iff_exists.mp hz
  obtain ⟨-, hclient, -, hprocess⟩ := hq z (h.mem_started hd)
  rw [targets_of_process hd, hclient] at hid
  rcases (hprocess d hd).2.2 with hth | hth <;> rw [hth] at hid <;> cases hid

/-- For any number of clients and in every orderly run: when nothing is under way, a
connected client is in WAIT mode exactly when its id is in the waiting list. -/
theorem wait_mode_iff_listed (s : System) (h : Reachable System.step Orderly .start s)
    (hq : s.Quiescent) (x : ℕ) (c : ClientProcess) (ses : Session) (hc : s.processes x = some c)
    (hx : s.server.sessions x = some ses) (hp : ses.phase = .reading) :
    c.mode = .wait ↔ c.id ∈ s.server.registry.waiting := by
  have hsystem := systemOk_of_reachable h
  have hok := hsystem.clients x c hc
  obtain ⟨hstream, -, -, hprocess⟩ := hq x (hsystem.mem_started hc)
  have hbacklog := (hprocess c hc).2.1
  have hl : ses.phase.inLoop = true := by rw [hp]; rfl
  have hin := hok.inStep.resolve_left (not_refused hx (by simp [hp]))
  -- with nothing to execute, the outlook is the place of the client itself
  have hun : s.unexecuted x = [] := by
    simp only [System.unexecuted, hx, Option.map_some, hp, hstream]
  rw [System.outlook, hun, standing_inLoop hx hl (by simp [hp]), hok.clientId hx hl] at hin
  by_cases hmem : c.id ∈ s.server.registry.waiting
  · rw [if_pos hmem] at hin
    cases hin with
    | waiting hm => exact ⟨fun _ => hmem, fun _ => hm⟩
  · rw [if_neg hmem] at hin
    cases hin with
    | idle hm => exact ⟨fun hwait => absurd hwait hm, fun hlisted => absurd hlisted hmem⟩
    -- taken off the list, and neither named by a `CONNECT` nor in the backlog: not quiescent
    | taken hm ho ht hb =>
      rcases hb with ⟨-, -, hnamed⟩ | ⟨peerId, -, hb⟩
      · exact absurd hnamed (not_named_of_quiescent hsystem hq c.id)
      · rw [hbacklog] at hb
        cases hb

/-- A process starts and registers. -/
def joinSystem (x : ℕ) (id : String) : List Event :=
  [.start x (ascii id), .server (.accept x (4+x)), .server (.recvId x (ascii id)),
    .server (.register x), .recvServer x (Reply.connected (ascii id)).text]

/-- A line is typed and its command executed. -/
def typed (x : ℕ) (line : String) : List Event :=
  [.typeLine x (ascii line), .server (.recvCommand x (ascii line)), .server (.exec x [] 0)]

/-- A client waits. -/
def waits (x port : ℕ) : List Event :=
  typed x "/wait" ++ [.announce x port, .server (.recvPort x (decimal port)),
    .recvServer x Reply.waiting.text]

set_option maxRecDepth 8192 in
/-- `b` connects to `a`, they part, both wait, and `a` stops waiting. -/
theorem wait_mode_iff_listed_two :
    ∃ s c, Reachable System.step Orderly .start s ∧ s.Quiescent ∧ s.processes 1 = some c ∧
      c.mode = .wait ∧ c.id ∈ s.server.registry.waiting := by
  have hrun : ∃ s, Reachable System.step Orderly .start s ∧ s.Quiescent ∧
      ∃ c ∈ s.processes 1, c.mode = .wait ∧
        ∃ ses ∈ s.server.sessions 1, ses.phase = .reading := by
    refine exists_reachable_of_replayIf (joinSystem 0 "a" ++ joinSystem 1 "b" ++ waits 0 5001 ++
      typed 1 "/connect a" ++ [.recvServer 1 (Reply.connect (ascii "a") 5001).text, .connect 1 0,
        .acceptPeer 0, .leave 0 false, .leave 1 true] ++ waits 0 5002 ++
      [.sigint 0, .server (.recvCommand 0 (ascii "/stop_wait")), .server (.exec 0 [] 0),
        .recvServer 0 Reply.stoppedWaiting.text] ++ waits 1 5003) _ ?_
    decide
  obtain ⟨s, hs, hq, c, hc, hm, ses, hx, hp⟩ := hrun
  exact ⟨s, c, hs, hq, hc, hm, (wait_mode_iff_listed s hs hq 1 c ses hc hx hp).mp hm⟩

set_option maxRecDepth 4096 in
/-- `bind` fails: the client stays in WAIT mode, and the server takes its next line for the
port that never came. -/
theorem failed_bind_leaves_wait_mode :
    ∃ s, Reachable System.step anyStep .start s ∧ s.Quiescent ∧
      ∃ c ∈ s.processes 0, c.mode = .wait ∧ c.id ∉ s.server.registry.waiting ∧
        ∃ ses ∈ s.server.sessions 0, ses.phase = .reading := by
  refine exists_reachable_of_replayIf (joinSystem 0 "a" ++ typed 0 "/wait" ++
    [.bindFails 0, .typeLine 0 (ascii "/list"), .server (.recvPort 0 (ascii "/list")),
      .recvServer 0 Reply.invalidPort.text]) _ ?_
  decide

end NetTools.IRC
