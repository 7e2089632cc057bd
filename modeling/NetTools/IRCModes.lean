import NetTools.IRCAgreement

namespace NetTools.IRC

open CText Schedule Registry

section Named

variable {s t : System} {x : ℕ} {c c' : ClientProcess} {id : Bytes}

@[simp] theorem processes_setProcess_self (p : Option ClientProcess) :
    (s.setProcess x p).processes x = p :=
  Function.update_self _ _ _

theorem processes_setProcess_ne {y : ℕ} (p : Option ClientProcess) (h : y ≠ x) :
    (s.setProcess x p).processes y = s.processes y :=
  Function.update_of_ne h _ _

theorem named_mono (hn : s.Named id) (h : ∀ z, (s.processes z).isSome → id ∈ s.targets z →
    (t.processes z).isSome ∧ id ∈ t.targets z) : t.Named id := by
  obtain ⟨z, hz, hid⟩ := hn
  obtain ⟨hz', hid'⟩ := h z hz hid
  exact ⟨z, hz', hid'⟩

theorem targets_setProcess_ne {y : ℕ} (p : Option ClientProcess) (h : y ≠ x) :
    (s.setProcess x p).targets y = s.targets y := by
  simp only [System.targets, System.setProcess, Function.update_of_ne h]

theorem targets_setProcess_self :
    (s.setProcess x (some c')).targets x =
      (s.toClient x).filterMap (fun m => (serverMessage m).bind ServerMessage.target) ++
        c'.serverThread.target.toList := by
  simp only [System.targets, System.setProcess, Function.update_self, Option.bind_some]

theorem targets_of_process (hc : s.processes x = some c) : s.targets x =
    (s.toClient x).filterMap (fun m => (serverMessage m).bind ServerMessage.target) ++
      c.serverThread.target.toList := by
  rw [System.targets, hc, Option.bind_some]

/-- A process that goes on with the name it is told to connect to, if it is this one. -/
theorem named_setProcess_of_target (hn : s.Named id) (hc : s.processes x = some c)
    (ht : id ∈ c.serverThread.target → id ∈ c'.serverThread.target) :
    (s.setProcess x (some c')).Named id := by
  refine named_mono hn fun z hz hid => ?_
  by_cases hzx : z = x
  · subst hzx
    refine ⟨by rw [processes_setProcess_self]; rfl, ?_⟩
    rw [targets_of_process hc, List.mem_append, Option.mem_toList] at hid
    rw [targets_setProcess_self, List.mem_append, Option.mem_toList]
    exact hid.imp_right ht
  · rw [targets_setProcess_ne _ hzx]
    rw [processes_setProcess_ne _ hzx]
    exact ⟨hz, hid⟩

/-- A process that goes on with what it is told to connect to. -/
theorem named_setProcess (hn : s.Named id) (hc : s.processes x = some c)
    (ht : c'.serverThread.target = c.serverThread.target) : (s.setProcess x (some c')).Named id := by
  apply named_setProcess_of_target hn hc
  rw [ht]
  exact fun hid => hid

theorem target_connecting {peerId : Bytes} {port : Int}
    (hth : c.serverThread = .connecting peerId port) : c.serverThread.target = some peerId := by
  rw [hth]
  rfl

/-- The end of a `connect` takes away the name of its peer alone. -/
theorem named_connecting {peerId : Bytes} {port : Int} (hn : s.Named id)
    (hc : s.processes x = some c) (hth : c.serverThread = .connecting peerId port)
    (hne : id ≠ peerId) : (s.setProcess x (some c')).Named id := by
  apply named_setProcess_of_target hn hc
  intro hid
  rw [target_connecting hth, Option.mem_some_iff] at hid
  exact absurd hid.symm hne

end Named

section Client

variable {s t : System} {x : ℕ} {c c' : ClientProcess}

/-- A step of the clients alone. -/
theorem SystemOk.client (h : SystemOk s) (hserver : t.server = s.server)
    (hunknown : ∀ y, y ∉ t.started → t.processes y = none ∧ t.toServer y = [] ∧ y ∉ s.started)
    (hclients : ∀ y c, t.processes y = some c → ClientOk t y c ∨
      (s.processes y = some c ∧ t.toServer y = s.toServer y ∧
        (s.Owed c.id y → s.Named c.id → t.Named c.id))) : SystemOk t := by
  refine ⟨hserver ▸ h.waitLock, ?_, ?_, ?_⟩
  · intro y hy
    obtain ⟨hp, hto, hy'⟩ := hunknown y hy
    exact ⟨by rw [hserver]; exact (h.unknown y hy').1, hp, hto⟩
  · rw [hserver]
    exact h.distinct
  · intro y c hc
    rcases hclients y c hc with hok | ⟨hc', hto, hnamed⟩
    · exact hok
    · refine (h.clients y c hc').other hc' (by rw [hserver]) hto ?_ hnamed
      intro ses _ _
      rw [hserver]

/-- A client appends messages that its handler has not received yet. -/
theorem unexecuted_append {l : List Bytes} (h : Linked s x c) (hserver : t.server = s.server)
    (hto : t.toServer x = s.toServer x ++ l) : t.unexecuted x = s.unexecuted x ++ l := by
  have htail (hid : (s.toServer x).head? = some c.id) :
      (s.toServer x ++ l).tail = (s.toServer x).tail ++ l := by
    refine List.tail_append_of_ne_nil ?_
    rintro hnil
    rw [hnil] at hid
    cases hid
  -- the id that `recvId` is still to take is the head of the stream, so the append is behind it
  unfold Linked at h
  simp only [System.unexecuted, hserver, hto]
  cases hx : s.server.sessions x with
  | none =>
    rw [hx] at h
    exact htail h
  | some ses =>
    rw [hx] at h
    dsimp only at h
    cases hp : ses.phase with
    | joining =>
      rw [hp] at h
      simp only [Option.map_some, hp]
      exact htail h
    | running buffer =>
      simp only [Option.map_some, hp]
      rfl
    | _ => simp only [Option.map_some, hp]

theorem standing_server (hserver : t.server = s.server) : t.standing x = s.standing x := by
  rw [System.standing, System.standing, hserver]

theorem ClientOk.sends {l : List Bytes} (h : ClientOk s x c) (hserver : t.server = s.server)
    (hto : t.toServer x = s.toServer x ++ l) (hid : c'.id = c.id) (hl : ∀ m ∈ l, IsLine m)
    (hin : InStep c (s.InLoop x ∧ s.Named c.id) (s.outlook x) →
      InStep c' (t.InLoop x ∧ t.Named c.id) ((s.outlook x).after l)) : ClientOk t x c' := by
  have hun := unexecuted_append h.linked hserver hto
  have hses : t.server.sessions x = s.server.sessions x := by rw [hserver]
  refine ⟨by rw [hid]; exact h.name, ?_, ?_, ?_⟩
  · have hlinked := h.linked
    unfold Linked at hlinked ⊢
    have hhead (hh : (s.toServer x).head? = some c.id) :
        (t.toServer x).head? = some c'.id := by
      rw [hto, List.head?_append, hh, hid]
      rfl
    rw [hses, hid]
    cases hx : s.server.sessions x with
    | none =>
      rw [hx] at hlinked
      exact hid ▸ hhead hlinked
    | some ses =>
      rw [hx] at hlinked
      dsimp only at hlinked ⊢
      cases hp : ses.phase with
      | joining =>
        rw [hp] at hlinked
        exact hid ▸ hhead hlinked
      | _ =>
        rw [hp] at hlinked
        exact hlinked
  · rw [hun]
    intro m hm
    rcases List.mem_append.mp hm with hm | hm
    · exact h.lines m hm
    · exact hl m hm
  · rw [refused_congr hses, System.outlook, standing_server hserver, hun, Standing.after_append, hid]
    exact h.inStep.imp_right hin

theorem SystemOk.mem_started (h : SystemOk s) (hc : s.processes x = some c) : x ∈ s.started := by
  by_contra hx
  rw [(h.unknown x hx).2.1] at hc
  cases hc

theorem SystemOk.ne_of_unknown {y : ℕ} (h : SystemOk s) (hc : s.processes x = some c)
    (hy : y ∉ s.started) : y ≠ x := by
  rintro rfl
  exact hy (h.mem_started hc)

/-- Only process `x` changes, and nobody's name is lost. -/
theorem SystemOk.onlyActor (h : SystemOk s) (hc : s.processes x = some c)
    (hserver : t.server = s.server) (hstarted : t.started = s.started)
    (hto : t.toServer = s.toServer)
    (hprocesses : t.processes = Function.update s.processes x (some c')) (hactor : ClientOk t x c')
    (hothers : ∀ y d, y ≠ x → s.processes y = some d → s.Owed d.id y → s.Named d.id →
      t.Named d.id) : SystemOk t := by
  refine h.client hserver ?_ ?_
  · intro y hy
    rw [hstarted] at hy
    obtain ⟨-, hp, hempty⟩ := h.unknown y hy
    rw [hprocesses, Function.update_of_ne (h.ne_of_unknown hc hy), hto]
    exact ⟨hp, hempty, hy⟩
  · intro y d hd
    rw [hprocesses] at hd
    by_cases hyx : y = x
    · subst hyx
      rw [Function.update_self, Option.some.injEq] at hd
      exact Or.inl (hd ▸ hactor)
    · rw [Function.update_of_ne hyx] at hd
      exact Or.inr ⟨hd, congrFun hto y, hothers y d hyx hd⟩

/-- A process goes on in step and sends what it sends. -/
theorem SystemOk.acts {l : List Bytes} (h : SystemOk s) (hc : s.processes x = some c)
    (hid : c'.id = c.id) (ht : c'.serverThread.target = c.serverThread.target)
    (hl : ∀ m ∈ l, IsLine m) (hin : ∀ p e, InStep c p e → InStep c' p (e.after l)) :
    SystemOk ((s.setProcess x (some c')).send x l) := by
  have hnamed (id : Bytes) (hn : s.Named id) :
      System.Named ((s.setProcess x (some c')).send x l) id := named_setProcess hn hc ht
  refine h.client rfl ?_ ?_
  · intro y hy
    obtain ⟨-, hp, hto⟩ := h.unknown y hy
    have hyx := h.ne_of_unknown hc hy
    simp only [System.send, System.setProcess, Function.update_of_ne hyx]
    exact ⟨hp, hto, hy⟩
  · intro y d hd
    by_cases hyx : y = x
    · subst hyx
      simp only [System.send, System.setProcess, Function.update_self, Option.some.injEq] at hd
      subst hd
      left
      refine (h.clients y c hc).sends rfl (Function.update_self _ _ _) hid hl ?_
      intro he
      exact (hin _ _ he).mono fun hp _ _ _ _ => ⟨hp.1, hnamed _ hp.2⟩
    · simp only [System.send, System.setProcess, Function.update_of_ne hyx] at hd ⊢
      exact Or.inr ⟨hd, trivial, fun _ hn => hnamed _ hn⟩

theorem send_nil : s.send x [] = s := by
  simp only [System.send, List.append_nil, Function.update_eq_self]

theorem SystemOk.goesOn (h : SystemOk s) (hc : s.processes x = some c) (hid : c'.id = c.id)
    (ht : c'.serverThread.target = c.serverThread.target)
    (hin : ∀ p e, InStep c p e → InStep c' p e) : SystemOk (s.setProcess x (some c')) := by
  have hacts := h.acts (l := []) hc hid ht nofun fun p e he => hin p e he
  rwa [send_nil] at hacts

/-- A process that owes nothing exits. -/
theorem SystemOk.exits (h : SystemOk s) (hc : s.processes x = some c) (howes : s.OwesNothing x)
    (rest : List Bytes) : SystemOk ((s.setToClient x rest).setProcess x none) := by
  refine h.client rfl ?_ ?_
  · intro y hy
    obtain ⟨-, hp, hto⟩ := h.unknown y hy
    refine ⟨?_, hto, hy⟩
    by_cases hyx : y = x
    · rw [hyx, processes_setProcess_self]
    · rw [processes_setProcess_ne _ hyx]
      exact hp
  · intro y d hd
    have hyx : y ≠ x := by
      rintro rfl
      rw [processes_setProcess_self] at hd
      cases hd
    rw [processes_setProcess_ne _ hyx] at hd
    -- what another client is still owed does not come from the process that exits
    refine Or.inr ⟨hd, rfl, fun howed hn => named_mono hn fun z hz hid => ?_⟩
    have hzx : z ≠ x := by
      rintro rfl
      exact howes _ hid y (h.mem_started hd) howed
    rw [processes_setProcess_ne _ hzx, targets_setProcess_ne _ hzx]
    refine ⟨hz, ?_⟩
    simp only [System.targets, System.setToClient, Function.update_of_ne hzx]
    exact hid

/-- The thread that reads from the server takes a message. -/
theorem SystemOk.hears {rest : List Bytes} (h : SystemOk s) (hc : s.processes x = some c)
    (hid : c'.id = c.id) (hin : ∀ p e, InStep c p e → InStep c' p e)
    (htargets : ∀ id ∈ s.targets x,
      id ∈ System.targets ((s.setToClient x rest).setProcess x (some c')) x) :
    SystemOk ((s.setToClient x rest).setProcess x (some c')) := by
  have hnamed (id : Bytes) (hn : s.Named id) :
      System.Named ((s.setToClient x rest).setProcess x (some c')) id := by
    refine named_mono hn fun z hz hid => ?_
    by_cases hzx : z = x
    · subst hzx
      refine ⟨?_, htargets id hid⟩
      rw [processes_setProcess_self]
      rfl
    · rw [processes_setProcess_ne _ hzx, targets_setProcess_ne _ hzx]
      refine ⟨hz, ?_⟩
      simp only [System.targets, System.setToClient, Function.update_of_ne hzx]
      exact hid
  refine h.onlyActor hc rfl rfl rfl rfl ?_ fun y d _ _ _ hn => hnamed _ hn
  refine (h.clients x c hc).sends (l := []) rfl (List.append_nil _).symm hid nofun ?_
  intro he
  exact (hin _ _ he).mono fun hp _ _ _ _ => ⟨hp.1, hnamed _ hp.2⟩

/-- A client in its command loop is known to the server by its id. -/
theorem ClientOk.clientId {ses : Session} (h : ClientOk s x c)
    (hx : s.server.sessions x = some ses) (hl : ses.phase.inLoop = true) : ses.clientId = c.id := by
  have hlinked := h.linked
  unfold Linked at hlinked
  rw [hx] at hlinked
  dsimp only at hlinked
  cases hp : ses.phase with
  | joining | registering | ended =>
    rw [hp] at hl
    cases hl
  | leaving =>
    rw [hp] at hlinked
    cases hlinked
  | _ =>
    rw [hp] at hlinked
    exact hlinked

/-- Only one process is owed a connection under an id. -/
theorem SystemOk.owed_unique (h : SystemOk s) {y z : ℕ} {id : Bytes} (hy : s.Owed id y)
    (hz : s.Owed id z) : y = z := by
  obtain ⟨⟨ses, hses, hl⟩, -, c, hc, hid, -⟩ := hy
  obtain ⟨⟨other, hother, hl'⟩, -, d, hd, hid', -⟩ := hz
  refine h.distinct y z ses other hses hother hl hl' ?_
  rw [(h.clients y c hc).clientId hses hl, (h.clients z d hd).clientId hother hl', hid, hid']

/-- `connect` reaches the client that is owed the connection. -/
theorem SystemOk.connects {y : ℕ} {d : ClientProcess} {peerId : Bytes} {port : Int}
    (h : SystemOk s) (hc : s.processes x = some c) (hd : s.processes y = some d)
    (hth : c.serverThread = .connecting peerId port) (hm : c.mode = .info)
    (howed : s.Owed peerId y) :
    SystemOk ((s.setProcess y (some { d with backlog := d.backlog ++ [c.id] })).setProcess x
      (some c.connected)) := by
  obtain ⟨hloop, hout, d', hd', hid, hmd, hod, hbd⟩ := howed
  obtain rfl : d' = d := Option.some.inj (hd'.symm.trans hd)
  have hxy : x ≠ y := by
    rintro rfl
    rw [hc, Option.some.injEq] at hd
    rw [← hd, hm] at hmd
    cases hmd
  have hnamed (z : ℕ) (e : ClientProcess) (hz : z ≠ y) (hez : s.Owed e.id z) (hn : s.Named e.id) :
      System.Named ((s.setProcess y (some { d' with backlog := d'.backlog ++ [c.id] })).setProcess x
        (some c.connected)) e.id := by
    -- the connection is for `y`, which alone is owed one under this name
    have hne : e.id ≠ peerId := by
      intro heq
      rw [heq] at hez
      exact hz (h.owed_unique hez ⟨hloop, hout, d', hd', hid, hmd, hod, hbd⟩)
    have hn' : (s.setProcess y (some { d' with backlog := d'.backlog ++ [c.id] })).Named e.id :=
      named_setProcess hn hd rfl
    apply named_connecting hn' _ hth hne
    rw [processes_setProcess_ne _ hxy]
    exact hc
  refine h.client rfl ?_ ?_
  · intro z hz
    obtain ⟨-, hp, hto⟩ := h.unknown z hz
    have hzx := h.ne_of_unknown hc hz
    have hzy := h.ne_of_unknown hd hz
    rw [processes_setProcess_ne _ hzx, processes_setProcess_ne _ hzy]
    exact ⟨hp, hto, hz⟩
  · intro z e he
    by_cases hzx : z = x
    · subst hzx
      rw [processes_setProcess_self, Option.some.injEq] at he
      subst he
      left
      refine (h.clients z c hc).sends (l := []) rfl (List.append_nil _).symm rfl nofun ?_
      intro hin
      refine (hin.connected hm).mono ?_
      rintro - hwait
      cases hwait
    · rw [processes_setProcess_ne _ hzx] at he
      by_cases hzy : z = y
      · subst hzy
        rw [processes_setProcess_self, Option.some.injEq] at he
        subst he
        left
        refine (h.clients z d' hd).sends (l := []) rfl (List.append_nil _).symm rfl nofun ?_
        intro hin
        -- the waiter has a connection in its backlog now, so nothing has to name it any more
        refine (hin.reached hmd hbd hout (h.clients x c hc).name).mono ?_
        rintro - - - hb
        exact absurd hb (List.append_ne_nil_of_right_ne_nil _ (List.cons_ne_nil _ _))
      · rw [processes_setProcess_ne _ hzy] at he
        exact Or.inr ⟨he, rfl, hnamed z e hzy⟩

/-- `connect` fails, and nobody is owed the connection. -/
theorem SystemOk.connectFails {peerId : Bytes} {port : Int} (h : SystemOk s)
    (hc : s.processes x = some c) (hth : c.serverThread = .connecting peerId port)
    (hno : ∀ y ∈ s.started, ¬ s.Owed peerId y) :
    SystemOk (s.setProcess x (some c.connectFailed)) := by
  have hnamed (z : ℕ) (e : ClientProcess) (hz : s.processes z = some e) (hez : s.Owed e.id z)
      (hn : s.Named e.id) : System.Named (s.setProcess x (some c.connectFailed)) e.id := by
    apply named_connecting hn hc hth
    intro heq
    rw [heq] at hez
    exact hno z (h.mem_started hz) hez
  refine h.onlyActor hc rfl rfl rfl rfl ?_ fun z e _ hz => hnamed z e hz
  refine (h.clients x c hc).sends (l := []) rfl (List.append_nil _).symm rfl nofun ?_
  intro hin
  have hstays := hin.mono (q := s.InLoop x ∧
      System.Named (s.setProcess x (some c.connectFailed)) c.id) ?_
  · refine hstays.congr rfl rfl rfl ?_
    rw [ClientProcess.talks, ClientProcess.talks, hth]
    rfl
  · rintro ⟨hl, hn⟩ hm ho hb hout
    exact ⟨hl, hnamed x c hc ⟨hl, hout, c, hc, rfl, hm, ho, hb⟩ hn⟩

theorem SystemOk.joins {id : Bytes} (h : SystemOk s) (hx : x ∉ s.started) (hid : IsName id) :
    SystemOk (s.join x id) := by
  obtain ⟨hses, hproc, hto⟩ := h.unknown x hx
  have hstream : (s.join x id).toServer x = [id] := by
    simp only [System.join, System.send, System.setProcess, Function.update_self, hto, hid.1,
      ↓reduceIte, List.nil_append]
  have hprocess (y : ℕ) : (s.join x id).processes y =
      if y = x then some (.start id) else s.processes y := Function.update_apply _ _ _ _
  refine h.client rfl ?_ ?_
  · intro y hy
    have hy' : y ≠ x ∧ y ∉ s.started := by
      rw [← not_or, ← List.mem_cons]
      exact hy
    obtain ⟨-, hp, hto'⟩ := h.unknown y hy'.2
    rw [hprocess, if_neg hy'.1]
    exact ⟨hp, (Function.update_of_ne hy'.1 _ _).trans hto', hy'.2⟩
  · intro y d hd
    rw [hprocess] at hd
    by_cases hyx : y = x
    -- the newcomer has sent its id and nothing else
    · subst hyx
      rw [if_pos rfl, Option.some.injEq] at hd
      subst hd
      left
      have hnone : (s.join y id).server.sessions y = none := hses
      have hun : (s.join y id).unexecuted y = [] := by
        rw [System.unexecuted, hstream, hnone]
        rfl
      refine ⟨hid, ?_, ?_, Or.inr ?_⟩
      · rw [Linked, hnone]
        exact congrArg List.head? hstream
      · rw [hun]
        exact fun m hm => absurd hm List.not_mem_nil
      · rw [System.outlook, hun, System.standing, hnone]
        exact .idle (by rintro ⟨⟩) rfl (Nat.le_refl 0)
    · rw [if_neg hyx] at hd
      refine Or.inr ⟨hd, Function.update_of_ne hyx _ _, fun _ hn => named_mono hn ?_⟩
      intro z hz hiz
      have hzx : z ≠ x := by
        rintro rfl
        rw [hproc] at hz
        cases hz
      rw [System.targets, hprocess, if_neg hzx]
      exact ⟨hz, hiz⟩

end Client

end NetTools.IRC
