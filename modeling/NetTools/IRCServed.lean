import NetTools.IRCModes

namespace NetTools.IRC

open CText Schedule Registry

variable {s : System} {x : ℕ} {c : ClientProcess} {u : Server} {toServer : ℕ → List Bytes}

theorem named_serves {id : Bytes} (hn : s.Named id) : (s.serves u toServer).Named id := by
  refine named_mono hn fun z hz hid => ⟨hz, ?_⟩
  rw [System.targets, List.mem_append] at hid
  rw [System.targets, List.mem_append]
  refine hid.imp_left fun hid => ?_
  change id ∈ (s.toClient z ++ System.news s.server u z).filterMap _
  rw [List.filterMap_append]
  exact List.mem_append_left _ hid

theorem streams_ne {a : Action} (h : s.streams a = some toServer) {y : ℕ} (hy : y ≠ a.actor) :
    toServer y = s.toServer y := by
  cases a with
  | recvId x data | recvCommand x data | recvPort x data =>
    obtain ⟨rest, -, rfl⟩ := Option.map_eq_some_iff.mp h
    exact Function.update_of_ne hy _ _
  | accept x socket =>
    simp only [System.streams, Option.ite_none_right_eq_some, Option.some.injEq] at h
    rw [h.2]
  | register | removeClient | exec | sendList =>
    rw [← Option.some.inj h]

theorem Step.actor_session {s t : Server} {a : Action} (h : Step s a t) :
    (∃ x socket, a = .accept x socket) ∨ ∃ ses, s.sessions a.actor = some ses := by
  cases h with
  | accept => exact Or.inl ⟨_, _, rfl⟩
  | recvId hx | refuse hx | register hx | hangUp hx | recvCommand hx | removeClient hx
  | listNone hx | listSome hx | sendList hx | waitLock hx | waitAgain hx | portOk hx | portBad hx
  | connectNone hx | connect hx | stopWait hx | quit hx | badPrompt hx => exact Or.inr ⟨_, hx⟩

/-- The actor of a step has connected. -/
theorem SystemOk.actor_started {a : Action} (h : SystemOk s) (hu : Step s.server a u)
    (hts : s.streams a = some toServer) : a.actor ∈ s.started := by
  by_contra hn
  have hnone := (h.unknown a.actor hn).1
  rcases hu.actor_session with ⟨x, socket, rfl⟩ | ⟨ses, hx⟩
  · simp only [System.streams, Option.ite_none_right_eq_some] at hts
    exact hn hts.1
  · rw [hnone] at hx
    cases hx

/-- What remains to be shown of a step of the server: it keeps the ids of the command
loops apart and the clients in step. -/
theorem SystemOk.serves {a : Action} (h : SystemOk s) (hu : Step s.server a u)
    (hts : s.streams a = some toServer)
    (hloop : ∀ ses', u.sessions a.actor = some ses' → ses'.phase.inLoop = true →
      (∃ ses, s.server.sessions a.actor = some ses ∧ ses.phase.inLoop = true ∧
        ses.clientId = ses'.clientId) ∨ s.Unused ses'.clientId)
    (hactor : ∀ c, s.processes a.actor = some c → ClientOk (s.serves u toServer) a.actor c)
    (hothers : ∀ y c, y ≠ a.actor → s.processes y = some c → ClientOk (s.serves u toServer) y c) :
    SystemOk (s.serves u toServer) := by
  have hknown {y : ℕ} {ses : Session} (hy : s.server.sessions y = some ses) : y ∈ s.started := by
    by_contra hn
    rw [(h.unknown y hn).1] at hy
    cases hy
  -- a session in its loop was there before, or its id was unused
  have hold {y z : ℕ} {ses other : Session} (hy : y = a.actor) (hz : z ≠ a.actor)
      (hses : u.sessions y = some ses) (hother : u.sessions z = some other)
      (hl : ses.phase.inLoop = true) (hl' : other.phase.inLoop = true) :
      ses.clientId ≠ other.clientId := by
    subst hy
    intro he
    rw [hu.sessions_ne hz] at hother
    rcases hloop ses hses hl with ⟨ses₀, hses₀, hl₀, hid₀⟩ | ⟨-, hunused⟩
    · exact hz (h.distinct z _ other ses₀ hother hses₀ hl' hl₀ (by rw [hid₀, he]))
    · exact hunused z (hknown hother) other hother hl' he.symm
  refine ⟨waitLock_step h.waitLock hu, ?_, ?_, ?_⟩
  · intro y hy
    obtain ⟨hses, hp, hto⟩ := h.unknown y hy
    have hya : y ≠ a.actor := by
      rintro rfl
      exact hy (h.actor_started hu hts)
    exact ⟨(hu.sessions_ne hya).trans hses, hp, (streams_ne hts hya).trans hto⟩
  · intro y z ses other hy hz hl hl' he
    by_cases hya : y = a.actor
    · by_cases hza : z = a.actor
      · rw [hya, hza]
      · exact absurd he (hold hya hza hy hz hl hl')
    · by_cases hza : z = a.actor
      · exact absurd he.symm (hold hza hya hz hy hl' hl)
      · refine h.distinct y z ses other ?_ ?_ hl hl' he
        · rw [← hu.sessions_ne hya]
          exact hy
        · rw [← hu.sessions_ne hza]
          exact hz
  · intro y c hc
    by_cases hya : y = a.actor
    · exact hya ▸ hactor c (hya ▸ hc)
    · exact hothers y c hya hc

/-- A client beside the actor whose place in the waiting list stays as it is. -/
theorem SystemOk.beside {a : Action} (h : SystemOk s) (hu : Step s.server a u)
    (hts : s.streams a = some toServer) {y : ℕ} (hy : y ≠ a.actor) (hc : s.processes y = some c)
    (hw : s.InLoop y → (c.id ∈ u.registry.waiting ↔ c.id ∈ s.server.registry.waiting)) :
    ClientOk (s.serves u toServer) y c := by
  have hok := h.clients y c hc
  refine hok.other hc (hu.sessions_ne hy) (streams_ne hts hy) ?_ fun _ hn => named_serves hn
  intro ses hses hl
  rw [hok.clientId hses hl]
  exact hw ⟨ses, hses, hl⟩

section Actor

variable {ses ses' : Session}

theorem standing_inLoop {t : System} (hx : t.server.sessions x = some ses)
    (hl : ses.phase.inLoop = true) (hp : ses.phase ≠ .portRecv) :
    t.standing x = if ses.clientId ∈ t.server.registry.waiting then .listed else .unlisted := by
  simp only [System.standing, hx, hl, hp, true_and, ↓reduceIte]

theorem not_refused (hx : s.server.sessions x = some ses) (hp : ses.phase ≠ .ended) :
    ¬ s.Refused x := by
  rintro ⟨ses', hx', hp'⟩
  obtain rfl : ses' = ses := Option.some.inj (hx'.symm.trans hx)
  exact hp hp'

/-- A client whose handler takes a step that leaves the outlook as it was. -/
theorem ClientOk.served (h : ClientOk s x c) (hr : ¬ s.Refused x)
    (hlinked : Linked (s.serves u toServer) x c)
    (hun : ∀ m ∈ (s.serves u toServer).unexecuted x, m ∈ s.unexecuted x)
    (hout : (s.serves u toServer).outlook x = s.outlook x)
    (hloop : s.InLoop x → (s.serves u toServer).InLoop x) : ClientOk (s.serves u toServer) x c := by
  refine ⟨h.name, hlinked, fun m hm => h.lines m (hun m hm), Or.inr ?_⟩
  rw [hout]
  exact (h.inStep.resolve_left hr).mono fun hp _ _ _ _ => ⟨hloop hp.1, named_serves hp.2⟩

/-- A handler executes its command as `Standing.next` says. -/
theorem ClientOk.executes {buffer : Bytes} (h : ClientOk s x c)
    (hx : s.server.sessions x = some ses) (hp : ses.phase = .running buffer)
    (hts : toServer x = s.toServer x) (hx' : u.sessions x = some ses')
    (hp' : ses'.phase = .reading ∨ ses'.phase = .listing ∨ ses'.phase = .portRecv)
    (hid : ses'.clientId = ses.clientId)
    (hnext : (s.serves u toServer).standing x = (s.standing x).next buffer) :
    ClientOk (s.serves u toServer) x c := by
  have hl' : ses'.phase.inLoop = true := by rcases hp' with hp' | hp' | hp' <;> rw [hp'] <;> rfl
  have hl : ses.phase.inLoop = true := by rw [hp]; rfl
  have hun : s.unexecuted x = buffer :: s.toServer x := by
    simp only [System.unexecuted, hx, Option.map_some, hp]
  have hun' : (s.serves u toServer).unexecuted x = s.toServer x := by
    have hx'' : (s.serves u toServer).server.sessions x = some ses' := hx'
    rw [← hts]
    rcases hp' with hp' | hp' | hp' <;>
      simp only [System.unexecuted, hx'', Option.map_some, hp'] <;> rfl
  refine h.served (not_refused hx (by simp [hp])) ?_ ?_ ?_ fun _ => ⟨ses', hx', hl'⟩
  · have hx'' : (s.serves u toServer).server.sessions x = some ses' := hx'
    have hc := h.clientId hx hl
    unfold Linked
    rw [hx'']
    rcases hp' with hp' | hp' | hp' <;> simp only [hp', hid, hc]
  · rw [hun, hun']
    exact fun m hm => List.mem_cons_of_mem _ hm
  · rw [System.outlook, System.outlook, hun, hun', hnext]
    rfl

/-- The command of a running handler is one that the client sends in this place. -/
theorem ClientOk.next_ne_clash {buffer : Bytes} (h : ClientOk s x c)
    (hx : s.server.sessions x = some ses) (hp : ses.phase = .running buffer) :
    (s.standing x).next buffer ≠ .clash := by
  intro hclash
  have hun : s.unexecuted x = buffer :: s.toServer x := by
    simp only [System.unexecuted, hx, Option.map_some, hp]
  have hin := h.inStep.resolve_left (not_refused hx (by simp [hp]))
  refine hin.ne_clash ?_
  rw [System.outlook, hun]
  change ((s.standing x).next buffer).after (s.toServer x) = .clash
  rw [hclash, Standing.after_clash]

theorem takeFrom_self {m : Bytes} (hm : m ≠ []) (sends : List Bytes) :
    takeFrom (m :: sends) m = some sends := by
  obtain ⟨b, bs, rfl⟩ := List.exists_cons_of_ne_nil hm
  rw [takeFrom, if_pos (List.isPrefixOf_iff_prefix.mpr (List.prefix_refl _)), List.drop_length,
    takeFrom]

/-- A handler whose process runs receives the next message. -/
theorem received_next {data : Bytes} {rest : List Bytes} (hc : s.processes x = some c)
    (hone : System.OneSend (s.toServer x) data) (hr : s.received x data = some rest) :
    data ≠ [] ∧ s.toServer x = data :: rest := by
  have hrun : s.processes x ≠ none := by
    rw [hc]
    exact Option.some_ne_none c
  have hd : data ≠ [] := by
    rintro rfl
    rw [System.received, if_pos rfl, if_neg hrun] at hr
    cases hr
  obtain ⟨sends, hsends⟩ := List.head?_eq_some_iff.mp (hone.resolve_left hd)
  rw [System.received, if_neg hd, hsends, takeFrom_self hd, Option.some.injEq] at hr
  exact ⟨hd, by rw [hsends, hr]⟩

theorem standing_running {buffer : Bytes} (hx : s.server.sessions x = some ses)
    (hp : ses.phase = .running buffer) : s.standing x =
      if ses.clientId ∈ s.server.registry.waiting then .listed else .unlisted :=
  standing_inLoop hx (by rw [hp]; rfl) (by simp [hp])

/-- `/list` and a bad prompt leave the standing as it is. -/
theorem ClientOk.executesIdle {buffer : Bytes} (h : ClientOk s x c)
    (hx : s.server.sessions x = some ses) (hp : ses.phase = .running buffer)
    (hcmd : commandOf buffer = .list ∨ commandOf buffer = .badPrompt)
    (hts : toServer x = s.toServer x) (hx' : u.sessions x = some ses')
    (hp' : ses'.phase = .reading ∨ ses'.phase = .listing) (hid : ses'.clientId = ses.clientId)
    (hw : u.registry.waiting = s.server.registry.waiting) : ClientOk (s.serves u toServer) x c := by
  have hl' : ses'.phase.inLoop = true ∧ ses'.phase ≠ .portRecv := by
    rcases hp' with hp' | hp' <;> simp [hp', Phase.inLoop]
  refine h.executes hx hp hts hx' (hp'.imp_right Or.inl) hid ?_
  rw [standing_inLoop hx' hl'.1 hl'.2, standing_running hx hp, hid]
  change (if _ ∈ u.registry.waiting then _ else _) = _
  rw [hw]
  by_cases hmem : ses.clientId ∈ s.server.registry.waiting
  · rw [if_pos hmem, Standing.next]
    rcases hcmd with hcmd | hcmd <;> rw [hcmd]
  · rw [if_neg hmem, Standing.next]
    rcases hcmd with hcmd | hcmd <;> rw [hcmd]

/-- A `/connect` is executed while its client is off the list. -/
theorem ClientOk.not_listed {buffer : Bytes} (h : ClientOk s x c)
    (hx : s.server.sessions x = some ses) (hp : ses.phase = .running buffer)
    (hcmd : commandOf buffer = .connect ∨ commandOf buffer = .wait) :
    ses.clientId ∉ s.server.registry.waiting := by
  intro hmem
  refine h.next_ne_clash hx hp ?_
  rw [standing_running hx hp, if_pos hmem, Standing.next]
  rcases hcmd with hcmd | hcmd <;> rw [hcmd]

theorem ClientOk.executesConnect {buffer : Bytes} (h : ClientOk s x c)
    (hx : s.server.sessions x = some ses) (hp : ses.phase = .running buffer)
    (hcmd : commandOf buffer = .connect) (hts : toServer x = s.toServer x)
    (hx' : u.sessions x = some ses') (hp' : ses'.phase = .reading)
    (hid : ses'.clientId = ses.clientId)
    (hw : u.registry.waiting.Sublist s.server.registry.waiting) :
    ClientOk (s.serves u toServer) x c := by
  have hnot := h.not_listed hx hp (Or.inl hcmd)
  have hl' : ses'.phase.inLoop = true ∧ ses'.phase ≠ .portRecv := by
    rw [hp']
    exact ⟨rfl, by simp⟩
  refine h.executes hx hp hts hx' (Or.inl hp') hid ?_
  rw [standing_inLoop hx' hl'.1 hl'.2, standing_running hx hp, hid, if_neg hnot, Standing.next, hcmd]
  exact if_neg fun hm => hnot (hw.subset hm)

/-- The port message is executed as it is received. -/
theorem ClientOk.executesPort {data : Bytes} (h : ClientOk s x c)
    (hx : s.server.sessions x = some ses) (hp : ses.phase = .portRecv)
    (hstream : s.toServer x = data :: toServer x) (hx' : u.sessions x = some ses')
    (hp' : ses'.phase = .reading) (hid : ses'.clientId = ses.clientId)
    (hw : ses.clientId ∈ u.registry.waiting ↔ 0 < atoi data) :
    ClientOk (s.serves u toServer) x c := by
  have hl' : ses'.phase.inLoop = true ∧ ses'.phase ≠ .portRecv := by
    rw [hp']
    exact ⟨rfl, by simp⟩
  have hl : ses.phase.inLoop = true := by rw [hp]; rfl
  have hx'' : (s.serves u toServer).server.sessions x = some ses' := hx'
  have hun : s.unexecuted x = data :: toServer x := by
    simp only [System.unexecuted, hx, Option.map_some, hp, hstream]
  have hun' : (s.serves u toServer).unexecuted x = toServer x := by
    simp only [System.unexecuted, hx'', Option.map_some, hp']
    rfl
  have hstanding : s.standing x = .port := by
    simp only [System.standing, hx, hp, ↓reduceIte]
  have hstanding' : (s.serves u toServer).standing x = Standing.port.next data := by
    rw [standing_inLoop hx'' hl'.1 hl'.2, hid, Standing.next]
    change (if ses.clientId ∈ u.registry.waiting then _ else _) = _
    by_cases hpos : 0 < atoi data
    · rw [if_pos hpos, if_pos (hw.mpr hpos)]
    · rw [if_neg hpos, if_neg (mt hw.mp hpos)]
  refine h.served (not_refused hx (by simp [hp])) ?_ ?_ ?_ fun _ => ⟨ses', hx', hl'.1⟩
  · unfold Linked
    rw [hx'']
    simp only [hp', hid, h.clientId hx hl]
  · rw [hun, hun']
    exact fun m hm => List.mem_cons_of_mem _ hm
  · rw [System.outlook, System.outlook, hun, hun', hstanding, hstanding']
    rfl

/-- A step before the command loop, or the receipt of a command: no message is executed. -/
theorem ClientOk.keeps (h : ClientOk s x c) (hr : ¬ s.Refused x)
    (hlinked : Linked (s.serves u toServer) x c)
    (hun : (s.serves u toServer).unexecuted x = s.unexecuted x)
    (hstanding : (s.serves u toServer).standing x = s.standing x)
    (hloop : s.InLoop x → (s.serves u toServer).InLoop x) : ClientOk (s.serves u toServer) x c := by
  refine h.served hr hlinked (fun m hm => hun ▸ hm) ?_ hloop
  rw [System.outlook, System.outlook, hun, hstanding]

theorem not_inLoop (hx : s.server.sessions x = some ses) (hl : ses.phase.inLoop = false) :
    ¬ s.InLoop x := by
  rintro ⟨ses', hx', hl'⟩
  obtain rfl : ses' = ses := Option.some.inj (hx'.symm.trans hx)
  rw [hl] at hl'
  cases hl'

theorem ClientOk.accepts {socket : ℕ} (h : ClientOk s x c) (hx : s.server.sessions x = none)
    (hts : toServer x = s.toServer x) (hx' : u.sessions x = some ⟨socket, [], .joining, []⟩) :
    ClientOk (s.serves u toServer) x c := by
  have hx'' : (s.serves u toServer).server.sessions x = some ⟨socket, [], .joining, []⟩ := hx'
  have hto : (s.serves u toServer).toServer x = s.toServer x := hts
  refine h.keeps ?_ ?_ ?_ ?_ ?_
  · rintro ⟨ses, hses, -⟩
    rw [hx] at hses
    cases hses
  · have hlinked := h.linked
    unfold Linked at hlinked ⊢
    rw [hx] at hlinked
    rw [hx'', hto]
    exact hlinked
  · rw [System.unexecuted, System.unexecuted, hx, hx'', hto]
    rfl
  · rw [System.standing, System.standing, hx, hx'']
    rfl
  · rintro ⟨ses, hses, -⟩
    rw [hx] at hses
    cases hses

theorem ClientOk.sendsId {data id : Bytes} (h : ClientOk s x c)
    (hx : s.server.sessions x = some ses) (hp : ses.phase = .joining)
    (hstream : s.toServer x = data :: toServer x) (hid : lineIn idSize data = some id)
    (hx' : u.sessions x = some { ses with clientId := id, phase := .registering }) :
    ClientOk (s.serves u toServer) x c := by
  have hx'' : (s.serves u toServer).server.sessions x =
      some { ses with clientId := id, phase := .registering } := hx'
  have hdata : data = c.id := by
    have hlinked := h.linked
    unfold Linked at hlinked
    simp only [hx, hp, hstream, List.head?_cons, Option.some.injEq] at hlinked
    exact hlinked
  refine h.keeps (not_refused hx (by simp [hp])) ?_ ?_ ?_
    fun hl => absurd hl (not_inLoop hx (by rw [hp]; rfl))
  · unfold Linked
    rw [hx'']
    rw [hdata, h.name.lineIn, Option.some.injEq] at hid
    exact hid.symm
  · simp only [System.unexecuted, hx, hx'', Option.map_some, hp, hstream, List.tail_cons]
    rfl
  · simp only [System.standing, hx, hx'', hp, Phase.inLoop]
    rfl

theorem ClientOk.registers (h : ClientOk s x c) (hx : s.server.sessions x = some ses)
    (hp : ses.phase = .registering) (hts : toServer x = s.toServer x)
    (hx' : u.sessions x = some ses') (hp' : ses'.phase = .reading)
    (hid : ses'.clientId = ses.clientId) (hw : ses.clientId ∉ u.registry.waiting) :
    ClientOk (s.serves u toServer) x c := by
  have hx'' : (s.serves u toServer).server.sessions x = some ses' := hx'
  have hto : (s.serves u toServer).toServer x = s.toServer x := hts
  have hlinked : ses.clientId = c.id := by
    have hlinked := h.linked
    unfold Linked at hlinked
    simp only [hx, hp] at hlinked
    exact hlinked
  refine h.keeps (not_refused hx (by simp [hp])) ?_ ?_ ?_
    fun hl => absurd hl (not_inLoop hx (by rw [hp]; rfl))
  · unfold Linked
    rw [hx'']
    simp only [hp', hid, hlinked]
  · simp only [System.unexecuted, hx, hx'', Option.map_some, hp, hp', hto]
  · rw [standing_inLoop hx'' (by rw [hp']; rfl) (by simp [hp']), hid]
    refine (if_neg hw).trans ?_
    simp only [System.standing, hx, hp, Phase.inLoop]
    rfl

theorem ClientOk.refused (h : ClientOk s x c) (hx : s.server.sessions x = some ses)
    (hp : ses.phase = .registering) (hts : toServer x = s.toServer x)
    (hx' : u.sessions x = some ses') (hp' : ses'.phase = .ended) :
    ClientOk (s.serves u toServer) x c := by
  have hx'' : (s.serves u toServer).server.sessions x = some ses' := hx'
  have hto : (s.serves u toServer).toServer x = s.toServer x := hts
  refine ⟨h.name, ?_, ?_, Or.inl ⟨ses', hx', hp'⟩⟩
  · unfold Linked
    rw [hx'']
    simp only [hp']
  · have hun : (s.serves u toServer).unexecuted x = s.unexecuted x := by
      simp only [System.unexecuted, hx, hx'', Option.map_some, hp, hp', hto]
    rw [hun]
    exact h.lines

theorem ClientOk.receives {data buffer : Bytes} (h : ClientOk s x c)
    (hx : s.server.sessions x = some ses) (hp : ses.phase = .reading)
    (hstream : s.toServer x = data :: toServer x) (hb : lineIn bufferSize data = some buffer)
    (hx' : u.sessions x = some (ses.at (.running buffer)))
    (hw : u.registry.waiting = s.server.registry.waiting) :
    ClientOk (s.serves u toServer) x c := by
  have hx'' : (s.serves u toServer).server.sessions x = some (ses.at (.running buffer)) := hx'
  have hun : s.unexecuted x = data :: toServer x := by
    simp only [System.unexecuted, hx, Option.map_some, hp, hstream]
  have hbuffer : buffer = data := by
    have hline := h.lines data (by rw [hun]; exact List.mem_cons_self)
    rw [hline.2, Option.some.injEq] at hb
    exact hb.symm
  refine h.keeps (not_refused hx (by simp [hp])) ?_ ?_ ?_ fun _ => ⟨_, hx', rfl⟩
  · unfold Linked
    rw [hx'']
    have hid : ses.clientId = c.id := h.clientId hx (by rw [hp]; rfl)
    exact hid
  · rw [hun, ← hbuffer, System.unexecuted, hx'']
    rfl
  · rw [standing_running hx'' rfl, standing_inLoop hx (by rw [hp]; rfl) (by simp [hp]), ← hw]
    rfl

theorem ClientOk.lists (h : ClientOk s x c) (hx : s.server.sessions x = some ses)
    (hp : ses.phase = .listing) (hts : toServer x = s.toServer x) (hx' : u.sessions x = some ses')
    (hp' : ses'.phase = .reading) (hid : ses'.clientId = ses.clientId)
    (hw : u.registry.waiting = s.server.registry.waiting) : ClientOk (s.serves u toServer) x c := by
  have hx'' : (s.serves u toServer).server.sessions x = some ses' := hx'
  have hto : (s.serves u toServer).toServer x = s.toServer x := hts
  have hl : ses.phase.inLoop = true := by rw [hp]; rfl
  have hl' : ses'.phase.inLoop = true := by rw [hp']; rfl
  refine h.keeps (not_refused hx (by simp [hp])) ?_ ?_ ?_ fun _ => ⟨ses', hx', hl'⟩
  · unfold Linked
    rw [hx'']
    simp only [hp', hid, h.clientId hx hl]
  · simp only [System.unexecuted, hx, hx'', Option.map_some, hp, hp', hto]
  · rw [standing_inLoop hx'' hl' (by simp [hp']),
      standing_inLoop hx hl (by simp [hp]), hid, ← hw]
    rfl

end Actor

/-- The handler of a client keeps it in step. -/
theorem SystemOk.actor {a : Action} (h : SystemOk s) (hu : Step s.server a u)
    (hts : s.streams a = some toServer) (ho : Orderly s (.server a))
    (hc : s.processes a.actor = some c) : ClientOk (s.serves u toServer) a.actor c := by
  have hok := h.clients a.actor c hc
  have hstream {x : ℕ} {data : Bytes} (hc : s.processes x = some c)
      (hone : System.OneSend (s.toServer x) data)
      (hts : (s.received x data).map (Function.update s.toServer x) = some toServer) :
      data ≠ [] ∧ s.toServer x = data :: toServer x := by
    obtain ⟨rest, hr, rfl⟩ := Option.map_eq_some_iff.mp hts
    rw [Function.update_self]
    exact received_next hc hone hr
  cases hu with
  | @accept x socket hx hfd =>
    simp only [System.streams, Option.ite_none_right_eq_some, Option.some.injEq] at hts
    exact hok.accepts hx (by rw [hts.2]) (put_sessions_self _ _ _)
  | @recvId x ses data id hx hp hl hid =>
    exact hok.sendsId hx hp (hstream hc ho hts).2 hid (put_sessions_self _ _ _)
  | @refuse x ses hx hp hm ht =>
    exact hok.refused hx hp (by rw [← Option.some.inj hts]) (put_sessions_self _ _ _) rfl
  | @register x ses r hx hp hm ht hr =>
    have hunused : s.Unused ses.clientId := ho ses hx ht
    refine hok.registers hx hp (by rw [← Option.some.inj hts]) (put_sessions_self _ _ _) rfl rfl ?_
    obtain ⟨-, rfl⟩ := addClient_eq hr
    exact hunused.1
  | @hangUp x ses hx hp => exact absurd rfl (hstream hc ho hts).1
  | @recvCommand x ses data buffer hx hp hl hne hb =>
    exact hok.receives hx hp (hstream hc ho hts).2 hb (put_sessions_self _ _ _) rfl
  -- the session of a running process is never on its way out
  | @removeClient x ses hx hp hm =>
    have hlinked := hok.linked
    unfold Linked at hlinked
    simp only [Action.actor, hx, hp] at hlinked
  | @listNone x ses buffer g k hx hp hcmd hw =>
    exact hok.executesIdle hx hp (Or.inl hcmd) (by rw [← Option.some.inj hts])
      (put_sessions_self _ _ _) (Or.inl rfl) rfl rfl
  | @listSome x ses buffer g k hx hp hcmd hw =>
    exact hok.executesIdle hx hp (Or.inl hcmd) (by rw [← Option.some.inj hts])
      (put_sessions_self _ _ _) (Or.inr rfl) rfl rfl
  | @badPrompt x ses buffer g k hx hp hcmd =>
    exact hok.executesIdle hx hp (Or.inr hcmd) (by rw [← Option.some.inj hts])
      (put_sessions_self _ _ _) (Or.inl rfl) rfl rfl
  | @sendList x ses hx hp hm hl =>
    exact hok.lists hx hp (by rw [← Option.some.inj hts]) (put_sessions_self _ _ _) rfl rfl rfl
  | @waitLock x ses buffer g k hx hp hcmd hm hi =>
    refine hok.executes hx hp (by rw [← Option.some.inj hts]) (put_sessions_self _ _ _)
      (Or.inr (Or.inr rfl)) rfl ?_
    change System.standing _ x = (s.standing x).next buffer
    rw [standing_running hx hp, if_neg (waitingIndex_none_iff.mp hi), Standing.next, hcmd]
    have hx' : (s.serves ((s.server.put x (ses.at .portRecv)).withMutex (some x))
        toServer).server.sessions x = some (ses.at .portRecv) := put_sessions_self _ _ _
    rw [System.standing, hx']
    rfl
  | @waitAgain x i ses buffer g k hx hp hcmd hm hi =>
    have hnone := waitingIndex_none_iff.mpr (hok.not_listed hx hp (Or.inr hcmd))
    rw [hi] at hnone
    cases hnone
  | @portOk x ses data r hx hp hm hl hport hr =>
    refine hok.executesPort hx hp (hstream hc ho hts).2 (put_sessions_self _ _ _) rfl rfl ?_
    change ses.clientId ∈ r.waiting ↔ _
    rw [addWaiting_waiting hr]
    exact ⟨fun _ => hport, fun _ => List.mem_append_right _ List.mem_cons_self⟩
  | @portBad x ses data hx hp hm hl hport =>
    refine hok.executesPort hx hp (hstream hc ho hts).2 (put_sessions_self _ _ _) rfl rfl ?_
    exact ⟨fun hmem => absurd hmem (h.waitLock.holder x ses hx hp).2, fun hpos => absurd hpos hport⟩
  | @connectNone x ses buffer g targetId k hx hp hcmd hm ht hi =>
    exact hok.executesConnect hx hp hcmd (by rw [← Option.some.inj hts]) (put_sessions_self _ _ _)
      rfl rfl (List.Sublist.refl _)
  | @connect x i ses buffer g targetId k r hx hp hcmd hm ht hi hr =>
    exact hok.executesConnect hx hp hcmd (by rw [← Option.some.inj hts]) (put_sessions_self _ _ _)
      rfl rfl (removeWaiting_sublist hr)
  | @stopWait x ses buffer g k r hx hp hcmd hm hr =>
    have hmem := (ho ses hx buffer (Session.mem_pending.mpr hp)).1 hcmd
    obtain ⟨i, hi, hidx⟩ := stopIndex_of_mem hmem k
    refine hok.executes hx hp (by rw [← Option.some.inj hts]) (put_sessions_self _ _ _)
      (Or.inl rfl) rfl ?_
    change System.standing _ x = (s.standing x).next buffer
    rw [standing_running hx hp, if_pos hmem, Standing.next, hcmd]
    have hx' : (s.serves ((s.server.put x (ses.say .stoppedWaiting .reading)).withRegistry r)
        toServer).server.sessions x = some (ses.say .stoppedWaiting .reading) :=
      put_sessions_self _ _ _
    rw [standing_inLoop hx' rfl (by simp [Session.say])]
    refine if_neg fun hm' => ?_
    exact ((mem_removeWaiting h.waitLock.nodup hi (hidx ▸ hr)).mp hm').1 rfl
  -- a client sends `/quit` to nobody, so none can be pending
  | @quit x ses buffer g k hx hp hcmd =>
    refine absurd ?_ (hok.next_ne_clash hx hp)
    change (s.standing x).next buffer = .clash
    rw [standing_running hx hp]
    split_ifs <;> rw [Standing.next, hcmd]

/-- A waiter that somebody else's `/connect` has taken off the list: the reply that names
it is on its way, unless its own `/stop_wait` is. -/
theorem SystemOk.taken {y i : ℕ} {ses : Session} {d : ClientProcess} {port : Int} {r : Registry}
    (h : SystemOk s) (hd : s.processes y = some d) (hyx : y ≠ x)
    (hx : s.server.sessions x = some ses) (hi : s.server.registry.waitingIndex d.id = some i)
    (hr : s.server.registry.removeWaiting i = some r) (hreach : s.Reaches x d.id)
    (hu : u = (s.server.put x (ses.say (.connect d.id port) .reading)).withRegistry r)
    (hloop : s.InLoop y) (hts : toServer y = s.toServer y) : ClientOk (s.serves u toServer) y d := by
  have hok := h.clients y d hd
  obtain ⟨other, hy, hl⟩ := hloop
  have hid := hok.clientId hy hl
  have hmem : d.id ∈ s.server.registry.waiting := by
    by_contra hn
    rw [waitingIndex_none_iff.mpr hn] at hi
    cases hi
  have hport : other.phase ≠ .portRecv := by
    intro hp'
    exact (h.waitLock.holder y other hy hp').2 (hid ▸ hmem)
  have hended : other.phase ≠ .ended := by
    intro hp'
    rw [hp'] at hl
    cases hl
  have hy' : (s.serves u toServer).server.sessions y = s.server.sessions y := by
    rw [hu]
    exact put_sessions_ne _ _ hyx
  have hun := unexecuted_congr hy' (s := s) hts
  have hstanding : s.standing y = .listed := by
    rw [standing_inLoop hy hl hport, hid, if_pos hmem]
  have hstanding' : (s.serves u toServer).standing y = .unlisted := by
    rw [standing_inLoop (hy'.trans hy) hl hport, hid]
    refine if_neg fun hm => ?_
    rw [hu] at hm
    exact ((mem_removeWaiting h.waitLock.nodup hi hr).mp hm).1 rfl
  have hin := hok.inStep.resolve_left (not_refused hy hended)
  refine ⟨hok.name, linked_congr hy' (congrArg List.head? hts) rfl hok.linked, ?_, Or.inr ?_⟩
  · rw [hun]
    exact hok.lines
  · rw [System.outlook, hstanding', hun]
    rw [System.outlook, hstanding] at hin
    -- what the client still has to send meets an empty place instead of its own: it ends up off
    -- the list, or one of it is stray
    rcases Standing.after_taken (s.unexecuted y) hin.ne_clash with ⟨hlisted, hunlisted⟩ | hstray
    · rw [hlisted] at hin
      rw [hunlisted]
      cases hin with
      | waiting hm ho hb ht =>
        -- the `CONNECT` that names the client is the last message to `x`
        refine .taken hm ho ht (Or.inl ⟨hb, ⟨other, hy'.trans hy, hl⟩, x, ?_, ?_⟩)
        · rcases hreach with hrun | hno
          · exact Option.isSome_iff_ne_none.mpr hrun
          · exact absurd rfl (hno y (h.mem_started hd) d hd)
        · have hnews : System.news s.server u x = [(Reply.connect d.id port).text] := by
            have hsent : sentTo u x = sentTo s.server x ++ [.connect d.id port] := by
              rw [hu, sentTo, sentTo, hx]
              change ((s.server.put x (ses.say (.connect d.id port) .reading)).sessions x |>.map
                Session.outbox).getD [] = _
              rw [put_sessions_self]
              rfl
            rw [System.news, hsent, List.drop_left]
            rfl
          obtain ⟨peerPort, hmessage⟩ := serverMessage_connect hok.name port
          refine List.mem_append_left _ (List.mem_filterMap.mpr ⟨_, ?_, by rw [hmessage]; rfl⟩)
          change _ ∈ s.toClient x ++ System.news s.server u x
          rw [hnews]
          exact List.mem_append_right _ List.mem_cons_self
    · rw [hstray]
      exact .stray

/-- The session that a step leaves in its command loop was there, or its id was unused. -/
theorem actor_inLoop {a : Action} (hu : Step s.server a u) (ho : Orderly s (.server a))
    {ses' : Session} (hx' : u.sessions a.actor = some ses') (hl' : ses'.phase.inLoop = true) :
    (∃ ses, s.server.sessions a.actor = some ses ∧ ses.phase.inLoop = true ∧
      ses.clientId = ses'.clientId) ∨ s.Unused ses'.clientId := by
  have hput {x : ℕ} {v : Server} {new : Session} (hv : (v.put x new).sessions x = some ses') :
      new = ses' := Option.some.inj ((put_sessions_self v x new).symm.trans hv)
  cases hu with
  | accept | recvId | refuse | removeClient | quit =>
    rw [← hput hx'] at hl'
    cases hl'
  | @register x ses r hx hp hm ht hr =>
    rw [← hput hx']
    exact Or.inr (ho ses hx ht)
  | hangUp hx hp | recvCommand hx hp | listNone hx hp | listSome hx hp | sendList hx hp
  | waitLock hx hp | waitAgain hx hp | portOk hx hp | portBad hx hp | connectNone hx hp
  | connect hx hp | stopWait hx hp | badPrompt hx hp =>
    rw [← hput hx']
    exact Or.inl ⟨_, hx, by rw [hp]; rfl, rfl⟩

/-- A step of a handler keeps the other clients in step. -/
theorem SystemOk.others {a : Action} (h : SystemOk s) (hu : Step s.server a u)
    (hts : s.streams a = some toServer) (ho : Orderly s (.server a)) {y : ℕ} (hy : y ≠ a.actor)
    (hc : s.processes y = some c) : ClientOk (s.serves u toServer) y c := by
  have hto := streams_ne hts hy
  -- the actor's id is not the id of another client in its loop
  have hother {ses : Session} (hx : s.server.sessions a.actor = some ses)
      (hl : ses.phase.inLoop = true) (hloop : s.InLoop y) : c.id ≠ ses.clientId := by
    obtain ⟨other, hother, hl'⟩ := hloop
    rw [← (h.clients y c hc).clientId hother hl']
    exact fun he => hy (h.distinct y _ other ses hother hx hl' hl he)
  have hbeside := h.beside hu hts hy hc
  cases hu with
  | register hx hp hm ht hr =>
    obtain ⟨-, rfl⟩ := addClient_eq hr
    exact hbeside fun _ => Iff.rfl
  | removeClient hx hp hm =>
    refine hbeside fun _ => ?_
    change c.id ∈ Registry.waiting (Registry.removeClient _ _) ↔ _
    rw [removeClient_waiting]
  | @portOk x ses data r hx hp hm hl hport hr =>
    refine hbeside fun hloop => ?_
    change c.id ∈ r.waiting ↔ _
    rw [addWaiting_waiting hr, List.mem_append, List.mem_singleton]
    exact or_iff_left (hother hx (by rw [hp]; rfl) hloop)
  | @stopWait x ses buffer g k r hx hp hcmd hm hr =>
    refine hbeside fun hloop => ?_
    have hmem := (ho ses hx buffer (Session.mem_pending.mpr hp)).1 hcmd
    obtain ⟨i, hi, hidx⟩ := stopIndex_of_mem hmem k
    change c.id ∈ r.waiting ↔ _
    rw [mem_removeWaiting h.waitLock.nodup hi (hidx ▸ hr)]
    exact and_iff_right (hother hx (by rw [hp]; rfl) hloop)
  | @connect x i ses buffer g targetId k r hx hp hcmd hm ht hi hr =>
    -- only the client that the `/connect` names loses its place
    by_cases htarget : s.InLoop y ∧ c.id = targetId
    · obtain ⟨hloop, rfl⟩ := htarget
      have hreach := (ho ses hx buffer (Session.mem_pending.mpr hp)).2 hcmd c.id ht
      refine h.taken hc hy hx hi hr (hreach ?_) rfl hloop hto
      by_contra hn
      rw [waitingIndex_none_iff.mpr hn] at hi
      cases hi
    · refine hbeside fun hloop => ?_
      change c.id ∈ r.waiting ↔ _
      rw [mem_removeWaiting h.waitLock.nodup hi hr]
      exact and_iff_right fun hid => htarget ⟨hloop, hid⟩
  | _ => exact hbeside fun _ => Iff.rfl

end NetTools.IRC
