import NetTools.IRCInFlight

namespace NetTools.IRC

open CText Schedule Registry

/-- The conversations of a process. -/
def ClientProcess.talks (c : ClientProcess) : ℕ :=
  (if c.serverThread = .joining then 1 else 0)+c.waitTalks

/-- The mode of a client and its outlook agree; `sought` says that a connection to a client
that is off the list is on its way. -/
inductive InStep (c : ClientProcess) (sought : Prop) : Standing → Prop
  | stray : InStep c sought .stray
  | idle (hm : c.mode ≠ .wait) (hb : c.backlog = [])
      (ht : c.talks ≤ if c.mode = .chat then 1 else 0) : InStep c sought .unlisted
  | opening (hm : c.mode = .wait) (ho : c.opening = true) (hb : c.backlog = [])
      (ht : c.talks = 0) : InStep c sought .port
  | waiting (hm : c.mode = .wait) (ho : c.opening = false) (hb : c.backlog = [])
      (ht : c.talks = 0) : InStep c sought .listed
  | taken (hm : c.mode = .wait) (ho : c.opening = false) (ht : c.talks = 0)
      (hb : c.backlog = [] ∧ sought ∨ ∃ peerId, IsName peerId ∧ c.backlog = [peerId]) :
      InStep c sought .unlisted

/-- The connection of a client: its id comes first, and the handler knows it by its id. -/
def Linked (s : System) (x : ℕ) (c : ClientProcess) : Prop :=
  match s.server.sessions x with
  | none => (s.toServer x).head? = some c.id
  | some ses =>
    match ses.phase with
    | .joining => (s.toServer x).head? = some c.id
    | .leaving => False
    | .ended => True
    | _ => ses.clientId = c.id

def System.Refused (s : System) (x : ℕ) : Prop := ∃ ses ∈ s.server.sessions x, ses.phase = .ended

structure ClientOk (s : System) (x : ℕ) (c : ClientProcess) : Prop where
  name : IsName c.id
  linked : Linked s x c
  lines : ∀ m ∈ s.unexecuted x, IsLine m
  inStep : s.Refused x ∨ InStep c (s.InLoop x ∧ s.Named c.id) (s.outlook x)

structure SystemOk (s : System) : Prop where
  waitLock : WaitLock s.server
  unknown : ∀ x, x ∉ s.started → s.server.sessions x = none ∧ s.processes x = none ∧ s.toServer x = []
  distinct : ∀ x y ses other, s.server.sessions x = some ses → s.server.sessions y = some other →
    ses.phase.inLoop = true → other.phase.inLoop = true → ses.clientId = other.clientId → x = y
  clients : ∀ x c, s.processes x = some c → ClientOk s x c

theorem InStep.mono {c : ClientProcess} {p q : Prop} {e : Standing} (h : InStep c p e)
    (hpq : p → c.mode = .wait → c.opening = false → c.backlog = [] → e = .unlisted → q) :
    InStep c q e := by
  cases h with
  | stray => exact .stray
  | idle hm hb ht => exact .idle hm hb ht
  | opening hm ho hb ht => exact .opening hm ho hb ht
  | waiting hm ho hb ht => exact .waiting hm ho hb ht
  | taken hm ho ht hb =>
    refine .taken hm ho ht ?_
    rcases hb with ⟨hb, hp⟩ | hb
    · exact Or.inl ⟨hb, hpq hp hm ho hb rfl⟩
    · exact Or.inr hb

theorem InStep.ne_clash {c : ClientProcess} {p : Prop} {e : Standing} (h : InStep c p e) :
    e ≠ .clash := by
  cases h <;> decide

section Views

variable {s t : System} {x : ℕ}

theorem unexecuted_congr (hses : t.server.sessions x = s.server.sessions x)
    (hto : t.toServer x = s.toServer x) : t.unexecuted x = s.unexecuted x := by
  rw [System.unexecuted, System.unexecuted, hses, hto]

theorem standing_congr (hses : t.server.sessions x = s.server.sessions x)
    (hw : ∀ ses, s.server.sessions x = some ses → ses.phase.inLoop = true →
      (ses.clientId ∈ t.server.registry.waiting ↔ ses.clientId ∈ s.server.registry.waiting)) :
    t.standing x = s.standing x := by
  rw [System.standing, System.standing, hses]
  cases hx : s.server.sessions x with
  | none => rfl
  | some ses =>
    by_cases hl : ses.phase.inLoop = true
    · simp only [hw ses hx hl]
    · simp only [hl, false_and, Bool.false_eq_true]

theorem outlook_congr (hses : t.server.sessions x = s.server.sessions x)
    (hto : t.toServer x = s.toServer x)
    (hw : ∀ ses, s.server.sessions x = some ses → ses.phase.inLoop = true →
      (ses.clientId ∈ t.server.registry.waiting ↔ ses.clientId ∈ s.server.registry.waiting)) :
    t.outlook x = s.outlook x := by
  rw [System.outlook, System.outlook, standing_congr hses hw, unexecuted_congr hses hto]

theorem linked_congr {c c' : ClientProcess} (hses : t.server.sessions x = s.server.sessions x)
    (hto : (t.toServer x).head? = (s.toServer x).head?) (hid : c'.id = c.id) (h : Linked s x c) :
    Linked t x c' := by
  unfold Linked at h ⊢
  rw [hses, hto, hid]
  exact h

theorem refused_congr (hses : t.server.sessions x = s.server.sessions x) :
    t.Refused x ↔ s.Refused x := by
  rw [System.Refused, System.Refused, hses]

theorem inLoop_congr (hses : t.server.sessions x = s.server.sessions x) :
    t.InLoop x ↔ s.InLoop x := by
  rw [System.InLoop, System.InLoop, hses]

/-- A client that a step does not concern; if it is owed a connection, the connection has
to stay on its way. -/
theorem ClientOk.other {c : ClientProcess} (h : ClientOk s x c) (hc : s.processes x = some c)
    (hses : t.server.sessions x = s.server.sessions x) (hto : t.toServer x = s.toServer x)
    (hw : ∀ ses, s.server.sessions x = some ses → ses.phase.inLoop = true →
      (ses.clientId ∈ t.server.registry.waiting ↔ ses.clientId ∈ s.server.registry.waiting))
    (hnamed : s.Owed c.id x → s.Named c.id → t.Named c.id) : ClientOk t x c := by
  refine ⟨h.name, linked_congr hses (by rw [hto]) rfl h.linked, ?_, ?_⟩
  · rw [unexecuted_congr hses hto]
    exact h.lines
  · rw [refused_congr hses, outlook_congr hses hto hw, inLoop_congr hses]
    refine h.inStep.imp_right fun hin => hin.mono ?_
    rintro ⟨hl, hn⟩ hm ho hb he
    exact ⟨hl, hnamed ⟨hl, he, c, hc, rfl, hm, ho, hb⟩ hn⟩

end Views

section ClientSteps

variable {c : ClientProcess} {p : Prop} {e : Standing}

/-- A step that changes neither the mode nor what it depends on. -/
theorem InStep.congr {c' : ClientProcess} (h : InStep c p e) (hm : c'.mode = c.mode)
    (ho : c'.opening = c.opening) (hb : c'.backlog = c.backlog) (ht : c'.talks = c.talks) :
    InStep c' p e := by
  cases h with
  | stray => exact .stray
  | idle hm' hb' ht' => exact .idle (hm ▸ hm') (hb ▸ hb') (by rw [ht, hm]; exact ht')
  | opening hm' ho' hb' ht' => exact .opening (hm ▸ hm') (ho ▸ ho') (hb ▸ hb') (ht ▸ ht')
  | waiting hm' ho' hb' ht' => exact .waiting (hm ▸ hm') (ho ▸ ho') (hb ▸ hb') (ht ▸ ht')
  | taken hm' ho' ht' hb' =>
    refine .taken (hm ▸ hm') (ho ▸ ho') (ht ▸ ht') ?_
    rw [hb]
    exact hb'

/-- `main` on a line; in WAIT mode it must not be a `/stop_wait`. -/
theorem InStep.typeLine {c' : ClientProcess} {line : Bytes} (h : InStep c p e)
    (ho : c.opening = false) (hc : (c.typeLine line).1 = some c')
    (hstop : startsWith line (ascii "/stop_wait") = true → c.mode ≠ .wait) :
    InStep c' p (e.after (c.typeLine line).2) := by
  unfold ClientProcess.typeLine at hc ⊢
  split_ifs at hc ⊢ with hquit hchat hwait hmode hconnect hmode
  -- `/quit` and the texts for the peer send the server nothing
  · cases hc
    exact h
  · cases hc
    exact h
  · cases hc
    cases h with
    | stray => exact .stray
    | idle hm hb ht =>
      change InStep _ p (Standing.unlisted.next line)
      rw [Standing.next, commandOf_wait hwait]
      rw [if_neg hchat] at ht
      exact .opening rfl rfl hb (Nat.le_zero.mp ht)
    | opening hm | waiting hm | taken hm => exact absurd hm hmode
  · cases hc
    exact h
  · cases hc
    cases h with
    | stray => exact .stray
    | idle hm hb ht =>
      change InStep _ p (Standing.unlisted.next line)
      rw [Standing.next, commandOf_connect hconnect]
      exact .idle hm hb ht
    | opening hm | waiting hm | taken hm => exact absurd hm hmode
  · cases hc
    -- another line; a `/stop_wait` here is a stray one
    change InStep _ p (e.next line)
    have hother := commandOf_other hquit hwait hconnect
    cases h with
    | stray => exact .stray
    | opening hm ho' => exact absurd (ho.symm.trans ho') Bool.false_ne_true
    | idle hm hb ht =>
      rcases hother with hl | hl | ⟨hl, -⟩
      all_goals rw [Standing.next, hl]
      · exact .idle hm hb ht
      · exact .idle hm hb ht
      · exact .stray
    | waiting hm ho' hb ht =>
      rcases hother with hl | hl | ⟨-, hs⟩
      · rw [Standing.next, hl]
        exact .waiting hm ho' hb ht
      · rw [Standing.next, hl]
        exact .waiting hm ho' hb ht
      · exact absurd hm (hstop hs)
    | taken hm ho' ht hb =>
      rcases hother with hl | hl | ⟨-, hs⟩
      · rw [Standing.next, hl]
        exact .taken hm ho' ht hb
      · rw [Standing.next, hl]
        exact .taken hm ho' ht hb
      · exact absurd hm (hstop hs)

theorem InStep.sigint (h : InStep c p e) : InStep c.sigint.1 p (e.after c.sigint.2) := by
  unfold ClientProcess.sigint
  split
  · exact h
  · exact h
  · rename_i hwait
    change InStep _ p (e.next (ascii "/stop_wait"))
    have htalks (ht : c.talks = 0) (mode : Mode) : ClientProcess.talks { c with mode := .info } ≤
        if mode = .chat then 1 else 0 := by
      change c.talks ≤ _
      rw [ht]
      exact Nat.zero_le _
    cases h with
    | stray => exact .stray
    | idle hm => exact absurd hwait hm
    | opening hm ho hb ht => exact .idle nofun hb (htalks ht _)
    | waiting hm ho hb ht => exact .idle nofun hb (htalks ht _)
    | taken => exact .stray

theorem InStep.bindFails (h : InStep c p e) (hm : c.mode ≠ .wait) :
    InStep c.bindFails p e := by
  cases h with
  | stray => exact .stray
  | idle _ hb ht => exact .idle hm hb ht
  | opening hm' | waiting hm' | taken hm' => exact absurd hm' hm

theorem InStep.announce {port : ℕ} (h : InStep c p e) (ho : c.opening = true) (hport : port < 2^16)
    (hpos : c.mode = .wait → 0 < port) :
    InStep (c.announce port).1 p (e.after (c.announce port).2) := by
  change InStep _ p (e.next (decimal port))
  cases h with
  | stray => exact .stray
  | idle hm hb ht =>
    rw [Standing.next, commandOf_decimal]
    exact .idle hm hb ht
  | opening hm _ hb ht =>
    have hatoi : 0 < atoi (decimal port) := by
      rw [atoi_decimal (by omega)]
      have hp := hpos hm
      omega
    rw [Standing.next, if_pos hatoi]
    exact .waiting hm rfl hb ht
  | waiting _ ho' | taken _ ho' => exact absurd (ho'.symm.trans ho) Bool.false_ne_true

/-- `connect` brings a client out of INFO mode into its one conversation. -/
theorem InStep.connected (h : InStep c p e) (hm : c.mode = .info) : InStep c.connected p e := by
  cases h with
  | stray => exact .stray
  | idle _ hb ht =>
    refine .idle nofun hb ?_
    rw [hm, ClientProcess.talks] at ht
    have hw : c.waitTalks = 0 := by
      change _+c.waitTalks ≤ 0 at ht
      omega
    simp [ClientProcess.connected, ClientProcess.talks, hw]
  | opening hm' | waiting hm' | taken hm' =>
    rw [hm] at hm'
    cases hm'

/-- The connection reaches a client that is owed it. -/
theorem InStep.reached {peerId : Bytes} (h : InStep c p e) (hm : c.mode = .wait)
    (hb : c.backlog = []) (he : e = .unlisted) (hid : IsName peerId) :
    InStep { c with backlog := c.backlog ++ [peerId] } p e := by
  cases h with
  | stray => exact .stray
  | idle hm' => exact absurd hm hm'
  | taken _ ho ht =>
    refine .taken hm ho ht (Or.inr ⟨peerId, hid, ?_⟩)
    rw [hb]
    rfl
  | opening | waiting => cases he

theorem InStep.accepted {peerId : Bytes} {rest : List Bytes} (h : InStep c p e)
    (hb : c.backlog = peerId :: rest) :
    InStep (ClientProcess.accepted { c with backlog := rest } peerId) p e := by
  cases h with
  | stray => exact .stray
  | idle _ hb' | opening _ _ hb' | waiting _ _ hb' =>
    rw [hb] at hb'
    cases hb'
  | taken hm ho ht hb' =>
    rcases hb' with ⟨hb', -⟩ | ⟨peerId', hid, hb'⟩
    · rw [hb] at hb'
      cases hb'
    · rw [hb, List.cons.injEq] at hb'
      obtain ⟨rfl, rfl⟩ := hb'
      have hne : peerId.takeWhile (fun b => b ≠ 0) ≠ [] := by
        obtain ⟨b, bs, hcons⟩ := List.exists_cons_of_ne_nil hid.1
        have hz := (hid.2.2 b (by rw [hcons]; exact List.mem_cons_self)).1
        rw [hcons, List.takeWhile_cons_of_pos (by simpa using hz)]
        exact List.cons_ne_nil _ _
      rw [ClientProcess.accepted, if_neg hne]
      refine .idle nofun rfl ?_
      change (if c.serverThread = .joining then 1 else 0)+(c.waitTalks+1) ≤ 1
      unfold ClientProcess.talks at ht
      omega

/-- The end of a conversation brings its client back to INFO mode. -/
theorem InStep.leaves {c' : ClientProcess} (h : InStep c p e) (hm : c'.mode = .info)
    (hb : c'.backlog = c.backlog) (ht : c'.talks+1 = c.talks) : InStep c' p e := by
  cases h with
  | stray => exact .stray
  | idle hm' hb' ht' =>
    refine .idle (by rw [hm]; exact nofun) (hb.trans hb') ?_
    split_ifs at ht' ⊢ <;> omega
  | opening _ _ _ ht' | waiting _ _ _ ht' | taken _ _ ht' => omega

end ClientSteps

end NetTools.IRC
