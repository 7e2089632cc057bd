import Mathlib.Algebra.Order.BigOperators.Group.List
import NetTools.IRCClient
import NetTools.IRCWaitingPorts

namespace NetTools.IRC

open CText CArray Schedule Registry

/-- `list_response` after the loop over the waiting clients. -/
def listResponse (r : Registry) : Bytes :=
  (List.range r.waitingCount.toNat).foldl (fun text i => text ++ r.waitingClients i ++ ascii "\n")
    (ascii "Waiting clients:\n")

/-- What client `y` makes the server do with a line, before any other step. -/
def afterCommand (s : Server) (y : ℕ) (line stackId : Bytes) (stackIndex : Int) : Option Server :=
  (s.step (.recvCommand y line)).bind fun t => t.step (.exec y stackId stackIndex)

/-- `/list` of client `y` is answered, inside the buffer, with the header and every waiting id on a
line of its own. -/
def Lists (s : Server) (y : ℕ) : Prop :=
  ∀ stackId stackIndex, ∃ t u, afterCommand s y (ascii "/list") stackId stackIndex = some t ∧
    t.step (.sendList y) = some u ∧
    sentTo u y = sentTo s y ++ [.waitingList s.registry.waiting] ∧
    listResponse t.registry = (Reply.waitingList s.registry.waiting).text ∧
    (listResponse t.registry).length < bufferSize ∧
    (listResponse t.registry).splitOn 10 =
      ascii "Waiting clients:" :: s.registry.waiting ++ [[]]

/-- `/connect T` of client `y` is answered with a `CONNECT` that its receiver reads back. -/
def Connects (s : Server) (y : ℕ) (targetId : Bytes) : Prop :=
  ∀ stackId stackIndex, ∃ t port,
    afterCommand s y (ascii "/connect " ++ targetId) stackId stackIndex = some t ∧
    connectPort s.registry targetId = some port ∧
    sentTo t y = sentTo s y ++ [.connect targetId port] ∧
    scanConnect (Reply.connect targetId port).text = some (targetId, ascii "127.0.0.1", port) ∧
    serverMessage (Reply.connect targetId port).text = some (.connect targetId port)

/-- `%s` reads the whole text. -/
def IsToken (id : Bytes) : Prop := id ≠ [] ∧ ∀ b ∈ id, isSpace b = false

/-- The header and the lines of these ids leave room for the final NUL byte. -/
def ListFits (ids : List Bytes) : Prop :=
  (ascii "Waiting clients:\n").length+(ids.map fun id => id.length+1).sum < bufferSize

/-- A port is stored only for a client whose id is a token and fits on the list. -/
def StoresToken (s : Server) : Action → Prop
  | .recvPort x data => ∀ ses ∈ s.sessions x, 0 < atoi data →
      IsToken ses.clientId ∧ ListFits (s.registry.waiting ++ [ses.clientId])
  | _ => True

instance (id : Bytes) : Decidable (IsToken id) :=
  inferInstanceAs (Decidable (id ≠ [] ∧ ∀ b ∈ id, isSpace b = false))

instance (ids : List Bytes) : Decidable (ListFits ids) :=
  inferInstanceAs (Decidable (_ < bufferSize))

instance (s : Server) : ∀ a, Decidable (StoresToken s a)
  | .recvPort x data => inferInstanceAs (Decidable (∀ ses ∈ s.sessions x, 0 < atoi data →
      IsToken ses.clientId ∧ ListFits (s.registry.waiting ++ [ses.clientId])))
  | .accept .. | .recvId .. | .register _ | .recvCommand .. | .removeClient _ | .exec ..
  | .sendList _ => isTrue trivial

/-- What `client_id` can hold: the text ends in front of the first line feed or NUL byte. -/
def IsCut (id : Bytes) : Prop := id.length < idSize ∧ ∀ b ∈ id, b ≠ 0 ∧ b ≠ 10

/-- Ids are cut where they are received, and ports are values of type `int`. -/
structure FieldsInRange (s : Server) : Prop where
  sessions : ∀ x ses, s.sessions x = some ses → IsCut ses.clientId
  waiting : ∀ id ∈ s.registry.waiting, IsCut id
  ports : ∀ i, -2^31 ≤ (s.registry.clients i).port ∧ (s.registry.clients i).port < 2^31

section Text

theorem isCut_of_lineIn {data id : Bytes} (h : lineIn idSize data = some id) : IsCut id := by
  simp only [lineIn, Option.ite_none_right_eq_some, Option.some.injEq] at h
  obtain ⟨hlen, rfl⟩ := h
  refine ⟨hlen, ?_⟩
  intro b hb
  simpa using List.mem_takeWhile_imp hb

theorem isName_iff {id : Bytes} (h : IsCut id) : IsName id ↔ IsToken id := by
  constructor
  · rintro ⟨hne, -, hall⟩
    exact ⟨hne, fun b hb => (hall b hb).2⟩
  · rintro ⟨hne, hall⟩
    exact ⟨hne, h.1, fun b hb => ⟨(h.2 b hb).1, hall b hb⟩⟩

/-- A `CONNECT` is only read with a token for an id. -/
theorem isToken_of_scanConnect {data id ip : Bytes} {port : Int}
    (h : scanConnect data = some (id, ip, port)) : IsToken id := by
  simp only [scanConnect, Option.ite_none_right_eq_some, Option.some.injEq, Prod.mk.injEq] at h
  obtain ⟨⟨-, hne, -⟩, rfl, -⟩ := h
  refine ⟨hne, ?_⟩
  intro b hb
  simpa using List.mem_takeWhile_imp hb

theorem scanToken_of_isToken {id : Bytes} (h : IsToken id) : scanToken (32 :: id) = (id, []) := by
  obtain ⟨b, bs, hid⟩ := List.exists_cons_of_ne_nil h.1
  have hb : isSpace b = false := h.2 b (by rw [hid]; exact List.mem_cons_self)
  have hall : ∀ b ∈ id, (!isSpace b) = true := by
    intro b hb
    rw [h.2 b hb]
    decide
  have hskip : (32 :: id).dropWhile isSpace = id := by
    rw [List.dropWhile_cons_of_pos (by decide), hid, List.dropWhile_cons_of_neg (by simp [hb])]
  rw [scanToken, hskip, List.takeWhile_eq_self_iff.mpr hall, List.dropWhile_eq_nil_iff.mpr hall]

/-- `%d` reads back what `%d` printed in front of a line feed. -/
theorem atoi_decimalInt {port : Int} (hge : -2^31 ≤ port) (hlt : port < 2^31) :
    atoi (32 :: (decimalInt port ++ [10])) = port := by
  have hten : ∀ b ∈ List.head? [(10 : Byte)], isDigit b = false := by decide
  calc atoi (32 :: (decimalInt port ++ [10]))
      = longToInt (leadingNumber (32 :: (decimalInt port ++ [10]))) := atoi_eq_longToInt _
    _ = longToInt (leadingNumber (decimalInt port ++ [10])) := by
        rw [leadingNumber_cons_space (by decide)]
    _ = longToInt port := by rw [leadingNumber_decimalInt port hten]
    _ = port := longToInt_of_range hge hlt

end Text

section Lines

/-- The loop of `strcat` appends a line for each id. -/
theorem foldl_strcat (a : ℕ → Bytes) (l : List ℕ) (text : Bytes) :
    l.foldl (fun text i => text ++ a i ++ ascii "\n") text =
      text ++ ((l.map a).map fun id => id ++ ascii "\n").flatten := by
  induction l generalizing text with
  | nil => simp
  | cons i l ih =>
    rw [List.foldl_cons, ih, List.map_cons, List.map_cons, List.flatten_cons]
    simp only [List.append_assoc]

theorem listResponse_eq (r : Registry) : listResponse r = (Reply.waitingList r.waiting).text :=
  foldl_strcat _ _ _

theorem length_waitingList (ids : List Bytes) : (Reply.waitingList ids).text.length =
    (ascii "Waiting clients:\n").length+(ids.map fun id => id.length+1).sum := by
  have hline (id : Bytes) : (id ++ ascii "\n").length = id.length+1 := List.length_append
  rw [Reply.text, List.length_append, List.length_flatten, List.map_map]
  simp only [Function.comp_def, hline]

/-- The lines of a text in which each one ends with a line feed. -/
theorem splitOn_lines {lines : List Bytes} (h : ∀ line ∈ lines, (10 : Byte) ∉ line) :
    (lines.map fun line => line ++ ascii "\n").flatten.splitOn 10 = lines ++ [[]] := by
  induction lines with
  | nil => decide
  | cons line lines ih =>
    obtain ⟨hline, hlines⟩ := List.forall_mem_cons.mp h
    have hcons : ((line :: lines).map fun line => line ++ ascii "\n").flatten =
        line ++ 10 :: (lines.map fun line => line ++ ascii "\n").flatten := by
      rw [List.map_cons, List.flatten_cons, List.append_assoc]
      rfl
    rw [hcons, List.splitOn_append_cons_self_of_not_mem hline, ih hlines, List.cons_append]

/-- Read line by line, the list is the header and the waiting ids. -/
theorem splitOn_waitingList {ids : List Bytes} (h : ∀ id ∈ ids, IsCut id) :
    (Reply.waitingList ids).text.splitOn 10 = ascii "Waiting clients:" :: ids ++ [[]] := by
  have hids : ∀ line ∈ ascii "Waiting clients:" :: ids, (10 : Byte) ∉ line := by
    intro line hline hten
    rcases List.mem_cons.mp hline with rfl | hid
    · revert hten
      decide
    · exact ((h line hid).2 10 hten).2 rfl
  exact splitOn_lines hids

/-- Fewer ids fit where more of them did. -/
theorem ListFits.sublist {ids ids' : List Bytes} (h : ListFits ids) (hsub : ids'.Sublist ids) :
    ListFits ids' := by
  have hle : (ids'.map fun id => id.length+1).sum ≤ (ids.map fun id => id.length+1).sum := by
    apply List.Sublist.sum_le_sum (hsub.map _)
    intro n hn
    exact Nat.zero_le n
  unfold ListFits at h ⊢
  omega

end Lines

section Invariant

theorem isCut_nil : IsCut [] := ⟨by decide, by simp⟩

/-- The actor of a step keeps its id or has it cut anew. -/
theorem Step.isCut_actor {s t : Server} {a : Action} (h : Step s a t)
    (hs : ∀ x ses, s.sessions x = some ses → IsCut ses.clientId) {ses' : Session}
    (hx' : t.sessions a.actor = some ses') : IsCut ses'.clientId := by
  cases h with
  | accept hx hfd =>
    obtain rfl := Option.some.inj ((put_sessions_self s _ _).symm.trans hx')
    exact isCut_nil
  | recvId hx hp hl hid =>
    obtain rfl := Option.some.inj ((put_sessions_self s _ _).symm.trans hx')
    exact isCut_of_lineIn hid
  | refuse hx | register hx | hangUp hx | recvCommand hx | removeClient hx | listNone hx
  | listSome hx | sendList hx | waitLock hx | waitAgain hx | portOk hx | portBad hx
  | connectNone hx | connect hx | stopWait hx | quit hx | badPrompt hx =>
    have hcut := hs _ _ hx
    rw [← Option.some.inj ((put_sessions_self s _ _).symm.trans hx')]
    exact hcut

/-- A step writes ports that are -1, in another entry, or read by `atoi`. -/
theorem Step.ports {s t : Server} {a : Action} (h : Step s a t) {P : Int → Prop}
    (hs : ∀ i, P (s.registry.clients i).port) (hnew : P (-1)) (hread : ∀ text, P (atoi text))
    (i : ℕ) : P (t.registry.clients i).port := by
  have hupdate (k : ℕ) (c : Client) (hc : P c.port) :
      P (Function.update s.registry.clients k c i).port := by
    rw [Function.update_apply]
    split_ifs
    · exact hc
    · exact hs i
  cases h with
  | register hx hp hm ht hr =>
    obtain ⟨-, rfl⟩ := addClient_eq hr
    exact hupdate _ _ hnew
  | @removeClient x ses hx hp hm =>
    show P ((s.registry.removeClient ses.socket).clients i).port
    unfold Registry.removeClient
    split
    · exact hupdate _ _ (hs _)
    · exact hs i
  | portOk hx hp hm hl hport hr =>
    obtain ⟨-, -, rfl⟩ := addWaiting_eq hr
    exact hupdate _ _ (hread _)
  | connect hx hp hc hm ht hi hr | stopWait hx hp hc hm hr =>
    obtain ⟨-, hclients, -⟩ := removeWaiting_slots hr
    have hport := hs i
    rw [← hclients] at hport
    exact hport
  | _ => exact hs i

theorem fieldsInRange_step {s t : Server} {a : Action} (hs : FieldsInRange s) (h : Step s a t) :
    FieldsInRange t := by
  constructor
  · intro y ses hy
    by_cases hya : y = a.actor
    · subst hya
      exact h.isCut_actor hs.sessions hy
    · rw [h.sessions_ne hya] at hy
      exact hs.sessions y ses hy
  · intro id hid
    rcases h.waiting with hw | ⟨-, hw⟩ | ⟨x, ses, data, -, hx, -, -, -, hw⟩
    · exact hs.waiting id (hw ▸ hid)
    · exact hs.waiting id (hw.subset hid)
    · rw [hw, List.mem_append, List.mem_singleton] at hid
      rcases hid with hid | rfl
      · exact hs.waiting id hid
      · exact hs.sessions x ses hx
  · exact h.ports (P := fun port => -2^31 ≤ port ∧ port < 2^31) hs.ports (by decide) atoi_range

theorem fieldsInRange_of_reachable {C : Server → Action → Prop} {s : Server}
    (h : Reachable Server.step C .start s) : FieldsInRange s := by
  apply h.invariant
  · refine ⟨?_, ?_, ?_⟩
    · intro x ses hx
      cases hx
    · intro id hid
      cases hid
    · intro i
      show -2^31 ≤ (0 : Int) ∧ (0 : Int) < 2^31
      decide
  · intro s a t hs _ hstep
    exact fieldsInRange_step hs (step_cases hstep)

end Invariant

section Commands

variable {s : Server} {y : ℕ} {ses : Session}

/-- A line is executed in the session that received it. -/
theorem afterCommand_eq (hy : s.sessions y = some ses) (hp : ses.phase = .reading) {line : Bytes}
    (hline : IsLine line) (hlen : line.length ≤ bufferSize) (g : Bytes) (k : Int) :
    afterCommand s y line g k =
      (s.put y (ses.at (.running line))).execCommand y (ses.at (.running line)) line g k := by
  have hrecv : s.step (.recvCommand y line) = some (s.put y (ses.at (.running line))) := by
    simp only [Server.step, hy, Option.bind_some, hp, hlen, true_and, ↓reduceIte, hline.1,
      hline.2, Option.map_some]
  rw [afterCommand, hrecv, Option.bind_some, Server.step, put_sessions_self, Option.bind_some]
  rfl

/-- `/list` is answered when there is a waiting client and the list fits. -/
theorem lists_of_fits (hs : FieldsInRange s) (hy : s.sessions y = some ses)
    (hp : ses.phase = .reading) (hm : s.mutex = none) (hne : s.registry.waiting ≠ [])
    (hfits : ListFits s.registry.waiting) : Lists s y := by
  intro g k
  have hcount : s.registry.waitingCount ≠ 0 := by
    intro h0
    apply hne
    rw [Registry.waiting, h0]
    exact slots_zero _
  have htext := listResponse_eq s.registry
  have hlen : (Reply.waitingList s.registry.waiting).text.length < bufferSize := by
    rw [length_waitingList]
    exact hfits
  let t := (s.put y (ses.at (.running (ascii "/list")))).put y (ses.at .listing)
  let u := t.put y ((ses.at .listing).say (.waitingList s.registry.waiting) .reading)
  refine ⟨t, u, ?_, ?_, ?_, htext, ?_, ?_⟩
  · rw [afterCommand_eq hy hp (by decide) (by decide)]
    exact if_neg hcount
  · rw [Server.step, put_sessions_self, Option.bind_some]
    exact if_pos ⟨rfl, hm, hlen⟩
  · simp only [u, sentTo, put_sessions_self, hy, Option.map_some, Option.getD_some]
    rfl
  · rw [← htext] at hlen
    exact hlen
  · show (listResponse s.registry).splitOn 10 = _
    rw [htext]
    exact splitOn_waitingList hs.waiting

/-- Only a list that fits is sent. -/
theorem fits_of_lists (h : Lists s y) : ListFits s.registry.waiting := by
  obtain ⟨t, u, -, -, -, htext, hlen, -⟩ := h [] 0
  rw [htext, length_waitingList] at hlen
  exact hlen

theorem isLine_connect {id : Bytes} (h : IsCut id) :
    IsLine (ascii "/connect " ++ id) ∧ (ascii "/connect " ++ id).length < bufferSize := by
  have hlen : (ascii "/connect " ++ id).length < bufferSize := by
    rw [List.length_append]
    exact (Nat.add_lt_add_left h.1 _).trans (by decide)
  have hword : ∀ b ∈ ascii "/connect ", b ≠ 0 ∧ b ≠ 10 := by decide
  refine ⟨⟨by simp [ascii], ?_⟩, hlen⟩
  apply lineIn_of_plain hlen
  exact List.forall_mem_append.mpr ⟨hword, h.2⟩

/-- A waiting id that is a token is read out of the command, found, and read back. -/
theorem connects_of_isToken (hs : FieldsInRange s) (hy : s.sessions y = some ses)
    (hp : ses.phase = .reading) (hm : s.mutex = none) {targetId : Bytes}
    (hmem : targetId ∈ s.registry.waiting) (htoken : IsToken targetId) :
    Connects s y targetId := by
  intro g k
  have hcut := hs.waiting targetId hmem
  obtain ⟨hline, hlen⟩ := isLine_connect hcut
  -- the server reads the id out of the command
  have hcommand : commandOf (ascii "/connect " ++ targetId) = .connect := by
    apply commandOf_connect
    rw [startsWith, List.isPrefixOf_iff_prefix]
    exact ⟨32 :: targetId, rfl⟩
  have htarget : connectTarget (ascii "/connect " ++ targetId) g = some targetId := by
    have hdrop : (ascii "/connect " ++ targetId).drop 8 = 32 :: targetId := rfl
    simp only [connectTarget, hdrop, scanToken_of_isToken htoken, htoken.1, hcut.1, ↓reduceIte]
  -- it finds the id, and takes it off the list
  obtain ⟨i, hi⟩ := Option.ne_none_iff_exists'.mp fun hnone => waitingIndex_none_iff.mp hnone hmem
  obtain ⟨r, hr⟩ := removeWaiting_defined s.registry i
  let running := ses.at (.running (ascii "/connect " ++ targetId))
  let port := (s.registry.clients i).port
  let t := ((s.put y running).put y (running.say (.connect targetId port) .reading)).withRegistry r
  -- and the client reads the reply back
  have hscan : scanConnect (Reply.connect targetId port).text =
      some (targetId, ascii "127.0.0.1", port) := by
    obtain ⟨hge, hlt⟩ := hs.ports i
    have hread := scanConnect_connect ((isName_iff hcut).mpr htoken) port
    rwa [atoi_decimalInt hge hlt] at hread
  refine ⟨t, port, ?_, ?_, ?_, hscan, serverMessage_of_scanConnect hscan⟩
  · have hmutex : (s.put y running).mutex = none := hm
    have hindex : (s.put y running).registry.waitingIndex targetId = some i := hi
    have hremove : (s.put y running).registry.removeWaiting i = some r := hr
    rw [afterCommand_eq hy hp hline hlen.le]
    simp only [Server.execCommand, hcommand, hmutex, htarget, hindex, hremove, ↓reduceIte,
      Option.bind_some, Option.map_some, running]
    rfl
  · rw [connectPort, hi, Option.map_some]
  · have hself : t.sessions y = some (running.say (.connect targetId port) .reading) :=
      put_sessions_self _ _ _
    simp only [sentTo, hself, hy, Option.map_some, Option.getD_some]
    rfl

theorem isToken_of_connects {targetId : Bytes} (h : Connects s y targetId) : IsToken targetId := by
  obtain ⟨t, port, -, -, -, hscan, -⟩ := h [] 0
  exact isToken_of_scanConnect hscan

/-- In front of a client that can send a command, a waiting id is listed and can be connected to
exactly when the list fits and the id is a token. -/
theorem lists_connects_iff (hs : FieldsInRange s) (hy : s.sessions y = some ses)
    (hp : ses.phase = .reading) (hm : s.mutex = none) {targetId : Bytes}
    (hmem : targetId ∈ s.registry.waiting) :
    Lists s y ∧ Connects s y targetId ↔ ListFits s.registry.waiting ∧ IsToken targetId := by
  constructor
  · rintro ⟨hlist, hconnect⟩
    exact ⟨fits_of_lists hlist, isToken_of_connects hconnect⟩
  · rintro ⟨hfits, htoken⟩
    exact ⟨lists_of_fits hs hy hp hm (List.ne_nil_of_mem hmem) hfits,
      connects_of_isToken hs hy hp hm hmem htoken⟩

end Commands

/-- When only ids are stored that are tokens and fit, all waiting ids are tokens and fit. -/
theorem waiting_of_storesToken {s : Server} (h : Reachable Server.step StoresToken .start s) :
    ListFits s.registry.waiting ∧ ∀ id ∈ s.registry.waiting, IsToken id := by
  apply h.invariant
  · refine ⟨by decide, ?_⟩
    intro id hid
    cases hid
  · rintro s a t ⟨hfits, htokens⟩ hstores hstep
    rcases (step_cases hstep).waiting with hw | ⟨-, hw⟩ | ⟨x, ses, data, rfl, hx, -, -, hport, hw⟩
    · rw [hw]
      exact ⟨hfits, htokens⟩
    · exact ⟨hfits.sublist hw, fun id hid => htokens id (hw.subset hid)⟩
    · obtain ⟨htoken, hfits'⟩ := hstores ses hx hport
      rw [hw]
      refine ⟨hfits', ?_⟩
      intro id hid
      rcases List.mem_append.mp hid with hid | hid
      · exact htokens id hid
      · rw [List.mem_singleton.mp hid]
        exact htoken

/-- Every waiting client is listed for, and can be reached by, a client that can send a command. -/
def WaitersConnectable (s : Server) : Prop :=
  ∀ y ses, s.sessions y = some ses → ses.phase = .reading → s.mutex = none →
    ∀ targetId ∈ s.registry.waiting, Lists s y ∧ Connects s y targetId

/-- In every state a waiting client can be listed and connected to exactly when its id is a token
and the list fits; and at the end of a run in which ports are stored only for such ids, every
waiting client can. -/
theorem waiters_connectable {s : Server} (h : Reachable Server.step anyStep .start s) :
    (Reachable Server.step StoresToken .start s → WaitersConnectable s) ∧
      ∀ y ses, s.sessions y = some ses → ses.phase = .reading → s.mutex = none →
        ∀ targetId ∈ s.registry.waiting, (Lists s y ∧ Connects s y targetId ↔
          ListFits s.registry.waiting ∧ IsToken targetId) := by
  have hs := fieldsInRange_of_reachable h
  constructor
  · intro hstores y ses hy hp hm targetId hmem
    obtain ⟨hfits, htokens⟩ := waiting_of_storesToken hstores
    apply (lists_connects_iff hs hy hp hm hmem).mpr
    exact ⟨hfits, htokens targetId hmem⟩
  · intro y ses hy hp hm targetId hmem
    exact lists_connects_iff hs hy hp hm hmem

set_option maxRecDepth 4096 in
/-- A waiter whose id is one token, and a client that can ask for it. -/
theorem waiters_connectable_oneWaiter :
    ∃ s, Reachable Server.step StoresToken .start s ∧ s.registry.waiting = [ascii "a"] ∧
      Lists s 1 ∧ Connects s 1 (ascii "a") := by
  have hrun : ∃ s, Reachable Server.step StoresToken .start s ∧
      (∃ ses, s.sessions 1 = some ses ∧ ses.phase = .reading) ∧ s.mutex = none ∧
        s.registry.waiting = [ascii "a"] := by
    refine exists_reachable_of_replayIf (joinAs 0 "a" ++ joinAs 1 "c" ++ waitOn 0 "5001") _ ?_
    decide
  obtain ⟨s, hs, ⟨ses, hy, hp⟩, hm, hw⟩ := hrun
  have hconnectable := (waiters_connectable hs.any).1 hs 1 ses hy hp hm (ascii "a")
  rw [hw] at hconnectable
  exact ⟨s, hs, hw, hconnectable List.mem_cons_self⟩

set_option maxRecDepth 4096 in
/-- A client with a blank in its id waits, and no other client can connect to it. -/
theorem not_waiters_connectable :
    ¬ ∀ s, Reachable Server.step anyStep .start s → WaitersConnectable s := by
  intro h
  have hrun : ∃ s, Reachable Server.step anyStep .start s ∧
      (∃ ses, s.sessions 1 = some ses ∧ ses.phase = .reading) ∧ s.mutex = none ∧
        ascii "a b" ∈ s.registry.waiting := by
    refine exists_reachable_of_replayIf (joinAs 0 "a b" ++ joinAs 1 "c" ++ waitOn 0 "5001") _ ?_
    decide
  obtain ⟨s, hs, ⟨ses, hy, hp⟩, hm, hmem⟩ := hrun
  have htoken := isToken_of_connects (h s hs 1 ses hy hp hm _ hmem).2
  exact absurd htoken (by decide)

end NetTools.IRC
