import NetTools.IRCWaitLock
import Mathlib.Data.List.Count

namespace NetTools.IRC

open CText CArray Schedule Registry

/-- A reply of the log: to which session it went and under which id. -/
structure Sent where
  session : ℕ
  clientId : Bytes
  reply : Reply

/-- The server together with everything it has sent, in order. -/
structure Logged where
  server : Server
  log : List Sent

/-- What a step adds to the outbox of the session that takes it. -/
def newReplies (s : Server) (a : Action) (t : Server) : List Sent :=
  match t.sessions a.actor with
  | some ses => (ses.outbox.drop (sentTo s a.actor).length).map fun r => ⟨a.actor, ses.clientId, r⟩
  | none => []

namespace Logged

def start : Logged := ⟨.start, []⟩

def step (s : Logged) (a : Action) : Option Logged :=
  (s.server.step a).map fun t => ⟨t, s.log ++ newReplies s.server a t⟩

end Logged

def Reply.names (targetId : Bytes) : Reply → Bool
  | .connect id _ => id == targetId
  | _ => false

/-- The number of `CONNECT` replies that name an id. -/
def connectsTo (id : Bytes) (log : List Sent) : ℕ := log.countP fun e => e.reply.names id

/-- The number of `/wait` commands of an id that were answered with "Waiting". -/
def waitsUnder (id : Bytes) (log : List Sent) : ℕ :=
  log.countP fun e => e.clientId == id && e.reply == .waiting

/-- Erasing the entry at an index takes one occurrence of that entry away. -/
theorem count_eraseIdx_getElem {α : Type*} [BEq α] (l : List α) (i : ℕ) (hi : i < l.length)
    (a : α) :
    (l.eraseIdx i).count a + (if l[i] == a then 1 else 0) = l.count a := by
  have hperm := List.getElem_cons_eraseIdx_perm hi
  have hcount : ((l[i] :: l.eraseIdx i).count a) = l.count a := hperm.countP_eq (· == a)
  rw [← hcount, List.count_cons]

/-- A step whose actor says `l` adds exactly `l` to the log. -/
theorem newReplies_eq {s t : Server} {a : Action} {x : ℕ} {ses ses' : Session} {l : List Reply}
    (ha : a.actor = x) (hx : s.sessions x = some ses) (hx' : t.sessions x = some ses')
    (ho : ses'.outbox = ses.outbox ++ l) :
    newReplies s a t = l.map fun r => ⟨x, ses'.clientId, r⟩ := by
  subst ha
  have hlen : (sentTo s a.actor).length = ses.outbox.length := by
    rw [sentTo, hx]
    rfl
  simp only [newReplies, hx', ho, hlen, List.drop_left]

theorem connectsTo_map (id : Bytes) (x : ℕ) (clientId : Bytes) (l : List Reply) :
    connectsTo id (l.map fun r => ⟨x, clientId, r⟩) = l.countP fun r => r.names id := by
  rw [connectsTo, List.countP_map]
  rfl

/-- Handing out a waiter takes it off the list, and only a successful `/wait` brings an id
into it: no step raises handed-out plus waiting beyond the waits. -/
theorem Step.handout {s t : Server} {a : Action} (h : Step s a t) (id : Bytes) :
    connectsTo id (newReplies s a t) + t.registry.waiting.count id ≤
      s.registry.waiting.count id + waitsUnder id (newReplies s a t) := by
  -- no `CONNECT` is sent and the list does not grow
  have hquiet {x : ℕ} {ses ses' : Session} {l : List Reply} (ha : a.actor = x)
      (hx : s.sessions x = some ses) (hx' : t.sessions x = some ses')
      (ho : ses'.outbox = ses.outbox ++ l) (hc : l.countP (fun r => r.names id) = 0)
      (hw : t.registry.waiting.count id ≤ s.registry.waiting.count id) :
      connectsTo id (newReplies s a t) + t.registry.waiting.count id ≤
        s.registry.waiting.count id + waitsUnder id (newReplies s a t) := by
    rw [newReplies_eq ha hx hx' ho, connectsTo_map, hc]
    omega
  cases h with
  -- a new session has no outbox yet
  | @accept x socket hx hfd =>
    have hnone : newReplies s (.accept x socket)
        { s.put x ⟨socket, [], .joining, []⟩ with openSockets := socket :: s.openSockets } = [] := by
      simp [newReplies, Action.actor]
    rw [hnone]
    exact Nat.le_of_eq (Nat.add_comm _ _)
  | recvId hx | hangUp hx | recvCommand hx | listSome hx | waitLock hx | quit hx =>
    exact hquiet rfl hx (put_sessions_self s _ _) (List.append_nil _).symm rfl le_rfl
  | removeClient hx =>
    refine hquiet rfl hx (put_sessions_self s _ _) (List.append_nil _).symm rfl ?_
    simp only [Server.withRegistry, removeClient_waiting]
    exact le_rfl
  | refuse hx | listNone hx | sendList hx | waitAgain hx | portBad hx | connectNone hx
  | badPrompt hx =>
    exact hquiet rfl hx (put_sessions_self s _ _) rfl rfl le_rfl
  | @register x ses r hx hp hm ht hr =>
    obtain ⟨-, rfl⟩ := addClient_eq hr
    exact hquiet rfl hx (put_sessions_self s _ _) rfl rfl le_rfl
  | stopWait hx hp hc hm hr =>
    exact hquiet rfl hx (put_sessions_self s _ _) rfl rfl ((removeWaiting_sublist hr).count_le id)
  -- the list and the waits both grow by the client of this session
  | @portOk x ses data r hx hp hm hl hport hr =>
    have hx' : (((s.put x (ses.say .waiting .reading)).withRegistry r).withMutex none).sessions x =
        some (ses.say .waiting .reading) := put_sessions_self s x _
    have hwaits : waitsUnder id [⟨x, ses.clientId, .waiting⟩] = [ses.clientId].count id := by
      simp [waitsUnder, List.count]
    change _ + r.waiting.count id ≤ _ + waitsUnder id _
    rw [newReplies_eq (l := [.waiting]) rfl hx hx' rfl, addWaiting_waiting hr, List.count_append]
    exact Nat.le_of_eq ((Nat.zero_add _).trans (congrArg _ hwaits.symm))
  -- the reply counts one for the id that leaves the list, and for no other
  | @connect x i ses buffer g targetId k r hx hp hc hm ht hi hr =>
    obtain ⟨hlt, hid⟩ := waitingIndex_some hi
    have hlen : i < s.registry.waiting.length := by
      rw [Registry.waiting, slots_length]
      omega
    have hget : s.registry.waiting[i] = targetId := by
      simp only [Registry.waiting, slots_getElem, hid]
    have hcount := count_eraseIdx_getElem s.registry.waiting i hlen id
    rw [hget, ← removeWaiting_waiting hr hlt] at hcount
    have hx' : ((s.put x (ses.say (.connect targetId (s.registry.clients i).port)
        .reading)).withRegistry r).sessions x =
          some (ses.say (.connect targetId (s.registry.clients i).port) .reading) :=
      put_sessions_self s x _
    have hnamed : connectsTo id
        [⟨x, ses.clientId, .connect targetId (s.registry.clients i).port⟩] =
          if targetId == id then 1 else 0 := by
      simp [connectsTo, Reply.names, List.countP_cons]
    change connectsTo id _ + r.waiting.count id ≤ _
    rw [newReplies_eq (l := [.connect targetId (s.registry.clients i).port]) rfl hx hx' rfl, ← hcount]
    refine Nat.le_trans (Nat.le_of_eq ?_) (Nat.le_add_right _ _)
    exact (congrArg (· + _) hnamed).trans (Nat.add_comm _ _)

/-- The counting invariant of whole runs. -/
structure HandedOutOnce (s : Logged) : Prop where
  lock : WaitLock s.server
  bound : ∀ id, connectsTo id s.log + s.server.registry.waiting.count id ≤ waitsUnder id s.log

theorem handedOutOnce_step {s : Logged} {t : Server} {a : Action} (hs : HandedOutOnce s)
    (h : Step s.server a t) : HandedOutOnce ⟨t, s.log ++ newReplies s.server a t⟩ := by
  refine ⟨waitLock_step hs.lock h, ?_⟩
  intro id
  have hstep := h.handout id
  have hbound := hs.bound id
  simp only [connectsTo, waitsUnder, List.countP_append] at hstep hbound ⊢
  omega

theorem handedOutOnce_of_reachable {C : Logged → Action → Prop} {s : Logged}
    (h : Reachable Logged.step C .start s) : HandedOutOnce s := by
  apply h.invariant
  · exact ⟨waitLock_start, fun _ => le_rfl⟩
  · intro s a t hs _ hstep
    obtain ⟨u, hu, rfl⟩ := Option.map_eq_some_iff.mp hstep
    exact handedOutOnce_step hs (step_cases hu)

/-- A step only appends to the outbox of its actor. -/
theorem Step.outbox_prefix {s t : Server} {a : Action} (h : Step s a t) :
    sentTo s a.actor <+: sentTo t a.actor := by
  have hgrows {x : ℕ} {ses ses' : Session} (ha : a.actor = x) (hx : s.sessions x = some ses)
      (hx' : t.sessions x = some ses') (ho : ses.outbox <+: ses'.outbox) :
      sentTo s a.actor <+: sentTo t a.actor := by
    simpa only [sentTo, ha, hx, hx', Option.map_some, Option.getD_some] using ho
  cases h with
  | accept hx hfd =>
    simp only [sentTo, Action.actor, hx]
    exact List.nil_prefix
  | recvId hx | hangUp hx | recvCommand hx | listSome hx | waitLock hx | quit hx | removeClient hx =>
    exact hgrows rfl hx (put_sessions_self s _ _) List.prefix_rfl
  | refuse hx | listNone hx | sendList hx | waitAgain hx | portBad hx | connectNone hx
  | badPrompt hx
  | register hx | portOk hx | connect hx | stopWait hx =>
    exact hgrows rfl hx (put_sessions_self s _ _) (List.prefix_append _ _)

/-- The log holds what each session was sent, in order. -/
theorem log_eq_outbox (s : Logged) (h : Reachable Logged.step anyStep .start s) (x : ℕ) :
    (s.log.filter fun e => e.session = x).map Sent.reply = sentTo s.server x := by
  apply h.invariant (P := fun s : Logged =>
    (s.log.filter fun e => e.session = x).map Sent.reply = sentTo s.server x)
  · rfl
  · intro s a t hs _ hstep
    obtain ⟨u, hu, rfl⟩ := Option.map_eq_some_iff.mp hstep
    have hstep := step_cases hu
    change (List.filter _ (s.log ++ newReplies s.server a u)).map Sent.reply = sentTo u x
    rw [List.filter_append, List.map_append, hs]
    -- only the log of the actor grows
    by_cases hx : x = a.actor
    · subst hx
      obtain ⟨l, hl⟩ := hstep.outbox_prefix
      rw [← hl]
      congr 1
      rw [newReplies]
      cases hses : u.sessions a.actor with
      | none =>
        have hnil : sentTo u a.actor = [] := by
          rw [sentTo, hses]
          rfl
        rw [hnil, List.append_eq_nil_iff] at hl
        exact hl.2.symm
      | some ses =>
        have hout : ses.outbox = sentTo s.server a.actor ++ l := by
          rw [hl, sentTo, hses]
          rfl
        simp [hout, List.filter_map, Function.comp_def]
    · have hkeep : sentTo u x = sentTo s.server x := by
        rw [sentTo, hstep.sessions_ne hx, sentTo]
      have hnone (e : Sent) (he : e ∈ newReplies s.server a u) : e.session ≠ x := by
        unfold newReplies at he
        split at he
        · obtain ⟨r, -, rfl⟩ := List.mem_map.mp he
          exact Ne.symm hx
        · cases he
      have hfilter : (newReplies s.server a u).filter (fun e => e.session = x) = [] := by
        rw [List.filter_eq_nil_iff]
        intro e he
        simpa using hnone e he
      rw [hkeep, hfilter]
      exact List.append_nil _

/-- In every run and for every id, the `CONNECT` replies that name the id are no more than
the successful `/wait` commands under it, and the id is at most once in the waiting list. -/
theorem waiter_handed_out_once (s : Logged) (h : Reachable Logged.step anyStep .start s)
    (id : Bytes) :
    connectsTo id s.log ≤ waitsUnder id s.log ∧ s.server.registry.waiting.count id ≤ 1 := by
  have hs := handedOutOnce_of_reachable h
  constructor
  · have hbound := hs.bound id
    omega
  · exact List.nodup_iff_count_le_one.mp hs.lock.nodup id

set_option maxRecDepth 4096 in
/-- Two clients ask for the one that waits, and one of them gets it. -/
theorem waiter_handed_out_once_race :
    ∃ s, Reachable Logged.step anyStep .start s ∧ connectsTo (ascii "a") s.log = 1 ∧
      sentTo s.server 2 = [.connected (ascii "c"), .notWaiting] ∧
      connectsTo (ascii "a") s.log ≤ waitsUnder (ascii "a") s.log := by
  have hrun : ∃ s, Reachable Logged.step anyStep .start s ∧ connectsTo (ascii "a") s.log = 1 ∧
      sentTo s.server 2 = [.connected (ascii "c"), .notWaiting] := by
    refine exists_reachable_of_replayIf (joinAs 0 "a" ++ joinAs 1 "b" ++ joinAs 2 "c" ++
      waitOn 0 "5001" ++ [.recvCommand 1 (ascii "/connect a"), .recvCommand 2 (ascii "/connect a"),
        .exec 1 [] 0, .exec 2 [] 0]) _ ?_
    decide
  obtain ⟨s, hs, hcount, hsent⟩ := hrun
  exact ⟨s, hs, hcount, hsent, (waiter_handed_out_once s hs (ascii "a")).1⟩

end NetTools.IRC
