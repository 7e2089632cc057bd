import NetTools.IRCLiveSessions

namespace NetTools.IRC

open CText CArray Schedule Registry

/-- The ids in `clients[0..client_count)`. -/
def Registry.clientIds (r : Registry) : List Bytes :=
  slots (fun i => (r.clients i).id) r.clientCount

theorem clientIds_eq (r : Registry) : r.clientIds = (entries r).map Prod.fst := by
  simp only [Registry.clientIds, entries, slots, List.map_map]
  rfl

theorem clientIds_of_entries {r r' : Registry} (h : entries r' = entries r) :
    r'.clientIds = r.clientIds := by
  rw [clientIds_eq, h, clientIds_eq]

/-- The swap with the last entry takes one id off the list. -/
theorem clientIds_removeClient_perm {r : Registry} {socket i : ℕ}
    (hi : search (fun c => c.socket == socket) r.clients r.clientCount = some i) :
    ((r.clients i).id :: (r.removeClient socket).clientIds).Perm r.clientIds := by
  rw [clientIds_eq, clientIds_eq]
  exact (entries_removeClient hi).map Prod.fst

theorem clientIds_addClient {r r' : Registry} {id : Bytes} {socket : ℕ}
    (h : r.addClient id socket = some r') : r'.clientIds = r.clientIds ++ [id] := by
  rw [clientIds_eq, entries_addClient h, List.map_append, ← clientIds_eq]
  rfl

theorem idTaken_iff_mem {r : Registry} {id : Bytes} : r.idTaken id = true ↔ id ∈ r.clientIds := by
  rw [idTaken_iff, clientIds_eq]

theorem notMem_clientIds {r : Registry} {id : Bytes} (h : r.idTaken id = false) :
    id ∉ r.clientIds := by
  rw [← idTaken_iff_mem, h]
  exact Bool.false_ne_true

/-- No step of any handler brings an id into `clients` twice. -/
theorem clientIds_nodup_step {s t : Server} {a : Action} (hd : s.registry.clientIds.Nodup)
    (h : Step s a t) : t.registry.clientIds.Nodup := by
  cases h with
  | @register x ses r hx hp hm ht hr =>
    change r.clientIds.Nodup
    rw [clientIds_addClient hr, List.nodup_append_comm]
    exact List.nodup_cons.mpr ⟨notMem_clientIds ht, hd⟩
  | @removeClient x ses hx hp hm =>
    change (s.registry.removeClient ses.socket).clientIds.Nodup
    cases hi : search (fun c => c.socket == ses.socket) s.registry.clients s.registry.clientCount with
    | none =>
      simp only [Registry.removeClient, hi]
      exact hd
    | some i =>
      -- which entry has the socket number does not matter: one id goes, none comes
      have hcons := (clientIds_removeClient_perm hi).nodup_iff.mpr hd
      exact (List.nodup_cons.mp hcons).2
  | portOk hx hp hm hl hport hr => exact clientIds_of_entries (entries_addWaiting hr) ▸ hd
  | connect hx hp hc hm ht hi hr => exact clientIds_of_entries (entries_removeWaiting hr) ▸ hd
  | stopWait hx hp hc hm hr => exact clientIds_of_entries (entries_removeWaiting hr) ▸ hd
  | _ => exact hd

theorem clientIds_nodup_of_reachable {C : Server → Action → Prop} {s : Server}
    (h : Reachable Server.step C .start s) : s.registry.clientIds.Nodup :=
  h.invariant (P := fun s => s.registry.clientIds.Nodup) List.nodup_nil
    fun _ _ _ hd _ hstep => clientIds_nodup_step hd (step_cases hstep)

/-- The step answers session `x` that its id is taken. -/
def Refuses (s : Server) (x : ℕ) (t : Server) : Prop := sentTo t x = sentTo s x ++ [.idTaken]

theorem sentTo_put (s : Server) (x : ℕ) (ses : Session) : sentTo (s.put x ses) x = ses.outbox := by
  rw [sentTo, put_sessions_self]
  rfl

theorem sentTo_of {s : Server} {x : ℕ} {ses : Session} (hx : s.sessions x = some ses) :
    sentTo s x = ses.outbox := by
  rw [sentTo, hx]
  rfl

/-- In every run the registered ids are distinct. The critical section of a registration
refuses the id exactly when it is among them and then leaves the registry alone; any other
id it appends. -/
theorem registered_ids_distinct (s : Server) (h : Reachable Server.step anyStep .start s) :
    s.registry.clientIds.Nodup ∧
    ∀ x ses t, s.sessions x = some ses → s.step (.register x) = some t →
      (Refuses s x t ↔ ses.clientId ∈ s.registry.clientIds) ∧
      (Refuses s x t → t.registry = s.registry) ∧
      (¬ Refuses s x t → t.registry.clientIds = s.registry.clientIds ++ [ses.clientId]) := by
  refine ⟨clientIds_nodup_of_reachable h, ?_⟩
  intro x ses t hx hs
  -- the two branches of the critical section
  cases step_cases hs with
  | @refuse _ ses' hx' hp hm ht =>
    obtain rfl : ses = ses' := Option.some.inj (hx.symm.trans hx')
    have hrefuses : Refuses s x ((s.put x (ses.say .idTaken .ended)).close ses.socket) := by
      change sentTo (s.put x (ses.say .idTaken .ended)) x = _
      rw [sentTo_put, sentTo_of hx]
      rfl
    exact ⟨iff_of_true hrefuses (idTaken_iff_mem.mp ht), fun _ => rfl, absurd hrefuses⟩
  | @register _ ses' r hx' hp hm ht hr =>
    obtain rfl : ses = ses' := Option.some.inj (hx.symm.trans hx')
    have haccepts : ¬ Refuses s x
        ((s.put x (ses.say (.connected ses.clientId) .reading)).withRegistry r) := by
      change ¬ sentTo (s.put x (ses.say (.connected ses.clientId) .reading)) x = _
      rw [sentTo_put, sentTo_of hx]
      simp [Session.say]
    exact ⟨iff_of_false haccepts (notMem_clientIds ht), fun hrefuses => absurd hrefuses haccepts,
      fun _ => clientIds_addClient hr⟩

set_option maxRecDepth 4096 in
/-- A fourth client asks for an id in use, after the first one has left. -/
theorem registered_ids_distinct_refused :
    ∃ s t, Reachable Server.step anyStep .start s ∧ s.registry.clientIds = [ascii "c", ascii "b"] ∧
      s.step (.register 3) = some t ∧ Refuses s 3 t ∧ t.registry = s.registry := by
  have hrun : ∃ s, Reachable Server.step anyStep .start s ∧
      s.registry.clientIds = [ascii "c", ascii "b"] ∧
      (s.sessions 3).map Session.clientId = some (ascii "b") ∧
      (s.step (.register 3)).isSome = true := by
    refine exists_reachable_of_replayIf (joinAs 0 "a" ++ joinAs 1 "b" ++ joinAs 2 "c" ++
      [.recvCommand 0 [], .removeClient 0, .accept 3 4, .recvId 3 (ascii "b")]) _ ?_
    decide
  obtain ⟨s, hs, hids, hid, hsome⟩ := hrun
  obtain ⟨t, ht⟩ := Option.isSome_iff_exists.mp hsome
  obtain ⟨ses, hx, hses⟩ := Option.map_eq_some_iff.mp hid
  obtain ⟨hiff, hkeep, -⟩ := (registered_ids_distinct s hs).2 3 ses t hx ht
  have hrefuses : Refuses s 3 t := by
    rw [hiff, hids, hses]
    decide
  exact ⟨s, t, hs, hids, ht, hrefuses, hkeep hrefuses⟩

end NetTools.IRC
