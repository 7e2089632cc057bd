import NetTools.IRCWaitLock
import Mathlib.Data.List.Count

namespace NetTools.IRC

open CText CArray Schedule Registry

/-- The phases of the command loop. -/
def Phase.inLoop : Phase → Bool
  | .joining | .registering | .ended => false
  | _ => true

/-- The id and the socket number of the used client slots. -/
def entries (r : Registry) : List (Bytes × ℕ) :=
  (slots r.clients r.clientCount).map fun c => (c.id, c.socket)

/-- The entry that a session should have. -/
def Session.entry (ses : Session) : Option (Bytes × ℕ) :=
  if ses.phase.inLoop then some (ses.clientId, ses.socket) else none

def Server.entry (s : Server) (x : ℕ) : Option (Bytes × ℕ) := (s.sessions x).bind Session.entry

/-- Exactly one entry for each session in its command loop, no other entry, and only
such sessions in the waiting list. -/
structure RegistryMatches (s : Server) : Prop where
  entry : ∀ x ses, s.sessions x = some ses → ses.phase.inLoop = true →
    (entries s.registry).count (ses.clientId, ses.socket) = 1
  owner : ∀ e ∈ entries s.registry, ∃! x, s.entry x = some e
  waiting : ∀ id ∈ s.registry.waiting, ∃ x ses, s.sessions x = some ses ∧
    ses.phase.inLoop = true ∧ ses.clientId = id

/-- No `/quit`, and a disconnect is of a client that does not wait and whose socket
number finds its own entry first. -/
def LeavesCleanly (s : Server) : Action → Prop
  | .exec x _ _ => ∀ ses ∈ s.sessions x, ∀ buffer ∈ ses.pending, commandOf buffer ≠ .quit
  | .removeClient x => ∀ ses ∈ s.sessions x, ses.clientId ∉ s.registry.waiting ∧
      ∀ i ∈ search (fun c => c.socket == ses.socket) s.registry.clients s.registry.clientCount,
        (s.registry.clients i).id = ses.clientId
  | _ => True

instance (s : Server) : ∀ a, Decidable (LeavesCleanly s a)
  | .exec x _ _ => inferInstanceAs (Decidable (∀ ses ∈ s.sessions x, ∀ buffer ∈ ses.pending,
      commandOf buffer ≠ .quit))
  | .removeClient x => inferInstanceAs (Decidable (∀ ses ∈ s.sessions x,
      ses.clientId ∉ s.registry.waiting ∧
      ∀ i ∈ search (fun c => c.socket == ses.socket) s.registry.clients s.registry.clientCount,
        (s.registry.clients i).id = ses.clientId))
  | .accept .. | .recvId .. | .register _ | .recvCommand .. | .sendList _ | .recvPort .. =>
    isTrue trivial

/-- The inductive form of `RegistryMatches`: the ids of the entries are distinct, and
the entries are those of the live sessions, no two of which share an id. -/
structure LiveEntries (s : Server) : Prop where
  nodup : ((entries s.registry).map Prod.fst).Nodup
  mem_iff : ∀ e, e ∈ entries s.registry ↔ ∃ x, s.entry x = some e
  unique : ∀ x y e f, s.entry x = some e → s.entry y = some f → e.1 = f.1 → x = y
  waiting : ∀ id ∈ s.registry.waiting, ∃ x e, s.entry x = some e ∧ e.1 = id

theorem Session.entry_eq_some {ses : Session} {e : Bytes × ℕ} :
    ses.entry = some e ↔ ses.phase.inLoop = true ∧ e = (ses.clientId, ses.socket) := by
  unfold Session.entry
  split_ifs with h
  · simp [h, eq_comm]
  · simp [h]

theorem entry_put (s : Server) (x : ℕ) (ses : Session) (y : ℕ) :
    (s.put x ses).entry y = if y = x then ses.entry else s.entry y := by
  unfold Server.entry
  by_cases h : y = x
  · subst h
    simp
  · rw [put_sessions_ne s ses h, if_neg h]

theorem LiveEntries.registryMatches {s : Server} (h : LiveEntries s) : RegistryMatches s := by
  have hentry (x : ℕ) (ses : Session) (hx : s.sessions x = some ses)
      (hl : ses.phase.inLoop = true) : s.entry x = some (ses.clientId, ses.socket) := by
    rw [Server.entry, hx]
    exact Session.entry_eq_some.mpr ⟨hl, rfl⟩
  refine ⟨?_, ?_, ?_⟩
  · intro x ses hx hl
    exact List.count_eq_one_of_mem h.nodup.of_map ((h.mem_iff _).mpr ⟨x, hentry x ses hx hl⟩)
  · intro e he
    obtain ⟨x, hx⟩ := (h.mem_iff e).mp he
    exact ⟨x, hx, fun y hy => h.unique y x e e hy hx rfl⟩
  · intro id hid
    obtain ⟨x, e, hx, rfl⟩ := h.waiting id hid
    obtain ⟨ses, hses, he⟩ := Option.bind_eq_some_iff.mp hx
    obtain ⟨hl, rfl⟩ := Session.entry_eq_some.mp he
    exact ⟨x, ses, hses, hl, rfl⟩

theorem liveEntries_start : LiveEntries .start := by
  refine ⟨List.nodup_nil, ?_, ?_, ?_⟩
  · intro e
    simp [Server.start, Server.entry, entries, empty]
  · intro x y e f hx
    cases hx
  · intro id hid
    cases hid

/-- A step that keeps every session's entry and only drops waiting ids. -/
theorem LiveEntries.of_eq {s t : Server} (h : LiveEntries s)
    (hr : entries t.registry = entries s.registry) (he : t.entry = s.entry)
    (hw : t.registry.waiting ⊆ s.registry.waiting) : LiveEntries t := by
  refine ⟨hr ▸ h.nodup, ?_, ?_, ?_⟩
  · intro e
    rw [hr, he]
    exact h.mem_iff e
  · rw [he]
    exact h.unique
  · intro id hid
    rw [he]
    exact h.waiting id (hw hid)

theorem LiveEntries.register {s t : Server} {x : ℕ} {e : Bytes × ℕ} (h : LiveEntries s)
    (hfree : e.1 ∉ (entries s.registry).map Prod.fst) (hx : s.entry x = none)
    (hr : entries t.registry = entries s.registry ++ [e])
    (he : t.entry = Function.update s.entry x (some e))
    (hw : t.registry.waiting = s.registry.waiting) : LiveEntries t := by
  -- the id is new, and the entries of the others stay
  have hnew (y : ℕ) (f : Bytes × ℕ) (hy : s.entry y = some f) : f.1 ≠ e.1 := by
    intro heq
    exact hfree (heq ▸ List.mem_map_of_mem ((h.mem_iff f).mpr ⟨y, hy⟩))
  have hold (y : ℕ) (f : Bytes × ℕ) (hy : s.entry y = some f) : t.entry y = some f := by
    have hyx : y ≠ x := by
      rintro rfl
      rw [hx] at hy
      cases hy
    rw [he, Function.update_of_ne hyx, hy]
  refine ⟨?_, ?_, ?_, ?_⟩
  · rw [hr, List.map_append, List.nodup_append_comm]
    exact List.nodup_cons.mpr ⟨hfree, h.nodup⟩
  · intro f
    rw [hr, List.mem_append, List.mem_singleton, h.mem_iff]
    constructor
    · rintro (⟨y, hy⟩ | rfl)
      · exact ⟨y, hold y f hy⟩
      · exact ⟨x, by rw [he, Function.update_self]⟩
    · rintro ⟨y, hy⟩
      rw [he, Function.update_apply] at hy
      split_ifs at hy
      · exact Or.inr (Option.some.inj hy).symm
      · exact Or.inl ⟨y, hy⟩
  · intro y z f g hy hz hfg
    rw [he, Function.update_apply] at hy hz
    split_ifs at hy hz with hyx hzx hzx
    · rw [hyx, hzx]
    · exact absurd (hfg.symm.trans (congrArg Prod.fst (Option.some.inj hy).symm)) (hnew z g hz)
    · exact absurd (hfg.trans (congrArg Prod.fst (Option.some.inj hz).symm)) (hnew y f hy)
    · exact h.unique y z f g hy hz hfg
  · intro id hid
    obtain ⟨y, f, hy, rfl⟩ := h.waiting id (hw ▸ hid)
    exact ⟨y, f, hold y f hy, rfl⟩

/-- A disconnect that removes the entry of the session that ends. -/
theorem LiveEntries.leave {s t : Server} {x : ℕ} {e : Bytes × ℕ} (h : LiveEntries s)
    (hx : s.entry x = some e) (hr : (e :: entries t.registry).Perm (entries s.registry))
    (he : t.entry = Function.update s.entry x none)
    (hw : t.registry.waiting = s.registry.waiting) (hn : e.1 ∉ s.registry.waiting) :
    LiveEntries t := by
  -- the removed entry has an id of its own
  have hd : ((e :: entries t.registry).map Prod.fst).Nodup := (hr.map _).nodup_iff.mpr h.nodup
  rw [List.map_cons, List.nodup_cons] at hd
  have hback (y : ℕ) (f : Bytes × ℕ) (hy : t.entry y = some f) : y ≠ x ∧ s.entry y = some f := by
    rw [he, Function.update_apply] at hy
    split_ifs at hy with hyx
    exact ⟨hyx, hy⟩
  refine ⟨hd.2, ?_, ?_, ?_⟩
  · intro f
    constructor
    · intro hf
      obtain ⟨y, hy⟩ := (h.mem_iff f).mp (hr.subset (List.mem_cons_of_mem _ hf))
      have hyx : y ≠ x := by
        rintro rfl
        rw [hx, Option.some.injEq] at hy
        exact hd.1 (hy ▸ List.mem_map_of_mem hf)
      exact ⟨y, by rw [he, Function.update_of_ne hyx, hy]⟩
    · rintro ⟨y, hy⟩
      obtain ⟨hyx, hy⟩ := hback y f hy
      have hf := hr.symm.subset ((h.mem_iff f).mpr ⟨y, hy⟩)
      rcases List.mem_cons.mp hf with rfl | hf
      · exact absurd (h.unique y x f f hy hx rfl) hyx
      · exact hf
  · intro y z f g hy hz
    exact h.unique y z f g (hback y f hy).2 (hback z g hz).2
  · intro id hid
    rw [hw] at hid
    obtain ⟨y, f, hy, rfl⟩ := h.waiting id hid
    have hyx : y ≠ x := by
      rintro rfl
      rw [hx, Option.some.injEq] at hy
      exact hn (hy ▸ hid)
    exact ⟨y, f, by rw [he, Function.update_of_ne hyx, hy], rfl⟩

theorem entries_removeClient {r : Registry} {socket i : ℕ}
    (hi : search (fun c => c.socket == socket) r.clients r.clientCount = some i) :
    (((r.clients i).id, socket) :: entries (r.removeClient socket)).Perm (entries r) := by
  obtain ⟨hlt, hp, -⟩ := search_eq_some hi
  have hsocket : (r.clients i).socket = socket := by simpa using hp
  have hr : entries (r.removeClient socket) = (slots (Function.update r.clients i
      (r.clients (r.clientCount-1))) (r.clientCount-1)).map fun c => (c.id, c.socket) := by
    simp only [entries, Registry.removeClient, hi]
  rw [hr, entries, ← hsocket]
  exact (slots_moveLast_perm r.clients hlt).map fun c => (c.id, c.socket)

theorem entries_addClient {r r' : Registry} {id : Bytes} {socket : ℕ}
    (h : r.addClient id socket = some r') : entries r' = entries r ++ [(id, socket)] := by
  obtain ⟨-, rfl⟩ := addClient_eq h
  simp only [entries, slots_push, List.map_append, List.map_cons, List.map_nil]

theorem idTaken_iff {r : Registry} {id : Bytes} :
    r.idTaken id = true ↔ id ∈ (entries r).map Prod.fst := by
  have hmap : (entries r).map Prod.fst = slots (fun i => (r.clients i).id) r.clientCount := by
    simp only [entries, slots, List.map_map]
    rfl
  rw [hmap, ← search_isSome_iff]
  rfl

/-- `/wait` writes a port into some client slot, never an id or a socket. -/
theorem entries_addWaiting {r r' : Registry} {id : Bytes} {port : Int}
    (h : r.addWaiting id port = some r') : entries r' = entries r := by
  obtain ⟨-, -, rfl⟩ := addWaiting_eq h
  simp only [entries, slots, List.map_map]
  apply List.map_congr_left
  intro i _
  simp only [Function.comp_apply, Function.update_apply]
  split_ifs with hi
  · rw [hi]
  · rfl

theorem entries_removeWaiting {r r' : Registry} {k : Int} (h : r.removeWaiting k = some r') :
    entries r' = entries r := by
  obtain ⟨-, hc, hn, -⟩ := removeWaiting_slots h
  rw [entries, hc, hn, entries]

/-- Storing a session changes only its own entry. -/
theorem put_entry (s : Server) (x : ℕ) (ses : Session) :
    (s.put x ses).entry = Function.update s.entry x ses.entry := by
  funext y
  rw [entry_put, Function.update_apply]

theorem entry_of {s : Server} {x : ℕ} {ses : Session} (hx : s.sessions x = some ses) :
    s.entry x = ses.entry := by
  rw [Server.entry, hx]
  rfl

theorem put_entry_same {s : Server} {x : ℕ} {ses ses' : Session} (hx : s.entry x = ses.entry)
    (he : ses'.entry = ses.entry) : (s.put x ses').entry = s.entry := by
  rw [put_entry, he, ← hx, Function.update_eq_self]

/-- The entry of a session that has ended stays behind: nobody owns it. -/
theorem not_registryMatches_of_stale {s t : Server} {x : ℕ} {e : Bytes × ℕ} (h : LiveEntries s)
    (hx : s.entry x = some e) (he : t.entry = Function.update s.entry x none)
    (hmem : e ∈ entries t.registry) : ¬ RegistryMatches t := by
  intro hm
  obtain ⟨y, hy, -⟩ := hm.owner e hmem
  rw [he, Function.update_apply] at hy
  split_ifs at hy with hyx
  exact hyx (h.unique y x e e hy hx rfl)

/-- A waiting id whose session has ended: no other live session has that id. -/
theorem not_registryMatches_of_waiting {s t : Server} {x : ℕ} {e : Bytes × ℕ}
    (h : LiveEntries s) (hx : s.entry x = some e) (he : t.entry = Function.update s.entry x none)
    (hmem : e.1 ∈ t.registry.waiting) : ¬ RegistryMatches t := by
  intro hm
  obtain ⟨y, ses, hses, hl, hid⟩ := hm.waiting e.1 hmem
  have hy : t.entry y = some (ses.clientId, ses.socket) := by
    rw [entry_of hses]
    exact Session.entry_eq_some.mpr ⟨hl, rfl⟩
  rw [he, Function.update_apply] at hy
  split_ifs at hy with hyx
  exact hyx (h.unique y x _ e hy hx hid)

/-- The entry of a socket number goes: the match is kept if it is the own one and the client does
not wait. -/
theorem LiveEntries.removeClient {s : Server} {x : ℕ} {ses : Session} (h : LiveEntries s)
    (hx : s.sessions x = some ses) (hown : s.entry x = some (ses.clientId, ses.socket)) :
    (LeavesCleanly s (.removeClient x) → LiveEntries ((s.put x (ses.at .ended)).withRegistry
        (s.registry.removeClient ses.socket))) ∧
      (¬ LeavesCleanly s (.removeClient x) → ¬ RegistryMatches ((s.put x (ses.at .ended)).withRegistry
        (s.registry.removeClient ses.socket))) := by
  have hend : ((s.put x (ses.at .ended)).withRegistry
      (s.registry.removeClient ses.socket)).entry = Function.update s.entry x none :=
    put_entry s x _
  have hw := removeClient_waiting (r := s.registry) ses.socket
  have hmem := (h.mem_iff _).mpr ⟨x, hown⟩
  cases hi : search (fun c => c.socket == ses.socket) s.registry.clients s.registry.clientCount with
  | none =>
    obtain ⟨c, hc, he⟩ := List.mem_map.mp hmem
    obtain ⟨i, hlt, rfl⟩ := mem_slots.mp hc
    have hne := search_eq_none hi i hlt
    simp only [beq_eq_false_iff_ne] at hne
    exact absurd (congrArg Prod.snd he) hne
  | some i =>
    have hperm := entries_removeClient hi
    constructor
    · intro hc
      obtain ⟨hn, hid⟩ := hc ses hx
      refine h.leave hown ?_ hend hw hn
      rw [← hid i hi]
      exact hperm
    · intro hc
      by_cases hn : ses.clientId ∈ s.registry.waiting
      · exact not_registryMatches_of_waiting h hown hend (hw ▸ hn)
      · have hid : (s.registry.clients i).id ≠ ses.clientId := by
          intro hid
          refine hc fun ses' hx' => ?_
          rw [Option.some.inj (hx'.symm.trans hx)]
          exact ⟨hn, fun j hj => Option.some.inj (hi.symm.trans hj) ▸ hid⟩
        -- the slot that is overwritten is another client's, and the entry of this one stays
        rcases List.mem_cons.mp (hperm.symm.subset hmem) with he | he
        · exact absurd (congrArg Prod.fst he).symm hid
        · exact not_registryMatches_of_stale h hown hend he

/-- A port that is stored lets the client wait. -/
theorem LiveEntries.portOk {s : Server} {x : ℕ} {ses ses' : Session} {r : Registry} {port : Int}
    (h : LiveEntries s) (hx : s.sessions x = some ses)
    (hown : s.entry x = some (ses.clientId, ses.socket)) (he : ses'.entry = ses.entry)
    (hr : s.registry.addWaiting ses.clientId port = some r) :
    LiveEntries (((s.put x ses').withRegistry r).withMutex none) := by
  have hsame : (((s.put x ses').withRegistry r).withMutex none).entry = s.entry :=
    put_entry_same (entry_of hx) he
  have hr' : entries r = entries s.registry := entries_addWaiting hr
  refine ⟨?_, ?_, ?_, ?_⟩
  · exact hr' ▸ h.nodup
  · intro e
    rw [hsame]
    exact hr' ▸ h.mem_iff e
  · rw [hsame]
    exact h.unique
  · intro id hid
    change id ∈ r.waiting at hid
    rw [addWaiting_waiting hr, List.mem_append, List.mem_singleton] at hid
    rw [hsame]
    rcases hid with hid | rfl
    · exact h.waiting id hid
    · exact ⟨x, _, hown, rfl⟩

/-- From a state whose registry matches, a step keeps the match exactly when it meets
`LeavesCleanly`. -/
theorem LiveEntries.step {s t : Server} {a : Action} (h : LiveEntries s) (hs : Step s a t) :
    (LeavesCleanly s a → LiveEntries t) ∧ (¬ LeavesCleanly s a → ¬ RegistryMatches t) := by
  -- a step that moves its session between two phases of the same kind
  have hquiet {x : ℕ} {ses ses' : Session} (hx : s.sessions x = some ses)
      (ht : t.entry = (s.put x ses').entry) (he : ses'.entry = ses.entry)
      (hr : entries t.registry = entries s.registry)
      (hw : t.registry.waiting ⊆ s.registry.waiting) : LiveEntries t :=
    h.of_eq hr (ht.trans (put_entry_same (entry_of hx) he)) hw
  have hlive {ses : Session} {phase : Phase} (hp : ses.phase = phase)
      (hl : phase.inLoop = true) : ses.entry = some (ses.clientId, ses.socket) :=
    Session.entry_eq_some.mpr ⟨hp ▸ hl, rfl⟩
  have hnone {ses : Session} {phase : Phase} (hp : ses.phase = phase)
      (hl : phase.inLoop = false) : ses.entry = none := by
    rw [Session.entry, hp, hl]
    rfl
  have hclean {x : ℕ} {ses : Session} {buffer g : Bytes} {k : Int}
      (hx : s.sessions x = some ses) (hp : ses.phase = .running buffer)
      (hc : commandOf buffer ≠ .quit) : LeavesCleanly s (.exec x g k) := by
    intro ses' hx' b hb
    rw [Option.some.inj (Eq.trans hx'.symm hx), Session.mem_pending, hp, Phase.running.injEq] at hb
    exact hb ▸ hc
  cases hs with
  | @accept x socket hx hfd =>
    refine ⟨fun _ => ?_, fun hn => absurd trivial hn⟩
    refine h.of_eq rfl ?_ (List.Subset.refl _)
    refine put_entry_same ?_ rfl
    rw [Server.entry, hx]
    rfl
  | recvId hx hp =>
    refine ⟨fun _ => ?_, fun hn => absurd trivial hn⟩
    exact hquiet hx rfl ((hnone rfl rfl).trans (hnone hp rfl).symm) rfl (List.Subset.refl _)
  | refuse hx hp =>
    refine ⟨fun _ => ?_, fun hn => absurd trivial hn⟩
    exact hquiet hx rfl ((hnone rfl rfl).trans (hnone hp rfl).symm) rfl (List.Subset.refl _)
  | @register x ses r hx hp hm ht hr =>
    refine ⟨fun _ => ?_, fun hn => absurd trivial hn⟩
    have hfree : ses.clientId ∉ (entries s.registry).map Prod.fst := by
      rw [← idTaken_iff, ht]
      exact Bool.false_ne_true
    have hw : r.waiting = s.registry.waiting := by
      obtain ⟨-, rfl⟩ := addClient_eq hr
      rfl
    exact h.register (e := (ses.clientId, ses.socket)) hfree ((entry_of hx).trans (hnone hp rfl))
      (entries_addClient hr) (put_entry s x _) hw
  | removeClient hx hp hm => exact h.removeClient hx ((entry_of hx).trans (hlive hp rfl))
  -- the session ends and its entry stays
  | @quit x ses buffer g k hx hp hc =>
    have hown : s.entry x = some (ses.clientId, ses.socket) := (entry_of hx).trans (hlive hp rfl)
    constructor
    · intro hq
      exact absurd hc (hq ses hx buffer (Session.mem_pending.mpr hp))
    · intro _
      exact not_registryMatches_of_stale h hown (put_entry s x _) ((h.mem_iff _).mpr ⟨x, hown⟩)
  | portOk hx hp hm hl hport hr =>
    refine ⟨fun _ => ?_, fun hn => absurd trivial hn⟩
    exact h.portOk hx ((entry_of hx).trans (hlive hp rfl)) ((hlive rfl rfl).trans (hlive hp rfl).symm) hr
  | hangUp hx hp | recvCommand hx hp | sendList hx hp | portBad hx hp =>
    refine ⟨fun _ => ?_, fun hn => absurd trivial hn⟩
    exact hquiet hx rfl ((hlive rfl rfl).trans (hlive hp rfl).symm) rfl (List.Subset.refl _)
  | listNone hx hp hc | listSome hx hp hc | waitLock hx hp hc | waitAgain hx hp hc
  | connectNone hx hp hc | badPrompt hx hp hc =>
    refine ⟨fun _ => ?_, fun hn => absurd (hclean hx hp (by rw [hc]; decide)) hn⟩
    exact hquiet hx rfl ((hlive rfl rfl).trans (hlive hp rfl).symm) rfl (List.Subset.refl _)
  | connect hx hp hc hm ht hi hr | stopWait hx hp hc hm hr =>
    refine ⟨fun _ => ?_, fun hn => absurd (hclean hx hp (by rw [hc]; decide)) hn⟩
    exact hquiet hx rfl ((hlive rfl rfl).trans (hlive hp rfl).symm) (entries_removeWaiting hr)
      (removeWaiting_sublist hr).subset

theorem liveEntries_of_reachable {s : Server}
    (h : Reachable Server.step LeavesCleanly .start s) : LiveEntries s :=
  h.invariant liveEntries_start fun _ _ _ hs hc hstep => (hs.step (step_cases hstep)).1 hc

/-- In a run whose steps all leave cleanly the registry matches the live sessions in
every state, and a step from such a state keeps the match only if it leaves cleanly. -/
theorem registry_matches_live_sessions {s : Server} (h : Reachable Server.step LeavesCleanly .start s) :
    RegistryMatches s ∧ ∀ a t, s.step a = some t → (RegistryMatches t ↔ LeavesCleanly s a) := by
  constructor
  · exact (liveEntries_of_reachable h).registryMatches
  · intro a t hs
    obtain ⟨hkeep, hbreak⟩ := (liveEntries_of_reachable h).step (step_cases hs)
    constructor
    · intro hm
      by_contra hc
      exact hbreak hc hm
    · intro hc
      exact (hkeep hc).registryMatches

set_option maxRecDepth 4096 in
/-- The entry of a client that sent `/quit` stays in `clients` after its session ended. -/
theorem quit_leaves_stale_entry :
    ∃ s, Reachable Server.step anyStep .start s ∧ s.mutex = none ∧
      entries s.registry = [(ascii "a", 4)] ∧ s.entry 0 = none ∧ ¬ RegistryMatches s := by
  have hrun : ∃ s, Reachable Server.step LeavesCleanly .start s ∧ ¬ LeavesCleanly s (.exec 0 [] 0) ∧
      ∃ t ∈ s.step (.exec 0 [] 0), t.mutex = none ∧ entries t.registry = [(ascii "a", 4)] ∧
        t.entry 0 = none := by
    refine exists_reachable_of_replayIf (joinAs 0 "a" ++ [.recvCommand 0 (ascii "/quit")]) _ ?_
    decide
  obtain ⟨s, hs, hc, t, ht, hm, he, hx⟩ := hrun
  exact ⟨t, hs.any.step trivial ht, hm, he, hx,
    ((liveEntries_of_reachable hs).step (step_cases ht)).2 hc⟩

set_option maxRecDepth 4096 in
/-- One of two clients disconnects while the other one waits. -/
theorem registry_matches_live_sessions_disconnect :
    ∃ s, Reachable Server.step LeavesCleanly .start s ∧ entries s.registry = [(ascii "b", 5)] ∧
      s.registry.waiting = [ascii "b"] ∧ RegistryMatches s := by
  have hrun : ∃ s, Reachable Server.step LeavesCleanly .start s ∧
      entries s.registry = [(ascii "b", 5)] ∧ s.registry.waiting = [ascii "b"] := by
    refine exists_reachable_of_replayIf (joinAs 0 "a" ++ joinAs 1 "b" ++ waitOn 1 "5002" ++
      [.recvCommand 0 [], .removeClient 0]) _ ?_
    decide
  obtain ⟨s, hs, he, hw⟩ := hrun
  exact ⟨s, hs, he, hw, (registry_matches_live_sessions hs).1⟩

end NetTools.IRC
