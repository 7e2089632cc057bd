import NetTools.ChatListHistory

namespace NetTools.Chat

open CText LinkedHeap Schedule

def size (L : ClientList) : Int := L.numClients

/-- One turn of the loop of `makeEmpty`: the node at the top is taken off and given back. -/
def popTop (L : ClientList) : Except Halt ClientList := do
  let t ← orUndefined L.top
  let first ← orUndefined (L.heap.cell t)
  return { L with heap := L.heap.free t, top := first.next, numClients := L.numClients-1 }

/-- `while(L->numClients > 0)`: the counter is the number of turns. -/
def popAll : ℕ → ClientList → Except Halt ClientList
  | 0, L => .ok L
  | n+1, L => do
    let L ← popTop L
    popAll n L

/-- An empty list is taken for an error. -/
def makeEmpty (L : ClientList) : Except Halt ClientList :=
  if isEmpty L then .error (.ended (.exited exitFailure)) else popAll L.numClients.toNat L

/-- `freeClientList(&L)`, as the nodes that stay in use; the pointer becomes `NULL`. -/
def freeClientList (pL : Option ClientList) : Except Halt (Heap ClientNode) := do
  match pL with
  | none => return .empty
  | some L =>
    if isEmpty L then return L.heap
    else
      let L ← makeEmpty L
      return L.heap

section Owned

variable {m : Memory} {L L' : ClientList} {l : List (ℕ × ClientNode)} {c : ClientNode}

/-- The nodes in use are those of the chain, and the counter counts them. -/
structure Owned (L : ClientList) (l : List (ℕ × ClientNode)) : Prop where
  chain : Chain L.heap L.top l
  complete : Exactly L.heap l
  count : L.numClients = l.length

theorem owned_newClientList : Owned newClientList [] := ⟨rfl, exactly_empty, rfl⟩

theorem bind_eq_ok {β γ : Type} {x : Except Halt β} {f : β → Except Halt γ} {r : γ}
    (h : (x >>= f) = .ok r) : ∃ b, x = .ok b ∧ f b = .ok r := by
  cases x with
  | error e => cases h
  | ok b => exact ⟨b, rfl, h⟩

theorem orUndefined_eq_ok {β : Type} {x : Option β} {b : β} (h : orUndefined x = .ok b) :
    x = some b := by
  cases x with
  | none => cases h
  | some c => rw [Except.ok.inj h]

theorem newNode_eq_ok {h : Heap ClientNode} {malloc : Option ℕ} {r : Heap ClientNode × ℕ}
    (hn : newNode h malloc c = .ok r) : r.1 = h.alloc r.2 ⟨c, none⟩ := by
  rcases newNode_cases h malloc c with ⟨a, -, hnode⟩ | ⟨status, hnode⟩
  · rw [← Except.ok.inj (hnode.symm.trans hn)]
  · cases hnode.symm.trans hn

theorem appendNode_exactly (hx : Exactly L.heap l) {malloc : Option ℕ}
    (h : appendNode L malloc c = .ok L') : ∃ a, Exactly L'.heap (l ++ [(a, c)]) := by
  rw [appendNode] at h
  cases htop : L.top with
  | none =>
    rw [htop] at h
    obtain ⟨r, hr, h⟩ := bind_eq_ok h
    cases h
    refine ⟨r.2, ?_⟩
    change Exactly r.1 _
    rw [newNode_eq_ok hr]
    exact hx.alloc
  | some t =>
    rw [htop] at h
    obtain ⟨n, -, h⟩ := bind_eq_ok h
    obtain ⟨r, hr, h⟩ := bind_eq_ok h
    cases h
    refine ⟨r.2, ?_⟩
    change Exactly (r.1.setNext n _) _
    rw [newNode_eq_ok hr]
    exact hx.alloc.setNext _ _

/-- A chain and a list of all cells that end in the same node have it at the same address. -/
theorem exactly_of_chain {h h' : Heap ClientNode} {p q : Option ℕ} {a b : ℕ} (hc : Chain h p l)
    (ha : h.cell a = none) (hc' : Chain h' q (l ++ [(a, c)])) (hx' : Exactly h' (l ++ [(b, c)])) :
    Exactly h' (l ++ [(a, c)]) := by
  obtain ⟨n, hcell⟩ := hc'.cell_of_mem (e := (a, c)) (by simp)
  obtain ⟨e, he, hea⟩ := hx' a (by rw [hcell]; exact Option.some_ne_none _)
  rw [List.mem_append, List.mem_singleton] at he
  rcases he with he | rfl
  · exact absurd hea (hc.notMem_of_cell_none ha e he)
  · obtain rfl : b = a := hea
    exact hx'

theorem Owned.insert {id ip : ℕ} {port : Int} {malloc : Option ℕ} {result : Int} (h : Owned L l)
    (hcall : insertToList m L id ip port malloc = .ok (L', result)) : ∃ l', Owned L' l' := by
  have hfree := free_of_insertToList hcall
  have hcases := insertToList_cases m id h.chain hfree ip port malloc
  have hcall' := hcall
  rw [hcall] at hcases
  cases hcases with
  | refused => exact ⟨l, h.chain, h.complete, h.count⟩
  | @node _ a habsent ha hchain hcount =>
    refine ⟨_, hchain, ?_, ?_⟩
    · -- the node comes from `appendNode`
      have hlocked : Chain { L with locked := true }.heap { L with locked := true }.top l := h.chain
      rw [insertToList, lockMutex_of_free hfree, ok_bind, lookup_of_absent hlocked habsent,
        ok_bind] at hcall'
      obtain ⟨L₁, happend, hcall'⟩ := bind_eq_ok hcall'
      obtain ⟨L₂, hadd, hcall'⟩ := bind_eq_ok hcall'
      obtain ⟨b, hcomplete⟩ := appendNode_exactly (L := { L with locked := true }) h.complete happend
      apply exactly_of_chain h.chain ha hchain (b := b)
      rcases addToCount_cases (unlockMutex L₁) 1 with ⟨hadd', -⟩ | hadd'
      · rw [← Except.ok.inj (hadd'.symm.trans hadd)] at hcall'
        rw [← (Prod.mk.inj (Except.ok.inj hcall')).1]
        exact hcomplete
      · cases hadd'.symm.trans hadd
    · rw [hcount, h.count, List.length_append]
      rfl

/-- However it goes, no node comes into use. -/
theorem used_of_unlinkNode {id : ℕ} (h : unlinkNode m L id = .ok L') :
    ∀ a, L'.heap.cell a ≠ none → L.heap.cell a ≠ none := by
  intro a ha
  rw [unlinkNode] at h
  obtain ⟨t, -, h⟩ := bind_eq_ok h
  obtain ⟨first, -, h⟩ := bind_eq_ok h
  split_ifs at h
  · cases h
    exact Heap.used_of_free ha
  · obtain ⟨found, -, h⟩ := bind_eq_ok h
    cases found with
    | none =>
      cases h
      exact ha
    | some n =>
      obtain ⟨heap, hbehind, h⟩ := bind_eq_ok h
      cases h
      have hbehind := orUndefined_eq_ok hbehind
      simp only [unlinkBehind, Option.bind_eq_bind, Option.pure_def] at hbehind
      obtain ⟨c, -, hbehind⟩ := Option.bind_eq_some_iff.mp hbehind
      obtain ⟨b, -, hbehind⟩ := Option.bind_eq_some_iff.mp hbehind
      obtain ⟨d, -, hbehind⟩ := Option.bind_eq_some_iff.mp hbehind
      cases hbehind
      exact Heap.used_of_setNext (Heap.used_of_free ha)

theorem used_of_removeFromList {id : ℕ} (h : removeFromList m L id = .ok L') :
    ∀ a, L'.heap.cell a ≠ none → L.heap.cell a ≠ none := by
  intro a ha
  rw [removeFromList] at h
  obtain ⟨L₁, hsection, hadd⟩ := bind_eq_ok h
  have hheap : L'.heap = L₁.heap := by
    rcases addToCount_cases L₁ (-1) with ⟨hadd', -⟩ | hadd'
    · rw [← Except.ok.inj (hadd'.symm.trans hadd)]
    · cases hadd'.symm.trans hadd
  rw [hheap] at ha
  rw [removeSection] at hsection
  obtain ⟨L₂, hlock, hsection⟩ := bind_eq_ok hsection
  obtain ⟨found, -, hsection⟩ := bind_eq_ok hsection
  cases found with
  | none => cases hsection
  | some p =>
    obtain ⟨L₃, hunlink, hsection⟩ := bind_eq_ok hsection
    cases hsection
    have hused := used_of_unlinkNode hunlink a ha
    rw [lockMutex] at hlock
    split_ifs at hlock
    cases hlock
    exact hused

theorem Owned.remove {id : ℕ} (h : Owned L l) (hcall : removeFromList m L id = .ok L') :
    ∃ l', Owned L' l' := by
  obtain ⟨front, e, rest, hfirst, hchain, hfreed, hcount, -⟩ := removeFromList_ok h.chain hcall
  have hcomplete := h.complete
  rw [hfirst.split] at hcomplete
  refine ⟨_, hchain, hcomplete.remove (used_of_removeFromList hcall) hfreed, ?_⟩
  rw [hcount, h.count, hfirst.split]
  simp only [List.length_append, List.length_cons]
  omega

/-- No sequence of calls that return loses a node. -/
theorem owned_of_reachable {t : Logged} (h : Reachable (Logged.step m) anyStep .start t) :
    ∃ l, Owned t.list l := by
  apply h.invariant (P := fun t : Logged => ∃ l, Owned t.list l)
  · exact ⟨[], owned_newClientList⟩
  · intro s call t hs _ hstep
    obtain ⟨l, hl⟩ := hs
    unfold Logged.step at hstep
    cases call with
    | insert id ip port malloc =>
      simp only at hstep
      split at hstep
      · rename_i L result hcall
        cases hstep
        exact hl.insert hcall
      · cases hstep
    | remove id =>
      simp only at hstep
      split at hstep
      · rename_i L hcall
        cases hstep
        exact hl.remove hcall
      · cases hstep

/-- A turn of the loop on a list with a node. -/
theorem Owned.popTop {e : ℕ × ClientNode} (h : Owned L (e :: l)) :
    ∃ L', popTop L = .ok L' ∧ Owned L' l ∧ L'.locked = L.locked := by
  have htop : L.top = some e.1 := h.chain.1
  obtain ⟨q, hcell, hchain⟩ := h.chain.unlink_head
  refine ⟨{ L with heap := L.heap.free e.1, top := q, numClients := L.numClients-1 }, ?_, ?_, rfl⟩
  · simp only [Chat.popTop, htop, orUndefined_some, ok_bind, hcell, pure_eq_ok]
  · have hcomplete : Exactly L.heap ([] ++ e :: l) := h.complete
    refine ⟨hchain, ?_, ?_⟩
    · exact hcomplete.remove (fun a => Heap.used_of_free) (Heap.free_cell_self _ _)
    · change L.numClients-1 = _
      rw [h.count, List.length_cons]
      omega

/-- The loop gives every node back, and then stops. -/
theorem Owned.popAll (h : Owned L l) :
    ∃ L', popAll l.length L = .ok L' ∧ Owned L' [] ∧ L'.locked = L.locked := by
  induction l generalizing L with
  | nil => exact ⟨L, rfl, h, rfl⟩
  | cons e l ih =>
    obtain ⟨L₁, hpop, hL₁, hlocked⟩ := h.popTop
    obtain ⟨L', hall, hL', hlocked'⟩ := ih hL₁
    refine ⟨L', ?_, hL', hlocked'.trans hlocked⟩
    rw [List.length_cons, Chat.popAll, hpop, ok_bind, hall]

theorem Owned.isEmpty_iff (h : Owned L l) : isEmpty L = true ↔ l = [] := by
  rw [isEmpty, decide_eq_true_eq, h.count, ← List.length_eq_zero_iff]
  omega

theorem Owned.makeEmpty (h : Owned L l) (hne : l ≠ []) :
    ∃ L', makeEmpty L = .ok L' ∧ Owned L' [] ∧ L'.locked = L.locked := by
  have hturns : L.numClients.toNat = l.length := by
    rw [h.count]
    rfl
  rw [Chat.makeEmpty, if_neg (h.isEmpty_iff.not.mpr hne), hturns]
  exact h.popAll

end Owned

/-- After any insertions and removals that return, `size` is the number of nodes in use. `makeEmpty`
makes the list as good as new, or ends the process if it is empty; and `freeClientList` gives back
every node that was not removed, each of them once. -/
theorem freeClientList_frees_all (m : Memory) (t : Logged)
    (h : Reachable (Logged.step m) anyStep .start t) :
    (∃ l : List (ℕ × ClientNode), (∀ a, t.list.heap.cell a ≠ none ↔ ∃ e ∈ l, e.1 = a) ∧
      (l.map Prod.fst).Nodup ∧ size t.list = l.length) ∧
    (t.list.top = none → makeEmpty t.list = .error (.ended (.exited exitFailure))) ∧
    (t.list.top ≠ none → ∃ L, makeEmpty t.list = .ok L ∧ L.top = none ∧ L.numClients = 0 ∧
      (∀ a, L.heap.cell a = none) ∧ L.locked = t.list.locked) ∧
    ∃ heap, freeClientList (some t.list) = .ok heap ∧ ∀ a, heap.cell a = none := by
  obtain ⟨l, hl⟩ := owned_of_reachable h
  have hnil := hl.chain.eq_nil_iff
  refine ⟨⟨l, ?_, hl.chain.nodup, hl.count⟩, ?_, ?_, ?_⟩
  · intro a
    constructor
    · exact hl.complete a
    · rintro ⟨e, he, rfl⟩
      obtain ⟨q, hcell⟩ := hl.chain.cell_of_mem he
      rw [hcell]
      exact Option.some_ne_none _
  · intro htop
    exact if_pos (hl.isEmpty_iff.mpr (hnil.mp htop))
  · intro htop
    obtain ⟨L, hempty, hL, hlocked⟩ := hl.makeEmpty (hnil.not.mp htop)
    exact ⟨L, hempty, hL.chain, hL.count, hL.complete.cell_nil, hlocked⟩
  · rw [freeClientList]
    by_cases hempty : l = []
    · subst hempty
      exact ⟨t.list.heap, if_pos (hl.isEmpty_iff.mpr rfl), hl.complete.cell_nil⟩
    · obtain ⟨L, hmake, hL, -⟩ := hl.makeEmpty hempty
      refine ⟨L.heap, ?_, hL.complete.cell_nil⟩
      simp only [if_neg (hl.isEmpty_iff.not.mpr hempty), hmake, ok_bind, pure_eq_ok]

/-- Two clients wait, one of them is connected to, and the list is freed. -/
theorem freeClientList_frees_all_two :
    ∃ t, Reachable (Logged.step exampleMemory) anyStep .start t ∧ size t.list = 1 ∧
      ∃ heap, freeClientList (some t.list) = .ok heap ∧ ∀ a, heap.cell a = none := by
  obtain ⟨t, hr, hsize⟩ := exists_reachable_of_replayIf (C := anyStep)
    [.insert 1 3 5001 (some 7), .insert 2 3 5002 (some 4), .remove 1]
    (fun t : Logged => size t.list = 1)
    (by decide : (replayIf (Logged.step exampleMemory) anyStep .start _).any _ = true)
  exact ⟨t, hr, hsize, (freeClientList_frees_all exampleMemory t hr).2.2.2⟩

/-- What `recv` of at most `n` bytes returns, call by call, when all of a stream is there. -/
def fullReads (n : ℕ) : ℕ → Bytes → List Bytes
  | 0, _ => []
  | fuel+1, stream => if stream = [] then [] else stream.take n :: fullReads n fuel (stream.drop n)

/-- The text of a buffer up to its NUL byte; without one, `%s` reads past the buffer. -/
def bufferText (buffer : Bytes) : Option Bytes :=
  if (0 : Byte) ∈ buffer then some (buffer.takeWhile fun b => b ≠ 0) else none

/-- The loop of `getClientList` in `myclient.c`: the lines `"%d) %s\n"` that it prints, by number
and text, until a `recv` that returns nothing or a buffer that begins with a line feed. -/
def getClientList (buffer : Bytes) : ℕ → List Bytes → Option (List (ℕ × Bytes))
  | _, [] => some []
  | i, data :: reads =>
    let received := data ++ buffer.drop data.length
    if data = [] then some []
    else if received.head? = some 10 then some []
    else (bufferText received).bind fun text =>
      (getClientList (List.replicate maxIdLength 0) (i+1) reads).map ((i, text) :: ·)

section Listing

variable {m : Memory} {L : ClientList} {l : List (ℕ × ClientNode)} {ids : List Bytes}

/-- A text that fits a buffer with its NUL byte. -/
def FitsBuffer (id : Bytes) : Prop := id.length < maxIdLength ∧ (0 : Byte) ∉ id

instance (id : Bytes) : Decidable (FitsBuffer id) :=
  inferInstanceAs (Decidable (id.length < maxIdLength ∧ (0 : Byte) ∉ id))

theorem length_padded {id : Bytes} (h : id.length < maxIdLength) :
    (padded maxIdLength id).length = maxIdLength := by
  rw [padded, List.length_append, List.length_replicate]
  omega

theorem head_padded {id : Bytes} (h : FitsBuffer id) :
    (padded maxIdLength id).head? = some 10 ↔ id.head? = some 10 := by
  cases id with
  | nil => decide
  | cons b id => rfl

theorem bufferText_padded {id : Bytes} (h : FitsBuffer id) :
    bufferText (padded maxIdLength id) = some id := by
  obtain ⟨k, hk⟩ : ∃ k, maxIdLength-id.length = k+1 := ⟨maxIdLength-id.length-1, by have := h.1; omega⟩
  have hpadded : padded maxIdLength id = id ++ 0 :: List.replicate k 0 := by
    rw [padded, hk, List.replicate_succ]
  have hall : ∀ b ∈ id, decide (b ≠ 0) = true := by
    intro b hb
    rw [decide_eq_true_eq]
    rintro rfl
    exact h.2 hb
  rw [bufferText, hpadded, if_pos (by simp), List.takeWhile_append_of_pos hall,
    List.takeWhile_cons_of_neg (by decide), List.append_nil]

/-- With all sends successful, the loop sends each id in a buffer of its own. -/
theorem sendIds_all {h : Heap ClientNode} {p : Option ℕ} (hc : Chain h p l)
    (hids : ∀ e ∈ l, FitsBuffer (idOf m e.2)) {n : ℕ} (hn : l.length ≤ n) (i : ℕ) :
    sendIds m h (fun _ => true) n p i =
      .ok (l.map fun e => padded maxIdLength (idOf m e.2), true) := by
  induction l generalizing p n i with
  | nil =>
    have hp : p = none := hc
    rw [hp, sendIds]
    rfl
  | cons e l ih =>
    obtain ⟨n, rfl⟩ := Nat.exists_eq_add_one.mpr (Nat.zero_lt_of_lt hn)
    obtain ⟨rfl, q, hcell, hq⟩ := hc
    have hfits : ¬ maxIdLength ≤ (m.str e.2.id).length := Nat.not_le.mpr (hids e (by simp)).1
    have hmore := ih hq (fun d hd => hids d (by simp [hd])) (Nat.le_of_succ_le_succ hn) (i+1)
    simp only [sendIds, hcell, orUndefined_some, ok_bind, if_neg hfits, ↓reduceIte, hmore, pure_eq_ok]
    rfl

theorem length_le_flatten {messages : List Bytes} (h : ∀ x ∈ messages, 0 < x.length) :
    messages.length ≤ messages.flatten.length := by
  induction messages with
  | nil => exact le_rfl
  | cons x messages ih =>
    have hx := h x List.mem_cons_self
    have hmore := ih fun y hy => h y (List.mem_cons_of_mem x hy)
    rw [List.length_cons, List.flatten_cons, List.length_append]
    omega

/-- A stream of messages that fill the buffer is read message by message. -/
theorem fullReads_flatten {n : ℕ} {messages : List Bytes} {ending : Bytes}
    (hfull : ∀ x ∈ messages, x.length = n) (hpos : 0 < n) (hending : ending ≠ [])
    (hlen : ending.length ≤ n) {fuel : ℕ} (hfuel : messages.length < fuel) :
    fullReads n fuel (messages ++ [ending]).flatten = messages ++ [ending] := by
  induction messages generalizing fuel with
  | nil =>
    obtain ⟨fuel, rfl⟩ := Nat.exists_eq_add_one.mpr (Nat.zero_lt_of_lt hfuel)
    have hrest : fullReads n fuel [] = [] := by cases fuel <;> rfl
    simp only [List.nil_append, List.flatten_singleton, fullReads, if_neg hending,
      List.take_of_length_le hlen, List.drop_of_length_le hlen, hrest]
  | cons x messages ih =>
    obtain ⟨fuel, rfl⟩ := Nat.exists_eq_add_one.mpr (Nat.zero_lt_of_lt hfuel)
    have hx : x.length = n := hfull x List.mem_cons_self
    have hne : x ++ (messages ++ [ending]).flatten ≠ [] := by
      intro hnil
      have hzero := congrArg List.length (List.append_eq_nil_iff.mp hnil).1
      rw [hx, List.length_nil] at hzero
      omega
    rw [List.cons_append, List.flatten_cons, fullReads, if_neg hne, List.take_left' hx,
      List.drop_left' hx, ih (fun y hy => hfull y (List.mem_cons_of_mem x hy))
        (Nat.lt_of_succ_lt_succ hfuel)]

/-- The client prints the ids up to the first that begins with a line feed. -/
theorem getClientList_padded (hids : ∀ id ∈ ids, FitsBuffer id) {buffer : Bytes}
    (hbuffer : buffer.length = maxIdLength) (i : ℕ) :
    getClientList buffer i (ids.map (padded maxIdLength) ++ [ascii "\n"]) =
      some ((ids.takeWhile fun id => id.head? ≠ some 10).mapIdx fun j id => (i+j, id)) := by
  induction ids generalizing buffer i with
  | nil => rfl
  | cons id ids ih =>
    have hfits := hids id List.mem_cons_self
    have hfull : padded maxIdLength id ++ buffer.drop (padded maxIdLength id).length =
        padded maxIdLength id := by
      rw [List.drop_of_length_le, List.append_nil]
      rw [hbuffer, length_padded hfits.1]
    have hne : padded maxIdLength id ≠ [] := by
      intro hnil
      have hlen := length_padded hfits.1
      rw [hnil] at hlen
      cases hlen
    rw [List.map_cons, List.cons_append, getClientList]
    simp only [hfull, if_neg hne, head_padded hfits, bufferText_padded hfits, Option.bind_some]
    by_cases hfeed : id.head? = some 10
    · rw [if_pos hfeed, List.takeWhile_cons_of_neg (by simp [hfeed])]
      rfl
    · rw [if_neg hfeed, List.takeWhile_cons_of_pos (by simp [hfeed]), List.mapIdx_cons,
        ih (fun x hx => hids x (List.mem_cons_of_mem id hx)) (List.length_replicate ..)]
      have hshift (j : ℕ) : i+1+j = i+(j+1) := by omega
      simp only [Option.map_some, Nat.add_zero, hshift]

/-- After any insertions and removals that return, `/list` shows a client the ids that were
inserted and not removed, in their order and numbered from 0, as far as the first that begins with
a line feed: such an id ends the list for the client. All sends succeed, the ids fit their buffers,
and the client finds all of the stream when it reads. -/
theorem list_shows_the_ids (m : Memory) (t : Logged)
    (h : Reachable (Logged.step m) anyStep .start t) (hfree : t.list.locked = false)
    (hids : ∀ c ∈ OrderedMap.remaining (idOf m) t.log, FitsBuffer (idOf m c)) :
    ∃ sent, sendClientList m t.list (fun _ => true) = .ok (t.list, sent, 1) ∧
      ∀ buffer : Bytes, buffer.length = maxIdLength →
        getClientList buffer 0 (fullReads maxIdLength sent.flatten.length sent.flatten) =
          some ((((OrderedMap.remaining (idOf m) t.log).map (idOf m)).takeWhile
            fun id => id.head? ≠ some 10).mapIdx fun j id => (j, id)) := by
  obtain ⟨s, hlog, hrep⟩ := history_of_reachable h
  obtain ⟨l, hchain, hl⟩ := hrep.chain
  have hremaining : OrderedMap.remaining (idOf m) t.log = l.map Prod.snd := by
    rw [hl, hlog.toList_eq]
  rw [hremaining] at hids ⊢
  have hfits : ∀ e ∈ l, FitsBuffer (idOf m e.2) := fun e he => hids e.2 (List.mem_map_of_mem he)
  have hsent : l.map (fun e => padded maxIdLength (idOf m e.2)) =
      ((l.map Prod.snd).map (idOf m)).map (padded maxIdLength) := by
    simp only [List.map_map, Function.comp_def]
  -- one buffer for each id, and a line feed behind them
  refine ⟨((l.map Prod.snd).map (idOf m)).map (padded maxIdLength) ++ [ascii "\n"], ?_, ?_⟩
  · have hlocked : Chain { t.list with locked := true }.heap { t.list with locked := true }.top l :=
      hchain
    have hunlock : unlockMutex { t.list with locked := true } = t.list := by
      rw [unlockMutex, ← hfree]
    have hloop := sendIds_all hlocked hfits hchain.length_le 0
    rw [sendClientList, lockMutex_of_free hfree, ok_bind]
    simp only [hloop, ok_bind, Bool.and_self, ↓reduceIte, hunlock, pure_eq_ok, hsent]
  · intro buffer hbuffer
    have hall : ∀ id ∈ (l.map Prod.snd).map (idOf m), FitsBuffer id := by
      intro id hid
      obtain ⟨c, hc, rfl⟩ := List.mem_map.mp hid
      exact hids c hc
    rw [fullReads_flatten, getClientList_padded hall hbuffer]
    · simp only [Nat.zero_add]
    · intro x hx
      obtain ⟨id, hid, rfl⟩ := List.mem_map.mp hx
      exact length_padded (hall id hid).1
    · decide
    · decide
    · decide
    · rw [List.flatten_append, List.length_append, List.flatten_singleton]
      apply Nat.lt_succ_of_le
      apply length_le_flatten
      intro x hx
      obtain ⟨id, hid, rfl⟩ := List.mem_map.mp hx
      rw [length_padded (hall id hid).1]
      decide

end Listing

/-- A memory with an id that begins with a line feed. -/
def feedMemory : Memory where
  str p := if p = 1 then ascii "a" else if p = 2 then ascii "\nb" else ascii "c"
  atInt _ := none

/-- The second of three ids ends the list for the client. -/
theorem list_shows_the_ids_feed :
    ∃ t, Reachable (Logged.step feedMemory) anyStep .start t ∧ t.list.numClients = 3 ∧
      ∃ sent, sendClientList feedMemory t.list (fun _ => true) = .ok (t.list, sent, 1) ∧
        getClientList (List.replicate maxIdLength 0) 0
            (fullReads maxIdLength sent.flatten.length sent.flatten) =
          some [(0, ascii "a")] := by
  obtain ⟨t, hr, hlog, hfree, hcount⟩ := exists_reachable_of_replayIf (C := anyStep)
    [.insert 1 9 5001 (some 7), .insert 2 9 5002 (some 4), .insert 3 9 5003 (some 5)]
    (fun t : Logged => t.log = [.inserted ⟨1, 9, 5001⟩, .inserted ⟨2, 9, 5002⟩,
      .inserted ⟨3, 9, 5003⟩] ∧ t.list.locked = false ∧ t.list.numClients = 3)
    (by decide : (replayIf (Logged.step feedMemory) anyStep .start _).any _ = true)
  have hids : ∀ c ∈ OrderedMap.remaining (idOf feedMemory) t.log, FitsBuffer (idOf feedMemory c) := by
    rw [hlog]
    decide
  obtain ⟨sent, hsent, hshown⟩ := list_shows_the_ids feedMemory t hr hfree hids
  refine ⟨t, hr, hcount, sent, hsent, ?_⟩
  rw [hshown _ (List.length_replicate ..), hlog]
  decide

end NetTools.Chat
