import NetTools.ChatList

namespace NetTools.Chat

open CText LinkedHeap

variable {m : Memory} {L : ClientList} {l : List (ℕ × ClientNode)} {id : ℕ}

theorem ok_bind {ε β γ : Type} (b : β) (f : β → Except ε γ) : (Except.ok b >>= f) = f b := rfl

theorem error_bind {ε β γ : Type} (e : ε) (f : β → Except ε γ) :
    ((Except.error e : Except ε β) >>= f) = .error e := rfl

theorem pure_eq_ok {ε β : Type} (b : β) : (pure b : Except ε β) = .ok b := rfl

theorem orUndefined_some {β : Type} (b : β) : orUndefined (some b) = .ok b := rfl

/-- No node of the list has this id. -/
def Absent (m : Memory) (l : List (ℕ × ClientNode)) (id : ℕ) : Prop :=
  ∀ e ∈ l, sameId m id e.2 = false

instance : Decidable (Absent m l id) := List.decidableBAll _ _

/-- The first node with this id is `e`, behind the nodes of `front`. -/
structure FirstAt (m : Memory) (l : List (ℕ × ClientNode)) (id : ℕ) (front : List (ℕ × ClientNode))
    (e : ℕ × ClientNode) (rest : List (ℕ × ClientNode)) : Prop where
  split : l = front ++ e :: rest
  front : Absent m front id
  same : sameId m id e.2 = true

theorem absent_or_first (m : Memory) (l : List (ℕ × ClientNode)) (id : ℕ) :
    Absent m l id ∨ ∃ front e rest, FirstAt m l id front e rest := by
  induction l with
  | nil => exact Or.inl (by simp [Absent])
  | cons d l ih =>
    cases hd : sameId m id d.2 with
    | true => exact Or.inr ⟨[], d, l, rfl, by simp [Absent], hd⟩
    | false =>
      rcases ih with habsent | ⟨front, e, rest, hsplit, hfront, he⟩
      · exact Or.inl (List.forall_mem_cons.mpr ⟨hd, habsent⟩)
      · refine Or.inr ⟨d :: front, e, rest, ?_, List.forall_mem_cons.mpr ⟨hd, hfront⟩, he⟩
        rw [hsplit, List.cons_append]

theorem FirstAt.not_absent {front rest : List (ℕ × ClientNode)} {e : ℕ × ClientNode}
    (h : FirstAt m l id front e rest) : ¬ Absent m l id := by
  intro habsent
  have he := habsent e (h.split ▸ List.mem_append_right _ List.mem_cons_self)
  rw [h.same] at he
  cases he

theorem FirstAt.unique {front front' rest rest' : List (ℕ × ClientNode)} {e e' : ℕ × ClientNode}
    (h : FirstAt m l id front e rest) (h' : FirstAt m l id front' e' rest') :
    front = front' ∧ e = e' ∧ rest = rest' := by
  obtain ⟨hsplit, hfront, he⟩ := h
  obtain ⟨hsplit', hfront', he'⟩ := h'
  rw [hsplit] at hsplit'
  clear hsplit
  induction front generalizing front' with
  | nil =>
    cases front' with
    | nil =>
      obtain ⟨rfl, rfl⟩ := List.cons.inj hsplit'
      exact ⟨rfl, rfl, rfl⟩
    | cons d front' =>
      obtain ⟨rfl, -⟩ := List.cons.inj hsplit'
      rw [hfront' e List.mem_cons_self] at he
      cases he
  | cons d front ih =>
    cases front' with
    | nil =>
      obtain ⟨rfl, -⟩ := List.cons.inj hsplit'
      rw [hfront d List.mem_cons_self] at he'
      cases he'
    | cons d' front' =>
      obtain ⟨rfl, htail⟩ := List.cons.inj hsplit'
      have hmore : Absent m front id := fun x hx => hfront x (List.mem_cons_of_mem _ hx)
      have hmore' : Absent m front' id := fun x hx => hfront' x (List.mem_cons_of_mem _ hx)
      obtain ⟨rfl, rfl, rfl⟩ := ih hmore htail hmore'
      exact ⟨rfl, rfl, rfl⟩

theorem findNode_of_absent (hc : Chain L.heap L.top l) (h : Absent m l id) :
    findNode m L id = .ok none := by
  have hnone : l.find? (fun e => sameId m id e.2) = none := by
    rw [List.find?_eq_none]
    intro e he
    rw [h e he]
    exact Bool.false_ne_true
  rw [findNode, hc.find_eq hc.length_le, hnone]
  rfl

theorem findNode_of_first {front rest : List (ℕ × ClientNode)} {e : ℕ × ClientNode}
    (hc : Chain L.heap L.top l) (h : FirstAt m l id front e rest) :
    ∃ q, findNode m L id = .ok (some ⟨e.2, q⟩) := by
  have hsome : l.find? (fun e => sameId m id e.2) = some e := by
    rw [List.find?_eq_some_iff_append]
    refine ⟨h.same, front, rest, h.split, ?_⟩
    intro x hx
    rw [h.front x hx]
    rfl
  have hmem : e ∈ l := h.split ▸ List.mem_append_right _ List.mem_cons_self
  obtain ⟨q, hcell⟩ := hc.cell_of_mem hmem
  refine ⟨q, ?_⟩
  rw [findNode, hc.find_eq hc.length_le, hsome]
  simp only [Option.map_some, orUndefined_some, ok_bind, hcell, pure_eq_ok]

theorem lookup_of_absent (hc : Chain L.heap L.top l) (h : Absent m l id) :
    lookup m L id = .ok none := by
  rw [lookup, findNode_of_absent hc h]
  rfl

theorem lookup_of_first {front rest : List (ℕ × ClientNode)} {e : ℕ × ClientNode}
    (hc : Chain L.heap L.top l) (h : FirstAt m l id front e rest) :
    lookup m L id = .ok (some e.2.id) := by
  obtain ⟨q, hfind⟩ := findNode_of_first hc h
  rw [lookup, hfind]
  rfl

theorem lockMutex_of_free (h : L.locked = false) : lockMutex L = .ok { L with locked := true } := by
  rw [lockMutex, h]
  rfl

theorem lockMutex_of_locked (h : L.locked = true) : lockMutex L = .error .blocked := by
  rw [lockMutex, h]
  rfl

/-- The changes of the counter: it is an `int`. -/
theorem addToCount_cases (L : ClientList) (d : Int) :
    addToCount L d = .ok { L with numClients := L.numClients+d } ∧ L.numClients+d < 2^31 ∨
      addToCount L d = .error (.ended .undefined) := by
  rw [addToCount]
  split_ifs with h
  · exact Or.inl ⟨rfl, h.2⟩
  · exact Or.inr rfl

theorem addToCount_of_range {d : Int} (hge : -2^31 ≤ L.numClients+d) (hlt : L.numClients+d < 2^31) :
    addToCount L d = .ok { L with numClients := L.numClients+d } :=
  if_pos ⟨hge, hlt⟩

theorem newNode_cases (h : Heap ClientNode) (malloc : Option ℕ) (c : ClientNode) :
    (∃ a, h.cell a = none ∧ newNode h malloc c = .ok (h.alloc a ⟨c, none⟩, a)) ∨
      ∃ status, newNode h malloc c = .error (.ended status) := by
  cases malloc with
  | none => exact Or.inr ⟨_, rfl⟩
  | some a =>
    rw [newNode]
    by_cases ha : (h.cell a).isNone
    · exact Or.inl ⟨a, Option.isNone_iff_eq_none.mp ha, if_pos ha⟩
    · exact Or.inr ⟨_, if_neg ha⟩

/-- The outcomes of `appendNode`. -/
inductive Appends (L : ClientList) (l : List (ℕ × ClientNode)) (c : ClientNode) :
    Except Halt ClientList → Prop
  | node {L' : ClientList} {a : ℕ} : L.heap.cell a = none →
      Chain L'.heap L'.top (l ++ [(a, c)]) → L'.numClients = L.numClients → Appends L l c (.ok L')
  | failed (status : ProcessStatus) : Appends L l c (.error (.ended status))

theorem appendNode_cases (hc : Chain L.heap L.top l) (malloc : Option ℕ) (c : ClientNode) :
    Appends L l c (appendNode L malloc c) := by
  have hnew := newNode_cases L.heap malloc c
  rcases List.eq_nil_or_concat l with rfl | ⟨front, e, rfl⟩
  · have htop : L.top = none := hc
    rw [appendNode, htop]
    rcases hnew with ⟨a, ha, hnode⟩ | ⟨status, hnode⟩
    · simp only [hnode, ok_bind, pure_eq_ok]
      exact .node ha ⟨rfl, none, Heap.alloc_cell_self _ _ _, rfl⟩ rfl
    · simp only [hnode, error_bind]
      exact .failed _
  · rw [List.concat_eq_append] at hc ⊢
    have hlen := hc.length_le
    rw [List.length_append, List.length_singleton] at hlen
    obtain ⟨t, htop⟩ := Option.ne_none_iff_exists'.mp fun hnone =>
      List.append_ne_nil_of_right_ne_nil front (List.cons_ne_nil e []) (hc.eq_nil_iff.mp hnone)
    rw [appendNode]
    simp only [htop, hc.last_eq htop hlen, orUndefined_some, ok_bind]
    rcases hnew with ⟨a, ha, hnode⟩ | ⟨status, hnode⟩
    · simp only [hnode, ok_bind, pure_eq_ok]
      refine .node ha ?_ rfl
      rw [List.append_assoc]
      exact htop ▸ hc.append ha c
    · simp only [hnode, error_bind]
      exact .failed _

/-- The outcomes of `insertToList` with a free mutex. -/
inductive Inserts (m : Memory) (L : ClientList) (l : List (ℕ × ClientNode)) (c : ClientNode) :
    Except Halt (ClientList × Int) → Prop
  | refused : ¬ Absent m l c.id → Inserts m L l c (.ok ({ L with locked := true }, -1))
  | node {L' : ClientList} {a : ℕ} : Absent m l c.id → L.heap.cell a = none →
      Chain L'.heap L'.top (l ++ [(a, c)]) → L'.numClients = L.numClients+1 →
      L'.numClients < 2^31 → L'.locked = false → Inserts m L l c (.ok (L', 1))
  | failed (status : ProcessStatus) : Absent m l c.id → Inserts m L l c (.error (.ended status))

theorem insertToList_cases (m : Memory) (id : ℕ) (hc : Chain L.heap L.top l)
    (hfree : L.locked = false) (ip : ℕ) (port : Int) (malloc : Option ℕ) :
    Inserts m L l ⟨id, ip, port⟩ (insertToList m L id ip port malloc) := by
  have hchain : Chain { L with locked := true }.heap { L with locked := true }.top l := hc
  rw [insertToList, lockMutex_of_free hfree, ok_bind]
  rcases absent_or_first m l id with habsent | ⟨front, e, rest, hfirst⟩
  · rw [lookup_of_absent hchain habsent]
    have happend := appendNode_cases hchain malloc ⟨id, ip, port⟩
    simp only [ok_bind]
    generalize appendNode { L with locked := true } malloc ⟨id, ip, port⟩ = result at happend ⊢
    cases happend with
    | @node L' a ha hchain' hcount =>
      rcases addToCount_cases (unlockMutex L') 1 with ⟨hadd, hlt⟩ | hadd
      · simp only [ok_bind, hadd, pure_eq_ok]
        exact .node habsent ha hchain' (congrArg (· + 1) hcount) hlt rfl
      · simp only [ok_bind, hadd, error_bind]
        exact .failed _ habsent
    | failed status => exact .failed _ habsent
  · rw [lookup_of_first hchain hfirst]
    exact .refused hfirst.not_absent

/-- The node in front of the one to take out is the last one of `front`. -/
theorem unlinkNode_of_first {front rest : List (ℕ × ClientNode)} {e : ℕ × ClientNode}
    (hc : Chain L.heap L.top l) (h : FirstAt m l id front e rest) :
    ∃ L', unlinkNode m L id = .ok L' ∧ Chain L'.heap L'.top (front ++ rest) ∧
      L'.heap.cell e.1 = none ∧ L'.numClients = L.numClients ∧ L'.locked = L.locked := by
  obtain ⟨hsplit, hfront, he⟩ := h
  subst hsplit
  rcases List.eq_nil_or_concat front with rfl | ⟨front, d, rfl⟩
  · have htop : L.top = some e.1 := hc.1
    obtain ⟨q, hcell, hchain⟩ := Chain.unlink_head hc
    refine ⟨{ L with heap := L.heap.free e.1, top := q }, ?_, hchain,
      Heap.free_cell_self _ _, rfl, rfl⟩
    simp only [unlinkNode, htop, orUndefined_some, ok_bind, hcell, he, ↓reduceIte, pure_eq_ok]
  · rw [List.concat_eq_append] at hc hfront ⊢
    have hsplit : front ++ [d] ++ e :: rest = front ++ d :: e :: rest := by simp
    obtain ⟨x, more, hx⟩ : ∃ x more, front ++ [d] = x :: more :=
      List.exists_cons_of_ne_nil (List.append_ne_nil_of_right_ne_nil _ (List.cons_ne_nil _ _))
    -- the first node has another id, so the loop looks behind it
    have hhead : Chain L.heap L.top (x :: (more ++ e :: rest)) := by
      rw [← List.cons_append, ← hx]
      exact hc
    obtain ⟨htop, q₁, hcellx, -⟩ := hhead
    have hx' : sameId m id x.2 = false := by
      apply hfront
      rw [hx]
      exact List.mem_cons_self
    rw [hsplit] at hc
    have hlen := hc.length_le
    rw [List.length_append] at hlen
    obtain ⟨-, q₀, hcelld, hq₀⟩ := hc.drop
    obtain ⟨q, hcell, hchain⟩ := hc.unlink
    have hbefore : L.heap.before (sameId m id) L.heap.bound x.1 = some (some d.1) :=
      hc.before_eq htop hfront he (by simp only [List.length_cons] at hlen; omega)
    have hbehind : unlinkBehind L.heap d.1 = some ((L.heap.setNext d.1 q).free e.1) := by
      simp only [unlinkBehind, hcelld, hq₀.1, hcell, Option.bind_eq_bind, Option.bind_some,
        Option.pure_def]
    refine ⟨{ L with heap := (L.heap.setNext d.1 q).free e.1 }, ?_, ?_,
      Heap.free_cell_self _ _, rfl, rfl⟩
    · simp only [unlinkNode, htop, orUndefined_some, ok_bind, hcellx, hx', hbefore, hbehind,
        Bool.false_eq_true, ↓reduceIte, pure_eq_ok]
    · rw [List.append_assoc]
      exact hchain

/-- The outcomes of the critical section of `removeFromList` with a free mutex. -/
inductive Removes (m : Memory) (L : ClientList) (l : List (ℕ × ClientNode)) (id : ℕ) :
    Except Halt ClientList → Prop
  | absent : Absent m l id → Removes m L l id (.error (.ended (.exited (-1))))
  | node {L' : ClientList} {front rest : List (ℕ × ClientNode)} {e : ℕ × ClientNode} :
      FirstAt m l id front e rest → Chain L'.heap L'.top (front ++ rest) →
      L'.heap.cell e.1 = none → L'.numClients = L.numClients → L'.locked = false →
      Removes m L l id (.ok L')

theorem removeSection_cases (m : Memory) (id : ℕ) (hc : Chain L.heap L.top l)
    (hfree : L.locked = false) :
    Removes m L l id (removeSection m L id) := by
  have hchain : Chain { L with locked := true }.heap { L with locked := true }.top l := hc
  rw [removeSection, lockMutex_of_free hfree, ok_bind]
  rcases absent_or_first m l id with habsent | ⟨front, e, rest, hfirst⟩
  · rw [lookup_of_absent hchain habsent]
    exact .absent habsent
  · obtain ⟨L', hunlink, hchain', hfreed, hcount, -⟩ := unlinkNode_of_first hchain hfirst
    rw [lookup_of_first hchain hfirst]
    simp only [ok_bind, hunlink, pure_eq_ok]
    exact .node hfirst hchain' hfreed hcount rfl

/-- A call that returned found the mutex free. -/
theorem free_of_insertToList {ip : ℕ} {port : Int} {malloc : Option ℕ} {result : ClientList × Int}
    (h : insertToList m L id ip port malloc = .ok result) : L.locked = false := by
  rw [← Bool.not_eq_true]
  intro hlocked
  rw [insertToList, lockMutex_of_locked hlocked] at h
  cases h

theorem free_of_removeFromList {L' : ClientList} (h : removeFromList m L id = .ok L') :
    L.locked = false := by
  rw [← Bool.not_eq_true]
  intro hlocked
  rw [removeFromList, removeSection, lockMutex_of_locked hlocked] at h
  cases h

/-- A removal that returned took out the first node with the id. -/
theorem removeFromList_ok {L' : ClientList} (hc : Chain L.heap L.top l)
    (h : removeFromList m L id = .ok L') :
    ∃ front e rest, FirstAt m l id front e rest ∧ Chain L'.heap L'.top (front ++ rest) ∧
      L'.heap.cell e.1 = none ∧ L'.numClients = L.numClients-1 ∧ L'.locked = false := by
  have hcases := removeSection_cases m id hc (free_of_removeFromList h)
  rw [removeFromList] at h
  generalize removeSection m L id = result at hcases h
  cases hcases with
  | absent => cases h
  | @node L₁ front rest e hfirst hchain hfreed hcount hlocked =>
    rw [ok_bind] at h
    rcases addToCount_cases L₁ (-1) with ⟨hadd, -⟩ | hadd
    · rw [hadd] at h
      cases h
      exact ⟨front, e, rest, hfirst, hchain, hfreed, congrArg (· + -1) hcount, hlocked⟩
    · rw [hadd] at h
      cases h

/-- The loop of `sendClientList` comes to an end. -/
theorem sendIds_cases {h : Heap ClientNode} {p : Option ℕ} (hc : Chain h p l) (sends : ℕ → Bool)
    {n : ℕ} (hn : l.length ≤ n) (i : ℕ) :
    (∃ sent, sendIds m h sends n p i = .ok sent) ∨
      sendIds m h sends n p i = .error (.ended .undefined) := by
  induction l generalizing p n i with
  | nil =>
    have hp : p = none := hc
    rw [hp, sendIds]
    exact Or.inl ⟨_, rfl⟩
  | cons e l ih =>
    obtain ⟨n, rfl⟩ := Nat.exists_eq_add_one.mpr (Nat.zero_lt_of_lt hn)
    obtain ⟨rfl, q, hcell, hq⟩ := hc
    rw [List.length_cons] at hn
    simp only [sendIds, hcell, orUndefined_some, ok_bind]
    split_ifs with hlong hsend
    · exact Or.inr rfl
    · rcases ih hq (by omega : l.length ≤ n) (i+1) with ⟨sent, hmore⟩ | hmore
      · rw [hmore]
        exact Or.inl ⟨_, rfl⟩
      · rw [hmore]
        exact Or.inr rfl
    · exact Or.inl ⟨_, rfl⟩

/-- The critical section of `sendClientInfo` with a free mutex: the list stays as it is. -/
inductive Searches (m : Memory) (L : ClientList) (l : List (ℕ × ClientNode)) (id : ℕ)
    (send : Bool) : Except Halt Searched → Prop
  | absent : Absent m l id → Searches m L l id send
      (.ok ⟨L, if send then some (padded maxMsgLength (ascii "DNE")) else none, false⟩)
  | found {front rest : List (ℕ × ClientNode)} {e : ℕ × ClientNode} {info : Bytes} :
      FirstAt m l id front e rest → clientInfo m e.2 = .ok info → Searches m L l id send
        (.ok ⟨L, if send then some (padded maxMsgLength info) else none, send⟩)
  | failed {front rest : List (ℕ × ClientNode)} {e : ℕ × ClientNode} {status : ProcessStatus} :
      FirstAt m l id front e rest → clientInfo m e.2 = .error (.ended status) → status ≠ .running →
      Searches m L l id send (.error (.ended status))

theorem clientInfo_error {c : ClientNode} {halt : Halt} (h : clientInfo m c = .error halt) :
    ∃ status, halt = .ended status ∧ status ≠ .running := by
  rw [clientInfo] at h
  split at h
  · cases h
    exact ⟨_, rfl, nofun⟩
  · simp only at h
    split_ifs at h
    cases h
    exact ⟨_, rfl, nofun⟩

theorem searchSection_cases (m : Memory) (id : ℕ) (hc : Chain L.heap L.top l)
    (hfree : L.locked = false) (send : Bool) :
    Searches m L l id send (searchSection m L id send) := by
  have hchain : Chain { L with locked := true }.heap { L with locked := true }.top l := hc
  have hunlock : unlockMutex { L with locked := true } = L := by
    rw [unlockMutex, ← hfree]
  rw [searchSection, lockMutex_of_free hfree, ok_bind]
  rcases absent_or_first m l id with habsent | ⟨front, e, rest, hfirst⟩
  · rw [findNode_of_absent hchain habsent]
    simp only [ok_bind, hunlock, pure_eq_ok]
    exact .absent habsent
  · obtain ⟨q, hfind⟩ := findNode_of_first hchain hfirst
    rw [hfind]
    cases hinfo : clientInfo m e.2 with
    | ok info =>
      have hfound : Searches m L l id send _ := .found hfirst hinfo
      simp only [ok_bind, hinfo, hunlock, pure_eq_ok]
      cases send with
      | true => exact hfound
      | false => exact hfound
    | error halt =>
      obtain ⟨status, rfl, hstatus⟩ := clientInfo_error hinfo
      simp only [ok_bind, hinfo, error_bind]
      exact .failed hfirst hinfo hstatus

end NetTools.Chat
