import NetTools.ChatConnect

namespace NetTools.Chat

open CText LinkedHeap Schedule

/-- The node that the threads look for, in the list they start from. -/
structure Target (m : Memory) (L : ClientList) (id : ℕ) (front : List (ℕ × ClientNode))
    (e : ℕ × ClientNode) (rest : List (ℕ × ClientNode)) : Prop where
  chain : Chain L.heap L.top (front ++ e :: rest)
  first : FirstAt m (front ++ e :: rest) id front e rest
  gone : Absent m (front ++ rest) id
  count : 1 ≤ L.numClients ∧ L.numClients < 2^31

/-- The thread has taken the node out. -/
def Caller.Removed : Caller → Prop
  | .waiting => False
  | .found => False
  | .unlinked => True
  | .returned result => 0 ≤ result
  | .served => True

namespace Connects

variable {m : Memory} {L : ClientList} {id k : ℕ} {front rest : List (ℕ × ClientNode)}
  {e : ℕ × ClientNode} {s t : Connects} {a : Act}

/-- The node is still there, and nobody has taken it out. -/
structure Untouched (front : List (ℕ × ClientNode)) (e : ℕ × ClientNode)
    (rest : List (ℕ × ClientNode)) (s : Connects) : Prop where
  removals : s.removals = 0
  chain : Chain s.list.heap s.list.top (front ++ e :: rest)
  nobody : ∀ i, ¬ (s.caller i).Removed

/-- Thread `j` has taken the node out. -/
structure TakenBy (front rest : List (ℕ × ClientNode)) (j : ℕ) (s : Connects) : Prop where
  removals : s.removals = 1
  chain : Chain s.list.heap s.list.top (front ++ rest)
  only : ∀ i, (s.caller i).Removed → i = j

/-- What holds in every interleaving: what a thread is sent comes from the node or is DNE, and while
the process runs the mutex is free and one thread at most has taken the node out. -/
structure Sound (m : Memory) (front : List (ℕ × ClientNode)) (e : ℕ × ClientNode)
    (rest : List (ℕ × ClientNode)) (s : Connects) : Prop where
  received : ∀ i, s.received i = none ∨ s.received i = some doesNotExist ∨
    ∃ info, clientInfo m e.2 = .ok info ∧ s.received i = some (padded maxMsgLength info)
  list : s.process = .running →
    s.list.locked = false ∧ (Untouched front e rest s ∨ ∃ j, TakenBy front rest j s)

theorem sound_start (h : Target m L id front e rest) (hfree : L.locked = false) :
    Sound m front e rest (start L) :=
  ⟨fun _ => Or.inl rfl, fun _ => ⟨hfree, Or.inl ⟨rfl, h.chain, fun _ hr => hr⟩⟩⟩

/-- The end of the process leaves what the threads were sent. -/
theorem Sound.ends (h : Sound m front e rest s) {status : ProcessStatus} (hs : status ≠ .running) :
    Sound m front e rest { s with process := status } :=
  ⟨h.received, fun hrun => absurd hrun hs⟩

/-- A step that leaves the chain, and by which nobody takes the node out. -/
theorem Sound.list_of_same (h : Sound m front e rest s) (hrun : s.process = .running)
    (hheap : t.list.heap = s.list.heap) (htop : t.list.top = s.list.top)
    (hlocked : t.list.locked = s.list.locked) (hremovals : t.removals = s.removals)
    (hcaller : ∀ i, (t.caller i).Removed → (s.caller i).Removed) :
    t.list.locked = false ∧ (Untouched front e rest t ∨ ∃ j, TakenBy front rest j t) := by
  obtain ⟨hfree, hstate⟩ := h.list hrun
  refine ⟨hlocked.trans hfree, ?_⟩
  rcases hstate with ⟨hnone, hchain, hnobody⟩ | ⟨j, hone, hchain, honly⟩
  · left
    refine ⟨hremovals.trans hnone, ?_, fun i hi => hnobody i (hcaller i hi)⟩
    rw [hheap, htop]
    exact hchain
  · right
    refine ⟨j, hremovals.trans hone, ?_, fun i hi => honly i (hcaller i hi)⟩
    rw [hheap, htop]
    exact hchain

/-- The chain of the list while the process runs. -/
theorem Sound.exists_chain (h : Sound m front e rest s) (hrun : s.process = .running) :
    ∃ l, Chain s.list.heap s.list.top l ∧ (l = front ++ e :: rest ∨ l = front ++ rest) := by
  obtain ⟨-, hstate | ⟨j, hstate⟩⟩ := h.list hrun
  · exact ⟨_, hstate.chain, Or.inl rfl⟩
  · exact ⟨_, hstate.chain, Or.inr rfl⟩

theorem Sound.dies (h : Sound m front e rest s) (hrun : s.process = .running) {send : Bool}
    {status : ProcessStatus} (hs : searchSection m s.list id send = .error (.ended status)) :
    status ≠ .running := by
  obtain ⟨l, hchain, -⟩ := h.exists_chain hrun
  have hcases := searchSection_cases m id hchain (h.list hrun).1 send
  rw [hs] at hcases
  cases hcases with
  | failed _ _ hstatus => exact hstatus

theorem Sound.exits (h : Sound m front e rest s) (hrun : s.process = .running)
    {status : ProcessStatus} (hs : removeSection m s.list id = .error (.ended status)) :
    status ≠ .running := by
  obtain ⟨l, hchain, -⟩ := h.exists_chain hrun
  have hcases := removeSection_cases m id hchain (h.list hrun).1
  rw [hs] at hcases
  cases hcases with
  | absent => simp

theorem overflows_not_running {d : Int} {status : ProcessStatus}
    (hs : addToCount L d = .error (.ended status)) : status ≠ .running := by
  rcases addToCount_cases L d with ⟨hadd, -⟩ | hadd
  · rw [hs] at hadd
    cases hadd
  · rw [hs] at hadd
    cases hadd
    simp

/-- A node with the id is the one looked for. -/
theorem eq_of_firstAt (htarget : Target m L id front e rest) {l : List (ℕ × ClientNode)}
    (hl : l = front ++ e :: rest ∨ l = front ++ rest) {front' rest' : List (ℕ × ClientNode)}
    {e' : ℕ × ClientNode} (hfirst : FirstAt m l id front' e' rest') :
    l = front ++ e :: rest ∧ front' = front ∧ e' = e ∧ rest' = rest := by
  rcases hl with rfl | rfl
  · exact ⟨rfl, hfirst.unique htarget.first⟩
  · exact absurd htarget.gone hfirst.not_absent

/-- A search leaves the list, and sends nothing, DNE or the address of the node. -/
theorem search_sends (htarget : Target m L id front e rest) (h : Sound m front e rest s)
    (hrun : s.process = .running) {send : Bool} {r : Searched}
    (hsearch : searchSection m s.list id send = .ok r) :
    r.list = s.list ∧ (r.received = none ∨ r.received = some doesNotExist ∨
      ∃ info, clientInfo m e.2 = .ok info ∧ r.received = some (padded maxMsgLength info)) := by
  obtain ⟨hfree, -⟩ := h.list hrun
  obtain ⟨l, hchain, hl⟩ := h.exists_chain hrun
  have hcases := searchSection_cases m id hchain hfree send
  rw [hsearch] at hcases
  cases hcases with
  | absent habsent =>
    cases send with
    | true => exact ⟨rfl, Or.inr (Or.inl rfl)⟩
    | false => exact ⟨rfl, Or.inl rfl⟩
  | found hfirst hinfo =>
    obtain ⟨-, -, rfl, -⟩ := eq_of_firstAt htarget hl hfirst
    cases send with
    | true => exact ⟨rfl, Or.inr (Or.inr ⟨_, hinfo, rfl⟩)⟩
    | false => exact ⟨rfl, Or.inl rfl⟩

theorem sound_searched (htarget : Target m L id front e rest) (h : Sound m front e rest s)
    (hrun : s.process = .running) {i : ℕ} {send : Bool} {r : Searched}
    (hsearch : searchSection m s.list id send = .ok r) :
    Sound m front e rest (s.searched i r) := by
  obtain ⟨hlist, hreceived⟩ := search_sends htarget h hrun hsearch
  constructor
  · intro x
    by_cases hx : x = i
    · rw [hx, searched, receive_received_self]
      exact hreceived
    · rw [searched, receive_received_of_ne _ _ hx]
      exact h.received x
  · intro _
    apply h.list_of_same hrun
    · rw [searched, receive_list, goTo_list, hlist]
    · rw [searched, receive_list, goTo_list, hlist]
    · rw [searched, receive_list, goTo_list, hlist]
    · rfl
    · intro x hremoved
      by_cases hx : x = i
      · -- behind a search the thread has not taken the node out
        rw [hx, searched, receive_caller, goTo_caller_self] at hremoved
        split_ifs at hremoved
        · exact hremoved.elim
        · exact absurd hremoved (by decide : ¬ (0 : Int) ≤ -1)
      · rwa [searched, receive_caller, goTo_caller_of_ne _ _ hx] at hremoved

theorem sound_removed (htarget : Target m L id front e rest) (h : Sound m front e rest s)
    (hrun : s.process = .running) {i : ℕ} {L' : ClientList}
    (hremove : removeSection m s.list id = .ok L') : Sound m front e rest (s.removed i L') := by
  obtain ⟨hfree, hstate⟩ := h.list hrun
  obtain ⟨l, hchain, hl⟩ := h.exists_chain hrun
  have hcases := removeSection_cases m id hchain hfree
  rw [hremove] at hcases
  cases hcases with
  | @node _ front' rest' e' hfirst hchain' hfreed hcount hlocked =>
    obtain ⟨rfl, rfl, rfl, rfl⟩ := eq_of_firstAt htarget hl hfirst
    have huntouched : Untouched front' e' rest' s := by
      rcases hstate with huntouched | ⟨j, htaken⟩
      · exact huntouched
      · -- the chain would hold the node and hold it not
        exact absurd (hchain.unique htaken.chain ▸ htarget.gone) hfirst.not_absent
    refine ⟨h.received, fun _ => ⟨hlocked, Or.inr ⟨i, ?_, hchain', ?_⟩⟩⟩
    · exact congrArg (· + 1) huntouched.removals
    · intro x hremoved
      by_contra hx
      rw [removed, goTo_caller_of_ne _ _ hx] at hremoved
      exact huntouched.nobody x hremoved

theorem sound_counted (h : Sound m front e rest s) (hrun : s.process = .running) {i : ℕ}
    {L' : ClientList} (hcaller : s.caller i = .unlinked) (hcount : addToCount s.list (-1) = .ok L') :
    Sound m front e rest (s.counted i L') := by
  have hadd : L' = { s.list with numClients := s.list.numClients + -1 } := by
    rcases addToCount_cases s.list (-1) with ⟨hadd, -⟩ | hadd
    · rw [hcount] at hadd
      exact Except.ok.inj hadd
    · rw [hcount] at hadd
      cases hadd
  refine ⟨h.received, fun _ => h.list_of_same hrun ?_ ?_ ?_ rfl ?_⟩
  · rw [counted, goTo_list, hadd]
  · rw [counted, goTo_list, hadd]
  · rw [counted, goTo_list, hadd]
  · intro x hremoved
    by_cases hx : x = i
    · rw [hx, hcaller]
      trivial
    · rwa [counted, goTo_caller_of_ne _ _ hx] at hremoved

theorem sound_step (htarget : Target m L id front e rest) (h : Sound m front e rest s)
    (hrun : s.process = .running) (hstep : Steps m id s a t) : Sound m front e rest t := by
  cases hstep with
  | search hcaller hsearch => exact sound_searched htarget h hrun hsearch
  | dies hcaller hsearch => exact h.ends (h.dies hrun hsearch)
  | remove hcaller hremove => exact sound_removed htarget h hrun hremove
  | exits hcaller hremove => exact h.ends (h.exits hrun hremove)
  | count hcaller hcount => exact sound_counted h hrun hcaller hcount
  | overflows hcaller hcount => exact h.ends (overflows_not_running hcount)
  | fails => exact h.ends (by simp)
  | @serves i result hcaller hresult =>
    refine ⟨h.received, fun _ => h.list_of_same hrun rfl rfl rfl rfl ?_⟩
    intro x hremoved
    by_cases hx : x = i
    · rw [hx, hcaller]
      exact hresult
    · rwa [goTo_caller_of_ne _ _ hx] at hremoved

theorem sound_of_reachable (htarget : Target m L id front e rest) (hfree : L.locked = false)
    (h : Reachable (step m id k) anyStep (start L) s) : Sound m front e rest s := by
  refine h.invariant (sound_start htarget hfree) ?_
  intro s a t hs _ hstep
  obtain ⟨hrun, -, hsteps⟩ := step_cases hstep
  exact sound_step htarget hs hrun hsteps

theorem goOn_ne_none {β : Type} {result : Except Halt β} {next : β → Connects}
    (h : result ≠ .error .blocked) : s.goOn result next ≠ none := by
  cases result with
  | ok b => exact Option.some_ne_none _
  | error halt =>
    cases halt with
    | blocked => exact absurd rfl h
    | ended status => exact Option.some_ne_none _

/-- A thread that is not back in its loop can take its next step, and it is one of a call unless the
call has returned. -/
theorem exists_step (id : ℕ) (h : Sound m front e rest s) (hrun : s.process = .running) {i : ℕ}
    (hi : i < k) (hcaller : s.caller i ≠ .served) :
    ∃ a, step m id k s a ≠ none ∧ ((∀ result, s.caller i ≠ .returned result) → inCall s a) := by
  -- in a running process the mutex is free, so that no critical section blocks
  obtain ⟨hfree, -⟩ := h.list hrun
  obtain ⟨l, hchain, -⟩ := h.exists_chain hrun
  have hguard : ¬ (s.process ≠ .running ∨ k ≤ i) := by
    rw [not_or, not_not, not_le]
    exact ⟨hrun, hi⟩
  cases hc : s.caller i with
  | waiting =>
    refine ⟨.search i true, ?_, fun _ => trivial⟩
    have hblocked : searchSection m s.list id true ≠ .error .blocked := by
      have hcases := searchSection_cases m id hchain hfree true
      intro heq
      rw [heq] at hcases
      cases hcases
    unfold step
    rw [Act.thread, if_neg hguard, hc]
    exact goOn_ne_none hblocked
  | found =>
    refine ⟨.remove i, ?_, fun _ => trivial⟩
    have hblocked : removeSection m s.list id ≠ .error .blocked := by
      have hcases := removeSection_cases m id hchain hfree
      intro heq
      rw [heq] at hcases
      cases hcases
    unfold step
    rw [Act.thread, if_neg hguard, hc]
    exact goOn_ne_none hblocked
  | unlinked =>
    refine ⟨.count i, ?_, fun _ => trivial⟩
    have hblocked : addToCount s.list (-1) ≠ .error .blocked := by
      rcases addToCount_cases s.list (-1) with ⟨hadd, -⟩ | hadd
      · rw [hadd]
        simp
      · rw [hadd]
        simp
    unfold step
    rw [Act.thread, if_neg hguard, hc]
    exact goOn_ne_none hblocked
  | returned result =>
    refine ⟨.check i, ?_, fun hnot => absurd rfl (hnot result)⟩
    unfold step
    rw [Act.thread, if_neg hguard, hc]
    simp only
    split_ifs
    · exact Option.some_ne_none _
    · exact Option.some_ne_none _
  | served => exact absurd hc hcaller

/-- With two threads no interleaving of the whole server comes to its end with the process alive. -/
theorem ended_of_over (htarget : Target m L id front e rest) (hfree : L.locked = false)
    (hk : 2 ≤ k) (h : Reachable (step m id k) anyStep (start L) s) (hover : Over m id k anyStep s) :
    s.process ≠ .running := by
  intro hrun
  have hsound := sound_of_reachable htarget hfree h
  have hserved (i : ℕ) (hi : i < k) : s.caller i = .served := by
    by_contra hnot
    obtain ⟨a, hstep, -⟩ := exists_step id hsound hrun hi hnot
    exact hstep (hover a trivial)
  -- both would have taken the node out
  have hremoved (i : ℕ) (hi : i < k) : (s.caller i).Removed := by
    rw [hserved i hi]
    trivial
  obtain ⟨-, hnone | ⟨j, htaken⟩⟩ := hsound.list hrun
  · exact hnone.nobody 0 (hremoved 0 (by omega))
  · have h0 := htaken.only 0 (hremoved 0 (by omega))
    have h1 := htaken.only 1 (hremoved 1 (by omega))
    omega

/-- How many steps a thread still has in front of it. -/
def rank : Caller → ℕ
  | .waiting => 4
  | .found => 3
  | .unlinked => 2
  | .returned _ => 1
  | .served => 0

def measure (k : ℕ) (s : Connects) : ℕ :=
  if s.process = .running then 1+∑ i ∈ Finset.range k, rank (s.caller i) else 0

/-- A step ends the process, or its thread comes nearer to its end and the others stay. -/
theorem ends_or_advances (h : Sound m front e rest s) (hrun : s.process = .running)
    (hsteps : Steps m id s a t) :
    t.process ≠ .running ∨ rank (t.caller a.thread) < rank (s.caller a.thread) ∧
      ∀ i, i ≠ a.thread → t.caller i = s.caller i := by
  cases hsteps with
  | @search i send r hcaller hsearch =>
    right
    rw [Act.thread, searched, receive_caller, goTo_caller_self, hcaller]
    refine ⟨?_, fun j hj => goTo_caller_of_ne _ _ hj⟩
    split_ifs
    · exact (by decide : rank .found < rank .waiting)
    · exact (by decide : 1 < 4)
  | dies hcaller hsearch => exact Or.inl (h.dies hrun hsearch)
  | @remove i L' hcaller hremove =>
    right
    rw [Act.thread, removed, goTo_caller_self, hcaller]
    exact ⟨by decide, fun j hj => goTo_caller_of_ne _ _ hj⟩
  | exits hcaller hremove => exact Or.inl (h.exits hrun hremove)
  | @count i L' hcaller hcount =>
    right
    rw [Act.thread, counted, goTo_caller_self, hcaller]
    exact ⟨(by decide : 1 < 2), fun j hj => goTo_caller_of_ne _ _ hj⟩
  | overflows hcaller hcount => exact Or.inl (overflows_not_running hcount)
  | fails => exact Or.inl (by simp)
  | @serves i result hcaller hresult =>
    right
    rw [Act.thread, goTo_caller_self, hcaller]
    exact ⟨Nat.zero_lt_one, fun j hj => goTo_caller_of_ne _ _ hj⟩

theorem measure_step (h : Sound m front e rest s) (hstep : step m id k s a = some t) :
    measure k t < measure k s := by
  obtain ⟨hrun, hthread, hsteps⟩ := step_cases hstep
  rw [measure, measure, if_pos hrun]
  split_ifs with ht
  · obtain ⟨hless, hsame⟩ := (ends_or_advances h hrun hsteps).resolve_left (not_not_intro ht)
    apply Nat.add_lt_add_left
    exact sum_rank_lt hthread hless fun i hi => congrArg rank (hsame i hi)
  · omega

/-- Every state of a run has an end ahead of it. -/
theorem exists_over (htarget : Target m L id front e rest) (hfree : L.locked = false)
    (h : Reachable (step m id k) anyStep (start L) s) :
    ∃ t, Reachable (step m id k) anyStep s t ∧ Over m id k anyStep t := by
  induction hn : measure k s using Nat.strong_induction_on generalizing s with
  | _ n ih =>
    by_cases hover : Over m id k anyStep s
    · exact ⟨s, .start, hover⟩
    · -- some step is left, and it spends some of the measure
      simp only [Over, not_forall] at hover
      obtain ⟨a, -, hstep⟩ := hover
      obtain ⟨t, hstep⟩ := Option.ne_none_iff_exists'.mp hstep
      have hsound := sound_of_reachable htarget hfree h
      have hless : measure k t < n := hn ▸ measure_step hsound hstep
      obtain ⟨u, hu, hover⟩ := ih (measure k t) hless (.step h trivial hstep) rfl
      exact ⟨u, (Reachable.single trivial hstep).trans hu, hover⟩

theorem measure_start (L : ClientList) (k : ℕ) : measure k (start L) = 1+4*k := by
  have hrank : ∀ i ∈ Finset.range k, rank ((start L).caller i) = 4 := fun _ _ => rfl
  have hrun : (start L).process = .running := rfl
  rw [measure, if_pos hrun, Finset.sum_const_nat hrank, Finset.card_range, Nat.mul_comm]

/-- No interleaving has more than four steps for each thread and the end of the process. -/
theorem length_le_of_replayIf (htarget : Target m L id front e rest) (hfree : L.locked = false)
    {as : List Act} (h : replayIf (step m id k) anyStep (start L) as = some s) :
    as.length ≤ 1+4*k := by
  have hspends : ∀ s a t, Reachable (step m id k) anyStep (start L) s → anyStep s a →
      step m id k s a = some t →
      Reachable (step m id k) anyStep (start L) t ∧ measure k t < measure k s :=
    fun s a t hs _ ht =>
      ⟨.step hs trivial ht, measure_step (sound_of_reachable htarget hfree hs) ht⟩
  have hle := (replayIf_spends (measure k) hspends .start h).2
  rw [measure_start] at hle
  omega

end Connects

end NetTools.Chat
