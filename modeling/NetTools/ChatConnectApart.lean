import NetTools.ChatConnectOnce

namespace NetTools.Chat

open CText LinkedHeap Schedule

namespace Connects

variable {m : Memory} {L : ClientList} {id k : ℕ} {front rest : List (ℕ × ClientNode)}
  {e : ℕ × ClientNode} {c : ClientNode} {s t : Connects} {a : Act} {n : Int}

/-- Where the threads are as long as no search has fallen into a gap: all before their search, one
in its gap and the others before their search, or one behind its removal and the others before
their search or answered with DNE. -/
inductive Orderly (m : Memory) (c : ClientNode) (n : Int) (k : ℕ) (s : Connects) : Prop
  | start : s.process = .running → s.removals = 0 → s.list.numClients = n →
      (∀ i < k, s.caller i = .waiting) → Orderly m c n k s
  | found {j : ℕ} : s.process = .running → s.removals = 0 → s.list.numClients = n → j < k →
      s.caller j = .found → s.received j = some (address m c) →
      (∀ i < k, i ≠ j → s.caller i = .waiting) → Orderly m c n k s
  | taken {j : ℕ} : s.process = .running → s.removals = 1 → j < k →
      (s.caller j = .unlinked ∧ s.list.numClients = n ∨ s.caller j = .returned 1) →
      s.received j = some (address m c) →
      (∀ i < k, i ≠ j → s.caller i = .waiting ∨
        s.caller i = .returned (-1) ∧ s.received i = some doesNotExist) → Orderly m c n k s

theorem Sound.chain_of_zero (h : Sound m front e rest s) (hrun : s.process = .running)
    (hzero : s.removals = 0) : Chain s.list.heap s.list.top (front ++ e :: rest) := by
  obtain ⟨-, hstate | ⟨j, hstate⟩⟩ := h.list hrun
  · exact hstate.chain
  · have hone := hstate.removals
    omega

theorem Sound.chain_of_one (h : Sound m front e rest s) (hrun : s.process = .running)
    (hone : s.removals = 1) : Chain s.list.heap s.list.top (front ++ rest) := by
  obtain ⟨-, hstate | ⟨j, hstate⟩⟩ := h.list hrun
  · have hzero := hstate.removals
    omega
  · exact hstate.chain

/-- A search while the node is there. -/
theorem search_present (htarget : Target m L id front e rest) (hsend : SendsAddress m e.2)
    (h : Sound m front e rest s) (hrun : s.process = .running) (hzero : s.removals = 0) :
    searchSection m s.list id true = .ok ⟨s.list, some (address m e.2), true⟩ := by
  have hcases := searchSection_cases m id (h.chain_of_zero hrun hzero)
    (h.list hrun).1 true
  obtain ⟨info, hinfo, haddress⟩ := hsend
  generalize searchSection m s.list id true = result at hcases ⊢
  cases hcases with
  | absent habsent => exact absurd habsent htarget.first.not_absent
  | found hfirst hinfo' =>
    obtain ⟨-, rfl, -⟩ := htarget.first.unique hfirst
    rw [hinfo] at hinfo'
    obtain rfl := Except.ok.inj hinfo'
    rw [← haddress]
    rfl
  | failed hfirst hinfo' =>
    obtain ⟨-, rfl, -⟩ := htarget.first.unique hfirst
    rw [hinfo] at hinfo'
    cases hinfo'

/-- A search after the removal. -/
theorem search_absent (htarget : Target m L id front e rest) (h : Sound m front e rest s)
    (hrun : s.process = .running) (hone : s.removals = 1) :
    searchSection m s.list id true = .ok ⟨s.list, some doesNotExist, false⟩ := by
  have hcases := searchSection_cases m id (h.chain_of_one hrun hone)
    (h.list hrun).1 true
  generalize searchSection m s.list id true = result at hcases ⊢
  cases hcases with
  | absent => rfl
  | found hfirst => exact absurd htarget.gone hfirst.not_absent
  | failed hfirst => exact absurd htarget.gone hfirst.not_absent

/-- A removal while the node is there. -/
theorem remove_present (htarget : Target m L id front e rest) (h : Sound m front e rest s)
    (hrun : s.process = .running) (hzero : s.removals = 0) :
    ∃ L', removeSection m s.list id = .ok L' ∧ L'.numClients = s.list.numClients := by
  have hcases := removeSection_cases m id (h.chain_of_zero hrun hzero)
    (h.list hrun).1
  generalize removeSection m s.list id = result at hcases ⊢
  cases hcases with
  | absent habsent => exact absurd habsent htarget.first.not_absent
  | node _ _ _ hcount => exact ⟨_, rfl, hcount⟩

theorem orderly_start (L : ClientList) : Orderly m c L.numClients k (start L) :=
  .start rfl rfl rfl fun _ _ => rfl

/-- The search of thread `i` in an orderly state without a thread in its gap. -/
theorem orderly_search (htarget : Target m L id front e rest) (hsend : SendsAddress m e.2)
    (hsound : Sound m front e rest s) (h : Orderly m e.2 n k s) {i : ℕ} (hi : i < k)
    (hcaller : s.caller i = .waiting) (hgap : ∀ j < k, s.caller j ≠ .found) :
    ∃ r, searchSection m s.list id true = .ok r ∧ Orderly m e.2 n k (s.searched i r) := by
  cases h with
  | start hrun hzero hcount hwait =>
    refine ⟨_, search_present htarget hsend hsound hrun hzero, ?_⟩
    refine .found (j := i) hrun hzero hcount hi ?_ ?_ ?_
    · rw [searched, receive_caller, goTo_caller_self]
      rfl
    · rw [searched, receive_received_self]
    · intro x hx hne
      rw [searched, receive_caller, goTo_caller_of_ne _ _ hne]
      exact hwait x hx
  | found hrun hzero hcount hj hfound => exact absurd hfound (hgap _ hj)
  | @taken j hrun hone hj hgone haddress hothers =>
    have hne : j ≠ i := by
      rintro rfl
      rw [hcaller] at hgone
      rcases hgone with ⟨hgone, -⟩ | hgone
      · cases hgone
      · cases hgone
    refine ⟨_, search_absent htarget hsound hrun hone, ?_⟩
    refine .taken (j := j) hrun hone hj ?_ ?_ ?_
    · rw [searched, receive_caller, goTo_caller_of_ne _ _ hne]
      exact hgone
    · rw [searched, receive_received_of_ne _ _ hne]
      exact haddress
    · intro x hx hxj
      by_cases hxi : x = i
      · right
        rw [hxi, searched, receive_caller, goTo_caller_self, receive_received_self]
        exact ⟨rfl, rfl⟩
      · rw [searched, receive_caller, goTo_caller_of_ne _ _ hxi, receive_received_of_ne _ _ hxi]
        exact hothers x hx hxj

/-- In an orderly state with a thread in its gap the others are before their search. -/
theorem Orderly.of_found (h : Orderly m c n k s) {i : ℕ} (hi : i < k) (hcaller : s.caller i = .found) :
    s.process = .running ∧ s.removals = 0 ∧ s.list.numClients = n ∧
      s.received i = some (address m c) ∧ ∀ x < k, x ≠ i → s.caller x = .waiting := by
  cases h with
  | start _ _ _ hwait =>
    rw [hwait i hi] at hcaller
    cases hcaller
  | @found j hrun hzero hcount hj hfound haddress hwait =>
    have hij : i = j := by
      by_contra hne
      rw [hwait i hi hne] at hcaller
      cases hcaller
    subst hij
    exact ⟨hrun, hzero, hcount, haddress, hwait⟩
  | @taken j hrun hone hj hgone haddress hothers =>
    by_cases hij : i = j
    · rw [← hij, hcaller] at hgone
      rcases hgone with ⟨hgone, -⟩ | hgone
      · cases hgone
      · cases hgone
    · rcases hothers i hi hij with hother | ⟨hother, -⟩
      · rw [hcaller] at hother
        cases hother
      · rw [hcaller] at hother
        cases hother

/-- A thread of an orderly state that is in its gap can remove the node. -/
theorem orderly_remove (htarget : Target m L id front e rest) (hsound : Sound m front e rest s)
    (h : Orderly m e.2 n k s) {i : ℕ} (hi : i < k) (hcaller : s.caller i = .found) :
    ∃ L', removeSection m s.list id = .ok L' ∧ Orderly m e.2 n k (s.removed i L') := by
  obtain ⟨hrun, hzero, hcount, haddress, hwait⟩ := h.of_found hi hcaller
  obtain ⟨L', hremove, hcount'⟩ := remove_present htarget hsound hrun hzero
  refine ⟨L', hremove, .taken (j := i) hrun (congrArg (· + 1) hzero) hi ?_ haddress ?_⟩
  · left
    rw [removed, goTo_caller_self]
    exact ⟨rfl, hcount'.trans hcount⟩
  · intro x hx hne
    left
    rw [removed, goTo_caller_of_ne _ _ hne]
    exact hwait x hx hne

/-- The counter of an orderly state can go down. -/
theorem orderly_count (hn : 1 ≤ n ∧ n < 2^31) (h : Orderly m c n k s) {i : ℕ} (hi : i < k)
    (hcaller : s.caller i = .unlinked) :
    ∃ L', addToCount s.list (-1) = .ok L' ∧ Orderly m c n k (s.counted i L') := by
  cases h with
  | start _ _ _ hwait =>
    rw [hwait i hi] at hcaller
    cases hcaller
  | @found j _ _ _ hj hfound _ hwait =>
    by_cases hij : i = j
    · rw [hij, hfound] at hcaller
      cases hcaller
    · rw [hwait i hi hij] at hcaller
      cases hcaller
  | @taken j hrun hone hj hgone haddress hothers =>
    have hij : i = j := by
      by_contra hne
      rcases hothers i hi hne with hother | ⟨hother, -⟩
      · rw [hcaller] at hother
        cases hother
      · rw [hcaller] at hother
        cases hother
    subst hij
    have hcount : s.list.numClients = n := by
      rcases hgone with ⟨-, hcount⟩ | hgone
      · exact hcount
      · rw [hcaller] at hgone
        cases hgone
    refine ⟨_, addToCount_of_range (by omega) (by omega), ?_⟩
    refine .taken (j := i) hrun hone hi (Or.inr ?_) haddress ?_
    · rw [counted, goTo_caller_self]
    · intro x hx hne
      rw [counted, goTo_caller_of_ne _ _ hne]
      exact hothers x hx hne

theorem orderly_step (htarget : Target m L id front e rest) (hsend : SendsAddress m e.2)
    (hsound : Sound m front e rest s) (h : Orderly m e.2 L.numClients k s) (hapart : apart k s a)
    (hstep : step m id k s a = some t) : Orderly m e.2 L.numClients k t := by
  obtain ⟨hrun, hthread, hsteps⟩ := step_cases hstep
  cases hsteps with
  | @search i send r hcaller hsearch =>
    obtain ⟨rfl, hgap⟩ := hapart
    obtain ⟨r', hr', ht⟩ := orderly_search htarget hsend hsound h hthread hcaller hgap
    rw [hsearch] at hr'
    exact Except.ok.inj hr' ▸ ht
  | @dies i send status hcaller hsearch =>
    obtain ⟨rfl, hgap⟩ := hapart
    obtain ⟨r', hr', -⟩ := orderly_search htarget hsend hsound h hthread hcaller hgap
    rw [hsearch] at hr'
    cases hr'
  | @remove i L' hcaller hremove =>
    obtain ⟨L₁, hL₁, ht⟩ := orderly_remove htarget hsound h hthread hcaller
    rw [hremove] at hL₁
    exact Except.ok.inj hL₁ ▸ ht
  | exits hcaller hremove =>
    obtain ⟨L₁, hL₁, -⟩ := orderly_remove htarget hsound h hthread hcaller
    rw [hremove] at hL₁
    cases hL₁
  | @count i L' hcaller hcount =>
    obtain ⟨L₁, hL₁, ht⟩ := orderly_count htarget.count h hthread hcaller
    rw [hcount] at hL₁
    exact Except.ok.inj hL₁ ▸ ht
  | overflows hcaller hcount =>
    obtain ⟨L₁, hL₁, -⟩ := orderly_count htarget.count h hthread hcaller
    rw [hcount] at hL₁
    cases hL₁
  | fails => exact hapart.elim
  | serves => exact hapart.elim

theorem orderly_of_reachable (htarget : Target m L id front e rest) (hfree : L.locked = false)
    (hsend : SendsAddress m e.2) (h : Reachable (step m id k) (apart k) (start L) s) :
    Orderly m e.2 L.numClients k s := by
  induction h with
  | start => exact orderly_start L
  | step hr hc hs ih =>
    exact orderly_step htarget hsend (sound_of_reachable htarget hfree hr.any) ih hc hs

/-- When the calls of an orderly interleaving are over, one thread was sent the address and the
others DNE. -/
theorem connectedOnce_of_orderly (hsound : Sound m front e rest s) (h : Orderly m c n k s)
    (hk : 0 < k) (hover : Over m id k inCall s) : ConnectedOnce m c k s := by
  have hreturned (hrun : s.process = .running) {i : ℕ} (hi : i < k) (hserved : s.caller i ≠ .served) :
      ∃ result, s.caller i = .returned result := by
    by_contra hnot
    obtain ⟨a, hstep, hcall⟩ := exists_step id hsound hrun hi hserved
    exact hstep (hover a (hcall fun result heq => hnot ⟨result, heq⟩))
  cases h with
  | start hrun _ _ hwait =>
    have hcaller := hwait 0 hk
    obtain ⟨result, hresult⟩ := hreturned hrun hk (by rw [hcaller]; simp)
    rw [hcaller] at hresult
    cases hresult
  | found hrun _ _ hj hfound =>
    obtain ⟨result, hresult⟩ := hreturned hrun hj (by rw [hfound]; simp)
    rw [hfound] at hresult
    cases hresult
  | @taken j hrun hone hj _ haddress hothers =>
    refine ⟨hrun, hone, j, hj, haddress, ?_⟩
    intro i hi hne
    rcases hothers i hi hne with hwaiting | ⟨-, hreceived⟩
    · obtain ⟨result, hresult⟩ := hreturned hrun hi (by rw [hwaiting]; simp)
      rw [hwaiting] at hresult
      cases hresult
    · exact hreceived

theorem address_ne_doesNotExist (m : Memory) (c : ClientNode) : address m c ≠ doesNotExist := by
  intro heq
  have hspace : (32 : Byte) ∈ address m c := by
    simp only [address, padded, List.mem_append]
    exact Or.inl (Or.inl (Or.inr (by decide)))
  rw [heq, doesNotExist, padded, List.mem_append, List.mem_replicate] at hspace
  rcases hspace with hspace | ⟨-, hspace⟩
  · exact absurd hspace (by decide)
  · cases hspace

/-- The outcome is lost: the process has ended, a thread was sent neither the address nor DNE, or
two were not sent DNE. -/
def Spoiled (m : Memory) (c : ClientNode) (k : ℕ) (s : Connects) : Prop :=
  s.process ≠ .running ∨
    (∃ i < k, s.caller i ≠ .waiting ∧ s.received i ≠ some (address m c) ∧
      s.received i ≠ some doesNotExist) ∨
    ∃ i < k, ∃ j < k, i ≠ j ∧ (s.caller i ≠ .waiting ∧ s.received i ≠ some doesNotExist) ∧
      s.caller j ≠ .waiting ∧ s.received j ≠ some doesNotExist

theorem not_connectedOnce_of_spoiled (h : Spoiled m c k s) : ¬ ConnectedOnce m c k s := by
  rintro ⟨hrun, -, i, hi, haddress, hothers⟩
  rcases h with hended | ⟨x, hx, -, hnot, hnot'⟩ | ⟨x, hx, y, hy, hxy, ⟨-, hxd⟩, -, hyd⟩
  · exact hended hrun
  · by_cases hxi : x = i
    · exact hnot (hxi ▸ haddress)
    · exact hnot' (hothers x hx hxi)
  · by_cases hxi : x = i
    · exact hyd (hothers y hy fun hyi => hxy (hxi.trans hyi.symm))
    · exact hxd (hothers x hx hxi)

/-- A thread behind its search keeps what it was sent. -/
theorem kept_of_step (hsteps : Steps m id s a t) {i : ℕ} (hi : s.caller i ≠ .waiting) :
    t.caller i ≠ .waiting ∧ t.received i = s.received i := by
  have hgoTo (s : Connects) (hi : s.caller i ≠ .waiting) (x : ℕ) {c : Caller} (hc : c ≠ .waiting) :
      (s.goTo x c).caller i ≠ .waiting := by
    by_cases hix : i = x
    · rw [hix, goTo_caller_self]
      exact hc
    · rw [goTo_caller_of_ne _ _ hix]
      exact hi
  cases hsteps with
  | @search x send r hcaller hsearch =>
    have hix : i ≠ x := by
      rintro rfl
      exact hi hcaller
    rw [searched, receive_caller, goTo_caller_of_ne _ _ hix, receive_received_of_ne _ _ hix]
    exact ⟨hi, rfl⟩
  | remove => exact ⟨hgoTo _ hi _ (by simp), rfl⟩
  | count => exact ⟨hgoTo _ hi _ (by simp), rfl⟩
  | serves => exact ⟨hgoTo _ hi _ (by simp), rfl⟩
  | dies => exact ⟨hi, rfl⟩
  | exits => exact ⟨hi, rfl⟩
  | overflows => exact ⟨hi, rfl⟩
  | fails => exact ⟨hi, rfl⟩

theorem spoiled_step (h : Spoiled m c k s) (hstep : step m id k s a = some t) :
    Spoiled m c k t := by
  obtain ⟨hrun, -, hsteps⟩ := step_cases hstep
  rcases h with hended | ⟨x, hx, hxw, hnot, hnot'⟩ | ⟨x, hx, y, hy, hxy, ⟨hxw, hxd⟩, hyw, hyd⟩
  · exact absurd hrun hended
  · obtain ⟨hxw', hxr⟩ := kept_of_step hsteps hxw
    rw [← hxr] at hnot hnot'
    exact Or.inr (Or.inl ⟨x, hx, hxw', hnot, hnot'⟩)
  · obtain ⟨hxw', hxr⟩ := kept_of_step hsteps hxw
    obtain ⟨hyw', hyr⟩ := kept_of_step hsteps hyw
    rw [← hxr] at hxd
    rw [← hyr] at hyd
    exact Or.inr (Or.inr ⟨x, hx, y, hy, hxy, ⟨hxw', hxd⟩, hyw', hyd⟩)

/-- Behind its search a thread is not waiting any more. -/
theorem searched_caller_ne_waiting (s : Connects) (i : ℕ) (r : Searched) :
    (s.searched i r).caller i ≠ .waiting := by
  rw [searched, receive_caller, goTo_caller_self]
  split_ifs
  · simp
  · simp

/-- A search that fails to send spoils the outcome. -/
theorem spoiled_of_unsent (hsound : Sound m front e rest s) (hrun : s.process = .running) {i : ℕ}
    (hi : i < k) {r : Searched} (hsearch : searchSection m s.list id false = .ok r) :
    Spoiled m e.2 k (s.searched i r) := by
  obtain ⟨hfree, -⟩ := hsound.list hrun
  obtain ⟨l, hchain, -⟩ := hsound.exists_chain hrun
  have hcases := searchSection_cases m id hchain hfree false
  rw [hsearch] at hcases
  have hnone : r.received = none := by
    cases hcases with
    | absent => rfl
    | found => rfl
  have hreceived : (s.searched i r).received i = none := by
    rw [searched, receive_received_self, hnone]
  refine Or.inr (Or.inl ⟨i, hi, searched_caller_ne_waiting s i r, ?_, ?_⟩)
  · rw [hreceived]
    simp
  · rw [hreceived]
    simp

/-- A search that falls into the gap of thread `j` spoils the outcome: the node is still there, and
both threads are sent the address. -/
theorem spoiled_of_gap (htarget : Target m L id front e rest) (hsend : SendsAddress m e.2)
    (hsound : Sound m front e rest s) (h : Orderly m e.2 n k s) (hrun : s.process = .running)
    {i j : ℕ} (hi : i < k) (hcaller : s.caller i = .waiting) (hj : j < k)
    (hfound : s.caller j = .found) {r : Searched}
    (hsearch : searchSection m s.list id true = .ok r) : Spoiled m e.2 k (s.searched i r) := by
  obtain ⟨-, hzero, -, haddress, -⟩ := h.of_found hj hfound
  have hij : i ≠ j := by
    rintro rfl
    rw [hcaller] at hfound
    cases hfound
  have hpresent := search_present htarget hsend hsound hrun hzero
  rw [hsearch] at hpresent
  rw [Except.ok.inj hpresent]
  have hne : some (address m e.2) ≠ some doesNotExist := fun heq =>
    address_ne_doesNotExist m e.2 (Option.some.inj heq)
  refine Or.inr (Or.inr ⟨i, hi, j, hj, hij, ⟨searched_caller_ne_waiting s i _, ?_⟩, ?_, ?_⟩)
  · rw [searched, receive_received_self]
    exact hne
  · rw [searched, receive_caller, goTo_caller_of_ne _ _ hij.symm, hfound]
    simp
  · rw [searched, receive_received_of_ne _ _ hij.symm, goTo_received, haddress]
    exact hne

/-- A step of a call that does not keep apart spoils the outcome. -/
theorem spoiled_of_not_apart (htarget : Target m L id front e rest) (hsend : SendsAddress m e.2)
    (hsound : Sound m front e rest s) (h : Orderly m e.2 n k s) (hcall : inCall s a)
    (hapart : ¬ apart k s a) (hstep : step m id k s a = some t) : Spoiled m e.2 k t := by
  obtain ⟨hrun, hthread, hsteps⟩ := step_cases hstep
  cases hsteps with
  | @search i send r hcaller hsearch =>
    cases send with
    | false => exact spoiled_of_unsent hsound hrun hthread hsearch
    | true =>
      have hgap : ∃ j < k, s.caller j = .found := by
        by_contra hnot
        exact hapart ⟨rfl, fun j hj hfound => hnot ⟨j, hj, hfound⟩⟩
      obtain ⟨j, hj, hfound⟩ := hgap
      exact spoiled_of_gap htarget hsend hsound h hrun hthread hcaller hj hfound hsearch
  | dies hcaller hsearch => exact Or.inl (hsound.dies hrun hsearch)
  | remove => exact absurd trivial hapart
  | exits => exact absurd trivial hapart
  | count => exact absurd trivial hapart
  | overflows => exact absurd trivial hapart
  | fails => exact hcall.elim
  | serves => exact hcall.elim

theorem apart_or_spoiled (htarget : Target m L id front e rest) (hfree : L.locked = false)
    (hsend : SendsAddress m e.2) (h : Reachable (step m id k) inCall (start L) s) :
    Reachable (step m id k) (apart k) (start L) s ∨ Spoiled m e.2 k s := by
  induction h with
  | start => exact Or.inl .start
  | @step s t a hr hc hs ih =>
    rcases ih with hapart | hspoiled
    · by_cases ha : apart k s a
      · exact Or.inl (hapart.step ha hs)
      · have hsound := sound_of_reachable htarget hfree hr.any
        have horderly := orderly_of_reachable htarget hfree hsend hapart
        exact Or.inr (spoiled_of_not_apart htarget hsend hsound horderly hc ha hs)
    · exact Or.inr (spoiled_step hspoiled hs)

/-- A list whose mutex is kept lets no thread begin. -/
theorem step_start_of_locked (hlocked : L.locked = true) (a : Act) :
    step m id k (start L) a = none := by
  have hsearch (send : Bool) : searchSection m L id send = .error .blocked := by
    rw [searchSection, lockMutex_of_locked hlocked]
    rfl
  cases hstep : step m id k (start L) a with
  | none => rfl
  | some t =>
    obtain ⟨-, -, hsteps⟩ := step_cases hstep
    cases hsteps with
    | search _ hs =>
      have hs' := (hsearch _).symm.trans hs
      cases hs'
    | dies _ hs =>
      have hs' := (hsearch _).symm.trans hs
      cases hs'
    | remove hcaller => cases hcaller
    | exits hcaller => cases hcaller
    | count hcaller => cases hcaller
    | overflows hcaller => cases hcaller
    | fails hcaller => cases hcaller
    | serves hcaller => cases hcaller

theorem eq_start_of_locked (hlocked : L.locked = true)
    (h : Reachable (step m id k) anyStep (start L) s) : s = start L := by
  refine h.invariant (P := fun s => s = start L) rfl ?_
  rintro s a t rfl - hstep
  rw [step_start_of_locked hlocked] at hstep
  cases hstep

theorem not_connectedOnce_start (L : ClientList) : ¬ ConnectedOnce m c k (start L) := by
  rintro ⟨-, hone, -⟩
  cases hone

end Connects

/-- An id of a list that calls lead to stands at one node. -/
theorem exists_target {m : Memory} {L : ClientList} {id : ℕ} {c : Cell ClientNode}
    (hL : Reachable (listStep m) anyStep newClientList L) (hid : findNode m L id = .ok (some c)) :
    ∃ front e rest, Target m L id front e rest ∧ e.2 = c.value := by
  obtain ⟨⟨s, hrep⟩, hlt⟩ := represents_of_reachable hL
  obtain ⟨l, hchain, hl⟩ := hrep.chain
  rcases absent_or_first m l id with habsent | ⟨front, e, rest, hfirst⟩
  · rw [findNode_of_absent hchain habsent] at hid
    cases hid
  · obtain ⟨q, hfind⟩ := findNode_of_first hchain hfirst
    rw [hid] at hfind
    have hc : c = ⟨e.2, q⟩ := Option.some.inj (Except.ok.inj hfind)
    have hsplit := hfirst.split
    subst hsplit
    refine ⟨front, e, rest, ⟨hchain, hfirst, ?_, ?_, hlt⟩, by rw [hc]⟩
    · -- without the node the map has the id no more
      have hid : m.str id = idOf m e.2 := of_decide_eq_true hfirst.same
      have hsplit : s.toList = front.map Prod.snd ++ e.2 :: rest.map Prod.snd := by
        rw [← hl, List.map_append, List.map_cons]
      have herase : (front ++ rest).map Prod.snd = (s.erase (m.str id)).toList := by
        rw [hid, OrderedMap.toList_erase hsplit, List.map_append]
      exact (absent_iff herase).mpr (s.not_has_erase (m.str id))
    · rw [hrep.count, ← hl]
      simp only [List.map_append, List.map_cons, List.length_append, List.length_cons]
      omega

open Connects in
/-- Two or more threads that connect to one id of the list. The calls on their own connect exactly
one of them exactly when the mutex is free, `sprintf` makes the address of the node, every send
succeeds and no search falls into the gap of another call. With the threads' test of the result
every interleaving is over after at most `1+4*k` steps, every state has an end ahead of it, and at
no end is one of them connected and the process alive. -/
theorem connectedOnce_iff {m : Memory} {L : ClientList} {id k : ℕ} {c : Cell ClientNode}
    (hL : Reachable (listStep m) anyStep newClientList L) (hid : findNode m L id = .ok (some c))
    (hk : 2 ≤ k) :
    (∀ s, Reachable (step m id k) inCall (start L) s → Over m id k inCall s →
      (ConnectedOnce m c.value k s ↔ L.locked = false ∧ SendsAddress m c.value ∧
        Reachable (step m id k) (apart k) (start L) s)) ∧
    (∀ as s, replayIf (step m id k) anyStep (start L) as = some s → as.length ≤ 1+4*k) ∧
    (∀ s, Reachable (step m id k) anyStep (start L) s →
      ∃ t, Reachable (step m id k) anyStep s t ∧ Over m id k anyStep t) ∧
    ∀ s, Reachable (step m id k) anyStep (start L) s → Over m id k anyStep s →
      ¬ ConnectedOnce m c.value k s := by
  obtain ⟨front, e, rest, htarget, he⟩ := exists_target hL hid
  rw [← he]
  cases hlocked : L.locked with
  | true =>
    refine ⟨fun s hs _ => ?_, fun as s hs => ?_, fun s hs => ?_, fun s hs _ => ?_⟩
    · rw [eq_start_of_locked hlocked hs.any]
      constructor
      · exact fun h => absurd h (not_connectedOnce_start L)
      · rintro ⟨hfree, -⟩
        cases hfree
    · cases as with
      | nil => exact Nat.zero_le _
      | cons a as =>
        have hany : anyStep (start L) a := trivial
        rw [replayIf, if_pos hany, step_start_of_locked hlocked] at hs
        cases hs
    · rw [eq_start_of_locked hlocked hs]
      exact ⟨start L, .start, fun a _ => step_start_of_locked hlocked a⟩
    · rw [eq_start_of_locked hlocked hs]
      exact not_connectedOnce_start L
  | false =>
    refine ⟨fun s hs hover => ?_, fun as s => length_le_of_replayIf htarget hlocked,
      fun s => exists_over htarget hlocked, fun s hs hover => ?_⟩
    · have hsound := sound_of_reachable htarget hlocked hs.any
      constructor
      · intro h
        have hsend : SendsAddress m e.2 := by
          obtain ⟨-, -, i, -, haddress, -⟩ := h
          rcases hsound.received i with hnone | hdne | ⟨info, hinfo, hreceived⟩
          · rw [haddress] at hnone
            cases hnone
          · rw [haddress] at hdne
            exact absurd (Option.some.inj hdne) (address_ne_doesNotExist m e.2)
          · rw [haddress] at hreceived
            exact ⟨info, hinfo, (Option.some.inj hreceived).symm⟩
        refine ⟨rfl, hsend, ?_⟩
        rcases apart_or_spoiled htarget hlocked hsend hs with hapart | hspoiled
        · exact hapart
        · exact absurd h (not_connectedOnce_of_spoiled hspoiled)
      · rintro ⟨-, hsend, hapart⟩
        have horderly := orderly_of_reachable htarget hlocked hsend hapart
        exact connectedOnce_of_orderly hsound horderly (by omega) hover
    · rintro ⟨hrun, -⟩
      exact ended_of_over htarget hlocked hk hs hover hrun

/-- The list with one client, whose port was read as 0. -/
def oneWaiting : ClientList :=
  { heap := Heap.empty.alloc 7 ⟨⟨1, 3, 0⟩, none⟩, top := some 7, numClients := 1, locked := false }

theorem oneWaiting_reachable :
    Reachable (listStep exampleMemory) anyStep newClientList oneWaiting :=
  Reachable.single (a := .insertToList 1 3 0 (some 7)) trivial rfl

theorem connectedOnce_iff_two :
    Reachable (listStep exampleMemory) anyStep newClientList oneWaiting ∧
      findNode exampleMemory oneWaiting 1 = .ok (some ⟨⟨1, 3, 0⟩, none⟩) ∧
      ∀ s, Reachable (Connects.step exampleMemory 1 2) anyStep (Connects.start oneWaiting) s →
        Connects.Over exampleMemory 1 2 anyStep s → ¬ ConnectedOnce exampleMemory ⟨1, 3, 0⟩ 2 s := by
  have hid : findNode exampleMemory oneWaiting 1 = .ok (some ⟨⟨1, 3, 0⟩, none⟩) := rfl
  exact ⟨oneWaiting_reachable, hid,
    (connectedOnce_iff oneWaiting_reachable hid (Nat.le_refl 2)).2.2.2⟩

open Connects in
/-- Both calls search before either removes: the second removal ends the process. -/
theorem not_connectedOnce : ¬ ∀ (m : Memory) (L : ClientList) (id k : ℕ) (c : Cell ClientNode),
    Reachable (listStep m) anyStep newClientList L → findNode m L id = .ok (some c) → 2 ≤ k →
      ∀ s, Reachable (step m id k) inCall (start L) s → Over m id k inCall s →
        ConnectedOnce m c.value k s := by
  intro h
  obtain ⟨s, hs, hexited⟩ : ∃ s, Reachable (step exampleMemory 1 2) inCall (start oneWaiting) s ∧
      s.process = .exited (-1) :=
    exists_reachable_of_replayIf [.search 0 true, .search 1 true, .remove 0, .remove 1]
      (fun s : Connects => s.process = .exited (-1)) (by decide)
  have hover : Over exampleMemory 1 2 inCall s := by
    intro a _
    unfold step
    rw [hexited]
    exact if_pos (Or.inl (by simp))
  have hrun := (h exampleMemory oneWaiting 1 2 _ oneWaiting_reachable rfl (Nat.le_refl 2) s hs hover).1
  rw [hexited] at hrun
  cases hrun

end NetTools.Chat
