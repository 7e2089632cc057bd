import NetTools.FTPTransfer

namespace NetTools.FTP

open CText Schedule

/-- The bytes that the connection has taken. -/
def sentBy (results : List WriteResult) : ℕ := (results.map WriteResult.count).sum

/-- The process is not in the inner loop any more. -/
def Server.Left (s : Server) : Prop := s.place = .accepting ∨ ∃ t, s.place = .reading t

/-- What the loop on `t` is for, by the state `u` that `results` lead to from `s`. It delivers what
has been taken off the buffer; it is left at the first result that is not positive, and else when
everything is sent; until then the cursors split the buffer. -/
structure SendsRight (s : Server) (t : Transfer) (results : List WriteResult) (u : Server) :
    Prop where
  running : u.status = .running
  fits : sentBy results ≤ t.bytesToSend
  stream : u.stream = s.stream ++ (t.buffer.drop t.bytesSentTotal).take (sentBy results)
  stops : (∃ r ∈ results, r.count = 0) → u.place = .accepting
  ends : (∀ r ∈ results, 0 < r.count) → sentBy results = t.bytesToSend → u.Left
  goesOn : (∀ r ∈ results, 0 < r.count) → sentBy results < t.bytesToSend →
    u.place = .sending { t with
      bytesToSend := t.bytesToSend-sentBy results
      bytesSentTotal := t.bytesSentTotal+sentBy results }

/-- After every one of its results the loop is where it should be. -/
def LoopRight (s : Server) (t : Transfer) (results : List WriteResult) : Prop :=
  ∀ k u, replayIf Server.step anyStep s ((results.take k).map Call.write) = some u →
    SendsRight s t (results.take k) u

section

variable {s u v : Server} {t : Transfer} {results : List WriteResult}

theorem sentBy_cons (r : WriteResult) (results : List WriteResult) :
    sentBy (r :: results) = r.count+sentBy results := by
  rw [sentBy, List.map_cons, List.sum_cons, sentBy]

/-- One `write` in the inner loop. -/
theorem step_write {r : WriteResult} (hrun : s.status = .running) (hp : s.place = .sending t) :
    s.step (.write r) = if r.count ≤ t.bytesToSend then some (s.send t r) else none := by
  simp only [Server.step, if_pos hrun, hp]

/-- Behind the loop no `write` follows. -/
theorem step_left (hs : s.Left) (r : WriteResult) : s.step (.write r) = none := by
  rcases hs with hp | ⟨t, hp⟩ <;> simp [Server.step, hp]

theorem replay_left (hs : s.Left)
    (h : replayIf Server.step anyStep s (results.map Call.write) = some u) :
    results = [] ∧ u = s := by
  cases results with
  | nil =>
    cases h
    exact ⟨rfl, rfl⟩
  | cons r rest => simp [replayIf, step_left hs] at h

theorem left_goOn (h : t.bytesToSend = 0) : (s.goOn t).Left := by
  rw [Server.goOn, if_neg (by omega)]
  dsimp only
  split_ifs
  · exact Or.inr ⟨_, rfl⟩
  · exact Or.inl rfl

theorem stream_goOn (hin : t.inBuffer = true) : (s.goOn t).stream = s.stream := by
  simp only [Server.goOn, hin]
  split_ifs <;> rfl

/-- A positive count keeps the loop going with its cursors moved, or sends the last of the
buffer. -/
theorem send_positive (ht : t.Sound) {n : ℕ} (hn : 0 < n) (hle : n ≤ t.bytesToSend) :
    (s.send t (.sent n)).status = s.status ∧
      (s.send t (.sent n)).stream = s.stream ++ (t.buffer.drop t.bytesSentTotal).take n ∧
      (t.wrote n).Sound ∧
      if n < t.bytesToSend then (s.send t (.sent n)).place = .sending (t.wrote n)
      else (s.send t (.sent n)).Left := by
  have hwrote := ht.wrote hle
  have hsound := ht.moved hle
  have hleft : (t.wrote n).bytesToSend = t.bytesToSend-n := by rw [hwrote]
  rw [Server.send_sent hn]
  refine ⟨Server.status_goOn hsound.inBuffer, stream_goOn hsound.inBuffer, hsound, ?_⟩
  split_ifs with hmore
  · rw [Server.goOn_inside (by omega) hsound.inBuffer]
    rfl
  · exact left_goOn (by omega)

/-- The result 0 leaves the loop. -/
theorem sendsRight_zero (hrun : s.status = .running) :
    SendsRight s t [.sent 0] (s.goTo .accepting) := by
  refine ⟨hrun, Nat.zero_le _, ?_, fun _ => rfl, ?_, ?_⟩
  · change s.stream = s.stream ++ (t.buffer.drop t.bytesSentTotal).take 0
    rw [List.take_zero, List.append_nil]
  · intro hpos
    exact absurd (hpos (.sent 0) List.mem_cons_self) (Nat.lt_irrefl 0)
  · intro hpos
    exact absurd (hpos (.sent 0) List.mem_cons_self) (Nat.lt_irrefl 0)

/-- The rest of the buffer in one `write`. -/
theorem sendsRight_last (ht : t.Sound) (hrun : s.status = .running) (hmore : 0 < t.bytesToSend) :
    SendsRight s t [.sent t.bytesToSend] (s.send t (.sent t.bytesToSend)) := by
  obtain ⟨hstatus, hstream, -, hplace⟩ := send_positive (s := s) ht hmore (Nat.le_refl _)
  rw [if_neg (Nat.lt_irrefl _)] at hplace
  have hsum : sentBy [.sent t.bytesToSend] = t.bytesToSend := Nat.add_zero _
  refine ⟨hstatus.trans hrun, hsum.le, by rw [hsum, hstream], ?_, fun _ _ => hplace, ?_⟩
  · rintro ⟨r, hr, hz⟩
    rw [List.mem_singleton.mp hr] at hz
    exact absurd hz hmore.ne'
  · intro _ hlt
    omega

/-- A count that does not send everything, and what the loop does behind it. -/
theorem sendsRight_cons {n : ℕ} {rest : List WriteResult} (ht : t.Sound) (hn : 0 < n)
    (hlt : n < t.bytesToSend) (h : SendsRight (s.send t (.sent n)) (t.wrote n) rest u) :
    SendsRight s t (.sent n :: rest) u := by
  obtain ⟨-, hstream, -, -⟩ := send_positive (s := s) ht hn hlt.le
  have hwrote := ht.wrote hlt.le
  have hsum : sentBy (.sent n :: rest) = n+sentBy rest := sentBy_cons _ _
  have hsend : (t.wrote n).bytesToSend = t.bytesToSend-n := by rw [hwrote]
  have hpos (hall : ∀ r ∈ WriteResult.sent n :: rest, 0 < r.count) : ∀ r ∈ rest, 0 < r.count :=
    fun r hr => hall r (List.mem_cons_of_mem _ hr)
  have hfits := h.fits
  refine ⟨h.running, by omega, ?_, ?_, ?_, ?_⟩
  · calc u.stream
        = s.stream ++ (t.buffer.drop t.bytesSentTotal).take n ++
            (t.buffer.drop (t.bytesSentTotal+n)).take (sentBy rest) := by
          rw [h.stream, hstream, hwrote]
      _ = s.stream ++ (t.buffer.drop t.bytesSentTotal).take (sentBy (.sent n :: rest)) := by
          rw [hsum, List.take_add, List.drop_drop, List.append_assoc]
  · rintro ⟨r, hr, hz⟩
    rcases List.mem_cons.mp hr with rfl | hr
    · exact absurd hz hn.ne'
    · exact h.stops ⟨r, hr, hz⟩
  · intro hall heq
    exact h.ends (hpos hall) (by omega)
  · intro hall hlt'
    rw [h.goesOn (hpos hall) (by omega), hsum, hwrote]
    simp only [Nat.sub_sub, Nat.add_assoc]

/-- Without a failed `write` the loop does what it is for. -/
theorem sendsRight_of_no_failure (ht : t.Sound) (hrun : s.status = .running)
    (hp : s.place = .sending t) (hmore : 0 < t.bytesToSend)
    (hsignal : .brokenPipe ∉ results) (hfailed : .failed ∉ results)
    (h : replayIf Server.step anyStep s (results.map Call.write) = some u) :
    SendsRight s t results u := by
  induction results generalizing s t with
  | nil =>
    cases h
    refine ⟨hrun, Nat.zero_le _, ?_, by simp, ?_, fun _ _ => hp⟩
    · rw [sentBy, List.map_nil, List.sum_nil, List.take_zero, List.append_nil]
    · intro _ hz
      exact absurd hz hmore.ne
  | cons r rest ih =>
    simp only [List.map_cons, replayIf, anyStep, ↓reduceIte] at h
    obtain ⟨v, hv, h⟩ := Option.bind_eq_some_iff.mp h
    rw [step_write hrun hp, Option.ite_none_right_eq_some, Option.some.injEq] at hv
    obtain ⟨hcount, rfl⟩ := hv
    cases r with
    | brokenPipe => exact absurd List.mem_cons_self hsignal
    | failed => exact absurd List.mem_cons_self hfailed
    | sent n =>
      have hle : n ≤ t.bytesToSend := hcount
      rcases Nat.eq_zero_or_pos n with rfl | hn
      · obtain ⟨rfl, rfl⟩ := replay_left (Or.inl rfl) h
        exact sendsRight_zero hrun
      · obtain ⟨hstatus, -, hsound, hplace⟩ := send_positive (s := s) ht hn hle
        have hwrote := ht.wrote hle
        split_ifs at hplace with hlt
        · have hmore' : 0 < (t.wrote n).bytesToSend := by
            rw [hwrote]
            exact Nat.sub_pos_of_lt hlt
          apply sendsRight_cons ht hn hlt
          exact ih hsound (hstatus.trans hrun) hplace hmore'
            (fun hm => hsignal (List.mem_cons_of_mem _ hm))
            (fun hm => hfailed (List.mem_cons_of_mem _ hm)) h
        · obtain ⟨rfl, rfl⟩ := replay_left hplace h
          obtain rfl : n = t.bytesToSend := by omega
          exact sendsRight_last ht hrun hmore

/-- A failed `write` does not leave the loop. -/
theorem send_failed_place (ht : t.Sound) (hp : s.place = .sending t) :
    (s.send t .failed).place ≠ .accepting := by
  change (s.goOn (t.wrote (2^64-1))).place ≠ .accepting
  rw [Server.goOn, if_pos ht.more_failed]
  split_ifs
  · simp [Server.goTo]
  · change s.place ≠ .accepting
    simp [hp]

/-- While the results are positive and a further `write` is made, the cursors split the buffer. -/
theorem sending_of_step {r : WriteResult} (ht : t.Sound) (h : SendsRight s t results u)
    (hv : u.step (.write r) = some v) : ∃ t', t'.Sound ∧ u.place = .sending t' := by
  have hstays : ¬ u.Left := by
    intro hleft
    rw [step_left hleft] at hv
    cases hv
  have hpos (r' : WriteResult) (hr : r' ∈ results) : 0 < r'.count := by
    rcases Nat.eq_zero_or_pos r'.count with hz | hpos
    · exact absurd (Or.inl (h.stops ⟨r', hr, hz⟩)) hstays
    · exact hpos
  have hlt : sentBy results < t.bytesToSend := by
    rcases Nat.eq_or_lt_of_le h.fits with heq | hlt
    · exact absurd (h.ends hpos heq) hstays
    · exact hlt
  refine ⟨_, ?_, h.goesOn hpos hlt⟩
  refine ⟨?_, ht.fits⟩
  have hsplit := ht.split
  change t.bytesSentTotal+sentBy results+(t.bytesToSend-sentBy results) = t.buffer.length
  omega

/-- The inner loop of a `GET` does what it is for exactly when no `write` gives -1. -/
theorem send_loop_iff (ht : t.Sound) (hrun : s.status = .running) (hp : s.place = .sending t)
    (hmore : 0 < t.bytesToSend) (hsignal : .brokenPipe ∉ results)
    (h : replayIf Server.step anyStep s (results.map Call.write) = some u) :
    LoopRight s t results ↔ .failed ∉ results := by
  constructor
  · intro hright hfailed
    -- up to the first -1 everything is in order, and this result leaves the loop going
    obtain ⟨pre, post, rfl, hpre⟩ := List.eq_append_cons_of_mem hfailed
    rw [List.map_append, replayIf_append] at h
    obtain ⟨v, hv, h⟩ := Option.bind_eq_some_iff.mp h
    have hbefore : SendsRight s t pre v :=
      sendsRight_of_no_failure ht hrun hp hmore (fun hm => hsignal (List.mem_append_left _ hm))
        hpre hv
    simp only [List.map_cons, replayIf, anyStep, ↓reduceIte] at h
    obtain ⟨w, hw, -⟩ := Option.bind_eq_some_iff.mp h
    obtain ⟨t', ht', hp'⟩ := sending_of_step ht hbefore hw
    have hafter : SendsRight s t (pre ++ [.failed]) w := by
      have htake : (pre ++ WriteResult.failed :: post).take (pre.length+1) = pre ++ [.failed] := by
        rw [List.take_length_add_append, List.take_succ_cons, List.take_zero]
      rw [← htake]
      apply hright
      rw [htake, List.map_append, replayIf_append, hv, Option.bind_some]
      simp only [List.map_cons, List.map_nil, replayIf, anyStep, ↓reduceIte, hw, Option.bind_some]
    rw [step_write hbefore.running hp', Option.ite_none_right_eq_some, Option.some.injEq] at hw
    obtain ⟨-, rfl⟩ := hw
    exact send_failed_place ht' hp' (hafter.stops ⟨.failed, by simp, rfl⟩)
  · intro hfailed k v hv
    exact sendsRight_of_no_failure ht hrun hp hmore (fun hm => hsignal (List.mem_of_mem_take hm))
      (fun hm => hfailed (List.mem_of_mem_take hm)) hv

/-- The loop sends three bytes in two calls. -/
theorem send_loop_two_calls :
    LoopRight ⟨.running, true, .sending ⟨ascii "abc", 3, 3, ascii "abc", 3, 0⟩, []⟩
      ⟨ascii "abc", 3, 3, ascii "abc", 3, 0⟩ [.sent 1, .sent 2] := by
  refine (send_loop_iff ⟨rfl, by decide⟩ rfl rfl (by decide) (by decide) (u := ?_) ?_).mpr
    (by decide)
  · exact ⟨.running, true, .accepting, ascii "abc"⟩
  · decide

/-- Behind the first of three bytes a `write` fails, and then this byte is sent once more. -/
theorem first_byte_sent_again :
    ¬ LoopRight ⟨.running, true, .sending ⟨ascii "abc", 3, 3, ascii "abc", 3, 0⟩, []⟩
      ⟨ascii "abc", 3, 3, ascii "abc", 3, 0⟩ [.sent 1, .failed, .sent 3] ∧
      replayIf Server.step anyStep
        ⟨.running, true, .sending ⟨ascii "abc", 3, 3, ascii "abc", 3, 0⟩, []⟩
        ([.sent 1, .failed, .sent 3].map Call.write) =
        some ⟨.running, true, .accepting, ascii "aabc"⟩ := by
  refine ⟨?_, by decide⟩
  intro h
  have hfailed := h 2 ⟨.running, true, .sending ⟨ascii "abc", 3, 3, ascii "abc", 3, 0⟩, ascii "a"⟩
    (by decide)
  exact absurd (hfailed.stops ⟨.failed, by decide, rfl⟩) (by decide)

end

end NetTools.FTP
