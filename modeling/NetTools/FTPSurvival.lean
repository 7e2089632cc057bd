import NetTools.FTPServer

namespace NetTools.FTP

open CText Schedule
open TFTP (RangeRejected)

/-- The process runs and its service socket is open. -/
def Server.Alive (s : Server) : Prop := s.status = .running ∧ s.socketOpen = true

/-- The two counters of the inner loop split what `fread` gave. -/
structure Transfer.Sound (t : Transfer) : Prop where
  split : t.bytesSentTotal+t.bytesToSend = t.buffer.length
  fits : t.buffer.length ≤ bufferSize

def Server.Sound (s : Server) : Prop := ∀ t, s.place = .sending t → t.Sound

/-- The calls that leave the server alive: no `GET` of an existing file is out of its range, no
`write` raises SIGPIPE, none fails before anything of the buffer is counted as sent, and a
request without a word finds a NUL in the old content of `command`. -/
def Server.Harmless (s : Server) : Call → Prop
  | .recv (some text) stale =>
    text = [] ∨ TFTP.scanWidth 9 (text.takeWhile fun b => b ≠ 0) ≠ none ∨ 0 ∈ stale
  | .fopen (some file) => ∀ filename offset chunkSize,
      s.place = .reopening (.get filename offset chunkSize) →
        ¬ RangeRejected offset chunkSize file.length
  | .write .brokenPipe => False
  | .write .failed => ∀ t, s.place = .sending t → 0 < t.bytesSentTotal
  | _ => True

/-- What each call does. -/
inductive Step (s : Server) : Call → Server → Prop
  | accept {ok : Bool} (hp : s.place = .accepting) :
      Step s (.accept ok) (if ok then { s with stream := [] }.goTo .receiving else s)
  | recv {data : Option Bytes} {stale : Bytes} (hp : s.place = .receiving) (hs : stale.length = 10) :
      Step s (.recv data stale) (s.receive data stale)
  | answer {text : Bytes} {result : WriteResult} (hp : s.place = .answering text) :
      Step s (.write result) (s.answer text result)
  | fopen {command : Command} {file : Option Bytes} (hp : s.place = .opening command) :
      Step s (.fopen file) (if file = none then s.goTo (.answering (ascii "ERROR File not found"))
        else s.goTo (.reopening command))
  | reopen {command : Command} {file : Option Bytes} (hp : s.place = .reopening command) :
      Step s (.fopen file) (s.reopen file command)
  | fread {t : Transfer} {n : ℕ} (hp : s.place = .reading t) (hn : n ≤ t.bytesToRead)
      (hf : n ≤ t.file.length-t.pos) :
      Step s (.fread n) (if n = 0 then s.goTo .accepting else s.goTo (.sending (t.read n)))
  | send {t : Transfer} {result : WriteResult} (hp : s.place = .sending t)
      (hr : result.count ≤ t.bytesToSend) : Step s (.write result) (s.send t result)

theorem step_cases {s t : Server} {c : Call} (h : s.step c = some t) :
    s.status = .running ∧ Step s c t := by
  simp only [Server.step, Option.ite_none_right_eq_some] at h
  obtain ⟨hrun, h⟩ := h
  refine ⟨hrun, ?_⟩
  split at h
  · rename_i ok hp
    cases h
    exact .accept hp
  · rename_i data stale hp
    simp only [Option.ite_none_right_eq_some, Option.some.injEq] at h
    obtain ⟨⟨-, hs⟩, rfl⟩ := h
    exact .recv hp hs
  · rename_i text result hp
    simp only [Option.ite_none_right_eq_some, Option.some.injEq] at h
    obtain ⟨-, rfl⟩ := h
    exact .answer hp
  · rename_i command file hp
    cases h
    exact .fopen hp
  · rename_i command file hp
    cases h
    exact .reopen hp
  · rename_i tr n hp
    simp only [Option.ite_none_right_eq_some, Option.some.injEq] at h
    obtain ⟨⟨hn, hf⟩, rfl⟩ := h
    exact .fread hp hn hf
  · rename_i tr result hp
    simp only [Option.ite_none_right_eq_some, Option.some.injEq] at h
    obtain ⟨hr, rfl⟩ := h
    exact .send hp hr
  · cases h

namespace Transfer

variable {t : Transfer}

theorem sound_read {n : ℕ} (hn : n ≤ t.bytesToRead) (hf : n ≤ t.file.length-t.pos) :
    (t.read n).Sound := by
  have hlen : (t.read n).buffer.length = n := by
    rw [read, List.length_take, List.length_drop, Nat.min_eq_left hf]
  have hle : t.bytesToRead ≤ bufferSize := by
    unfold bytesToRead
    split_ifs <;> omega
  exact ⟨by rw [hlen]; exact Nat.zero_add n, by omega⟩

/-- A count that the loop asked for moves the split by as much. -/
theorem Sound.wrote {n : ℕ} (h : t.Sound) (hn : n ≤ t.bytesToSend) :
    t.wrote n =
      { t with bytesToSend := t.bytesToSend-n, bytesSentTotal := t.bytesSentTotal+n } := by
  have hsplit := h.split
  have hfits : t.buffer.length ≤ 1048576 := h.fits
  have hsend : (t.bytesToSend+(2^64-n))%2^64 = t.bytesToSend-n := by
    rw [← Nat.add_sub_assoc (by omega), Nat.sub_add_comm hn, Nat.add_mod_right]
    exact Nat.mod_eq_of_lt (by omega)
  rw [Transfer.wrote, hsend, Nat.mod_eq_of_lt (by omega)]

/-- A failed `write` takes one byte back. -/
theorem Sound.wrote_failed (h : t.Sound) (ht : 0 < t.bytesSentTotal) :
    t.wrote (2^64-1) =
      { t with bytesToSend := t.bytesToSend+1, bytesSentTotal := t.bytesSentTotal-1 } := by
  have hsplit := h.split
  have hfits : t.buffer.length ≤ 1048576 := h.fits
  have htotal : (t.bytesSentTotal+(2^64-1))%2^64 = t.bytesSentTotal-1 := by
    rw [← Nat.add_sub_assoc (by omega), Nat.sub_add_comm ht, Nat.add_mod_right]
    exact Nat.mod_eq_of_lt (by omega)
  have hone : 2^64-(2^64-1) = 1 := rfl
  rw [Transfer.wrote, htotal, hone, Nat.mod_eq_of_lt (by omega)]

theorem Sound.inBuffer (h : t.Sound) : t.inBuffer = true := by
  rw [Transfer.inBuffer, decide_eq_true_eq, h.split]
  exact h.fits

/-- A count that the loop asked for keeps the split. -/
theorem Sound.moved {n : ℕ} (h : t.Sound) (hn : n ≤ t.bytesToSend) : (t.wrote n).Sound := by
  have hsplit := h.split
  rw [h.wrote hn]
  refine ⟨?_, h.fits⟩
  change t.bytesSentTotal+n+(t.bytesToSend-n) = t.buffer.length
  omega

/-- So does a failure behind the first byte. -/
theorem Sound.moved_failed (h : t.Sound) (ht : 0 < t.bytesSentTotal) :
    (t.wrote (2^64-1)).Sound := by
  have hsplit := h.split
  rw [h.wrote_failed ht]
  refine ⟨?_, h.fits⟩
  change t.bytesSentTotal-1+(t.bytesToSend+1) = t.buffer.length
  omega

/-- A failed `write` leaves something to send. -/
theorem Sound.more_failed (h : t.Sound) : 0 < (t.wrote (2^64-1)).bytesToSend := by
  have hsplit := h.split
  have hfits : t.buffer.length ≤ 1048576 := h.fits
  change 0 < (t.bytesToSend+1)%18446744073709551616
  omega

/-- Without a byte to take back it leaves the buffer. -/
theorem wrote_failed_outside (ht : t.bytesSentTotal = 0) :
    (t.wrote (2^64-1)).inBuffer = false := by
  rw [Transfer.inBuffer, decide_eq_false_iff_not, Transfer.wrote, ht, Nat.zero_add]
  have hmod : (2^64-1)%2^64 = 18446744073709551615 := rfl
  have hcap : bufferSize = 1048576 := rfl
  simp only [hmod, hcap]
  omega

end Transfer

namespace Server

variable {s : Server} {tr : Transfer}

theorem sound_of_place {place : Place} (h : ∀ t, place ≠ .sending t) : (s.goTo place).Sound :=
  fun t hp => absurd hp (h t)

theorem sound_goOn (h : tr.inBuffer = true → tr.Sound) (hs : s.Sound) : (s.goOn tr).Sound := by
  simp only [goOn]
  split_ifs with hmore hin
  · intro t hp
    cases hp
    exact h hin
  · exact hs
  · exact sound_of_place nofun
  · exact sound_of_place nofun

theorem sound_send {result : WriteResult} (h : tr.Sound) (hr : result.count ≤ tr.bytesToSend)
    (hs : s.Sound) : (s.send tr result).Sound := by
  cases result with
  | brokenPipe => exact hs
  | failed =>
    refine sound_goOn (fun hin => ?_) hs
    -- before the first byte the failure leaves the buffer, and no write follows
    rcases Nat.eq_zero_or_pos tr.bytesSentTotal with hz | hp
    · rw [Transfer.wrote_failed_outside hz] at hin
      cases hin
    · exact h.moved_failed hp
  | sent n =>
    cases n with
    | zero => exact sound_of_place nofun
    | succ n => exact sound_goOn (fun _ => h.moved hr) hs

theorem sound_step {t : Server} {c : Call} (hs : s.Sound) (h : Step s c t) : t.Sound := by
  cases h with
  | accept hp =>
    split_ifs
    · exact sound_of_place nofun
    · exact hs
  | recv hp hstale =>
    unfold receive
    split
    · exact sound_of_place nofun
    · exact sound_of_place nofun
    · split
      · exact sound_of_place nofun
      · exact sound_of_place nofun
      · exact hs
  | @answer text result hp =>
    cases result with
    | brokenPipe => exact hs
    | _ => exact sound_of_place nofun
  | fopen hp => split_ifs <;> exact sound_of_place nofun
  | @reopen command file hp =>
    cases command with
    | check filename => cases file <;> exact sound_of_place nofun
    | get filename offset chunkSize =>
      cases file with
      | none => exact sound_of_place nofun
      | some file =>
        simp only [reopen]
        split_ifs
        · exact hs
        · exact sound_of_place nofun
  | fread hp hn hf =>
    split_ifs
    · exact sound_of_place nofun
    · intro t ht
      cases ht
      exact Transfer.sound_read hn hf
  | send hp hr => exact sound_send (hs _ hp) hr hs

theorem sound_of_reachable (h : Reachable Server.step anyStep .start s) : s.Sound := by
  refine h.invariant (P := fun s => s.Sound) nofun ?_
  intro s c t hs _ hstep
  exact sound_step hs (step_cases hstep).2

theorem not_alive_ended (status : ProcessStatus) : ¬ (s.ended status).Alive := nofun

/-- Inside the buffer the loops go on. -/
theorem alive_goOn (h : tr.inBuffer = true) : (s.goOn tr).Alive ↔ s.Alive := by
  -- only a write outside the buffer would end it
  simp only [goOn, h]
  split_ifs <;> exact Iff.rfl

theorem goOn_inside (hmore : 0 < tr.bytesToSend) (h : tr.inBuffer = true) :
    s.goOn tr = s.goTo (.sending tr) := by
  rw [goOn, if_pos hmore, if_pos h]

theorem goOn_outside (hmore : 0 < tr.bytesToSend) (h : tr.inBuffer = false) :
    s.goOn tr = s.ended .undefined := by
  simp only [goOn, if_pos hmore, h, Bool.false_eq_true, ↓reduceIte]

/-- A positive count goes to the stream. -/
theorem send_sent {n : ℕ} (hn : 0 < n) :
    s.send tr (.sent n) =
      { s with stream := s.stream ++ (tr.buffer.drop tr.bytesSentTotal).take n }.goOn
        (tr.wrote n) := by
  cases n with
  | zero => cases hn
  | succ n => rfl

end Server

/-- A text without a word is fatal when nothing ends the old content of `command`. -/
theorem parse_unprintable {text stale : Bytes} (hs : stale.length = 10) :
    parse text stale = .unprintable ↔ TFTP.scanWidth 9 text = none ∧ 0 ∉ stale := by
  constructor
  · intro h
    simp only [parse] at h
    split_ifs at h with hcheck hget hbad
    · split at h <;> cases h
    · split at h
      · split_ifs at h
      · cases h
    · exact ⟨Option.map_eq_none_iff.mp hbad.1, hbad.2⟩
  · rintro ⟨hw, h0⟩
    have hall : stale.takeWhile (fun b => b ≠ 0) = stale := takeWhile_ne_zero h0
    have hcheck : stale ≠ ascii "CHECK" :=
      fun he => absurd (congrArg List.length he) (by rw [hs]; decide)
    have hget : stale ≠ ascii "GET" :=
      fun he => absurd (congrArg List.length he) (by rw [hs]; decide)
    simp only [parse, hw, Option.map_none, Option.getD_none, hall, hcheck, hget, h0, not_false_eq_true,
      and_self, ↓reduceIte]

namespace Server

variable {s : Server} {tr : Transfer}

/-- A `write` of the inner loop is fatal exactly when it raises the signal or fails with
nothing counted as sent. -/
theorem alive_send {result : WriteResult} (h : tr.Sound) (hr : result.count ≤ tr.bytesToSend)
    (hp : s.place = .sending tr) :
    (s.send tr result).Alive ↔ s.Alive ∧ s.Harmless (.write result) := by
  cases result with
  | brokenPipe => exact iff_of_false (not_alive_ended _) nofun
  | sent n =>
    cases n with
    | zero => exact (and_iff_left trivial).symm
    | succ n =>
      have hin : (tr.wrote (n+1)).inBuffer = true := (h.moved hr).inBuffer
      exact (alive_goOn hin).trans (and_iff_left trivial).symm
  | failed =>
    rcases Nat.eq_zero_or_pos tr.bytesSentTotal with hz | hpos
    · have hended : s.send tr .failed = s.ended .undefined :=
        goOn_outside h.more_failed (Transfer.wrote_failed_outside hz)
      rw [hended]
      exact iff_of_false (not_alive_ended _) fun hh => absurd (hh.2 tr hp) (by omega)
    · have hin : (tr.wrote (2^64-1)).inBuffer = true := (h.moved_failed hpos).inBuffer
      have hharm : s.Harmless (.write .failed) := by
        intro t ht
        obtain rfl : tr = t := Place.sending.inj (hp.symm.trans ht)
        exact hpos
      exact (alive_goOn hin).trans (and_iff_left hharm).symm

theorem alive_receive {data : Option Bytes} {stale : Bytes} (hs : stale.length = 10) :
    (s.receive data stale).Alive ↔ s.Alive ∧ s.Harmless (.recv data stale) := by
  cases data with
  | none => exact (and_iff_left trivial).symm
  | some text =>
    cases text with
    | nil => exact (and_iff_left (Or.inl rfl)).symm
    | cons b text =>
      -- of the three verdicts only one is fatal
      have hbad : parse ((b :: text).takeWhile fun b => b ≠ 0) stale = .unprintable ↔ _ :=
        parse_unprintable hs
      simp only [receive]
      split
      · rename_i hv
        have hh := (not_congr hbad).mp (by rw [hv]; nofun)
        refine (and_iff_left (Or.inr ?_)).symm
        tauto
      · rename_i hv
        have hh := (not_congr hbad).mp (by rw [hv]; nofun)
        refine (and_iff_left (Or.inr ?_)).symm
        tauto
      · rename_i hv
        obtain ⟨hw, h0⟩ := hbad.mp hv
        refine iff_of_false (not_alive_ended _) fun hh => ?_
        rcases hh.2 with hnil | hword | hz
        · cases hnil
        · exact hword hw
        · exact h0 hz

/-- The server is alive after a call exactly when it was before and the call is harmless. -/
theorem alive_step_iff {t : Server} {c : Call} (hs : s.Sound) (h : s.step c = some t) :
    t.Alive ↔ s.Alive ∧ s.Harmless c := by
  obtain ⟨hrun, hstep⟩ := step_cases h
  cases hstep with
  | accept hp => split_ifs <;> exact (and_iff_left trivial).symm
  | recv hp hstale => exact alive_receive hstale
  -- outside the loop a failed write is ignored
  | @answer text result hp =>
    cases result with
    | sent n => exact (and_iff_left trivial).symm
    | failed => exact (and_iff_left fun t ht => nomatch hp.symm.trans ht).symm
    | brokenPipe => exact iff_of_false (not_alive_ended _) nofun
  | @fopen command file hp =>
    cases file with
    | none => exact (and_iff_left trivial).symm
    | some file =>
      exact (and_iff_left fun filename offset chunkSize hr => nomatch hp.symm.trans hr).symm
  | @reopen command file hp =>
    cases file with
    | none =>
      cases command <;> exact (and_iff_left trivial).symm
    | some file =>
      cases command with
      -- a `CHECK` has no range
      | check filename =>
        exact (and_iff_left fun name offset chunkSize hr => nomatch hp.symm.trans hr).symm
      | get filename offset chunkSize =>
        simp only [reopen]
        split_ifs with hrange
        · exact iff_of_false (not_alive_ended _) fun hh => hh.2 _ _ _ hp hrange
        · refine (and_iff_left ?_).symm
          intro name offset' chunkSize' hr
          cases hp.symm.trans hr
          exact hrange
  | fread hp hn hf => split_ifs <;> exact (and_iff_left trivial).symm
  | send hp hr => exact alive_send (hs _ hp) hr hp

/-- The server survives exactly the schedules of harmless calls. -/
theorem reachable_harmless_iff :
    Reachable Server.step Harmless .start s ↔ Reachable Server.step anyStep .start s ∧ s.Alive := by
  apply reachable_iff_of_exact ⟨rfl, rfl⟩
  intro s c t hr hstep
  exact alive_step_iff (sound_of_reachable hr) hstep

end Server

end NetTools.FTP
