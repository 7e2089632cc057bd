import NetTools.FTPSurvival
import NetTools.FTPDelivery
import NetTools.FTPMessages

namespace NetTools.FTP

open CText Schedule Download Segmentation
open TFTP (RangeRejected)

/-- The call makes progress: `fread` and `write` give a positive count. -/
def Server.Progresses (_ : Server) : Call → Prop
  | .fread n => 0 < n
  | .write result => 0 < result.count
  | _ => False

instance : ∀ s c, Decidable (Server.Progresses s c) := fun _ c =>
  match c with
  | .fread n => inferInstanceAs (Decidable (0 < n))
  | .write result => inferInstanceAs (Decidable (0 < result.count))
  | .accept _ | .recv _ _ | .fopen _ => inferInstanceAs (Decidable False)

/-- What the loops of a `GET` have still to write: the rest of the buffer, then the file. -/
def Place.pending : Place → Bytes
  | .reading t => (t.file.drop t.pos).take t.bytesRemaining
  | .sending t =>
    t.buffer.drop t.bytesSentTotal ++
      (t.file.drop t.pos).take (t.bytesRemaining-t.buffer.length)
  | _ => []

/-- The calls that can still come. -/
def Place.callsLeft : Place → ℕ
  | .reading t => 2*(Place.reading t).pending.length
  | .sending t => 2*(Place.sending t).pending.length-1
  | _ => 0

/-- The loops of a `GET` are at work on `slice`, or they are done with it. -/
inductive Server.Serves (slice : Bytes) (s : Server) : Prop
  | reading {t : Transfer} (hp : s.place = .reading t) (more : 0 < t.bytesRemaining)
      (inFile : t.pos+t.bytesRemaining ≤ t.file.length)
      (stream : s.stream ++ (Place.reading t).pending = slice)
  | sending {t : Transfer} (hp : s.place = .sending t) (sound : t.Sound)
      (more : 0 < t.bytesToSend) (part : t.buffer.length ≤ t.bytesRemaining)
      (inFile : t.pos+(t.bytesRemaining-t.buffer.length) ≤ t.file.length)
      (stream : s.stream ++ (Place.sending t).pending = slice)
  | done (hp : s.place = .accepting) (stream : s.stream = slice)

namespace Place

theorem reading_pending_length {t : Transfer} (h : t.pos+t.bytesRemaining ≤ t.file.length) :
    (reading t).pending.length = t.bytesRemaining := by
  simp only [pending, List.length_take, List.length_drop]
  omega

theorem sending_pending_length {t : Transfer} (hs : t.Sound)
    (h : t.pos+(t.bytesRemaining-t.buffer.length) ≤ t.file.length) :
    (sending t).pending.length = t.bytesToSend+(t.bytesRemaining-t.buffer.length) := by
  have hsplit := hs.split
  simp only [pending, List.length_append, List.length_take, List.length_drop]
  omega

/-- `fread` moves bytes from the file to the buffer. -/
theorem pending_read {t : Transfer} {n : ℕ} (hn : n ≤ t.bytesRemaining)
    (hlen : (t.read n).buffer.length = n) :
    (sending (t.read n)).pending = (reading t).pending := by
  have hrest : t.bytesRemaining = n+(t.bytesRemaining-n) := by omega
  calc (sending (t.read n)).pending
      = (t.file.drop t.pos).take n ++
          (t.file.drop (t.pos+n)).take (t.bytesRemaining-(t.read n).buffer.length) := rfl
    _ = (t.file.drop t.pos).take n ++ ((t.file.drop t.pos).drop n).take (t.bytesRemaining-n) := by
        rw [hlen, List.drop_drop]
    _ = (reading t).pending := by rw [← List.take_add, ← hrest, pending]

/-- `write` takes its bytes off the front. -/
theorem pending_wrote {t : Transfer} (hs : t.Sound) {n : ℕ} (hn : n ≤ t.bytesToSend) :
    (t.buffer.drop t.bytesSentTotal).take n ++ (sending (t.wrote n)).pending =
      (sending t).pending := by
  rw [hs.wrote hn]
  simp only [pending]
  rw [← List.append_assoc, ← List.drop_drop, List.take_append_drop]

end Place

namespace Server

variable {s u : Server} {slice : Bytes} {t : Transfer}

/-- Behind a `write` the loops go on with what is pending, and a call has been spent. -/
theorem serves_goOn (hs : t.Sound) (hpart : t.buffer.length ≤ t.bytesRemaining)
    (hfile : t.pos+(t.bytesRemaining-t.buffer.length) ≤ t.file.length)
    (hstream : s.stream ++ (Place.sending t).pending = slice) :
    (s.goOn t).Serves slice ∧
      (s.goOn t).place.callsLeft ≤ 2*(Place.sending t).pending.length := by
  have hlen := Place.sending_pending_length hs hfile
  have hsplit := hs.split
  by_cases hmore : 0 < t.bytesToSend
  · rw [goOn_inside hmore hs.inBuffer]
    exact ⟨.sending rfl hs hmore hpart hfile hstream, Nat.sub_le _ _⟩
  · -- the buffer is sent: what is pending is in the file
    have hbuffer : t.buffer.drop t.bytesSentTotal = [] := List.drop_of_length_le (by omega)
    have hpending : (Place.sending t).pending =
        (t.file.drop t.pos).take (t.bytesRemaining-t.buffer.length) := by
      rw [Place.pending, hbuffer, List.nil_append]
    rw [goOn, if_neg hmore]
    dsimp only
    split_ifs with hremaining
    · refine ⟨.reading rfl hremaining hfile ?_, ?_⟩
      · rw [← hstream, hpending]
        rfl
      · rw [hpending]
        exact Nat.le_refl _
    · refine ⟨.done rfl ?_, Nat.zero_le _⟩
      have hzero : t.bytesRemaining-t.buffer.length = 0 := by
        change ¬ 0 < t.bytesRemaining-t.buffer.length at hremaining
        omega
      rw [hpending, hzero, List.take_zero, List.append_nil] at hstream
      exact hstream

theorem status_goOn (h : t.inBuffer = true) : (s.goOn t).status = s.status := by
  simp only [goOn, h]
  split_ifs <;> rfl

/-- A positive `fread` fills the buffer with the next bytes of the slice. -/
theorem serves_read {n : ℕ} (hn : 0 < n) (hread : n ≤ t.bytesToRead)
    (hleft : n ≤ t.file.length-t.pos) (hfile : t.pos+t.bytesRemaining ≤ t.file.length)
    (hstream : s.stream ++ (Place.reading t).pending = slice) :
    (s.goTo (.sending (t.read n))).Serves slice ∧
      (s.goTo (.sending (t.read n))).place.callsLeft < 2*(Place.reading t).pending.length := by
  have hlen : (t.read n).buffer.length = n := by
    rw [Transfer.read, List.length_take, List.length_drop, Nat.min_eq_left hleft]
  have hle : n ≤ t.bytesRemaining := by
    unfold Transfer.bytesToRead at hread
    split_ifs at hread <;> omega
  have hpending := Place.pending_read hle hlen
  constructor
  · refine .sending rfl (Transfer.sound_read hread hleft) hn ?_ ?_ ?_
    · rw [hlen]
      exact hle
    · rw [hlen]
      change t.pos+n+(t.bytesRemaining-n) ≤ t.file.length
      omega
    · rw [hpending]
      exact hstream
  · have hlength := Place.reading_pending_length hfile
    change 2*(Place.sending (t.read n)).pending.length-1 < 2*(Place.reading t).pending.length
    rw [hpending]
    omega

/-- A positive `write` sends the next bytes of the slice. -/
theorem serves_write {n : ℕ} (hn : 0 < n) (hs : t.Sound) (hle : n ≤ t.bytesToSend)
    (hpart : t.buffer.length ≤ t.bytesRemaining)
    (hfile : t.pos+(t.bytesRemaining-t.buffer.length) ≤ t.file.length)
    (hstream : s.stream ++ (Place.sending t).pending = slice) :
    (s.send t (.sent n)).status = s.status ∧ (s.send t (.sent n)).Serves slice ∧
      (s.send t (.sent n)).place.callsLeft < 2*(Place.sending t).pending.length-1 := by
  have hsplit := hs.split
  have hsound := hs.moved hle
  have hpending := Place.pending_wrote hs hle
  have hspent : n+(Place.sending (t.wrote n)).pending.length =
      (Place.sending t).pending.length := by
    have htaken : ((t.buffer.drop t.bytesSentTotal).take n).length = n := by
      rw [List.length_take, List.length_drop]
      omega
    rw [← hpending, List.length_append, htaken]
  rw [send_sent hn]
  obtain ⟨hserves, hcalls⟩ := serves_goOn
    (s := { s with stream := s.stream ++ (t.buffer.drop t.bytesSentTotal).take n })
    hsound hpart hfile ((List.append_assoc ..).trans ((congrArg _ hpending).trans hstream))
  refine ⟨status_goOn hsound.inBuffer, hserves, ?_⟩
  omega

/-- Every call that makes progress keeps the transfer and spends a call. -/
theorem serves_step {c : Call} (hrun : s.status = .running) (hs : s.Serves slice)
    (hc : s.Progresses c) (h : s.step c = some u) :
    (u.status = .running ∧ u.Serves slice) ∧ u.place.callsLeft < s.place.callsLeft := by
  obtain ⟨-, hstep⟩ := step_cases h
  cases hstep with
  | accept => cases hc
  | recv => cases hc
  | fopen => cases hc
  | reopen => cases hc
  -- a server that serves a chunk is in one of its two loops
  | @answer text result hp =>
    cases hs with
    | reading hp' => cases hp.symm.trans hp'
    | sending hp' => cases hp.symm.trans hp'
    | done hp' => cases hp.symm.trans hp'
  | @fread t n hp hread hleft =>
    cases hs with
    | sending hp' => cases hp.symm.trans hp'
    | done hp' => cases hp.symm.trans hp'
    | reading hp' more inFile stream =>
      cases hp.symm.trans hp'
      have hn : 0 < n := hc
      obtain ⟨hserves, hcalls⟩ := serves_read hn hread hleft inFile stream
      rw [if_neg (Nat.pos_iff_ne_zero.mp hn), hp]
      exact ⟨⟨hrun, hserves⟩, hcalls⟩
  | @send t result hp hr =>
    cases hs with
    | reading hp' => cases hp.symm.trans hp'
    | done hp' => cases hp.symm.trans hp'
    | sending hp' sound more part inFile stream =>
      cases hp.symm.trans hp'
      cases result with
      | failed => cases hc
      | brokenPipe => cases hc
      | sent n =>
        have hn : 0 < n := hc
        have hle : n ≤ t.bytesToSend := hr
        obtain ⟨hstatus, hserves, hcalls⟩ := serves_write hn sound hle part inFile stream
        rw [hp, hstatus]
        exact ⟨⟨hrun, hserves⟩, hcalls⟩

/-- Until the transfer is done the call that the process is in can make progress. -/
theorem serves_progress (hrun : s.status = .running) (hs : s.Serves slice) :
    s.place = .accepting ∧ s.stream = slice ∨
      ∃ c u, s.Progresses c ∧ s.step c = some u := by
  cases hs with
  | done hp stream => exact Or.inl ⟨hp, stream⟩
  | @reading t hp more inFile stream =>
    have hread : 1 ≤ t.bytesToRead ∧ 1 ≤ t.file.length-t.pos := by
      have hcap : bufferSize = 1048576 := rfl
      unfold Transfer.bytesToRead
      split_ifs <;> omega
    refine Or.inr ⟨.fread 1, s.goTo (.sending (t.read 1)), Nat.one_pos, ?_⟩
    simp only [step, if_pos hrun, hp, if_pos hread, if_neg Nat.one_ne_zero]
  | @sending t hp sound more part inFile stream =>
    have hone : (WriteResult.sent 1).count ≤ t.bytesToSend := more
    refine Or.inr ⟨.write (.sent 1), s.send t (.sent 1), Nat.one_pos, ?_⟩
    simp only [step, if_pos hrun, hp, if_pos hone]

/-- The second `fopen` of a `GET` in range starts the loops on its slice. -/
theorem serves_reopen {file : Bytes} (filename : Bytes) {offset size : ℕ} (hsize : 0 < size)
    (hrange : offset+size ≤ file.length) (hfile : file.length < 2^64) (hstream : s.stream = []) :
    (s.reopen (some file) (.get filename offset size)).status = s.status ∧
      (s.reopen (some file) (.get filename offset size)).Serves ((file.drop offset).take size) ∧
      (s.reopen (some file) (.get filename offset size)).place.callsLeft = 2*size := by
  have haccepted : ¬ RangeRejected offset size file.length := by
    rw [RangeRejected, Nat.mod_eq_of_lt (by omega)]
    omega
  have hinFile : offset+size ≤ file.length := hrange
  rw [reopen, if_neg haccepted]
  refine ⟨rfl, .reading rfl hsize hinFile ?_, ?_⟩
  · change s.stream ++ _ = _
    rw [hstream]
    rfl
  · exact congrArg (2*·) (Place.reading_pending_length hinFile)

end Server

/-- The receive loop takes a whole chunk in whatever pieces it comes. -/
theorem recvLoop_segments {chunk : Bytes} {recvs : List Bytes} (h : Segments [chunk] recvs) :
    recvLoop chunk.length recvs = (.success, recvs) := by
  have hstream : recvs.flatten = chunk := by simpa using h.stream
  subst hstream
  have hne := h.nonempty
  clear h
  induction recvs with
  | nil => rfl
  | cons data rest ih =>
    have hdata : data ≠ [] := hne data List.mem_cons_self
    have hpos := List.length_pos_iff.mpr hdata
    have hlen : (data :: rest).flatten.length = data.length+rest.flatten.length := by
      rw [List.flatten_cons, List.length_append]
    have hsub : ((data :: rest).flatten.length : Int)-data.length = rest.flatten.length := by
      rw [hlen]
      push_cast
      omega
    have hrest := ih fun piece hp => hne piece (List.mem_cons_of_mem data hp)
    rw [recvLoop, if_pos (by omega), if_neg hdata, if_neg (by omega), hsub, hrest]

/-- The chunk at `offset` gets through from `s` on. No schedule of calls that make progress is
longer than `2*size`; one that cannot go on has written the chunk and is back in `accept`; and a
client that receives this stream in any pieces copies all of it. -/
structure Server.Transfers (s : Server) (file : Bytes) (offset size : ℕ) : Prop where
  ends : ∀ calls t, replayIf Server.step Server.Progresses s calls = some t →
    t.status = .running ∧ calls.length ≤ 2*size
  writes : ∀ calls t, replayIf Server.step Server.Progresses s calls = some t →
    t.place = .accepting ∧ t.stream = (file.drop offset).take size ∨
      ∃ c u, t.Progresses c ∧ t.step c = some u
  receives : ∀ recvs, Segments [(file.drop offset).take size] recvs →
    recvLoop (toSSize size) recvs = (.success, recvs) ∧
      toSSize size-recvs.flatten.length = 0 ∧ recvs.flatten = (file.drop offset).take size

theorem transfers_of_serves {s : Server} {file : Bytes} {offset size : ℕ}
    (hrun : s.status = .running) (hs : s.Serves ((file.drop offset).take size))
    (hcalls : s.place.callsLeft = 2*size) (hrange : offset+size ≤ file.length)
    (hsize : size < 2^63) : s.Transfers file offset size := by
  have hreplay (calls : List Call) (t : Server)
      (h : replayIf Server.step Server.Progresses s calls = some t) :
      (t.status = .running ∧ t.Serves ((file.drop offset).take size)) ∧
        calls.length+t.place.callsLeft ≤ s.place.callsLeft := by
    refine replayIf_spends
      (P := fun s => s.status = .running ∧ s.Serves ((file.drop offset).take size))
      (fun s => s.place.callsLeft) ?_ ⟨hrun, hs⟩ h
    intro s c u hs hc hstep
    exact Server.serves_step hs.1 hs.2 hc hstep
  have hlen : ((file.drop offset).take size).length = size := by
    rw [List.length_take, List.length_drop]
    omega
  refine ⟨?_, ?_, ?_⟩
  · intro calls t h
    obtain ⟨⟨hrun, -⟩, hle⟩ := hreplay calls t h
    exact ⟨hrun, by omega⟩
  · intro calls t h
    obtain ⟨⟨hrun, hserves⟩, -⟩ := hreplay calls t h
    exact Server.serves_progress hrun hserves
  · intro recvs h
    have hloop := recvLoop_segments h
    have hstream : recvs.flatten = (file.drop offset).take size := by simpa using h.stream
    rw [toSSize_natCast hsize, hstream, hlen]
    rw [hlen] at hloop
    exact ⟨hloop, Int.sub_self _, rfl⟩

/-- Every parsed `GET` inside the file transfers its chunk, whatever the counts of the calls on
both sides. -/
theorem chunk_transfer {s : Server} {data stale file filename : Bytes} {offset size : ℕ}
    (hrun : s.status = .running) (hplace : s.place = .receiving) (hstream : s.stream = [])
    (hdata : data ≠ []) (hlen : data.length < bufferSize) (hstale : stale.length = 10)
    (hparse : parse (data.takeWhile fun b => b ≠ 0) stale = .accepted (.get filename offset size))
    (hrange : offset+size ≤ file.length) (hfile : file.length < 2^63) :
    ∃ t, replayIf Server.step anyStep s
        [.recv (some data) stale, .fopen (some file), .fopen (some file)] = some t ∧
      t.Transfers file offset size := by
  have hsize := (parse_get_iff.mp hparse).2
  have hreceive : s.receive (some data) stale = s.goTo (.opening (.get filename offset size)) := by
    cases data with
    | nil => exact absurd rfl hdata
    | cons b data => simp only [Server.receive, hparse]
  -- the calls up to the loops
  have hrecv : s.step (.recv (some data) stale) =
      some (s.goTo (.opening (.get filename offset size))) := by
    rw [← hreceive]
    simp only [Server.step, if_pos hrun, hplace, Option.getD_some, hlen, hstale, and_self, ↓reduceIte]
  have hopen : (s.goTo (.opening (.get filename offset size))).step (.fopen (some file)) =
      some (s.goTo (.reopening (.get filename offset size))) := if_pos hrun
  have hreopen : (s.goTo (.reopening (.get filename offset size))).step (.fopen (some file)) =
      some ((s.goTo (.reopening (.get filename offset size))).reopen (some file)
        (.get filename offset size)) := if_pos hrun
  obtain ⟨hstatus, hserves, hcalls⟩ :=
    Server.serves_reopen (s := s.goTo (.reopening (.get filename offset size))) filename hsize hrange
      (by omega) hstream
  refine ⟨_, ?_, transfers_of_serves (hstatus.trans hrun) hserves hcalls hrange (by omega)⟩
  simp only [replayIf, anyStep, ↓reduceIte, hrecv, Option.bind_some, hopen, hreopen]

/-- Two bytes from the middle of a file. -/
theorem chunk_transfer_middle :
    ∃ t, replayIf Server.step anyStep (Server.start.goTo .receiving)
        [.recv (some (ascii "GET f 1 2")) (ascii "0123456789"), .fopen (some (ascii "abcd")),
          .fopen (some (ascii "abcd"))] = some t ∧ t.Transfers (ascii "abcd") 1 2 :=
  have hparse : parse ((ascii "GET f 1 2").takeWhile fun b => b ≠ 0) (ascii "0123456789") =
      .accepted (.get (ascii "f") 1 2) := by decide
  chunk_transfer rfl rfl rfl (by decide) (by decide) (by decide) hparse (by decide) (by decide)

end NetTools.FTP
