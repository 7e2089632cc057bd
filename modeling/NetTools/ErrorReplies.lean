import NetTools.FTPTransfer
import NetTools.TFTPCopies
import NetTools.TFTPNetwork

namespace NetTools

open CText Schedule Download Segmentation

def errorReply : Bytes := ascii "ERROR File not found"

namespace FTP

/-- The thread has stored nothing and does not end as one that received its chunk. -/
def Ignored (size : ℕ) (calls : Calls) : Prop :=
  (downloadChunk size calls).1 ≠ .success ∧ (downloadChunk size calls).2.flatten = []

/-- A server without the file writes the reply, or a beginning of it. -/
theorem stream_of_not_found {s t : Server} {command : Command} {n : ℕ}
    (hp : s.place = .opening command) (hs : s.stream = [])
    (h : replayIf Server.step anyStep s [.fopen none, .write (.sent n)] = some t) :
    t.stream = errorReply.take n := by
  have hopen : s.step (.fopen none) =
      if s.status = .running then some (s.goTo (.answering errorReply)) else none := by
    simp only [Server.step, hp, ↓reduceIte]
    rfl
  have hanswer : (s.goTo (.answering errorReply)).step (.write (.sent n)) =
      if s.status = .running then
        if n ≤ errorReply.length then
          some ((s.goTo (.answering errorReply)).answer errorReply (.sent n))
        else none
      else none := rfl
  simp only [replayIf, anyStep, ↓reduceIte, hopen] at h
  obtain ⟨u, hu, h⟩ := Option.bind_eq_some_iff.mp h
  obtain ⟨-, hu⟩ := Option.ite_none_right_eq_some.mp hu
  obtain rfl := Option.some.inj hu
  rw [Option.bind_fun_some, hanswer, Option.ite_none_right_eq_some,
    Option.ite_none_right_eq_some, Option.some.injEq] at h
  obtain ⟨-, -, rfl⟩ := h
  change s.stream ++ errorReply.take n = errorReply.take n
  rw [hs, List.nil_append]

/-- The first piece of a stream is stored, whatever it is. -/
theorem recvLoop_stores {size : ℕ} (hsize : 1 ≤ size) {piece : Bytes} (hp : piece ≠ [])
    (rest : List Bytes) : (recvLoop size (piece :: rest)).2.flatten ≠ [] := by
  rw [recvLoop, if_pos (by omega), if_neg hp]
  split_ifs <;> simp [hp]

theorem not_ignored {size : ℕ} (hsize : 1 ≤ size) (hsize' : size < 2^63) {calls : Calls}
    (hsocket : calls.socket = true) (hconnect : true ∈ calls.connects.take 3)
    (hwrite : calls.write = true) {reply : Bytes} (hreply : reply ≠ [])
    (hr : Segments [reply.take size] calls.recvs) : ¬ Ignored size calls := by
  have htake : reply.take size ≠ [] := by
    rw [ne_eq, List.take_eq_nil_iff]
    rintro (h | h)
    · omega
    · exact hreply h
  obtain ⟨piece, rest, hrecvs⟩ := hr.exists_cons htake
  have hpiece := hr.nonempty piece (by rw [hrecvs]; exact List.mem_cons_self)
  have hloop : downloadChunk size calls = recvLoop size (piece :: rest) := by
    rw [downloadChunk_of_starts ⟨hsocket, hconnect, hwrite⟩, toSSize_natCast hsize', hrecvs]
  intro h
  have hstored := h.2
  rw [hloop] at hstored
  exact recvLoop_stores hsize hpiece rest hstored

end FTP

namespace TFTP

/-- The thread has stored nothing, counts nothing as received, and does not end as one that
received its chunk. -/
def Ignored (size : ℕ) (calls : Calls) : Prop :=
  (downloadChunk size calls).1 ≠ .success ∧ (downloadChunk size calls).2.copied.flatten = [] ∧
    (downloadChunk size calls).2.bytesRemaining = size

theorem reply_of_not_found {files : Bytes → Option Bytes} {request : Request}
    (hget : request.command = ascii "GET") (hfile : files request.filename = none) :
    handleRequest files request = .replied errorReply := by
  have hcheck : request.command ≠ ascii "CHECK" := by
    rw [hget]
    decide
  simp only [handleRequest, if_neg hcheck, if_pos hget, hfile]
  rfl

namespace Receiver

variable {size : ℕ} {d : Receiver}

/-- What is stored stays stored. -/
theorem copied_turn {d' : Receiver} {r : Turn} (h : d.turn size r = .ok d') :
    d.copied <+: d'.copied := by
  unfold turn at h
  split_ifs at h
  · unfold onTimeout at h
    split_ifs at h
    cases h
    exact List.prefix_refl _
  · unfold storePayload at h
    dsimp only at h
    split_ifs at h
    cases h
    exact List.prefix_append _ _

theorem copied_run (d : Receiver) (turns : List Turn) :
    d.copied <+: (d.run size turns).2.copied := by
  induction turns generalizing d with
  | nil =>
    rw [run]
    split_ifs <;> exact List.prefix_refl _
  | cons r rest ih =>
    rw [run]
    split_ifs with hrem
    · cases hturn : d.turn size r with
      | error e => exact List.prefix_refl _
      | ok d' => exact (copied_turn hturn).trans (ih d')
    · exact List.prefix_refl _

/-- Up to five timeouts are counted. -/
theorem run_timeouts (timeouts more : List Turn) (hrem : 0 < d.bytesRemaining)
    (ht : ∀ r ∈ timeouts, r.setsockopt = true ∧ r.datagram = [])
    (hn : d.retryCount+timeouts.length ≤ maxRetries) :
    d.run size (timeouts ++ more) =
      run size { d with retryCount := d.retryCount+timeouts.length } more := by
  induction timeouts generalizing d with
  | nil => rfl
  | cons r rest ih =>
    obtain ⟨hsock, hdata⟩ := ht r List.mem_cons_self
    rw [List.length_cons] at hn
    have hturn : d.turn size r = .ok { d with retryCount := d.retryCount+1 } := by
      rw [turn, if_neg (by rw [hsock]; decide), if_pos hdata, onTimeout, if_neg (by omega)]
    have hcount : d.retryCount+(rest.length+1) = d.retryCount+1+rest.length := by omega
    rw [List.cons_append, run, if_pos hrem, hturn, List.length_cons, hcount]
    exact ih (d := { d with retryCount := d.retryCount+1 }) hrem
      (fun r hr => ht r (List.mem_cons_of_mem _ hr)) (by change d.retryCount+1+_ ≤ _; omega)

/-- The reply is ignored exactly when it is not acknowledged or its 12 bytes behind the place of
the sequence number are too many. -/
theorem run_reply (ackSent : Bool) (rest : List Turn) (hd : d.Aligned size)
    (hrem : 0 < d.bytesRemaining) (hcopied : d.copied = []) :
    ((d.run size (⟨true, errorReply, ackSent⟩ :: rest)).1 ≠ .success ∧
      (d.run size (⟨true, errorReply, ackSent⟩ :: rest)).2.copied.flatten = [] ∧
      (d.run size (⟨true, errorReply, ackSent⟩ :: rest)).2.bytesRemaining = d.bytesRemaining) ↔
    ackSent = false ∨ d.bytesRemaining < 12 := by
  have hlen : ((payloadOf errorReply).length : Int) = 12 := rfl
  have hne : errorReply ≠ [] := by decide
  have hlong : ¬ errorReply.length < seqSize := by decide
  rw [run, if_pos hrem, turn_eq hd hrem, if_neg Bool.true_eq_false.mp, if_neg hne, if_neg hlong,
    hlen]
  cases ackSent with
  | false => simp [hcopied]
  | true =>
    rw [if_neg Bool.true_eq_false.mp]
    by_cases hle : 12 ≤ d.bytesRemaining
    · rw [if_pos hle]
      refine iff_of_false ?_ (by simp; omega)
      rintro ⟨-, hstored, -⟩
      obtain ⟨more, hmore⟩ := copied_run (d.stored (payloadOf errorReply)) rest
      rw [← hmore] at hstored
      simp [stored, payloadOf, errorReply, ascii, seqSize] at hstored
    · rw [if_neg hle]
      simp [hcopied]
      omega

end Receiver

theorem ignored_iff {size : ℕ} (hsize : 1 ≤ size) (hsize' : size < 2^63) {timeouts : List Turn}
    (ht : ∀ r ∈ timeouts, r.setsockopt = true ∧ r.datagram = [])
    (hn : timeouts.length ≤ maxRetries) (ackSent : Bool) (rest : List Turn) :
    Ignored size ⟨true, true, timeouts ++ ⟨true, errorReply, ackSent⟩ :: rest⟩ ↔
      ackSent = false ∨ size < 12 := by
  have hrem := Receiver.start_bytesRemaining hsize'
  have hd := Receiver.aligned_start hsize'
  have hcount : (Receiver.start size).retryCount+timeouts.length ≤ maxRetries := by
    rwa [Receiver.start, Nat.zero_add]
  have hcopied : (Receiver.start size).copied = [] := rfl
  rw [Ignored, downloadChunk_started]
  generalize Receiver.start size = d at hrem hd hcount hcopied ⊢
  have hreply := Receiver.run_reply (d := { d with retryCount := d.retryCount+timeouts.length })
    ackSent rest ⟨hd.written, hd.remaining⟩ (by change 0 < d.bytesRemaining; omega) hcopied
  rw [← Receiver.run_timeouts timeouts _ (by omega) ht hcount] at hreply
  have hsame : (d.bytesRemaining < 12) = (size < 12) := by
    rw [hrem]
    exact propext Nat.cast_lt_ofNat
  change _ ↔ ackSent = false ∨ d.bytesRemaining < 12 at hreply
  rw [hsame] at hreply
  rw [← hrem]
  exact hreply

end TFTP

/-- The error reply to a chunk of `size` bytes, in whatever pieces and behind whatever timeouts it
comes: the FTP client never ignores it, and the TFTP client does exactly when the ACK cannot be
sent or the chunk is shorter than 12 bytes. -/
theorem error_reply_ignored_iff {size : ℕ} (hsize : 1 ≤ size) (hsize' : size < 2^63) :
    (∀ (s t : FTP.Server) (command : FTP.Command) (n : ℕ) (calls : FTP.Calls),
      s.place = .opening command → s.stream = [] → 0 < n →
      replayIf FTP.Server.step anyStep s [.fopen none, .write (.sent n)] = some t →
      calls.socket = true → true ∈ calls.connects.take 3 → calls.write = true →
      Segments [t.stream.take size] calls.recvs → ¬ FTP.Ignored size calls) ∧
    ∀ (files : Bytes → Option Bytes) (request : TFTP.Request) (reply : Bytes)
      (timeouts : List TFTP.Turn) (ackSent : Bool) (rest : List TFTP.Turn),
      request.command = ascii "GET" → files request.filename = none →
      TFTP.handleRequest files request = .replied reply →
      (∀ r ∈ timeouts, r.setsockopt = true ∧ r.datagram = []) →
      timeouts.length ≤ TFTP.maxRetries →
      (TFTP.Ignored size ⟨true, true, timeouts ++ ⟨true, reply, ackSent⟩ :: rest⟩ ↔
        ackSent = false ∨ size < 12) := by
  constructor
  · intro s t command n calls hp hs hn hreplay hsocket hconnect hwrite hr
    have hstream := FTP.stream_of_not_found hp hs hreplay
    have hreply : t.stream ≠ [] := by
      rw [hstream, ne_eq, List.take_eq_nil_iff]
      rintro (h | h)
      · omega
      · exact absurd h (by decide)
    exact FTP.not_ignored hsize hsize' hsocket hconnect hwrite hreply hr
  · intro files request reply timeouts ackSent rest hget hfile hreply ht hn
    have hsame := (TFTP.reply_of_not_found hget hfile).symm.trans hreply
    obtain rfl := TFTP.Started.replied.inj hsame
    exact TFTP.ignored_iff hsize hsize' ht hn ackSent rest

/-- A chunk of five bytes: the FTP client stores the beginning of the reply, and the TFTP client
refuses it. -/
theorem error_reply_ignored_iff_five :
    ¬ FTP.Ignored 5 ⟨true, [true], true, [ascii "ERR", ascii "OR"], 0⟩ ∧
      TFTP.Ignored 5 ⟨true, true, [⟨true, errorReply, true⟩]⟩ := by
  have h := error_reply_ignored_iff (by decide : 1 ≤ 5) (by decide)
  constructor
  · exact h.1 ⟨.running, true, .opening (.get (ascii "f") 0 5), []⟩
      ⟨.running, true, .accepting, errorReply⟩ (.get (ascii "f") 0 5) 20 _ rfl rfl (by decide) rfl
      rfl (by decide) rfl ⟨by decide, by decide⟩
  · exact (h.2 (fun _ => none) ⟨ascii "GET", ascii "f", some 0, some 5⟩ errorReply [] true [] rfl rfl
      rfl (by simp) (by decide)).mpr (Or.inr (by decide))

/-- The message text becomes the chunk: all of it over FTP, its end over TFTP. -/
theorem error_reply_taken_for_chunk :
    FTP.downloadChunk 20 ⟨true, [true], true, [errorReply], 0⟩ = (.success, [errorReply]) ∧
      TFTP.handleRequest (fun _ => none) ⟨ascii "GET", ascii "f", some 0, some 12⟩ =
        .replied errorReply ∧
      (TFTP.downloadChunk 12 ⟨true, true, [⟨true, errorReply, true⟩]⟩).1 = .success ∧
      (TFTP.downloadChunk 12 ⟨true, true, [⟨true, errorReply, true⟩]⟩).2.copied =
        [ascii "le not found"] ∧
      ¬ FTP.Ignored 20 ⟨true, [true], true, [errorReply], 0⟩ ∧
      ¬ TFTP.Ignored 12 ⟨true, true, [⟨true, errorReply, true⟩]⟩ := by
  have hftp : FTP.downloadChunk 20 ⟨true, [true], true, [errorReply], 0⟩ =
      (.success, [errorReply]) := rfl
  have htftp : (TFTP.downloadChunk 12 ⟨true, true, [⟨true, errorReply, true⟩]⟩).1 = .success := rfl
  exact ⟨hftp, rfl, htftp, rfl, fun h => h.1 (by rw [hftp]), fun h => h.1 htftp⟩

end NetTools
