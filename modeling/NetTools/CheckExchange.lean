import NetTools.ErrorReplies
import NetTools.FTPMessages

namespace NetTools

open CText Schedule
open FTP (okReply scanOk scanOk_okReply fileSizeOf)

namespace Download

/-- The reply to a `CHECK` for a file, or for a missing one. -/
def checkReply (file : Option Bytes) : Bytes :=
  (file.map fun content => okReply content.length).getD errorReply

/-- What `main` of a download client does behind the reply: whether `sscanf` assigns `file_size`,
whether the variable is read, and the size it plans with; without one it exits with a failure. -/
structure Checked where
  assigned : Bool
  used : Bool
  plan : Option ℕ
  deriving DecidableEq

/-- `if (file_size <= 0)`, with what the stack holds when nothing was assigned. -/
def checkText (text : Bytes) (stack : ℕ) : Checked :=
  let fileSize := (scanOk text).getD stack
  ⟨(scanOk text).isSome, true, if fileSize ≤ 0 then none else some fileSize⟩

/-- `OK ` and a decimal number. -/
def IsOkReply (text : Bytes) : Prop :=
  ∃ digits, text = ascii "OK " ++ digits ∧ digits ≠ [] ∧ ∀ b ∈ digits, isDigit b = true

/-- The client plans exactly for a file that is not empty, with its size, and reads no variable that
the reply did not assign. -/
structure RightAt (file : Option Bytes) (o : Checked) : Prop where
  plans : ∀ n, o.plan = some n ↔ ∃ content ∈ file, content.length = n ∧ 0 < n
  assigned : o.used = true → o.assigned = true

/-- Any other reply ends the client, which reads no variable that the reply did not assign. -/
def TurnsAway (text : Bytes) (o : Checked) : Prop :=
  ¬ IsOkReply text → o.plan = none ∧ (o.used = true → o.assigned = true)

/-- The text is read as the number 0 behind its `OK`. -/
def ReadsZero (text : Bytes) : Prop := scanOk text = some 0

theorem checkText_of_scanOk {text : Bytes} {n : ℕ} (h : scanOk text = some n) (stack : ℕ) :
    checkText text stack = ⟨true, true, if n ≤ 0 then none else some n⟩ := by
  rw [checkText, h]
  rfl

theorem checkText_of_none {text : Bytes} (h : scanOk text = none) (stack : ℕ) :
    checkText text stack = ⟨false, true, if stack ≤ 0 then none else some stack⟩ := by
  rw [checkText, h]
  rfl

theorem turnsAway_checkText_iff (text : Bytes) (stack : ℕ) :
    TurnsAway text (checkText text stack) ↔ IsOkReply text ∨ ReadsZero text := by
  by_cases hok : IsOkReply text
  · exact iff_of_true (fun h => absurd hok h) (Or.inl hok)
  · rw [TurnsAway, imp_iff_right hok, or_iff_right hok, ReadsZero]
    cases hscan : scanOk text with
    | none =>
      rw [checkText_of_none hscan]
      simp
    | some n =>
      rw [checkText_of_scanOk hscan]
      simp

/-- The text of the reply is what stands in the buffer. -/
theorem takeWhile_checkReply (file : Option Bytes) :
    (checkReply file).takeWhile (fun b => b ≠ 0) = checkReply file := by
  cases file with
  | none => decide
  | some content =>
    have hok : (ascii "OK ").takeWhile (fun b => b ≠ 0) = ascii "OK " := by decide
    rw [List.takeWhile_eq_self_iff] at hok ⊢
    have hdigits := List.takeWhile_eq_self_iff.mp (TFTP.takeWhile_ne_zero_decimal content.length)
    exact List.forall_mem_append.mpr ⟨hok, hdigits⟩

/-- A client that gets the reply plans right exactly when the file exists. -/
theorem rightAt_checkReply_iff {file : Option Bytes}
    (hfile : ∀ content ∈ file, content.length < 2^63) (stack : ℕ) :
    RightAt file (checkText (checkReply file) stack) ↔ file ≠ none := by
  cases file with
  | none =>
    -- nothing is assigned, and `file_size` is read all the same
    have hscan : scanOk (checkReply none) = none := by decide
    rw [checkText_of_none hscan]
    apply iff_of_false
    · intro h
      cases h.assigned rfl
    · exact fun h => h rfl
  | some content =>
    have hlen := hfile content rfl
    have hscan : scanOk (checkReply (some content)) = some content.length :=
      scanOk_okReply (by omega)
    rw [checkText_of_scanOk hscan]
    refine iff_of_true ⟨fun n => ?_, fun _ => rfl⟩ (Option.some_ne_none content)
    simp only [Option.ite_none_left_eq_some, Option.some.injEq, Option.mem_def, exists_eq_left']
    constructor
    · rintro ⟨hpos, rfl⟩
      exact ⟨rfl, Nat.pos_of_ne_zero fun h => hpos h.le⟩
    · rintro ⟨rfl, hpos⟩
      exact ⟨Nat.not_le.mpr hpos, rfl⟩

end Download

open Download

namespace FTP

/-- The client's `main` from its one `read` on; the result of `read` is not looked at. -/
def afterCheck (received : Option Bytes) (stack : ℕ) : Checked :=
  checkText ((received.getD []).takeWhile fun b => b ≠ 0) stack

/-- The calls of the server on a file in this state, both of `fopen` and a whole `write`. -/
def checkCalls (file : Option Bytes) : List Call :=
  match file with
  | none => [.fopen none, .write (.sent (checkReply none).length)]
  | some content =>
    [.fopen (some content), .fopen (some content), .write (.sent (checkReply (some content)).length)]

/-- The server at a `CHECK` for the file sends this reply. -/
def CheckServed (file : Option Bytes) (reply : Bytes) : Prop :=
  ∃ s t filename, s.status = .running ∧ s.place = .opening (.check filename) ∧ s.stream = [] ∧
    replayIf Server.step anyStep s (checkCalls file) = some t ∧ t.stream = reply

end FTP

namespace TFTP

/-- The client's `main` from its one `recvfrom` on. -/
def afterCheck (received : Option Bytes) (stack : ℕ) : Checked :=
  if received.getD [] = [] then ⟨false, false, none⟩
  else checkText ((received.getD []).takeWhile fun b => b ≠ 0) stack

/-- The handler of a `CHECK` for the file sends this reply. -/
def CheckServed (file : Option Bytes) (reply : Bytes) : Prop :=
  ∃ files request, request.command = ascii "CHECK" ∧ files request.filename = file ∧
    handleRequest files request = .replied reply

theorem checkServed_iff (file : Option Bytes) (reply : Bytes) :
    CheckServed file reply ↔ reply = checkReply file := by
  constructor
  · rintro ⟨files, request, hcheck, rfl, h⟩
    rw [handleRequest, if_pos hcheck] at h
    cases hfile : files request.filename with
    | none =>
      rw [hfile] at h
      exact (Started.replied.inj h).symm
    | some content =>
      rw [hfile] at h
      exact (Started.replied.inj h).symm
  · rintro rfl
    refine ⟨fun _ => file, ⟨ascii "CHECK", [], none, none⟩, rfl, rfl, ?_⟩
    rw [handleRequest, if_pos rfl]
    cases file <;> rfl

end TFTP

namespace FTP

/-- A whole answer is written and the server waits for the next client. -/
theorem step_write_whole (socketOpen : Bool) (text stream : Bytes) :
    Server.step ⟨.running, socketOpen, .answering text, stream⟩ (.write (.sent text.length)) =
      some ⟨.running, socketOpen, .accepting, stream ++ text⟩ := by
  have hanswer : Server.step ⟨.running, socketOpen, .answering text, stream⟩
        (.write (.sent text.length)) =
      if text.length ≤ text.length then
        some ⟨.running, socketOpen, .accepting, stream ++ text.take text.length⟩
      else none := rfl
  rw [hanswer, if_pos (Nat.le_refl _), List.take_length]

theorem replay_checkCalls (socketOpen : Bool) (filename stream : Bytes) (file : Option Bytes) :
    replayIf Server.step anyStep ⟨.running, socketOpen, .opening (.check filename), stream⟩
        (checkCalls file) =
      some ⟨.running, socketOpen, .accepting, stream ++ checkReply file⟩ := by
  have hwrite := step_write_whole socketOpen (checkReply file) stream
  cases file with
  | none =>
    have hopen : Server.step ⟨.running, socketOpen, .opening (.check filename), stream⟩
          (.fopen none) =
        some ⟨.running, socketOpen, .answering (checkReply none), stream⟩ := rfl
    simp only [checkCalls, replayIf, anyStep, ↓reduceIte, hopen, hwrite, Option.bind_some]
  | some content =>
    have hopen : Server.step ⟨.running, socketOpen, .opening (.check filename), stream⟩
          (.fopen (some content)) =
        some ⟨.running, socketOpen, .reopening (.check filename), stream⟩ := rfl
    have hreopen : Server.step ⟨.running, socketOpen, .reopening (.check filename), stream⟩
          (.fopen (some content)) =
        some ⟨.running, socketOpen, .answering (checkReply (some content)), stream⟩ := rfl
    simp only [checkCalls, replayIf, anyStep, ↓reduceIte, hopen, hreopen, hwrite, Option.bind_some]

theorem checkServed_iff (file : Option Bytes) (reply : Bytes) :
    CheckServed file reply ↔ reply = checkReply file := by
  constructor
  · rintro ⟨⟨status, socketOpen, place, stream⟩, t, filename, hrun, hplace, hstream, h, rfl⟩
    subst hrun hplace hstream
    rw [replay_checkCalls] at h
    obtain rfl := Option.some.inj h
    exact List.nil_append _
  · rintro rfl
    exact ⟨_, _, [], rfl, rfl, rfl, replay_checkCalls true [] [] file, List.nil_append _⟩

end FTP

namespace Download

section

variable {file : Option Bytes} (received : Option Bytes) (stack : ℕ)

/-- The text that the client finds in its buffer. -/
def bufferText : Bytes := (received.getD []).takeWhile fun b => b ≠ 0

/-- The exchange is right in both protocols exactly for a file that exists. Of the other replies
exactly those are turned away that `%zu` reads as 0, and by the TFTP client also no reply. -/
theorem check_exchange_iff (hfile : ∀ content ∈ file, content.length < 2^63) :
    (∀ reply, FTP.CheckServed file reply →
      (RightAt file (FTP.afterCheck (some reply) stack) ↔ file ≠ none)) ∧
    (∀ reply, TFTP.CheckServed file reply →
      (RightAt file (TFTP.afterCheck (some reply) stack) ↔ file ≠ none)) ∧
    (TurnsAway (bufferText received) (FTP.afterCheck received stack) ↔
      IsOkReply (bufferText received) ∨ ReadsZero (bufferText received)) ∧
    (TurnsAway (bufferText received) (TFTP.afterCheck received stack) ↔
      IsOkReply (bufferText received) ∨ ReadsZero (bufferText received) ∨
        received.getD [] = []) := by
  refine ⟨fun reply hreply => ?_, fun reply hreply => ?_, ?_, ?_⟩
  · obtain rfl := (FTP.checkServed_iff file reply).mp hreply
    rw [FTP.afterCheck, Option.getD_some, takeWhile_checkReply]
    exact rightAt_checkReply_iff hfile stack
  · obtain rfl := (TFTP.checkServed_iff file reply).mp hreply
    have hne : checkReply file ≠ [] := by
      cases file with
      | none => decide
      | some content => exact List.cons_ne_nil _ _
    rw [TFTP.afterCheck, Option.getD_some, if_neg hne, takeWhile_checkReply]
    exact rightAt_checkReply_iff hfile stack
  · exact turnsAway_checkText_iff (bufferText received) stack
  · rw [TFTP.afterCheck]
    split_ifs with hempty
    -- only the TFTP client looks at the result of its receive call
    · refine iff_of_true (fun _ => ⟨rfl, fun h => ?_⟩) (Or.inr (Or.inr hempty))
      cases h
    · rw [or_iff_left hempty]
      exact turnsAway_checkText_iff (bufferText received) stack

end

theorem check_exchange_three :
    (∀ content ∈ some (ascii "abc"), content.length < 2^63) ∧
      RightAt (some (ascii "abc")) (FTP.afterCheck (some (ascii "OK 3")) 0) :=
  ⟨by decide, ((check_exchange_iff none 0 (by decide : ∀ content ∈ some (ascii "abc"),
    content.length < 2^63)).1 (ascii "OK 3")
      ((FTP.checkServed_iff _ _).mpr (by decide))).mpr (Option.some_ne_none _)⟩

/-- Without the file the client plans with whatever `file_size` held. -/
theorem missing_file_is_planned : ¬ ∀ (file : Option Bytes) (reply : Bytes) (stack : ℕ),
    (∀ content ∈ file, content.length < 2^63) → FTP.CheckServed file reply →
      RightAt file (FTP.afterCheck (some reply) stack) := by
  intro h
  have hright := h none errorReply 5 (by decide) ((FTP.checkServed_iff _ _).mpr rfl)
  have hplan : (FTP.afterCheck (some errorReply) 5).plan = some 5 := by decide
  obtain ⟨content, hcontent, -⟩ := (hright.plans 5).mp hplan
  cases hcontent

end Download

end NetTools
