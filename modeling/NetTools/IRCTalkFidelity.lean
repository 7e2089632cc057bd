import NetTools.IRCTalk

namespace NetTools.IRC

open CText Schedule

namespace Stream

variable {q : Stream} {n : ℕ} {data : Bytes}

theorem bytes_drop : (q.drop n).bytes = q.bytes.drop n := (List.drop_append ..).symm

/-- A read within the text. -/
theorem drop_of_le (h : n ≤ q.text.length) : q.drop n = ⟨q.text.drop n, q.leave⟩ := by
  rw [drop, Nat.sub_eq_zero_of_le h, List.drop_zero]

theorem prefix_text (h : data <+: q.bytes) (hn : data.length ≤ q.text.length) :
    data ++ q.text.drop data.length = q.text := by
  have ht : data <+: q.text := List.prefix_of_prefix_length_le h (List.prefix_append _ _) hn
  have htake := List.prefix_iff_eq_take.mp ht
  calc data ++ q.text.drop data.length
      = q.text.take data.length ++ q.text.drop data.length := by rw [← htake]
    _ = q.text := List.take_append_drop _ _

theorem zero_notMem_send {text : Bytes} (h : 0 ∉ q.bytes) (ht : 0 ∉ text) :
    0 ∉ (q.send text).bytes := by
  have hleave : 0 ∉ ascii "LEAVE" := by decide
  simp only [bytes, List.mem_append, not_or] at h
  unfold send
  split_ifs
  · simp [bytes, h, hleave]
  · simp [bytes, h, ht]

end Stream

section fgets

variable {rest : Bytes}

theorem zero_notMem_fgets : 0 ∉ (fgets rest).1 := by
  intro h
  exact absurd (List.mem_takeWhile_imp (p := fun b : Byte => decide (b ≠ 0)) h) (by decide)

/-- `fgets` loses what stands behind a NUL, and nothing else. -/
theorem fgets_split_iff :
    (fgets rest).1 ++ (fgets rest).2.getD [] = rest ↔ 0 ∉ rest.take (bufferSize-1) := by
  have hrest : rest.take (bufferSize-1) ++ (fgets rest).2.getD [] = rest := by
    unfold fgets
    split_ifs with hlen
    · exact List.take_append_drop _ _
    · exact (List.append_nil _).trans (List.take_of_length_le (by omega))
  have hwhile : (fgets rest).1 = rest.take (bufferSize-1) ↔ 0 ∉ rest.take (bufferSize-1) := by
    rw [fgets, List.takeWhile_eq_self_iff]
    constructor
    · intro h h0
      exact absurd rfl (of_decide_eq_true (h 0 h0))
    · intro h b hb
      exact decide_eq_true fun hz => h (hz ▸ hb)
  rw [← hwhile]
  constructor
  · intro h
    exact List.append_cancel_right (h.trans hrest.symm)
  · intro h
    rw [h, hrest]

/-- The first piece of a line tells whether it quits. -/
theorem startsWith_fgets (h : startsWith rest (ascii "/quit") = true) :
    startsWith (fgets rest).1 (ascii "/quit") = true := by
  unfold startsWith at h ⊢
  rw [List.isPrefixOf_iff_prefix] at h ⊢
  obtain ⟨tail, rfl⟩ := h
  have htake : (ascii "/quit" ++ tail).take (bufferSize-1) =
      ascii "/quit" ++ tail.take (bufferSize-1-5) := by
    rw [List.take_append, List.take_of_length_le (by decide)]
    rfl
  rw [fgets, htake, List.takeWhile_append_of_pos (by decide)]
  exact List.prefix_append _ _

end fgets

namespace ChatProcess

variable {c : ChatProcess} {r : Receiver} {text data : Bytes}

/-- In CHAT mode a line changes the process only if it quits. -/
theorem typeLine_chat (hm : c.peer.mode = .chat) :
    c.typeLine text none false =
      if startsWith text (ascii "/quit") then c.ended (.exited exitSuccess) else c := by
  unfold typeLine
  split_ifs with hnil hquit
  · rw [hnil] at hquit
    cases hquit
  · rfl
  · rfl
  · rfl

theorem typeLine_quit (h : startsWith text (ascii "/quit") = true) :
    c.typeLine text none false = c.ended (.exited exitSuccess) := by
  have hnil : text ≠ [] := by
    rintro rfl
    cases h
  rw [typeLine, if_neg hnil, if_pos h]

/-- No line starts a conversation or makes a process undefined. -/
theorem typeLine_quiet (hc : ¬ c.Chatting) (hd : c.status ≠ .undefined) :
    ¬ (c.typeLine text none false).Chatting ∧ (c.typeLine text none false).status ≠ .undefined := by
  unfold typeLine
  split_ifs
  · exact ⟨hc, hd⟩
  · exact ⟨nofun, nofun⟩
  · exact ⟨hc, hd⟩
  · exact ⟨hc, hd⟩
  · exact ⟨nofun, hd⟩
  · exact ⟨hc, hd⟩
  · exact ⟨hc, hd⟩
  · exact ⟨hc, hd⟩

/-- A `LEAVE` and the end of the stream end the conversation. -/
theorem recvPeer_leave (h : data = [] ∨ startsWith data (ascii "LEAVE") = true) :
    ¬ (c.recvPeer 0 r (some data)).Chatting ∧ (c.recvPeer 0 r (some data)).status = c.status := by
  have hall : (some data).all (fun d => d = [] ∨ startsWith d (ascii "LEAVE") = true) = true := by
    rw [Option.all_some]
    exact decide_eq_true h
  rw [recvPeer, if_pos hall]
  exact ⟨nofun, rfl⟩

/-- Any other data leaves the process as it is. -/
theorem Joined.recvPeer (hj : c.Joined) (hr : c.receivers[0]? = some r)
    (h : ¬ (data = [] ∨ startsWith data (ascii "LEAVE") = true)) :
    c.recvPeer 0 r (some data) = c := by
  have hall : ¬ (some data).all (fun d => d = [] ∨ startsWith d (ascii "LEAVE") = true) = true := by
    rw [Option.all_some, decide_eq_true_eq]
    exact h
  obtain ⟨-, n, k, hone, hsock⟩ := hj
  rw [hone] at hr
  cases hr
  rw [ChatProcess.recvPeer, if_neg hall]
  simp only [hsock]
  have hset : c.receivers.set 0 ⟨n, k⟩ = c.receivers := by
    rw [hone]
    rfl
  rw [hset]

end ChatProcess

namespace Talk

/-- What `a` typed and `b` has still to read. -/
def unprinted (s : Talk) : Bytes :=
  (s.stream .a).text ++ if s.leaving then [] else (s.pending .a).getD []

/-- Nothing can be read any more. -/
def Settled (s : Talk) : Prop := s.pending .a = none ∧ ∀ x data, s.step (.recv x data) = none

/-- What a conversation promises: all that was typed is printed when all that was sent is
read, nobody stops before `a` leaves, and nobody stays behind when nothing is left to read. -/
structure Delivers (s : Talk) : Prop where
  printed : s.pending .a = none → (s.stream .a).bytes = [] → s.printed.flatten = s.typed.flatten
  stays : s.leaving = false → (s.proc .b).Chatting
  ends : s.leaving = true → s.Settled → ∀ x, ¬ (s.proc x).Chatting

/-- So far nothing went wrong: what was printed and what is to come make up what was typed,
both are in the conversation until `a` leaves, and no buffer was overrun. -/
structure Faithful (s : Talk) : Prop where
  printed : s.printed.flatten ++ s.unprinted = s.typed.flatten
  up : s.leaving = false → ∀ x, (s.proc x).Chatting
  defined : ∀ x, (s.proc x).status ≠ .undefined

/-- No piece of a line begins with `/quit` unless the line does, no piece of `a` holds a NUL, no
`recv` fills the buffer, none returns text that begins with `LEAVE` (to `a`: before it leaves),
and `b` receives the `LEAVE` by itself. -/
def Clean (s : Talk) : TalkEvent → Prop
  | .read x false => s.leaving = false → ∀ rest ∈ s.pending x,
      startsWith (fgets rest).1 (ascii "/quit") = false ∧ (x = .a → 0 ∉ rest.take (bufferSize-1))
  | .recv .a data =>
    if startsWith data (ascii "LEAVE") then s.leaving = true else data.length < bufferSize
  | .recv .b data =>
    if data.length ≤ (s.stream .a).text.length then
      data.length < bufferSize ∧ startsWith data (ascii "LEAVE") = false
    else (s.stream .a).text = [] ∧ data = ascii "LEAVE"
  | _ => True

instance (s : Talk) : ∀ e, Decidable (s.Clean e)
  | .read x false => inferInstanceAs (Decidable (s.leaving = false → ∀ rest ∈ s.pending x,
      startsWith (fgets rest).1 (ascii "/quit") = false ∧ (x = .a → 0 ∉ rest.take (bufferSize-1))))
  | .recv .a data => inferInstanceAs (Decidable
      (if startsWith data (ascii "LEAVE") then s.leaving = true else data.length < bufferSize))
  | .recv .b data => inferInstanceAs (Decidable (if data.length ≤ (s.stream .a).text.length then
      data.length < bufferSize ∧ startsWith data (ascii "LEAVE") = false
    else (s.stream .a).text = [] ∧ data = ascii "LEAVE"))
  | .read _ true | .typeLine .. | .sigint => isTrue trivial

/-- The invariant of clean runs. -/
structure Sound (s : Talk) : Prop extends Faithful s where
  joined : ∀ x, (s.proc x).Chatting → (s.proc x).Joined
  nonzero : ∀ x, 0 ∉ (s.stream x).bytes
  leave : (s.stream .a).leave = [] ∨ (s.stream .a).leave = ascii "LEAVE"
  early : s.leaving = false → (s.stream .a).leave = []
  unsent : (s.proc .a).status = .running → s.pending .a ≠ none → (s.stream .a).leave = []
  quitting : s.leaving = true → (s.proc .a).status = .running → ∀ rest ∈ s.pending .a,
    startsWith rest (ascii "/quit") = true
  sent : s.leaving = true → s.pending .a = none → (∀ x, (s.proc x).Chatting) →
    (s.stream .a).leave = ascii "LEAVE"

variable {s t : Talk} {x : Side} {line rest data : Bytes} {r : Receiver}

/-- Nothing of a line is kept back: what was printed and the text in flight are what was typed. -/
theorem Sound.printed_text (h : s.Sound) (hn : s.leaving = true ∨ s.pending .a = none) :
    s.printed.flatten ++ (s.stream .a).text = s.typed.flatten := by
  have hprinted := h.printed
  rcases hn with hl | hp
  · rwa [unprinted, hl, if_pos rfl, List.append_nil] at hprinted
  · rwa [unprinted, hp, Option.getD_none, ite_self, List.append_nil] at hprinted

theorem not_early {p : Prop} (hl : s.leaving = true) (he : s.leaving = false) : p := by
  rw [hl] at he
  cases he

section Update

variable {c : ChatProcess} {q : Stream} {z : Side}

theorem Sound.nonzero_update (h : s.Sound) (hq : 0 ∉ q.bytes) (y : Side) :
    0 ∉ (Function.update s.stream z q y).bytes := by
  by_cases hy : y = z
  · rw [hy, Function.update_self]
    exact hq
  · rw [Function.update_of_ne hy]
    exact h.nonzero y

theorem Sound.defined_update (h : s.Sound) (hc : c.status ≠ .undefined) (y : Side) :
    (Function.update s.proc x c y).status ≠ .undefined := by
  by_cases hy : y = x
  · rw [hy, Function.update_self]
    exact hc
  · rw [Function.update_of_ne hy]
    exact h.defined y

theorem Sound.joined_update (h : s.Sound) (hc : c.Chatting → c.Joined) (y : Side)
    (hy : (Function.update s.proc x c y).Chatting) : (Function.update s.proc x c y).Joined := by
  by_cases hyx : y = x
  · subst hyx
    rw [Function.update_self] at hy ⊢
    exact hc hy
  · rw [Function.update_of_ne hyx] at hy ⊢
    exact h.joined y hy

/-- Side `x` is out of the conversation. -/
theorem not_all_chatting (hc : ¬ c.Chatting) : ¬ ∀ y, (Function.update s.proc x c y).Chatting := by
  intro hall
  have hx := hall x
  rw [Function.update_self] at hx
  exact hc hx

end Update

theorem sound_start {a b : ChatProcess} (ha : a.Joined) (hb : b.Joined) : (start a b).Sound where
  printed := rfl
  up _ x := match x with
    | .a => ha.1
    | .b => hb.1
  defined x := match x with
    | .a => fun h => ProcessStatus.noConfusion (ha.1.1.symm.trans h)
    | .b => fun h => ProcessStatus.noConfusion (hb.1.1.symm.trans h)
  joined x _ := match x with
    | .a => ha
    | .b => hb
  nonzero _ := List.not_mem_nil
  leave := .inl rfl
  early _ := rfl
  unsent _ _ := rfl
  quitting := nofun
  sent := nofun

theorem sound_typeLine (h : s.Sound) (hp : s.pending x = none) (hl : x = .a → s.leaving = false) :
    (s.typeLine x line).Sound := by
  cases x with
  | b =>
    exact ⟨⟨h.printed, h.up, h.defined⟩, h.joined, h.nonzero, h.leave, h.early, h.unsent,
      h.quitting, h.sent⟩
  | a =>
    have hstay := hl rfl
    have hprinted := h.printed_text (.inr hp)
    unfold typeLine
    dsimp only
    split_ifs with hquit
    · refine ⟨⟨?_, nofun, h.defined⟩, h.joined, h.nonzero, h.leave, nofun,
        fun _ _ => h.early hstay, ?_, nofun⟩
      · exact (congrArg (s.printed.flatten ++ ·) (List.append_nil _)).trans hprinted
      · intro _ _ rest hrest
        cases hrest
        exact hquit
    · refine ⟨⟨?_, h.up, h.defined⟩, h.joined, h.nonzero, h.leave, h.early,
        fun _ _ => h.early hstay, ?_, nofun⟩
      · change s.printed.flatten ++ ((s.stream .a).text ++ if s.leaving then [] else line) =
          (s.typed ++ [line]).flatten
        rw [hstay, if_neg Bool.false_ne_true, ← List.append_assoc, hprinted, List.flatten_append,
          List.flatten_singleton]
      · intro hleaving
        change s.leaving = true at hleaving
        rw [hstay] at hleaving
        cases hleaving

theorem sound_interrupt (h : s.Sound) (ha : (s.proc .a).Chatting) (hp : s.pending .a = none)
    (hl : s.leaving = false) : s.interrupt.Sound := by
  -- in CHAT mode the handler only sends
  have hsig : (s.proc .a).sigint = s.proc .a := by simp only [ChatProcess.sigint, ha.2.1]
  have hproc : s.interrupt.proc = s.proc := by
    change Function.update s.proc .a (s.proc .a).sigint = s.proc
    rw [hsig, Function.update_eq_self]
  have hleave : (s.interrupt.stream .a).leave = ascii "LEAVE" := by
    change (s.stream .a).leave ++ ascii "LEAVE" = _
    rw [h.early hl, List.nil_append]
  have hprinted := h.printed
  rw [unprinted, hp, Option.getD_none, ite_self] at hprinted
  refine ⟨⟨?_, nofun, ?_⟩, ?_, ?_, .inr hleave, nofun, fun _ hne => absurd hp hne, ?_,
    fun _ _ _ => hleave⟩
  · exact hprinted
  · rw [hproc]
    exact h.defined
  · rw [hproc]
    exact h.joined
  · intro x
    cases x with
    -- nothing is promised about the lines of `b`
    | b => exact h.nonzero .b
    | a =>
      have hzero := h.nonzero .a
      simp only [Stream.bytes, List.mem_append, not_or] at hzero
      simp only [Stream.bytes, hleave, List.mem_append, not_or]
      exact ⟨hzero.1, by decide⟩
  · intro _ _ rest hrest
    change rest ∈ s.pending .a at hrest
    rw [hp] at hrest
    cases hrest

/-- SIGPIPE kills a side only after the other one is gone. -/
theorem sound_kill (h : s.Sound) (hx : ¬ (s.proc x.other).Chatting) :
    ((s.setPending x none).setProc x ((s.proc x).ended .killed)).Sound := by
  have hleaving : s.leaving = true := by
    rw [← Bool.not_eq_false]
    exact fun hl => hx (h.up hl _)
  have hgone : ¬ ((s.proc x).ended .killed).Chatting := fun hc => ProcessStatus.noConfusion hc.1
  refine ⟨⟨?_, not_early hleaving, h.defined_update (by rintro ⟨⟩)⟩,
    h.joined_update fun hc => absurd hc hgone, h.nonzero, h.leave, h.early, ?_, ?_,
    fun _ _ hall => absurd hall (not_all_chatting hgone)⟩
  · simp only [unprinted, hleaving, setProc, setPending, ↓reduceIte, List.append_nil,
      h.printed_text (.inl hleaving)]
  · intro hrun hne
    cases x with
    | a => exact absurd rfl hne
    | b => exact h.unsent hrun hne
  · intro _ hrun rest hrest
    cases x with
    | a => cases hrest
    | b => exact h.quitting hleaving hrun rest hrest

theorem read_text (hc : (s.proc x).Chatting)
    (hq : startsWith (fgets rest).1 (ascii "/quit") = false) :
    s.read x rest = (s.setPending x (fgets rest).2).setStream x
      ⟨(s.stream x).text ++ (fgets rest).1, (s.stream x).leave⟩ := by
  have hproc : (s.proc x).typeLine (fgets rest).1 none false = s.proc x := by
    rw [ChatProcess.typeLine_chat hc.2.1, hq, if_neg Bool.false_ne_true]
  have hsend : (s.stream x).send (fgets rest).1 =
      ⟨(s.stream x).text ++ (fgets rest).1, (s.stream x).leave⟩ := by
    rw [Stream.send, hq, if_neg Bool.false_ne_true]
  simp only [read, if_pos hc, hproc, hsend, setProc, setPending, setStream, Function.update_eq_self]

/-- While nobody leaves, `main` hands on what it reads. -/
theorem sound_read_early (h : s.Sound) (hl : s.leaving = false) (hp : s.pending x = some rest)
    (hc : s.Clean (.read x false)) : (s.read x rest).Sound := by
  obtain ⟨hquit, hzero⟩ := hc hl rest hp
  rw [read_text (h.up hl x) hquit]
  have hzeros : 0 ∉ (⟨(s.stream x).text ++ (fgets rest).1, (s.stream x).leave⟩ : Stream).bytes := by
    have hold := h.nonzero x
    simp only [Stream.bytes, List.mem_append, not_or] at hold ⊢
    exact ⟨⟨hold.1, zero_notMem_fgets⟩, hold.2⟩
  have hbytes := h.nonzero_update (z := x) hzeros
  -- only the stream of `a` counts for what is printed
  cases x with
  | b =>
    exact ⟨⟨h.printed, h.up, h.defined⟩, h.joined, hbytes, h.leave, h.early, h.unsent, h.quitting,
      h.sent⟩
  | a =>
    refine ⟨⟨?_, h.up, h.defined⟩, h.joined, hbytes, .inl (h.early hl), h.early,
      fun _ _ => h.early hl,
      fun hlate => not_early hlate hl, fun hlate => not_early hlate hl⟩
    have hprinted := h.printed
    simp only [unprinted, hl, hp, Bool.false_eq_true, ↓reduceIte, Option.getD_some] at hprinted
    have hsplit := fgets_split_iff.mpr (hzero rfl)
    change s.printed.flatten ++ ((s.stream .a).text ++ (fgets rest).1 ++
      if s.leaving then [] else (fgets rest).2.getD []) = s.typed.flatten
    rw [hl, if_neg Bool.false_ne_true, List.append_assoc, hsplit, hprinted]

/-- The `/quit` that `a` typed: `main` sends `LEAVE` if the conversation is still on, and exits. -/
theorem sound_read_quit (h : s.Sound) (hl : s.leaving = true) (hrun : (s.proc .a).status = .running)
    (hp : s.pending .a = some rest) : (s.read .a rest).Sound := by
  have hprinted := h.printed_text (.inl hl)
  have hquit := startsWith_fgets (h.quitting hl hrun rest hp)
  have hproc : (s.proc .a).typeLine (fgets rest).1 none false =
      (s.proc .a).ended (.exited exitSuccess) :=
    ChatProcess.typeLine_quit hquit
  have hgone : ¬ ((s.proc .a).ended (.exited exitSuccess)).Chatting :=
    fun hc => ProcessStatus.noConfusion hc.1
  have hdefined := h.defined_update (x := .a) (c := (s.proc .a).ended (.exited exitSuccess))
    (by rintro ⟨⟩)
  have hjoined := h.joined_update (x := .a) fun hc => absurd hc hgone
  have hsome := not_all_chatting (s := s) (x := .a) hgone
  -- no `LEAVE` is in flight before this one
  have hsend : (s.stream .a).send (fgets rest).1 = ⟨(s.stream .a).text, ascii "LEAVE"⟩ := by
    rw [Stream.send, if_pos hquit, h.unsent hrun (by rw [hp]; exact Option.some_ne_none rest),
      List.nil_append]
  unfold read
  simp only [hproc, hsend]
  split_ifs with hc
  · refine ⟨⟨?_, not_early hl, hdefined⟩, hjoined, h.nonzero_update ?_, .inr rfl, not_early hl,
      nofun, nofun, fun _ _ hall => absurd hall hsome⟩
    · simp only [unprinted, setStream, setProc, setPending, hl, ↓reduceIte, Function.update_self,
        List.append_nil, hprinted]
    · have hold := h.nonzero .a
      simp only [Stream.bytes, List.mem_append, not_or] at hold ⊢
      exact ⟨hold.1, by decide⟩
  · refine ⟨⟨?_, not_early hl, hdefined⟩, hjoined, h.nonzero, h.leave, not_early hl, nofun, nofun,
      fun _ _ hall => absurd hall hsome⟩
    simp only [unprinted, setProc, setPending, hl, ↓reduceIte, List.append_nil, hprinted]

/-- A line that `b` types after the leave; it may begin with `/quit` in the middle, and `b` may be
out of the conversation already. -/
theorem sound_read_left (h : s.Sound) (hl : s.leaving = true) : (s.read .b rest).Sound := by
  have hdefined : ((s.proc .b).typeLine (fgets rest).1 none false).status ≠ .undefined := by
    by_cases hc : (s.proc .b).Chatting
    · rw [ChatProcess.typeLine_chat hc.2.1]
      split_ifs
      · rintro ⟨⟩
      · exact h.defined .b
    · exact (ChatProcess.typeLine_quiet hc (h.defined .b)).2
  have hsame : ((s.proc .b).typeLine (fgets rest).1 none false).Chatting →
      (s.proc .b).typeLine (fgets rest).1 none false = s.proc .b ∧ (s.proc .b).Chatting := by
    intro hchat
    by_cases hc : (s.proc .b).Chatting
    · rw [ChatProcess.typeLine_chat hc.2.1] at hchat ⊢
      split_ifs at hchat ⊢
      · exact ProcessStatus.noConfusion hchat.1
      · exact ⟨rfl, hc⟩
    · exact absurd hchat (ChatProcess.typeLine_quiet hc (h.defined .b)).1
  have hjoined := h.joined_update (x := .b) fun hc => by
    obtain ⟨heq, hb⟩ := hsame hc
    rw [heq]
    exact h.joined .b hb
  have hsent : (∀ y, (Function.update s.proc .b
      ((s.proc .b).typeLine (fgets rest).1 none false) y).Chatting) → ∀ y, (s.proc y).Chatting := by
    rintro hall (_ | _)
    · exact hall .a
    · exact (hsame (hall .b)).2
  unfold read
  dsimp only
  split_ifs with hc
  · exact ⟨⟨h.printed, not_early hl, h.defined_update hdefined⟩, hjoined,
      h.nonzero_update (Stream.zero_notMem_send (h.nonzero .b) zero_notMem_fgets), h.leave,
      not_early hl, h.unsent, h.quitting, fun hl' hp' hall => h.sent hl' hp' (hsent hall)⟩
  · exact ⟨⟨h.printed, not_early hl, h.defined_update hdefined⟩, hjoined, h.nonzero, h.leave,
      not_early hl, h.unsent, h.quitting, fun hl' hp' hall => h.sent hl' hp' (hsent hall)⟩

/-- After the leave a side may close at any time, as long as `b` leaves no text behind. -/
theorem sound_close (h : s.Sound) (hl : s.leaving = true) {c : ChatProcess} {q : Stream}
    (hc : ¬ c.Chatting) (hstatus : c.status = (s.proc x).status) (hzero : 0 ∉ q.bytes)
    (hq : x = .b → q.text = (s.stream .a).text ∧ (q.leave = [] ∨ q.leave = (s.stream .a).leave)) :
    ((s.setStream x.other q).setProc x c).Sound := by
  have hdefined := h.defined_update (x := x) (c := c) (by rw [hstatus]; exact h.defined x)
  have hjoined := h.joined_update (x := x) fun hch => absurd hch hc
  have hbytes := h.nonzero_update (z := x.other) hzero
  have hsome := not_all_chatting (s := s) (x := x) hc
  cases x with
  | a =>
    refine ⟨⟨h.printed, not_early hl, hdefined⟩, hjoined, hbytes, h.leave, not_early hl,
      fun hrun => ?_, fun _ hrun => ?_, fun _ _ hall => absurd hall hsome⟩
    · exact h.unsent (hstatus.symm.trans hrun)
    · exact h.quitting hl (hstatus.symm.trans hrun)
  | b =>
    obtain ⟨htext, hleave⟩ := hq rfl
    refine ⟨⟨?_, not_early hl, hdefined⟩, hjoined, hbytes, ?_, not_early hl,
      fun hrun hp => ?_, h.quitting, fun _ _ hall => absurd hall hsome⟩
    · change s.printed.flatten ++ (q.text ++ if s.leaving then [] else (s.pending .a).getD []) =
        s.typed.flatten
      rw [hl, if_pos rfl, List.append_nil, htext, h.printed_text (.inl hl)]
    · change q.leave = [] ∨ q.leave = ascii "LEAVE"
      rcases hleave with hnil | hold
      · exact .inl hnil
      · rw [hold]
        exact h.leave
    · change q.leave = []
      rcases hleave with hnil | hold
      · exact hnil
      · rw [hold]
        exact h.unsent hrun hp

/-- A message of `b` for `a`, or one of `a` that `b` prints. -/
theorem sound_message (h : s.Sound) (hcan : s.CanRecv x data)
    (hr : (s.proc x).receivers[0]? = some r)
    (hmessage : ¬ (data = [] ∨ startsWith data (ascii "LEAVE") = true))
    (hfull : data.length < bufferSize) (hb : x = .b → data.length ≤ (s.stream .a).text.length) :
    (s.recv x r data).Sound := by
  obtain ⟨hchat, hdata⟩ := hcan
  rw [if_neg fun hnil => hmessage (.inl hnil)] at hdata
  have hproc : (s.proc x).recvPeer 0 r (some data) = s.proc x :=
    (h.joined x hchat).recvPeer hr hmessage
  have hrecv : s.recv x r data =
      (s.setStream x.other ((s.stream x.other).drop data.length)).print x
        (data.takeWhile fun b => b ≠ 0) := by
    have hnot : ¬ (data.length = bufferSize ∧ 0 ∉ data) := fun hbad => absurd hbad.1 (by omega)
    simp only [recv, if_neg hmessage, if_neg hnot, hproc, setProc, setStream,
      Function.update_eq_self]
  have hbytes := h.nonzero_update (z := x.other) (q := (s.stream x.other).drop data.length) (by
    rw [Stream.bytes_drop]
    exact fun hz => h.nonzero _ (List.mem_of_mem_drop hz))
  rw [hrecv]
  cases x with
  | a =>
    exact ⟨⟨h.printed, h.up, h.defined⟩, h.joined, hbytes, h.leave, h.early, h.unsent, h.quitting,
      h.sent⟩
  -- what leaves the stream is printed whole, as it holds no NUL
  | b =>
    have hle := hb rfl
    have hsplit : data ++ (s.stream .a).text.drop data.length = (s.stream .a).text :=
      Stream.prefix_text hdata.1 hle
    have hdrop : (s.stream .a).drop data.length =
        ⟨(s.stream .a).text.drop data.length, (s.stream .a).leave⟩ :=
      Stream.drop_of_le hle
    have htext : data.takeWhile (fun b => b ≠ 0) = data := by
      apply takeWhile_ne_zero
      intro hz
      exact h.nonzero .a (hdata.1.subset hz)
    have hleave : (((s.stream .a).drop data.length)).leave = (s.stream .a).leave := by rw [hdrop]
    refine ⟨⟨?_, h.up, h.defined⟩, h.joined, hbytes, ?_, ?_, ?_, h.quitting, ?_⟩
    · have hprinted := h.printed
      rw [unprinted, ← hsplit, List.append_assoc] at hprinted
      change (s.printed ++ [data.takeWhile fun b => b ≠ 0]).flatten ++
        (((s.stream .a).drop data.length).text ++
          if s.leaving then [] else (s.pending .a).getD []) = s.typed.flatten
      rw [htext, List.flatten_append, List.flatten_singleton, hdrop, List.append_assoc, hprinted]
    · exact hleave ▸ h.leave
    · exact fun hl => hleave.trans (h.early hl)
    · exact fun hrun hp => hleave.trans (h.unsent hrun hp)
    · exact fun hl hp hall => hleave.trans (h.sent hl hp hall)

/-- `recv` of either side in a clean run. -/
theorem sound_recv (h : s.Sound) (hcan : s.CanRecv x data) (hr : (s.proc x).receivers[0]? = some r)
    (hc : s.Clean (.recv x data)) : (s.recv x r data).Sound := by
  by_cases hmessage : data = [] ∨ startsWith data (ascii "LEAVE") = true
  · obtain ⟨hgone, hstatus⟩ := ChatProcess.recvPeer_leave (c := s.proc x) (r := r) hmessage
    have hrecv : s.recv x r data =
        (s.setStream x.other ((s.stream x.other).drop data.length)).setProc x
        ((s.proc x).recvPeer 0 r (some data)) := if_pos hmessage
    have hzero : 0 ∉ ((s.stream x.other).drop data.length).bytes := by
      rw [Stream.bytes_drop]
      exact fun hz => h.nonzero _ (List.mem_of_mem_drop hz)
    rw [hrecv]
    by_cases hnil : data = []
    · -- the end of the stream: the other side is gone, so `a` has left
      have hend := hcan.2
      rw [if_pos hnil] at hend
      have hl : s.leaving = true := by
        rw [← Bool.not_eq_false]
        exact fun hl => hend.2 (h.up hl _)
      refine sound_close h hl hgone hstatus hzero fun hx => ?_
      subst hx hnil
      have hdrop : (s.stream .a).drop 0 = s.stream .a := Stream.drop_of_le (Nat.zero_le _)
      change ((s.stream .a).drop 0).text = _ ∧ (_ ∨ ((s.stream .a).drop 0).leave = _)
      rw [hdrop]
      exact ⟨rfl, .inr rfl⟩
    -- a `LEAVE`: after its own leave at `a`, and whole and by itself at `b`
    · have hleave := hmessage.resolve_left hnil
      cases x with
      | a =>
        simp only [Clean, hleave, ↓reduceIte] at hc
        exact sound_close h hc hgone hstatus hzero nofun
      | b =>
        simp only [Clean, hleave, Bool.true_eq_false, and_false] at hc
        split_ifs at hc
        obtain ⟨htext, rfl⟩ := hc
        have hin : ascii "LEAVE" <+: (s.stream .a).bytes := by
          have hdata := hcan.2
          rw [if_neg hnil] at hdata
          exact hdata.1
        have hl : s.leaving = true := by
          rw [← Bool.not_eq_false]
          intro hl
          rw [Stream.bytes, htext, h.early hl] at hin
          exact absurd (List.prefix_nil.mp hin) (by decide)
        refine sound_close h hl hgone hstatus hzero fun _ => ⟨?_, .inl ?_⟩
        · change (s.stream .a).text.drop 5 = (s.stream .a).text
          rw [htext]
          rfl
        · change (s.stream .a).leave.drop (5-(s.stream .a).text.length) = []
          rw [htext]
          rcases h.leave with hleave | hleave <;> rw [hleave] <;> rfl
  · obtain ⟨hnil, hleave⟩ := not_or.mp hmessage
    rw [Bool.not_eq_true] at hleave
    cases x with
    | a =>
      simp only [Clean, hleave, Bool.false_eq_true, ↓reduceIte] at hc
      exact sound_message h hcan hr hmessage hc nofun
    | b =>
      simp only [Clean] at hc
      split_ifs at hc with hle
      · exact sound_message h hcan hr hmessage hc.1 fun _ => hle
      · rw [hc.2] at hleave
        exact absurd hleave (by decide)

theorem sound_step {e : TalkEvent} (h : s.Sound) (hc : s.Clean e) (hs : s.step e = some t) :
    t.Sound := by
  cases e with
  | typeLine x line =>
    simp only [step, Option.ite_none_right_eq_some, Option.some.injEq] at hs
    obtain ⟨⟨-, hp, -, -, hl, -⟩, rfl⟩ := hs
    exact sound_typeLine h hp hl
  | read x pipe =>
    obtain ⟨rest, hp, hs⟩ := Option.bind_eq_some_iff.mp hs
    simp only [Option.ite_none_right_eq_some] at hs
    obtain ⟨hrun, hs⟩ := hs
    cases pipe with
    | true =>
      simp only [↓reduceIte, Option.ite_none_right_eq_some, Option.some.injEq] at hs
      obtain ⟨⟨-, hx⟩, rfl⟩ := hs
      exact sound_kill h hx
    | false =>
      cases hs
      cases hl : s.leaving with
      | false => exact sound_read_early h hl hp hc
      | true =>
        cases x with
        | a => exact sound_read_quit h hl hrun hp
        | b => exact sound_read_left h hl
  | sigint =>
    simp only [step, Option.ite_none_right_eq_some, Option.some.injEq] at hs
    obtain ⟨⟨ha, hp, hl⟩, rfl⟩ := hs
    exact sound_interrupt h ha hp hl
  | recv x data =>
    obtain ⟨r, hr, hs⟩ := Option.bind_eq_some_iff.mp hs
    simp only [Option.ite_none_right_eq_some, Option.some.injEq] at hs
    obtain ⟨hcan, rfl⟩ := hs
    exact sound_recv h hcan hr hc

/-- What goes on while nobody leaves was read in clean pieces. -/
theorem clean_of_read (h : s.Sound) (hp : s.pending x = some rest) (hf : (s.read x rest).Faithful) :
    s.Clean (.read x false) := by
  intro hl rest' hrest
  obtain rfl : rest = rest' := Option.some.inj (hp.symm.trans hrest)
  have hchat := h.up hl x
  have hquit : startsWith (fgets rest).1 (ascii "/quit") = false := by
    rw [Bool.eq_false_iff]
    intro hquit
    have hproc : (s.read x rest).proc x = (s.proc x).ended (.exited exitSuccess) := by
      simp only [read, if_pos hchat, setStream, setProc, Function.update_self]
      exact ChatProcess.typeLine_quit hquit
    have hleaving : (s.read x rest).leaving = false := by
      simp only [read, if_pos hchat]
      exact hl
    have hup := hf.up hleaving x
    rw [hproc] at hup
    exact ProcessStatus.noConfusion hup.1
  refine ⟨hquit, fun hx => ?_⟩
  subst hx
  -- what `fgets` lost behind a NUL would be missing in the balance
  have hafter := hf.printed
  rw [read_text hchat hquit] at hafter
  have hsame := List.append_cancel_left (hafter.trans h.printed.symm)
  change (s.stream .a).text ++ (fgets rest).1 ++
    (if s.leaving then [] else (fgets rest).2.getD []) =
    (s.stream .a).text ++ if s.leaving then [] else (s.pending .a).getD [] at hsame
  rw [hl, if_neg Bool.false_ne_true, if_neg Bool.false_ne_true, hp, List.append_assoc] at hsame
  exact fgets_split_iff.mp (List.append_cancel_left hsame)

/-- What `b` has printed and will print is as long as what was typed. -/
theorem Faithful.length (h : s.Faithful) :
    s.printed.flatten.length+s.unprinted.length = s.typed.flatten.length := by
  rw [← h.printed, List.length_append]

/-- A full buffer is printed beyond its end, as no text holds a NUL. -/
theorem recv_full (h : s.Sound) (hcan : s.CanRecv x data)
    (hmessage : ¬ (data = [] ∨ startsWith data (ascii "LEAVE") = true))
    (hfull : ¬ data.length < bufferSize) :
    ((s.recv x r data).proc x).status = .undefined := by
  have hdata := hcan.2
  rw [if_neg fun hnil => hmessage (.inl hnil)] at hdata
  have hzero : 0 ∉ data := fun hz => h.nonzero _ (hdata.1.subset hz)
  have hlen : data.length = bufferSize := Nat.le_antisymm hdata.2 (not_lt.mp hfull)
  simp only [recv, if_neg hmessage, if_pos (And.intro hlen hzero), setProc, Function.update_self]
  rfl

/-- What `b` makes of the stream of `a` keeps the balance only in clean pieces. -/
theorem clean_of_recv_b (h : s.Sound) (hcan : s.CanRecv .b data)
    (hf : (s.recv .b r data).Faithful) :
    s.Clean (.recv .b data) := by
  by_cases hnil : data = []
  · subst hnil
    exact ⟨by decide, rfl⟩
  have hpos := List.length_pos_iff.mpr hnil
  have hdata := hcan.2
  rw [if_neg hnil] at hdata
  have hpre : data <+: (s.stream .a).text ++ (s.stream .a).leave := hdata.1
  have hbefore := h.toFaithful.length
  have hafter := hf.length
  simp only [unprinted, List.length_append] at hbefore hafter
  by_cases hleave : startsWith data (ascii "LEAVE") = true
  · -- nothing is printed, so no text may be lost
    have hrecv : s.recv .b r data = (s.setStream .a ((s.stream .a).drop data.length)).setProc .b
        ((s.proc .b).recvPeer 0 r (some data)) := if_pos (.inr hleave)
    rw [hrecv] at hafter
    change s.printed.flatten.length+(((s.stream .a).text.drop data.length).length+
      (if s.leaving then [] else (s.pending .a).getD []).length) = s.typed.flatten.length at hafter
    rw [List.length_drop] at hafter
    have htext : (s.stream .a).text = [] := by
      rw [← List.length_eq_zero_iff]
      omega
    have hwhole : data = ascii "LEAVE" := by
      rw [htext, List.nil_append] at hpre
      unfold startsWith at hleave
      rw [List.isPrefixOf_iff_prefix] at hleave
      rcases h.leave with hno | hyes
      · rw [hno] at hpre
        exact absurd (List.prefix_nil.mp hpre) hnil
      · rw [hyes] at hpre
        exact hpre.eq_of_length (Nat.le_antisymm hpre.length_le hleave.length_le)
    have hlong : ¬ data.length ≤ (s.stream .a).text.length := by
      rw [htext, List.length_nil]
      omega
    simp only [Clean, if_neg hlong]
    exact ⟨htext, hwhole⟩
  · have hmessage : ¬ (data = [] ∨ startsWith data (ascii "LEAVE") = true) :=
      not_or.mpr ⟨hnil, hleave⟩
    have hfull : data.length < bufferSize := by
      by_contra hfull
      exact hf.defined .b (recv_full h hcan hmessage hfull)
    -- the data is printed, so it is all text
    have hle : data.length ≤ (s.stream .a).text.length := by
      have hnot : ¬ (data.length = bufferSize ∧ 0 ∉ data) := fun hbad => absurd hbad.1 (by omega)
      have hrecv : s.recv .b r data = ((s.setStream .a ((s.stream .a).drop data.length)).setProc .b
          ((s.proc .b).recvPeer 0 r (some data))).print .b (data.takeWhile fun b => b ≠ 0) := by
        simp only [recv, if_neg hmessage, if_neg hnot]
        rfl
      have htext : data.takeWhile (fun b => b ≠ 0) = data := by
        apply takeWhile_ne_zero
        intro hz
        exact h.nonzero .a (hpre.subset hz)
      rw [hrecv, htext] at hafter
      change (s.printed ++ [data]).flatten.length+(((s.stream .a).text.drop data.length).length+
        (if s.leaving then [] else (s.pending .a).getD []).length) =
        s.typed.flatten.length at hafter
      rw [List.flatten_append, List.flatten_singleton, List.length_append,
        List.length_drop] at hafter
      omega
    simp only [Clean, if_pos hle]
    exact ⟨hfull, Bool.eq_false_iff.mpr hleave⟩

theorem clean_of_recv_a (h : s.Sound) (hcan : s.CanRecv .a data)
    (hf : (s.recv .a r data).Faithful) :
    s.Clean (.recv .a data) := by
  by_cases hleave : startsWith data (ascii "LEAVE") = true
  · simp only [Clean, if_pos hleave]
    have hrecv : s.recv .a r data = (s.setStream .b ((s.stream .b).drop data.length)).setProc .a
        ((s.proc .a).recvPeer 0 r (some data)) := if_pos (.inr hleave)
    rw [hrecv] at hf
    rw [← Bool.not_eq_false]
    intro hl
    exact (ChatProcess.recvPeer_leave (.inr hleave)).1 (hf.up hl .a)
  · simp only [Clean, if_neg hleave]
    by_cases hnil : data = []
    · rw [hnil]
      decide
    · by_contra hfull
      exact hf.defined .a (recv_full h hcan (not_or.mpr ⟨hnil, hleave⟩) hfull)

theorem clean_of_faithful {e : TalkEvent} (h : s.Sound) (hs : s.step e = some t) (hf : t.Faithful) :
    s.Clean e := by
  cases e with
  | typeLine x line | sigint => trivial
  | read x pipe =>
    obtain ⟨rest, hp, hs⟩ := Option.bind_eq_some_iff.mp hs
    simp only [Option.ite_none_right_eq_some] at hs
    cases pipe with
    | true => trivial
    | false =>
      cases hs.2
      exact clean_of_read h hp hf
  | recv x data =>
    obtain ⟨r, hr, hs⟩ := Option.bind_eq_some_iff.mp hs
    simp only [Option.ite_none_right_eq_some, Option.some.injEq] at hs
    obtain ⟨hcan, rfl⟩ := hs
    cases x with
    | a => exact clean_of_recv_a h hcan hf
    | b => exact clean_of_recv_b h hcan hf

/-- When nothing can be read, who is still in the conversation has read everything of another
who is too. -/
theorem Settled.chatting (hset : s.Settled) (h : s.Sound) (hx : (s.proc x).Chatting) :
    (s.stream x.other).bytes = [] ∧ (s.proc x.other).Chatting := by
  obtain ⟨-, n, k, hone, -⟩ := h.joined x hx
  have hno (data : Bytes) : ¬ s.CanRecv x data := by
    intro hcan
    have hstep := hset.2 x data
    simp only [step, hone, List.getElem?_cons_zero, Option.bind_some, if_pos hcan] at hstep
    cases hstep
  have hempty : (s.stream x.other).bytes = [] := by
    by_contra hne
    obtain ⟨b, bs, hb⟩ := List.exists_cons_of_ne_nil hne
    -- the first byte of what is left could be received
    apply hno [b]
    refine ⟨hx, ?_⟩
    rw [if_neg (List.cons_ne_nil _ _), hb]
    exact ⟨⟨bs, rfl⟩, Nat.le_add_left 1 1023⟩
  refine ⟨hempty, ?_⟩
  by_contra hgone
  -- the end of the stream could be received
  apply hno []
  exact ⟨hx, by rw [if_pos rfl]; exact ⟨hempty, hgone⟩⟩

theorem Sound.delivers (h : s.Sound) : s.Delivers := by
  refine ⟨fun hp hempty => ?_, fun hl => h.up hl .b, fun hl hset x hx => ?_⟩
  · have hprinted := h.printed
    rw [unprinted, (List.append_eq_nil_iff.mp hempty).1, hp] at hprinted
    simpa using hprinted
  · -- both are in the conversation, so the `LEAVE` of `a` is still in flight
    obtain ⟨-, hother⟩ := hset.chatting h hx
    have hall : ∀ y, (s.proc y).Chatting := by
      cases x with
      | a => exact fun y => match y with
        | .a => hx
        | .b => hother
      | b => exact fun y => match y with
        | .a => hother
        | .b => hx
    have hsent := h.sent hl hset.1 hall
    have hempty : (s.stream .a).bytes = [] := (hset.chatting h (hall .b)).1
    rw [Stream.bytes, hsent] at hempty
    exact absurd (List.append_eq_nil_iff.mp hempty).2 (by decide)

theorem sound_of_reachable {a b : ChatProcess} (ha : a.Joined) (hb : b.Joined)
    (h : Reachable step Clean (start a b) s) : s.Sound := by
  refine h.invariant (P := fun s => s.Sound) (sound_start ha hb) ?_
  intro s e t hs hc hstep
  exact sound_step hs hc hstep

end Talk

/-- In a run of clean steps a conversation delivers what it promises. From a state of such a
run, a step goes wrong exactly when it is not clean. -/
theorem chat_fidelity {a b : ChatProcess} (ha : a.Joined) (hb : b.Joined) :
    (∀ s, Reachable Talk.step Talk.Clean (.start a b) s → s.Delivers) ∧
    ∀ s e t, Reachable Talk.step Talk.Clean (.start a b) s → s.step e = some t →
      (t.Faithful ↔ s.Clean e) := by
  constructor
  · intro s hs
    exact (Talk.sound_of_reachable ha hb hs).delivers
  · intro s e t hs hstep
    have hsound := Talk.sound_of_reachable ha hb hs
    exact ⟨Talk.clean_of_faithful hsound hstep,
      fun hc => (Talk.sound_step hsound hc hstep).toFaithful⟩

/-- A client in a conversation with `peerId` on socket 3. -/
def talker (peerId : Bytes) : ChatProcess := ChatProcess.start.install 3 peerId

theorem joined_talker (peerId : Bytes) : (talker peerId).Joined :=
  ⟨⟨rfl, rfl, 3, List.mem_cons_self, rfl⟩, 0, 3, rfl, rfl⟩

set_option maxRecDepth 4096 in
/-- The `LEAVE` of a Ctrl+C is received together with the line before it: it is printed, and
both stay in the conversation. A line that begins with `LEAVE` ends it. -/
theorem merged_leave_is_printed :
    (∃ s, Reachable Talk.step anyStep (.start (talker (ascii "bob")) (talker (ascii "alice"))) s ∧
      s.typed = [ascii "hi"] ∧ s.printed = [ascii "hiLEAVE"] ∧ s.leaving = true ∧
      (s.proc .a).Chatting ∧ (s.proc .b).Chatting ∧ ¬ s.Delivers) ∧
    ∃ s, Reachable Talk.step anyStep (.start (talker (ascii "bob")) (talker (ascii "alice"))) s ∧
      s.typed = [ascii "LEAVE it"] ∧ s.leaving = false ∧ ¬ (s.proc .b).Chatting ∧ ¬ s.Delivers := by
  constructor
  · have hrun : ∃ s, Reachable Talk.step anyStep
        (.start (talker (ascii "bob")) (talker (ascii "alice"))) s ∧
        s.typed = [ascii "hi"] ∧ s.printed = [ascii "hiLEAVE"] ∧ s.leaving = true ∧
        (s.proc .a).Chatting ∧ (s.proc .b).Chatting ∧ s.pending .a = none ∧
        (s.stream .a).bytes = [] := by
      refine exists_reachable_of_replayIf [.typeLine .a (ascii "hi"), .read .a false, .sigint,
        .recv .b (ascii "hiLEAVE")] _ ?_
      decide
    obtain ⟨s, hs, htyped, hprinted, hl, ha, hb, hp, hempty⟩ := hrun
    refine ⟨s, hs, htyped, hprinted, hl, ha, hb, fun h => ?_⟩
    have hsame := h.printed hp hempty
    rw [htyped, hprinted] at hsame
    exact absurd hsame (by decide)
  · have hrun : ∃ s, Reachable Talk.step anyStep
        (.start (talker (ascii "bob")) (talker (ascii "alice"))) s ∧
        s.typed = [ascii "LEAVE it"] ∧ s.leaving = false ∧ ¬ (s.proc .b).Chatting := by
      refine exists_reachable_of_replayIf [.typeLine .a (ascii "LEAVE it"), .read .a false,
        .recv .b (ascii "LEAVE it")] _ ?_
      decide
    obtain ⟨s, hs, htyped, hl, hb⟩ := hrun
    exact ⟨s, hs, htyped, hl, hb, fun h => hb (h.stays hl)⟩

set_option maxRecDepth 4096 in
/-- A line and a Ctrl+C, received one by one. -/
theorem chat_fidelity_hi :
    (∃ s, Reachable Talk.step Talk.Clean
        (.start (talker (ascii "bob")) (talker (ascii "alice"))) s ∧
      s.printed = [ascii "hi"] ∧ ¬ (s.proc .b).Chatting ∧ s.Delivers) ∧
    ∃ s t : Talk, s.step (.recv .b (ascii "hi")) = some t ∧
    (t.Faithful ↔ s.Clean (.recv .b (ascii "hi"))) := by
  have htheorem := chat_fidelity (joined_talker (ascii "bob")) (joined_talker (ascii "alice"))
  constructor
  · have hrun : ∃ s, Reachable Talk.step Talk.Clean
        (.start (talker (ascii "bob")) (talker (ascii "alice"))) s ∧
        s.printed = [ascii "hi"] ∧ ¬ (s.proc .b).Chatting := by
      refine exists_reachable_of_replayIf [.typeLine .a (ascii "hi"), .read .a false,
        .recv .b (ascii "hi"), .sigint, .recv .b (ascii "LEAVE"), .recv .a []] _ ?_
      decide
    obtain ⟨s, hs, hprinted, hb⟩ := hrun
    exact ⟨s, hs, hprinted, hb, htheorem.1 s hs⟩
  · have hrun : ∃ s, Reachable Talk.step Talk.Clean
        (.start (talker (ascii "bob")) (talker (ascii "alice"))) s ∧
        (s.step (.recv .b (ascii "hi"))).isSome = true := by
      refine exists_reachable_of_replayIf [.typeLine .a (ascii "hi"), .read .a false] _ ?_
      decide
    obtain ⟨s, hs, hsome⟩ := hrun
    obtain ⟨t, ht⟩ := Option.isSome_iff_exists.mp hsome
    exact ⟨s, t, ht, htheorem.2 s _ t hs ht⟩

end NetTools.IRC
