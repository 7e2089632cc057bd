import NetTools.FTPServer
import NetTools.TFTPCodec
import NetTools.Segmentation

namespace NetTools.FTP

open CText Segmentation
open TFTP (IsFilename scanWidth scanRequest)

/-- `snprintf(buffer, BUFFER_SIZE, "CHECK %s", filename)`. -/
def checkRequest (filename : Bytes) : Bytes := (ascii "CHECK " ++ filename).take (bufferSize-1)

/-- `snprintf(request, BUFFER_SIZE, "GET %s %zu %zu", ...)`. -/
def getRequest (filename : Bytes) (offset size : ℕ) : Bytes :=
  (ascii "GET " ++ filename ++ ascii " " ++ decimal offset ++ ascii " " ++ decimal size).take
    (bufferSize-1)

namespace Command

def filename : Command → Bytes
  | check filename => filename
  | get filename _ _ => filename

/-- The bytes that the client writes. -/
def request : Command → Bytes
  | check filename => checkRequest filename
  | get filename offset size => getRequest filename offset size

/-- What the client asks for: a name out of `argv`, and chunks of the planning loop. -/
def Sendable : Command → Prop
  | check filename => (0 : Byte) ∉ filename
  | get filename offset size =>
    (0 : Byte) ∉ filename ∧ offset < 2^64 ∧ 0 < size ∧ size < 2^64

end Command

/-- `snprintf(buffer, BUFFER_SIZE, "OK %zu", file_size)`. -/
def okReply (fileSize : ℕ) : Bytes := ascii "OK " ++ decimal fileSize

/-- `sscanf(buffer, "OK %zu", &file_size)`. -/
def scanOk (buffer : Bytes) : Option ℕ :=
  if startsWith buffer (ascii "OK") then (scanSize (buffer.drop 2)).map Prod.fst else none

/-- `file_size` in the client's `main` after its one `read` into the zeroed buffer; when no number
is stored it is what the stack held. -/
def fileSizeOf (received : Option Bytes) (stack : ℕ) : ℕ :=
  (scanOk ((received.getD []).takeWhile fun b => b ≠ 0)).getD stack

theorem scanRequest_command {text : Bytes} {request : TFTP.Request}
    (h : scanRequest text = some request) :
    (scanWidth 9 text).map Prod.fst = some request.command := by
  obtain ⟨⟨command, rest⟩, hc, h⟩ := Option.bind_eq_some_iff.mp h
  obtain ⟨⟨filename, rest'⟩, -, h⟩ := Option.bind_eq_some_iff.mp h
  cases h
  rw [hc, Option.map_some]

theorem parse_check_iff {text stale filename : Bytes} :
    parse text stale = .accepted (.check filename) ↔
      ∃ request, scanRequest text = some request ∧ request.command = ascii "CHECK" ∧
        request.filename = filename := by
  constructor
  · intro h
    simp only [parse] at h
    split_ifs at h with hcheck
    · cases hscan : scanRequest text with
      | none =>
        rw [hscan] at h
        cases h
      | some request =>
        rw [hscan] at h
        cases h
        rw [scanRequest_command hscan] at hcheck
        exact ⟨request, rfl, hcheck, rfl⟩
    · split at h
      · split_ifs at h
        cases h
      · cases h
  · rintro ⟨request, hscan, hcommand, rfl⟩
    simp only [parse, scanRequest_command hscan, Option.getD_some, hcommand, ↓reduceIte, hscan]

theorem parse_get_iff {text stale filename : Bytes} {offset size : ℕ} :
    parse text stale = .accepted (.get filename offset size) ↔
      scanRequest text = some ⟨ascii "GET", filename, some offset, some size⟩ ∧ 0 < size := by
  constructor
  · intro h
    simp only [parse] at h
    split_ifs at h with hcheck hget
    · split at h <;> cases h
    · split at h
      · rename_i command filename offset size hscan
        split_ifs at h with hzero
        cases h
        rw [scanRequest_command hscan] at hget
        cases hget
        exact ⟨hscan, Nat.lt_of_not_le hzero⟩
      · cases h
  · rintro ⟨hscan, hsize⟩
    have hne : ascii "GET" ≠ ascii "CHECK" := by decide
    simp only [parse, scanRequest_command hscan, Option.getD_some, if_neg hne, ↓reduceIte, hscan,
      if_neg (Nat.not_le.mpr hsize)]

theorem checkRequest_eq {filename : Bytes} (h : filename.length ≤ 255) :
    checkRequest filename = ascii "CHECK" ++ 32 :: filename := by
  have hw : (ascii "CHECK ").length = 6 := rfl
  have hb : bufferSize = 1048576 := rfl
  apply List.take_of_length_le
  rw [List.length_append, hw, hb]
  omega

theorem getRequest_eq {filename : Bytes} (h : filename.length ≤ 255) {offset size : ℕ}
    (ho : offset < 2^64) (hs : size < 2^64) :
    getRequest filename offset size =
      ascii "GET" ++ 32 :: (filename ++ 32 :: (decimal offset ++ 32 :: decimal size)) := by
  have hlen := (TFTP.getText_length_le h ho hs).trans (by decide : 301 ≤ bufferSize-1)
  rw [getRequest, List.take_of_length_le hlen]
  simp only [List.append_assoc]
  rfl

theorem zero_notMem_request {command : Command} (h : command.Sendable) :
    (0 : Byte) ∉ command.request := by
  intro hm
  cases command with
  | check filename => exact TFTP.zero_notMem_checkText h (List.mem_of_mem_take hm)
  | get filename offset size =>
    exact TFTP.zero_notMem_getText h.1 offset size (List.mem_of_mem_take hm)

/-- The server acts on a whole request of a good filename as it was sent. -/
theorem parse_request {command : Command} (h : command.Sendable) (hf : IsFilename command.filename)
    (stale : Bytes) : parse command.request stale = .accepted command := by
  cases command with
  | check filename =>
    apply parse_check_iff.mpr
    refine ⟨⟨ascii "CHECK", filename, none, none⟩, ?_, rfl, rfl⟩
    exact (congrArg scanRequest (checkRequest_eq hf.length)).trans (TFTP.scanRequest_check hf)
  | get filename offset size =>
    obtain ⟨-, ho, hpos, hs⟩ := h
    apply parse_get_iff.mpr
    refine ⟨?_, hpos⟩
    exact (congrArg scanRequest (getRequest_eq hf.length ho hs)).trans (TFTP.scanRequest_get hf ho hs)

theorem scanRequest_of_accepted {text stale : Bytes} {command : Command}
    (h : parse text stale = .accepted command) :
    ∃ request, scanRequest text = some request ∧ request.filename = command.filename := by
  cases command with
  | check filename =>
    obtain ⟨request, hscan, -, hname⟩ := parse_check_iff.mp h
    exact ⟨request, hscan, hname⟩
  | get filename offset size => exact ⟨_, (parse_get_iff.mp h).1, rfl⟩

theorem isFilename_of_accepted {text stale : Bytes} {command : Command}
    (h : parse text stale = .accepted command) : IsFilename command.filename := by
  obtain ⟨request, hscan, hname⟩ := scanRequest_of_accepted h
  exact hname ▸ TFTP.scanRequest_filename hscan

/-- The text behind the command word. -/
theorem scanRequest_tail {p q word rest : Bytes} {request : TFTP.Request}
    (hword : word ≠ []) (hlen : word.length ≤ 9) (hsp : ∀ b ∈ word, isSpace b = false)
    (hpq : p ++ q = word ++ 32 :: rest) (h : scanRequest p = some request) :
    ∃ tail tail', tail ++ q = rest ∧ scanWidth 255 tail = some (request.filename, tail') ∧
      request.offset = (scanSize tail').map Prod.fst ∧
      request.chunkSize = ((scanSize tail').bind fun o => scanSize o.2).map Prod.fst := by
  obtain ⟨⟨command, tail⟩, hc, h⟩ := Option.bind_eq_some_iff.mp h
  obtain ⟨⟨filename, tail'⟩, hf, h⟩ := Option.bind_eq_some_iff.mp h
  cases h
  have htail : tail ≠ [] := by
    rintro rfl
    cases hf
  have hwhole := TFTP.scanWidth_append q hc htail
  rw [hpq, TFTP.scanWidth_word_space rest hword hlen hsp] at hwhole
  obtain ⟨-, hrest⟩ := Prod.mk.inj (Option.some.inj hwhole)
  obtain ⟨b, bs, rfl⟩ := List.exists_cons_of_ne_nil htail
  obtain ⟨rfl, htext⟩ := List.cons.inj hrest
  refine ⟨bs, tail', htext.symm, ?_, rfl, rfl⟩
  rwa [← TFTP.scanWidth_space]

/-- A beginning of a word reads as itself. -/
theorem scanWidth_prefix_word {p q filename : Bytes} (hf : IsFilename filename)
    (hpq : p ++ q = filename) (hp : p ≠ []) : scanWidth 255 p = some (p, []) := by
  have hlen := hf.length
  rw [← hpq, List.length_append] at hlen
  have hword : scanWidth 255 (p ++ []) = some (p, []) :=
    TFTP.scanWidth_word hp (by omega) (fun b hb => hf.noSpace b (hpq ▸ List.mem_append_left q hb))
      nofun
  rwa [List.append_nil] at hword

/-- No proper beginning of a printed number behind a blank scans as that number. -/
theorem append_nil_of_scanSize {p q : Bytes} {n : ℕ} (hn : n < 2^64)
    (hpq : p ++ q = 32 :: decimal n) (h : (scanSize p).map Prod.fst = some n) : q = [] := by
  cases p with
  | nil => cases h
  | cons b ds =>
    obtain ⟨rfl, htail⟩ := List.cons.inj hpq
    have hds : ds ++ q = decimal n := htail
    rw [TFTP.scanSize_space] at h
    have hne : ds ≠ [] := by
      rintro rfl
      cases h
    have hdigits : ∀ b ∈ ds, isDigit b = true :=
      fun b hb => decimal_all_digits n b (hds ▸ List.mem_append_left q hb)
    have hle : digitsValue ds ≤ n := by
      have hge := digitsValue_append_ge ds q
      rw [hds, digitsValue_decimal] at hge
      exact (Nat.le_mul_of_pos_right _ (Nat.pos_of_ne_zero (by simp))).trans hge
    have hscan := scanSize_digits hne hdigits [] (by omega) nofun
    rw [List.append_nil] at hscan
    rw [hscan, Option.map_some, Option.some.injEq] at h
    exact append_nil_of_digitsValue hds hne h

/-- No proper beginning of a request is the request that was sent. -/
theorem append_nil_of_accepted {p q stale : Bytes} {command : Command} (hs : command.Sendable)
    (hf : IsFilename command.filename) (hpq : p ++ q = command.request)
    (h : parse p stale = .accepted command) : q = [] := by
  cases command with
  | check filename =>
    obtain ⟨request, hscan, -, rfl⟩ := parse_check_iff.mp h
    obtain ⟨tail, tail', htail, hname, -, -⟩ := scanRequest_tail (by decide) (by decide) (by decide)
      (hpq.trans (checkRequest_eq hf.length)) hscan
    have hne : tail ≠ [] := by
      rintro rfl
      cases hname
    rw [scanWidth_prefix_word hf htail hne] at hname
    obtain ⟨heq, -⟩ := Prod.mk.inj (Option.some.inj hname)
    have hwhole : tail ++ q = tail ++ [] := by
      rw [htail, List.append_nil]
      exact heq.symm
    exact List.append_cancel_left hwhole
  | get filename offset size =>
    obtain ⟨-, ho, hpos, hsize⟩ := hs
    obtain ⟨hscan, -⟩ := parse_get_iff.mp h
    obtain ⟨tail, tail', htail, hname, hoffset, hchunk⟩ := scanRequest_tail (by decide) (by decide)
      (by decide) (hpq.trans (getRequest_eq hf.length ho hsize)) hscan
    -- behind the name the numbers come, each after a blank
    have htail' : tail' ≠ [] := by
      rintro rfl
      cases hoffset
    have hnumbers := TFTP.scanWidth_append q hname htail'
    rw [htail, TFTP.scanWidth_word_space _ hf.nonempty hf.length hf.noSpace] at hnumbers
    obtain ⟨-, hnumbers⟩ := Prod.mk.inj (Option.some.inj hnumbers)
    obtain ⟨⟨o, tail''⟩, hfirst, rfl⟩ := Option.map_eq_some_iff.mp hoffset.symm
    rw [hfirst] at hchunk
    have htail'' : tail'' ≠ [] := by
      rintro rfl
      cases hchunk
    have hsecond : scanSize (tail' ++ q) = some (o, tail'' ++ q) :=
      scanSize_append hfirst (Or.inl htail'')
    rw [← hnumbers, TFTP.scanSize_space, scanSize_decimal ho _ (by rintro b ⟨⟩; rfl)] at hsecond
    obtain ⟨-, hsecond⟩ := Prod.mk.inj (Option.some.inj hsecond)
    exact append_nil_of_scanSize hsize hsecond.symm hchunk.symm

/-- No proper beginning of a reply gives its number. -/
theorem append_nil_of_scanOk {p q : Bytes} {n : ℕ} (hn : n < 2^64) (hpq : p ++ q = okReply n)
    (h : scanOk p = some n) : q = [] := by
  rw [scanOk, Option.ite_none_right_eq_some] at h
  obtain ⟨hok, h⟩ := h
  obtain ⟨number, rfl⟩ := List.isPrefixOf_iff_prefix.mp hok
  apply append_nil_of_scanSize hn _ h
  exact List.append_cancel_left ((List.append_assoc ..).symm.trans hpq)

theorem scanOk_okReply {n : ℕ} (hn : n < 2^64) : scanOk (okReply n) = some n := by
  have hscan := scanSize_decimal hn [] nofun
  rw [List.append_nil, ← TFTP.scanSize_space] at hscan
  change (scanSize (32 :: decimal n)).map Prod.fst = some n
  rw [hscan, Option.map_some]

theorem request_ne_nil (command : Command) : command.request ≠ [] := by
  cases command with
  | check filename => exact nofun
  | get filename offset size =>
    simp only [Command.request, getRequest, List.append_assoc]
    exact nofun

theorem receive_opening_iff {s : Server} (hs : s.place = .receiving) {text : Bytes}
    (htext : text ≠ []) {stale : Bytes} {command : Command} :
    (s.receive (some text) stale).place = .opening command ↔
      parse (text.takeWhile fun b => b ≠ 0) stale = .accepted command := by
  obtain ⟨b, bs, rfl⟩ := List.exists_cons_of_ne_nil htext
  simp only [Server.receive]
  split
  · rename_i c hparse
    rw [hparse, Verdict.accepted.injEq]
    exact Place.opening.injEq c command ▸ Iff.rfl
  · rename_i hparse
    rw [hparse]
    exact iff_of_false nofun nofun
  · rename_i hparse
    rw [hparse]
    change s.place = _ ↔ _
    rw [hs]
    exact iff_of_false nofun nofun

/-- One exchange, by what the first `recv` and the first `read` give: the server acts on exactly
`command`, `file_size` is `n`, and neither side acts on a part of a message. -/
structure Exchanged (s : Server) (command : Command) (stale : Bytes) (n : ℕ)
    (pieces replies : List Bytes) : Prop where
  acts : (s.receive pieces.head? stale).place = .opening command
  obtains : ∀ stack, fileSizeOf replies.head? stack = n
  wholeRequest : ∀ piece ∈ pieces.head?, piece ≠ command.request →
    ∀ c, (s.receive (some piece) stale).place ≠ .opening c
  wholeReply : ∀ piece ∈ replies.head?, piece ≠ okReply n →
    ∀ stack, fileSizeOf (some piece) stack = stack

/-- An exchange goes as it should exactly when the filename is a word of at most 255 bytes and
both messages arrive in one piece. -/
theorem exchanged_iff {s : Server} (hs : s.place = .receiving) {command : Command}
    (hc : command.Sendable) (stale : Bytes) {n : ℕ} (hn : n < 2^64) {pieces replies : List Bytes}
    (hq : Segments [command.request] pieces) (hr : Segments [okReply n] replies) :
    Exchanged s command stale n pieces replies ↔
      IsFilename command.filename ∧ pieces = [command.request] ∧ replies = [okReply n] := by
  obtain ⟨piece, rest, rfl⟩ := hq.exists_cons (request_ne_nil command)
  obtain ⟨reply, more, rfl⟩ := hr.exists_cons (by exact nofun)
  have hpiece := hq.head_append
  have hreply := hr.head_append
  -- no NUL byte cuts what is received
  have hcut {p q text : Bytes} (hpq : p ++ q = text) (h0 : (0 : Byte) ∉ text) :
      p.takeWhile (fun b => b ≠ 0) = p :=
    takeWhile_ne_zero fun hp => h0 (hpq ▸ List.mem_append_left q hp)
  have hzero : (0 : Byte) ∉ okReply n := by
    intro hm
    rcases List.mem_append.mp hm with hw | hd
    · revert hw
      decide
    · exact zero_notMem_decimal n hd
  have hsize (stack : ℕ) : fileSizeOf (some reply) stack = (scanOk reply).getD stack := by
    rw [fileSizeOf, Option.getD_some, hcut hreply hzero]
  have hacts : (s.receive (some piece) stale).place = .opening command ↔
      parse piece stale = .accepted command := by
    rw [receive_opening_iff hs (hq.nonempty piece List.mem_cons_self),
      hcut hpiece (zero_notMem_request hc)]
  constructor
  · intro h
    have haccepted := hacts.mp h.acts
    have hf := isFilename_of_accepted haccepted
    have hscan : scanOk reply = some n := by
      have hstack := (hsize (n+1)).symm.trans (h.obtains (n+1))
      cases hok : scanOk reply with
      | none =>
        rw [hok, Option.getD_none] at hstack
        omega
      | some v =>
        rw [hok, Option.getD_some] at hstack
        rw [hstack]
    exact ⟨hf, hq.eq_singleton (append_nil_of_accepted hc hf hpiece haccepted),
      hr.eq_singleton (append_nil_of_scanOk hn hreply hscan)⟩
  · rintro ⟨hf, hpieces, hreplies⟩
    obtain ⟨rfl, -⟩ := List.cons.inj hpieces
    obtain ⟨rfl, -⟩ := List.cons.inj hreplies
    refine ⟨hacts.mpr (parse_request hc hf stale), ?_, ?_, ?_⟩
    · intro stack
      exact (hsize stack).trans (by rw [scanOk_okReply hn, Option.getD_some])
    · rintro _ ⟨⟩ hne
      exact absurd rfl hne
    · rintro _ ⟨⟩ hne
      exact absurd rfl hne

/-- A `CHECK` and its reply in one piece each. -/
theorem exchanged_iff_whole :
    Exchanged (Server.start.goTo .receiving) (.check (ascii "f")) (ascii "0123456789") 12345
      [ascii "CHECK f"] [ascii "OK 12345"] := by
  have hsend : (Command.check (ascii "f")).Sendable := show (0 : Byte) ∉ ascii "f" by decide
  have hiff := exchanged_iff (s := Server.start.goTo .receiving) rfl hsend (ascii "0123456789")
    (n := 12345) (by decide) (segments_self (by decide)) (segments_self (by decide))
  exact hiff.mpr ⟨⟨by decide, by decide, by decide⟩, rfl, rfl⟩

/-- The beginnings `GET f 0 1` and `OK 12` are taken for the messages. -/
theorem prefix_taken_for_message :
    Segments [Command.request (.get (ascii "f") 0 100)] [ascii "GET f 0 1", ascii "00"] ∧
      ((Server.start.goTo .receiving).receive (some (ascii "GET f 0 1")) (ascii "0123456789")).place =
        .opening (.get (ascii "f") 0 1) ∧
    Segments [okReply 12345] [ascii "OK 12", ascii "345"] ∧
      (∀ stack, fileSizeOf (some (ascii "OK 12")) stack = 12) ∧
    ¬ Exchanged (Server.start.goTo .receiving) (.get (ascii "f") 0 100) (ascii "0123456789") 12345
      [ascii "GET f 0 1", ascii "00"] [ascii "OK 12", ascii "345"] := by
  refine ⟨⟨by decide, by decide⟩, by decide, ⟨by decide, by decide⟩, fun stack => rfl, ?_⟩
  intro h
  exact absurd h.acts (by decide)

end NetTools.FTP
