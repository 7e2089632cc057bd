import NetTools.FTPMessages
import NetTools.TFTPProcess
import Mathlib.Data.List.DropRight

namespace NetTools

open CText
open TFTP (scanWidth scanRequest route)

/-- The variables that the `sscanf` of a request assigns. -/
inductive Field
  | command
  | filename
  | offset
  | chunkSize
  deriving DecidableEq

/-- What `sscanf(buffer, "%9s %255s %zu %zu", ...)` assigns; the length is what it returns, but for
its -1. -/
def assigned (text : Bytes) : List Field :=
  match scanWidth 9 text with
  | none => []
  | some (_, rest) =>
    match scanWidth 255 rest with
    | none => [.command]
    | some (_, rest) =>
      match scanSize rest with
      | none => [.command, .filename]
      | some (_, rest) =>
        match scanSize rest with
        | none => [.command, .filename, .offset]
        | some _ => [.command, .filename, .offset, .chunkSize]

/-- The C string at the start of a buffer. -/
def textOf (data : Bytes) : Bytes := data.takeWhile fun b => b ≠ 0

namespace FTP

/-- The variables that `handle_client` reads for a request. A `GET` that it refuses is printed with
its `chunk_size`, also when that was not stored. -/
def reads (data stale : Bytes) : List Field :=
  let word := (scanWidth 9 (textOf data)).map Prod.fst
  let command := word.getD (stale.takeWhile fun b => b ≠ 0)
  let refused := parse (textOf data) stale = .refused
  if data = [] then []
  else if command = ascii "CHECK" then
    if refused then [.command] else [.command, .filename]
  else if command = ascii "GET" then
    if refused then [.command, .chunkSize] else [.command, .chunkSize, .filename, .offset]
  else [.command]

/-- The `GET` branch is executed. -/
def Gets (data stale : Bytes) : Prop :=
  ∃ filename offset chunkSize,
    parse (textOf data) stale = .accepted (.get filename offset chunkSize)

end FTP

namespace TFTP

/-- The variables that `handle_request` reads for a datagram; `none` when the NUL behind the
datagram is written outside the buffer. -/
def reads (data : Bytes) : Option (List Field) :=
  if data.length ≥ bufferSize then none
  else match route data with
  | .request request =>
    if request.command = ascii "CHECK" then some [.command, .filename]
    else if request.command = ascii "GET" then some [.command, .offset, .chunkSize, .filename]
    else some [.command]
  | .ack _ | .malformed => some []

/-- The `GET` branch is executed. -/
def Gets (data : Bytes) : Prop :=
  ∃ request, route data = .request request ∧ request.command = ascii "GET"

end TFTP

/-- The field at a position of a text, between white space. -/
def fieldAt : ℕ → Bytes → Bytes
  | 0, text => (scanToken text).1
  | k+1, text => fieldAt k (scanToken text).2

/-- The first four fields are a command, a filename and two numbers. -/
structure FourFields (text : Bytes) (offset chunkSize : ℕ) : Prop where
  command : fieldAt 0 text ≠ [] ∧ (fieldAt 0 text).length ≤ 9
  filename : fieldAt 1 text ≠ [] ∧ (fieldAt 1 text).length ≤ 255
  offset : scanSize (fieldAt 2 text) = some (offset, [])
  chunkSize : scanSize (fieldAt 3 text) = some (chunkSize, [])

/-- Both servers read only what the `sscanf` of this request has assigned, execute `GET` only for
four good fields, and agree on whether they do. -/
structure OnlyParsedFields (data stale : Bytes) : Prop where
  ftp : ∀ x ∈ FTP.reads data stale, x ∈ assigned (textOf data)
  tftp : ∃ reads, TFTP.reads data = some reads ∧ ∀ x ∈ reads, x ∈ assigned (textOf data)
  ftpGet : FTP.Gets data stale → ∃ offset chunkSize, FourFields (textOf data) offset chunkSize
  tftpGet : TFTP.Gets data → ∃ offset chunkSize, FourFields (textOf data) offset chunkSize
  agree : FTP.Gets data stale ↔ TFTP.Gets data

/-- A request that leaves room for the NUL, with a word in it unless it is empty, and with four good
fields and a chunk size that is not zero if the word is `GET`. -/
structure GoodRequest (data : Bytes) : Prop where
  fits : data.length < TFTP.bufferSize
  word : data ≠ [] → fieldAt 0 (textOf data) ≠ []
  get : fieldAt 0 (textOf data) = ascii "GET" →
    ∃ offset chunkSize, FourFields (textOf data) offset chunkSize ∧ chunkSize ≠ 0

/-- A token ends at white space or at the end. -/
theorem scanToken_rest {s : Bytes} : ∀ b ∈ (scanToken s).2.head?, isSpace b = true := by
  intro b hb
  have hstop := List.head?_dropWhile_not (fun b => !isSpace b) (s.dropWhile isSpace)
  change (scanToken s).2.head? = some b at hb
  rw [scanToken] at hb
  dsimp only at hb
  rw [hb] at hstop
  simpa using hstop

theorem scanToken_append (s : Bytes) : (scanToken s).1 ++ (scanToken s).2 = s.dropWhile isSpace :=
  List.takeWhile_append_dropWhile

theorem scanWidth_eq_scanToken {width : ℕ} {s : Bytes} (hne : (scanToken s).1 ≠ [])
    (hlen : (scanToken s).1.length ≤ width) : scanWidth width s = some (scanToken s) := by
  have htake : ((s.dropWhile isSpace).takeWhile fun b => !isSpace b).take width =
      (scanToken s).1 := List.take_of_length_le hlen
  have hdrop : (s.dropWhile isSpace).drop (scanToken s).1.length = (scanToken s).2 := by
    rw [← scanToken_append, List.drop_left]
  simp only [scanWidth, htake, if_neg hne, hdrop]

theorem scanWidth_word_eq {s word rest : Bytes} (h : scanWidth 9 s = some (word, rest)) :
    word = (scanToken s).1.take 9 := by
  obtain ⟨-, h⟩ := Option.ite_none_left_eq_some.mp h
  exact (Prod.mk.inj (Option.some.inj h)).1.symm

theorem scanWidth_eq_none {s : Bytes} : scanWidth 9 s = none ↔ fieldAt 0 s = [] := by
  have htake : scanWidth 9 s = none ↔ (scanToken s).1.take 9 = [] := by
    simp only [scanWidth, ite_eq_left_iff, reduceCtorEq, imp_false, not_not]
    rfl
  rw [htake, List.take_eq_nil_iff, or_iff_right (by decide)]
  rfl

/-- A field that is a number reads the same in the text. -/
theorem scanSize_field {s : Bytes} {v : ℕ} (h : scanSize (scanToken s).1 = some (v, [])) :
    scanSize s = some (v, (scanToken s).2) := by
  have hskip : scanSize s = scanSize (s.dropWhile isSpace) := by
    have hidem : (s.dropWhile isSpace).dropWhile isSpace = s.dropWhile isSpace :=
      List.dropWhile_idempotent _ _
    simp only [scanSize, hidem]
  have hstop : ∀ b ∈ (scanToken s).2.head?, isDigit b = false := by
    intro b hb
    have hspace := scanToken_rest b hb
    rw [Bool.eq_false_iff]
    intro hd
    rw [isSpace_of_isDigit hd] at hspace
    cases hspace
  have hfield := scanSize_append h (Or.inr hstop)
  rwa [scanToken_append, ← hskip, List.nil_append] at hfield

/-- How far the `sscanf` comes. -/
inductive Scan (text : Bytes) : Prop
  | nothing (word : scanWidth 9 text = none) (request : scanRequest text = none)
      (fields : assigned text = [])
  | command {c : Bytes} (word : (scanWidth 9 text).map Prod.fst = some c)
      (request : scanRequest text = none) (fields : assigned text = [.command])
  | filename {c f : Bytes} (word : (scanWidth 9 text).map Prod.fst = some c)
      (request : scanRequest text = some ⟨c, f, none, none⟩)
      (fields : assigned text = [.command, .filename])
  | offset {c f : Bytes} {o : ℕ} (word : (scanWidth 9 text).map Prod.fst = some c)
      (request : scanRequest text = some ⟨c, f, some o, none⟩)
      (fields : assigned text = [.command, .filename, .offset])
  | chunkSize {c f : Bytes} {o n : ℕ} (word : (scanWidth 9 text).map Prod.fst = some c)
      (request : scanRequest text = some ⟨c, f, some o, some n⟩)
      (fields : assigned text = [.command, .filename, .offset, .chunkSize])

theorem scan_cases (text : Bytes) : Scan text := by
  cases hc : scanWidth 9 text with
  | none => exact .nothing hc (by simp [scanRequest, hc]) (by simp [assigned, hc])
  | some word =>
    have hword : (scanWidth 9 text).map Prod.fst = some word.1 := congrArg _ hc
    cases hf : scanWidth 255 word.2 with
    | none => exact .command hword (by simp [scanRequest, hc, hf]) (by simp [assigned, hc, hf])
    | some name =>
      have hrequest : scanRequest text = some ⟨word.1, name.1, (scanSize name.2).map Prod.fst,
          ((scanSize name.2).bind fun o => scanSize o.2).map Prod.fst⟩ := by
        simp [scanRequest, hc, hf]
      cases ho : scanSize name.2 with
      | none =>
        rw [ho] at hrequest
        exact .filename hword hrequest (by simp [assigned, hc, hf, ho])
      | some o =>
        rw [ho, Option.bind_some] at hrequest
        cases hn : scanSize o.2 with
        | none =>
          rw [hn] at hrequest
          exact .offset hword hrequest (by simp [assigned, hc, hf, ho, hn])
        | some n =>
          rw [hn] at hrequest
          exact .chunkSize hword hrequest (by simp [assigned, hc, hf, ho, hn])

/-- Four good fields are what the `sscanf` stores. -/
theorem FourFields.scan {text : Bytes} {o n : ℕ} (h : FourFields text o n) :
    scanRequest text = some ⟨fieldAt 0 text, fieldAt 1 text, some o, some n⟩ := by
  have hc : scanWidth 9 text = some (scanToken text) :=
    scanWidth_eq_scanToken h.command.1 h.command.2
  have hf : scanWidth 255 (scanToken text).2 = some (scanToken (scanToken text).2) :=
    scanWidth_eq_scanToken h.filename.1 h.filename.2
  have ho := scanSize_field h.offset
  have hn := scanSize_field h.chunkSize
  simp only [scanRequest, hc, hf, ho, Option.bind_eq_bind, Option.bind_some, hn, Option.map_some]
  rfl

/-- A command that `%9s` stores is the first field as far as it fits. -/
theorem command_eq {text c : Bytes} (h : (scanWidth 9 text).map Prod.fst = some c) :
    c = (fieldAt 0 text).take 9 := by
  obtain ⟨⟨word, rest⟩, hw, rfl⟩ := Option.map_eq_some_iff.mp h
  exact scanWidth_word_eq hw

theorem command_eq_get {text c : Bytes} (h : (scanWidth 9 text).map Prod.fst = some c) :
    c = ascii "GET" ↔ fieldAt 0 text = ascii "GET" := by
  have hc := command_eq h
  constructor
  · rintro rfl
    have hlen := congrArg List.length hc
    rw [List.length_take, show (ascii "GET").length = 3 from rfl] at hlen
    rw [hc, List.take_of_length_le (by omega)]
  · intro hget
    rw [hc, hget]
    rfl

namespace FTP

theorem gets_iff {data stale : Bytes} : Gets data stale ↔
    ∃ f o n, scanRequest (textOf data) = some ⟨ascii "GET", f, some o, some n⟩ ∧ 0 < n := by
  simp only [Gets, parse_get_iff]

end FTP

namespace TFTP

/-- A text whose first word is `GET` is no ACK. -/
theorem route_get {data : Bytes} {request : Request} (h : scanRequest (textOf data) = some request)
    (hget : request.command = ascii "GET") : route data = .request request := by
  have hack : startsWith (textOf data) (ascii "ACK") ≠ true := by
    intro hs
    obtain ⟨rest, hrest⟩ := List.isPrefixOf_iff_prefix.mp hs
    have hc := command_eq (FTP.scanRequest_command h)
    rw [hget, ← hrest] at hc
    have hfirst : fieldAt 0 (ascii "ACK" ++ rest) =
        ascii "ACK" ++ rest.takeWhile fun b => !isSpace b := rfl
    rw [hfirst] at hc
    cases hc
  change (if startsWith (textOf data) (ascii "ACK") then _ else _) = _
  rw [if_neg hack]
  change scanRequest (data.takeWhile fun b => b ≠ 0) = some request at h
  rw [h]

theorem gets_iff {data : Bytes} : Gets data ↔
    ∃ request, scanRequest (textOf data) = some request ∧ request.command = ascii "GET" := by
  constructor
  · rintro ⟨request, hroute, hget⟩
    exact ⟨request, scanRequest_of_route hroute, hget⟩
  · rintro ⟨request, hscan, hget⟩
    exact ⟨request, route_get hscan hget, hget⟩

end TFTP

/-- Both servers stay within the four assigned variables of a good `GET`, and execute it. -/
theorem only_parsed_of_get {data stale : Bytes} {o n : ℕ} (hfits : data.length < TFTP.bufferSize)
    (hget : fieldAt 0 (textOf data) = ascii "GET") (hfields : FourFields (textOf data) o n)
    (hn : n ≠ 0) : OnlyParsedFields data stale := by
  have hscan := hfields.scan
  rw [hget] at hscan
  have hroute := TFTP.route_get hscan rfl
  have hassigned : assigned (textOf data) = [.command, .filename, .offset, .chunkSize] := by
    cases scan_cases (textOf data) with
    | chunkSize word request fields => exact fields
    | nothing word request => rw [hscan] at request; cases request
    | command word request => rw [hscan] at request; cases request
    | filename word request => rw [hscan] at request; cases request
    | offset word request => rw [hscan] at request; cases request
  have hall (x : Field) : x ∈ assigned (textOf data) := by
    rw [hassigned]
    cases x <;> decide
  have hftp : FTP.Gets data stale := FTP.gets_iff.mpr ⟨_, _, _, hscan, Nat.pos_of_ne_zero hn⟩
  have htftp : TFTP.Gets data := TFTP.gets_iff.mpr ⟨_, hscan, rfl⟩
  refine ⟨fun x _ => hall x, ?_, fun _ => ⟨o, n, hfields⟩, fun _ => ⟨o, n, hfields⟩,
    iff_of_true hftp htftp⟩
  refine ⟨[.command, .offset, .chunkSize, .filename], ?_, fun x _ => hall x⟩
  rw [TFTP.reads, if_neg (Nat.not_le.mpr hfits), hroute]
  rfl

theorem command_mem_assigned {text : Bytes} : .command ∈ assigned text ↔ fieldAt 0 text ≠ [] := by
  have hnone := scanWidth_eq_none (s := text)
  cases scan_cases text with
  | nothing word request fields => simp [fields, hnone.mp word]
  | command word request fields
  | filename word request fields
  | offset word request fields
  | chunkSize word request fields =>
    apply iff_of_true (by simp [fields])
    intro hnil
    rw [hnone.mpr hnil] at word
    cases word

theorem assigned_of_request {text : Bytes} {request : TFTP.Request}
    (h : scanRequest text = some request) :
    .command ∈ assigned text ∧ .filename ∈ assigned text := by
  cases scan_cases text with
  | nothing word none fields => cases none.symm.trans h
  | command word none fields => cases none.symm.trans h
  | filename word some fields => simp [fields]
  | offset word some fields => simp [fields]
  | chunkSize word some fields => simp [fields]

/-- With the chunk size everything is stored. -/
theorem request_of_chunkSize_mem {text : Bytes} (h : .chunkSize ∈ assigned text) :
    ∃ c f o n, (scanWidth 9 text).map Prod.fst = some c ∧
      scanRequest text = some ⟨c, f, some o, some n⟩ := by
  cases scan_cases text with
  | nothing word request fields => simp [fields] at h
  | command word request fields => simp [fields] at h
  | filename word request fields => simp [fields] at h
  | offset word request fields => simp [fields] at h
  | chunkSize word request fields => exact ⟨_, _, _, _, word, request⟩

namespace FTP

theorem command_mem_reads {data : Bytes} (hdata : data ≠ []) (stale : Bytes) :
    .command ∈ reads data stale := by
  simp only [reads, if_neg hdata]
  split_ifs <;> simp

/-- Another command than `GET` has at most its filename read. -/
theorem reads_of_other {data stale c : Bytes}
    (hc : (scanWidth 9 (textOf data)).map Prod.fst = some c) (hget : c ≠ ascii "GET") :
    ∀ x ∈ reads data stale,
      x = .command ∨ x = .filename ∧ ∃ request, scanRequest (textOf data) = some request := by
  intro x hx
  simp only [reads, hc, Option.getD_some, if_neg hget] at hx
  split_ifs at hx with hempty hcheck hrefused
  · cases hx
  · exact Or.inl (List.mem_singleton.mp hx)
  · rcases List.mem_pair.mp hx with rfl | rfl
    · exact Or.inl rfl
    · refine Or.inr ⟨rfl, ?_⟩
      cases hscan : scanRequest (textOf data) with
      | some request => exact ⟨request, rfl⟩
      | none => simp [parse, hc, hcheck, hscan] at hrefused
  · exact Or.inl (List.mem_singleton.mp hx)

end FTP

/-- A request for anything but a `GET` is handled with the assigned variables alone. -/
theorem only_parsed_of_other {data stale : Bytes} (hfits : data.length < TFTP.bufferSize)
    (hword : data ≠ [] → fieldAt 0 (textOf data) ≠ [])
    (hget : fieldAt 0 (textOf data) ≠ ascii "GET") : OnlyParsedFields data stale := by
  have hftp : ¬ FTP.Gets data stale := by
    rw [FTP.gets_iff]
    rintro ⟨f, o, n, hscan, -⟩
    exact hget ((command_eq_get (FTP.scanRequest_command hscan)).mp rfl)
  have htftp : ¬ TFTP.Gets data := by
    rw [TFTP.gets_iff]
    rintro ⟨request, hscan, hcommand⟩
    exact hget ((command_eq_get (FTP.scanRequest_command hscan)).mp hcommand)
  -- without a `GET` no number is read, only the command and a name that was scanned
  refine ⟨?_, ?_, fun h => absurd h hftp, fun h => absurd h htftp, iff_of_false hftp htftp⟩
  · intro x hx
    have hdata : data ≠ [] := by
      rintro rfl
      cases hx
    have hcommand := command_mem_assigned.mpr (hword hdata)
    cases hw : scanWidth 9 (textOf data) with
    | none => exact absurd (scanWidth_eq_none.mp hw) (hword hdata)
    | some w =>
      have hc : (scanWidth 9 (textOf data)).map Prod.fst = some w.1 := congrArg _ hw
      rcases FTP.reads_of_other hc (mt (command_eq_get hc).mp hget) x hx with
        rfl | ⟨rfl, request, hscan⟩
      · exact hcommand
      · exact (assigned_of_request hscan).2
  · rw [TFTP.reads, if_neg (Nat.not_le.mpr hfits)]
    split
    · rename_i request hroute
      have hscan := TFTP.scanRequest_of_route hroute
      obtain ⟨hcommand, hfilename⟩ := assigned_of_request hscan
      have hother : request.command ≠ ascii "GET" := fun h => htftp ⟨request, hroute, h⟩
      rw [if_neg hother]
      split_ifs
      · refine ⟨_, rfl, ?_⟩
        intro x hx
        rcases List.mem_pair.mp hx with rfl | rfl
        · exact hcommand
        · exact hfilename
      · refine ⟨_, rfl, ?_⟩
        intro x hx
        rw [List.mem_singleton.mp hx]
        exact hcommand
    · exact ⟨[], rfl, nofun⟩
    · exact ⟨[], rfl, nofun⟩

/-- Every `GET` has its chunk size printed or used by the FTP server, so it has to be stored. -/
theorem good_of_only_parsed {data stale : Bytes} (h : OnlyParsedFields data stale) :
    GoodRequest data := by
  have hword (hdata : data ≠ []) : fieldAt 0 (textOf data) ≠ [] :=
    command_mem_assigned.mp (h.ftp _ (FTP.command_mem_reads hdata stale))
  refine ⟨?_, hword, ?_⟩
  · obtain ⟨reads, hreads, -⟩ := h.tftp
    rw [TFTP.reads, Option.ite_none_left_eq_some] at hreads
    exact Nat.not_le.mp hreads.1
  · intro hget
    have hdata : data ≠ [] := by
      rintro rfl
      cases hget
    have hprinted : .chunkSize ∈ FTP.reads data stale := by
      cases hw : scanWidth 9 (textOf data) with
      | none => exact absurd (scanWidth_eq_none.mp hw) (hword hdata)
      | some w =>
        have hc : (scanWidth 9 (textOf data)).map Prod.fst = some w.1 := congrArg _ hw
        have hne : ascii "GET" ≠ ascii "CHECK" := by decide
        simp only [FTP.reads, hc, Option.getD_some, (command_eq_get hc).mpr hget, if_neg hdata,
          if_neg hne, ↓reduceIte]
        split_ifs <;> simp
    obtain ⟨c, f, o, n, hc, hscan⟩ := request_of_chunkSize_mem (h.ftp _ hprinted)
    obtain rfl := (command_eq_get hc).mpr hget
    have htftp : TFTP.Gets data := TFTP.gets_iff.mpr ⟨_, hscan, rfl⟩
    obtain ⟨f', o', n', hscan', hpos⟩ := FTP.gets_iff.mp (h.agree.mpr htftp)
    obtain ⟨o'', n'', hfields⟩ := h.tftpGet htftp
    have hsame := hscan.symm.trans hscan'
    have hsame' := hscan.symm.trans hfields.scan
    simp only [Option.some.injEq, TFTP.Request.mk.injEq] at hsame hsame'
    refine ⟨o'', n'', hfields, ?_⟩
    omega

/-- The servers act only on parsed fields, and on the same `GET`s, exactly for the good requests. -/
theorem only_parsed_fields_iff (data stale : Bytes) :
    OnlyParsedFields data stale ↔ GoodRequest data := by
  constructor
  · exact good_of_only_parsed
  · intro h
    by_cases hget : fieldAt 0 (textOf data) = ascii "GET"
    · obtain ⟨o, n, hfields, hn⟩ := h.get hget
      exact only_parsed_of_get h.fits hget hfields hn
    · exact only_parsed_of_other h.fits h.word hget

/-- On `GET f` only two variables are stored. The FTP server refuses it and prints `chunk_size`; the
TFTP server executes it and reads all four. -/
theorem unassigned_fields_read :
    assigned (textOf (ascii "GET f")) = [.command, .filename] ∧
      FTP.reads (ascii "GET f") (ascii "0123456789") = [.command, .chunkSize] ∧
      ¬ FTP.Gets (ascii "GET f") (ascii "0123456789") ∧
      TFTP.reads (ascii "GET f") = some [.command, .offset, .chunkSize, .filename] ∧
      TFTP.Gets (ascii "GET f") ∧ ¬ OnlyParsedFields (ascii "GET f") (ascii "0123456789") := by
  have hscan : scanRequest (textOf (ascii "GET f")) =
      some ⟨ascii "GET", ascii "f", none, none⟩ := by decide
  have hftp : ¬ FTP.Gets (ascii "GET f") (ascii "0123456789") := by
    rw [FTP.gets_iff, hscan]
    rintro ⟨f, o, n, ⟨⟩, -⟩
  have htftp : TFTP.Gets (ascii "GET f") := TFTP.gets_iff.mpr ⟨_, hscan, rfl⟩
  exact ⟨by decide, by decide, hftp, by decide, htftp, fun h => hftp (h.agree.mpr htftp)⟩

end NetTools
