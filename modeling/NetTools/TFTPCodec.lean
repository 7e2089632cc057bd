import NetTools.TFTPMessages

namespace NetTools.TFTP

open CText

/-- `snprintf(buffer, BUFFER_SIZE, "CHECK %s", filename)`. -/
def checkRequest (filename : Bytes) : Bytes := (ascii "CHECK " ++ filename).take (bufferSize-1)

inductive Control
  | check (filename : Bytes)
  | get (filename : Bytes) (offset chunkSize : ℕ)
  | ack (seqNum : ℕ)
  deriving DecidableEq

/-- The datagram that the client sends. -/
def Control.text : Control → Bytes
  | check filename => checkRequest filename
  | get filename offset chunkSize => getRequest filename offset chunkSize
  | ack seqNum => ackPacket seqNum

/-- The `strcmp` tests of `handle_request` on a parsed request. -/
def Request.control (request : Request) : Option Control :=
  if request.command = ascii "CHECK" then some (.check request.filename)
  else if request.command = ascii "GET" then
    match request.offset, request.chunkSize with
    | some offset, some chunkSize => some (.get request.filename offset chunkSize)
    | _, _ => none
  else none

/-- The message that the dispatch finds in a datagram, when every field of it is stored. -/
def dispatch (datagram : Bytes) : Option Control :=
  match route datagram with
  | .ack seqNum => seqNum.map .ack
  | .request request => request.control
  | .malformed => none

/-- A filename that fits `%255s`. -/
structure IsFilename (filename : Bytes) : Prop where
  nonempty : filename ≠ []
  length : filename.length ≤ 255
  noSpace : ∀ b ∈ filename, isSpace b = false

/-- What `%<width>s` reads. -/
theorem scanWidth_eq_some {width : ℕ} {s token rest : Bytes}
    (h : scanWidth width s = some (token, rest)) :
    token ≠ [] ∧ token.length ≤ width ∧ ∀ b ∈ token, isSpace b = false := by
  simp only [scanWidth, Option.ite_none_left_eq_some, Option.some.injEq, Prod.mk.injEq] at h
  obtain ⟨hne, rfl, -⟩ := h
  refine ⟨hne, ?_, ?_⟩
  · exact List.length_take_le _ _
  · intro b hb
    have hb' := List.mem_takeWhile_imp (List.mem_of_mem_take hb)
    simpa using hb'

/-- Only a good filename comes out of a request. -/
theorem scanRequest_filename {buffer : Bytes} {request : Request}
    (h : scanRequest buffer = some request) :
    IsFilename request.filename := by
  obtain ⟨⟨command, rest⟩, -, h⟩ := Option.bind_eq_some_iff.mp h
  obtain ⟨⟨filename, rest'⟩, hf, h⟩ := Option.bind_eq_some_iff.mp h
  cases h
  obtain ⟨hne, hlen, hsp⟩ := scanWidth_eq_some hf
  exact ⟨hne, hlen, hsp⟩

/-- A word that fits is read as it is, after blanks and up to the next blank. -/
theorem scanWidth_word {width : ℕ} {word rest : Bytes} (hne : word ≠ [])
    (hlen : word.length ≤ width)
    (hsp : ∀ b ∈ word, isSpace b = false) (hrest : ∀ b ∈ rest.head?, isSpace b = true) :
    scanWidth width (word ++ rest) = some (word, rest) := by
  have hskip : (word ++ rest).dropWhile isSpace = word ++ rest := by
    cases word with
    | nil => exact absurd rfl hne
    | cons b bs =>
      rw [List.cons_append, List.dropWhile_cons_of_neg]
      rw [hsp b List.mem_cons_self]
      exact Bool.false_ne_true
  have htoken : (word ++ rest).takeWhile (fun b => !isSpace b) = word := by
    have hword : ∀ b ∈ word, (!isSpace b) = true := by
      intro b hb
      rw [hsp b hb]
      rfl
    rw [List.takeWhile_append_of_pos hword]
    cases rest with
    | nil => simp
    | cons b bs => simp [hrest b (by simp)]
  simp only [scanWidth, hskip, htoken, List.take_of_length_le hlen, hne, ↓reduceIte,
    List.drop_left]

theorem scanWidth_space (width : ℕ) (s : Bytes) :
    scanWidth width (32 :: s) = scanWidth width s := by
  have hskip : (32 :: s).dropWhile isSpace = s.dropWhile isSpace :=
    List.dropWhile_cons_of_pos (by decide)
  simp only [scanWidth, hskip]

theorem scanSize_space (s : Bytes) : scanSize (32 :: s) = scanSize s := by
  have hskip : (32 :: s).dropWhile isSpace = s.dropWhile isSpace :=
    List.dropWhile_cons_of_pos (by decide)
  simp only [scanSize, hskip]

theorem scanWidth_word_space {width : ℕ} {word : Bytes} (rest : Bytes) (hne : word ≠ [])
    (hlen : word.length ≤ width) (hsp : ∀ b ∈ word, isSpace b = false) :
    scanWidth width (word ++ 32 :: rest) = some (word, 32 :: rest) := by
  apply scanWidth_word hne hlen hsp
  intro b hb
  cases hb
  rfl

/-- A word that stopped before the end is the same with more text behind it. -/
theorem scanWidth_append {width : ℕ} {s token rest : Bytes} (more : Bytes)
    (h : scanWidth width s = some (token, rest)) (hr : rest ≠ []) :
    scanWidth width (s ++ more) = some (token, rest ++ more) := by
  obtain ⟨hne, h⟩ := Option.ite_none_left_eq_some.mp h
  obtain ⟨htoken, hrest⟩ := Prod.mk.inj (Option.some.inj h)
  generalize hword : s.dropWhile isSpace = word at hne htoken hrest
  have hskip : s.dropWhile isSpace ≠ [] := by
    rintro hnil
    rw [← hword, hnil] at hne
    exact hne (List.take_nil ..)
  have hskip' : (s ++ more).dropWhile isSpace = word ++ more := by
    rw [dropWhile_append_of_ends (Or.inl hskip), hword]
  have hshort : token.length < word.length := by
    rw [htoken] at hrest
    by_contra hle
    exact hr (hrest ▸ List.drop_of_length_le (by omega))
  -- the word ends at a blank in `s`, or at the width
  have htoken' : ((word ++ more).takeWhile fun b => !isSpace b).take width = token := by
    rw [← htoken]
    by_cases hend : word.dropWhile (fun b => !isSpace b) = []
    · have hall : word.takeWhile (fun b => !isSpace b) = word := by
        have hsplit := word.takeWhile_append_dropWhile (p := fun b => !isSpace b)
        rwa [hend, List.append_nil] at hsplit
      rw [hall] at htoken ⊢
      rw [List.takeWhile_append, if_pos (by rw [hall])]
      rw [← htoken, List.length_take] at hshort
      exact List.take_append_of_le_length (by omega)
    · rw [takeWhile_append_of_ends (Or.inl hend)]
  rw [htoken] at hrest hne
  simp only [scanWidth, hskip', htoken', if_neg hne]
  rw [List.drop_append_of_le_length hshort.le, hrest]

/-- The server parses a `CHECK` of a good filename as it was printed. -/
theorem scanRequest_check {filename : Bytes} (h : IsFilename filename) :
    scanRequest (ascii "CHECK" ++ 32 :: filename) = some ⟨ascii "CHECK", filename, none, none⟩ := by
  have hcommand : scanWidth 9 (ascii "CHECK" ++ 32 :: filename) =
      some (ascii "CHECK", 32 :: filename) :=
    scanWidth_word_space filename (by decide) (by decide) (by decide)
  have hfilename : scanWidth 255 (32 :: filename) = some (filename, []) := by
    rw [scanWidth_space]
    have hword : scanWidth 255 (filename ++ []) = some (filename, []) :=
      scanWidth_word h.nonempty h.length h.noSpace nofun
    rwa [List.append_nil] at hword
  simp only [scanRequest, hcommand, Option.bind_eq_bind, Option.bind_some, hfilename]
  rfl

theorem scanRequest_get {filename : Bytes} (h : IsFilename filename) {offset size : ℕ}
    (ho : offset < 2^64) (hs : size < 2^64) :
    scanRequest (ascii "GET" ++ 32 :: (filename ++ 32 :: (decimal offset ++ 32 :: decimal size))) =
      some ⟨ascii "GET", filename, some offset, some size⟩ := by
  have hcommand (rest : Bytes) : scanWidth 9 (ascii "GET" ++ 32 :: rest) =
      some (ascii "GET", 32 :: rest) :=
    scanWidth_word_space rest (by decide) (by decide) (by decide)
  have hfilename (rest : Bytes) : scanWidth 255 (32 :: (filename ++ 32 :: rest)) =
      some (filename, 32 :: rest) := by
    rw [scanWidth_space]
    exact scanWidth_word_space rest h.nonempty h.length h.noSpace
  have hoffset : scanSize (32 :: (decimal offset ++ 32 :: decimal size)) =
      some (offset, 32 :: decimal size) := by
    rw [scanSize_space]
    apply scanSize_decimal ho
    intro b hb
    cases hb
    rfl
  have hsize : scanSize (32 :: decimal size) = some (size, []) := by
    rw [scanSize_space]
    simpa using scanSize_decimal hs [] (by simp)
  simp only [scanRequest, hcommand, Option.bind_eq_bind, Option.bind_some, hfilename, hoffset, hsize,
    Option.map_some]
  rfl

theorem checkRequest_eq {filename : Bytes} (h : filename.length ≤ 255) :
    checkRequest filename = ascii "CHECK" ++ 32 :: filename := by
  have hlen : (ascii "CHECK " ++ filename).length ≤ bufferSize-1 := by
    have hw : (ascii "CHECK ").length = 6 := rfl
    have hb : bufferSize = 1024 := rfl
    rw [List.length_append, hw, hb]
    omega
  rw [checkRequest, List.take_of_length_le hlen]
  rfl

theorem getText_length_le {filename : Bytes} (h : filename.length ≤ 255) {offset size : ℕ}
    (ho : offset < 2^64) (hs : size < 2^64) :
    (ascii "GET " ++ filename ++ ascii " " ++ decimal offset ++ ascii " " ++ decimal size).length ≤
      301 := by
  have hw : (ascii "GET ").length = 4 := rfl
  have hsp : (ascii " ").length = 1 := rfl
  have hol := (length_decimal_le_iff (k := 20) (by decide)).mpr (by omega : offset < 10^20)
  have hsl := (length_decimal_le_iff (k := 20) (by decide)).mpr (by omega : size < 10^20)
  simp only [List.length_append, hw, hsp]
  omega

/-- A `GET` of a good filename is not cut by `snprintf`. -/
theorem getRequest_eq {filename : Bytes} (h : filename.length ≤ 255) {offset size : ℕ}
    (ho : offset < 2^64) (hs : size < 2^64) :
    getRequest filename offset size =
      ascii "GET" ++ 32 :: (filename ++ 32 :: (decimal offset ++ 32 :: decimal size)) := by
  have hlen := (getText_length_le h ho hs).trans (by decide : 301 ≤ bufferSize-1)
  rw [getRequest, List.take_of_length_le hlen]
  simp only [List.append_assoc]
  rfl

theorem zero_notMem_checkText {filename : Bytes} (h : (0 : Byte) ∉ filename) :
    (0 : Byte) ∉ ascii "CHECK " ++ filename := by
  intro hm
  rcases List.mem_append.mp hm with hw | hf
  · revert hw
    decide
  · exact h hf

theorem zero_notMem_getText {filename : Bytes} (h : (0 : Byte) ∉ filename) (offset size : ℕ) :
    (0 : Byte) ∉
      ascii "GET " ++ filename ++ ascii " " ++ decimal offset ++ ascii " " ++ decimal size := by
  intro hm
  simp only [List.mem_append] at hm
  rcases hm with ((((hw | hf) | hw) | hd) | hw) | hd
  · revert hw
    decide
  · exact h hf
  · revert hw
    decide
  · exact zero_notMem_decimal offset hd
  · revert hw
    decide
  · exact zero_notMem_decimal size hd

theorem zero_notMem_checkRequest {filename : Bytes} (h : (0 : Byte) ∉ filename) :
    (0 : Byte) ∉ checkRequest filename :=
  fun hm => zero_notMem_checkText h (List.mem_of_mem_take hm)

theorem zero_notMem_getRequest {filename : Bytes} (h : (0 : Byte) ∉ filename) (offset size : ℕ) :
    (0 : Byte) ∉ getRequest filename offset size :=
  fun hm => zero_notMem_getText h offset size (List.mem_of_mem_take hm)

/-- A datagram that starts with another letter is no ACK. -/
theorem route_request {datagram : Bytes} (h : (0 : Byte) ∉ datagram)
    (hA : datagram.head? ≠ some 65) :
    route datagram = match scanRequest datagram with
      | some request => .request request
      | none => .malformed := by
  have hack : startsWith datagram (ascii "ACK") = false := by
    rw [Bool.eq_false_iff]
    intro hs
    rw [startsWith, List.isPrefixOf_iff_prefix] at hs
    obtain ⟨rest, hrest⟩ := hs
    apply hA
    rw [← hrest]
    rfl
  cases hscan : scanRequest datagram with
  | none => simp only [route, takeWhile_ne_zero h, hack, hscan, Bool.false_eq_true, ↓reduceIte]
  | some request => simp only [route, takeWhile_ne_zero h, hack, hscan, Bool.false_eq_true, ↓reduceIte]

theorem head_checkRequest (filename : Bytes) : (checkRequest filename).head? = some 67 := rfl

theorem head_getRequest (filename : Bytes) (offset size : ℕ) :
    (getRequest filename offset size).head? = some 71 := by
  simp only [getRequest, List.append_assoc]
  rfl

theorem route_ne_ack {datagram : Bytes} (h : (0 : Byte) ∉ datagram) (hA : datagram.head? ≠ some 65)
    (n : Option ℕ) : route datagram ≠ .ack n := by
  rw [route_request h hA]
  cases scanRequest datagram <;> exact nofun

/-- Only a parsed text is routed as a request. -/
theorem scanRequest_of_route {datagram : Bytes} {request : Request}
    (h : route datagram = .request request) :
    scanRequest (datagram.takeWhile fun b => b ≠ 0) = some request := by
  dsimp only [route] at h
  split_ifs at h
  split at h
  · rename_i r hr
    cases h
    exact hr
  · cases h

/-- The filename of a message that the dispatch finds went through `%255s`. -/
theorem dispatch_filename {datagram filename : Bytes} {m : Control} (h : dispatch datagram = some m)
    (hm : m = .check filename ∨ ∃ offset size, m = .get filename offset size) :
    IsFilename filename := by
  unfold dispatch at h
  split at h
  · rename_i n _
    obtain ⟨n, -, rfl⟩ := Option.map_eq_some_iff.mp h
    simp at hm
  · rename_i request hroute
    have hgood := scanRequest_filename (scanRequest_of_route hroute)
    suffices hname : request.filename = filename from hname ▸ hgood
    unfold Request.control at h
    split_ifs at h with hcheck hget
    · cases h
      simpa using hm
    · split at h
      · cases h
        simpa using hm
      · cases h
  · cases h

/-- The server decodes a `CHECK` and a `GET` to what the client printed exactly when the
filename is a word of at most 255 bytes. It decodes every ACK to its number, and takes no
request for an ACK. -/
theorem control_messages_round_trip (filename : Bytes) (offset size seqNum : ℕ)
    (hf : (0 : Byte) ∉ filename) (ho : offset < 2^64) (hs : size < 2^64) (hn : seqNum < 2^64) :
    (dispatch (Control.check filename).text = some (.check filename) ↔ IsFilename filename) ∧
    (dispatch (Control.get filename offset size).text = some (.get filename offset size) ↔
      IsFilename filename) ∧
    dispatch (Control.ack seqNum).text = some (.ack seqNum) ∧
    (∀ n, route (Control.check filename).text ≠ .ack n) ∧
    (∀ n, route (Control.get filename offset size).text ≠ .ack n) := by
  have hcheck := zero_notMem_checkRequest hf
  have hcheckA : (checkRequest filename).head? ≠ some 65 := by
    rw [head_checkRequest]
    decide
  have hget := zero_notMem_getRequest hf offset size
  have hgetA : (getRequest filename offset size).head? ≠ some 65 := by
    rw [head_getRequest]
    decide
  -- whatever the server decodes has a word as its filename; such a word comes through whole
  refine ⟨⟨?_, ?_⟩, ⟨?_, ?_⟩, ?_, route_ne_ack hcheck hcheckA, route_ne_ack hget hgetA⟩
  · intro h
    exact dispatch_filename h (Or.inl rfl)
  · intro h
    have hscan : scanRequest (checkRequest filename) =
      some ⟨ascii "CHECK", filename, none, none⟩ := by
      rw [checkRequest_eq h.length, scanRequest_check h]
    simp only [dispatch, Control.text, route_request hcheck hcheckA, hscan]
    rfl
  · intro h
    exact dispatch_filename h (Or.inr ⟨offset, size, rfl⟩)
  · intro h
    have hscan : scanRequest (getRequest filename offset size) =
        some ⟨ascii "GET", filename, some offset, some size⟩ := by
      rw [getRequest_eq h.length ho hs, scanRequest_get h ho hs]
    simp only [dispatch, Control.text, route_request hget hgetA, hscan]
    rfl
  · simp only [dispatch, Control.text, route_ackPacket hn, Option.map_some]

/-- A filename with a blank in it: the rest of the name spills into the numbers. -/
theorem control_messages_round_trip_blank :
    dispatch (Control.get (ascii "a 7") 0 5).text = some (.get (ascii "a") 7 0) ∧
      ¬ IsFilename (ascii "a 7") ∧ dispatch (Control.ack 3).text = some (.ack 3) := by
  have h := control_messages_round_trip (ascii "a 7") 0 5 3 (by decide) (by decide)
    (by decide) (by decide)
  have hspill : dispatch (Control.get (ascii "a 7") 0 5).text =
    some (.get (ascii "a") 7 0) := by decide
  refine ⟨hspill, ?_, h.2.2.1⟩
  rw [← h.2.1, hspill]
  decide

end NetTools.TFTP
