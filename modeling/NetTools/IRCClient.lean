import NetTools.IRCServer

/-! One `irc/client.c` process: `main`, the handler of `SIGINT`, the thread that reads
from the server and the threads of `wait_for_connection`. Each function gives what is
left of the process (`none` after `exit`) and what it sends to the server. -/
namespace NetTools.IRC

open CText

inductive Mode
  | info
  | wait
  | chat
  deriving DecidableEq

/-- Where `receive_server_messages` is: in `recv`, in `handle_connect` before `connect`
returns, or joining the thread of its conversation. -/
inductive ServerThread
  | receiving
  | connecting (peerId : Bytes) (peerPort : Int)
  | joining
  deriving DecidableEq

/-- `opening` holds between the `send` of `/wait` and that of the port. `listening` are
the ports that were opened (a closed listener still accepts for a thread that is blocked
in `accept`), `backlog` is what the peers sent whose connections are not accepted yet, and
`waitTalks` counts the conversations that wait threads have joined. -/
structure ClientProcess where
  id : Bytes
  mode : Mode
  opening : Bool
  listening : List ℕ
  waitThreads : ℕ
  backlog : List Bytes
  serverThread : ServerThread
  waitTalks : ℕ

/-- What `receive_server_messages` makes of a buffer. -/
inductive ServerMessage
  | connect (peerId : Bytes) (peerPort : Int)
  | idTaken
  | other
  deriving DecidableEq

/-- `%d` finds a number. -/
def startsNumber (s : Bytes) : Bool :=
  let r := s.dropWhile isSpace
  let text := if r.head? = some 45 ∨ r.head? = some 43 then r.tail else r
  text.takeWhile isDigit ≠ []

/-- The tests of `receive_server_messages`. It is `none` when `sscanf` leaves a variable
unset that is used afterwards, or writes past the end of one. -/
def serverMessage (data : Bytes) : Option ServerMessage :=
  let buffer := data.takeWhile fun b => b ≠ 0
  if startsWith buffer (ascii "CONNECT") then
    let (peerId, rest) := scanToken (buffer.drop 7)
    let (peerIp, rest) := scanToken rest
    if peerId ≠ [] ∧ peerId.length < idSize ∧ peerIp ≠ [] ∧ peerIp.length < 16 ∧ startsNumber rest then
      some (.connect peerId (atoi rest))
    else none
  else if buffer = ascii "Client ID is already taken.\n" then some .idTaken
  else some .other

/-- The three variables that `sscanf(buffer, "CONNECT %s %s %d", …)` sets, where the call of
`handle_connect` behind it has all of them. -/
def scanConnect (data : Bytes) : Option (Bytes × Bytes × Int) :=
  let buffer := data.takeWhile fun b => b ≠ 0
  let peerId := scanToken (buffer.drop 7)
  let peerIp := scanToken peerId.2
  if startsWith buffer (ascii "CONNECT") ∧ peerId.1 ≠ [] ∧ peerId.1.length < idSize ∧
      peerIp.1 ≠ [] ∧ peerIp.1.length < 16 ∧ startsNumber peerIp.2 then
    some (peerId.1, peerIp.1, atoi peerIp.2)
  else none

namespace ClientProcess

/-- After `connect` to the server and the creation of the thread that reads from it. -/
def start (id : Bytes) : ClientProcess := ⟨id, .info, false, [], 0, [], .receiving, 0⟩

/-- One turn of the loop of `main`; `/wait` goes on in `announce` or `bindFails`. In CHAT
mode the line goes to the peer. -/
def typeLine (c : ClientProcess) (line : Bytes) : Option ClientProcess × List Bytes :=
  if startsWith line (ascii "/quit") then (none, [])
  else if c.mode = .chat then (some c, [])
  else if startsWith line (ascii "/wait") then
    if c.mode = .wait then (some c, [])
    else (some { c with mode := .wait, opening := true }, [line])
  else if startsWith line (ascii "/connect") then
    if c.mode = .wait then (some c, []) else (some c, [line])
  else (some c, [line])

/-- `handle_sigint`; in CHAT mode it sends `LEAVE` to the peer. -/
def sigint (c : ClientProcess) : ClientProcess × List Bytes :=
  match c.mode with
  | .info | .chat => (c, [])
  | .wait => ({ c with mode := .info }, [ascii "/stop_wait"])

/-- `bind` or `listen` fails: `continue`, with the mode as it is. -/
def bindFails (c : ClientProcess) : ClientProcess := { c with opening := false }

/-- The rest of `/wait`: the port goes to the server and a wait thread starts. -/
def announce (c : ClientProcess) (port : ℕ) : ClientProcess × List Bytes :=
  ({ c with
    opening := false
    listening := port :: c.listening
    waitThreads := c.waitThreads+1 }, [decimal port])

/-- `handle_connect` after `connect` succeeded. -/
def connected (c : ClientProcess) : ClientProcess := { c with mode := .chat, serverThread := .joining }

/-- `handle_connect` after `connect` failed. -/
def connectFailed (c : ClientProcess) : ClientProcess := { c with serverThread := .receiving }

/-- `wait_for_connection` after `accept` returned a connection whose peer sent `peerId`. -/
def accepted (c : ClientProcess) (peerId : Bytes) : ClientProcess :=
  if peerId.takeWhile (fun b => b ≠ 0) = [] then { c with waitThreads := c.waitThreads-1 }
  else { c with waitThreads := c.waitThreads-1, mode := .chat, waitTalks := c.waitTalks+1 }

end ClientProcess

/-- The name of a client: not empty, short enough for `client_id`, one token of `%s`. -/
def IsName (id : Bytes) : Prop :=
  id ≠ [] ∧ id.length < idSize ∧ ∀ b ∈ id, b ≠ 0 ∧ isSpace b = false

instance (id : Bytes) : Decidable (IsName id) :=
  inferInstanceAs (Decidable (id ≠ [] ∧ id.length < idSize ∧ ∀ b ∈ id, b ≠ 0 ∧ isSpace b = false))

/-- What `main` reads: a line of a text, without its line feed. -/
def IsLine (line : Bytes) : Prop := line ≠ [] ∧ lineIn bufferSize line = some line

instance (line : Bytes) : Decidable (IsLine line) :=
  inferInstanceAs (Decidable (line ≠ [] ∧ lineIn bufferSize line = some line))

theorem IsName.lineIn {id : Bytes} (h : IsName id) : lineIn idSize id = some id := by
  apply lineIn_of_plain h.2.1
  intro b hb
  obtain ⟨hz, hs⟩ := h.2.2 b hb
  refine ⟨hz, ?_⟩
  rintro rfl
  cases hs

theorem IsName.scanToken {id : Bytes} (h : IsName id) (rest : Bytes) :
    scanToken (32 :: (id ++ 32 :: rest)) = (id, 32 :: rest) := by
  have hn (b : Byte) (hb : b ∈ id) : (!isSpace b) = true := by
    rw [(h.2.2 b hb).2]
    rfl
  have hskip : (32 :: (id ++ 32 :: rest)).dropWhile isSpace = id ++ 32 :: rest := by
    rw [List.dropWhile_cons_of_pos (by decide)]
    cases hid : id with
    | nil => exact absurd hid h.1
    | cons b bs =>
      rw [List.cons_append, List.dropWhile_cons_of_neg]
      rw [(h.2.2 b (by rw [hid]; exact List.mem_cons_self)).2]
      exact Bool.false_ne_true
  rw [CText.scanToken, hskip, List.takeWhile_append_of_pos hn, List.dropWhile_append_of_pos hn,
    List.takeWhile_cons_of_neg (by decide), List.dropWhile_cons_of_neg (by decide), List.append_nil]

theorem decimalInt_ne_zero (port : Int) : ∀ b ∈ decimalInt port, b ≠ 0 := by
  have hdigits (n : ℕ) : ∀ b ∈ decimal n, b ≠ 0 := by
    rintro b hb rfl
    exact zero_notMem_decimal n hb
  cases port with
  | ofNat n => exact hdigits n
  | negSucc n =>
    intro b hb
    rcases List.mem_append.mp hb with hb | hb
    · rw [List.mem_singleton.mp hb]
      decide
    · exact hdigits (n+1) b hb

theorem startsNumber_decimalInt (port : Int) :
    startsNumber (32 :: (decimalInt port ++ [10])) = true := by
  have hten : ∀ b ∈ List.head? [(10 : Byte)], isDigit b = false := by decide
  cases port with
  | ofNat n =>
    simp only [startsNumber, decimalInt, List.dropWhile_cons_of_pos (show isSpace 32 = true by decide),
      dropWhile_isSpace_decimal, if_neg (decimal_unsigned n [10]),
      takeWhile_isDigit_decimal n [10] hten]
    simpa using decimal_ne_nil n
  | negSucc n =>
    have hcons : decimalInt (.negSucc n) ++ [10] = 45 :: (decimal (n+1) ++ [10]) := rfl
    rw [hcons]
    simp only [startsNumber, List.dropWhile_cons_of_pos (show isSpace 32 = true by decide),
      List.dropWhile_cons_of_neg (show ¬ isSpace 45 = true by decide), List.head?_cons, true_or,
      ↓reduceIte, List.tail_cons, takeWhile_isDigit_decimal (n+1) [10] hten]
    simpa using decimal_ne_nil (n+1)

theorem serverMessage_of_scanConnect {data peerId peerIp : Bytes} {peerPort : Int}
    (h : scanConnect data = some (peerId, peerIp, peerPort)) :
    serverMessage data = some (.connect peerId peerPort) := by
  simp only [scanConnect, Option.ite_none_right_eq_some, Option.some.injEq, Prod.mk.injEq] at h
  obtain ⟨⟨hstarts, hread⟩, rfl, rfl, rfl⟩ := h
  simp only [serverMessage, hstarts, ↓reduceIte]
  exact if_pos hread

/-- The client reads the id that the server names in a `CONNECT`, and its address. -/
theorem scanConnect_connect {id : Bytes} (h : IsName id) (port : Int) :
    scanConnect (Reply.connect id port).text =
      some (id, ascii "127.0.0.1", atoi (32 :: (decimalInt port ++ [10]))) := by
  have htext : (Reply.connect id port).text = ascii "CONNECT" ++
      32 :: (id ++ 32 :: (ascii "127.0.0.1" ++ 32 :: (decimalInt port ++ [10]))) := by
    simp only [Reply.text, List.append_assoc]
    rfl
  have hbuffer : (Reply.connect id port).text.takeWhile (fun b => b ≠ 0) =
      (Reply.connect id port).text := by
    apply takeWhile_ne_zero
    have hword : (0 : Byte) ∉ ascii "CONNECT " := by decide
    have hip : (0 : Byte) ∉ ascii " 127.0.0.1 " := by decide
    have hline : (0 : Byte) ∉ ascii "\n" := by decide
    have hid : (0 : Byte) ∉ id := fun hz => (h.2.2 0 hz).1 rfl
    have hport : (0 : Byte) ∉ decimalInt port := fun hz => decimalInt_ne_zero port 0 hz rfl
    simp only [Reply.text, List.mem_append, hword, hip, hline, hid, hport, or_false,
      not_false_eq_true]
  have hstarts : startsWith (Reply.connect id port).text (ascii "CONNECT") = true := by
    rw [htext, startsWith, List.isPrefixOf_iff_prefix]
    exact List.prefix_append _ _
  have hdrop : (Reply.connect id port).text.drop 7 =
      32 :: (id ++ 32 :: (ascii "127.0.0.1" ++ 32 :: (decimalInt port ++ [10]))) := by
    rw [htext]
    exact List.drop_left' rfl
  have hip : IsName (ascii "127.0.0.1") := by decide
  simp only [scanConnect, hbuffer, hdrop, h.scanToken, hip.scanToken]
  exact if_pos ⟨hstarts, h.1, h.2.1, hip.1, by decide, startsNumber_decimalInt port⟩

theorem serverMessage_connect {id : Bytes} (h : IsName id) (port : Int) :
    ∃ peerPort, serverMessage (Reply.connect id port).text = some (.connect id peerPort) :=
  ⟨_, serverMessage_of_scanConnect (scanConnect_connect h port)⟩

/-- A line does not start with two words unless one starts the other. -/
theorem not_startsWith {line a b : Bytes} (ha : startsWith line a = true) (hl : a.length = b.length)
    (hne : a ≠ b) : startsWith line b = false := by
  rw [Bool.eq_false_iff]
  intro hb
  unfold startsWith at ha hb
  rw [List.isPrefixOf_iff_prefix] at ha hb
  exact hne ((List.prefix_of_prefix_length_le ha hb (Nat.le_of_eq hl)).eq_of_length hl)

/-- A longer word tells the same about the shorter one that it starts with. -/
theorem startsWith_take {line word : Bytes} (h : startsWith line word = true) (n : ℕ) :
    startsWith line (word.take n) = true := by
  unfold startsWith at h ⊢
  rw [List.isPrefixOf_iff_prefix] at h ⊢
  exact (List.take_prefix n word).trans h

theorem commandOf_wait {line : Bytes} (h : startsWith line (ascii "/wait") = true) :
    commandOf line = .wait := by
  have hlist := not_startsWith h (b := ascii "/list") (by decide) (by decide)
  simp only [commandOf, hlist, h, Bool.false_eq_true, ↓reduceIte]

theorem commandOf_connect {line : Bytes} (h : startsWith line (ascii "/connect") = true) :
    commandOf line = .connect := by
  have h5 := startsWith_take h 5
  have hlist := not_startsWith h5 (b := ascii "/list") rfl (by decide)
  have hwait := not_startsWith h5 (b := ascii "/wait") rfl (by decide)
  simp only [commandOf, hlist, hwait, h, Bool.false_eq_true, ↓reduceIte]

/-- What the server reads in a line that `main` sends as it is. -/
theorem commandOf_other {line : Bytes} (hquit : ¬ startsWith line (ascii "/quit") = true)
    (hwait : ¬ startsWith line (ascii "/wait") = true)
    (hconnect : ¬ startsWith line (ascii "/connect") = true) :
    commandOf line = .list ∨ commandOf line = .badPrompt ∨
      (commandOf line = .stopWait ∧ startsWith line (ascii "/stop_wait") = true) := by
  unfold commandOf
  rw [if_neg hwait, if_neg hconnect, if_neg hquit]
  split_ifs with hlist hstop
  · exact Or.inl rfl
  · exact Or.inr (Or.inr ⟨rfl, hstop⟩)
  · exact Or.inr (Or.inl rfl)

theorem commandOf_decimal (n : ℕ) : commandOf (decimal n) = .badPrompt := by
  have hhead := head_decimal_ne n [] (c := 47) (by decide)
  rw [List.append_nil] at hhead
  have hno (word : Bytes) (hw : word.head? = some 47) : startsWith (decimal n) word = false := by
    rw [Bool.eq_false_iff]
    intro h
    unfold startsWith at h
    rw [List.isPrefixOf_iff_prefix] at h
    obtain ⟨rest, hrest⟩ := h
    rw [← hrest, List.head?_append, hw] at hhead
    exact hhead rfl
  simp only [commandOf, hno (ascii "/list") rfl, hno (ascii "/wait") rfl, hno (ascii "/connect") rfl,
    hno (ascii "/stop_wait") rfl, hno (ascii "/quit") rfl, Bool.false_eq_true, ↓reduceIte]

theorem isLine_decimal {n : ℕ} (h : n < 2^16) : IsLine (decimal n) := by
  have hlen : (decimal n).length ≤ 5 := (length_decimal_le_iff (by decide)).mpr (by omega)
  refine ⟨decimal_ne_nil n, ?_⟩
  apply lineIn_of_plain (Nat.lt_of_le_of_lt hlen (by decide))
  intro b hb
  have hd := decimal_all_digits n b hb
  constructor
  · rintro rfl
    cases hd
  · rintro rfl
    cases hd

end NetTools.IRC
