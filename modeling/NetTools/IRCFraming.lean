import NetTools.IRCClient
import NetTools.Segmentation
import Mathlib.Data.List.Induction

namespace NetTools.IRC

open CText Segmentation

/-- What a handler executes. `again` is a `/wait` of a client that is in the waiting list,
for which no port message is received. -/
inductive Executed
  | command (line : Bytes)
  | wait (line : Bytes) (port : Int)
  | again (line : Bytes)
  deriving DecidableEq

/-- The command loop of `client_handler` on what its calls of `recv` return, after which
the connection is closed. `found` are the registries that its `/wait` commands find, `waits` counts
those, and `port` is the line of a `/wait` whose port message is received next. It is `none` when a
line runs past the end of the buffer, or a new entry past the end of the waiting list. -/
def serveLoop (clientId : Bytes) (found : ℕ → Registry) (waits : ℕ) (port : Option Bytes) :
    List Bytes → Option (List Executed)
  | [] =>
    match port with
    | none => some []
    | some line => some [.wait line (atoi [])]
  | data :: rest =>
    match port with
    | some line =>
      if 0 < atoi data ∧ (found waits).addWaiting clientId (atoi data) = none then none
      else (serveLoop clientId found (waits+1) none rest).map (.wait line (atoi data) :: ·)
    | none => (lineIn bufferSize data).bind fun buffer =>
      match commandOf buffer with
      | .quit => some [.command buffer]
      | .wait =>
        match (found waits).waitingIndex clientId with
        | some _ => (serveLoop clientId found (waits+1) none rest).map (.again buffer :: ·)
        | none => serveLoop clientId found waits (some buffer) rest
      | _ => (serveLoop clientId found waits none rest).map (.command buffer :: ·)

/-- `client_handler`: the id comes first, and a closed connection leaves it empty. The result is the
id that is registered, `none` for one that is taken, and what is executed. -/
def serve (registry : Registry) (clientSocket : ℕ) (found : ℕ → Registry) (chunks : List Bytes) :
    Option (Option Bytes × List Executed) :=
  (lineIn idSize (chunks.headD [])).bind fun clientId =>
    if registry.idTaken clientId then some (none, [])
    else (registry.addClient clientId clientSocket).bind fun _ =>
      (serveLoop clientId found 0 none chunks.tail).map fun executed => (some clientId, executed)

/-- What `main` sends for one line that is typed. -/
inductive Item
  | line (text : Bytes)
  | wait (text : Bytes) (port : ℕ)

/-- The sends of an item. -/
def Item.texts : Item → List Bytes
  | line text => [text]
  | wait text port => [text, decimal port]

def Item.executed : Item → Executed
  | line text => .command text
  | wait text port => .wait text port

/-- `main` takes the line for what the item is. -/
def Item.Typed : Item → Prop
  | line text => IsLine text ∧ startsWith text (ascii "/wait") = false ∧
      startsWith text (ascii "/quit") = false
  | wait text port => IsLine text ∧ startsWith text (ascii "/wait") = true ∧ 0 < port ∧ port < 2^16

instance : ∀ item : Item, Decidable item.Typed
  | .line text => inferInstanceAs (Decidable (IsLine text ∧
      startsWith text (ascii "/wait") = false ∧ startsWith text (ascii "/quit") = false))
  | .wait text port => inferInstanceAs (Decidable (IsLine text ∧
      startsWith text (ascii "/wait") = true ∧ 0 < port ∧ port < 2^16))

def Item.isWait : Item → Bool
  | line _ => false
  | wait _ _ => true

theorem commandOf_ne_wait {line : Bytes} (h : startsWith line (ascii "/wait") = false) :
    commandOf line ≠ .wait := by
  simp only [commandOf, h, Bool.false_eq_true, ↓reduceIte]
  split_ifs <;> decide

theorem commandOf_ne_quit {line : Bytes} (h : startsWith line (ascii "/quit") = false) :
    commandOf line ≠ .quit := by
  simp only [commandOf, h, Bool.false_eq_true, ↓reduceIte]
  split_ifs <;> decide

theorem digitsValue_lt {ds : Bytes} (h : ∀ b ∈ ds, isDigit b = true) :
    digitsValue ds < 10^ds.length := by
  induction ds using List.reverseRecOn with
  | nil => exact Nat.one_pos
  | append_singleton ds d ih =>
    have hd := h d (List.mem_append_right _ (List.mem_singleton_self d))
    have hlow := ih fun b hb => h b (List.mem_append_left _ hb)
    simp only [isDigit, Bool.and_eq_true, decide_eq_true_eq, UInt8.le_iff_toNat_le,
      UInt8.reduceToNat] at hd
    rw [digitsValue_append_one, List.length_append, List.length_singleton, Nat.pow_succ]
    omega

/-- `atoi` reads no more digits than the text has. -/
theorem atoi_lt {text : Bytes} (hlen : text.length ≤ 4) : atoi text < 10^text.length := by
  have hskip : (text.dropWhile isSpace).length ≤ text.length := List.length_dropWhile_le _ _
  have hds (r : Bytes) (hr : r.length ≤ text.length) :
      digitsValue (r.takeWhile isDigit) < 10^text.length :=
    calc digitsValue (r.takeWhile isDigit)
      _ < 10^(r.takeWhile isDigit).length := digitsValue_lt fun b hb => List.mem_takeWhile_imp hb
      _ ≤ 10^text.length := Nat.pow_le_pow_right (by decide)
          ((List.takeWhile_prefix _).length_le.trans hr)
  have hbound : 10^text.length ≤ 10^4 := Nat.pow_le_pow_right (by decide) hlen
  have hv := hds (if (text.dropWhile isSpace).head? = some 45 ∨
      (text.dropWhile isSpace).head? = some 43 then (text.dropWhile isSpace).tail
    else text.dropWhile isSpace) (by
      split_ifs
      · rw [List.length_tail]
        omega
      · exact hskip)
  simp only [atoi]
  generalize digitsValue _ = v at hv ⊢
  have hcast : (v : Int) < 10^text.length := by exact_mod_cast hv
  split_ifs
  · rw [max_eq_left (by omega), Int.bmod_eq_of_le (by omega) (by omega)]
    omega
  · rw [min_eq_left (by omega), Int.bmod_eq_of_le (by omega) (by omega)]
    exact hcast

/-- A text whose `atoi` is a port number has at least the digits of that port. -/
theorem decimal_length_le_of_atoi {text : Bytes} {port : ℕ} (hport : port < 2^16)
    (hpos : 0 < port) (h : atoi text = port) : (decimal port).length ≤ text.length := by
  by_contra hlt
  have hfive : (decimal port).length ≤ 5 := by
    rw [decimal, List.length_map, Nat.length_toDigits_le_iff (by decide) (by decide)]
    omega
  have hvalue : atoi text < 10^text.length := atoi_lt (by omega)
  rw [h] at hvalue
  have hlow : port < 10^text.length := by exact_mod_cast hvalue
  rcases Nat.eq_zero_or_pos text.length with hn | hn
  · rw [hn] at hlow
    omega
  · apply hlt
    rw [decimal, List.length_map, Nat.length_toDigits_le_iff (by decide) hn]
    exact hlow

theorem length_le_of_lineIn {cap : ℕ} {data line : Bytes} (h : lineIn cap data = some line) :
    line.length ≤ data.length ∧ ∀ b ∈ line, b ≠ 0 ∧ b ≠ 10 := by
  simp only [lineIn, Option.ite_none_right_eq_some, Option.some.injEq] at h
  obtain ⟨-, rfl⟩ := h
  refine ⟨(List.takeWhile_prefix _).length_le, ?_⟩
  intro b hb
  simpa using List.mem_takeWhile_imp hb

/-- `/wait` finds the id not in the waiting list, and room for it. -/
structure Admits (registry : Registry) (clientId : Bytes) : Prop where
  unlisted : registry.waitingIndex clientId = none
  room : 0 ≤ registry.waitingCount ∧ registry.waitingCount < maxWaiting

theorem addWaiting_eq_none_iff {registry : Registry} {clientId : Bytes} {port : Int} :
    registry.addWaiting clientId port = none ↔
      ¬ (0 ≤ registry.waitingCount ∧ registry.waitingCount < maxWaiting) := by
  rw [Registry.addWaiting, ite_eq_right_iff]
  exact imp_congr_right fun _ => iff_of_false (Option.some_ne_none _) id

section serveLoop

variable {id : Bytes} {found : ℕ → Registry} {n : ℕ} {data buffer : Bytes} {rest : List Bytes}
  {out : List Executed}

theorem serveLoop_command (hb : lineIn bufferSize data = some buffer)
    (hq : commandOf buffer ≠ .quit)
    (hw : commandOf buffer ≠ .wait) :
    serveLoop id found n none (data :: rest) =
      (serveLoop id found n none rest).map (.command buffer :: ·) := by
  simp only [serveLoop, hb, Option.bind_some]

theorem serveLoop_wait (hb : lineIn bufferSize data = some buffer) (hw : commandOf buffer = .wait)
    (hl : (found n).waitingIndex id = none) :
    serveLoop id found n none (data :: rest) = serveLoop id found n (some buffer) rest := by
  simp only [serveLoop, hb, Option.bind_some, hw, hl]

/-- What a piece read as a command line can lead to. -/
theorem serveLoop_cases (h : serveLoop id found n none (data :: rest) = some out) :
    ∃ buffer, lineIn bufferSize data = some buffer ∧
      ((commandOf buffer = .quit ∧ out = [.command buffer]) ∨
      (∃ out', out = .again buffer :: out') ∨
      ((found n).waitingIndex id = none ∧ serveLoop id found n (some buffer) rest = some out) ∨
      (∃ out', out = .command buffer :: out' ∧ serveLoop id found n none rest = some out')) := by
  rw [serveLoop] at h
  obtain ⟨buffer, hb, h⟩ := Option.bind_eq_some_iff.mp h
  refine ⟨buffer, hb, ?_⟩
  split at h
  · rename_i hq
    cases h
    exact Or.inl ⟨hq, rfl⟩
  · split at h
    · obtain ⟨out', -, rfl⟩ := Option.map_eq_some_iff.mp h
      exact Or.inr (Or.inl ⟨out', rfl⟩)
    · rename_i hl
      exact Or.inr (Or.inr (Or.inl ⟨hl, h⟩))
  · obtain ⟨out', hout, rfl⟩ := Option.map_eq_some_iff.mp h
    exact Or.inr (Or.inr (Or.inr ⟨out', rfl, hout⟩))

/-- After the line of a `/wait` the next piece is its port message. -/
theorem serveLoop_port {line : Bytes} (h : serveLoop id found n (some line) rest = some out) :
    (rest = [] ∧ out = [.wait line (atoi [])]) ∨
    ∃ data rest' out', rest = data :: rest' ∧ out = .wait line (atoi data) :: out' ∧
      serveLoop id found (n+1) none rest' = some out' ∧
      (0 < atoi data → 0 ≤ (found n).waitingCount ∧ (found n).waitingCount < maxWaiting) := by
  cases rest with
  | nil =>
    cases h
    exact Or.inl ⟨rfl, rfl⟩
  | cons data rest' =>
    rw [serveLoop, Option.ite_none_left_eq_some, addWaiting_eq_none_iff] at h
    obtain ⟨hroom, h⟩ := h
    obtain ⟨out', hout, rfl⟩ := Option.map_eq_some_iff.mp h
    refine Or.inr ⟨data, rest', out', rfl, rfl, hout, fun hpos => ?_⟩
    by_contra hfull
    exact hroom ⟨hpos, hfull⟩

end serveLoop

/-- Read as it was sent, with no `/wait` that is turned away, the loop executes what was typed. -/
theorem serveLoop_texts {id : Bytes} {found : ℕ → Registry} {items : List Item}
    (ht : ∀ item ∈ items, item.Typed) (n : ℕ)
    (hl : ∀ k, n ≤ k → k < n+items.countP Item.isWait → Admits (found k) id) :
    serveLoop id found n none (items.flatMap Item.texts) = some (items.map Item.executed) := by
  induction items generalizing n with
  | nil => rfl
  | cons item items ih =>
    have htail : ∀ item ∈ items, item.Typed := fun i hi => ht i (List.mem_cons_of_mem _ hi)
    cases item with
    | line text =>
      obtain ⟨⟨-, hline⟩, hwait, hquit⟩ := ht _ List.mem_cons_self
      have hrest := ih htail n fun k hk hlt => hl k hk (by simpa [Item.isWait] using hlt)
      simp only [List.flatMap_cons, Item.texts, List.singleton_append,
        serveLoop_command hline (commandOf_ne_quit hquit) (commandOf_ne_wait hwait), hrest]
      rfl
    | wait text port =>
      obtain ⟨⟨-, hline⟩, hwait, hpos, hport⟩ := ht _ List.mem_cons_self
      have hcount : (Item.wait text port :: items).countP Item.isWait = items.countP Item.isWait+1 :=
        List.countP_cons_of_pos rfl
      have hfree := hl n (Nat.le_refl n) (by omega)
      have hrest := ih htail (n+1) fun k hk hlt => hl k (by omega) (by omega)
      have hroom : ¬ (0 < atoi (decimal port) ∧
          (found n).addWaiting id (atoi (decimal port)) = none) := by
        rw [addWaiting_eq_none_iff]
        exact fun h => h.2 hfree.room
      simp only [List.flatMap_cons, Item.texts, List.cons_append, List.nil_append,
        serveLoop_wait hline (commandOf_wait hwait) hfree.unlisted]
      rw [serveLoop, if_neg hroom, hrest, atoi_decimal (by omega)]
      rfl

/-- The loop executes what was typed only on pieces that are no shorter than the sends, one
for each send. -/
theorem lengths_of_serveLoop {id : Bytes} {found : ℕ → Registry} {items : List Item}
    (ht : ∀ item ∈ items, item.Typed) {n : ℕ} {chunks : List Bytes}
    (h : serveLoop id found n none chunks = some (items.map Item.executed)) :
    List.Forall₂ (fun x y => x.length ≤ y.length) (items.flatMap Item.texts) chunks ∧
      ∀ k, n ≤ k → k < n+items.countP Item.isWait → Admits (found k) id := by
  induction items generalizing n chunks with
  | nil =>
    cases chunks with
    | nil => exact ⟨.nil, fun k hk hlt => absurd hlt (by simpa using hk)⟩
    | cons data rest =>
      -- every piece is executed as something
      exfalso
      obtain ⟨buffer, -, ⟨-, ho⟩ | ⟨out', ho⟩ | ⟨-, hs⟩ | ⟨out', ho, -⟩⟩ := serveLoop_cases h
      · cases ho
      · cases ho
      · rcases serveLoop_port hs with ⟨-, ho⟩ | ⟨_, _, _, -, ho, -⟩ <;> cases ho
      · cases ho
  | cons item items ih =>
    have htail : ∀ item ∈ items, item.Typed := fun i hi => ht i (List.mem_cons_of_mem _ hi)
    cases chunks with
    | nil => cases h
    | cons data rest =>
      obtain ⟨buffer, hb, hcases⟩ := serveLoop_cases h
      have hlen := (length_le_of_lineIn hb).1
      cases item with
      -- a line is executed as a line only when the piece was read as one
      | line text =>
        obtain ⟨-, -, hquit⟩ := ht _ List.mem_cons_self
        rcases hcases with ⟨hq, ho⟩ | ⟨out', ho⟩ | ⟨-, hs⟩ | ⟨out', ho, hs⟩
        · cases (List.cons.inj ho).1
          exact absurd hq (commandOf_ne_quit hquit)
        · cases ho
        · rcases serveLoop_port hs with ⟨-, ho⟩ | ⟨_, _, _, -, ho, -⟩ <;> cases ho
        · obtain ⟨he, rfl⟩ := List.cons.inj ho
          cases he
          obtain ⟨hlens, hlisted⟩ := ih htail hs
          exact ⟨.cons hlen hlens, fun k hk hlt => hlisted k hk (by simpa [Item.isWait] using hlt)⟩
      -- a `/wait` takes two pieces, the second of at least the digits of its port
      | wait text port =>
        obtain ⟨-, -, hpos, hport⟩ := ht _ List.mem_cons_self
        have hcount : (Item.wait text port :: items).countP Item.isWait =
            items.countP Item.isWait+1 := List.countP_cons_of_pos rfl
        rcases hcases with ⟨-, ho⟩ | ⟨out', ho⟩ | ⟨hfree, hs⟩ | ⟨out', ho, -⟩
        · cases ho
        · cases ho
        · rcases serveLoop_port hs with ⟨-, ho⟩ | ⟨data', rest', out', rfl, ho, hs', hroom⟩
          · -- the connection ended in place of the port message
            have he := (List.cons.inj ho).1
            simp only [Item.executed, Executed.wait.injEq] at he
            have hzero : atoi [] = 0 := by decide
            omega
          · obtain ⟨he, rfl⟩ := List.cons.inj ho
            simp only [Item.executed, Executed.wait.injEq] at he
            obtain ⟨rfl, hatoi⟩ := he
            obtain ⟨hlens, hlisted⟩ := ih htail hs'
            refine ⟨.cons hlen (.cons (decimal_length_le_of_atoi hport hpos hatoi.symm) hlens), ?_⟩
            intro k hk hlt
            rcases Nat.eq_or_lt_of_le hk with rfl | hk
            · exact ⟨hfree, hroom (by omega)⟩
            · exact hlisted k hk (by omega)
        · cases ho

/-- Everything a client sends on its connection to the server. -/
structure Sends where
  id : Bytes
  items : List Item

/-- The sends, in order; an empty id sends nothing. -/
def Sends.texts (m : Sends) : List Bytes :=
  (if m.id = [] then [] else [m.id]) ++ m.items.flatMap Item.texts

/-- The id fits `client_info.id`, and `main` sent each item for what it is. -/
structure Sends.Typed (m : Sends) : Prop where
  length : m.id.length < idSize
  noZero : (0 : Byte) ∉ m.id
  items : ∀ item ∈ m.items, item.Typed

/-- When the server gets what was meant: every `recv` returns exactly one send, the id is
one line and not empty unless nothing follows, it is free and there is room for it, and every
`/wait` is admitted. -/
structure Framed (m : Sends) (registry : Registry) (found : ℕ → Registry) (chunks : List Bytes) :
    Prop where
  aligned : chunks = m.texts
  named : m.id = [] → m.items = []
  oneLine : (10 : Byte) ∉ m.id
  free : registry.idTaken m.id = false
  room : registry.clientCount < maxClients
  admitted : ∀ k < m.items.countP Item.isWait, Admits (found k) m.id

/-- The bytes of an item are those of lines. -/
theorem Item.Typed.bytes {item : Item} (h : item.Typed) :
    ∀ text ∈ item.texts, ∀ b ∈ text, b ≠ 0 ∧ b ≠ 10 := by
  intro text htext
  cases item with
  | line line =>
    rw [List.mem_singleton.mp htext]
    exact (length_le_of_lineIn h.1.2).2
  | wait line port =>
    rcases List.mem_cons.mp htext with rfl | htext
    · exact (length_le_of_lineIn h.1.2).2
    · rw [List.mem_singleton.mp htext]
      exact (length_le_of_lineIn (isLine_decimal h.2.2.2).2).2

theorem Sends.Typed.lineIn_id {m : Sends} (h : m.Typed) (hl : (10 : Byte) ∉ m.id) :
    lineIn idSize m.id = some m.id := by
  apply lineIn_of_plain h.length
  intro b hb
  exact ⟨fun he => h.noZero (he ▸ hb), fun he => hl (he ▸ hb)⟩

theorem serve_eq_some {registry : Registry} {clientSocket : ℕ} {found : ℕ → Registry}
    {chunks : List Bytes} {id : Bytes} {executed : List Executed} :
    serve registry clientSocket found chunks = some (some id, executed) ↔
      lineIn idSize (chunks.headD []) = some id ∧ registry.idTaken id = false ∧
        registry.clientCount < maxClients ∧
        serveLoop id found 0 none chunks.tail = some executed := by
  rw [serve, Option.bind_eq_some_iff]
  have hone (clientId : Bytes) :
      (if registry.idTaken clientId then some (none, [])
        else (registry.addClient clientId clientSocket).bind fun _ =>
          (serveLoop clientId found 0 none chunks.tail).map fun executed => (some clientId, executed)) =
        some (some id, executed) ↔
      clientId = id ∧ registry.idTaken id = false ∧ registry.clientCount < maxClients ∧
        serveLoop id found 0 none chunks.tail = some executed := by
    by_cases htaken : registry.idTaken clientId = true
    · rw [if_pos htaken]
      refine iff_of_false (by simp) ?_
      rintro ⟨rfl, hfree, -⟩
      rw [htaken] at hfree
      cases hfree
    · rw [if_neg htaken, Registry.addClient]
      by_cases hroom : registry.clientCount < maxClients
      · rw [if_pos hroom, Option.bind_some, Option.map_eq_some_iff]
        constructor
        · rintro ⟨executed', hloop, he⟩
          obtain ⟨hid, rfl⟩ := Prod.mk.inj he
          obtain rfl := Option.some.inj hid
          exact ⟨rfl, by simpa using htaken, hroom, hloop⟩
        · rintro ⟨rfl, -, -, hloop⟩
          exact ⟨executed, hloop, rfl⟩
      · rw [if_neg hroom]
        exact iff_of_false (by simp) fun h => hroom h.2.2.1
  constructor
  · rintro ⟨clientId, hline, hserve⟩
    obtain ⟨rfl, hrest⟩ := (hone clientId).mp hserve
    exact ⟨hline, hrest⟩
  · rintro ⟨hline, hrest⟩
    exact ⟨id, hline, (hone id).mpr ⟨rfl, hrest⟩⟩

/-- Over any way to cut the stream, the handler registers the id and executes the items as
they were sent exactly when the stream is cut where the client cut it, the id is usable and can be
registered, and every `/wait` finds its client not in the waiting list, with room for it. -/
theorem serves_what_was_sent_iff (m : Sends) (hm : m.Typed) (registry : Registry)
    (clientSocket : ℕ) (found : ℕ → Registry) (chunks : List Bytes)
    (h : Segments m.texts chunks) :
    serve registry clientSocket found chunks = some (some m.id, m.items.map Item.executed) ↔
      Framed m registry found chunks := by
  rw [serve_eq_some]
  constructor
  · rintro ⟨hid, hfree, hroom, hloop⟩
    obtain ⟨hlens, hadmitted⟩ := lengths_of_serveLoop hm.items hloop
    have hadmits : ∀ k < m.items.countP Item.isWait, Admits (found k) m.id :=
      fun k hk => hadmitted k (Nat.zero_le k) (by omega)
    cases chunks with
    | nil =>
      have hnil : m.id = [] := (Option.some.inj hid).symm
      have hitems : m.items = [] := List.map_eq_nil_iff.mp (Option.some.inj hloop).symm
      refine ⟨?_, fun _ => hitems, ?_, hfree, hroom, hadmits⟩
      · rw [Sends.texts, if_pos hnil, hitems]
        rfl
      · rw [hnil]
        exact List.not_mem_nil
    | cons data rest =>
      obtain ⟨hlen, hbytes⟩ := length_le_of_lineIn hid
      have hnamed : m.id ≠ [] := by
        intro hnil
        -- the id would be taken from the first bytes of an item
        obtain ⟨b, bs, rfl⟩ := List.exists_cons_of_ne_nil (h.nonempty data List.mem_cons_self)
        have hb : b ∈ m.texts.flatten := by
          rw [← h.stream]
          exact List.mem_cons_self
        rw [Sends.texts, if_pos hnil, List.nil_append] at hb
        obtain ⟨text, htext, hb⟩ := List.mem_flatten.mp hb
        obtain ⟨item, hitem, htext⟩ := List.mem_flatMap.mp htext
        obtain ⟨hz, hn⟩ := (hm.items item hitem).bytes text htext b hb
        rw [hnil] at hid
        simp [lineIn, hz, hn] at hid
      refine ⟨?_, fun hnil => absurd hnil hnamed, fun hten => (hbytes 10 hten).2 rfl, hfree, hroom,
        hadmits⟩
      have htexts : m.texts = m.id :: m.items.flatMap Item.texts := by
        rw [Sends.texts, if_neg hnamed]
        rfl
      rw [htexts]
      exact eq_of_length_le (.cons hlen hlens) (htexts ▸ h.stream)
  · rintro ⟨rfl, hnamed, hline, hfree, hroom, hadmitted⟩
    have hloop := serveLoop_texts hm.items 0 fun k _ hk => hadmitted k (by omega)
    by_cases hid : m.id = []
    · have hitems := hnamed hid
      have htexts : m.texts = [] := by
        rw [Sends.texts, if_pos hid, hitems]
        rfl
      rw [htexts, hid]
      refine ⟨rfl, hid ▸ hfree, hroom, ?_⟩
      rw [hitems]
      rfl
    · have htexts : m.texts = m.id :: m.items.flatMap Item.texts := by
        rw [Sends.texts, if_neg hid]
        rfl
      rw [htexts]
      exact ⟨hm.lineIn_id hline, hfree, hroom, hloop⟩

/-- The id and the first command arrive together: the client is registered under both, and
the command is lost. -/
theorem merged_id_is_registered :
    ∃ (m : Sends) (chunks : List Bytes), m.Typed ∧ Segments m.texts chunks ∧
      m.id = ascii "bob" ∧ m.items.map Item.executed = [.command (ascii "/list")] ∧
      serve .empty 4 (fun _ => .empty) chunks = some (some (ascii "bob/list"), []) := by
  refine ⟨⟨ascii "bob", [.line (ascii "/list")]⟩, [ascii "bob/list"], ⟨?_, ?_, ?_⟩,
    ⟨?_, ?_⟩, rfl, rfl, ?_⟩
  all_goals decide

/-- Each send is received by itself, and the port message belongs to its `/wait`. -/
theorem serves_what_was_sent_waiter :
    serve .empty 4 (fun _ => .empty) [ascii "bob", ascii "/wait", ascii "5001", ascii "/list"] =
      some (some (ascii "bob"), [.wait (ascii "/wait") 5001, .command (ascii "/list")]) := by
  have hm : Sends.Typed ⟨ascii "bob", [.wait (ascii "/wait") 5001, .line (ascii "/list")]⟩ := by
    constructor <;> decide
  have htexts : Sends.texts ⟨ascii "bob", [.wait (ascii "/wait") 5001, .line (ascii "/list")]⟩ =
      [ascii "bob", ascii "/wait", ascii "5001", ascii "/list"] := by decide
  rw [← htexts]
  refine (serves_what_was_sent_iff _ hm .empty 4 (fun _ => .empty) _ (segments_self ?_)).mpr
    ⟨rfl, ?_, ?_, ?_, ?_, ?_⟩
  · rw [htexts]
    decide
  · exact nofun
  · decide
  · rfl
  · decide
  · exact fun _ _ => ⟨rfl, by decide⟩

end NetTools.IRC
