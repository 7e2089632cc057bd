import NetTools.PlannerSafety

namespace NetTools.Download

open CText

/-- The size of `servers[i]`. -/
def serverSize : ℕ := 256

/-- `%d`: white space, a sign and digits; `none` where no digit follows, and then the sign is read
all the same. -/
def scanInt (s : Bytes) : Option Int × Bytes :=
  let r := s.dropWhile isSpace
  let text := if r.head? = some 45 ∨ r.head? = some 43 then r.tail else r
  if text.takeWhile isDigit = [] then (none, text)
  else (some (longToInt (leadingNumber s)), text.dropWhile isDigit)

/-- One `fscanf(file, "%s %d", ...)`; `none` is `EOF`, which only a missing token gives. -/
def scanEntry (text : Bytes) : Option (Entry × Bytes) :=
  let token := scanToken text
  let port := scanInt token.2
  if token.1 = [] then none else some (⟨token.1, port.1⟩, port.2)

/-- The `while` loop, of which every turn but the last takes a byte from the file; `none` is a token
that does not fit `servers[i]`. -/
def scanEntries : ℕ → Bytes → Option (List Entry)
  | 0, _ => some []
  | fuel+1, text =>
    match scanEntry text with
    | none => some []
    | some (entry, rest) =>
      if entry.server.length < serverSize then (scanEntries fuel rest).map (entry :: ·) else none

/-- All that the loop reads. -/
def entriesOf (text : Bytes) : Option (List Entry) := scanEntries text.length text

section Scan

variable {text rest : Bytes} {entry : Entry}

theorem length_dropWhile_le {α : Type*} (p : α → Bool) (l : List α) :
    (l.dropWhile p).length ≤ l.length :=
  (List.dropWhile_sublist p).length_le

/-- `%d` does not give text back. -/
theorem length_scanInt_le (s : Bytes) : (scanInt s).2.length ≤ s.length := by
  have hskip := length_dropWhile_le isSpace s
  have hsign : (if (s.dropWhile isSpace).head? = some 45 ∨ (s.dropWhile isSpace).head? = some 43 then
      (s.dropWhile isSpace).tail else s.dropWhile isSpace).length ≤ s.length := by
    split_ifs
    · rw [List.length_tail]
      omega
    · exact hskip
  simp only [scanInt]
  split_ifs at hsign ⊢ with h1 h2 h2
  all_goals first
    | exact hsign
    | exact (length_dropWhile_le _ _).trans hsign

/-- A turn of the loop takes at least the first byte of its token. -/
theorem length_scanEntry (h : scanEntry text = some (entry, rest)) : rest.length < text.length := by
  simp only [scanEntry, Option.ite_none_left_eq_some, Option.some.injEq, Prod.mk.injEq] at h
  obtain ⟨hne, -, rfl⟩ := h
  have hint := length_scanInt_le (scanToken text).2
  have hskip := length_dropWhile_le isSpace text
  have hsplit : (scanToken text).1 ++ (scanToken text).2 = text.dropWhile isSpace :=
    List.takeWhile_append_dropWhile
  have hlen := congrArg List.length hsplit
  have hpos := List.length_pos_iff.mpr hne
  rw [List.length_append] at hlen
  omega

/-- With a turn for each byte the loop ends by itself. -/
theorem scanEntries_eq {f g : ℕ} (hf : text.length ≤ f) (hg : text.length ≤ g) :
    scanEntries f text = scanEntries g text := by
  induction f generalizing g text with
  | zero =>
    obtain rfl : text = [] := List.eq_nil_of_length_eq_zero (by omega)
    cases g <;> rfl
  | succ f ih =>
    cases g with
    | zero =>
      obtain rfl : text = [] := List.eq_nil_of_length_eq_zero (by omega)
      rfl
    | succ g =>
      cases h : scanEntry text with
      | none => simp only [scanEntries, h]
      | some next =>
        obtain ⟨entry, rest⟩ := next
        have hlt := length_scanEntry h
        simp only [scanEntries, h, ih (by omega : rest.length ≤ f) (by omega : rest.length ≤ g)]

theorem entriesOf_end (h : scanEntry text = none) : entriesOf text = some [] := by
  rw [entriesOf]
  cases text.length with
  | zero => rfl
  | succ n => simp only [scanEntries, h]

/-- One turn, and the loop on what is left. -/
theorem entriesOf_cons (h : scanEntry text = some (entry, rest))
    (hfits : entry.server.length < serverSize) :
    entriesOf text = (entriesOf rest).map (entry :: ·) := by
  have hlt := length_scanEntry h
  obtain ⟨n, hn⟩ : ∃ n, text.length = n+1 := ⟨text.length-1, by omega⟩
  rw [entriesOf, hn, scanEntries, h]
  simp only [if_pos hfits]
  rw [entriesOf, scanEntries_eq (by omega : rest.length ≤ n) le_rfl]

end Scan

/-- A line of the file as it is meant: an address and a port. -/
structure ServerLine where
  host : Bytes
  gap : Bytes
  port : Int
  ending : Bytes
  host_ne_nil : host ≠ []
  host_plain : ∀ b ∈ host, isSpace b = false ∧ b ≠ 0
  host_fits : host.length < serverSize
  gap_ne_nil : gap ≠ []
  gap_space : ∀ b ∈ gap, isSpace b = true
  port_range : -2^31 ≤ port ∧ port < 2^31
  ending_space : ∀ b ∈ ending, isSpace b = true

namespace ServerLine

def text (w : ServerLine) : Bytes := w.host ++ (w.gap ++ (decimalInt w.port ++ w.ending))

def entry (w : ServerLine) : Entry := ⟨w.host, some w.port⟩

end ServerLine

/-- The lines of a file, of which only the last may end without white space. -/
structure ServerFile where
  lead : Bytes
  lines : List ServerLine
  lead_space : ∀ b ∈ lead, isSpace b = true
  ended : ∀ w ∈ lines.dropLast, w.ending ≠ []

def ServerFile.text (file : ServerFile) : Bytes :=
  file.lead ++ (file.lines.map ServerLine.text).flatten

section Lines

variable {lead rest : Bytes}

theorem isDigit_of_isSpace {b : Byte} (h : isSpace b = true) : isDigit b = false := by
  rw [← Bool.not_eq_true]
  intro hd
  rw [isSpace_of_isDigit hd] at h
  cases h

theorem decimalInt_head (n : Int) (rest : Bytes) :
    ∃ b more, decimalInt n ++ rest = b :: more ∧ isSpace b = false := by
  cases n with
  | ofNat n =>
    obtain ⟨b, bs, hb⟩ := List.exists_cons_of_ne_nil (decimal_ne_nil n)
    refine ⟨b, bs ++ rest, ?_, ?_⟩
    · rw [decimalInt, hb, List.cons_append]
    · apply isSpace_of_isDigit
      apply decimal_all_digits n
      rw [hb]
      exact List.mem_cons_self
  | negSucc n => exact ⟨45, decimal (n+1) ++ rest, rfl, by decide⟩

/-- `%d` reads a printed number back, and stops behind it. -/
theorem scanInt_decimalInt {gap : Bytes} {port : Int} (hgap : ∀ b ∈ gap, isSpace b = true)
    (hrange : -2^31 ≤ port ∧ port < 2^31) (hr : ∀ b ∈ rest.head?, isDigit b = false) :
    scanInt (gap ++ (decimalInt port ++ rest)) = (some port, rest) := by
  have hskip : (gap ++ (decimalInt port ++ rest)).dropWhile isSpace = decimalInt port ++ rest := by
    obtain ⟨b, more, hb, hspace⟩ := decimalInt_head port rest
    rw [List.dropWhile_append_of_pos hgap, hb, List.dropWhile_cons_of_neg (by simp [hspace])]
  have hnumber : leadingNumber (gap ++ (decimalInt port ++ rest)) = port := by
    calc leadingNumber (gap ++ (decimalInt port ++ rest))
        = leadingNumber (decimalInt port ++ rest) := by
          clear hskip
          induction gap with
          | nil => rfl
          | cons b gap ih =>
            rw [List.cons_append, leadingNumber_cons_space (hgap b List.mem_cons_self)]
            exact ih fun c hc => hgap c (List.mem_cons_of_mem b hc)
      _ = port := leadingNumber_decimalInt port hr
  simp only [scanInt, hskip, hnumber, longToInt_of_range hrange.1 hrange.2]
  cases port with
  | ofNat n =>
    have hdecimal : decimalInt (.ofNat n) = decimal n := rfl
    rw [hdecimal]
    simp only [if_neg (decimal_unsigned n rest), takeWhile_isDigit_decimal n rest hr,
      dropWhile_isDigit_digits (decimal_all_digits n) rest hr, if_neg (decimal_ne_nil n)]
  | negSucc n =>
    have hcons : decimalInt (.negSucc n) ++ rest = 45 :: (decimal (n+1) ++ rest) := rfl
    simp only [hcons, List.head?_cons, true_or, ↓reduceIte, List.tail_cons,
      takeWhile_isDigit_decimal (n+1) rest hr,
      dropWhile_isDigit_digits (decimal_all_digits (n+1)) rest hr, if_neg (decimal_ne_nil (n+1))]

/-- White space in front of a token is skipped. -/
theorem scanToken_lead (hlead : ∀ b ∈ lead, isSpace b = true) (text : Bytes) :
    scanToken (lead ++ text) = scanToken text := by
  simp only [scanToken, List.dropWhile_append_of_pos hlead]

theorem scanEntry_line (w : ServerLine) (hlead : ∀ b ∈ lead, isSpace b = true)
    (hr : ∀ b ∈ (w.ending ++ rest).head?, isDigit b = false) :
    scanEntry (lead ++ (w.text ++ rest)) = some (w.entry, w.ending ++ rest) := by
  have htoken : scanToken (w.text ++ rest) =
      (w.host, w.gap ++ (decimalInt w.port ++ (w.ending ++ rest))) := by
    obtain ⟨b, host, hhost⟩ := List.exists_cons_of_ne_nil w.host_ne_nil
    obtain ⟨c, gap, hgap⟩ := List.exists_cons_of_ne_nil w.gap_ne_nil
    have hplain : ∀ b ∈ w.host, (!isSpace b) = true := by
      intro b hb
      simp [(w.host_plain b hb).1]
    have hb : isSpace b = false := (w.host_plain b (by simp [hhost])).1
    have hc : isSpace c = true := w.gap_space c (by simp [hgap])
    have htext : w.text ++ rest = w.host ++ (w.gap ++ (decimalInt w.port ++ (w.ending ++ rest))) := by
      simp only [ServerLine.text, List.append_assoc]
    have hskip : (w.text ++ rest).dropWhile isSpace =
        w.host ++ (w.gap ++ (decimalInt w.port ++ (w.ending ++ rest))) := by
      rw [htext, hhost, List.cons_append, List.dropWhile_cons_of_neg (by simp [hb])]
    simp only [scanToken, hskip, List.takeWhile_append_of_pos hplain,
      List.dropWhile_append_of_pos hplain]
    rw [hgap, List.cons_append, List.takeWhile_cons_of_neg (by simp [hc]),
      List.dropWhile_cons_of_neg (by simp [hc]), List.append_nil]
  simp only [scanEntry, scanToken_lead hlead, htoken, if_neg w.host_ne_nil,
    scanInt_decimalInt w.gap_space w.port_range hr]
  rfl

/-- The loop reads the lines that were written, whatever white space is around them. -/
theorem entriesOf_lines (lines : List ServerLine) (hlead : ∀ b ∈ lead, isSpace b = true)
    (hends : ∀ w ∈ lines.dropLast, w.ending ≠ []) :
    entriesOf (lead ++ (lines.map ServerLine.text).flatten) = some (lines.map ServerLine.entry) := by
  induction lines generalizing lead with
  | nil =>
    apply entriesOf_end
    have htoken : (scanToken (lead ++ [])).1 = [] := by
      rw [scanToken_lead hlead]
      rfl
    exact if_pos htoken
  | cons w lines ih =>
    have hstop : ∀ b ∈ (w.ending ++ (lines.map ServerLine.text).flatten).head?, isDigit b = false := by
      intro b hb
      apply isDigit_of_isSpace
      apply w.ending_space
      cases hending : w.ending with
      | nil =>
        -- only the last line has no white space behind it
        cases lines with
        | nil => simp [hending] at hb
        | cons v lines => exact absurd hending (hends w (by simp))
      | cons c ending =>
        rw [hending, List.cons_append, List.head?_cons, Option.mem_some_iff] at hb
        rw [← hb]
        exact List.mem_cons_self
    have hends' : ∀ v ∈ lines.dropLast, v.ending ≠ [] := by
      intro v hv
      cases lines with
      | nil => cases hv
      | cons u lines => exact hends v (List.mem_cons_of_mem w hv)
    rw [List.map_cons, List.flatten_cons,
      entriesOf_cons (scanEntry_line w hlead hstop) w.host_fits, ih w.ending_space hends']
    rfl

theorem ServerFile.entriesOf_text (file : ServerFile) :
    entriesOf file.text = some (file.lines.map ServerLine.entry) :=
  entriesOf_lines file.lines file.lead_space file.ended

-- a line without its port takes the first number of the next address for it
example : entriesOf (ascii "server\n127.0.0.1 1025\n") =
    some [⟨ascii "server", some 127⟩, ⟨ascii ".0.0.1", some 1025⟩] := by
  decide

end Lines

section Plan

variable {info info' : ServerInfo} {filename : Bytes} {fileSize : ℕ} {numConnections : Int}

/-- The slots that the loop fills are those behind the ones already filled, in the order of the
file. -/
theorem readServers_slots {lines : List ServerLine}
    (h : readServers info (lines.map ServerLine.entry) = .ok info') :
    info'.serverCount = info.serverCount+lines.length ∧
    (∀ j < info.serverCount, info'.servers j = info.servers j ∧ info'.ports j = info.ports j) ∧
    ∀ i (hi : i < lines.length), info'.servers (info.serverCount+i) = lines[i].host ∧
      info'.ports (info.serverCount+i) = lines[i].port := by
  induction lines generalizing info with
  | nil =>
    cases h
    exact ⟨rfl, fun _ _ => ⟨rfl, rfl⟩, fun i hi => absurd hi (Nat.not_lt_zero i)⟩
  | cons w lines ih =>
    have hroom : info.serverCount < maxServers := by
      by_contra hfull
      rw [List.map_cons, readServers, ServerInfo.put, if_neg hfull] at h
      cases h
    rw [List.map_cons, readServers, ServerInfo.put, if_pos hroom] at h
    obtain ⟨hcount, hold, hnew⟩ := ih h
    have hself := hold info.serverCount (Nat.lt_succ_self _)
    simp only [ServerLine.entry, Option.getD_some, Function.update_self] at hself
    refine ⟨by rw [hcount, List.length_cons]; simp only; omega, ?_, ?_⟩
    · intro j hj
      obtain ⟨hs, hp⟩ := hold j (Nat.lt_succ_of_lt hj)
      have hne : j ≠ info.serverCount := Nat.ne_of_lt hj
      exact ⟨hs.trans (Function.update_of_ne hne _ _), hp.trans (Function.update_of_ne hne _ _)⟩
    · intro i hi
      cases i with
      | zero => exact hself
      | succ i =>
        have hat := hnew i (Nat.lt_of_succ_lt_succ hi)
        have hindex : info.serverCount+1+i = info.serverCount+(i+1) := by omega
        rw [← hindex]
        exact hat

theorem eq_map_of_mapM_ite {α β : Type} {p : β → Bool} {g : α → β} {l : List α} {ys : List β}
    (h : (l.mapM fun x => if p (g x) then some (g x) else none) = some ys) : ys = l.map g := by
  induction l generalizing ys with
  | nil =>
    cases h
    rfl
  | cons x xs ih =>
    rw [List.mapM_cons] at h
    obtain ⟨y, hy, h⟩ := Option.bind_eq_some_iff.mp h
    obtain ⟨zs, hzs, h⟩ := Option.bind_eq_some_iff.mp h
    simp only [Option.ite_none_right_eq_some, Option.some.injEq] at hy
    obtain ⟨-, rfl⟩ := hy
    rw [← Option.some.inj h, ih hzs, List.map_cons]

/-- The tasks go round the servers of the table. -/
theorem planTasks_server {tasks : List DownloadTask}
    (h : planTasks info filename fileSize numConnections = some tasks) {i : ℕ} {task : DownloadTask}
    (hi : tasks[i]? = some task) :
    task.serverIp = info.servers (i%info.serverCount) ∧
      task.serverPort = info.ports (i%info.serverCount) := by
  rw [planTasks] at h
  rw [eq_map_of_mapM_ite h, List.getElem?_map] at hi
  obtain ⟨j, hj, rfl⟩ := Option.map_eq_some_iff.mp hi
  obtain ⟨hlt, rfl⟩ := List.getElem?_eq_some_iff.mp hj
  rw [List.getElem_range]
  exact ⟨rfl, rfl⟩

/-- A plan that succeeds was made by `planTasks` on the table that the loop has filled. -/
theorem planTasks_of_planMain {stack : ServerInfo} {entries : List Entry} {calloc : Bool} {n : Int}
    {tasks : List DownloadTask}
    (h : planMain stack entries calloc filename fileSize numConnections = .ok (some (n, tasks))) :
    ∃ info, readServers { stack with serverCount := 0 } entries = .ok info ∧
      planTasks info filename fileSize numConnections = some tasks ∧ info.serverCount ≠ 0 := by
  cases hread : readServers { stack with serverCount := 0 } entries with
  | error e =>
    rw [planMain, hread] at h
    cases h
  | ok info =>
    rw [planMain_eq hread] at h
    split_ifs at h with hzero hneg hcalloc hempty
    · cases h
    · rw [Except.ok.injEq, Option.map_eq_some_iff] at h
      obtain ⟨tasks', htasks, heq⟩ := h
      rw [← (Prod.mk.inj heq).2]
      exact ⟨info, rfl, htasks, hempty⟩

/-- The text of a server-info file with the lines in it is read back line by line. With more than
ten lines the arrays overflow; otherwise, when the planning succeeds, task `i` is for the server of
line `i` modulo their number. -/
theorem tasks_go_round_the_file (file : ServerFile) (stack : ServerInfo) (calloc : Bool)
    (filename : Bytes) (fileSize : ℕ) (numConnections : Int) :
    entriesOf file.text = some (file.lines.map ServerLine.entry) ∧
      (maxServers < file.lines.length →
        planMain stack (file.lines.map ServerLine.entry) calloc filename fileSize numConnections =
          .error .serverSlots) ∧
      ∀ n tasks, planMain stack (file.lines.map ServerLine.entry) calloc filename fileSize
          numConnections = .ok (some (n, tasks)) →
        ∀ i task, tasks[i]? = some task → ∃ w, file.lines[i%file.lines.length]? = some w ∧
          task.serverIp = w.host ∧ task.serverPort = w.port := by
  refine ⟨file.entriesOf_text, ?_, ?_⟩
  · intro hmany
    have herror : readServers { stack with serverCount := 0 } (file.lines.map ServerLine.entry) =
        .error .serverSlots := by
      apply readServers_error (Nat.zero_le _)
      rw [List.length_map]
      exact hmany.trans_eq (Nat.zero_add _).symm
    rw [planMain, herror]
    rfl
  · intro n tasks hplan i task hi
    obtain ⟨info, hread, htasks, hcount⟩ := planTasks_of_planMain hplan
    obtain ⟨hlen, -, hslots⟩ := readServers_slots hread
    rw [Nat.zero_add] at hlen
    have hlt : i%file.lines.length < file.lines.length := by
      apply Nat.mod_lt
      omega
    obtain ⟨hs, hp⟩ := planTasks_server htasks hi
    obtain ⟨hs', hp'⟩ := hslots _ hlt
    rw [Nat.zero_add] at hs' hp'
    refine ⟨_, List.getElem?_eq_getElem hlt, ?_, ?_⟩
    · rw [hs, hlen, hs']
    · rw [hp, hlen, hp']

end Plan

end NetTools.Download
