import NetTools.HTTPSClient

namespace NetTools.HTTPS

open CText

/-- The reasons for which `parse_url` of `https/client.c` returns -1. -/
inductive UrlError
  | noPath
  | invalidPort
  | reservedForHttps
  | reservedForHttp
  deriving DecidableEq

/-- The scheme, its port and `url_start`. -/
def urlStart (url : Bytes) : Bytes × Int × Bytes :=
  if startsWith url (ascii "http://") then (ascii "http", 80, url.drop 7)
  else if startsWith url (ascii "https://") then (ascii "https", 443, url.drop 8)
  else (ascii "https", 443, url)

/-- The last check of `parse_url`. -/
def checkReserved (url : Url) : Except UrlError Url :=
  if url.port = 443 ∧ url.scheme = ascii "http" then .error .reservedForHttps
  else if url.port = 80 ∧ url.scheme = ascii "https" then .error .reservedForHttp
  else .ok url

/-- `parse_url`; it returns 0 with the parts or -1. -/
def parseUrl (url : Bytes) : Except UrlError Url :=
  let (scheme, port, start) := urlStart url
  match strchr start 47 with
  | none => .error .noPath
  | some slash =>
    let path := start.drop (slash+1)
    match strchr start 58 with
    | none => checkReserved ⟨scheme, start.take slash, port, path⟩
    | some colon =>
      if colon < slash then
        let port := atoi (start.drop (colon+1))
        if port ≤ 0 then .error .invalidPort
        else checkReserved ⟨scheme, start.take colon, port, path⟩
      else checkReserved ⟨scheme, start.take slash, port, path⟩

/-- `snprintf(port_buffer, sizeof(port_buffer), "%d", port)`. -/
def portBuffer (port : Int) : Bytes := (decimalInt port).take 5

/-- The part of a URL between the scheme and the path. -/
def authority (url : Bytes) : Bytes := (urlStart url).2.2.takeWhile fun b => b != 47

def hostText (url : Bytes) : Bytes := (authority url).takeWhile fun b => b != 58

/-- What stands between the host's colon and the path; `none` when there is no colon. -/
def portText (url : Bytes) : Option Bytes :=
  if 58 ∈ authority url then some ((authority url).dropWhile fun b => b != 58).tail else none

def pathText (url : Bytes) : Bytes := ((urlStart url).2.2.dropWhile fun b => b != 47).tail

/-- The port that `parse_url` takes from the URL. -/
def readPort (url : Bytes) : Int := ((portText url).map atoi).getD (urlStart url).2.1

theorem take_length_takeWhile (p : Byte → Bool) (s : Bytes) :
    s.take (s.takeWhile p).length = s.takeWhile p :=
  (List.prefix_iff_eq_take.mp (List.takeWhile_prefix p)).symm

theorem drop_length_takeWhile (p : Byte → Bool) (s : Bytes) :
    s.drop (s.takeWhile p).length = s.dropWhile p := by
  calc s.drop (s.takeWhile p).length
      = (s.takeWhile p ++ s.dropWhile p).drop (s.takeWhile p).length := by
        rw [List.takeWhile_append_dropWhile]
    _ = s.dropWhile p := List.drop_left' rfl

/-- Of two bytes of a text the first one comes first when it stands in front of the other. -/
theorem length_takeWhile_lt_iff {s : Bytes} {c d : Byte} (hd : d ∈ s) (hne : c ≠ d) :
    (s.takeWhile fun b => b != c).length < (s.takeWhile fun b => b != d).length ↔
      c ∈ s.takeWhile fun b => b != d := by
  induction s with
  | nil => cases hd
  | cons b s ih =>
    rcases eq_or_ne b d with rfl | hbd
    · simp
    · have hd' : d ∈ s := (List.mem_cons.mp hd).resolve_left hbd.symm
      rcases eq_or_ne b c with rfl | hbc
      · simp [hbd]
      · simpa [hbd, hbc, hbc.symm] using ih hd'

theorem mem_dropWhile {s : Bytes} {c : Byte} (h : c ∈ s) :
    s.dropWhile (fun b => b != c) = c :: (s.dropWhile fun b => b != c).tail := by
  induction s with
  | nil => cases h
  | cons b s ih =>
    rcases eq_or_ne b c with rfl | hbc
    · simp
    · have h' : c ∈ s := (List.mem_cons.mp h).resolve_left hbc.symm
      simpa [hbc] using ih h'

/-- The text in front of a byte of `s` does not change when more text follows. -/
theorem takeWhile_append_of_mem {s more : Bytes} {c : Byte} (h : c ∈ s) :
    (s ++ more).takeWhile (fun b => b != c) = s.takeWhile fun b => b != c := by
  apply takeWhile_append_of_ends
  rw [mem_dropWhile h]
  exact Or.inl (List.cons_ne_nil _ _)

theorem dropWhile_append_of_mem {s more : Bytes} {c : Byte} (h : c ∈ s) :
    (s ++ more).dropWhile (fun b => b != c) = (s.dropWhile fun b => b != c) ++ more := by
  apply dropWhile_append_of_ends
  rw [mem_dropWhile h]
  exact Or.inl (List.cons_ne_nil _ _)

/-- The number in front of the path. -/
theorem atoi_slash (text path : Bytes) : atoi (text ++ 47 :: path) = atoi text := by
  have hstop : ∀ b ∈ (47 :: path).head?,
      isDigit b = false ∧ isSpace b = false ∧ b ≠ 45 ∧ b ≠ 43 := by
    rintro b ⟨⟩
    decide
  rw [atoi_eq_longToInt, atoi_eq_longToInt, leadingNumber_append hstop]

theorem authority_append (url : Bytes) (h : 47 ∈ (urlStart url).2.2) :
    authority url ++ 47 :: pathText url = (urlStart url).2.2 := by
  rw [authority, pathText, ← mem_dropWhile h, List.takeWhile_append_dropWhile]

/-- `parse_url` in the parts of the URL. -/
theorem parseUrl_eq (url : Bytes) : parseUrl url =
    if 47 ∉ (urlStart url).2.2 then .error .noPath
    else if readPort url ≤ 0 then .error .invalidPort
    else checkReserved ⟨(urlStart url).1, hostText url, readPort url, pathText url⟩ := by
  have hdefault : ¬ (urlStart url).2.1 ≤ 0 := by
    unfold urlStart
    split_ifs <;> simp
  by_cases hslash : 47 ∈ (urlStart url).2.2
  · have hstart := authority_append url hslash
    have hpath : (urlStart url).2.2.drop (((urlStart url).2.2.takeWhile fun b => b != 47).length+1) =
        pathText url := by
      rw [← List.drop_drop, drop_length_takeWhile, List.drop_one, pathText]
    have hhost : (urlStart url).2.2.take ((urlStart url).2.2.takeWhile fun b => b != 47).length =
        authority url := take_length_takeWhile _ _
    simp only [parseUrl, strchr_eq, hslash, ↓reduceIte, hpath, hhost, not_true_eq_false]
    -- the code looks for a colon in the whole rest and compares its place with the slash
    by_cases hcolon : 58 ∈ authority url
    · have hmem : 58 ∈ (urlStart url).2.2 := by
        rw [← hstart]
        exact List.mem_append_left _ hcolon
      have hlt := (length_takeWhile_lt_iff hslash (by decide : (58 : Byte) ≠ 47)).mpr hcolon
      have hport : readPort url =
          atoi ((urlStart url).2.2.drop (((urlStart url).2.2.takeWhile fun b => b != 58).length+1)) := by
        rw [← List.drop_drop, drop_length_takeWhile, List.drop_one, ← hstart,
          dropWhile_append_of_mem hcolon, mem_dropWhile hcolon, List.cons_append, List.tail_cons,
          atoi_slash, readPort, portText, if_pos hcolon, Option.map_some, Option.getD_some]
      have hname : (urlStart url).2.2.take ((urlStart url).2.2.takeWhile fun b => b != 58).length =
          hostText url := by
        rw [take_length_takeWhile, ← hstart, takeWhile_append_of_mem hcolon, hostText]
      simp only [hmem, ↓reduceIte, hlt, ← hport, hname]
    · have hport : readPort url = (urlStart url).2.1 := by
        rw [readPort, portText, if_neg hcolon, Option.map_none, Option.getD_none]
      have hname : authority url = hostText url := by
        rw [hostText, List.takeWhile_eq_self_iff.mpr]
        intro b hb
        rw [bne_iff_ne]
        rintro rfl
        exact hcolon hb
      have hlt := (length_takeWhile_lt_iff hslash (by decide : (58 : Byte) ≠ 47)).not.mpr hcolon
      rw [hport, if_neg hdefault, hname]
      by_cases hmem : 58 ∈ (urlStart url).2.2
      · simp only [hmem, ↓reduceIte, hlt]
      · simp only [hmem, ↓reduceIte]
  · simp only [parseUrl, strchr_eq, hslash, ↓reduceIte, not_false_eq_true]

/-- The scheme that a URL is written with. -/
inductive Scheme
  | http
  | https
  | omitted
  deriving DecidableEq

def Scheme.text : Scheme → Bytes
  | http => ascii "http://"
  | https => ascii "https://"
  | omitted => []

/-- An omitted scheme stands for https. -/
def Scheme.name : Scheme → Bytes
  | http => ascii "http"
  | https => ascii "https"
  | omitted => ascii "https"

def Scheme.port : Scheme → ℕ
  | http => 80
  | https => 443
  | omitted => 443

/-- The parts from which a URL is written. -/
structure WrittenUrl where
  scheme : Scheme
  host : Bytes
  port : Option ℕ
  path : Bytes
  host_ne_nil : host ≠ []
  host_plain : ∀ b ∈ host, b ≠ 47 ∧ b ≠ 58
  port_range : ∀ n ∈ port, 1 ≤ n ∧ n ≤ 65535

namespace WrittenUrl

/-- The port with its colon. -/
def portPart (u : WrittenUrl) : Bytes := (u.port.map fun n => 58 :: decimal n).getD []

/-- The written URL, `[scheme]host[:port]/path`. -/
def text (u : WrittenUrl) : Bytes := u.scheme.text ++ (u.host ++ u.portPart ++ 47 :: u.path)

/-- The port that it names, by the scheme when none is written. -/
def portNumber (u : WrittenUrl) : ℕ := u.port.getD u.scheme.port

variable (u : WrittenUrl)

theorem portPart_plain : ∀ b ∈ u.portPart, b ≠ 47 := by
  intro b hb
  rw [portPart] at hb
  cases hport : u.port with
  | none => simp [hport] at hb
  | some n =>
    rw [hport, Option.map_some, Option.getD_some] at hb
    rcases List.mem_cons.mp hb with rfl | hb
    · decide
    · rintro rfl
      exact absurd (decimal_all_digits n 47 hb) (by decide)

/-- A written port begins with its colon. -/
theorem portPart_head : ∀ b ∈ u.portPart.head?, b = 58 := by
  intro b hb
  rw [portPart] at hb
  cases hport : u.port with
  | none =>
    rw [hport] at hb
    cases hb
  | some n =>
    rw [hport] at hb
    exact (Option.some.inj hb).symm

/-- Behind the host stands a colon or a slash. -/
theorem host_ends : ∀ b ∈ (u.portPart ++ 47 :: u.path).head?, (b != 47 && b != 58) = false := by
  intro b hb
  rw [List.head?_append, Option.mem_def, Option.or_eq_some_iff] at hb
  rcases hb with hb | ⟨-, hb⟩
  · rw [u.portPart_head b hb]
    decide
  · obtain rfl := Option.some.inj hb
    decide

/-- A URL without a scheme does not begin like one with a scheme: a host has no colon and a port
begins with a digit. -/
theorem not_startsWith (name : Bytes) (hname : ∀ b ∈ name, b ≠ 47 ∧ b ≠ 58) :
    startsWith (u.host ++ u.portPart ++ 47 :: u.path) (name ++ ascii "://") = false := by
  have hplain (l : Bytes) (hl : ∀ b ∈ l, b ≠ 47 ∧ b ≠ 58) (rest : Bytes)
      (hrest : ∀ b ∈ rest.head?, (b != 47 && b != 58) = false) :
      (l ++ rest).takeWhile (fun b => b != 47 && b != 58) = l := by
    rw [takeWhile_append_of_ends (Or.inr hrest), List.takeWhile_eq_self_iff]
    simpa using hl
  rw [Bool.eq_false_iff]
  intro hstart
  obtain ⟨more, hmore⟩ := List.isPrefixOf_iff_prefix.mp hstart
  rw [List.append_assoc, List.append_assoc] at hmore
  -- both texts stop at the first colon or slash, behind the name and behind the host
  have hhost : name = u.host := by
    rw [← hplain name hname (ascii "://" ++ more) (by rintro b ⟨⟩; decide), hmore,
      hplain u.host u.host_plain _ u.host_ends]
  -- what follows would have to be `://`
  rw [hhost, List.append_cancel_left_eq] at hmore
  rw [portPart] at hmore
  cases hport : u.port with
  | none =>
    rw [hport] at hmore
    have hhead : some (58 : Byte) = some 47 := congrArg List.head? hmore
    exact absurd hhead (by decide)
  | some n =>
    rw [hport, Option.map_some, Option.getD_some] at hmore
    have htail := congrArg (fun l => l.tail.head?) hmore
    exact head_decimal_ne n (47 :: u.path) (by decide : isDigit 47 = false) htail.symm

theorem urlStart_text : urlStart u.text =
    (u.scheme.name, (u.scheme.port : Int), u.host ++ u.portPart ++ 47 :: u.path) := by
  cases hscheme : u.scheme with
  | http =>
    rw [text, hscheme]
    rfl
  | https =>
    rw [text, hscheme]
    rfl
  | omitted =>
    have hhttp := u.not_startsWith (ascii "http") (by decide)
    have hhttps := u.not_startsWith (ascii "https") (by decide)
    rw [text, hscheme, Scheme.text, List.nil_append]
    have h7 : ascii "http" ++ ascii "://" = ascii "http://" := by decide
    have h8 : ascii "https" ++ ascii "://" = ascii "https://" := by decide
    rw [h7] at hhttp
    rw [h8] at hhttps
    rw [urlStart, hhttp, hhttps, if_neg Bool.false_ne_true, if_neg Bool.false_ne_true,
      Scheme.name, Scheme.port, Nat.cast_ofNat]

theorem authority_text : authority u.text = u.host ++ u.portPart := by
  rw [authority, urlStart_text, takeWhile_append_of_ends (Or.inr (by rintro b ⟨⟩; decide)),
    List.takeWhile_eq_self_iff]
  intro b hb
  rw [bne_iff_ne]
  rcases List.mem_append.mp hb with hb | hb
  · exact (u.host_plain b hb).1
  · exact u.portPart_plain b hb

theorem pathText_text : pathText u.text = u.path := by
  have hmem : 47 ∈ u.host ++ u.portPart ++ 47 :: u.path :=
    List.mem_append_right _ List.mem_cons_self
  have hstart := authority_append u.text (by rw [urlStart_text]; exact hmem)
  rw [authority_text, urlStart_text] at hstart
  exact List.tail_eq_of_cons_eq (List.append_cancel_left hstart)

theorem hostText_text : hostText u.text = u.host := by
  have hends : ∀ b ∈ u.portPart.head?, (b != 58) = false := by
    intro b hb
    rw [u.portPart_head b hb]
    decide
  rw [hostText, authority_text, takeWhile_append_of_ends (Or.inr hends),
    List.takeWhile_eq_self_iff]
  intro b hb
  rw [bne_iff_ne]
  exact (u.host_plain b hb).2

theorem portText_text : portText u.text = u.port.map decimal := by
  have hhost : 58 ∉ u.host := fun h => (u.host_plain 58 h).2 rfl
  rw [portText, authority_text, portPart]
  cases hport : u.port with
  | none =>
    rw [Option.map_none, Option.getD_none, List.append_nil, if_neg hhost, Option.map_none]
  | some n =>
    have hskip : ∀ b ∈ u.host, (b != 58) = true := by
      intro b hb
      rw [bne_iff_ne]
      exact (u.host_plain b hb).2
    rw [Option.map_some, Option.getD_some,
      if_pos (List.mem_append_right _ List.mem_cons_self), List.dropWhile_append_of_pos hskip,
      List.dropWhile_cons_of_neg (by decide), List.tail_cons, Option.map_some]

theorem readPort_text : readPort u.text = u.portNumber := by
  rw [readPort, portText_text, urlStart_text, portNumber]
  cases hport : u.port with
  | none => rfl
  | some n =>
    obtain ⟨-, hn⟩ := u.port_range n hport
    rw [Option.map_some, Option.map_some, Option.getD_some, Option.getD_some,
      atoi_decimal (by omega)]

theorem portNumber_pos : 0 < u.portNumber := by
  rw [portNumber]
  cases hport : u.port with
  | none => cases u.scheme <;> decide
  | some n => exact (u.port_range n hport).1

end WrittenUrl

/-- A written URL reaches the last check with its own parts. -/
theorem parseUrl_text (u : WrittenUrl) : parseUrl u.text =
    checkReserved ⟨u.scheme.name, u.host, u.portNumber, u.path⟩ := by
  have hslash : 47 ∈ (urlStart u.text).2.2 := by
    rw [u.urlStart_text]
    exact List.mem_append_right _ List.mem_cons_self
  have hpos : ¬ readPort u.text ≤ 0 := by
    have h := u.portNumber_pos
    rw [u.readPort_text]
    omega
  rw [parseUrl_eq, if_neg (not_not_intro hslash), if_neg hpos, u.hostText_text, u.readPort_text,
    u.pathText_text, u.urlStart_text]

/-- Parsing recovers the parts that a URL is written from; only http on 443 and https on 80 are
rejected. -/
theorem parseUrl_written (u : WrittenUrl) : parseUrl u.text =
    if u.scheme.name = ascii "http" ∧ u.portNumber = 443 then .error .reservedForHttps
    else if u.scheme.name = ascii "https" ∧ u.portNumber = 80 then .error .reservedForHttp
    else .ok ⟨u.scheme.name, u.host, u.portNumber, u.path⟩ := by
  have hport (n : ℕ) : (u.portNumber : Int) = n ↔ u.portNumber = n := Nat.cast_inj
  have h443 := hport 443
  have h80 := hport 80
  rw [Nat.cast_ofNat] at h443 h80
  rw [parseUrl_text, checkReserved]
  simp only [h443, h80, and_comm]

/-- A decimal numeral, with leading zeros or without, that is the number of a port. -/
def IsPortNumeral (text : Bytes) : Prop :=
  text ≠ [] ∧ (∀ b ∈ text, isDigit b = true) ∧ 1 ≤ digitsValue text ∧ digitsValue text ≤ 65535

instance (text : Bytes) : Decidable (IsPortNumeral text) :=
  inferInstanceAs (Decidable (_ ∧ _))

/-- Port `n` is what the URL says: the number behind the host's colon, or the one of the scheme
without a colon. -/
def NamesPort (url : Bytes) (n : ℕ) : Prop :=
  portText url = none ∧ (urlStart url).2.1 = n ∨
    ∃ text, portText url = some text ∧ IsPortNumeral text ∧ digitsValue text = n

/-- When the URL is accepted, the port text for `getaddrinfo` is the decimal numeral of the port
that it names; with any other port text it is rejected. -/
def DialsNamedPort (url : Bytes) : Prop :=
  (∀ u, parseUrl url = .ok u →
    ∃ n, NamesPort url n ∧ 1 ≤ n ∧ n ≤ 65535 ∧ portBuffer u.port = decimal n) ∧
  ∀ text, portText url = some text → ¬ IsPortNumeral text → ∃ e, parseUrl url = .error e

/-- The port that `parse_url` reads is turned down: it is not positive or not allowed with the
scheme. -/
def TurnedDown (scheme : Bytes) (port : Int) : Prop :=
  port ≤ 0 ∨ port = 443 ∧ scheme = ascii "http" ∨ port = 80 ∧ scheme = ascii "https"

theorem checkReserved_eq_ok_iff (u v : Url) : checkReserved u = .ok v ↔
    ¬ (u.port = 443 ∧ u.scheme = ascii "http") ∧ ¬ (u.port = 80 ∧ u.scheme = ascii "https") ∧
      u = v := by
  unfold checkReserved
  split_ifs <;> simp_all

/-- A URL is accepted when it has a path and its port is not turned down. -/
theorem parseUrl_eq_ok_iff (url : Bytes) (u : Url) : parseUrl url = .ok u ↔
    47 ∈ (urlStart url).2.2 ∧ ¬ TurnedDown (urlStart url).1 (readPort url) ∧
      u = ⟨(urlStart url).1, hostText url, readPort url, pathText url⟩ := by
  rw [parseUrl_eq, TurnedDown, not_or, not_or, eq_comm (a := u)]
  by_cases hslash : 47 ∈ (urlStart url).2.2
  · rw [if_neg (not_not_intro hslash)]
    by_cases hport : readPort url ≤ 0
    · simp only [hport, ↓reduceIte, reduceCtorEq, not_true_eq_false, false_and, and_false]
    · rw [if_neg hport, checkReserved_eq_ok_iff]
      simp only [hslash, hport, not_false_eq_true, true_and, and_assoc]
  · simp only [hslash, not_false_eq_true, ↓reduceIte, reduceCtorEq, false_and]

/-- A port of at most five digits fits `port_buffer`. -/
theorem portBuffer_natCast {n : ℕ} (hn : n ≤ 65535) : portBuffer n = decimal n :=
  List.take_of_length_le ((length_decimal_le_iff (by decide)).mpr (by omega))

theorem readPort_of_none {url : Bytes} (h : portText url = none) :
    readPort url = (urlStart url).2.1 := by
  rw [readPort, h, Option.map_none, Option.getD_none]

theorem readPort_of_some {url text : Bytes} (h : portText url = some text) :
    readPort url = longToInt (leadingNumber text) := by
  rw [readPort, h, Option.map_some, Option.getD_some, atoi_eq_longToInt]

theorem longToInt_of_isPortNumeral {text : Bytes} (h : IsPortNumeral text) :
    longToInt (leadingNumber text) = digitsValue text := by
  obtain ⟨hne, hdigits, -, hle⟩ := h
  have hread := leadingNumber_digits hne hdigits [] nofun
  rw [List.append_nil] at hread
  rw [hread]
  exact longToInt_of_range (by omega) (by omega)

/-- A URL is dialled at the port that it names unless its port text is no numeral of a port and
still begins with a number that is accepted as an `int`. -/
theorem dialsNamedPort_iff (url : Bytes) : DialsNamedPort url ↔
    47 ∉ (urlStart url).2.2 ∨ ∀ text, portText url = some text →
      IsPortNumeral text ∨ TurnedDown (urlStart url).1 (longToInt (leadingNumber text)) := by
  constructor
  · rintro ⟨-, hreject⟩
    by_cases hslash : 47 ∈ (urlStart url).2.2
    · right
      intro text htext
      by_cases hnumeral : IsPortNumeral text
      · exact Or.inl hnumeral
      · right
        by_contra hport
        obtain ⟨e, he⟩ := hreject text htext hnumeral
        rw [← readPort_of_some htext] at hport
        rw [(parseUrl_eq_ok_iff url _).mpr ⟨hslash, hport, rfl⟩] at he
        cases he
    · exact Or.inl hslash
  · intro h
    have haccepted {u : Url} (hu : parseUrl url = .ok u) {text : Bytes}
        (htext : portText url = some text) : IsPortNumeral text := by
      obtain ⟨hslash, hport, -⟩ := (parseUrl_eq_ok_iff url u).mp hu
      rw [readPort_of_some htext] at hport
      exact ((h.resolve_left (not_not_intro hslash)) text htext).resolve_right hport
    refine ⟨fun u hu => ?_, fun text htext hnumeral => ?_⟩
    · obtain ⟨-, -, rfl⟩ := (parseUrl_eq_ok_iff url u).mp hu
      cases htext : portText url with
      -- without a port text the scheme's default is dialled
      | none =>
        rw [readPort_of_none htext]
        have hdefault : (urlStart url).2.1 = (80 : ℕ) ∨ (urlStart url).2.1 = (443 : ℕ) := by
          unfold urlStart
          split_ifs <;> simp
        rcases hdefault with hdefault | hdefault
        · exact ⟨80, Or.inl ⟨htext, hdefault⟩, by decide, by decide, by rw [hdefault]; rfl⟩
        · exact ⟨443, Or.inl ⟨htext, hdefault⟩, by decide, by decide, by rw [hdefault]; rfl⟩
      | some text =>
        have hnumeral := haccepted hu htext
        rw [readPort_of_some htext, longToInt_of_isPortNumeral hnumeral]
        exact ⟨digitsValue text, Or.inr ⟨text, htext, hnumeral, rfl⟩, hnumeral.2.2.1,
          hnumeral.2.2.2, portBuffer_natCast hnumeral.2.2.2⟩
    · cases hparse : parseUrl url with
      | error e => exact ⟨e, rfl⟩
      | ok u => exact absurd (haccepted hparse htext) hnumeral

/-- The sixth digit of a port is lost on the way to `getaddrinfo`. -/
theorem not_dialsNamedPort : ¬ ∀ url, DialsNamedPort url := by
  intro h
  obtain ⟨e, he⟩ := (h (ascii "http://h:123456/")).2 (ascii "123456") (by decide) (by decide)
  have hok : parseUrl (ascii "http://h:123456/") = .ok ⟨ascii "http", ascii "h", 123456, []⟩ := by
    decide
  rw [hok] at he
  cases he

end NetTools.HTTPS
