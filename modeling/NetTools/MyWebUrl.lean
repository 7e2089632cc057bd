import NetTools.Tokens
import NetTools.HTTPSRequest

namespace NetTools.MyWeb

open CText Tokens HTTP
open HTTPS (WrittenUrl)

/-- The size of `request` in the archived downloaders. -/
def requestSize : ℕ := 1024

def isSlash (b : Byte) : Bool := b = 47

def isColon (b : Byte) : Bool := b = 58

/-- Where the program connects to and what it asks for. -/
structure Target where
  ssl : Bool
  host : Bytes
  port : ℕ
  pathname : Bytes
  deriving DecidableEq

/-- `port = 80` or `port = atoi(ip_port[1])`; the `int16_t` and `htons` keep the lowest 16 bits. -/
def portOf : Option Bytes → ℕ
  | none => 80
  | some text => (atoi text%2^16).toNat

/-- The loop that cuts `token` at its colons: `ip_port[0]` and `port`. -/
def hostAndPort (token : Bytes) : Option (Bytes × ℕ) :=
  (strtok isColon token).map fun p => (p.1, portOf ((strtok isColon p.2).map Prod.fst))

/-- `argv[1]` of `myweb`. Where `strtok` returns `NULL` and the program goes on to read it, there is
no outcome. -/
def parseUrl (url : Bytes) : Option Target :=
  (strtok isSlash url).bind fun first =>
    let ssl : Bool := first.1 = ascii "https:"
    (if ssl then strtok isSlash first.2 else some first).bind fun token =>
      (strtok isSlash token.2).bind fun pathname =>
        (hostAndPort token.1).map fun p => ⟨ssl, p.1, p.2, pathname.1⟩

/-- `argv[2]` of the downloader without SSL, an address and a path. -/
def parseAddress (address : Bytes) : Option Target :=
  (strtok isSlash address).bind fun token =>
    (strtok isSlash token.2).bind fun pathname =>
      (hostAndPort token.1).map fun p => ⟨false, p.1, p.2, pathname.1⟩

/-- `sprintf(request, "%s %c%s HTTP/1.1\r\nHost: %s\r\n\r\n", ...)` and the `strlen(request)+1`
bytes that are written. It is `none` when the text does not fit. -/
def request (headerOnly : Bool) (pathname host : Bytes) : Option Bytes :=
  let text := ascii (if headerOnly then "HEAD" else "GET") ++ ascii " /" ++ pathname ++
    ascii " HTTP/1.1\r\nHost: " ++ host ++ ascii "\r\n\r\n"
  if text.length < requestSize then some (text ++ [0]) else none

section

variable (u : WrittenUrl)

/-- The host with its port, as it is written. -/
def authorityText : Bytes := u.host ++ u.portPart

theorem authorityText_ne_nil : authorityText u ≠ [] := by
  exact List.append_ne_nil_of_left_ne_nil u.host_ne_nil _

theorem authorityText_plain : ∀ b ∈ authorityText u, isSlash b = false := by
  intro b hb
  have hne : b ≠ 47 := by
    rcases List.mem_append.mp hb with hb | hb
    · exact (u.host_plain b hb).1
    · exact u.portPart_plain b hb
  simpa [isSlash] using hne

/-- The authority is one word in front of the path. -/
theorem strtok_authorityText (path : Bytes) :
    strtok isSlash (authorityText u ++ 47 :: path) = some (authorityText u, path) := by
  apply strtok_word (authorityText_ne_nil u) (authorityText_plain u)
  intro b hb
  obtain rfl := Option.some.inj hb
  rfl

/-- The port that is dialled for a URL without a scheme. -/
theorem hostAndPort_authorityText :
    hostAndPort (authorityText u) = some (u.host, u.port.getD 80) := by
  have hhost : ∀ b ∈ u.host, isColon b = false := by
    intro b hb
    simpa [isColon] using (u.host_plain b hb).2
  have hrest : ∀ b ∈ u.portPart.head?, isColon b = true := by
    intro b hb
    rw [u.portPart_head b hb]
    rfl
  rw [hostAndPort, authorityText, strtok_word u.host_ne_nil hhost hrest, Option.map_some]
  cases hport : u.port with
  | none =>
    rw [WrittenUrl.portPart, hport]
    rfl
  | some n =>
    have hrange := u.port_range n hport
    have hdigits : ∀ b ∈ decimal n, isColon b = false := by
      intro b hb
      have hdigit := decimal_all_digits n b hb
      by_contra hcolon
      rw [Bool.not_eq_false, isColon, decide_eq_true_eq] at hcolon
      subst hcolon
      cases hdigit
    have htail : u.portPart.tail = decimal n := by
      rw [WrittenUrl.portPart, hport]
      rfl
    dsimp only
    rw [htail, strtok_self (decimal_ne_nil n) hdigits]
    simp only [Option.map_some, portOf, Option.getD_some, atoi_decimal (by omega : n < 2^31)]
    congr 2
    omega

/-- The scheme is a word of its own, in front of an empty one. -/
theorem strtok_scheme (name rest : Bytes) (hne : name ≠ []) (hname : ∀ b ∈ name, isSlash b = false) :
    strtok isSlash (name ++ 47 :: 47 :: rest) = some (name, 47 :: rest) := by
  apply strtok_word hne hname
  intro b hb
  obtain rfl := Option.some.inj hb
  rfl

/-- What follows the words in front of the path. -/
theorem parse_path (ssl : Bool) (path : Bytes) :
    ((strtok isSlash path).bind fun pathname =>
      (hostAndPort (authorityText u)).map fun p => (⟨ssl, p.1, p.2, pathname.1⟩ : Target)) =
    (strtok isSlash path).map fun first => ⟨ssl, u.host, u.port.getD 80, first.1⟩ := by
  rw [hostAndPort_authorityText]
  cases strtok isSlash path <;> rfl

theorem parseUrl_http (hs : u.scheme = .http) :
    parseUrl u.text = some ⟨false, ascii "http", 80, authorityText u⟩ := by
  have htext : u.text = ascii "http:" ++ 47 :: 47 :: (authorityText u ++ 47 :: u.path) := by
    rw [WrittenUrl.text, hs]
    rfl
  have hslash : isSlash 47 = true := rfl
  have hpath : strtok isSlash (47 :: (authorityText u ++ 47 :: u.path)) =
      some (authorityText u, u.path) := by
    rw [strtok_cons_delim hslash, strtok_authorityText]
  have hhost : hostAndPort (ascii "http:") = some (ascii "http", 80) := by decide
  have hnot : ascii "http:" ≠ ascii "https:" := by decide
  rw [htext, parseUrl, strtok_scheme _ _ (by decide) (by decide)]
  simp only [Option.bind_some, hnot, decide_false, Bool.false_eq_true, ↓reduceIte, hpath, hhost,
    Option.map_some]

theorem parseUrl_https (hs : u.scheme = .https) :
    parseUrl u.text =
      (strtok isSlash u.path).map fun first => ⟨true, u.host, u.port.getD 80, first.1⟩ := by
  have htext : u.text = ascii "https:" ++ 47 :: 47 :: (authorityText u ++ 47 :: u.path) := by
    rw [WrittenUrl.text, hs]
    rfl
  have hslash : isSlash 47 = true := rfl
  rw [htext, parseUrl, strtok_scheme _ _ (by decide) (by decide)]
  simp only [Option.bind_some, decide_true, ↓reduceIte, strtok_cons_delim hslash,
    strtok_authorityText, parse_path]

theorem parseUrl_omitted (hs : u.scheme = .omitted) :
    parseUrl u.text =
      (strtok isSlash u.path).map fun first => ⟨false, u.host, u.port.getD 80, first.1⟩ := by
  have htext : u.text = authorityText u ++ 47 :: u.path := by
    rw [WrittenUrl.text, hs]
    rfl
  -- a colon is followed by digits
  have hnot : authorityText u ≠ ascii "https:" := by
    intro heq
    have hread := hostAndPort_authorityText u
    have hhttps : hostAndPort (ascii "https:") = some (ascii "https", 80) := by decide
    rw [heq, hhttps, Option.some.injEq, Prod.mk.injEq] at hread
    rw [authorityText, ← hread.1, WrittenUrl.portPart] at heq
    cases hport : u.port with
    | none =>
      rw [hport] at heq
      revert heq
      decide
    | some n =>
      rw [hport] at heq hread
      obtain rfl : n = 80 := hread.2.symm
      revert heq
      decide
  rw [htext, parseUrl, strtok_authorityText]
  simp only [Option.bind_some, hnot, decide_false, Bool.false_eq_true, ↓reduceIte, parse_path]

theorem parseAddress_text (hs : u.scheme = .omitted) :
    parseAddress u.text =
      (strtok isSlash u.path).map fun first => ⟨false, u.host, u.port.getD 80, first.1⟩ := by
  have htext : u.text = authorityText u ++ 47 :: u.path := by
    rw [WrittenUrl.text, hs]
    rfl
  rw [htext, parseAddress, strtok_authorityText]
  simp only [Option.bind_some, parse_path]

/-- What a URL names: SSL with `https://`, its own port or that of the scheme, the whole path. -/
def named (u : WrittenUrl) : Target :=
  ⟨u.scheme = .https, u.host, u.port.getD (if u.scheme = .https then 443 else 80), u.path⟩

/-- A path of one word. -/
def OneWord (path : Bytes) : Prop := path ≠ [] ∧ 47 ∉ path

theorem oneWord_iff (path : Bytes) : OneWord path ↔ (strtok isSlash path).map Prod.fst = some path := by
  rw [strtok_fst_eq_iff, OneWord]
  refine and_congr_right fun _ => ⟨fun h b hb => ?_, fun h hb => ?_⟩
  · have hne : b ≠ 47 := by
      rintro rfl
      exact h hb
    simpa [isSlash] using hne
  · have hfalse := h 47 hb
    cases hfalse

/-- The words in front of the path come through; the path does where it is one word, and the port
where it is written or 80. -/
theorem words_eq_named_iff :
    ((strtok isSlash u.path).map fun first =>
        (⟨u.scheme = .https, u.host, u.port.getD 80, first.1⟩ : Target)) = some (named u) ↔
      OneWord u.path ∧ (u.scheme = .https → u.port ≠ none) := by
  rw [oneWord_iff, named]
  cases strtok isSlash u.path with
  | none => simp
  | some first =>
    simp only [Option.map_some, Option.some.injEq, Target.mk.injEq, true_and]
    rw [and_comm]
    refine and_congr_right fun _ => ?_
    by_cases hhttps : u.scheme = .https
    · cases hport : u.port with
      | none => simp [hhttps]
      | some n => simp [hhttps]
    · simp [hhttps]

/-- The exact URLs that `myweb` takes as they are meant. -/
theorem parseUrl_eq_named_iff : parseUrl u.text = some (named u) ↔
    (u.scheme ≠ .http ∧ OneWord u.path ∧ (u.scheme = .https → u.port ≠ none)) ∨
      (u.scheme = .http ∧ u.host = ascii "http" ∧ u.port.getD 80 = 80 ∧
        u.path = authorityText u) := by
  cases hs : u.scheme with
  | http =>
    rw [parseUrl_http u hs, named, hs]
    simp only [Option.some.injEq, Target.mk.injEq, reduceCtorEq, decide_false, ↓reduceIte, true_and,
      ne_eq, not_true_eq_false, false_and, false_or]
    exact and_congr eq_comm (and_congr eq_comm eq_comm)
  | https =>
    have hwords := words_eq_named_iff u
    rw [hs] at hwords
    rw [parseUrl_https u hs]
    simpa using hwords
  | omitted =>
    have hwords := words_eq_named_iff u
    rw [hs] at hwords
    rw [parseUrl_omitted u hs]
    simpa using hwords

/-- The request that a server is to read. -/
def requestFor (headerOnly : Bool) (pathname host : Bytes) : Message where
  method := ascii (if headerOnly then "HEAD" else "GET")
  target := 47 :: pathname
  version := ascii "HTTP/1.1"
  headers := [ascii "Host: " ++ host]

theorem request_eq (headerOnly : Bool) (pathname host : Bytes) :
    request headerOnly pathname host =
      if pathname.length+host.length+(if headerOnly then 27 else 26) < requestSize then
        some ((requestFor headerOnly pathname host).text ++ [0])
      else none := by
  have hget : ascii " /" = [32, 47] := by decide
  have hversion : ascii " HTTP/1.1\r\nHost: " =
      32 :: (ascii "HTTP/1.1" ++ crlf ++ ascii "Host: ") := by decide
  have hend : ascii "\r\n\r\n" = crlf ++ crlf := by decide
  have htext : ascii (if headerOnly then "HEAD" else "GET") ++ ascii " /" ++ pathname ++
      ascii " HTTP/1.1\r\nHost: " ++ host ++ ascii "\r\n\r\n" =
      (requestFor headerOnly pathname host).text := by
    rw [hget, hversion, hend]
    simp [Message.text, requestLine, headerText, requestFor]
  have hlen : (requestFor headerOnly pathname host).text.length =
      pathname.length+host.length+(if headerOnly then 27 else 26) := by
    have hmethod : (ascii (if headerOnly then "HEAD" else "GET")).length =
        if headerOnly then 4 else 3 := by
      cases headerOnly <;> rfl
    have hword : (ascii "HTTP/1.1").length = 8 := rfl
    have hhost : (ascii "Host: ").length = 6 := rfl
    simp only [Message.text, requestLine, headerText, requestFor, crlf, List.map_cons, List.map_nil,
      List.flatten_cons, List.flatten_nil, List.length_append, List.length_cons, List.length_nil,
      hmethod, hword, hhost]
    split_ifs <;> omega
  rw [request, htext, hlen]

theorem wellFormed_requestFor_iff (headerOnly : Bool) (pathname host : Bytes) :
    (requestFor headerOnly pathname host).WellFormed ↔
      (∀ b ∈ pathname, b ≠ 13 ∧ b ≠ 10 ∧ b ≠ 32) ∧ ∀ b ∈ host, b ≠ 13 ∧ b ≠ 10 := by
  -- one header line less than in the request of the newer client
  have hclose : IsLine (ascii "Connection: close") := by decide
  have hiff := HTTPS.wellFormed_requestFor_iff headerOnly pathname host
  rw [← hiff]
  constructor
  · intro h
    refine ⟨h.method, h.target, h.version, ?_⟩
    refine List.forall_mem_cons.mpr ⟨h.headers _ List.mem_cons_self, ?_⟩
    exact List.forall_mem_singleton.mpr ⟨by decide, hclose⟩
  · intro h
    refine ⟨h.method, h.target, h.version, ?_⟩
    exact List.forall_mem_singleton.mpr (h.headers _ List.mem_cons_self)

/-- The place that is dialled and the request are those that the URL names; one NUL byte is sent
behind the request. -/
def AsMeant (u : WrittenUrl) (headerOnly : Bool) : Prop :=
  parseUrl u.text = some (named u) ∧
    ∃ bytes, request headerOnly u.path u.host = some bytes ∧
      readMessage bytes = some (requestFor headerOnly u.path u.host, [0])

/-- The URLs that `strtok` cuts as they are written. An `http://` URL is cut so only where its host
is called "http" and the path repeats the authority. -/
def CutRight (u : WrittenUrl) : Prop :=
  (u.scheme ≠ .http ∧ OneWord u.path ∧ (u.scheme = .https → u.port ≠ none)) ∨
    (u.scheme = .http ∧ u.host = ascii "http" ∧ u.port.getD 80 = 80 ∧ u.path = authorityText u)

/-- For every URL: `myweb` asks for what it names exactly when it is cut right, its request fits
the buffer and nothing in the path or the host ends a word or a line. For an `http://` URL, the
kind that the comment of the program gives as an example, it dials the host "http" and asks for the
authority. Without a scheme the older downloader reads its argument in the same way. -/
theorem asMeant_iff (u : WrittenUrl) (headerOnly : Bool) :
    (AsMeant u headerOnly ↔ CutRight u ∧
      (∀ b ∈ u.path, b ≠ 13 ∧ b ≠ 10 ∧ b ≠ 32) ∧ (∀ b ∈ u.host, b ≠ 13 ∧ b ≠ 10) ∧
        u.path.length+u.host.length+(if headerOnly then 27 else 26) < requestSize) ∧
    (u.scheme = .http → parseUrl u.text = some ⟨false, ascii "http", 80, authorityText u⟩) ∧
    (u.scheme = .omitted → parseAddress u.text = parseUrl u.text) := by
  refine ⟨?_, parseUrl_http u, fun hs => (parseAddress_text u hs).trans (parseUrl_omitted u hs).symm⟩
  rw [AsMeant, parseUrl_eq_named_iff, CutRight, request_eq]
  refine and_congr_right fun _ => ?_
  by_cases hfits : u.path.length+u.host.length+(if headerOnly then 27 else 26) < requestSize
  · rw [if_pos hfits]
    simp only [Option.some.injEq, exists_eq_left', readMessage_eq_some_iff, and_true,
      wellFormed_requestFor_iff, hfits]
  · rw [if_neg hfits]
    simp only [hfits, reduceCtorEq, false_and, exists_false, and_false]

end

/-- A URL without a port has none that is out of range. -/
theorem noPort_range : ∀ n ∈ (none : Option ℕ), 1 ≤ n ∧ n ≤ 65535 := by
  intro n hn
  exact absurd hn (Option.not_mem_none n)

/-- The example of the comment: `http://www.example.com/index.html` with `-h`. -/
def commentUrl : WrittenUrl where
  scheme := .http
  host := ascii "www.example.com"
  port := none
  path := ascii "index.html"
  host_ne_nil := by decide
  host_plain := by decide
  port_range := noPort_range

/-- It is not taken as it is meant. -/
theorem asMeant_iff_comment : ¬ AsMeant commentUrl true ∧
    parseUrl commentUrl.text = some ⟨false, ascii "http", 80, ascii "www.example.com"⟩ := by
  have h := asMeant_iff commentUrl true
  refine ⟨fun hmeant => ?_, h.2.1 rfl⟩
  rcases (h.1.mp hmeant).1 with hcut | hcut
  · exact hcut.1 rfl
  · have hhost := hcut.2.1
    revert hhost
    decide

end NetTools.MyWeb
