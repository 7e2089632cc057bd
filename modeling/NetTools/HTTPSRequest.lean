import NetTools.HTTPSUrl
import NetTools.HTTPMessage
import Mathlib.Data.List.TakeDrop

namespace NetTools.HTTPS

open CText HTTP

/-- The request for a URL: its method, `/` and the whole path, the host. -/
def requestFor (headerOnly : Bool) (path ip : Bytes) : Message where
  method := ascii (if headerOnly then "HEAD" else "GET")
  target := 47 :: path
  version := ascii "HTTP/1.1"
  headers := [ascii "Host: " ++ ip, ascii "Connection: close"]

/-- The bytes are this one request and nothing else. -/
def IsRequestFor (headerOnly : Bool) (path ip bytes : Bytes) : Prop :=
  readMessage bytes = some (requestFor headerOnly path ip, [])

theorem buildRequest_eq (headerOnly : Bool) (path ip : Bytes) :
    buildRequest headerOnly path ip = (requestFor headerOnly path ip).text.take (bufferSize-1) := by
  have hget : ascii " /" = [32, 47] := by decide
  have hversion : ascii " HTTP/1.1\r\nHost: " =
      32 :: (ascii "HTTP/1.1" ++ crlf ++ ascii "Host: ") := by decide
  have hclose : ascii "\r\nConnection: close\r\n\r\n" =
      crlf ++ ascii "Connection: close" ++ crlf ++ crlf := by decide
  rw [buildRequest, hget, hversion, hclose]
  simp [Message.text, requestLine, headerText, requestFor]

theorem length_text_requestFor (headerOnly : Bool) (path ip : Bytes) :
    (requestFor headerOnly path ip).text.length =
      path.length+ip.length+(if headerOnly then 46 else 45) := by
  have hversion : (ascii "HTTP/1.1").length = 8 := rfl
  have hhost : (ascii "Host: ").length = 6 := rfl
  have hclose : (ascii "Connection: close").length = 17 := rfl
  have hmethod : (ascii (if headerOnly then "HEAD" else "GET")).length =
      if headerOnly then 4 else 3 := by
    cases headerOnly <;> rfl
  simp only [Message.text, requestLine, headerText, requestFor, crlf, List.map_cons, List.map_nil,
    List.flatten_cons, List.flatten_nil, List.length_append, List.length_cons, List.length_nil,
    hversion, hhost, hclose, hmethod]
  split_ifs <;> omega

theorem wellFormed_requestFor_iff (headerOnly : Bool) (path ip : Bytes) :
    (requestFor headerOnly path ip).WellFormed ↔
      (∀ b ∈ path, b ≠ 13 ∧ b ≠ 10 ∧ b ≠ 32) ∧ ∀ b ∈ ip, b ≠ 13 ∧ b ≠ 10 := by
  constructor
  · intro h
    refine ⟨fun b hb => ?_, fun b hb => ?_⟩
    -- the path is a part of the request line's second word, the host of the first header line
    · obtain ⟨hspace, hline⟩ := h.target
      obtain ⟨hcr, hlf⟩ := hline b (List.mem_cons_of_mem _ hb)
      refine ⟨hcr, hlf, ?_⟩
      rintro rfl
      exact hspace (List.mem_cons_of_mem _ hb)
    · have hline := (h.headers _ List.mem_cons_self).2
      exact hline b (List.mem_append_right _ hb)
  · rintro ⟨hpath, hip⟩
    have hmethod : 32 ∉ ascii (if headerOnly then "HEAD" else "GET") ∧
        IsLine (ascii (if headerOnly then "HEAD" else "GET")) := by
      cases headerOnly <;> decide
    have hversion : 32 ∉ ascii "HTTP/1.1" ∧ IsLine (ascii "HTTP/1.1") := by decide
    refine ⟨hmethod, ⟨?_, ?_⟩, hversion, ?_⟩
    · intro hb
      rcases List.mem_cons.mp hb with hb | hb
      · cases hb
      · exact (hpath 32 hb).2.2 rfl
    · intro b hb
      rcases List.mem_cons.mp hb with rfl | hb
      · decide
      · exact ⟨(hpath b hb).1, (hpath b hb).2.1⟩
    · have hhost : IsLine (ascii "Host: ") := by decide
      refine List.forall_mem_cons.mpr ⟨⟨List.cons_ne_nil _ _, fun b hb => ?_⟩, by decide⟩
      rcases List.mem_append.mp hb with hb | hb
      · exact hhost b hb
      · exact hip b hb

/-- What is built is read as the request exactly when it fits the buffer and nothing in the path or
the host ends a word or a line. -/
theorem isRequestFor_buildRequest_iff (headerOnly : Bool) (path ip : Bytes) :
    IsRequestFor headerOnly path ip (buildRequest headerOnly path ip) ↔
      (∀ b ∈ path, b ≠ 13 ∧ b ≠ 10 ∧ b ≠ 32) ∧ (∀ b ∈ ip, b ≠ 13 ∧ b ≠ 10) ∧
        path.length+ip.length+(if headerOnly then 46 else 45) < bufferSize := by
  have hfits : (requestFor headerOnly path ip).text.take (bufferSize-1) =
      (requestFor headerOnly path ip).text ↔
        path.length+ip.length+(if headerOnly then 46 else 45) < bufferSize := by
    rw [List.take_eq_self_iff, length_text_requestFor]
    exact (Nat.lt_iff_le_pred (by decide)).symm
  rw [IsRequestFor, readMessage_eq_some_iff, List.append_nil, buildRequest_eq, hfits,
    wellFormed_requestFor_iff, and_assoc]

/-- For an accepted URL, in its own text. -/
theorem request_wellFormed_iff {url : Bytes} {u : Url} (h : parseUrl url = .ok u)
    (headerOnly : Bool) :
    IsRequestFor headerOnly u.path u.ip (buildRequest headerOnly u.path u.ip) ↔
      (∀ b ∈ pathText url, b ≠ 13 ∧ b ≠ 10 ∧ b ≠ 32) ∧ (∀ b ∈ hostText url, b ≠ 13 ∧ b ≠ 10) ∧
        (pathText url).length+(hostText url).length+(if headerOnly then 46 else 45) <
          bufferSize := by
  obtain ⟨-, -, rfl⟩ := (parseUrl_eq_ok_iff url u).mp h
  exact isRequestFor_buildRequest_iff headerOnly _ _

theorem request_wellFormed_index :
    parseUrl (ascii "http://h/index.html") = .ok ⟨ascii "http", ascii "h", 80, ascii "index.html"⟩ ∧
      (IsRequestFor false (ascii "index.html") (ascii "h")
          (buildRequest false (ascii "index.html") (ascii "h")) ↔
        (∀ b ∈ pathText (ascii "http://h/index.html"), b ≠ 13 ∧ b ≠ 10 ∧ b ≠ 32) ∧
        (∀ b ∈ hostText (ascii "http://h/index.html"), b ≠ 13 ∧ b ≠ 10) ∧
          (pathText (ascii "http://h/index.html")).length+
            (hostText (ascii "http://h/index.html")).length+(if false then 46 else 45) <
              bufferSize) :=
  ⟨by decide, request_wellFormed_iff (by decide : parseUrl (ascii "http://h/index.html") =
    .ok ⟨ascii "http", ascii "h", 80, ascii "index.html"⟩) false⟩

/-- The URL `http://h/path`. -/
def plainUrl (path : Bytes) : WrittenUrl where
  scheme := .http
  host := ascii "h"
  port := none
  path := path
  host_ne_nil := by decide
  host_plain := by decide
  port_range := by simp

/-- The end of a long request is not sent, and with it the `Connection: close` line. -/
theorem request_not_wellFormed : ¬ ∀ url u headerOnly, parseUrl url = .ok u →
    IsRequestFor headerOnly u.path u.ip (buildRequest headerOnly u.path u.ip) := by
  intro h
  have hlong (path : Bytes) : path.length+1+45 < bufferSize := by
    have hread := h (plainUrl path).text ⟨ascii "http", ascii "h", 80, path⟩ false
      (parseUrl_text (plainUrl path))
    exact ((isRequestFor_buildRequest_iff false _ _).mp hread).2.2
  have hlen := hlong (List.replicate 1000 97)
  rw [List.length_replicate] at hlen
  exact absurd hlen (by decide)

end NetTools.HTTPS
