import NetTools.HTTPSResources
import NetTools.HTTPSRequest
import NetTools.HTTPSHeaders
import NetTools.HTTPSEnforcement

namespace NetTools.HTTPS

open CText

namespace Run

variable {run : Run} {url : Url}

/-- The fetch function that `main` calls, with its request. -/
def fetched (run : Run) (url : Url) : Fetch :=
  let request := buildRequest run.headerOnly url.path url.ip
  if url.scheme = ascii "https" then fetchViaHttps run.session request run.headerOnly run.stray
  else fetchViaHttp run.send run.fopen run.session.reads request run.headerOnly

/-- The exit status; `garbage` is what a fetch function without `return` leaves. -/
def status (run : Run) (garbage : Int) : Option Int :=
  main (parseUrl run.url).toOption run.connection run.headerOnly
    (fun request => fetchViaHttps run.session request run.headerOnly run.stray)
    (fun request => fetchViaHttp run.send run.fopen run.session.reads request run.headerOnly) garbage

/-- The request is sent, over TLS not to a server that shows a certificate and fails both
verifications. -/
def Sends (run : Run) (url : Url) : Prop :=
  if url.scheme = ascii "https" then Responds run.session run.stray ∧ ¬ Distrusts run.session
  else 0 ≤ run.send

def opensOutput (run : Run) (url : Url) : Bool :=
  if url.scheme = ascii "https" then run.session.fopen else run.fopen

theorem fetched_of_sends (h : run.Sends url) : run.fetched url =
    receiveResponse run.headerOnly (run.opensOutput url) run.session.reads
      (buildRequest run.headerOnly url.path url.ip) .fellOff := by
  rw [Sends] at h
  rw [fetched, opensOutput]
  split_ifs at h ⊢ with hs
  · obtain ⟨⟨hctx, hpaths, hconnect, hvalidate, hwrite⟩, htrust⟩ := h
    simp [fetchViaHttps, hctx, hpaths, Int.not_le.mpr hconnect, hvalidate, Int.not_le.mpr hwrite,
      closeSession, htrust]
  · rw [fetchViaHttp, if_neg (Int.not_lt.mpr h)]

theorem closeSession_eq_fellOff {ssl : Session} {ending : Ending}
    (h : closeSession ssl ending = .fellOff) : ending = .fellOff ∧ ¬ Distrusts ssl := by
  rw [closeSession] at h
  split_ifs at h with htrust
  exact ⟨h, htrust⟩

/-- The response is followed by the end of the function. -/
theorem receiveResponse_eq_fellOff {headerOnly fopen : Bool} {reads : List Bytes}
    {request : Bytes} {close : Ending}
    (h : (receiveResponse headerOnly fopen reads request close).ending = .fellOff) :
    close = .fellOff := by
  rw [receiveResponse] at h
  split_ifs at h
  · exact h
  · exact h

/-- Without a request that is sent, the function returns early. -/
theorem sends_of_fellOff (h : (run.fetched url).ending = .fellOff) : run.Sends url := by
  rw [Sends]
  rw [fetched] at h
  split_ifs at h ⊢ with hs
  -- every early return and the exit are told from falling off the end
  · rw [fetchViaHttps] at h
    split_ifs at h with hctx hconnect hvalidate hwrite
    · exact absurd (closeSession_eq_fellOff h).1 (by simp)
    · exact absurd (closeSession_eq_fellOff h).1 (by simp)
    · rw [not_or, Bool.not_eq_false, Bool.not_eq_false] at hctx
      exact ⟨⟨hctx.1, hctx.2, Int.not_le.mp hconnect, hvalidate, Int.not_le.mp hwrite⟩,
        (closeSession_eq_fellOff (receiveResponse_eq_fellOff h)).2⟩
  · rw [fetchViaHttp] at h
    split_ifs at h with hsend
    exact Int.not_lt.mp hsend

/-- The stream of the response. -/
def response (run : Run) : Bytes := run.session.reads.flatten

/-- The function runs to its end when the request is sent and the response has a place to go to. -/
theorem fetched_ending_iff : (run.fetched url).ending = .fellOff ↔
    run.Sends url ∧ (run.headerOnly = true ∨ run.opensOutput url = true) := by
  constructor
  · intro h
    have hsends := sends_of_fellOff h
    refine ⟨hsends, ?_⟩
    rw [fetched_of_sends hsends, receiveResponse] at h
    split_ifs at h with hhead hopen
    · exact Or.inl hhead
    · exact Or.inr (by simpa using hopen)
  · rintro ⟨hsends, hplace⟩
    rw [fetched_of_sends hsends, receiveResponse]
    rcases hplace with hhead | hopen
    · rw [if_pos hhead]
    · rw [if_neg (by simp [hopen] : ¬ run.opensOutput url = false)]
      split_ifs <;> rfl

end Run

/-- What `parse_url` should make of the URL. -/
def WrittenUrl.parts (u : WrittenUrl) : Url := ⟨u.scheme.name, u.host, u.portNumber, u.path⟩

/-- The port is not the one that is reserved for the other scheme. -/
def WrittenUrl.Allowed (u : WrittenUrl) : Prop :=
  ¬ (u.portNumber = 443 ∧ u.scheme.name = ascii "http") ∧
    ¬ (u.portNumber = 80 ∧ u.scheme.name = ascii "https")

theorem parseUrl_text_eq_ok_iff (u : WrittenUrl) (v : Url) :
    parseUrl u.text = .ok v ↔ u.Allowed ∧ v = u.parts := by
  have hport (n : ℕ) : (u.portNumber : Int) = n ↔ u.portNumber = n := Nat.cast_inj
  have h443 := hport 443
  have h80 := hport 80
  rw [Nat.cast_ofNat] at h443 h80
  rw [parseUrl_text, checkReserved_eq_ok_iff, WrittenUrl.Allowed, and_assoc, eq_comm (a := v)]
  simp only [h443, h80]
  rfl

/-- The run did what the command line asks for: it dialled the host at the port, sent one request
for the path and nothing else, met no failure, and printed the header of the response or stored the
whole response. -/
structure Fetches (run : Run) (u : WrittenUrl) (url : Url) : Prop where
  dials : run.Dials url
  host : url.ip = u.host
  port : portBuffer url.port = decimal u.portNumber
  request : ∃ bytes, (run.fetched url).request = some bytes ∧
    IsRequestFor run.headerOnly u.path u.host bytes
  ending : (run.fetched url).ending = .fellOff
  header : run.headerOnly = true → (run.fetched url).printed = header run.response
  stored : run.headerOnly = false → (run.fetched url).outputDat = some run.response

/-- The path and the host end no word and no line of the request, which fits its buffer. -/
def WrittenUrl.Requestable (u : WrittenUrl) (headerOnly : Bool) : Prop :=
  (∀ b ∈ u.path, b ≠ 13 ∧ b ≠ 10 ∧ b ≠ 32) ∧ (∀ b ∈ u.host, b ≠ 13 ∧ b ≠ 10) ∧
    u.path.length+u.host.length+(if headerOnly then 46 else 45) < bufferSize

/-- The response goes where it is asked for: with `-h` the end of the header can be found in the
reads, or the response is all header; else `output.dat` can be opened. -/
def Run.Shows (run : Run) (url : Url) : Prop :=
  if run.headerOnly then
    header run.response = run.response ∨ FoundAt run.session.reads (header run.response)
  else run.opensOutput url = true

section

variable {run : Run} {u : WrittenUrl}

theorem Run.Shows.place {url : Url} (h : run.Shows url) :
    run.headerOnly = true ∨ run.opensOutput url = true := by
  rw [Run.Shows] at h
  split_ifs at h with hhead
  · exact Or.inl hhead
  · exact Or.inr h

theorem fetches_of (hallowed : u.Allowed) (hconnection : run.connection = ⟨true, true, true⟩)
    (hrequest : u.Requestable run.headerOnly) (hsends : run.Sends u.parts) (hshows : run.Shows u.parts)
    (hurl : run.url = u.text) : Fetches run u u.parts := by
  have hfetched := Run.fetched_of_sends hsends
  have hport : u.portNumber ≤ 65535 := by
    cases hp : u.port with
    | none =>
      rw [WrittenUrl.portNumber, hp]
      cases u.scheme <;> decide
    | some n =>
      rw [WrittenUrl.portNumber, hp]
      exact (u.port_range n hp).2
  refine ⟨⟨?_, hconnection⟩, rfl, portBuffer_natCast hport, ?_, ?_, ?_, ?_⟩
  · rw [hurl, parseUrl_text_eq_ok_iff]
    exact ⟨hallowed, rfl⟩
  -- the request is built from the parts that were parsed
  · refine ⟨_, ?_, (isRequestFor_buildRequest_iff _ _ _).mpr hrequest⟩
    rw [hfetched, receiveResponse_request]
    rfl
  · exact Run.fetched_ending_iff.mpr ⟨hsends, hshows.place⟩
  · intro hhead
    rw [Run.Shows, if_pos hhead] at hshows
    rw [hfetched, receiveResponse, if_pos hhead]
    exact (printReads_eq_header_iff _).mpr hshows
  · intro hhead
    have hnot : ¬ run.headerOnly = true := by simp [hhead]
    rw [Run.Shows, if_neg hnot] at hshows
    rw [hfetched, receiveResponse, if_neg hnot, if_neg (by simp [hshows])]
    rfl

/-- The exit status of such a run. -/
theorem Fetches.status {url : Url} (h : Fetches run u url) (garbage : Int) :
    run.status garbage = some (if garbage = -1 then exitFailure else exitSuccess) := by
  have hending := h.ending
  rw [Run.fetched] at hending
  rw [Run.status, h.dials.1, h.dials.2]
  simp only [main, Except.toOption, Bool.true_eq_false, ↓reduceIte]
  split_ifs at hending ⊢ with hs hg hg
  all_goals simp [hending, Ending.value, hg]

end

/-- For every URL that is written in its parts and every run: the client does what it is asked for
exactly when the port is not reserved for the other scheme, the calls up to the connection succeed,
the request fits and is not broken up by the URL, it is sent, and the response can be shown or
stored. Its exit status is then what the return register happens to say. -/
theorem fetches_iff (run : Run) (u : WrittenUrl) :
    ((∃ url, Fetches { run with url := u.text } u url) ↔
      u.Allowed ∧ run.connection = ⟨true, true, true⟩ ∧ u.Requestable run.headerOnly ∧
        run.Sends u.parts ∧ run.Shows u.parts) ∧
    ∀ url, Fetches { run with url := u.text } u url → url = u.parts ∧
      ∀ garbage, ({ run with url := u.text } : Run).status garbage =
        some (if garbage = -1 then exitFailure else exitSuccess) := by
  have hparts {url : Url} (h : Fetches { run with url := u.text } u url) :
      u.Allowed ∧ url = u.parts := (parseUrl_text_eq_ok_iff u url).mp h.dials.1
  constructor
  · constructor
    · rintro ⟨url, h⟩
      obtain ⟨hallowed, rfl⟩ := hparts h
      obtain ⟨hsends, hplace⟩ := Run.fetched_ending_iff.mp h.ending
      have hfetched := Run.fetched_of_sends hsends
      refine ⟨hallowed, h.dials.2, ?_, hsends, ?_⟩
      · obtain ⟨bytes, hbytes, hrequest⟩ := h.request
        rw [hfetched, receiveResponse_request, Option.some.injEq] at hbytes
        subst hbytes
        exact (isRequestFor_buildRequest_iff _ _ _).mp hrequest
      · rw [Run.Shows]
        by_cases hhead : run.headerOnly = true
        · rw [if_pos hhead]
          have hprinted := h.header hhead
          rw [hfetched, receiveResponse, if_pos hhead] at hprinted
          exact (printReads_eq_header_iff _).mp hprinted
        · rw [if_neg hhead]
          exact hplace.resolve_left hhead
    · rintro ⟨hallowed, hconnection, hrequest, hsends, hshows⟩
      exact ⟨u.parts, fetches_of hallowed hconnection hrequest hsends hshows rfl⟩
  · intro url h
    exact ⟨(hparts h).2, h.status⟩

/-- A run with `-h` whose response comes in two reads, the second with bytes behind the header. -/
def headRun : Run where
  url := (plainUrl (ascii "x")).text
  connection := ⟨true, true, true⟩
  headerOnly := true
  session := ⟨true, true, 1, true, 0, 0, none, 36, true,
    [ascii "HTTP/1.1 200 O", ascii "K\r\n\r\nbody"]⟩
  stray := 0
  send := 36
  fopen := false

/-- It prints the header and leaves out what is behind it. -/
theorem fetches_iff_head : ∃ url, Fetches headRun (plainUrl (ascii "x")) url := by
  apply (fetches_iff headRun (plainUrl (ascii "x"))).1.mpr
  refine ⟨⟨by decide, by decide⟩, rfl, ⟨by decide, by decide, by decide⟩, ?_, ?_⟩
  · rw [Run.Sends, if_neg (by decide)]
    decide
  · rw [Run.Shows, if_pos (by rfl)]
    exact Or.inr ⟨[ascii "HTTP/1.1 200 O"], ascii "K", ascii "body", [], by decide, by decide,
      by decide⟩

end NetTools.HTTPS
