import NetTools.HTTPSClient

namespace NetTools.HTTPS

open CText

/-- The last result of `SSL_get_verify_result`. -/
def finalVerify (ssl : Session) : Int :=
  if ssl.verifyResult ≠ x509Ok then ssl.verifyAgain else ssl.verifyResult

/-- The server presented a certificate and it verified in the end. -/
def Validated (ssl : Session) : Prop := ssl.peerCertificate = true ∧ finalVerify ssl = x509Ok

instance (ssl : Session) : Decidable (Validated ssl) :=
  inferInstanceAs (Decidable (ssl.peerCertificate = true ∧ finalVerify ssl = x509Ok))

section

variable (url : Url) (ssl : Session) (headerOnly : Bool) (http : Bytes → Fetch)
  (garbage garbage' : Int)

/-- What `main` gets from `fetch_via_https`. -/
def fetched : Fetch :=
  fetchViaHttps ssl (buildRequest headerOnly url.path url.ip) headerOnly garbage

/-- The exit status once `main` is connected to the server. -/
def status : Option Int :=
  main (some url) ⟨true, true, true⟩ headerOnly
    (fun request => fetchViaHttps ssl request headerOnly garbage) http garbage'

/-- The request goes out only over a validated session, and every failure ends in
`EXIT_FAILURE`. -/
structure Enforced : Prop where
  guarded : (fetched url ssl headerOnly garbage).request ≠ none → Validated ssl
  handshake : ssl.connect ≤ 0 → status url ssl headerOnly http garbage garbage' = some exitFailure
  validation : 0 < ssl.connect → ¬ Validated ssl →
    status url ssl headerOnly http garbage garbage' = some exitFailure
  write : (fetched url ssl headerOnly garbage).request ≠ none → ssl.write ≤ 0 →
    status url ssl headerOnly http garbage garbage' = some exitFailure

end

/-- The context is not created, so that the process exits, or nothing fails: the handshake
succeeds, the certificate is valid, and the write succeeds where it is reached. -/
def NothingFails (ssl : Session) (garbage : Int) : Prop :=
  (ssl.ctxNew = false ∨ ssl.verifyPaths = false) ∨
    (0 < ssl.connect ∧ Validated ssl ∧ (garbage = -1 ∨ 0 < ssl.write))

/-- A rejected certificate is reported as `EXIT_FAILURE`, a valid one as whatever is left in
the register. -/
theorem validateCertificate_value (ssl : Session) (garbage : Int) :
    (validateCertificate ssl).1.value garbage = if Validated ssl then garbage else exitFailure := by
  by_cases hpeer : ssl.peerCertificate = true <;> by_cases hfirst : ssl.verifyResult = x509Ok <;>
    by_cases hagain : ssl.verifyAgain = x509Ok <;>
    simp [validateCertificate, Validated, finalVerify, Ending.value, hpeer, hfirst, hagain]

/-- The certificate is never the reason to stop: `EXIT_FAILURE` is not -1. -/
theorem validateCertificate_ne {ssl : Session} (hv : ¬ Validated ssl) (garbage : Int) :
    (validateCertificate ssl).1.value garbage ≠ -1 := by
  rw [validateCertificate_value, if_neg hv]
  decide

section

variable {url : Url} {ssl : Session} {headerOnly : Bool} {http : Bytes → Fetch}
  {garbage garbage' : Int}

/-- The exit status over `https` comes from `fetch_via_https` alone. -/
theorem status_eq (hs : url.scheme = ascii "https") :
    status url ssl headerOnly http garbage garbage' =
      match (fetched url ssl headerOnly garbage).ending with
      | .exited code => some code
      | .undefined => none
      | ending => some (if ending.value garbage' = -1 then exitFailure else exitSuccess) := by
  obtain ⟨scheme, ip, port, path⟩ := url
  obtain rfl : scheme = ascii "https" := hs
  rfl

/-- `main` takes the failure code of `fetch_via_https` for a success. -/
theorem status_of_returned (hs : url.scheme = ascii "https")
    (hf : (fetched url ssl headerOnly garbage).ending = .returned exitFailure) :
    status url ssl headerOnly http garbage garbage' = some exitSuccess := by
  rw [status_eq hs, hf]
  rfl

/-- Only a server that fails both verifications is distrusted. -/
theorem not_distrusts_of_validated (hv : Validated ssl) : ¬ Distrusts ssl := by
  rintro ⟨-, hfirst, hagain⟩
  have hfinal := hv.2
  rw [finalVerify, if_pos hfirst] at hfinal
  exact hagain hfinal

theorem fetched_of_no_context (hctx : ssl.ctxNew = false ∨ ssl.verifyPaths = false) :
    fetched url ssl headerOnly garbage = ⟨none, [], none, .exited exitFailure⟩ := if_pos hctx

theorem fetched_of_no_handshake (hctx : ¬ (ssl.ctxNew = false ∨ ssl.verifyPaths = false))
    (hc : ssl.connect ≤ 0) :
    fetched url ssl headerOnly garbage = ⟨none, [], none, .returned exitFailure⟩ := by
  rw [fetched, fetchViaHttps, if_neg hctx, if_pos hc]

/-- Once the session is up, the request is held back only by a -1 from `validate_certificate`. -/
theorem fetched_of_handshake (hctx : ¬ (ssl.ctxNew = false ∨ ssl.verifyPaths = false))
    (hc : 0 < ssl.connect) :
    fetched url ssl headerOnly garbage =
      if (validateCertificate ssl).1.value garbage = -1 then
        ⟨none, [], none, closeSession ssl (.returned exitFailure)⟩
      else if ssl.write ≤ 0 then
        ⟨some (buildRequest headerOnly url.path url.ip), [], none,
          closeSession ssl (.returned exitFailure)⟩
      else receiveResponse headerOnly ssl.fopen ssl.reads (buildRequest headerOnly url.path url.ip)
        (closeSession ssl .fellOff) := by
  rw [fetched, fetchViaHttps, if_neg hctx, if_neg (not_le.mpr hc)]

theorem receiveResponse_request (fopen : Bool) (reads : List Bytes) (request : Bytes)
    (close : Ending) :
    (receiveResponse headerOnly fopen reads request close).request = some request := by
  unfold receiveResponse
  split_ifs <;> rfl

/-- The request goes out over a rejected certificate. -/
theorem fetched_request_of_not_validated (hctx : ¬ (ssl.ctxNew = false ∨ ssl.verifyPaths = false))
    (hc : 0 < ssl.connect) (hv : ¬ Validated ssl) :
    (fetched url ssl headerOnly garbage).request = some (buildRequest headerOnly url.path url.ip) := by
  rw [fetched_of_handshake hctx hc, if_neg (validateCertificate_ne hv garbage)]
  split_ifs
  · rfl
  · exact receiveResponse_request ..

/-- The failure code that a context without certificates ends the process with is the only one
that reaches the exit status. -/
theorem enforced_of_no_context (hs : url.scheme = ascii "https")
    (hctx : ssl.ctxNew = false ∨ ssl.verifyPaths = false) :
    Enforced url ssl headerOnly http garbage garbage' := by
  have hf : fetched url ssl headerOnly garbage = ⟨none, [], none, .exited exitFailure⟩ :=
    fetched_of_no_context hctx
  have hstatus : status url ssl headerOnly http garbage garbage' = some exitFailure := by
    rw [status_eq hs, hf]
  refine ⟨fun hreq => ?_, fun _ => hstatus, fun _ _ => hstatus, fun _ _ => hstatus⟩
  rw [hf] at hreq
  exact absurd rfl hreq

theorem certificate_enforced_iff (hs : url.scheme = ascii "https") :
    Enforced url ssl headerOnly http garbage garbage' ↔ NothingFails ssl garbage := by
  by_cases hctx : ssl.ctxNew = false ∨ ssl.verifyPaths = false
  · exact iff_of_true (enforced_of_no_context hs hctx) (.inl hctx)
  have hne : some exitSuccess ≠ some exitFailure := by decide
  constructor
  -- each failure alone would end in `EXIT_SUCCESS`
  · intro h
    have hc : 0 < ssl.connect := by
      by_contra hc
      have hf : (fetched url ssl headerOnly garbage).ending = .returned exitFailure := by
        rw [fetched_of_no_handshake hctx (not_lt.mp hc)]
      exact hne ((status_of_returned hs hf).symm.trans (h.handshake (not_lt.mp hc)))
    have hv : Validated ssl := by
      by_contra hv
      exact hv (h.guarded (by simp [fetched_request_of_not_validated hctx hc hv]))
    refine .inr ⟨hc, hv, or_iff_not_imp_left.mpr fun hg => ?_⟩
    have hvalue : (validateCertificate ssl).1.value garbage ≠ -1 := by
      rwa [validateCertificate_value, if_pos hv]
    by_contra hw
    have hf : fetched url ssl headerOnly garbage = _ := fetched_of_handshake hctx hc
    rw [if_neg hvalue, if_pos (not_lt.mp hw)] at hf
    have hfailed := h.write (by simp [hf]) (not_lt.mp hw)
    have hclose : closeSession ssl (.returned exitFailure) = .returned exitFailure :=
      if_neg (not_distrusts_of_validated hv)
    exact hne ((status_of_returned hs (by rw [hf, hclose])).symm.trans hfailed)
  · rintro (hno | ⟨hc, hv, hw⟩)
    · exact absurd hno hctx
    refine ⟨fun _ => hv, fun hc' => absurd hc (not_lt.mpr hc'), fun _ hv' => absurd hv hv', ?_⟩
    intro hreq hw'
    -- the request was written, so the value of `validate_certificate` was not -1
    obtain hg | hw := hw
    · rw [fetched_of_handshake hctx hc, validateCertificate_value, if_pos hv, if_pos hg] at hreq
      exact absurd rfl hreq
    · exact absurd hw (not_lt.mpr hw')

end

/-- A session with an expired or untrusted certificate whose verification fails twice. -/
def untrusted : Session where
  ctxNew := true
  verifyPaths := true
  connect := 1
  peerCertificate := true
  verifyResult := 18
  verifyAgain := 18
  chain := none
  write := 55
  fopen := true
  reads := [ascii "HTTP/1.1 200 OK\r\n\r\n"]

/-- `https://localhost:4433/`. -/
def localhost : Url := ⟨ascii "https", ascii "localhost", 4433, []⟩

theorem certificate_enforced_iff_trusted :
    localhost.scheme = ascii "https" ∧
      (Enforced localhost { untrusted with verifyResult := 0 } true
        (fun _ => ⟨none, [], none, .fellOff⟩) 1 0 ↔
        NothingFails { untrusted with verifyResult := 0 } 1) :=
  ⟨rfl, certificate_enforced_iff rfl⟩

/-- A certificate that fails both verifications: the request is written, and `main` does not end
with `EXIT_FAILURE`, since the context is freed twice. A failed handshake ends with
`EXIT_SUCCESS`. -/
theorem untrusted_server_accepted :
    ¬ Validated untrusted ∧
      (fetched localhost untrusted true 0).request ≠ none ∧
      status localhost untrusted true (fun _ => ⟨none, [], none, .fellOff⟩) 0 0 ≠
        some exitFailure ∧
      ¬ Enforced localhost untrusted true (fun _ => ⟨none, [], none, .fellOff⟩) 0 0 ∧
      status localhost { untrusted with connect := 0 } true
        (fun _ => ⟨none, [], none, .fellOff⟩) 0 0 = some exitSuccess := by
  have hv : ¬ Validated untrusted := by decide
  have hreq : (fetched localhost untrusted true 0).request ≠ none := by decide
  exact ⟨hv, hreq, by decide, fun h => hv (h.guarded hreq), by decide⟩

end NetTools.HTTPS
