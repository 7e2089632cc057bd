import NetTools.Custody
import NetTools.HTTPSUrl

/-! What one run of `https/client.c` acquires and releases: strings, the socket, files and the
counted references of OpenSSL. `SSL_new` takes a reference to its context, and `SSL_free` gives it
back. -/
namespace NetTools.HTTPS

open CText Custody

/-- `defaultScheme` is the first `strdup` of `parse_url`, `scheme` the one behind a named scheme;
`certFile` is `missing-cert.pem`. -/
inductive Resource
  | defaultScheme
  | scheme
  | ip
  | path
  | addrinfo
  | sock
  | ctx
  | ssl
  | cert
  | certFile
  | outputFile
  deriving DecidableEq

open Op Resource

def hasScheme (url : Bytes) : Bool :=
  startsWith url (ascii "http://") || startsWith url (ascii "https://")

/-- The copy that `*scheme` points to. -/
def schemePtr (url : Bytes) : Resource := if hasScheme url then scheme else defaultScheme

def parseUrlOps (url : Bytes) : List (Op Resource) :=
  acquire defaultScheme :: (if hasScheme url then [acquire scheme] else []) ++
    match parseUrl url with
    | .error .noPath => []
    | .error .invalidPort => [acquire path, acquire ip, release (schemePtr url), release path]
    | .error .reservedForHttps | .error .reservedForHttp =>
      [acquire path, acquire ip, release (schemePtr url), release ip, release path]
    | .ok _ => [acquire path, acquire ip]

/-- The certificates from the second one on. -/
def addMissingCertificateOps : Option (List ChainCert) → List (Op Resource)
  | none => []
  | some chain => (chain.drop 1).flatMap fun cert =>
    if cert.fopen then [acquire certFile, release certFile] else []

def validateCertificateOps (ssl : Session) : List (Op Resource) :=
  if ssl.peerCertificate = false then []
  else [acquire cert, release cert] ++
    if ssl.verifyResult ≠ x509Ok then addMissingCertificateOps ssl.chain ++
      if ssl.verifyAgain ≠ x509Ok then [release ctx] else []
    else []

/-- `SSL_free(ssl); SSL_CTX_free(ctx);`. -/
def freeTls : List (Op Resource) := [release ssl, release ctx, release ctx]

def fetchViaHttpsOps (session : Session) (headerOnly : Bool) (garbage : Int) : List (Op Resource) :=
  if session.ctxNew = false then []
  else if session.verifyPaths = false then [acquire ctx]
  else [acquire ctx, acquire ssl, acquire ctx] ++
    if session.connect ≤ 0 then freeTls
    else validateCertificateOps session ++
      if (validateCertificate session).1.value garbage = -1 then freeTls
      else if session.write ≤ 0 then freeTls
      else if headerOnly then freeTls
      else if session.fopen = false then []
      else [acquire outputFile, release outputFile] ++ freeTls

def fetchViaHttpOps (send : Int) (fopen headerOnly : Bool) : List (Op Resource) :=
  if send < 0 then []
  else if headerOnly then []
  else if fopen = false then []
  else [acquire outputFile, release outputFile]

/-- What one run meets: the calls of `main`, the TLS session and, without TLS, `send` and `fopen`;
`stray` is what a missing `return` of `validate_certificate` leaves. -/
structure Run where
  url : Bytes
  connection : Connection
  headerOnly : Bool
  session : Session
  stray : Int
  send : Int
  fopen : Bool

namespace Run

/-- `exit` in `create_ssl_context`. -/
def exits (run : Run) (url : Url) : Bool :=
  url.scheme = ascii "https" && (run.session.ctxNew = false || run.session.verifyPaths = false)

def fetchOps (run : Run) (url : Url) : List (Op Resource) :=
  if url.scheme = ascii "https" then fetchViaHttpsOps run.session run.headerOnly run.stray
  else fetchViaHttpOps run.send run.fopen run.headerOnly

/-- `free(scheme); free(ip); free(path);`. -/
def frees (run : Run) : List (Op Resource) :=
  [release (schemePtr run.url), release ip, release path]

def mainOps (run : Run) : List (Op Resource) :=
  parseUrlOps run.url ++
    match parseUrl run.url with
    | .error _ => []
    | .ok url =>
      if run.connection.resolved = false then run.frees
      else if run.connection.socket = false then acquire addrinfo :: run.frees
      else if run.connection.connected = false then
        [acquire addrinfo, acquire sock, release addrinfo] ++ run.frees ++ [release sock]
      else [acquire addrinfo, acquire sock, release addrinfo] ++ run.fetchOps url ++
        if run.exits url then [] else run.frees ++ [release sock]

end Run

/-- The fetch function gets to its request. -/
structure Handshake (session : Session) (stray : Int) : Prop where
  ctxNew : session.ctxNew = true
  verifyPaths : session.verifyPaths = true
  connect : 0 < session.connect
  validated : (validateCertificate session).1.value stray ≠ -1

instance (session : Session) (stray : Int) : Decidable (Handshake session stray) :=
  decidable_of_iff (session.ctxNew = true ∧ session.verifyPaths = true ∧ 0 < session.connect ∧
      (validateCertificate session).1.value stray ≠ -1)
    ⟨fun ⟨hc, hp, hh, hv⟩ => ⟨hc, hp, hh, hv⟩, fun ⟨hc, hp, hh, hv⟩ => ⟨hc, hp, hh, hv⟩⟩

/-- `output.dat` cannot be opened for a response that is to be stored. -/
def NoOutput (session : Session) (headerOnly : Bool) : Prop :=
  0 < session.write ∧ headerOnly = false ∧ session.fopen = false

instance (session : Session) (headerOnly : Bool) : Decidable (NoOutput session headerOnly) :=
  inferInstanceAs (Decidable (_ ∧ _))

variable {r : Resource} {n : ℕ} {session : Session} {headerOnly : Bool} {stray : Int}

theorem balance_addMissingCertificateOps (r : Resource) (n : ℕ) (chain : Option (List ChainCert)) :
    balance r n (addMissingCertificateOps chain) = some n := by
  cases chain with
  | none => rfl
  | some chain =>
    rw [addMissingCertificateOps]
    induction chain.drop 1 with
    | nil => rfl
    | cons cert certs ih =>
      rw [List.flatMap_cons, balance_append]
      split_ifs
      · rw [balance_borrow, balance_nil, Option.bind_some, ih]
      · rw [balance_nil, Option.bind_some, ih]

theorem validateCertificateOps_eq (h : session.peerCertificate = true)
    (hverify : session.verifyResult ≠ x509Ok) :
    validateCertificateOps session = acquire cert :: release cert ::
      (addMissingCertificateOps session.chain ++
        if session.verifyAgain ≠ x509Ok then [release ctx] else []) := by
  rw [validateCertificateOps, if_neg (by simp [h]), if_pos hverify]
  rfl

/-- Only the context may lose a reference to `validate_certificate`. -/
theorem balance_validateCertificateOps (hr : r ≠ ctx) :
    balance r n (validateCertificateOps session) = some n := by
  by_cases hcert : session.peerCertificate = false
  · rw [validateCertificateOps, if_pos hcert, balance_nil]
  by_cases hverify : session.verifyResult ≠ x509Ok
  · rw [validateCertificateOps_eq (by simpa using hcert) hverify, balance_borrow, balance_append,
      balance_addMissingCertificateOps, Option.bind_some]
    split_ifs
    · rw [balance, if_neg (Ne.symm hr), balance_nil]
    · rw [balance_nil]
  · rw [validateCertificateOps, if_neg hcert, if_neg hverify, List.append_nil, balance_borrow,
      balance_nil]

theorem balance_ctx_validateCertificateOps :
    balance ctx (n+1) (validateCertificateOps session) =
      some (if Distrusts session then n else n+1) := by
  by_cases hcert : session.peerCertificate = false
  · rw [validateCertificateOps, if_pos hcert, balance_nil, if_neg fun h => by cases hcert.symm.trans h.1]
  by_cases hverify : session.verifyResult ≠ x509Ok
  · rw [validateCertificateOps_eq (by simpa using hcert) hverify, balance_borrow, balance_append,
      balance_addMissingCertificateOps, Option.bind_some]
    by_cases hagain : session.verifyAgain ≠ x509Ok
    · rw [if_pos hagain, balance_cons_release_self, if_neg (Nat.succ_ne_zero n), balance_nil,
        if_pos ⟨by simpa using hcert, hverify, hagain⟩, Nat.add_sub_cancel]
    · rw [if_neg hagain, balance_nil, if_neg fun h => hagain h.2.2]
  · rw [validateCertificateOps, if_neg hcert, if_neg hverify, List.append_nil, balance_borrow,
      balance_nil, if_neg fun h => hverify h.2.1]

/-- A server that is not trusted gets a failure, which is not the -1 that the caller looks for. -/
theorem value_of_distrusts (h : Distrusts session) (stray : Int) :
    (validateCertificate session).1.value stray = exitFailure := by
  rw [validateCertificate, if_neg (by simp [h.1]), if_pos h.2.1]
  simp only [if_pos h.2.2, Ending.value]

/-- What the fetch over TLS still holds of the session. -/
def TlsLeft (session : Session) (headerOnly : Bool) (stray : Int) : Prop :=
  Handshake session stray ∧ NoOutput session headerOnly

instance (session : Session) (headerOnly : Bool) (stray : Int) :
    Decidable (TlsLeft session headerOnly stray) :=
  inferInstanceAs (Decidable (_ ∧ _))

/-- The context is given back three times. -/
def CtxFreedTwice (session : Session) (headerOnly : Bool) (stray : Int) : Prop :=
  Handshake session stray ∧ Distrusts session ∧ ¬ NoOutput session headerOnly

/-- The operations behind the handshake. -/
def requestOps (session : Session) (headerOnly : Bool) : List (Op Resource) :=
  if session.write ≤ 0 then freeTls
  else if headerOnly then freeTls
  else if session.fopen = false then []
  else [acquire outputFile, release outputFile] ++ freeTls

theorem requestOps_of_noOutput (h : NoOutput session headerOnly) :
    requestOps session headerOnly = [] := by
  rw [requestOps, if_neg (by have := h.1; omega), if_neg (by simp [h.2.1]), if_pos h.2.2]

/-- Otherwise everything is freed, perhaps behind the file. -/
theorem balance_requestOps (h : ¬ NoOutput session headerOnly) :
    balance r n (requestOps session headerOnly) = balance r n freeTls := by
  unfold requestOps
  split_ifs with hwrite hheader hfopen
  · rfl
  · rfl
  · exact absurd ⟨by omega, by simpa using hheader, hfopen⟩ h
  · exact balance_borrow _ _ _ _

theorem fetchViaHttpsOps_of_handshake (h : Handshake session stray) :
    fetchViaHttpsOps session headerOnly stray = [acquire ctx, acquire ssl, acquire ctx] ++
      (validateCertificateOps session ++ requestOps session headerOnly) := by
  have hconnect := h.connect
  rw [fetchViaHttpsOps, if_neg (by simp [h.ctxNew]), if_neg (by simp [h.verifyPaths]),
    if_neg (by omega), if_neg h.validated]
  rfl

theorem not_distrusts_of_value (h : (validateCertificate session).1.value stray = -1) :
    ¬ Distrusts session := by
  intro hd
  rw [value_of_distrusts hd] at h
  cases h

/-- What is held when the handshake begins. -/
def tlsHeld : Resource → ℕ
  | ctx => 2
  | ssl => 1
  | _ => 0

theorem balance_tls (r : Resource) (ops : List (Op Resource)) :
    balance r 0 ([acquire ctx, acquire ssl, acquire ctx] ++ ops) = balance r (tlsHeld r) ops := by
  cases r <;> rfl

theorem balance_freeTls (r : Resource) : balance r (tlsHeld r) freeTls = some 0 := by
  cases r <;> rfl

/-- What `validate_certificate` leaves of it. -/
theorem balance_tlsHeld_validateCertificateOps :
    balance r (tlsHeld r) (validateCertificateOps session) =
      some (if r = ctx ∧ Distrusts session then 1 else tlsHeld r) := by
  by_cases hr : r = ctx
  · subst hr
    rw [tlsHeld, balance_ctx_validateCertificateOps]
    simp only [true_and]
  · rw [balance_validateCertificateOps hr, if_neg fun h => hr h.1]

/-- Without a handshake or with the -1 everything is given back, unless the process ends. -/
theorem balance_fetchViaHttpsOps_of_not (hctx : session.ctxNew = true)
    (hpaths : session.verifyPaths = true) (h : ¬ Handshake session stray) :
    balance r 0 (fetchViaHttpsOps session headerOnly stray) = some 0 := by
  rw [fetchViaHttpsOps, if_neg (by simp [hctx]), if_neg (by simp [hpaths]), balance_tls]
  by_cases hconnect : session.connect ≤ 0
  · rw [if_pos hconnect, balance_freeTls]
  · have hvalue : (validateCertificate session).1.value stray = -1 := by
      by_contra hvalue
      exact h ⟨hctx, hpaths, by omega, hvalue⟩
    rw [if_neg hconnect, balance_append, balance_tlsHeld_validateCertificateOps,
      if_neg fun hd => not_distrusts_of_value hvalue hd.2, Option.bind_some, if_pos hvalue,
      balance_freeTls]

/-- A file that cannot be opened leaves the session open. -/
theorem balance_fetchViaHttpsOps_noOutput (h : Handshake session stray)
    (hout : NoOutput session headerOnly) :
    balance r 0 (fetchViaHttpsOps session headerOnly stray) =
      some (if r = ctx ∧ Distrusts session then 1 else tlsHeld r) := by
  rw [fetchViaHttpsOps_of_handshake h, balance_tls, balance_append,
    balance_tlsHeld_validateCertificateOps, Option.bind_some, requestOps_of_noOutput hout, balance_nil]

/-- Else the session is freed, and a context that `validate_certificate` has freed once too often.
-/
theorem balance_fetchViaHttpsOps_output (h : Handshake session stray)
    (hout : ¬ NoOutput session headerOnly) :
    balance r 0 (fetchViaHttpsOps session headerOnly stray) =
      if r = ctx ∧ Distrusts session then none else some 0 := by
  rw [fetchViaHttpsOps_of_handshake h, balance_tls, balance_append,
    balance_tlsHeld_validateCertificateOps, Option.bind_some, balance_requestOps hout]
  split_ifs with hd
  · rw [hd.1]
    rfl
  · exact balance_freeTls r

theorem balance_fetchViaHttpOps (send : Int) (fopen : Bool) :
    balance r n (fetchViaHttpOps send fopen headerOnly) = some n := by
  unfold fetchViaHttpOps
  split_ifs
  · rfl
  · rfl
  · rfl
  · exact balance_borrow _ _ _ _

/-- The other resources are none of the fetch function's, or borrowed. -/
theorem balance_fetchViaHttpsOps_other (hctx : r ≠ ctx) (hssl : r ≠ ssl) :
    balance r n (fetchViaHttpsOps session headerOnly stray) = some n := by
  have hfree : balance r n freeTls = some n := by
    simp only [freeTls, balance, if_neg (Ne.symm hctx), if_neg (Ne.symm hssl)]
  have htls (ops : List (Op Resource)) :
      balance r n ([acquire ctx, acquire ssl, acquire ctx] ++ ops) = balance r n ops := by
    simp only [List.cons_append, List.nil_append, balance, if_neg (Ne.symm hctx), if_neg (Ne.symm hssl)]
  unfold fetchViaHttpsOps
  split_ifs
  · rfl
  · rw [balance, if_neg (Ne.symm hctx), balance_nil]
  · rw [htls, hfree]
  · rw [htls, balance_append, balance_validateCertificateOps hctx, Option.bind_some, hfree]
  · rw [htls, balance_append, balance_validateCertificateOps hctx, Option.bind_some, hfree]
  · rw [htls, balance_append, balance_validateCertificateOps hctx, Option.bind_some, hfree]
  · rw [htls, balance_append, balance_validateCertificateOps hctx, Option.bind_some, balance_nil]
  · rw [htls, balance_append, balance_validateCertificateOps hctx, Option.bind_some,
      List.cons_append, List.cons_append, List.nil_append, balance_borrow, hfree]

/-- What a URL leaves with its caller. -/
def parsed (url : Bytes) : Resource → ℕ
  | defaultScheme | ip | path => 1
  | scheme => if hasScheme url then 1 else 0
  | _ => 0

theorem balance_parseUrlOps {url : Bytes} {u : Url} (h : parseUrl url = .ok u) (r : Resource) :
    balance r 0 (parseUrlOps url) = some (parsed url r) := by
  rw [parseUrlOps, h]
  by_cases hs : hasScheme url
  · rw [if_pos hs]
    cases r with
    | scheme => exact congrArg some (if_pos hs).symm
    | _ => rfl
  · rw [if_neg hs]
    cases r with
    | scheme => exact congrArg some (if_neg hs).symm
    | _ => rfl

/-- A URL that is turned down may lose a copy, but frees none twice. -/
theorem balance_parseUrlOps_error {url : Bytes} {e : UrlError} (h : parseUrl url = .error e)
    (r : Resource) : balance r 0 (parseUrlOps url) ≠ none := by
  rw [parseUrlOps, h, schemePtr]
  by_cases hs : hasScheme url
  · rw [if_pos hs, if_pos hs]
    cases e <;> cases r <;> exact Option.some_ne_none _
  · rw [if_neg hs, if_neg hs]
    cases e <;> cases r <;> exact Option.some_ne_none _

/-- The first copy of the scheme is lost where the URL names one. -/
def lost (url : Bytes) (r : Resource) : ℕ := if r = defaultScheme ∧ hasScheme url then 1 else 0

instance (session : Session) (headerOnly : Bool) (stray : Int) :
    Decidable (CtxFreedTwice session headerOnly stray) :=
  inferInstanceAs (Decidable (_ ∧ _ ∧ ¬ _))

namespace Run

variable {run : Run} {url : Url}

theorem balance_frees (run : Run) (r : Resource) :
    balance r (parsed run.url r) run.frees = some (lost run.url r) := by
  rw [frees, schemePtr]
  by_cases hs : hasScheme run.url
  · cases r <;> simp [parsed, lost, balance, hs]
  · cases r <;> simp [parsed, lost, balance, hs]

/-- What is held of the session behind the fetch function, or `none`. -/
def afterFetch (run : Run) (url : Url) (r : Resource) : Option ℕ :=
  if url.scheme = ascii "https" then
    balance r 0 (fetchViaHttpsOps run.session run.headerOnly run.stray)
  else some 0

theorem mainOps_eq (hurl : parseUrl run.url = .ok url)
    (hconnection : run.connection = ⟨true, true, true⟩) (hexits : run.exits url = false) :
    run.mainOps = parseUrlOps run.url ++ acquire addrinfo :: acquire sock :: release addrinfo ::
      (run.fetchOps url ++ (run.frees ++ [release sock])) := by
  rw [mainOps, hurl]
  simp only [hconnection, hexits, Bool.true_eq_false, Bool.false_eq_true, ↓reduceIte]
  rfl

/-- Around the calls of the fetch function. -/
theorem balance_dialled (run : Run) (r : Resource) (ops : List (Op Resource)) :
    balance r (parsed run.url r)
        (acquire addrinfo :: acquire sock :: release addrinfo :: ops) =
      balance r (parsed run.url r+if r = sock then 1 else 0) ops := by
  cases r <;> rfl

theorem balance_frees_sock (run : Run) (r : Resource) :
    balance r (parsed run.url r+if r = sock then 1 else 0) (run.frees ++ [release sock]) =
      some (lost run.url r) := by
  by_cases hr : r = sock
  · subst hr
    have hne : schemePtr run.url ≠ sock := by
      unfold schemePtr
      split_ifs <;> decide
    simp [frees, balance, parsed, lost, hne]
  · rw [if_neg hr, Nat.add_zero, balance_append, balance_frees, Option.bind_some, balance,
      if_neg (Ne.symm hr), balance_nil]

theorem balance_frees_tls (run : Run) (hr : r = ctx ∨ r = ssl) (m : ℕ) :
    balance r m (run.frees ++ [release sock]) = some m := by
  have hne : schemePtr run.url ≠ r := by
    rcases hr with rfl | rfl <;> unfold schemePtr <;> split_ifs <;> decide
  rcases hr with rfl | rfl <;> simp [frees, balance, hne]

/-- The TLS session is apart from the strings and the socket. -/
theorem balance_mainOps (hurl : parseUrl run.url = .ok url)
    (hconnection : run.connection = ⟨true, true, true⟩) (hexits : run.exits url = false)
    (r : Resource) :
    balance r 0 run.mainOps =
      if r = ctx ∨ r = ssl then run.afterFetch url r else some (lost run.url r) := by
  rw [mainOps_eq hurl hconnection hexits, balance_append, balance_parseUrlOps hurl, Option.bind_some,
    balance_dialled, balance_append]
  by_cases hr : r = ctx ∨ r = ssl
  · have hzero : (parsed run.url r+if r = sock then 1 else 0) = 0 := by
      rcases hr with rfl | rfl <;> rfl
    rw [if_pos hr, hzero, fetchOps, afterFetch]
    split_ifs
    · cases balance r 0 (fetchViaHttpsOps run.session run.headerOnly run.stray) with
      | none => rfl
      | some m => exact balance_frees_tls run hr m
    · rw [balance_fetchViaHttpOps]
      exact balance_frees_tls run hr 0
  · have hfetch (n : ℕ) : balance r n (run.fetchOps url) = some n := by
      rw [not_or] at hr
      rw [fetchOps]
      split_ifs
      · exact balance_fetchViaHttpsOps_other hr.1 hr.2
      · exact balance_fetchViaHttpOps _ _
    rw [if_neg hr, hfetch, Option.bind_some, balance_frees_sock]

/-- The run gets to the fetch function. -/
def Dials (run : Run) (url : Url) : Prop :=
  parseUrl run.url = .ok url ∧ run.connection = ⟨true, true, true⟩

/-- `exit` comes before the handshake, with at most the context. -/
theorem balance_fetchOps_of_exits (h : run.exits url = true) (n : ℕ) :
    balance r n (run.fetchOps url) ≠ none := by
  simp only [exits, Bool.and_eq_true, Bool.or_eq_true, decide_eq_true_eq] at h
  obtain ⟨hscheme, hctx⟩ := h
  rw [fetchOps, if_pos hscheme, fetchViaHttpsOps]
  by_cases hnew : run.session.ctxNew = false
  · rw [if_pos hnew, balance_nil]
    exact Option.some_ne_none n
  · rw [if_neg hnew, if_pos (hctx.resolve_left hnew), balance, balance_nil]
    exact Option.some_ne_none _

/-- A run that ends before the fetch function, or by `exit` in it, frees nothing twice. -/
theorem balance_mainOps_of_not (h : ∀ url, run.Dials url → run.exits url = true) (r : Resource) :
    balance r 0 run.mainOps ≠ none := by
  rw [mainOps]
  cases hurl : parseUrl run.url with
  | error e =>
    rw [List.append_nil]
    exact balance_parseUrlOps_error hurl r
  | ok url =>
    dsimp only
    rw [balance_append, balance_parseUrlOps hurl, Option.bind_some]
    split_ifs with hresolved hsocket hconnected hexits
    · rw [balance_frees]
      exact Option.some_ne_none _
    · by_cases hr : addrinfo = r
      · subst hr
        have hne : schemePtr run.url ≠ addrinfo := by
          unfold schemePtr
          split_ifs <;> decide
        simp [frees, balance, parsed, hne]
      · rw [balance, if_neg hr, balance_frees]
        exact Option.some_ne_none _
    · rw [List.append_assoc, List.cons_append, List.cons_append, List.cons_append, List.nil_append,
        balance_dialled, balance_frees_sock]
      exact Option.some_ne_none _
    · rw [List.append_nil, List.cons_append, List.cons_append, List.cons_append, List.nil_append,
        balance_dialled]
      exact balance_fetchOps_of_exits hexits _
    · have hconnection : run.connection = ⟨true, true, true⟩ := by
        cases hc : run.connection with
        | mk resolved socket connected =>
          rw [hc, Bool.not_eq_false] at hresolved hsocket hconnected
          rw [show resolved = true from hresolved, show socket = true from hsocket,
            show connected = true from hconnected]
      exact absurd (h url ⟨hurl, hconnection⟩) hexits

/-- The run frees its context once too often. -/
def FreesTwice (run : Run) : Prop :=
  ∃ url, run.Dials url ∧ url.scheme = ascii "https" ∧
    CtxFreedTwice run.session run.headerOnly run.stray

/-- What a run that returns from its fetch function still holds. -/
def left (run : Run) (url : Url) (r : Resource) : ℕ :=
  if r = ctx ∨ r = ssl then
    if url.scheme = ascii "https" ∧ TlsLeft run.session run.headerOnly run.stray then
      if r = ctx ∧ Distrusts run.session then 1 else tlsHeld r
    else 0
  else lost run.url r

theorem not_exits_of_handshake (h : Handshake run.session run.stray) : run.exits url = false := by
  simp [exits, h.ctxNew, h.verifyPaths]

/-- What the fetch function makes of the session, all cases together. -/
theorem afterFetch_eq (hexits : run.exits url = false) (hr : r = ctx ∨ r = ssl) :
    run.afterFetch url r =
      if r = ctx ∧ url.scheme = ascii "https" ∧
          CtxFreedTwice run.session run.headerOnly run.stray then none
      else some (run.left url r) := by
  rw [afterFetch, left, if_pos hr]
  by_cases hscheme : url.scheme = ascii "https"
  · rw [if_pos hscheme]
    by_cases hhand : Handshake run.session run.stray
    · by_cases hout : NoOutput run.session run.headerOnly
      · have hkept : ¬ (r = ctx ∧ url.scheme = ascii "https" ∧
            CtxFreedTwice run.session run.headerOnly run.stray) := fun h => h.2.2.2.2 hout
        have hleft : url.scheme = ascii "https" ∧
            TlsLeft run.session run.headerOnly run.stray := ⟨hscheme, hhand, hout⟩
        rw [balance_fetchViaHttpsOps_noOutput hhand hout, if_neg hkept, if_pos hleft]
      · have hleft : ¬ (url.scheme = ascii "https" ∧
            TlsLeft run.session run.headerOnly run.stray) := fun h => hout h.2.2
        rw [balance_fetchViaHttpsOps_output hhand hout, if_neg hleft]
        refine if_congr ?_ rfl rfl
        exact and_congr_right fun _ => ⟨fun hd => ⟨hscheme, hhand, hd, hout⟩, fun h => h.2.2.1⟩
    · have hctx : run.session.ctxNew = true ∧ run.session.verifyPaths = true := by
        simpa [exits, hscheme] using hexits
      have hkept : ¬ (r = ctx ∧ url.scheme = ascii "https" ∧
          CtxFreedTwice run.session run.headerOnly run.stray) := fun h => hhand h.2.2.1
      have hleft : ¬ (url.scheme = ascii "https" ∧
          TlsLeft run.session run.headerOnly run.stray) := fun h => hhand h.2.1
      rw [balance_fetchViaHttpsOps_of_not hctx.1 hctx.2 hhand, if_neg hkept, if_neg hleft]
  · have hkept : ¬ (r = ctx ∧ url.scheme = ascii "https" ∧
        CtxFreedTwice run.session run.headerOnly run.stray) := fun h => hscheme h.2.1
    have hleft : ¬ (url.scheme = ascii "https" ∧
        TlsLeft run.session run.headerOnly run.stray) := fun h => hscheme h.1
    rw [if_neg hscheme, if_neg hkept, if_neg hleft]

/-- The run goes wrong only where the context is freed twice. -/
theorem balance_mainOps_eq_none_iff :
    (∃ r, balance r 0 run.mainOps = none) ↔ run.FreesTwice := by
  constructor
  · rintro ⟨r, hr⟩
    by_contra hnot
    refine balance_mainOps_of_not (fun url hdials => ?_) r hr
    by_contra hexits
    rw [Bool.not_eq_true] at hexits
    rw [balance_mainOps hdials.1 hdials.2 hexits] at hr
    split_ifs at hr with htls
    rw [afterFetch_eq hexits htls] at hr
    split_ifs at hr with htwice
    exact hnot ⟨url, hdials, htwice.2⟩
  · rintro ⟨url, hdials, hscheme, htwice⟩
    have hexits : run.exits url = false := not_exits_of_handshake htwice.1
    refine ⟨ctx, ?_⟩
    rw [balance_mainOps hdials.1 hdials.2 hexits, if_pos (Or.inl rfl),
      afterFetch_eq hexits (Or.inl rfl), if_pos ⟨rfl, hscheme, htwice⟩]

/-- A run releases something that it does not hold exactly when a server that it does not trust has
its response shown or stored, or gets no request: it is the TLS context. Every other run that
returns from its fetch function holds in the end the first copy of a named scheme, the TLS session
where `output.dat` could not be opened, and nothing else. -/
theorem resources_of_run (run : Run) :
    (Custody.run (fun _ => 0) run.mainOps = none ↔ run.FreesTwice) ∧
    ∀ url held, run.Dials url → run.exits url = false →
      Custody.run (fun _ => 0) run.mainOps = some held → ∀ r, held r = run.left url r := by
  constructor
  · rw [run_eq_none_iff]
    exact balance_mainOps_eq_none_iff
  · intro url held hdials hexits hrun r
    have hbalance := run_eq_some_iff.mp hrun r
    rw [balance_mainOps hdials.1 hdials.2 hexits] at hbalance
    split_ifs at hbalance with htls
    · rw [afterFetch_eq hexits htls] at hbalance
      split_ifs at hbalance
      exact (Option.some.inj hbalance).symm
    · rw [left, if_neg htls]
      exact (Option.some.inj hbalance).symm

end Run

/-- `https://localhost/x` with a certificate that is not trusted. -/
def untrustedRun : Run where
  url := ascii "https://localhost/x"
  connection := ⟨true, true, true⟩
  headerOnly := false
  session := ⟨true, true, 1, true, 18, 18, none, 55, true, [ascii "HTTP/1.1 200 OK\r\n\r\n"]⟩
  stray := 0
  send := 0
  fopen := true

/-- It goes on to store the response, and then frees the context twice. -/
theorem resources_of_run_untrusted : Custody.run (fun _ => 0) untrustedRun.mainOps = none := by
  refine (Run.resources_of_run untrustedRun).1.mpr ⟨⟨ascii "https", ascii "localhost", 443, ascii "x"⟩,
    ⟨by decide, rfl⟩, rfl, ⟨by decide, by decide, by decide, by decide⟩, by decide, by decide⟩

end NetTools.HTTPS
