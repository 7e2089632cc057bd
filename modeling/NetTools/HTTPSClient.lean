import NetTools.CText

/-! `https/client.c`: the request, the two fetch functions and the end of `main`. What
OpenSSL and the socket calls return are inputs of the model; a function that ends without
`return` gives whatever the register holds. -/
namespace NetTools.HTTPS

open CText

def bufferSize : ℕ := 1024

/-- `X509_V_OK`. -/
def x509Ok : Int := 0

/-- How a function ends; what a program does that frees something twice is `undefined`. -/
inductive Ending
  | returned (value : Int)
  | fellOff
  | exited (code : Int)
  | undefined
  deriving DecidableEq

/-- The value that the caller uses; `garbage` is what the return register holds. -/
def Ending.value (garbage : Int) : Ending → Int
  | returned value => value
  | fellOff | undefined => garbage
  | exited code => code

/-- What the calls of `add_missing_certificate` give for one certificate of the chain. -/
structure ChainCert where
  fopen : Bool
  loaded : Bool
  deriving DecidableEq

/-- What the TLS session gives. `verifyAgain` is the second `SSL_get_verify_result`,
`reads` are the results of `SSL_read` before it returns no data. -/
structure Session where
  ctxNew : Bool
  verifyPaths : Bool
  connect : Int
  peerCertificate : Bool
  verifyResult : Int
  verifyAgain : Int
  chain : Option (List ChainCert)
  write : Int
  fopen : Bool
  reads : List Bytes
  deriving DecidableEq

/-- What a fetch function leaves: the request bytes it handed to the connection, what it
printed and what it wrote to `output.dat`. -/
structure Fetch where
  request : Option Bytes
  printed : Bytes
  outputDat : Option Bytes
  ending : Ending
  deriving DecidableEq

/-- `snprintf(request, sizeof(request), ...)`. -/
def buildRequest (headerOnly : Bool) (path ip : Bytes) : Bytes :=
  (ascii (if headerOnly then "HEAD" else "GET") ++ ascii " /" ++ path ++ ascii " HTTP/1.1\r\nHost: " ++
    ip ++ ascii "\r\nConnection: close\r\n\r\n").take (bufferSize-1)

/-- The loop over one buffer with `-h`: the bytes from index `i` on, up to the end of the
header if it is found at an index above 3. -/
def printHeader (buffer : Bytes) (i : ℕ) : Bytes → Bytes × Bool
  | [] => ([], false)
  | b :: rest =>
    if i > 3 ∧ b = 10 ∧ buffer[i-1]? = some 13 ∧ buffer[i-2]? = some 10 ∧ buffer[i-3]? = some 13 then
      ([b], true)
    else
      let (printed, done) := printHeader buffer (i+1) rest
      (b :: printed, done)

/-- The loop over the reads with `-h`. -/
def printReads : List Bytes → Bytes
  | [] => []
  | buffer :: rest =>
    let (printed, done) := printHeader buffer 0 buffer
    if done then printed else printed ++ printReads rest

/-- The indices of the certificates that `add_missing_certificate` loads; the server's own
is skipped. -/
def addMissingCertificate : Option (List ChainCert) → List ℕ
  | none => []
  | some chain => (List.range chain.length).filter fun i =>
    1 ≤ i ∧ (chain[i]?).any fun cert => cert.fopen && cert.loaded

/-- How the function ends and the certificates it loaded; no `return` stands at its end. -/
def validateCertificate (ssl : Session) : Ending × List ℕ :=
  if ssl.peerCertificate = false then (.returned exitFailure, [])
  else if ssl.verifyResult ≠ x509Ok then
    let loaded := addMissingCertificate ssl.chain
    if ssl.verifyAgain ≠ x509Ok then (.returned exitFailure, loaded) else (.fellOff, loaded)
  else (.fellOff, [])

/-- Both verifications fail for a server that shows a certificate. -/
def Distrusts (ssl : Session) : Prop :=
  ssl.peerCertificate = true ∧ ssl.verifyResult ≠ x509Ok ∧ ssl.verifyAgain ≠ x509Ok

instance (ssl : Session) : Decidable (Distrusts ssl) := inferInstanceAs (Decidable (_ ∧ _))

/-- `SSL_free(ssl); SSL_CTX_free(ctx);` and then the `ending`. For a server that it distrusts,
`validate_certificate` has freed the context before. -/
def closeSession (ssl : Session) (ending : Ending) : Ending :=
  if Distrusts ssl then .undefined else ending

/-- From the opening of `output.dat` on, for either connection; `close` is the ending behind the
response. -/
def receiveResponse (headerOnly fopen : Bool) (reads : List Bytes) (request : Bytes)
    (close : Ending) : Fetch :=
  if headerOnly then ⟨some request, printReads reads, none, close⟩
  else if fopen = false then ⟨some request, [], none, .returned exitFailure⟩
  else ⟨some request, [], some reads.flatten, close⟩

/-- `garbage` is the value that the missing `return` of `validate_certificate` leaves. -/
def fetchViaHttps (ssl : Session) (request : Bytes) (headerOnly : Bool) (garbage : Int) : Fetch :=
  if ssl.ctxNew = false ∨ ssl.verifyPaths = false then ⟨none, [], none, .exited exitFailure⟩
  else if ssl.connect ≤ 0 then ⟨none, [], none, .returned exitFailure⟩
  else if (validateCertificate ssl).1.value garbage = -1 then
    ⟨none, [], none, closeSession ssl (.returned exitFailure)⟩
  else if ssl.write ≤ 0 then ⟨some request, [], none, closeSession ssl (.returned exitFailure)⟩
  else receiveResponse headerOnly ssl.fopen ssl.reads request (closeSession ssl .fellOff)

/-- `send` returns a negative number when it fails. -/
def fetchViaHttp (send : Int) (fopen : Bool) (reads : List Bytes) (request : Bytes)
    (headerOnly : Bool) : Fetch :=
  if send < 0 then ⟨some request, [], none, .returned exitFailure⟩
  else receiveResponse headerOnly fopen reads request .fellOff

/-- What `parse_url` stores. -/
structure Url where
  scheme : Bytes
  ip : Bytes
  port : Int
  path : Bytes
  deriving DecidableEq

/-- What the calls of `main` before the request give. -/
structure Connection where
  resolved : Bool
  socket : Bool
  connected : Bool
  deriving DecidableEq

/-- The exit status of `main`, given what `parse_url` makes of the URL and what the fetch
function does with the request; `none` where it is undefined. `garbage` is what a fetch function
without `return` leaves. -/
def main (url : Option Url) (conn : Connection) (headerOnly : Bool) (https http : Bytes → Fetch)
    (garbage : Int) : Option Int :=
  match url with
  | none => some exitFailure
  | some url =>
    if conn.resolved = false then some exitFailure
    else if conn.socket = false then some exitFailure
    else if conn.connected = false then some exitFailure
    else
      let request := buildRequest headerOnly url.path url.ip
      let fetched := if url.scheme = ascii "https" then https request else http request
      match fetched.ending with
      | .exited code => some code
      | .undefined => none
      | ending => some (if ending.value garbage = -1 then exitFailure else exitSuccess)

end NetTools.HTTPS
