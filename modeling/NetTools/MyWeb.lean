import NetTools.CText
import NetTools.TextSearch

/-! The archived web downloader `myweb`, from the answer to its GET request on. The header is read
byte by byte up to a blank line, "Content-Length: " is looked for in it, and the bytes behind it
are printed into `output.dat`. The loops are the same with and without SSL. -/
namespace NetTools.MyWeb

open CText TextSearch

/-- The size of `temp`. -/
def tempSize : ℕ := 2048

def blankLine : Bytes := [13, 10, 13, 10]

def lengthKey : Bytes := ascii "Content-Length: "

/-- The text at the pointer that `strstr(s, word)` returns. -/
def strstr (s word : Bytes) : Option Bytes := search word s

/-- The C string in `response` when one byte was read into it. -/
def response (b : Byte) : Bytes := if b = 0 then [] else [b]

/-- The string in `temp` when the loop over the header ends, and the bytes that are still to be
read. It is `none` when `strcat` writes behind `temp`. -/
def readHeader (temp : Bytes) : Bytes → Option (Bytes × Bytes)
  | [] => some (temp, [])
  | b :: stream =>
    let temp := temp ++ response b
    -- the NUL byte behind the string needs a place as well
    if tempSize ≤ temp.length then none
    else if (strstr temp blankLine).isSome then some (temp, stream)
    else readHeader temp stream

/-- Whether `%d` finds a number at the beginning of a text. -/
def beginsNumber (s : Bytes) : Bool :=
  let r := s.dropWhile isSpace
  let digits := if r.head? = some 45 ∨ r.head? = some 43 then r.tail else r
  digits.head?.any isDigit

/-- `length` after `sscanf(s, "Content-Length: %d", &length)`, for a text that begins with
"Content-Length: ". It is `none` when `EOF` is returned, and `length` keeps its value when there
is no number. -/
def scanLength (length : Int) (s : Bytes) : Option Int :=
  let value := s.drop lengthKey.length
  if value.all isSpace then none
  else if beginsNumber value then some (longToInt (leadingNumber value))
  else some length

/-- `length` behind the search for it in `temp`, or the text that `perror` prints. -/
def contentLength (length : Int) (temp : Bytes) : Except String Int :=
  match strstr temp lengthKey with
  | none => .error "ERROR: response does not have Content-Length\n"
  | some remainder =>
    match scanLength length (remainder.takeWhile fun b => b != 13) with
    | none => .error "ERROR: unable to scan Content-Length\n"
    | some length => .ok length

/-- What the loop over the body prints from the time on when `n` bytes were printed. -/
def writeBody (length : Int) (n : ℕ) : Bytes → Bytes
  | [] => []
  | b :: stream =>
    if n < length then response b ++ writeBody length (n+1) stream else []

/-- How the program ends: its status, what it gave to `perror` and what it wrote to
`output.dat`. -/
structure Ended where
  status : ProcessStatus
  failure : Option String
  output : Option Bytes
  deriving DecidableEq

/-- The GET request, with the bytes that the server sends until it closes the connection. `temp`
and `length` are what stands in the variables before they have a value, and `output.dat` can be
opened. -/
def getFrom (temp : Bytes) (length : Int) (stream : Bytes) : Ended :=
  match readHeader temp stream with
  | none => ⟨.undefined, none, none⟩
  | some (temp, rest) =>
    match contentLength length temp with
    | .error message => ⟨.exited 1, some message, none⟩
    | .ok length => ⟨.exited 0, none, some (writeBody length 0 rest)⟩

/-- The GET request when `temp` starts empty. -/
def get (length : Int) (stream : Bytes) : Ended := getFrom [] length stream

/-- The header is read whole when it fits into `temp`, and overflows it otherwise. -/
theorem readHeader_eq {head : Bytes} (hfirst : FirstAt blankLine head (head ++ blankLine))
    (hplain : (0 : Byte) ∉ head) (body : Bytes) {temp part : Bytes}
    (hpart : temp ++ part = head ++ blankLine) (hne : part ≠ []) :
    readHeader temp (part ++ body) =
      if (head ++ blankLine).length < tempSize then some (head ++ blankLine, body) else none := by
  induction part generalizing temp with
  | nil => exact absurd rfl hne
  | cons b part ih =>
    have hbyte : b ≠ 0 := by
      rintro rfl
      have hmem : 0 ∈ head ++ blankLine := hpart ▸ List.mem_append_right temp List.mem_cons_self
      rcases List.mem_append.mp hmem with h | h
      · exact hplain h
      · exact absurd h (by decide)
    have hnext : temp ++ [b] ++ part = head ++ blankLine := by
      rw [List.append_assoc]
      exact hpart
    have hlen := congrArg List.length hnext
    rw [List.length_append] at hlen
    simp only [List.cons_append, readHeader, response, if_neg hbyte]
    by_cases hfit : tempSize ≤ (temp ++ [b]).length
    · rw [if_pos hfit, if_neg (by omega)]
    · rw [if_neg hfit]
      cases part with
      | nil =>
        rw [List.append_nil] at hnext
        have hfound : strstr (head ++ blankLine) blankLine = some blankLine :=
          search_append_eq_some_iff.mpr hfirst
        rw [hnext, hfound, Option.isSome_some, if_pos rfl, ← hnext, if_pos (by omega)]
        rfl
      | cons c part =>
        -- the blank line is not complete yet
        have hnone : strstr (temp ++ [b]) blankLine = none := by
          apply search_eq_none_iff.mpr
          intro a
          apply hfirst.not_prefix (hnext ▸ List.prefix_append _ _)
          rw [List.length_cons] at hlen
          omega
        rw [hnone, Option.isSome_none, if_neg Bool.false_ne_true]
        exact ih hnext (List.cons_ne_nil c part)

theorem writeBody_eq (length : Int) (n : ℕ) (stream : Bytes) :
    writeBody length n stream =
      (stream.take (length-n).toNat).filter fun b => b != 0 := by
  induction stream generalizing n with
  | nil =>
    rw [writeBody, List.take_nil]
    rfl
  | cons b stream ih =>
    rw [writeBody]
    by_cases hn : n < length
    · have hcount : (length-n).toNat = (length-(n+1 : ℕ)).toNat+1 := by omega
      rw [if_pos hn, ih, hcount, List.take_succ_cons, List.filter_cons, response]
      by_cases hb : b = 0
      · simp [hb]
      · simp [hb]
    · have hcount : (length-n).toNat = 0 := by omega
      rw [if_neg hn, hcount]
      rfl

theorem take_eq_append (body : Bytes) {n m : ℕ} (h : n ≤ m) :
    body.take m = body.take n ++ (body.take m).drop n := by
  calc body.take m = (body.take m).take n ++ (body.take m).drop n :=
        (List.take_append_drop n _).symm
    _ = body.take n ++ (body.take m).drop n := by rw [List.take_take, min_eq_left h]

/-- Without their NUL bytes the first `m` bytes are the first `n`. -/
theorem filter_take_eq_take_iff {body : Bytes} {n m : ℕ} (hn : n ≤ body.length) :
    (body.take m).filter (fun b => b != 0) = body.take n ↔
      n ≤ m ∧ (0 : Byte) ∉ body.take n ∧ ∀ b ∈ (body.take m).drop n, b = 0 := by
  have hkeep (hplain : (0 : Byte) ∉ body.take n) :
      (body.take n).filter (fun b => b != 0) = body.take n := by
    apply List.filter_eq_self.mpr
    intro b hb
    rw [bne_iff_ne]
    rintro rfl
    exact hplain hb
  have hnone (behind : Bytes) : behind.filter (fun b => b != 0) = [] ↔ ∀ b ∈ behind, b = 0 := by
    simp only [List.filter_eq_nil_iff, bne_iff_ne, ne_eq, not_not]
  constructor
  · intro h
    have hplain : (0 : Byte) ∉ body.take n := by
      intro hmem
      rw [← h] at hmem
      exact absurd (List.of_mem_filter hmem) (by decide)
    have hle : n ≤ m := by
      have hlen := (body.take m).length_filter_le fun b => b != 0
      rw [h, List.length_take, List.length_take] at hlen
      omega
    rw [take_eq_append body hle, List.filter_append, hkeep hplain] at h
    exact ⟨hle, hplain, (hnone _).mp (List.append_right_eq_self.mp h)⟩
  · rintro ⟨hle, hplain, hzero⟩
    rw [take_eq_append body hle, List.filter_append, hkeep hplain, (hnone _).mpr hzero,
      List.append_nil]

end NetTools.MyWeb
