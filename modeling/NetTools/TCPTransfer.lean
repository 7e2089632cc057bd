import NetTools.ChunkPlan
import NetTools.NetworkOrder

/-! The archived TCP file transfer: what its server makes of a connection, and what the threads of its
client get. The client asks for its segment with the two bytes of the literal `"1"`, of which the
server reads one. -/
namespace NetTools.TCP

open CText NetworkOrder
open Download (toInt toInt_natCast chunk_mul_le)

/-- The size of `buff` and of `chunk`. -/
def buffSize : ℕ := 2048

/-- The size of `filename` in the server. -/
def filenameSize : ℕ := 300

/-- The file that `fopen(filename, ...)` asks for. The name was received without a NUL byte behind
it, so that it goes on with what `stack`, the uninitialised array, held. `none` is a name that does
not end in the array. -/
def openedName (stack name : Bytes) : Option Bytes :=
  let filename := (name ++ stack.drop name.length).take filenameSize
  if (0 : Byte) ∈ filename then some (filename.takeWhile fun b => b ≠ 0) else none

/-- What becomes of a connection: the process exits because there is no such file, it writes past
`buff` or uses what it has not received, or it answers. -/
inductive Served
  | exited
  | undefined
  | answered (reply : Bytes)
  deriving DecidableEq

/-- What the `read` calls behind the answer to the name get; `none` for one that fails. -/
structure Reads where
  flag : Option Bytes
  offset : Option Bytes
  segmentSize : Option Bytes

/-- Each `read` gets all that it asks for. -/
def wholeReads (request : Bytes) : Reads :=
  ⟨some (request.take 1), some ((request.drop 1).take 4), some ((request.drop 5).take 4)⟩

/-- The four bytes of `response` after a `read` into it, which may get fewer. -/
def readInto (response data : Bytes) : Bytes := data ++ response.drop data.length

/-- One turn of the accept loop, with the bytes received for the name and what `response` holds; `0`
asks for the size of the file and `1` for a segment. -/
def serve (files : Bytes → Option Bytes) (stack response name : Bytes) (reads : Reads) : Served :=
  match openedName stack name with
  | none => .undefined
  | some filename =>
    match files filename with
    | none => .exited
    | some file =>
      match reads.flag with
      | none => .exited
      | some [] => .undefined
      | some (flag :: _) =>
        if flag = 49 then
          match reads.offset, reads.segmentSize with
          | some first, some second =>
            let offset := decode (readInto response first)
            let segmentSize := decode (readInto (readInto response first) second)
            let buff := (file.drop offset).take segmentSize
            if buff.length ≤ buffSize then .answered buff else .undefined
          | _, _ => .exited
        else if flag = 48 then .answered (encode 4 file.length)
        else .answered []

/-- `filesize = ntohl(response)`. -/
def fileSizeOf (reply : Bytes) : Int := toInt (decode reply)

structure Segment where
  start : Int
  size : Int
  deriving DecidableEq

/-- `segment_start` and `segment_size` of thread `i`. -/
def segment (filesize : Int) (num i : ℕ) : Segment where
  start := i*filesize.tdiv num
  size := if (i : Int) = num-1 then filesize-filesize.tdiv num*(num-1) else filesize.tdiv num

/-- `htonl` of an `int`. -/
def htonl (n : Int) : Bytes := encode 4 (n%2^32).toNat

/-- `write(sockfd, filename, sizeof(filename))`: the size of a pointer. Behind the name and its NUL
byte stands what follows it in memory. -/
def threadName (filename after : Bytes) : Bytes := (filename ++ 0 :: after).take 8

/-- `write(sockfd, "1", sizeof("1"))` and the two fields. -/
def segmentRequest (s : Segment) : Bytes := ascii "1" ++ [0] ++ htonl s.start ++ htonl s.size

/-- `filesize` of `main`, when the server and the client read whole messages. -/
def fetchSize (files : Bytes → Option Bytes) (stack response filename : Bytes) : Option Int :=
  match serve files stack response filename (wholeReads (ascii "0")) with
  | .answered reply => some (fileSizeOf reply)
  | _ => none

/-- What `fileTransfer` reads into `chunk`, when the server and the client read whole messages. -/
def fetch (files : Bytes → Option Bytes) (stack response filename after : Bytes) (s : Segment) :
    Option Bytes :=
  match serve files stack response (threadName filename after) (wholeReads (segmentRequest s)) with
  | .answered reply => some (reply.take s.size.toNat)
  | _ => none

/-- The bytes of the file that a segment is for. -/
def Segment.bytes (s : Segment) (file : Bytes) : Bytes :=
  (file.drop s.start.toNat).take s.size.toNat

section Names

variable {name stack : Bytes}

/-- The C string in an array is what stands in front of its first NUL byte. -/
theorem string_eq_iff {array : Bytes} (hname : (0 : Byte) ∉ name) :
    (if (0 : Byte) ∈ array then some (array.takeWhile fun b => b ≠ 0) else none) = some name ↔
      name ++ [0] <+: array := by
  have hall : ∀ b ∈ name, decide (b ≠ 0) = true := by
    intro b hb
    rw [decide_eq_true_eq]
    rintro rfl
    exact hname hb
  constructor
  · intro h
    simp only [Option.ite_none_right_eq_some, Option.some.injEq] at h
    obtain ⟨hzero, htake⟩ := h
    have hsplit := array.takeWhile_append_dropWhile (p := fun b => decide (b ≠ 0))
    rw [htake] at hsplit
    cases hrest : array.dropWhile (fun b => decide (b ≠ 0)) with
    | nil =>
      rw [hrest, List.append_nil] at hsplit
      exact absurd (hsplit ▸ hzero) hname
    | cons b rest =>
      have hne : array.dropWhile (fun b => decide (b ≠ 0)) ≠ [] := by
        rw [hrest]
        exact List.cons_ne_nil b rest
      have hb := List.head_dropWhile_not _ hne
      simp only [hrest, List.head_cons, decide_eq_false_iff_not, not_not] at hb
      subst hb
      rw [hrest] at hsplit
      exact ⟨rest, by rw [← hsplit]; simp⟩
  · rintro ⟨rest, rfl⟩
    have htake : (name ++ [0] ++ rest).takeWhile (fun b => decide (b ≠ 0)) = name := by
      rw [List.append_assoc, List.takeWhile_append_of_pos hall, List.singleton_append,
        List.takeWhile_cons_of_neg (by decide), List.append_nil]
    rw [if_pos (by simp), htake]

/-- With an array of its size, the name is followed by the rest of the array. -/
theorem openedName_eq {received : Bytes} (hlen : received.length ≤ filenameSize)
    (hstack : stack.length = filenameSize) (hname : (0 : Byte) ∉ name) :
    openedName stack received = some name ↔ name ++ [0] <+: received ++ stack.drop received.length := by
  have hfull : (received ++ stack.drop received.length).take filenameSize =
      received ++ stack.drop received.length := by
    rw [List.take_of_length_le]
    rw [List.length_append, List.length_drop]
    omega
  rw [openedName, hfull]
  exact string_eq_iff hname

/-- What the size request asks for: the name alone, without the byte behind it. -/
theorem openedName_check (hstack : stack.length = filenameSize) (hname : (0 : Byte) ∉ name) :
    openedName stack name = some name ↔ stack[name.length]? = some 0 := by
  rcases Nat.lt_or_ge filenameSize name.length with hlong | hlen
  · -- the beginning of the name fills the array, and no NUL is in it
    have hnul : (0 : Byte) ∉ name.take filenameSize := fun h => hname (List.mem_of_mem_take h)
    rw [openedName, List.take_append_of_le_length hlong.le, if_neg hnul,
      List.getElem?_eq_none (by omega)]
    simp
  · rw [openedName_eq hlen hstack hname, List.prefix_append_right_inj, ← List.head?_drop]
    cases stack.drop name.length with
    | nil => simp
    | cons b rest => simp [eq_comm]

/-- What a thread asks for: eight bytes. A name of seven bytes or fewer has its NUL byte among
them; of a longer one the rest must stand in the array already. -/
theorem openedName_thread (hstack : stack.length = filenameSize) (hname : (0 : Byte) ∉ name)
    (after : Bytes) :
    openedName stack (threadName name after) = some name ↔
      name.length < 8 ∨ 8 ≤ name.length ∧ name.drop 8 ++ [0] <+: stack.drop 8 := by
  have hlen : (threadName name after).length ≤ filenameSize := by
    rw [threadName, List.length_take]
    exact (Nat.min_le_left _ _).trans (by decide)
  rw [openedName_eq hlen hstack hname]
  by_cases hshort : name.length < 8
  · have htext : threadName name after = name ++ [0] ++ after.take (7-name.length) := by
      have hcons : name ++ 0 :: after = name ++ [0] ++ after := by simp
      rw [threadName, hcons, List.take_append, List.take_of_length_le (by simp; omega)]
      congr 2
      simp
    rw [htext, List.append_assoc (name ++ [0])]
    exact iff_of_true (List.prefix_append _ _) (Or.inl hshort)
  · have htext : threadName name after = name.take 8 := by
      rw [threadName, List.take_append_of_le_length (by omega)]
    have hsplit : name ++ [0] = name.take 8 ++ (name.drop 8 ++ [0]) := by
      rw [← List.append_assoc, List.take_append_drop]
    have height : (name.take 8).length = 8 := by
      rw [List.length_take]
      omega
    rw [htext, height, hsplit, List.prefix_append_right_inj]
    exact ⟨fun h => Or.inr ⟨by omega, h⟩, fun h => (h.resolve_left hshort).2⟩

/-- Which file is opened. The size request gets the file of its name exactly when the array happens
to have a NUL byte behind it; a thread, whose request has eight bytes, gets it when the name has
fewer, and otherwise exactly when the array holds the rest of the name. An array that is as the
size request left it does that. -/
theorem opened_by_name (hstack : stack.length = filenameSize) (hname : (0 : Byte) ∉ name)
    (after : Bytes) :
    (openedName stack name = some name ↔ stack[name.length]? = some 0) ∧
    (openedName stack (threadName name after) = some name ↔
      name.length < 8 ∨ 8 ≤ name.length ∧ name.drop 8 ++ [0] <+: stack.drop 8) ∧
    (openedName stack name = some name →
      openedName (name ++ stack.drop name.length) (threadName name after) = some name) := by
  refine ⟨openedName_check hstack hname, openedName_thread hstack hname after, ?_⟩
  intro hcheck
  have hlen : name.length ≤ filenameSize := by
    have hnul := (openedName_check hstack hname).mp hcheck
    have hlt := (List.getElem?_eq_some_iff.mp hnul).1
    omega
  have hkept : (name ++ stack.drop name.length).length = filenameSize := by
    rw [List.length_append, List.length_drop]
    omega
  rw [openedName_thread hkept hname after]
  by_cases hshort : name.length < 8
  · exact Or.inl hshort
  · have hlong : 8 ≤ name.length := by omega
    refine Or.inr ⟨hlong, ?_⟩
    rw [openedName_eq hlen hstack hname, List.prefix_append_right_inj] at hcheck
    rw [List.drop_append_of_le_length hlong, List.prefix_append_right_inj]
    exact hcheck

theorem opened_by_name_zeros :
    openedName (List.replicate 300 0) (ascii "lecture.txt") = some (ascii "lecture.txt") ∧
      openedName (ascii "lecture.txt" ++ List.replicate 289 0) (threadName (ascii "lecture.txt") []) =
        some (ascii "lecture.txt") ∧
      openedName (List.replicate 300 0) (threadName (ascii "lecture.txt") []) ≠
        some (ascii "lecture.txt") := by
  have h := @opened_by_name (ascii "lecture.txt") (List.replicate 300 0) List.length_replicate
    (by decide) []
  have hbehind : (List.replicate 300 (0 : Byte))[(ascii "lecture.txt").length]? = some 0 := by
    rw [List.getElem?_replicate, if_pos (by decide)]
  have hcheck := h.1.mpr hbehind
  refine ⟨hcheck, ?_, ?_⟩
  · have hdrop : (List.replicate 300 (0 : Byte)).drop (ascii "lecture.txt").length =
        List.replicate 289 0 := List.drop_replicate
    exact hdrop ▸ h.2.2 hcheck
  · -- the array has no `t` for the name to go on with
    intro hthread
    have hrest := (h.2.1.mp hthread).resolve_left (by decide)
    have ht := hrest.2.subset (by decide : (116 : Byte) ∈ (ascii "lecture.txt").drop 8 ++ [0])
    rw [List.drop_replicate, List.mem_replicate] at ht
    exact absurd ht.2 (by decide)

end Names

section Fields

variable {file : Bytes} {a b : ℕ}

/-- Four bytes read one byte too early, and the next four. -/
theorem fields_shifted (ha : a < 2^32) (hb : b < 2^32) :
    decode ((0 :: (encode 4 a ++ encode 4 b)).take 4) = a/256 ∧
      decode (((0 :: (encode 4 a ++ encode 4 b)).drop 4).take 4) = a%256*2^24+b/256 := by
  have hlen : (0 :: (encode 4 a ++ encode 4 b)).length = 9 := by simp
  have hpow : 256^4 = 2^32 := by decide
  have hvalue : decode (0 :: (encode 4 a ++ encode 4 b)) = a*2^32+b := by
    rw [decode_cons, decode_append, length_encode, decode_encode_of_lt (by omega),
      decode_encode_of_lt (by omega), hpow, UInt8.toNat_zero]
    omega
  generalize (0 :: (encode 4 a ++ encode 4 b) : Bytes) = s at hlen hvalue ⊢
  constructor
  · rw [decode_take, List.length_drop, hlen, hvalue]
    omega
  · have hfive : (s.drop 4).length = 5 := by rw [List.length_drop, hlen]
    have hone : ((s.drop 4).drop 4).length = 1 := by rw [List.length_drop, hfive]
    rw [decode_take, hone, decode_drop, hfive, hvalue]
    omega

/-- A `read` of four bytes leaves nothing of what was there. -/
theorem readInto_whole {response data : Bytes} (hresponse : response.length = 4)
    (hdata : data.length = 4) : readInto response data = data := by
  rw [readInto, List.drop_of_length_le (by omega), List.append_nil]

/-- What the server makes of a thread's request. -/
theorem serve_segmentRequest {files : Bytes → Option Bytes} {stack response name filename : Bytes}
    (hopen : openedName stack name = some filename) (hfile : files filename = some file)
    (hresponse : response.length = 4) (ha : a < 2^32) (hb : b < 2^32) :
    serve files stack response name (wholeReads (segmentRequest ⟨a, b⟩)) =
      if ((file.drop (a/256)).take (a%256*2^24+b/256)).length ≤ buffSize then
        .answered ((file.drop (a/256)).take (a%256*2^24+b/256))
      else .undefined := by
  have hrequest : segmentRequest ⟨a, b⟩ = 49 :: 0 :: (encode 4 a ++ encode 4 b) := by
    have ha' : ((a : Int)%2^32).toNat = a := by omega
    have hb' : ((b : Int)%2^32).toNat = b := by omega
    simp only [segmentRequest, htonl, ha', hb', List.append_assoc]
    rfl
  have hreads : wholeReads (segmentRequest ⟨a, b⟩) =
      ⟨some [49], some ((0 :: (encode 4 a ++ encode 4 b)).take 4),
        some (((0 :: (encode 4 a ++ encode 4 b)).drop 4).take 4)⟩ := by
    rw [hrequest]
    rfl
  obtain ⟨hoffset, hsize⟩ := fields_shifted ha hb
  have hlen : (0 :: (encode 4 a ++ encode 4 b)).length = 9 := by simp
  generalize (0 :: (encode 4 a ++ encode 4 b) : Bytes) = fields at hreads hoffset hsize hlen
  have hfirst : (fields.take 4).length = 4 := by
    rw [List.length_take]
    omega
  have hsecond : ((fields.drop 4).take 4).length = 4 := by
    rw [List.length_take, List.length_drop]
    omega
  simp only [serve, hopen, hfile, hreads, ↓reduceIte, readInto_whole hresponse hfirst,
    readInto_whole hfirst hsecond, hoffset, hsize]

end Fields

section Download

variable {file : Bytes} {files : Bytes → Option Bytes}
  {stack response filename after opened : Bytes}

/-- A thread gets its segment when the server takes it for one that begins at `start/256` and is
long enough to go to the end of the file, this rest of the file fits `buff`, and it happens to
begin with the same bytes. A start that is a multiple of 256 makes the segment too short. -/
def Arrives (file : Bytes) (s : Segment) : Prop :=
  s.start.toNat%256 ≠ 0 ∧ file.length ≤ s.start.toNat/256+buffSize ∧
    (file.drop (s.start.toNat/256)).take s.size.toNat = s.bytes file

instance (file : Bytes) (s : Segment) : Decidable (Arrives file s) :=
  inferInstanceAs (Decidable (s.start.toNat%256 ≠ 0 ∧ file.length ≤ s.start.toNat/256+buffSize ∧
    (file.drop (s.start.toNat/256)).take s.size.toNat = s.bytes file))

theorem fetch_iff {a b : ℕ} (hopen : openedName stack (threadName filename after) = some opened)
    (hfile : files opened = some file) (hresponse : response.length = 4) (hb : 0 < b)
    (hin : a+b ≤ file.length) (hint : file.length < 2^31) :
    fetch files stack response filename after ⟨a, b⟩ = some ((⟨a, b⟩ : Segment).bytes file) ↔
      Arrives file ⟨a, b⟩ := by
  have hserve := serve_segmentRequest hopen hfile hresponse (by omega : a < 2^32)
    (by omega : b < 2^32)
  have hlen : ((⟨a, b⟩ : Segment).bytes file).length = b := by
    rw [Segment.bytes, List.length_take, List.length_drop]
    simp only [Int.toNat_natCast]
    omega
  simp only [fetch, hserve, Arrives, Int.toNat_natCast]
  by_cases hmod : a%256 = 0
  · -- the server sends `b/256` bytes, which is fewer than asked for
    apply iff_of_false
    · have hshort : ((file.drop (a/256)).take (a%256*2^24+b/256)).length < b := by
        rw [List.length_take]
        omega
      split_ifs
      · intro heq
        have hsame := congrArg List.length (Option.some.inj heq)
        rw [hlen, List.length_take] at hsame
        omega
      · exact nofun
    · exact fun h => h.1 hmod
  · by_cases hfits : file.length ≤ a/256+buffSize
    · have hsize : buffSize = 2048 := rfl
      have hall : (file.drop (a/256)).take (a%256*2^24+b/256) = file.drop (a/256) := by
        apply List.take_of_length_le
        rw [List.length_drop]
        omega
      have hroom : (file.drop (a/256)).length ≤ buffSize := by
        rw [List.length_drop]
        omega
      rw [hall, if_pos hroom]
      simp [hmod, hfits]
    · -- the rest of the file is longer than `buff`
      have hsize : buffSize = 2048 := rfl
      have hover : ¬ ((file.drop (a/256)).take (a%256*2^24+b/256)).length ≤ buffSize := by
        rw [List.length_take, List.length_drop]
        omega
      rw [if_neg hover]
      exact iff_of_false nofun fun h => hfits h.2.1

/-- The size that the client works with. -/
theorem fetchSize_eq (hopen : openedName stack filename = some opened)
    (hfile : files opened = some file) (hint : file.length < 2^31) :
    fetchSize files stack response filename = some (file.length : Int) := by
  have hreads : wholeReads (ascii "0") = ⟨some [48], some [], some []⟩ := rfl
  have hserve : serve files stack response filename (wholeReads (ascii "0")) =
      .answered (encode 4 file.length) := by
    simp only [serve, hopen, hfile, hreads]
    rfl
  simp only [fetchSize, hserve]
  rw [fileSizeOf, decode_encode_of_lt (by omega), toInt_natCast hint]

/-- The segments of the threads without their machine arithmetic. -/
theorem segment_eq (n : ℕ) {num i : ℕ} (hi : i < num) :
    segment n num i = ⟨(i*(n/num) : ℕ), (if i+1 = num then n-n/num*(num-1) else n/num : ℕ)⟩ := by
  have hdiv : (n : Int).tdiv num = (n/num : ℕ) := by simp [Int.tdiv]
  have hmul : n/num*(num-1) ≤ n := by
    calc n/num*(num-1) ≤ n/num*num := Nat.mul_le_mul_left _ (by omega)
      _ ≤ n := Nat.div_mul_le_self n num
  rw [segment, hdiv]
  by_cases hlast : i+1 = num
  · have hcast : ((num : Int)-1) = ((num-1 : ℕ) : Int) := by omega
    rw [if_pos (by omega), if_pos hlast, hcast, ← Int.natCast_mul, ← Int.natCast_mul,
      Int.natCast_sub hmul]
  · rw [if_neg (by omega), if_neg hlast, ← Int.natCast_mul]

/-- Some segment with bytes in it begins at the first byte of the file. -/
theorem exists_segment_at_zero {n num : ℕ} (hn : 1 ≤ n) (hnum : 1 ≤ num) :
    ∃ i < num, (segment n num i).start = 0 ∧ 0 < (segment n num i).size := by
  by_cases hq : n/num = 0
  · -- every segment but the last is empty
    refine ⟨num-1, by omega, ?_⟩
    rw [segment_eq n (by omega : num-1 < num), if_pos (by omega), hq, Nat.mul_zero, Nat.zero_mul]
    exact ⟨rfl, by simp only; omega⟩
  · refine ⟨0, by omega, ?_⟩
    have hpos : 0 < n/num := Nat.pos_of_ne_zero hq
    rw [segment_eq n (by omega : 0 < num), Nat.zero_mul]
    refine ⟨rfl, ?_⟩
    split_ifs with hone
    · obtain rfl : num = 1 := by omega
      simp only [Nat.sub_self, Nat.mul_zero, Nat.sub_zero]
      exact Int.natCast_pos.mpr hn
    · exact Int.natCast_pos.mpr hpos

theorem segment_inside (n : ℕ) {num i : ℕ} (hi : i < num) :
    ∃ a b : ℕ, segment n num i = ⟨a, b⟩ ∧ a+b ≤ n := by
  have hle := chunk_mul_le n hi
  refine ⟨_, _, segment_eq n hi, ?_⟩
  by_cases hlast : i+1 = num
  · have hi' : num-1 = i := by omega
    have hbefore : i*(n/num) ≤ n := (Nat.le_add_right _ _).trans hle
    rw [if_pos hlast, hi', Nat.mul_comm (n/num) i, Nat.add_sub_cancel' hbefore]
  · rw [if_neg hlast]
    exact hle

/-- The client is told the right size of a file whose size an `int` holds, when the server opens
it. But then, however many threads there are and whatever the servers have in their variables, a
thread whose server opens the file gets its segment exactly when it `Arrives`, and for some thread
it does not: no download of a file with a byte in it is right. -/
theorem download_never_right (files : Bytes → Option Bytes) (filename opened file : Bytes)
    (hfile : files opened = some file) (hpos : 1 ≤ file.length) (hint : file.length < 2^31) (num : ℕ)
    (hnum : 1 ≤ num) :
    (∀ stack response, openedName stack filename = some opened →
      fetchSize files stack response filename = some (file.length : Int)) ∧
    (∀ i < num, 0 < (segment file.length num i).size → ∀ stack response after,
      response.length = 4 → openedName stack (threadName filename after) = some opened →
        (fetch files stack response filename after (segment file.length num i) =
            some ((segment file.length num i).bytes file) ↔
          Arrives file (segment file.length num i))) ∧
    ∃ i < num, 0 < (segment file.length num i).size ∧ ¬ Arrives file (segment file.length num i) := by
  refine ⟨fun stack response hopen => fetchSize_eq hopen hfile hint, ?_, ?_⟩
  · intro i hi hsize stack response after hresponse hopen
    obtain ⟨a, b, hseg, hin⟩ := segment_inside file.length hi
    rw [hseg] at hsize ⊢
    exact fetch_iff hopen hfile hresponse (Int.natCast_pos.mp hsize) hin hint
  · obtain ⟨i, hi, hstart, hsize⟩ := exists_segment_at_zero hpos hnum
    refine ⟨i, hi, hsize, ?_⟩
    intro harrives
    apply harrives.1
    rw [hstart]
    rfl

theorem download_never_right_two :
    fetchSize (fun _ => some (ascii "ab")) (List.replicate 300 0) [0, 0, 0, 0] (ascii "f") = some 2 ∧
      ∃ i < 2, 0 < (segment 2 2 i).size ∧ ¬ Arrives (ascii "ab") (segment 2 2 i) := by
  have h := download_never_right (fun _ => some (ascii "ab")) (ascii "f") (ascii "f") (ascii "ab") rfl
    (by decide) (by decide) 2 (by decide)
  have hopen : openedName (List.replicate 300 0) (ascii "f") = some (ascii "f") := by
    refine (openedName_check List.length_replicate (by decide)).mpr ?_
    rw [List.getElem?_replicate, if_pos (by decide)]
  exact ⟨h.1 _ _ hopen, h.2.2⟩

end Download

end NetTools.TCP
