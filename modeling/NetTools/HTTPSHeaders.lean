import NetTools.HTTPSClient

namespace NetTools.HTTPS

open CText

/-- The blank line behind the header, with the end of the line in front of it. -/
def terminator : Bytes := [13, 10, 13, 10]

/-- A stream up to its first terminator, or all of it without one. -/
def header : Bytes → Bytes
  | [] => []
  | b :: rest => if startsWith (b :: rest) terminator then terminator else b :: header rest

theorem header_isPrefix (s : Bytes) : header s <+: s := by
  induction s with
  | nil => exact List.prefix_rfl
  | cons b rest ih =>
    rw [header]
    split_ifs with h
    · exact List.isPrefixOf_iff_prefix.mp h
    · exact (List.prefix_cons_inj b).mpr ih

/-- The header ends no later than any terminator of the stream. -/
theorem header_isPrefix_of_terminator {a s : Bytes} (h : a ++ terminator <+: s) :
    header s <+: a ++ terminator := by
  induction s generalizing a with
  | nil => exact List.nil_prefix
  | cons b rest ih =>
    rw [header]
    split_ifs with hb
    · have hpre := List.isPrefixOf_iff_prefix.mp hb
      exact List.prefix_of_prefix_length_le hpre h (by rw [List.length_append]; omega)
    · cases a with
      | nil => exact absurd (List.isPrefixOf_iff_prefix.mpr h) hb
      | cons c a =>
        obtain ⟨rfl, htail⟩ := List.cons_prefix_cons.mp h
        exact (List.prefix_cons_inj c).mpr (ih htail)

theorem exists_last_three {s : Bytes} (h : s.length > 3) :
    ∃ a x y z, a ≠ [] ∧ s = a ++ [x, y, z] := by
  have hthree : (s.drop (s.length-3)).length = 3 := by
    rw [List.length_drop]
    omega
  obtain ⟨x, y, z, hxyz⟩ := List.length_eq_three.mp hthree
  refine ⟨s.take (s.length-3), x, y, z, ?_, by rw [← hxyz, List.take_append_drop]⟩
  rw [← List.length_pos_iff, List.length_take]
  omega

/-- The bytes in front of index `i` of the buffer, seen from there. -/
theorem getElem?_last_three (a : Bytes) (x y z : Byte) (rest : Bytes) :
    (a ++ [x, y, z] ++ rest)[(a ++ [x, y, z]).length-1]? = some z ∧
      (a ++ [x, y, z] ++ rest)[(a ++ [x, y, z]).length-2]? = some y ∧
        (a ++ [x, y, z] ++ rest)[(a ++ [x, y, z]).length-3]? = some x := by
  have hlen : (a ++ [x, y, z]).length = a.length+3 := List.length_append
  have hat (k : ℕ) (hk : k < 3) : (a ++ [x, y, z] ++ rest)[a.length+k]? = [x, y, z][k]? := by
    rw [List.append_assoc, List.getElem?_append_right (Nat.le_add_right _ _), Nat.add_sub_cancel_left,
      List.getElem?_append_left hk]
  rw [hlen]
  exact ⟨hat 2 (by decide), hat 1 (by decide), hat 0 (by decide)⟩

/-- The test of the loop at index `i`: a terminator ends here that does not begin with the
buffer. -/
theorem found_iff (before : Bytes) (b : Byte) (rest : Bytes) :
    (before.length > 3 ∧ b = 10 ∧ (before ++ b :: rest)[before.length-1]? = some 13 ∧
      (before ++ b :: rest)[before.length-2]? = some 10 ∧
        (before ++ b :: rest)[before.length-3]? = some 13) ↔
      ∃ a, a ≠ [] ∧ before ++ [b] = a ++ terminator := by
  constructor
  · rintro ⟨hlen, rfl, h1, h2, h3⟩
    obtain ⟨a, x, y, z, hne, rfl⟩ := exists_last_three hlen
    obtain ⟨hz, hy, hx⟩ := getElem?_last_three a x y z (10 :: rest)
    obtain rfl := Option.some.inj (hz.symm.trans h1)
    obtain rfl := Option.some.inj (hy.symm.trans h2)
    obtain rfl := Option.some.inj (hx.symm.trans h3)
    exact ⟨a, hne, by simp [terminator]⟩
  · rintro ⟨a, hne, h⟩
    have hpos := List.length_pos_iff.mpr hne
    have hsplit : before ++ [b] = (a ++ [13, 10, 13]) ++ [10] := by rw [h]; simp [terminator]
    obtain ⟨rfl, hb⟩ := List.append_inj' hsplit rfl
    obtain rfl := List.singleton_inj.mp hb
    have hlen : (a ++ [13, 10, 13]).length = a.length+3 := List.length_append
    exact ⟨by omega, rfl, getElem?_last_three a 13 10 13 (10 :: rest)⟩

/-- The loop stops where it finds a terminator. -/
theorem printHeader_cons_of_found {before rest : Bytes} {b : Byte}
    (h : ∃ a, a ≠ [] ∧ before ++ [b] = a ++ terminator) :
    printHeader (before ++ b :: rest) before.length (b :: rest) = ([b], true) :=
  if_pos ((found_iff before b rest).mpr h)

theorem printHeader_cons_of_not_found {before rest : Bytes} {b : Byte}
    (h : ¬ ∃ a, a ≠ [] ∧ before ++ [b] = a ++ terminator) :
    printHeader (before ++ b :: rest) before.length (b :: rest) =
      (b :: (printHeader (before ++ [b] ++ rest) (before ++ [b]).length rest).1,
        (printHeader (before ++ [b] ++ rest) (before ++ [b]).length rest).2) := by
  rw [← List.append_cons, List.length_append, List.length_singleton]
  exact if_neg ((found_iff before b rest).not.mpr h)

/-- What is printed of a buffer, from the byte behind `before` on: all of it, or up to the end of a
terminator that does not begin with the buffer. -/
theorem printHeader_spec (before rest : Bytes) :
    (printHeader (before ++ rest) before.length rest).1 <+: rest ∧
      ((printHeader (before ++ rest) before.length rest).2 = false →
        (printHeader (before ++ rest) before.length rest).1 = rest) ∧
      ((printHeader (before ++ rest) before.length rest).2 = true →
        ∃ a, a ≠ [] ∧ before ++ (printHeader (before ++ rest) before.length rest).1 =
          a ++ terminator) := by
  -- the bytes behind `before` are left; the test looks back into `before`
  induction rest generalizing before with
  | nil => exact ⟨List.prefix_rfl, fun _ => rfl, by simp [printHeader]⟩
  | cons b rest ih =>
    by_cases hfound : ∃ a, a ≠ [] ∧ before ++ [b] = a ++ terminator
    · rw [printHeader_cons_of_found hfound]
      exact ⟨⟨rest, rfl⟩, by simp, fun _ => hfound⟩
    · obtain ⟨hpre, hall, hend⟩ := ih (before ++ [b])
      rw [printHeader_cons_of_not_found hfound]
      refine ⟨(List.prefix_cons_inj b).mpr hpre, fun h => ?_, fun h => ?_⟩
      · exact congrArg (b :: ·) (hall h)
      · obtain ⟨a, hne, ha⟩ := hend h
        exact ⟨a, hne, (List.append_cons before b _).trans ha⟩

/-- A terminator that ends behind `before` and does not begin with the buffer stops the loop, there
or earlier. -/
theorem printHeader_stops {a before rest : Bytes} (hne : a ≠ [])
    (hpre : a ++ terminator <+: before ++ rest) (hlen : before.length < (a ++ terminator).length) :
    (printHeader (before ++ rest) before.length rest).2 = true ∧
      before ++ (printHeader (before ++ rest) before.length rest).1 <+: a ++ terminator := by
  induction rest generalizing before with
  | nil =>
    have hle := hpre.length_le
    rw [List.append_nil] at hle
    omega
  | cons b rest ih =>
    have hstep : before ++ [b] <+: a ++ terminator := by
      apply List.prefix_of_prefix_length_le _ hpre
      · rw [List.length_append]
        exact hlen
      · exact ⟨rest, List.append_cons .. |>.symm⟩
    by_cases hfound : ∃ a, a ≠ [] ∧ before ++ [b] = a ++ terminator
    · rw [printHeader_cons_of_found hfound]
      exact ⟨rfl, hstep⟩
    -- not found here, so that the terminator does not end here
    · have hmore : (before ++ [b]).length < (a ++ terminator).length := by
        apply lt_of_le_of_ne hstep.length_le
        intro heq
        exact hfound ⟨a, hne, hstep.eq_of_length heq⟩
      rw [List.append_cons] at hpre
      obtain ⟨hdone, hprinted⟩ := ih hpre hmore
      rw [printHeader_cons_of_not_found hfound]
      refine ⟨hdone, ?_⟩
      rw [List.append_cons]
      exact hprinted

/-- A terminator inside one of the reads, not at its beginning, in the stream of all reads:
`shown` is the stream up to its end. -/
def FoundAt (reads : List Bytes) (shown : Bytes) : Prop :=
  ∃ earlier a rest later, reads = earlier ++ (a ++ terminator ++ rest) :: later ∧ a ≠ [] ∧
    shown = earlier.flatten ++ a ++ terminator

theorem FoundAt.isPrefix {reads : List Bytes} {shown : Bytes} (h : FoundAt reads shown) :
    shown <+: reads.flatten := by
  obtain ⟨earlier, a, rest, later, rfl, -, rfl⟩ := h
  exact ⟨rest ++ later.flatten, by simp⟩

theorem FoundAt.cons {reads : List Bytes} {shown : Bytes} (buffer : Bytes)
    (h : FoundAt reads shown) : FoundAt (buffer :: reads) (buffer ++ shown) := by
  obtain ⟨earlier, a, rest, later, rfl, hne, rfl⟩ := h
  exact ⟨buffer :: earlier, a, rest, later, rfl, hne, by simp⟩

/-- The loop over the reads goes on behind a read without a terminator to find. -/
theorem printReads_cons (buffer : Bytes) (reads : List Bytes) :
    printReads (buffer :: reads) = if (printHeader buffer 0 buffer).2 then
      (printHeader buffer 0 buffer).1 else buffer ++ printReads reads := by
  have hstep : printReads (buffer :: reads) =
      if (printHeader buffer 0 buffer).2 then (printHeader buffer 0 buffer).1
      else (printHeader buffer 0 buffer).1 ++ printReads reads := rfl
  have hall := (printHeader_spec [] buffer).2.1
  rw [hstep]
  split_ifs with hdone
  · rfl
  · exact congrArg (· ++ printReads reads) (hall (Bool.not_eq_true _ |>.mp hdone))

/-- With `-h` the whole stream is printed, or the stream up to a terminator inside a read. -/
theorem printReads_cases (reads : List Bytes) :
    printReads reads = reads.flatten ∨ FoundAt reads (printReads reads) := by
  induction reads with
  | nil => exact Or.inl rfl
  | cons buffer reads ih =>
    rw [printReads_cons]
    split_ifs with hdone
    · obtain ⟨hpre, -, hend⟩ := printHeader_spec [] buffer
      obtain ⟨a, hne, ha⟩ := hend hdone
      obtain ⟨rest, hrest⟩ := hpre
      right
      refine ⟨[], a, rest, reads, ?_, hne, ha⟩
      rw [← ha]
      exact congrArg (· :: reads) hrest.symm
    · rcases ih with hall | hfound
      · exact Or.inl (by rw [hall, List.flatten_cons])
      · exact Or.inr (hfound.cons buffer)

/-- The loop prints nothing behind a terminator inside a read. -/
theorem printReads_isPrefix_of_foundAt {reads : List Bytes} {shown : Bytes}
    (h : FoundAt reads shown) : printReads reads <+: shown := by
  obtain ⟨earlier, a, rest, later, rfl, hne, rfl⟩ := h
  induction earlier with
  | nil =>
    have hinside : a ++ terminator <+: [] ++ (a ++ terminator ++ rest) := List.prefix_append _ _
    obtain ⟨hdone, hpre⟩ := printHeader_stops hne hinside (by simp [terminator])
    rw [List.nil_append, printReads_cons]
    simp only [List.nil_append, List.length_nil] at hdone hpre
    rw [if_pos hdone]
    exact hpre
  | cons buffer earlier ih =>
    rw [List.cons_append, printReads_cons]
    split_ifs with hdone
    -- an earlier read ends the output before
    · have hpre := (printHeader_spec [] buffer).1
      exact hpre.trans ⟨earlier.flatten ++ a ++ terminator, by simp⟩
    · have hshown : (buffer :: earlier).flatten ++ a ++ terminator =
          buffer ++ (earlier.flatten ++ a ++ terminator) := by simp
      rw [hshown]
      exact (List.prefix_append_right_inj buffer).mpr ih

/-- What is printed is never less than the header. -/
theorem header_isPrefix_printReads (reads : List Bytes) :
    header reads.flatten <+: printReads reads := by
  rcases printReads_cases reads with hall | hfound
  · rw [hall]
    exact header_isPrefix _
  · have hpre := hfound.isPrefix
    obtain ⟨earlier, a, rest, later, -, -, hshown⟩ := hfound
    rw [hshown] at hpre ⊢
    exact header_isPrefix_of_terminator hpre

/-- The header is printed exactly when it is the whole stream or its end can be found: the blank
line lies inside one read and not at that read's first byte. -/
theorem printReads_eq_header_iff (reads : List Bytes) :
    printReads reads = header reads.flatten ↔
      header reads.flatten = reads.flatten ∨ FoundAt reads (header reads.flatten) := by
  constructor
  · intro h
    rw [← h]
    exact printReads_cases reads
  · intro h
    have hge := header_isPrefix_printReads reads
    have hle : printReads reads <+: header reads.flatten := by
      rcases h with hall | hfound
      · rw [hall]
        rcases printReads_cases reads with hprinted | hprinted
        · exact hprinted ▸ List.prefix_rfl
        · exact hprinted.isPrefix
      · exact printReads_isPrefix_of_foundAt hfound
    exact hle.eq_of_length (hle.length_le.antisymm hge.length_le)

/-- The TLS session gets as far as reading the response. -/
def Responds (ssl : Session) (garbage : Int) : Prop :=
  ssl.ctxNew = true ∧ ssl.verifyPaths = true ∧ 0 < ssl.connect ∧
    (validateCertificate ssl).1.value garbage ≠ -1 ∧ 0 < ssl.write

instance (ssl : Session) (garbage : Int) : Decidable (Responds ssl garbage) :=
  inferInstanceAs (Decidable (_ ∧ _))

theorem printed_fetchViaHttps {ssl : Session} {garbage : Int} (h : Responds ssl garbage)
    (request : Bytes) : (fetchViaHttps ssl request true garbage).printed = printReads ssl.reads := by
  obtain ⟨hctx, hpaths, hconnect, hvalidate, hwrite⟩ := h
  simp [fetchViaHttps, hctx, hpaths, Int.not_le.mpr hconnect, hvalidate, Int.not_le.mpr hwrite,
    receiveResponse]

theorem printed_fetchViaHttp {send : Int} (h : 0 ≤ send) (fopen : Bool) (reads : List Bytes)
    (request : Bytes) : (fetchViaHttp send fopen reads request true).printed = printReads reads := by
  simp [fetchViaHttp, Int.not_lt.mpr h, receiveResponse]

section

variable {ssl : Session} {garbage send : Int}

/-- Both functions print the same, and it is the header exactly when the header is the whole stream
or its end lies inside one read, not at that read's first byte. -/
theorem headers_printed_iff (hssl : Responds ssl garbage) (hsend : 0 ≤ send) (fopen : Bool)
    (request : Bytes) :
    (fetchViaHttps ssl request true garbage).printed =
        (fetchViaHttp send fopen ssl.reads request true).printed ∧
      ((fetchViaHttps ssl request true garbage).printed = header ssl.reads.flatten ↔
        header ssl.reads.flatten = ssl.reads.flatten ∨
          FoundAt ssl.reads (header ssl.reads.flatten)) ∧
      ((fetchViaHttp send fopen ssl.reads request true).printed = header ssl.reads.flatten ↔
        header ssl.reads.flatten = ssl.reads.flatten ∨
          FoundAt ssl.reads (header ssl.reads.flatten)) := by
  rw [printed_fetchViaHttps hssl, printed_fetchViaHttp hsend]
  exact ⟨rfl, printReads_eq_header_iff _, printReads_eq_header_iff _⟩

end

/-- A session whose response comes in these reads. -/
def sessionOf (reads : List Bytes) : Session where
  ctxNew := true
  verifyPaths := true
  connect := 1
  peerCertificate := true
  verifyResult := 0
  verifyAgain := 0
  chain := none
  write := 1
  fopen := true
  reads := reads

theorem headers_printed_once : Responds (sessionOf [[72, 13, 10, 13, 10, 66], [66]]) 0 ∧
    (fetchViaHttps (sessionOf [[72, 13, 10, 13, 10, 66], [66]]) [] true 0).printed =
      header (sessionOf [[72, 13, 10, 13, 10, 66], [66]]).reads.flatten :=
  ⟨by decide,
    (headers_printed_iff (by decide : Responds (sessionOf [[72, 13, 10, 13, 10, 66], [66]]) 0)
      (by decide : (0 : Int) ≤ 1) true []).2.1.mpr
        (Or.inr ⟨[], [72], [66], [[66]], rfl, by decide, by decide⟩)⟩

/-- With a cut inside the blank line the body is printed too. -/
theorem body_printed : ¬ ∀ reads : List Bytes,
    (∀ buffer ∈ reads, buffer ≠ [] ∧ buffer.length ≤ bufferSize) →
      (fetchViaHttp 1 true reads [] true).printed = header reads.flatten := by
  intro h
  have hcut := h [[72, 13, 10, 13], [10, 66]] (by decide)
  exact absurd hcut (by decide)

end NetTools.HTTPS
