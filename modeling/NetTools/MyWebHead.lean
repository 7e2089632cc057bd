import NetTools.MyWeb
import NetTools.HTTPSHeaders

namespace NetTools.MyWeb

open CText TextSearch
open HTTPS (header terminator printReads)

/-- The loop with `-h`, from the string in `temp` on: what it prints. It is `none` when `strcat`
writes behind `temp`. -/
def printHead (temp : Bytes) : Bytes → Option Bytes
  | [] => some []
  | b :: stream =>
    let temp := temp ++ response b
    if tempSize ≤ temp.length then none
    else if (strstr temp blankLine).isSome then some (response b)
    else (printHead temp stream).map fun printed => response b ++ printed

/-- The bytes that are strings. -/
def plain (stream : Bytes) : Bytes := stream.filter fun b => b != 0

/-- What is printed is what the GET request would have in `temp`. -/
theorem printHead_eq_readHeader (temp stream : Bytes) :
    (printHead temp stream).map (temp ++ ·) = (readHeader temp stream).map Prod.fst := by
  induction stream generalizing temp with
  | nil => simp [printHead, readHeader]
  | cons b stream ih =>
    rw [printHead, readHeader]
    split_ifs
    · rfl
    · rfl
    · rw [← ih, Option.map_map]
      congr 1
      funext printed
      simp only [Function.comp_apply, List.append_assoc]

theorem startsWith_terminator_iff (s : Bytes) : startsWith s terminator = true ↔ blankLine <+: s :=
  List.isPrefixOf_iff_prefix

/-- A header ends behind the first blank line. -/
theorem header_of_firstAt {before s : Bytes} (h : FirstAt blankLine before s) :
    header s = before ++ blankLine := by
  induction before generalizing s with
  | nil =>
    have hstands := FirstAt.nil_iff.mp h
    cases s with
    | nil => exact absurd hstands.length_le (by decide)
    | cons b s =>
      rw [header, if_pos ((startsWith_terminator_iff _).mpr hstands)]
      rfl
  | cons b before ih =>
    cases s with
    | nil => exact absurd h.stands.length_le (by simp)
    | cons c s =>
      obtain ⟨rfl, hnot, htail⟩ := FirstAt.cons_iff.mp h
      rw [header, if_neg (mt (startsWith_terminator_iff _).mp hnot), ih htail]
      rfl

theorem header_of_none {s : Bytes} (h : ∀ a, ¬ a ++ blankLine <+: s) : header s = s := by
  induction s with
  | nil => rfl
  | cons b s ih =>
    rw [header, if_neg (mt (startsWith_terminator_iff _).mp (h []))]
    rw [ih fun a ha => h (b :: a) ((List.prefix_cons_inj b).mpr ha)]

/-- A text without a blank line is only the beginning of the header. -/
theorem lt_length_header {temp : Bytes} (b : Byte) (more : Bytes)
    (h : ∀ a, ¬ a ++ blankLine <+: temp) :
    temp.length < (header (temp ++ b :: more)).length := by
  cases hs : strstr (temp ++ b :: more) blankLine with
  | none =>
    rw [header_of_none (search_eq_none_iff.mp hs)]
    simp
  | some rest =>
    obtain ⟨before, -, hfirst⟩ := search_eq_some_iff.mp hs
    rw [header_of_firstAt hfirst]
    by_contra hle
    exact h before (List.prefix_of_prefix_length_le hfirst.stands (List.prefix_append _ _) (by omega))

/-- A byte that completes the blank line ends the header. -/
theorem header_of_completed {temp more : Bytes} {b : Byte} (h : ∀ a, ¬ a ++ blankLine <+: temp)
    (hb : (strstr (temp ++ [b]) blankLine).isSome = true) :
    header (temp ++ b :: more) = temp ++ [b] := by
  obtain ⟨rest, hrest⟩ := Option.isSome_iff_exists.mp hb
  obtain ⟨before, -, hfirst⟩ := search_eq_some_iff.mp hrest
  have hend : before ++ blankLine = temp ++ [b] := by
    refine hfirst.stands.eq_of_length (Nat.le_antisymm hfirst.stands.length_le ?_)
    by_contra hlt
    rw [List.length_append, List.length_singleton] at hlt
    exact h before (List.prefix_of_prefix_length_le hfirst.stands (List.prefix_append _ _) (by omega))
  have hmore := hfirst.append more
  rw [List.append_assoc, List.singleton_append] at hmore
  rw [header_of_firstAt hmore, hend]

/-- Both loops gather the header of the stream without its NUL bytes, if it fits. -/
theorem readHeader_eq_header (stream : Bytes) {temp : Bytes} (h : ∀ a, ¬ a ++ blankLine <+: temp)
    (hlen : temp.length < tempSize) :
    (readHeader temp stream).map Prod.fst =
      if (header (temp ++ plain stream)).length < tempSize then some (header (temp ++ plain stream))
      else none := by
  induction stream generalizing temp with
  | nil =>
    have hself : temp ++ plain [] = temp := List.append_nil temp
    rw [hself, header_of_none h, if_pos hlen]
    rfl
  | cons b stream ih =>
    by_cases hb : b = 0
    -- a NUL byte leaves the string as it was
    · subst hb
      have hnone : strstr temp blankLine = none := search_eq_none_iff.mpr h
      have hsame : readHeader temp (0 :: stream) = readHeader temp stream := by
        rw [readHeader]
        simp only [response, ↓reduceIte, List.append_nil, if_neg (by omega : ¬ tempSize ≤ temp.length),
          hnone, Option.isSome_none, Bool.false_eq_true]
      rw [hsame]
      exact ih h hlen
    · have hresponse : response b = [b] := if_neg hb
      have hplain : plain (b :: stream) = b :: plain stream :=
        List.filter_cons_of_pos (by simpa using hb)
      have happend : (temp ++ [b]).length = temp.length+1 := by simp
      rw [hplain, readHeader, hresponse]
      by_cases hfit : tempSize ≤ (temp ++ [b]).length
      · have hlong := lt_length_header b (plain stream) h
        rw [if_pos hfit, if_neg (by omega)]
        rfl
      · rw [if_neg hfit]
        by_cases hfound : (strstr (temp ++ [b]) blankLine).isSome = true
        · rw [if_pos hfound, header_of_completed h hfound, if_pos (by omega)]
          rfl
        · have hnone : strstr (temp ++ [b]) blankLine = none := by simpa using hfound
          rw [if_neg hfound, ih (search_eq_none_iff.mp hnone) (by omega), List.append_assoc,
            List.singleton_append]

/-- The header of a longer stream is the header of its end, or ends before. -/
theorem header_append_begins (before s : Bytes) : header (before ++ s) <+: before ++ header s := by
  induction before with
  | nil => exact List.prefix_rfl
  | cons b before ih =>
    rw [List.cons_append, header]
    split_ifs with hb
    · have hstands := (startsWith_terminator_iff _).mp hb
      by_cases hend : ∀ a, ¬ a ++ blankLine <+: s
      · rw [List.cons_append, header_of_none hend]
        exact hstands
      · -- both end with a blank line, and this one is no longer than the other
        push Not at hend
        obtain ⟨a, ha⟩ := hend
        have hlong : blankLine.length ≤ (header s).length := by
          obtain ⟨rest, hrest⟩ := Option.ne_none_iff_exists'.mp
            fun hnone : strstr s blankLine = none => search_eq_none_iff.mp hnone a ha
          obtain ⟨front, -, hfirst⟩ := search_eq_some_iff.mp hrest
          rw [header_of_firstAt hfirst, List.length_append]
          exact Nat.le_add_left _ _
        have hwhole : b :: before ++ header s <+: b :: before ++ s :=
          (List.prefix_append_right_inj _).mpr (HTTPS.header_isPrefix s)
        refine List.prefix_of_prefix_length_le hstands hwhole (hlong.trans ?_)
        rw [List.length_append]
        exact Nat.le_add_left _ _
    · exact (List.prefix_cons_inj b).mpr ih

/-- What is printed from a `temp` without a blank line, which fits. -/
theorem printHead_eq (stream : Bytes) {temp : Bytes} (h : ∀ a, ¬ a ++ blankLine <+: temp)
    (hlen : temp.length < tempSize) :
    printHead temp stream = if (header (temp ++ plain stream)).length < tempSize then
      some ((header (temp ++ plain stream)).drop temp.length) else none := by
  have hread := printHead_eq_readHeader temp stream
  rw [readHeader_eq_header stream h hlen] at hread
  split_ifs at hread ⊢
  · obtain ⟨printed, hprinted, hheader⟩ := Option.map_eq_some_iff.mp hread
    rw [hprinted, ← hheader, List.drop_left]
  · exact Option.map_eq_none_iff.mp hread

/-- Whatever stands in `temp`, no more than the header of the stream is printed. -/
theorem printHead_prefix {temp stream printed : Bytes} (h : printHead temp stream = some printed) :
    printed <+: header (plain stream) := by
  cases stream with
  | nil =>
    rw [← Option.some.inj h]
    exact List.nil_prefix
  | cons b stream =>
    have hlen : temp.length < tempSize := by
      by_contra hlong
      rw [printHead, if_pos (by rw [List.length_append]; omega)] at h
      cases h
    by_cases hblank : ∀ a, ¬ a ++ blankLine <+: temp
    · rw [printHead_eq _ hblank hlen] at h
      obtain ⟨-, h⟩ := Option.ite_none_right_eq_some.mp h
      rw [← Option.some.inj h]
      have hdrop := (header_append_begins temp (plain (b :: stream))).drop temp.length
      rwa [List.drop_left] at hdrop
    · -- the loop ends at its first byte
      push Not at hblank
      obtain ⟨a, ha⟩ := hblank
      have hfound : (strstr (temp ++ response b) blankLine).isSome = true := by
        rw [Option.isSome_iff_ne_none]
        intro hnone
        exact search_eq_none_iff.mp hnone a (ha.trans (List.prefix_append _ _))
      rw [printHead, hfound, if_pos rfl] at h
      obtain ⟨-, h⟩ := Option.ite_none_left_eq_some.mp h
      rw [← Option.some.inj h, response]
      split_ifs with hb
      · exact List.nil_prefix
      · rw [plain, List.filter_cons_of_pos (by simpa using hb), header]
        split_ifs with hstarts
        · obtain ⟨rest, hrest⟩ := (startsWith_terminator_iff _).mp hstarts
          obtain ⟨rfl, -⟩ := List.cons.inj hrest
          exact ⟨[10, 13, 10], rfl⟩
        · exact (List.prefix_cons_inj b).mpr List.nil_prefix

/-- For every stream that a server sends and every string that stands in the uninitialised `temp`:
with no blank line in it, `-h` prints what the header of this string and the stream without its NUL
bytes has behind the string when that fits into `temp`, and writes behind `temp` otherwise. For a
stream without a NUL it prints the beginning of what the newer client prints, in whatever pieces
that one reads the stream. -/
theorem head_prints_header (temp stream : Bytes) :
    ((∀ a, ¬ a ++ blankLine <+: temp) → temp.length < tempSize → printHead temp stream =
      if (header (temp ++ plain stream)).length < tempSize then
        some ((header (temp ++ plain stream)).drop temp.length) else none) ∧
    ∀ reads : List Bytes, reads.flatten = stream → 0 ∉ stream → ∀ printed,
      printHead temp stream = some printed → printed <+: printReads reads := by
  refine ⟨printHead_eq stream, ?_⟩
  rintro reads rfl hnul printed hprinted
  have hplain : plain reads.flatten = reads.flatten := by
    rw [plain, List.filter_eq_self]
    intro b hb
    have hne : b ≠ 0 := by
      rintro rfl
      exact hnul hb
    simpa using hne
  have hheader := printHead_prefix hprinted
  rw [hplain] at hheader
  exact hheader.trans (HTTPS.header_isPrefix_printReads reads)

end NetTools.MyWeb
