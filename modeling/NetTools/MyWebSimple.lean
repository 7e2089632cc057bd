import NetTools.MyWebBody
import NetTools.MyWebHead

namespace NetTools.MyWeb

open CText TextSearch
open HTTPS (header)

/-- The GET request of the simple downloader, without SSL. Behind its error messages it goes on:
with `NULL` where the field is missing, and with the value that `length` had where there is no
number to scan. -/
def simpleGet (temp : Bytes) (length : Int) (stream : Bytes) : Ended :=
  match readHeader temp stream with
  | none => ⟨.undefined, none, none⟩
  | some (temp, rest) =>
    match strstr temp lengthKey with
    | none => ⟨.undefined, some "ERROR: response does not have Content-Length", none⟩
    | some remainder =>
      match scanLength length (remainder.takeWhile fun b => b != 13) with
      | none =>
        ⟨.exited 0, some "ERROR: unable to scan Content-Length\n", some (writeBody length 0 rest)⟩
      | some length => ⟨.exited 0, none, some (writeBody length 0 rest)⟩

/-- What the first loop takes of the stream is in `temp` without its NUL bytes. -/
theorem readHeader_split {temp temp' rest stream : Bytes}
    (h : readHeader temp stream = some (temp', rest)) :
    ∃ part, stream = part ++ rest ∧ temp' = temp ++ plain part := by
  induction stream generalizing temp with
  | nil =>
    cases h
    exact ⟨[], rfl, (List.append_nil _).symm⟩
  | cons b stream ih =>
    have hbyte (part : Bytes) : temp ++ plain (b :: part) = temp ++ response b ++ plain part := by
      rw [List.append_assoc, response]
      split_ifs with hb
      · rw [hb]
        rfl
      · congr 1
        exact List.filter_cons_of_pos (by simpa using hb)
    rw [readHeader] at h
    split_ifs at h
    · cases h
      exact ⟨[b], rfl, by rw [hbyte, plain, List.filter_nil, List.append_nil]⟩
    · obtain ⟨part, rfl, rfl⟩ := ih h
      exact ⟨b :: part, rfl, (hbyte part).symm⟩

/-- What both programs gather, when the string in `temp` has no blank line. -/
theorem header_of_gathered {temp gathered rest stream : Bytes} (h : ∀ a, ¬ a ++ blankLine <+: temp)
    (hlen : temp.length < tempSize) (hread : readHeader temp stream = some (gathered, rest)) :
    gathered = header (temp ++ plain stream) := by
  have hheader := readHeader_eq_header stream h hlen
  rw [hread, Option.map_some] at hheader
  exact Option.some.inj (Option.ite_none_right_eq_some.mp hheader.symm).2 |>.symm

/-- For every answer of a server, and whatever stands in the uninitialised `temp` and `length`, the
same for both: the simple downloader ends as the secure one does, with the same `output.dat`,
exactly when what is gathered overflows `temp` or a length is read from it. Otherwise the secure
one writes nothing and exits with an error, and the simple one uses `NULL` when the key has not
been gathered, and else writes as many bytes as its variable happens to say. Where `temp` has no
blank line, the header of its string and the stream is gathered. -/
theorem simpleGet_eq_get_iff (temp : Bytes) (unset : Int) (stream : Bytes) :
    (simpleGet temp unset stream = getFrom temp unset stream ↔
      ∀ gathered rest, readHeader temp stream = some (gathered, rest) →
        ∃ length, LengthAt unset gathered length) ∧
    (simpleGet temp unset stream ≠ getFrom temp unset stream →
      (getFrom temp unset stream).status = .exited 1 ∧ (getFrom temp unset stream).output = none ∧
        ∃ gathered rest, readHeader temp stream = some (gathered, rest) ∧
          ((¬ lengthKey <:+: gathered ∧ (simpleGet temp unset stream).status = .undefined) ∨
            lengthKey <:+: gathered ∧ (simpleGet temp unset stream).status = .exited 0 ∧
              (simpleGet temp unset stream).output = some (plain (rest.take unset.toNat)))) ∧
    ∀ gathered rest, readHeader temp stream = some (gathered, rest) →
      (∃ part, stream = part ++ rest ∧ gathered = temp ++ plain part) ∧
        ((∀ a, ¬ a ++ blankLine <+: temp) → temp.length < tempSize →
          gathered = header (temp ++ plain stream)) := by
  rw [← and_assoc]
  refine ⟨?_, fun gathered rest hread =>
    ⟨readHeader_split hread, fun hblank hlen => header_of_gathered hblank hlen hread⟩⟩
  cases hread : readHeader temp stream with
  | none =>
    have hsame : simpleGet temp unset stream = getFrom temp unset stream := by
      rw [simpleGet, getFrom, hread]
    exact ⟨iff_of_true hsame (by simp), fun hne => absurd hsame hne⟩
  | some split =>
    obtain ⟨gathered, rest⟩ := split
    simp only [← contentLength_eq_ok_iff]
    cases hfind : strstr gathered lengthKey with
    | none =>
      have habsent : ¬ lengthKey <:+: gathered := by
        rintro ⟨before, behind, hin⟩
        exact search_eq_none_iff.mp hfind before ⟨behind, hin⟩
      have hsimple : simpleGet temp unset stream =
          ⟨.undefined, some "ERROR: response does not have Content-Length", none⟩ := by
        simp only [simpleGet, hread, hfind]
      have hsecure : getFrom temp unset stream =
          ⟨.exited 1, some "ERROR: response does not have Content-Length\n", none⟩ := by
        simp only [getFrom, hread, contentLength, hfind]
      rw [hsimple, hsecure]
      refine ⟨iff_of_false (by simp) ?_,
        fun _ => ⟨rfl, rfl, gathered, rest, rfl, Or.inl ⟨habsent, rfl⟩⟩⟩
      intro h
      obtain ⟨length, hlength⟩ := h gathered rest rfl
      simp [contentLength, hfind] at hlength
    | some remainder =>
      have hpresent : lengthKey <:+: gathered := by
        obtain ⟨before, -, hfirst⟩ := search_eq_some_iff.mp hfind
        obtain ⟨behind, hin⟩ := hfirst.stands
        exact ⟨before, behind, hin⟩
      cases hscan : scanLength unset (remainder.takeWhile fun b => b != 13) with
      | none =>
        have hsimple : simpleGet temp unset stream = ⟨.exited 0,
            some "ERROR: unable to scan Content-Length\n", some (writeBody unset 0 rest)⟩ := by
          simp only [simpleGet, hread, hfind, hscan]
        have hsecure : getFrom temp unset stream =
            ⟨.exited 1, some "ERROR: unable to scan Content-Length\n", none⟩ := by
          simp only [getFrom, hread, contentLength, hfind, hscan]
        rw [hsimple, hsecure]
        refine ⟨iff_of_false (by simp) ?_,
          fun _ => ⟨rfl, rfl, gathered, rest, rfl, Or.inr ⟨hpresent, rfl, ?_⟩⟩⟩
        · intro h
          obtain ⟨length, hlength⟩ := h gathered rest rfl
          simp [contentLength, hfind, hscan] at hlength
        · rw [writeBody_eq, Nat.cast_zero, Int.sub_zero]
          rfl
      | some length =>
        have hok : contentLength unset gathered = .ok length := by
          simp only [contentLength, hfind, hscan]
        have hsame : simpleGet temp unset stream = getFrom temp unset stream := by
          simp only [simpleGet, getFrom, hread, hok, hfind, hscan]
        refine ⟨iff_of_true hsame ?_, fun hne => absurd hsame hne⟩
        rintro gathered' rest' ⟨⟩
        exact ⟨length, hok⟩

end NetTools.MyWeb
