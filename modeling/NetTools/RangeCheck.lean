import NetTools.FTPMessages
import NetTools.TFTPNetwork

namespace NetTools

open CText
open TFTP (RangeRejected)

/-- What the range check is for: it lets a `GET` through exactly when the chunk is part of the file,
so that all of the chunk can be read. -/
structure RangeExact (file : Bytes) (offset chunkSize : ℕ) (passed : Prop) : Prop where
  exact : passed ↔ offset < file.length ∧ offset+chunkSize ≤ file.length
  served : passed → ((file.drop offset).take chunkSize).length = chunkSize

/-- `%zu` stores a `size_t`, also for a number with a sign. -/
theorem scanSize_lt {s rest : Bytes} {v : ℕ} (h : scanSize s = some (v, rest)) : v < 2^64 := by
  obtain ⟨-, h⟩ := Option.ite_none_left_eq_some.mp h
  obtain ⟨rfl, -⟩ := Prod.mk.inj (Option.some.inj h)
  split_ifs <;> omega

theorem scanRequest_numbers_lt {text command filename : Bytes} {offset chunkSize : ℕ}
    (h : TFTP.scanRequest text = some ⟨command, filename, some offset, some chunkSize⟩) :
    offset < 2^64 ∧ chunkSize < 2^64 := by
  obtain ⟨⟨command, rest⟩, -, h⟩ := Option.bind_eq_some_iff.mp h
  obtain ⟨⟨filename, rest'⟩, -, h⟩ := Option.bind_eq_some_iff.mp h
  simp only [pure, Option.some.injEq, TFTP.Request.mk.injEq] at h
  obtain ⟨-, -, hoffset, hsize⟩ := h
  obtain ⟨⟨o, rest''⟩, ho, rfl⟩ := Option.map_eq_some_iff.mp hoffset
  rw [ho, Option.bind_some] at hsize
  obtain ⟨⟨c, rest'''⟩, hc, rfl⟩ := Option.map_eq_some_iff.mp hsize
  exact ⟨scanSize_lt ho, scanSize_lt hc⟩

/-- The check is what it is for unless the sum wraps around behind an offset in the file. -/
theorem rangeExact_iff {file : Bytes} {offset chunkSize : ℕ} (ho : offset < 2^64)
    (hc : chunkSize < 2^64) (hf : file.length < 2^64) :
    RangeExact file offset chunkSize (¬ RangeRejected offset chunkSize file.length) ↔
      file.length ≤ offset ∨ offset+chunkSize < 2^64 := by
  have hpassed : ¬ RangeRejected offset chunkSize file.length ↔
      offset < file.length ∧ (offset+chunkSize)%2^64 ≤ file.length := by
    rw [RangeRejected, not_or, not_le, not_lt]
  rw [hpassed]
  constructor
  · intro h
    -- a sum that wraps around is smaller than the offset
    by_contra hwrap
    have hmod : (offset+chunkSize)%2^64 = offset+chunkSize-2^64 := by omega
    have hexact := h.exact
    omega
  · intro h
    have hexact : (offset < file.length ∧ (offset+chunkSize)%2^64 ≤ file.length) ↔
        offset < file.length ∧ offset+chunkSize ≤ file.length := by omega
    refine ⟨hexact, fun hp => ?_⟩
    have hin := hexact.mp hp
    rw [List.length_take, List.length_drop]
    omega

/-- The TFTP server starts its loop exactly for a request that passes the check. -/
theorem handleRequest_sending_iff {files : Bytes → Option Bytes} {filename file : Bytes}
    {offset chunkSize : ℕ} (hfile : files filename = some file) :
    (∃ h, TFTP.handleRequest files ⟨ascii "GET", filename, some offset, some chunkSize⟩ =
        .sending h) ↔ ¬ RangeRejected offset chunkSize file.length := by
  have hcheck : ascii "GET" ≠ ascii "CHECK" := by decide
  simp only [TFTP.handleRequest, if_neg hcheck, ↓reduceIte, hfile]
  by_cases hr : RangeRejected offset chunkSize file.length
  · have hstart : TFTP.Handler.start file offset chunkSize = none := if_pos hr
    rw [hstart]
    exact iff_of_false (by rintro ⟨h, ⟨⟩⟩) fun hn => hn hr
  · have hstart : TFTP.Handler.start file offset chunkSize =
        some ⟨file, offset, chunkSize, 0, [], .sending⟩ := if_neg hr
    rw [hstart]
    exact iff_of_true ⟨_, rfl⟩ hr

/-- The FTP server survives exactly a request that passes the check. -/
theorem reopen_running_iff {s : FTP.Server} (hs : s.status = .running) (file filename : Bytes)
    (offset chunkSize : ℕ) :
    (s.reopen (some file) (.get filename offset chunkSize)).status = .running ↔
      ¬ RangeRejected offset chunkSize file.length := by
  simp only [FTP.Server.reopen]
  split_ifs with hr
  · exact iff_of_false nofun fun hn => hn hr
  · exact iff_of_true hs hr

/-- For every `GET` that a server parses, the check of either server is exact unless the offset is
in the file and `offset+chunk_size` wraps around. -/
theorem range_check_exact_iff {text filename file : Bytes} {offset chunkSize : ℕ}
    (h : TFTP.scanRequest text = some ⟨ascii "GET", filename, some offset, some chunkSize⟩)
    (hf : file.length < 2^64) :
    (∀ files : Bytes → Option Bytes, files filename = some file →
      (RangeExact file offset chunkSize
          (∃ h, TFTP.handleRequest files ⟨ascii "GET", filename, some offset, some chunkSize⟩ =
            .sending h) ↔
        file.length ≤ offset ∨ offset+chunkSize < 2^64)) ∧
    ∀ s : FTP.Server, s.status = .running →
      (RangeExact file offset chunkSize
          ((s.reopen (some file) (.get filename offset chunkSize)).status = .running) ↔
        file.length ≤ offset ∨ offset+chunkSize < 2^64) := by
  obtain ⟨ho, hc⟩ := scanRequest_numbers_lt h
  constructor
  · intro files hfile
    rw [handleRequest_sending_iff hfile]
    exact rangeExact_iff ho hc hf
  · intro s hs
    rw [reopen_running_iff hs]
    exact rangeExact_iff ho hc hf

/-- A chunk in the file. -/
theorem range_check_exact_iff_inside :
    RangeExact (ascii "abc") 1 2 (∃ h, TFTP.handleRequest (fun _ => some (ascii "abc"))
        ⟨ascii "GET", ascii "f", some 1, some 2⟩ = .sending h) ∧
      RangeExact (ascii "abc") 1 2
        ((FTP.Server.start.reopen (some (ascii "abc")) (.get (ascii "f") 1 2)).status = .running) := by
  have hscan : TFTP.scanRequest (ascii "GET f 1 2") =
      some ⟨ascii "GET", ascii "f", some 1, some 2⟩ := by decide
  have h := range_check_exact_iff hscan (by decide : (ascii "abc").length < 2^64)
  exact ⟨(h.1 (fun _ => some (ascii "abc")) rfl).mpr (Or.inr (by decide)),
    (h.2 .start rfl).mpr (Or.inr (by decide))⟩

/-- `GET f 1 -1` passes the check of both servers for a file of three bytes. -/
theorem negative_size_passes :
    TFTP.scanRequest (ascii "GET f 1 -1") =
        some ⟨ascii "GET", ascii "f", some 1, some (2^64-1)⟩ ∧
      FTP.parse (ascii "GET f 1 -1") (ascii "0123456789") =
        .accepted (.get (ascii "f") 1 (2^64-1)) ∧
      (∃ h, TFTP.handleRequest (fun _ => some (ascii "abc"))
        ⟨ascii "GET", ascii "f", some 1, some (2^64-1)⟩ = .sending h) ∧
      (FTP.Server.start.reopen (some (ascii "abc")) (.get (ascii "f") 1 (2^64-1))).status =
        .running ∧
      ¬ RangeExact (ascii "abc") 1 (2^64-1) (∃ h, TFTP.handleRequest (fun _ => some (ascii "abc"))
        ⟨ascii "GET", ascii "f", some 1, some (2^64-1)⟩ = .sending h) ∧
      ¬ RangeExact (ascii "abc") 1 (2^64-1)
        ((FTP.Server.start.reopen (some (ascii "abc")) (.get (ascii "f") 1 (2^64-1))).status =
          .running) := by
  have htftp : ∃ h, TFTP.handleRequest (fun _ => some (ascii "abc"))
      ⟨ascii "GET", ascii "f", some 1, some (2^64-1)⟩ = .sending h :=
    (@handleRequest_sending_iff (fun _ => some (ascii "abc")) _ _ 1 (2^64-1) rfl).mpr (by decide)
  have hftp : (FTP.Server.start.reopen (some (ascii "abc"))
      (.get (ascii "f") 1 (2^64-1))).status = .running :=
    (reopen_running_iff rfl _ _ _ _).mpr (by decide)
  have houtside : ¬ (1 < (ascii "abc").length ∧ 1+(2^64-1) ≤ (ascii "abc").length) := by decide
  refine ⟨by decide, by decide, htftp, hftp, fun h => ?_, fun h => ?_⟩
  · exact houtside (h.exact.mp htftp)
  · exact houtside (h.exact.mp hftp)

end NetTools
