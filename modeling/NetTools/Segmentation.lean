import Mathlib.Data.List.Basic
import Mathlib.Data.List.Forall2

namespace NetTools.Segmentation

variable {α : Type*}

/-- `read` is a way to receive the stream of `sent`. -/
structure Segments (sent read : List (List α)) : Prop where
  nonempty : ∀ piece ∈ read, piece ≠ []
  stream : read.flatten = sent.flatten

/-- Without empty pieces a stream may be read as it was sent. -/
theorem segments_self {sent : List (List α)} (h : ∀ piece ∈ sent, piece ≠ []) : Segments sent sent :=
  ⟨h, rfl⟩

theorem flatten_length_le {sent read : List (List α)}
    (h : List.Forall₂ (fun x y => x.length ≤ y.length) sent read) :
    sent.flatten.length ≤ read.flatten.length := by
  induction h with
  | nil => exact Nat.le_refl _
  | cons hxy _ ih =>
    simp only [List.flatten_cons, List.length_append]
    omega

/-- A way to read a stream that gives a piece for each piece sent, none of them shorter, is
the way it was sent. -/
theorem eq_of_length_le {sent read : List (List α)}
    (h : List.Forall₂ (fun x y => x.length ≤ y.length) sent read)
    (hstream : read.flatten = sent.flatten) : read = sent := by
  induction h with
  | nil => rfl
  | @cons x y xs ys hxy htail ih =>
    have hle := flatten_length_le htail
    have hlen := congrArg List.length hstream
    simp only [List.flatten_cons, List.length_append] at hlen
    obtain ⟨rfl, hrest⟩ := List.append_inj hstream (by omega)
    rw [ih hrest]

/-- What is read of one piece begins with a beginning of it. -/
theorem Segments.head_append {text piece : List α} {rest : List (List α)}
    (h : Segments [text] (piece :: rest)) : piece ++ rest.flatten = text := by
  simpa using h.stream

/-- When nothing comes behind the first piece, it is the whole text. -/
theorem Segments.eq_singleton {text piece : List α} {rest : List (List α)}
    (h : Segments [text] (piece :: rest)) (hrest : rest.flatten = []) : piece :: rest = [text] := by
  have hpiece := h.head_append
  rw [hrest, List.append_nil] at hpiece
  cases rest with
  | nil => rw [hpiece]
  | cons next rest =>
    have hnext := h.nonempty next (by simp)
    rw [List.flatten_cons, List.append_eq_nil_iff] at hrest
    exact absurd hrest.1 hnext

/-- A text that is not empty is read in some pieces. -/
theorem Segments.exists_cons {text : List α} {read : List (List α)} (h : Segments [text] read)
    (htext : text ≠ []) : ∃ piece rest, read = piece :: rest := by
  apply List.exists_cons_of_ne_nil
  rintro rfl
  exact htext (by simpa using h.stream.symm)

end NetTools.Segmentation
