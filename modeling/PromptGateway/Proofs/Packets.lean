import PromptGateway.Proofs.Chunks
import Mathlib.Data.List.Forall2
import Mathlib.Data.List.Induction

/-
  Where a stream is cut makes no difference.

  A stream is its lines, each followed by a newline, and what follows the last newline. What
  comes out of the buffer should depend on these only, and not on how much of them came at a
  time: `Reads` says what that is for one line, by what the line is made of.

    1. A line is a text in UTF-8 or it is not, and a text is blank or there is a last
       character in it that is not (`Text.exists_last`). So every line reads as something, and
       as one thing only (`reads_iff`).
    2. `packets_immaterial`: a stream of which no line is longer than the largest message is
       read in the same way whether it comes at once or in pieces, line by line. And the
       buffer never holds a whole line, nor more than the largest message.
-/

namespace PromptGateway

namespace Text

/-- A text that is not blank has a last character that is not, and only blanks after it. -/
theorem exists_last {cs : List Char} (h : isBlankText cs = false) : ∃ kept c blanks,
    cs = kept ++ c :: blanks ∧ isBlank c = false ∧ ∀ b ∈ blanks, isBlank b = true := by
  induction cs using List.reverseRecOn with
  | nil => cases h
  | append_singleton cs c ih =>
    cases hc : isBlank c with
    | false => exact ⟨cs, c, [], rfl, hc, nofun⟩
    | true =>
      rw [isBlankText, List.all_append, List.all_cons, hc, List.all_nil, Bool.and_true,
        Bool.and_true] at h
      obtain ⟨kept, d, blanks, rfl, hd, hblanks⟩ := ih h
      refine ⟨kept, d, blanks ++ [c], by simp, hd, fun b hb => ?_⟩
      rcases List.mem_append.mp hb with hb | hb
      · exact hblanks b hb
      · cases List.mem_singleton.mp hb
        exact hc

theorem trimEnd_of_last {kept blanks : List Char} {c : Char} (hc : isBlank c = false)
    (hblanks : ∀ b ∈ blanks, isBlank b = true) : trimEnd (kept ++ c :: blanks) = kept ++ [c] := by
  have hdrop : (blanks.reverse ++ c :: kept.reverse).dropWhile isBlank = c :: kept.reverse := by
    rw [List.dropWhile_append_of_pos fun b hb => hblanks b (List.mem_reverse.mp hb)]
    exact List.dropWhile_cons_of_neg (Bool.eq_false_iff.mp hc)
  rw [trimEnd, List.reverse_append, List.reverse_cons, List.append_assoc, List.singleton_append,
    hdrop]
  simp

end Text

namespace Frame

/-- A stream is lines, each with a newline after it, and a tail. -/
structure Parts (stream : Bytes) (lines : List Bytes) (tail : Bytes) : Prop where
  whole : stream = lines.flatMap (· ++ [newline]) ++ tail
  lines : ∀ l ∈ lines, newline ∉ l
  tail : newline ∉ tail

/-- What a line reads as. A text of which nothing is left without its blanks is nothing, and
another one is what is left without the blanks at its end. -/
inductive Reads : Bytes → List (Except DecodeError String) → Prop where
  | blank {cs : List Char} : (∀ c ∈ cs, Text.isBlank c = true) → Reads (Bytes.ofChars cs) []
  | fault {line : Bytes} : (∀ cs, line ≠ Bytes.ofChars cs) → Reads line [.error .invalidUtf8]
  | text {kept blanks : List Char} {c : Char} : Text.isBlank c = false →
      (∀ b ∈ blanks, Text.isBlank b = true) →
      Reads (Bytes.ofChars (kept ++ c :: blanks)) [.ok (String.ofList (kept ++ [c]))]

theorem text?_ofChars (cs : List Char) : (Bytes.ofChars cs).text? = some (String.ofList cs) := by
  rw [Bytes.text?_eq_some_iff, Bytes.ofString, String.toList_ofList]

/-- Every line reads as something, and as one thing only. -/
theorem reads_iff {line : Bytes} {out : List (Except DecodeError String)} :
    Reads line out ↔ out = (entry line).toList := by
  constructor
  · intro h
    cases h with
    | @blank cs hcs =>
      have hblank : Text.isBlankText cs = true := List.all_eq_true.mpr hcs
      simp [entry, text?_ofChars, hblank]
    | fault hline =>
      have hnone : line.text? = none := by
        rw [Option.eq_none_iff_forall_ne_some]
        exact fun s hs => hline s.toList (Bytes.text?_eq_some_iff.mp hs)
      simp [entry, hnone]
    | @text kept blanks c hc hblanks =>
      have hblank : Text.isBlankText (kept ++ c :: blanks) = false := by
        simp [Text.isBlankText, hc]
      simp [entry, text?_ofChars, hblank, Text.trimEnd_of_last hc hblanks]
  · rintro rfl
    cases htext : line.text? with
    | none =>
      rw [entry, htext]
      refine .fault fun cs hcs => ?_
      rw [hcs, text?_ofChars] at htext
      cases htext
    | some s =>
      have hline : line = Bytes.ofChars s.toList := Bytes.text?_eq_some_iff.mp htext
      rw [entry, htext, hline]
      dsimp only
      cases hblank : Text.isBlankText s.toList with
      | true =>
        rw [if_pos rfl]
        exact .blank (List.all_eq_true.mp hblank)
      | false =>
        obtain ⟨kept, c, blanks, hs, hc, hblanks⟩ := Text.exists_last hblank
        rw [if_neg Bool.false_ne_true, hs, Text.trimEnd_of_last hc hblanks]
        exact .text hc hblanks

theorem forall₂_reads_iff {lines : List Bytes} {outs : List (List (Except DecodeError String))} :
    List.Forall₂ Reads lines outs ↔ outs = lines.map fun l => (entry l).toList := by
  induction lines generalizing outs with
  | nil => rw [List.forall₂_nil_left_iff, List.map_nil]
  | cons l lines ih =>
    rw [List.forall₂_cons_left_iff, List.map_cons]
    constructor
    · rintro ⟨out, outs, hout, houts, rfl⟩
      rw [reads_iff.mp hout, ih.mp houts]
    · rintro rfl
      exact ⟨_, _, reads_iff.mpr rfl, ih.mpr rfl, rfl⟩

/-! ## Any chunks -/

theorem join_eq (lines : List Bytes) (tail : Bytes) :
    join lines tail = lines.flatMap (· ++ [newline]) ++ tail := by
  induction lines with
  | nil => rfl
  | cons l lines ih =>
    rw [List.flatMap_cons, List.append_assoc, List.append_assoc, ← ih]
    rfl

/-- Every stream is lines and a tail. -/
theorem parts_splitLines (stream : Bytes) :
    Parts stream (splitLines stream).1 (splitLines stream).2 where
  whole := by rw [← join_eq, splitLines_join]
  lines := newline_not_mem_lines stream
  tail := newline_not_mem_rest stream

theorem Parts.splitLines_eq {stream tail : Bytes} {lines : List Bytes}
    (h : Parts stream lines tail) : splitLines stream = (lines, tail) := by
  rw [h.whole, ← join_eq, splitLines_of_join h.lines h.tail]

theorem drainLines_of_fits {stream : Bytes} (h : Fits stream) :
    drainLines stream = ((splitLines stream).1.filterMap entry, (splitLines stream).2) :=
  if_neg (Nat.not_lt_of_le h.2)

/-- Nothing is kept of a line that is complete, and no more than the largest message. -/
theorem drainLines_rest (buffer : Bytes) :
    newline ∉ (drainLines buffer).2 ∧ (drainLines buffer).2.length ≤ maxMessageBytes := by
  unfold drainLines
  dsimp only
  split
  · exact ⟨List.not_mem_nil, Nat.zero_le _⟩
  · next hlen => exact ⟨newline_not_mem_rest buffer, Nat.le_of_not_lt hlen⟩

/-- A stream is read in the same way wherever it is cut. Every stream is lines and a tail; where
none of them is longer than the largest message, the lines come out of the buffer one after the
other, each as what it reads as, and the tail stays, whether the stream came in chunks or at
once. Whatever was in the buffer, no newline stays in it, nor more than the largest message. -/
theorem packets_immaterial (chunks : List Bytes) :
    (∃ lines tail, Parts chunks.flatten lines tail) ∧
    (∀ lines tail, Parts chunks.flatten lines tail →
      (∀ l ∈ lines, l.length ≤ maxMessageBytes) → tail.length ≤ maxMessageBytes →
      (∃ outs, List.Forall₂ Reads lines outs) ∧
      ∀ outs, List.Forall₂ Reads lines outs →
        feed drainLines [] chunks = (outs.flatten, tail) ∧
          drainLines chunks.flatten = (outs.flatten, tail)) ∧
    ∀ buffer, newline ∉ (drainLines buffer).2 ∧
      (drainLines buffer).2.length ≤ maxMessageBytes := by
  refine ⟨⟨_, _, parts_splitLines _⟩, fun lines tail hparts hlines htail => ?_, drainLines_rest⟩
  have hsplit := hparts.splitLines_eq
  have hfits : Fits chunks.flatten := by
    rw [Fits, hsplit]
    exact ⟨hlines, htail⟩
  refine ⟨⟨_, forall₂_reads_iff.mpr rfl⟩, fun outs houts => ?_⟩
  have hout : outs.flatten = lines.filterMap entry := by
    rw [forall₂_reads_iff.mp houts, List.filterMap_eq_flatMap_toList, List.flatMap_def]
  rw [feed_drainLines hfits, drainLines_of_fits hfits, hsplit, hout]
  exact ⟨rfl, rfl⟩

end Frame

end PromptGateway
