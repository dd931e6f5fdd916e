/-
  White space around a line.

  The set is the White_Space property of Unicode: it holds the four separators
  that occur between tokens and every other space of the standard, and neither
  U+FEFF nor U+200B. `trim` takes the longest blank run off both ends of a text
  and leaves what stands between them alone.
-/

namespace PromptGateway.Text

/-- The characters with the White_Space property. -/
def isBlank (c : Char) : Bool :=
  let n := c.toNat
  (0x09 ≤ n && n ≤ 0x0D) || n == 0x20 || n == 0x85 || n == 0xA0 || n == 0x1680 ||
    (0x2000 ≤ n && n ≤ 0x200A) || n == 0x2028 || n == 0x2029 || n == 0x202F ||
    n == 0x205F || n == 0x3000

/-- The text after its leading blanks. -/
def trimStart (cs : List Char) : List Char := cs.dropWhile isBlank

/-- The text before its trailing blanks. -/
def trimEnd (cs : List Char) : List Char := (cs.reverse.dropWhile isBlank).reverse

/-- The text between its leading and its trailing blanks. -/
def trim (cs : List Char) : List Char := trimEnd (trimStart cs)

/-- `trim` on a string. -/
def trimmed (s : String) : String := String.ofList (trim s.toList)

/-- Whether there is anything in a text besides blanks. -/
def isBlankText (cs : List Char) : Bool := cs.all isBlank

theorem trimEnd_cons (c : Char) (cs : List Char) :
    trimEnd (c :: cs) =
      if (trimEnd cs).isEmpty then [c].dropWhile isBlank else c :: trimEnd cs := by
  simp only [trimEnd, List.reverse_cons, List.dropWhile_append, List.isEmpty_reverse]
  split
  · simp only [List.dropWhile_cons, List.dropWhile_nil]
    split <;> rfl
  · rw [List.reverse_append]
    rfl

theorem trimEnd_trimEnd (cs : List Char) : trimEnd (trimEnd cs) = trimEnd cs := by
  induction cs with
  | nil => rfl
  | cons c cs ih =>
    rw [trimEnd_cons]
    split
    · cases hc : isBlank c <;> simp [trimEnd, hc]
    · next h => rw [trimEnd_cons, ih, if_neg h]

theorem trim_cons (c : Char) (cs : List Char) :
    trim (c :: cs) = if isBlank c then trim cs else trimEnd (c :: cs) := by
  simp only [trim, trimStart, List.dropWhile_cons]
  split <;> rfl

/-- The blanks at the end may be taken off first. -/
theorem trim_trimEnd (cs : List Char) : trim (trimEnd cs) = trim cs := by
  induction cs with
  | nil => rfl
  | cons c cs ih =>
    rw [trim_cons]
    cases hc : isBlank c with
    | true =>
      rw [trimEnd_cons, if_pos rfl, ← ih]
      split
      · next h =>
        rw [List.isEmpty_iff.mp h]
        simp [hc]
      · rw [trim_cons, if_pos hc]
    | false =>
      have hstart : trimStart (trimEnd (c :: cs)) = trimEnd (c :: cs) := by
        rw [trimEnd_cons]
        split <;> simp [trimStart, hc]
      rw [trim, hstart, trimEnd_trimEnd, if_neg (by decide)]

theorem trim_of_isBlankText {cs : List Char} (h : isBlankText cs = true) : trim cs = [] := by
  induction cs with
  | nil => rfl
  | cons c cs ih =>
    rw [isBlankText, List.all_cons, Bool.and_eq_true] at h
    rw [trim_cons, if_pos h.1, ih h.2]

theorem trim_sublist (cs : List Char) : (trim cs).Sublist cs := by
  have hend : ∀ cs : List Char, (trimEnd cs).Sublist cs := fun cs => by
    simpa only [trimEnd, List.reverse_reverse] using
      (List.dropWhile_sublist (l := cs.reverse) isBlank).reverse
  exact (hend _).trans (List.dropWhile_sublist _)

/-- Every white space character of the core library is blank. -/
theorem isBlank_of_isWhitespace {c : Char} (h : c.isWhitespace = true) : isBlank c = true := by
  simp only [Char.isWhitespace, Bool.or_eq_true, decide_eq_true_eq] at h
  rcases h with ((h | h) | h) | h <;> subst h <;> decide

end PromptGateway.Text
