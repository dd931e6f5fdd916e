import PromptGateway.Json.Value
import PromptGateway.Json.Writer

/-
  What is written as JSON is read back.

  `Legible w c` says that the text `w` is read as the content `c` wherever a comma or the
  end of an object stands behind it. Each way of writing a value is legible: strings of
  any characters (`legible_text`), truth values (`legible_boolean`), and whole numbers as
  far as 64 bits hold them (`legible_nat`, `legible_int`). `moreMembers_written` puts
  legible values together to the members of an object.
-/

namespace PromptGateway.Json

/-- The end of a member: a comma or the end of the object. -/
def EndsMember (rest : List Char) : Prop := ∃ c cs, rest = c :: cs ∧ (c = ',' ∨ c = '}')

/-- A text that is read as a value wherever it is a member of an object. -/
def Legible (w : List Char) (c : Content) : Prop :=
  ∀ n rest, EndsMember rest → value n (w ++ rest) = .ok (c, rest)

@[simp] theorem ok_bind {α β ε : Type} (a : α) (f : α → Except ε β) : (Except.ok a >>= f) = f a :=
  rfl

@[simp] theorem map_ok {α β ε : Type} (f : α → β) (a : α) :
    f <$> (Except.ok a : Except ε α) = .ok (f a) := rfl

theorem skipSpace_of_not_isSpace {c : Char} (h : isSpace c = false) (cs : List Char) :
    skipSpace (c :: cs) = c :: cs := by
  simp [skipSpace, h]

/-! ## Numbers -/

theorem le_ofDigitChars (ds : List Char) (n : Nat) : n ≤ Nat.ofDigitChars 10 ds n := by
  induction ds generalizing n with
  | nil => exact Nat.le_refl n
  | cons d ds ih =>
    rw [Nat.ofDigitChars_cons]
    have := ih (10 * n + (d.toNat - '0'.toNat))
    omega

/-- Digits are taken into the significand as long as 64 bits hold it. -/
theorem absorb_of_le {ds : List Char} {n : Nat}
    (h : Nat.ofDigitChars 10 ds n ≤ maxSignificand) :
    absorb n ds = (Nat.ofDigitChars 10 ds n, []) := by
  induction ds generalizing n with
  | nil => rfl
  | cons d ds ih =>
    rw [Nat.ofDigitChars_cons] at h ⊢
    have hle := Nat.le_trans (le_ofDigitChars ds _) h
    rw [absorb, digitValue, if_pos hle]
    exact ih h

theorem isDigit_of_mem_natText {n : Nat} {c : Char} (h : c ∈ Number.natText n) :
    c.isDigit = true :=
  Nat.isDigit_of_mem_toDigits (by decide) (by decide) h

/-- Only zero begins with a zero. -/
theorem natText_of_pos {n : Nat} (h : 0 < n) :
    ∃ d ds, Number.natText n = d :: ds ∧ d ≠ '0' := by
  unfold Number.natText
  induction n using Nat.strongRecOn with
  | ind n ih =>
    rw [Nat.toDigits_eq_if (by decide)]
    split
    · refine ⟨n.digitChar, [], rfl, fun e => ?_⟩
      have := Nat.zero_eq_digitChar.mp e.symm
      omega
    · -- the digits in front are those of the tenth part
      obtain ⟨d, ds, hd, hne⟩ := ih (n / 10) (by omega) (by omega)
      exact ⟨d, ds ++ [(n % 10).digitChar], by rw [hd, List.cons_append], hne⟩

theorem takeWhile_digits {ds rest : List Char} (hd : ∀ c ∈ ds, c.isDigit = true)
    (hr : EndsMember rest) :
    (ds ++ rest).takeWhile Char.isDigit = ds ∧ (ds ++ rest).dropWhile Char.isDigit = rest := by
  obtain ⟨c, cs, rfl, hc⟩ := hr
  have hstop : c.isDigit = false := by rcases hc with rfl | rfl <;> rfl
  rw [List.takeWhile_append_of_pos hd, List.dropWhile_append_of_pos hd]
  simp [hstop]

theorem afterDigits_of_le {ds rest : List Char} (negative : Bool)
    (h : Nat.ofDigitChars 10 ds 0 ≤ maxSignificand) (hr : EndsMember rest) :
    afterDigits negative ds rest =
      .ok (wholeNumeral negative (Nat.ofDigitChars 10 ds 0), rest) := by
  obtain ⟨c, cs, rfl, hc⟩ := hr
  rw [afterDigits, absorb_of_le h]
  rcases hc with rfl | rfl <;> rfl

theorem numeral_natText {n : Nat} (hn : n ≤ maxSignificand) (negative : Bool) {rest : List Char}
    (hr : EndsMember rest) :
    numeral negative (Number.natText n ++ rest) = .ok (wholeNumeral negative n, rest) := by
  have hvalue : Nat.ofDigitChars 10 (Number.natText n) 0 = n := Nat.ofDigitChars_ten_toDigits
  have hle : Nat.ofDigitChars 10 (Number.natText n) 0 ≤ maxSignificand := by
    rw [hvalue]
    exact hn
  have hafter := afterDigits_of_le negative hle hr
  rw [hvalue] at hafter
  rcases Nat.eq_zero_or_pos n with rfl | hpos
  · -- a zero stands alone, and what follows it is not looked at as a digit
    obtain ⟨c, cs, rfl, hc⟩ := hr
    rcases hc with rfl | rfl <;> exact hafter
  · obtain ⟨d, ds, hd, hne⟩ := natText_of_pos hpos
    have hall : ∀ c ∈ Number.natText n, c.isDigit = true := fun _ hc => isDigit_of_mem_natText hc
    have hdigits := takeWhile_digits hall hr
    have hdigit : d.isDigit = true := isDigit_of_mem_natText (n := n) (by simp [hd])
    rw [hd] at hdigits hafter ⊢
    rw [List.cons_append] at hdigits ⊢
    unfold numeral
    split
    · next e => cases e
    · next e => exact absurd (List.cons.inj e).1 hne
    · next e =>
      obtain ⟨rfl, rfl⟩ := List.cons.inj e
      rw [if_pos hdigit, hdigits.1, hdigits.2, hafter]

theorem isSpace_of_isDigit {d : Char} (h : d.isDigit = true) : isSpace d = false := by
  have hd : 48 ≤ d.toNat := by
    simp only [Char.isDigit, Bool.and_eq_true, decide_eq_true_eq] at h
    exact h.1
  have hne : ∀ c : Char, c.toNat < 48 → d ≠ c := by
    rintro c hc rfl
    omega
  simp [isSpace, hne ' ' (by decide), hne '\n' (by decide), hne '\t' (by decide),
    hne '\r' (by decide)]

/-- A value that begins with a digit is a number. -/
theorem value_of_digit {d : Char} (h : d.isDigit = true) (n : Nat) (cs : List Char) :
    value n (d :: cs) = (numeral false (d :: cs)).map fun (x, rest) => (.number x, rest) := by
  unfold value
  rw [skipSpace_of_not_isSpace (isSpace_of_isDigit h)]
  split
  · next e => cases e
  · next e => cases e; cases h
  · next e => cases e; cases h
  · next e => cases e; cases h
  · next e => cases e; cases h
  · next e => cases e; cases h
  · next e => cases e; cases h
  · next e => cases e; cases h
  · next e =>
    cases e
    rw [if_pos h]
    cases numeral false (d :: cs) <;> rfl

theorem legible_nat {n : Nat} (hn : n ≤ maxSignificand) :
    Legible (Write.nat n) (.number (.integer n)) := by
  intro k rest hr
  have hread := numeral_natText hn false hr
  obtain ⟨d, ds, hd⟩ := List.exists_cons_of_ne_nil (Nat.toDigits_ne_nil (n := n) (b := 10))
  have hdigit : d.isDigit = true := isDigit_of_mem_natText (n := n) (by simp [Number.natText, hd])
  rw [Write.nat] at *
  rw [Number.natText, hd, List.cons_append] at hread ⊢
  rw [value_of_digit hdigit, hread]
  rfl

theorem value_minus (n : Nat) (cs : List Char) :
    value n ('-' :: cs) = (numeral true cs).map fun (x, rest) => (.number x, rest) := by
  unfold value
  rw [skipSpace_of_not_isSpace rfl]
  show (numeral true cs >>= fun (x, rest) => .ok (Content.number x, rest)) = _
  cases numeral true cs <;> rfl

/-- An integer of 64 bits; one that is not negative may have 64 bits without a sign. -/
theorem legible_int {i : Int} (hlow : Int64.minValue.toInt ≤ i) (hhigh : i ≤ maxSignificand) :
    Legible (Write.int i) (.number (.integer i)) := by
  unfold Write.int Number.intText
  split
  · next hneg =>
    intro n rest hr
    have hmin : Int64.minValue.toInt = -9223372036854775808 := by decide
    have hmax : maxSignificand = 18446744073709551615 := rfl
    have habs : -(i.natAbs : Int) = i := by omega
    have hwhole : wholeNumeral true i.natAbs = .integer i := by
      rw [wholeNumeral, if_neg (by decide), if_pos (by rw [habs]; omega), habs]
    rw [List.cons_append, value_minus, numeral_natText (by omega) true hr, hwhole]
    rfl
  · next hneg =>
    have habs : (i.natAbs : Int) = i := by omega
    have := legible_nat (n := i.natAbs) (by omega)
    rwa [habs] at this

theorem legible_boolean (b : Bool) : Legible (Write.boolean b) (.boolean b) := by
  intro n rest _
  unfold value
  cases b <;> rfl

/-! ## Strings -/

theorem hexNumber_fourDigits : ∀ n < 0x20, Text.hexNumber (Write.fourDigits n) = some n := by
  decide

/-- The escape of a control character is read back as that character. -/
theorem escape_control {c : Char} (h : c.toNat < 0x20) (rest : List Char) :
    escape ('u' :: Write.fourDigits c.toNat ++ rest) = .ok (c, rest) := by
  have hnumber := hexNumber_fourDigits c.toNat h
  have hhex : hexEscape (Write.fourDigits c.toNat ++ rest) = .ok (c.toNat, rest) := by
    rw [Write.fourDigits] at hnumber ⊢
    simp only [List.cons_append, List.nil_append, hexEscape, hnumber]
  -- so small a number is no half of a pair
  have htrail : isTrailingHalf c.toNat = false := by simp [isTrailingHalf]; omega
  have hlead : isLeadingHalf c.toNat = false := by simp [isLeadingHalf]; omega
  show unicodeEscape (Write.fourDigits c.toNat ++ rest) = _
  rw [unicodeEscape, hhex]
  show (if isTrailingHalf c.toNat then _ else _) = _
  rw [htrail, hlead, Char.ofNat_toNat]
  rfl

/-- What one character of a string is written as is read back as that character. -/
theorem stringRest_escaped (c : Char) (fuel : Nat) (seen rest : List Char) :
    stringRest (fuel + 1) seen (Write.escaped c ++ rest) = stringRest fuel (c :: seen) rest := by
  unfold Write.escaped
  split
  -- the short escapes are read as they stand
  all_goals try rfl
  next hquote hslash _ _ _ _ _ =>
    split
    · next h =>
      have hesc := escape_control h rest
      rw [List.cons_append, List.cons_append, stringRest]
      rw [List.cons_append] at hesc
      rw [hesc]
      rfl
    · next h =>
      rw [List.singleton_append, stringRest, if_neg h]
      · exact hquote
      · exact hslash

theorem stringRest_written (cs : List Char) (fuel : Nat) (seen rest : List Char)
    (h : cs.length < fuel) :
    stringRest fuel seen (cs.flatMap Write.escaped ++ '"' :: rest) =
      .ok (seen.reverse ++ cs, rest) := by
  induction cs generalizing fuel seen with
  | nil =>
    cases fuel with
    | zero => cases h
    | succ fuel => simp [stringRest]
  | cons c cs ih =>
    cases fuel with
    | zero => cases h
    | succ fuel =>
      rw [List.flatMap_cons, List.append_assoc, stringRest_escaped, ih _ _ (Nat.lt_of_succ_lt_succ h)]
      simp

theorem escaped_ne_nil (c : Char) : Write.escaped c ≠ [] := by
  unfold Write.escaped
  split <;> simp
  split <;> simp

theorem length_le_written (cs : List Char) : cs.length ≤ (cs.flatMap Write.escaped).length := by
  induction cs with
  | nil => exact Nat.le_refl _
  | cons c cs ih =>
    have := List.length_pos_iff.mpr (escaped_ne_nil c)
    rw [List.flatMap_cons, List.length_append, List.length_cons]
    omega

/-- A string is read back, whatever stands behind it. -/
theorem string_written (s : String) (rest : List Char) :
    string (s.toList.flatMap Write.escaped ++ '"' :: rest) = .ok (s, rest) := by
  have hlen := length_le_written s.toList
  rw [string, stringRest_written _ _ _ _ (by rw [List.length_append]; omega)]
  simp [bind, Except.bind]

theorem legible_text (s : String) : Legible (Write.text s) (.text s) := by
  intro n rest _
  rw [Write.text, List.cons_append, List.cons_append, List.append_assoc, List.singleton_append]
  unfold value
  rw [skipSpace_of_not_isSpace rfl]
  show (string _ >>= fun x => .ok (Content.text x.1, x.2)) = _
  rw [string_written]
  rfl

/-! ## One line -/

theorem newline_not_mem_escaped (c : Char) : '\n' ∉ Write.escaped c := by
  unfold Write.escaped
  split
  all_goals try decide
  next hnewline _ _ =>
    split
    · next h =>
      have key : ∀ n < 0x20, '\n' ∉ '\\' :: 'u' :: Write.fourDigits n := by decide
      exact key c.toNat h
    · next h =>
      rw [List.mem_singleton]
      exact fun e => hnewline e.symm

theorem newline_not_mem_text (s : String) : '\n' ∉ Write.text s := by
  have hbody : '\n' ∉ s.toList.flatMap Write.escaped := by
    rw [List.mem_flatMap]
    rintro ⟨c, -, hc⟩
    exact newline_not_mem_escaped c hc
  simp [Write.text, hbody]

theorem newline_not_mem_nat (n : Nat) : '\n' ∉ Write.nat n := by
  intro h
  cases isDigit_of_mem_natText h

theorem newline_not_mem_int (i : Int) : '\n' ∉ Write.int i := by
  have := newline_not_mem_nat i.natAbs
  unfold Write.int Number.intText
  split
  · simpa [Write.nat] using this
  · exact this

/-! ## Members -/

/-- A member of an object as it is written, and what it holds. -/
structure Member where
  key : String
  text : List Char
  content : Content
  legible : Legible text content
  oneLine : '\n' ∉ text

namespace Member

def ofText (key s : String) : Member :=
  ⟨key, Write.text s, .text s, legible_text s, newline_not_mem_text s⟩

def ofBoolean (key : String) (b : Bool) : Member :=
  ⟨key, Write.boolean b, .boolean b, legible_boolean b, by cases b <;> decide⟩

def ofNat (key : String) (n : Nat) (h : n ≤ maxSignificand) : Member :=
  ⟨key, Write.nat n, .number (.integer n), legible_nat h, newline_not_mem_nat n⟩

def ofInt (key : String) (i : Int) (hlow : Int64.minValue.toInt ≤ i) (hhigh : i ≤ maxSignificand) :
    Member :=
  ⟨key, Write.int i, .number (.integer i), legible_int hlow hhigh, newline_not_mem_int i⟩

def written (m : Member) : List Char := Write.member m.key m.text

theorem written_append (m : Member) (rest : List Char) :
    m.written ++ rest =
      '"' :: (m.key.toList.flatMap Write.escaped ++ '"' :: ':' :: (m.text ++ rest)) := by
  simp [written, Write.member, Write.text]

theorem newline_not_mem_written (m : Member) : '\n' ∉ m.written := by
  have hkey := newline_not_mem_text m.key
  have htext := m.oneLine
  simp [written, Write.member, hkey, htext]

end Member

theorem commaSeparated_cons (x : List Char) (xs : List (List Char)) :
    Write.commaSeparated (x :: xs) = x ++ xs.flatMap (',' :: ·) := by
  induction xs generalizing x with
  | nil => simp [Write.commaSeparated]
  | cons y ys ih =>
    rw [Write.commaSeparated, ih, List.flatMap_cons, List.cons_append]
    exact nofun

/-- What is written behind a member ends it. -/
theorem endsMember_written (ms : List Member) (rest : List Char) :
    EndsMember ((ms.map Member.written).flatMap (',' :: ·) ++ '}' :: rest) := by
  cases ms with
  | nil => exact ⟨_, _, rfl, .inr rfl⟩
  | cons m ms => exact ⟨_, _, rfl, .inl rfl⟩

theorem length_le_members (ms : List Member) :
    ms.length ≤ ((ms.map Member.written).flatMap (',' :: ·)).length := by
  induction ms with
  | nil => exact Nat.le_refl _
  | cons m ms ih =>
    simp only [List.map_cons, List.flatMap_cons, List.length_append, List.length_cons]
    omega

section

variable {σ : Type} {member : σ → String → Reader σ} {step : σ → Member → σ}

/-- The members of an object are read one after the other, if each is read alone. -/
theorem moreMembers_written (ms : List Member)
    (hmember : ∀ m ∈ ms, ∀ s rest, EndsMember rest →
      member s m.key (':' :: (m.text ++ rest)) = .ok (step s m, rest))
    (fuel : Nat) (s : σ) (rest : List Char) (hfuel : ms.length < fuel) :
    moreMembers member fuel s ((ms.map Member.written).flatMap (',' :: ·) ++ '}' :: rest) =
      .ok (ms.foldl step s, rest) := by
  induction ms generalizing fuel s with
  | nil =>
    cases fuel with
    | zero => cases hfuel
    | succ fuel => rfl
  | cons m ms ih =>
    cases fuel with
    | zero => cases hfuel
    | succ fuel =>
      have hrest := endsMember_written ms rest
      rw [List.map_cons, List.flatMap_cons, List.append_assoc, List.cons_append,
        m.written_append]
      show (string _ >>= fun x =>
        member s x.1 x.2 >>= fun y => moreMembers member fuel y.1 y.2) = _
      rw [string_written]
      show (member s m.key _ >>= fun y => moreMembers member fuel y.1 y.2) = _
      rw [hmember m List.mem_cons_self s _ hrest]
      exact ih (fun m' h => hmember m' (List.mem_cons_of_mem _ h)) fuel (step s m)
        (Nat.lt_of_succ_lt_succ hfuel)

/-- The first member may be read in a way of its own. -/
theorem members_written {m : Member} {ms : List Member} {s s' : σ}
    (hfirst : ∀ rest, EndsMember rest → member s m.key (':' :: (m.text ++ rest)) = .ok (s', rest))
    (hmember : ∀ m' ∈ ms, ∀ s rest, EndsMember rest →
      member s m'.key (':' :: (m'.text ++ rest)) = .ok (step s m', rest))
    (rest : List Char) :
    members member s (Write.commaSeparated ((m :: ms).map Member.written) ++ '}' :: rest) =
      .ok (ms.foldl step s', rest) := by
  have hrest := endsMember_written ms rest
  have hfuel : ms.length < ((ms.map Member.written).flatMap (',' :: ·) ++ '}' :: rest).length + 1 := by
    have := length_le_members ms
    rw [List.length_append]
    omega
  rw [List.map_cons, commaSeparated_cons, List.append_assoc, m.written_append]
  show (string _ >>= fun x =>
    member s x.1 x.2 >>= fun y => moreMembers member (y.2.length + 1) y.1 y.2) = _
  rw [string_written]
  show (member s m.key _ >>= fun y => moreMembers member (y.2.length + 1) y.1 y.2) = _
  rw [hfirst _ hrest]
  exact moreMembers_written ms hmember _ _ _ hfuel

end

end PromptGateway.Json
