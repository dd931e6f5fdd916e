import PromptGateway.Proofs.Numerals
import PromptGateway.Proofs.Sizes

/-
  How long a report about a malformed line can be.

  The wording of a fault is fixed, or it shows a value of the document: a string between quotes
  with what cannot be printed as a number, an integer, a floating point number, or the name of a
  variant as it stands. The report is itself written as a string, so a backslash in it is doubled.

    1. `bodySize` is what a string takes between the quotes of a line. A string that is quoted in
       another one takes at most seven times as much (`Text.bodySize_quoted_le`).
    2. A value is shown in a few hundred bytes more than that (`bodySize_describe_le`), since a
       number of 64 bits has at most about three hundred digits.
    3. So every cause has a brief wording if what it quotes is as short as the document
       (`Cause.Brief`), and so has the place that is named with it (`bodySize_located_le`).
-/

namespace PromptGateway

open Json (Cause Content Fault Found Reader Slot written)
open Text (utf8Length)

/-! ## Texts -/

/-- The bytes of a string between its quotes. -/
def bodySize (s : String) : Nat := written s.toList

theorem bodySize_append (s t : String) : bodySize (s ++ t) = bodySize s + bodySize t := by
  rw [bodySize, String.toList_append, Json.written_append]
  rfl

theorem textSize_eq_bodySize (s : String) : textSize s = bodySize s + 2 := textSize_eq s

theorem bodySize_nat_le {k e : Nat} (he : 0 < e) (hk : k < 10 ^ e) : bodySize (toString k) ≤ e := by
  rw [bodySize, Nat.toString_eq_ofList_toDigits, String.toList_ofList]
  show written (Number.natText k) ≤ e
  rw [Number.written_natText]
  exact (Number.length_natText_le_iff he).mpr hk

namespace Text

theorem length_le_utf8Length (cs : List Char) : cs.length ≤ utf8Length cs := by
  induction cs with
  | nil => exact Nat.le_refl _
  | cons c cs ih =>
    have hsize := c.utf8Size_pos
    rw [List.length_cons, utf8Length_cons]
    omega

/-- A hexadecimal digit is written as it is. -/
theorem written_hexDigits (n : Nat) : written (hexDigits n) = (hexDigits n).length := by
  have hdigit : ∀ k < 16, utf8Length (Json.Write.escaped (Nat.digitChar k)) = 1 := by decide
  unfold hexDigits
  induction n using Nat.strongRecOn with
  | ind n ih =>
    rw [Nat.toDigits_eq_if (by decide)]
    split
    · next h =>
      rw [Json.written_cons, hdigit n h]
      rfl
    · rw [Json.written_append, ih (n / 16) (by omega), Json.written_cons,
        hdigit (n % 16) (Nat.mod_lt _ (by decide)), List.length_append]
      rfl

/-- A character that is quoted takes at most seven times what it takes by itself: a single byte
may be shown by a number of two digits, with a backslash that is doubled and braces. -/
theorem written_quotedChar_le (c : Char) :
    written (quotedChar c) ≤ 7 * utf8Length (Json.Write.escaped c) := by
  have hpos : 1 ≤ utf8Length (Json.Write.escaped c) := by
    obtain ⟨d, ds, hd⟩ := List.exists_cons_of_ne_nil (Json.escaped_ne_nil c)
    rw [hd, utf8Length_cons]
    exact Nat.le_trans d.utf8Size_pos (Nat.le_add_right _ _)
  have hnumber : written (['\\', 'u', '{'] ++ hexDigits c.toNat ++ ['}']) =
      5 + (hexDigits c.toNat).length := by
    have hfront : written ['\\', 'u', '{'] = 4 := by decide
    have hback : written ['}'] = 1 := by decide
    rw [Json.written_append, Json.written_append, written_hexDigits, hfront, hback]
    omega
  have hlength : ∀ e, 0 < e → c.toNat < 16 ^ e → (hexDigits c.toNat).length ≤ e := fun e he h =>
    (Nat.length_toDigits_le_iff (by decide) he).mpr h
  unfold quotedChar
  split
  · decide
  · decide
  · decide
  · decide
  · decide
  · next hquote hslash _ _ _ =>
    split
    · exact Nat.le_trans (by decide) (Nat.mul_le_mul_left 7 hpos)
    · split
      · rw [Json.written_cons]
        show utf8Length (Json.Write.escaped c) + 0 ≤ _
        omega
      · rw [hnumber]
        by_cases hascii : c.toNat < 0x80
        · have := hlength 2 (by decide) (by omega)
          omega
        · -- two bytes at least, and six digits at most
          have hsize : 2 ≤ c.utf8Size := by
            have hone : c.utf8Size ≠ 1 := fun h =>
              hascii (Nat.lt_succ_of_le (Char.utf8Size_eq_one_iff.mp h))
            have := c.utf8Size_pos
            omega
          have hself : utf8Length (Json.Write.escaped c) = c.utf8Size := by
            rw [Json.escaped_of_plain hquote hslash (by omega), utf8Length_cons, utf8Length_nil,
              Nat.add_zero]
          have hcode : c.toNat < 16 ^ 6 := by
            rcases c.valid with h | h
            · exact Nat.lt_trans h (by decide)
            · exact Nat.lt_trans h.2 (by decide)
          have := hlength 6 (by decide) hcode
          omega

theorem bodySize_quoted_le (s : String) : bodySize (quoted s) ≤ 7 * bodySize s + 4 := by
  have hflat : ∀ cs : List Char, written (cs.flatMap quotedChar) ≤ 7 * written cs := by
    intro cs
    induction cs with
    | nil => exact Nat.le_refl _
    | cons c cs ih =>
      have hc := written_quotedChar_le c
      rw [List.flatMap_cons, Json.written_append, Json.written_cons]
      omega
  have hquote : written ['"'] = 2 := by decide
  have hbody := hflat s.toList
  rw [bodySize, quoted, String.toList_ofList, Json.written_append, Json.written_append, hquote,
    bodySize]
  omega

end Text

/-! ## Wordings -/

namespace Json

variable {n : Nat} {c : Content} {wanted : String}

/-- A number, if it is one, of 64 bits. -/
def Content.Moderate (c : Content) : Prop := ∀ x, c = .number x → x.Moderate

/-- A value that a report may show: a number of 64 bits, or a string that takes no more than `n`
bytes where it is written. -/
structure Content.Quotable (n : Nat) (c : Content) : Prop where
  number : c.Moderate
  weight : c.weight ≤ n

/-- A cause that quotes nothing. -/
def Cause.Plain : Cause → Prop
  | .mismatch _ _ | .outOfRange _ _ | .wrongLength _ _ | .missingField _ | .duplicateField _
  | .unknownVariant _ _ => False
  | _ => True

/-- A cause with a short wording, as documents of `n` bytes go. -/
def Cause.Brief (n : Nat) (cause : Cause) : Prop := bodySize cause.message ≤ 7 * n + 410

theorem Cause.Plain.brief {cause : Cause} (h : cause.Plain) : cause.Brief n := by
  refine Nat.le_trans ?_ (Nat.le_add_left 410 (7 * n))
  cases cause with
  | endOfInput inside => cases inside <;> decide
  | mismatch found wanted => exact h.elim
  | outOfRange value wanted => exact h.elim
  | wrongLength length wanted => exact h.elim
  | missingField name => exact h.elim
  | duplicateField name => exact h.elim
  | unknownVariant name known => exact h.elim
  | _ => decide

theorem bodySize_describe_le (h : c.Quotable n) : bodySize c.found.describe ≤ 7 * n + 344 := by
  have hweight := h.weight
  cases c with
  | null => exact Nat.le_trans (by decide) (Nat.le_add_left 344 _)
  | boolean b => cases b <;> exact Nat.le_trans (by decide) (Nat.le_add_left 344 _)
  | number x =>
    have hx := h.number x rfl
    have hclose : bodySize "`" = 1 := by decide
    cases x with
    | integer k =>
      have hopen : bodySize "integer `" = 9 := by decide
      have hk : bodySize (toString k) ≤ 21 := written_integer_le hx
      show bodySize ("integer `" ++ toString k ++ "`") ≤ _
      rw [bodySize_append, bodySize_append]
      omega
    | float y =>
      have hopen : bodySize "floating point `" = 16 := by decide
      have hy : bodySize (Found.floatText y) ≤ 327 := Number.written_floatText_le hx
      show bodySize ("floating point `" ++ Found.floatText y ++ "`") ≤ _
      rw [bodySize_append, bodySize_append]
      omega
  | text s =>
    have hopen : bodySize "string " = 7 := by decide
    have hquoted := Text.bodySize_quoted_le s
    have hs : bodySize s + 2 ≤ n := (utf8Length_text s).symm.trans_le hweight
    show bodySize ("string " ++ Text.quoted s) ≤ _
    rw [bodySize_append]
    omega
  | list xs =>
    have hsequence : bodySize "sequence" ≤ 344 := by decide
    exact Nat.le_trans hsequence (Nat.le_add_left ..)
  | object ms =>
    have hmap : bodySize "map" ≤ 344 := by decide
    exact Nat.le_trans hmap (Nat.le_add_left ..)

theorem brief_mismatch (h : c.Quotable n) (hwanted : bodySize wanted ≤ 41) :
    (Cause.mismatch c.found wanted).Brief n := by
  have hopen : bodySize "invalid type: " = 14 := by decide
  have hmiddle : bodySize ", expected " = 11 := by decide
  have hfound := bodySize_describe_le h
  show bodySize ("invalid type: " ++ c.found.describe ++ ", expected " ++ wanted) ≤ _
  rw [bodySize_append, bodySize_append, bodySize_append]
  omega

theorem brief_outOfRange {k : Int} (hk : k.natAbs ≤ maxSignificand)
    (hwanted : bodySize wanted ≤ 41) : (Cause.outOfRange k wanted).Brief n := by
  have hopen : bodySize "invalid value: integer `" = 24 := by decide
  have hmiddle : bodySize "`, expected " = 12 := by decide
  have htext : bodySize (toString k) ≤ 21 := written_integer_le hk
  show bodySize ("invalid value: integer `" ++ toString k ++ "`, expected " ++ wanted) ≤ _
  rw [bodySize_append, bodySize_append, bodySize_append]
  omega

theorem brief_wrongLength {k : Nat} (hk : k < 10 ^ 6) (hwanted : bodySize wanted ≤ 41) :
    (Cause.wrongLength k wanted).Brief n := by
  have hopen : bodySize "invalid length " = 15 := by decide
  have hmiddle : bodySize ", expected " = 11 := by decide
  have htext := bodySize_nat_le (by decide) hk
  show bodySize ("invalid length " ++ toString k ++ ", expected " ++ wanted) ≤ _
  rw [bodySize_append, bodySize_append, bodySize_append]
  omega

theorem brief_missingField {name : String} (hname : bodySize name ≤ 41) :
    (Cause.missingField name).Brief n := by
  have hopen : bodySize "missing field `" = 15 := by decide
  have hclose : bodySize "`" = 1 := by decide
  show bodySize ("missing field `" ++ name ++ "`") ≤ _
  rw [bodySize_append, bodySize_append]
  omega

theorem brief_duplicateField {name : String} (hname : bodySize name ≤ 41) :
    (Cause.duplicateField name).Brief n := by
  have hopen : bodySize "duplicate field `" = 17 := by decide
  have hclose : bodySize "`" = 1 := by decide
  show bodySize ("duplicate field `" ++ name ++ "`") ≤ _
  rw [bodySize_append, bodySize_append]
  omega

/-- The name of a variant is quoted as it is. -/
theorem brief_unknownVariant {s : String} (h : (Content.text s).Quotable n) {known : List String}
    (hknown : bodySize (Cause.choices known) ≤ 100) : (Cause.unknownVariant s known).Brief n := by
  have hopen : bodySize "unknown variant `" = 17 := by decide
  have hmiddle : bodySize "`, expected one of " = 19 := by decide
  have hs : bodySize s + 2 ≤ n := (utf8Length_text s).symm.trans_le h.weight
  show bodySize ("unknown variant `" ++ s ++ "`, expected one of " ++ Cause.choices known) ≤ _
  rw [bodySize_append, bodySize_append, bodySize_append]
  omega

end Json

/-! ## Places -/

/-- A line and a column are no more than what has been read. -/
theorem Json.Position.after_le (bytes : Bytes) :
    (Position.after bytes).line ≤ 1 + bytes.length ∧
      (Position.after bytes).column ≤ bytes.length := by
  suffices key : ∀ (bs : Bytes) (p : Position),
      (bs.foldl (fun p b => if b = 10 then ⟨p.line + 1, 0⟩ else ⟨p.line, p.column + 1⟩) p).line ≤
        p.line + bs.length ∧
      (bs.foldl (fun p b => if b = 10 then ⟨p.line + 1, 0⟩ else ⟨p.line, p.column + 1⟩)
        p).column ≤ p.column + bs.length by
    have h := key bytes ⟨1, 0⟩
    rwa [Nat.zero_add] at h
  intro bs
  induction bs with
  | nil => exact fun p => ⟨Nat.le_refl _, Nat.le_refl _⟩
  | cons b bs ih =>
    intro p
    have hnext : (if b = 10 then (⟨p.line + 1, 0⟩ : Position)
          else ⟨p.line, p.column + 1⟩).line ≤ p.line + 1 ∧
        (if b = 10 then (⟨p.line + 1, 0⟩ : Position)
          else ⟨p.line, p.column + 1⟩).column ≤ p.column + 1 := by
      split
      · exact ⟨Nat.le_refl _, Nat.zero_le _⟩
      · exact ⟨Nat.le_succ _, Nat.le_refl _⟩
    obtain ⟨hline, hcolumn⟩ := ih (if b = 10 then ⟨p.line + 1, 0⟩ else ⟨p.line, p.column + 1⟩)
    rw [List.foldl_cons, List.length_cons]
    exact ⟨by omega, by omega⟩

/-- A refusal is worded by its cause and its place. -/
theorem bodySize_located_le {f : Fault} {cs : List Char} {n : Nat} (h : f.cause.Brief n)
    (hcs : utf8Length cs ≤ maxMessageBytes) :
    bodySize (f.locate cs).message ≤ 7 * n + 439 := by
  have hcause : bodySize f.cause.message ≤ 7 * n + 410 := h
  unfold Fault.locate Json.Error.message
  cases f.left with
  | none => exact Nat.le_trans hcause (Nat.add_le_add_left (by decide) _)
  | some left =>
    have hat : bodySize " at line " = 9 := by decide
    have hcolumn : bodySize " column " = 8 := by decide
    dsimp only [Option.map_some]
    generalize hbytes : (Bytes.ofChars cs).take ((Bytes.ofChars cs).length - left) = bytes
    have hlength : bytes.length ≤ maxMessageBytes := by
      rw [← hbytes]
      refine Nat.le_trans (List.length_take_le _ _) (Nat.le_trans (Nat.sub_le ..) ?_)
      rwa [Text.length_ofChars]
    obtain ⟨hl, hc⟩ := Json.Position.after_le bytes
    have hceiling : maxMessageBytes = 65536 := rfl
    have hline : bodySize (toString (Json.Position.after bytes).line) ≤ 6 :=
      bodySize_nat_le (by decide) (by omega)
    have hplace : bodySize (toString (Json.Position.after bytes).column) ≤ 6 :=
      bodySize_nat_le (by decide) (by omega)
    show bodySize (f.cause.message ++ " at line " ++ toString (Json.Position.after bytes).line ++
      " column " ++ toString (Json.Position.after bytes).column) ≤ _
    rw [bodySize_append, bodySize_append, bodySize_append, bodySize_append]
    omega

end PromptGateway
