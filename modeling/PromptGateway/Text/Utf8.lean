/-
  Bytes and text.

  What travels on a connection is a list of bytes; what a line says is a text.
  `Bytes.ofChars` writes a text as UTF-8 and `Bytes.text?` reads it back,
  refusing what is not UTF-8. The two are inverse (`text?_ofString`), and the
  length of a written text is `utf8Length`.
-/

namespace PromptGateway

/-- What travels on a connection. -/
abbrev Bytes := List UInt8

namespace Text

/-- The number of bytes a text takes in UTF-8. -/
def utf8Length (cs : List Char) : Nat := cs.foldl (fun n c => n + c.utf8Size) 0

end Text

namespace Bytes

/-- A text in UTF-8. -/
def ofChars (cs : List Char) : Bytes := cs.flatMap String.utf8EncodeChar

/-- A string in UTF-8. -/
def ofString (s : String) : Bytes := ofChars s.toList

/-- The text that bytes hold, none where they are not UTF-8. -/
def text? (b : Bytes) : Option String := String.fromUTF8? b.toByteArray

theorem ofChars_append (a b : List Char) : ofChars (a ++ b) = ofChars a ++ ofChars b := by
  simp [ofChars, List.flatMap_append]

theorem toByteArray_ofString (s : String) : (ofString s).toByteArray = s.toByteArray := by
  have := String.utf8Encode_toList (b := s)
  simpa [ofString, ofChars, List.utf8Encode] using this

theorem text?_ofString (s : String) : text? (ofString s) = some s := by
  unfold text? String.fromUTF8?
  rw [toByteArray_ofString, dif_pos s.isValidUTF8]
  rfl

/-- Bytes hold a text exactly if they are that text as it is written. -/
theorem text?_eq_some_iff {b : Bytes} {s : String} : b.text? = some s ↔ b = ofString s := by
  constructor
  · intro h
    unfold text? String.fromUTF8? at h
    split at h
    · cases h
      exact (List.toByteArray_inj.mp (toByteArray_ofString _)).symm
    · cases h
  · rintro rfl
    exact text?_ofString s

end Bytes

namespace Text

theorem foldl_utf8Size (cs : List Char) (n : Nat) :
    cs.foldl (fun n c => n + c.utf8Size) n = n + utf8Length cs := by
  induction cs generalizing n with
  | nil => rfl
  | cons c cs ih =>
    simp only [utf8Length, List.foldl_cons]
    rw [ih, ih (0 + c.utf8Size)]
    omega

@[simp] theorem utf8Length_nil : utf8Length [] = 0 := rfl

@[simp] theorem utf8Length_cons (c : Char) (cs : List Char) :
    utf8Length (c :: cs) = c.utf8Size + utf8Length cs := by
  rw [utf8Length, List.foldl_cons, foldl_utf8Size, Nat.zero_add]

/-- `utf8Length` counts the bytes that are written. -/
theorem length_ofChars (cs : List Char) : (Bytes.ofChars cs).length = utf8Length cs := by
  induction cs with
  | nil => rfl
  | cons c cs ih =>
    rw [Bytes.ofChars, List.flatMap_cons, List.length_append, String.length_utf8EncodeChar,
      utf8Length_cons]
    exact congrArg _ ih

end Text

end PromptGateway
