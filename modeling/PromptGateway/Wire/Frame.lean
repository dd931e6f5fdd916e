import PromptGateway.Wire.Codec

/-
  Lines in a stream of bytes.

  Bytes arrive in chunks of any size and are kept in a buffer. `drainLines`
  takes every complete line out of the buffer and leaves the bytes after the
  last newline for the next chunk. A blank line is nothing; a line that is not
  UTF-8 is a fault of that line alone. A line that grows beyond the largest
  message without having ended is given up, so the buffer stays bounded.

  What is proved: `splitLines_join`, no byte is lost or moved by the splitting,
  and `newline_not_mem_rest`, what stays in the buffer is an unfinished line.
-/

namespace PromptGateway

/-- The byte that ends a line. -/
def newline : UInt8 := 10

namespace Frame

/-- One byte in front of a stream that has been split: its complete lines, and
what follows the last of them. -/
def prepend (b : UInt8) : List Bytes × Bytes → List Bytes × Bytes
  | (lines, rest) =>
    if b = newline then ([] :: lines, rest)
    else match lines with
      | [] => ([], b :: rest)
      | l :: ls => ((b :: l) :: ls, rest)

/-- The complete lines of a stream, without their newlines, and what follows
the last newline. -/
def splitLines (stream : Bytes) : List Bytes × Bytes := stream.foldr prepend ([], [])

/-- What a complete line is: nothing when it is blank, else its text without the
blanks at its end, or a fault. -/
def entry (line : Bytes) : Option (Except DecodeError String) :=
  match line.text? with
  | none => some (.error .invalidUtf8)
  | some s =>
    if Text.isBlankText s.toList then none
    else some (.ok (String.ofList (Text.trimEnd s.toList)))

/-- Takes the complete lines out of a buffer. -/
def drainLines (buffer : Bytes) : List (Except DecodeError String) × Bytes :=
  let (lines, rest) := splitLines buffer
  let entries := lines.filterMap entry
  if maxMessageBytes < rest.length then (entries ++ [.error .oversized], []) else (entries, rest)

/-- Takes the complete lines out of a buffer and reads each as a message. -/
def drainMessages (buffer : Bytes) : List (Except DecodeError WireMessage) × Bytes :=
  let (entries, rest) := drainLines buffer
  (entries.map (· >>= WireMessage.decode), rest)

/-- The stream that splits into given lines and a rest. -/
def join (lines : List Bytes) (rest : Bytes) : Bytes :=
  lines.foldr (fun l s => l ++ newline :: s) rest

theorem splitLines_join (stream : Bytes) :
    join (splitLines stream).1 (splitLines stream).2 = stream := by
  induction stream with
  | nil => rfl
  | cons b stream ih =>
    have step : splitLines (b :: stream) = prepend b (splitLines stream) := rfl
    rw [step]
    rcases h : splitLines stream with ⟨lines, rest⟩
    rw [h] at ih
    simp only [prepend]
    split
    · subst b
      simpa [join] using ih
    · cases lines with
      | nil => simpa [join] using ih
      | cons l ls => simpa [join] using ih

theorem newline_not_mem_rest (stream : Bytes) : newline ∉ (splitLines stream).2 := by
  induction stream with
  | nil => simp [splitLines]
  | cons b stream ih =>
    have step : splitLines (b :: stream) = prepend b (splitLines stream) := rfl
    rw [step]
    rcases h : splitLines stream with ⟨lines, rest⟩
    rw [h] at ih
    simp only [prepend]
    split
    · exact ih
    · next hb =>
      cases lines with
      | nil => simpa [List.mem_cons, not_or] using ⟨fun e => hb e.symm, ih⟩
      | cons l ls => exact ih

end Frame

end PromptGateway
