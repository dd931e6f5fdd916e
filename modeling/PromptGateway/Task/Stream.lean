/-
  The output of one request.

  Fragments are appended at the end and read through a cursor that moves forward
  over them. A stream ends once; what comes after its end is refused. A stream
  that fails ends with a message, and the fragments that had not been read are
  passed over, so that the reader meets the failure next.

  What is proved: `fragments_append`, an open stream keeps every fragment and an
  ended one none; and `nextUnread_eq_none_iff`, there is nothing to read exactly
  when the cursor has reached the end.
-/

namespace PromptGateway

/-- The output of one request. -/
structure TokenStream where
  fragments : List String := []
  cursor : Nat := 0
  finished : Bool := false
  failure : Option String := none
  deriving DecidableEq, Repr

namespace TokenStream

/-- Appends a fragment, and whether the stream was still open for it. -/
def append (s : TokenStream) (fragment : String) : Bool × TokenStream :=
  if s.finished then (false, s)
  else (true, { s with fragments := s.fragments ++ [fragment] })

/-- Ends the stream. -/
def finish (s : TokenStream) : TokenStream := { s with finished := true }

/-- Ends the stream with a failure. Only the first message is kept, and the
unread fragments are passed over. -/
def fail (s : TokenStream) (message : String) : TokenStream :=
  { s with
    failure := some (s.failure.getD message)
    cursor := s.fragments.length
    finished := true }

/-- The next fragment, if there is one, and the stream after reading it. -/
def nextUnread (s : TokenStream) : Option (String × TokenStream) :=
  s.fragments[s.cursor]?.map fun f => (f, { s with cursor := s.cursor + 1 })

/-- Whether the stream has ended and everything in it has been read. -/
def isDrained (s : TokenStream) : Bool := s.finished && s.cursor == s.fragments.length

/-- Puts the cursor back to the first fragment. -/
def rewind (s : TokenStream) : TokenStream := { s with cursor := 0 }

theorem fragments_append (s : TokenStream) (f : String) :
    (s.append f).2.fragments = if s.finished then s.fragments else s.fragments ++ [f] := by
  unfold append; split <;> rfl

theorem nextUnread_eq_none_iff (s : TokenStream) :
    s.nextUnread = none ↔ s.fragments.length ≤ s.cursor := by
  simp [nextUnread]

end TokenStream

end PromptGateway
