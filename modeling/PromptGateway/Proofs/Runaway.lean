import PromptGateway.Proofs.RoundTrip

/-
  Lines that grow too long.

  A line whose text is longer than the largest message is refused. Where it comes in
  several chunks it is given up before it has ended, so that the buffer stays bounded, and
  then its bytes are gone from the buffer but its end is still to come.

    1. `feed_drainMessages_pieces`: what a stream says is what its lines say, each for
       itself: a fault each time the line was given up, and then its tail, which is the
       whole line if it was never given up.
    2. A line that is too long says no message if it was never given up
       (`message_of_overlong`).
    3. `overlong_line_extent`: nothing of a line that is too long is ever taken for a
       message, unless a chunk ended inside of it when more than the largest message had
       come, and what came after it was last given up reads as a message.
    4. `read_after_runaway`: any message at the end of a line that was given up is read.
-/

namespace PromptGateway

namespace Frame

/-- What a line says when it comes in one piece: nothing if it is blank, else a message or a
fault. -/
def message (line : Bytes) : List (Except DecodeError WireMessage) :=
  ((entry line).map (· >>= WireMessage.decode)).toList

/-- What is left of a line in the buffer when it ends. -/
def Line.tail (l : Line) : Bytes := (hold [] l.pieces).2 ++ l.last

/-- What a line says when it comes in pieces. -/
def Line.messages (l : Line) : List (Except DecodeError WireMessage) :=
  List.replicate (hold [] l.pieces).1 (.error .oversized) ++ message l.tail

/-- The text of a line, without the blanks around it, is longer than the largest message. -/
def Overlong (line : Bytes) : Prop :=
  ∃ s, line.text? = some s ∧ maxMessageBytes < Text.utf8Length (Text.trim s.toList)

/-! ## Line by line -/

theorem map_taken (l : Line) : (l.taken []).map (· >>= WireMessage.decode) = l.messages := by
  simp only [Line.taken, Line.messages, Line.tail, message, List.map_append, List.map_replicate]
  cases entry ((hold [] l.pieces).2 ++ l.last) <;> rfl

theorem feed_drainMessages_pieces (chunks : List Bytes) :
    feed drainMessages [] chunks =
      ((cut chunks).1.flatMap Line.messages ++
          List.replicate (hold [] (cut chunks).2).1 (.error .oversized),
        (hold [] (cut chunks).2).2) := by
  have hlines : ((cut chunks).1.flatMap (Line.taken [])).map (· >>= WireMessage.decode) =
      (cut chunks).1.flatMap Line.messages := by
    rw [List.map_flatMap]
    exact List.flatMap_congr fun l _ => map_taken l
  rw [feed_drainMessages, feed_drainLines_pieces chunks List.not_mem_nil, taken_eq]
  simp only [List.map_append, List.map_replicate, hlines]
  rfl

/-- A line that was never given up says what it says in one piece. -/
theorem messages_of_le {l : Line} (h : l.pieces.flatten.length ≤ maxMessageBytes) :
    l.messages = message l.bytes := by
  rw [Line.messages, Line.tail, hold_of_le h]
  rfl

theorem trim_ne_nil_of_long {cs : List Char}
    (h : maxMessageBytes < Text.utf8Length (Text.trim cs)) : Text.trim cs ≠ [] := by
  intro hnil
  rw [hnil] at h
  exact Nat.not_lt_zero _ h

theorem decode_trimEnd_of_long {s : String}
    (h : maxMessageBytes < Text.utf8Length (Text.trim s.toList)) :
    WireMessage.decode (String.ofList (Text.trimEnd s.toList)) = .error .oversized := by
  have hsome : (Text.trim s.toList).isEmpty = false :=
    List.isEmpty_eq_false_iff.mpr (trim_ne_nil_of_long h)
  unfold WireMessage.decode
  dsimp only
  rw [String.toList_ofList, Text.trim_trimEnd, hsome, if_neg (by decide), if_pos h]

theorem message_of_overlong {line : Bytes} (h : Overlong line) :
    message line = [.error .oversized] := by
  obtain ⟨s, htext, hlong⟩ := h
  have hblank : Text.isBlankText s.toList = false := by
    rw [Bool.eq_false_iff]
    exact fun hblank => trim_ne_nil_of_long hlong (Text.trim_of_isBlankText hblank)
  have hentry : entry line = some (.ok (String.ofList (Text.trimEnd s.toList))) := by
    simp [entry, htext, hblank]
  rw [message, hentry, Option.map_some, Option.toList_some, Json.ok_bind,
    decode_trimEnd_of_long hlong]

theorem ok_mem_messages_iff {l : Line} {m : WireMessage} :
    .ok m ∈ l.messages ↔ message l.tail = [.ok m] := by
  rw [Line.messages, List.mem_append, message]
  have hfault : .ok m ∉ List.replicate (hold [] l.pieces).1
      (.error .oversized : Except DecodeError WireMessage) := by
    intro h
    cases List.eq_of_mem_replicate h
  cases entry l.tail <;> simp [hfault, eq_comm]

/-! ## Overlong lines -/

/-- Of a line that is too long only faults come, unless it was given up and the tail that
came afterwards reads as a message of its own. -/
theorem ok_mem_overlong_iff {l : Line} (h : Overlong l.bytes) {m : WireMessage} :
    .ok m ∈ l.messages ↔
      maxMessageBytes < l.pieces.flatten.length ∧ message l.tail = [.ok m] := by
  refine ⟨fun hm => ⟨?_, ok_mem_messages_iff.mp hm⟩, fun hm => ok_mem_messages_iff.mpr hm.2⟩
  by_contra hshort
  rw [messages_of_le (Nat.le_of_not_lt hshort), message_of_overlong h] at hm
  simp at hm

theorem error_mem_overlong {l : Line} (h : Overlong l.bytes) :
    .error .oversized ∈ l.messages := by
  by_cases hlong : maxMessageBytes < l.pieces.flatten.length
  · have hpos := @hold_pos [] l.pieces (Nat.zero_le _) hlong
    exact List.mem_append_left _ (List.mem_replicate.mpr ⟨by omega, rfl⟩)
  · rw [messages_of_le (Nat.le_of_not_lt hlong), message_of_overlong h]
    exact List.mem_singleton_self _

/-- The same stream without one of its lines. -/
theorem exists_without {chunks : List Bytes} {before after : List Line} {l : Line}
    (h : (cut chunks).1 = before ++ l :: after) :
    ∃ without, cut without = (before ++ after, (cut chunks).2) := by
  have hbytes := cut_bytes chunks
  have hlines : ∀ l ∈ (cut chunks).1, newline ∉ l.bytes := by
    intro l hl
    refine newline_not_mem_lines chunks.flatten _ ?_
    rw [← hbytes]
    exact List.mem_map_of_mem hl
  have hpieces : ∀ p ∈ (cut chunks).2, newline ∉ p := by
    intro p hp hmem
    have hrest := newline_not_mem_rest chunks.flatten
    rw [← hbytes] at hrest
    exact hrest (List.mem_flatten.mpr ⟨p, hp, hmem⟩)
  have hne : (cut chunks).2 ≠ [] := by
    refine cut_rest_ne_nil ?_
    rintro rfl
    simp [cut] at h
  refine ⟨_, cut_chunksOf (fun l' hl' => hlines l' ?_) hpieces hne⟩
  rw [h]
  simp only [List.mem_append, List.mem_cons] at hl' ⊢
  exact hl'.imp_right .inr

/-! ## A message at the end of a line -/

theorem cut_whole {line : Bytes} (h : newline ∉ line) :
    cut [line ++ [newline]] = ([⟨[], line⟩], [[]]) := by
  rw [cut_cons, splitLines_line h]
  rfl

/-- A line that is too long and comes in one chunk. -/
theorem feed_of_overlong {line : Bytes} (hline : newline ∉ line) (hlong : Overlong line) :
    feed drainMessages [] [line ++ [newline]] = ([.error .oversized], []) := by
  rw [feed_drainMessages_pieces, cut_whole hline]
  simp [Line.messages, Line.tail, message_of_overlong hlong, hold]

theorem message_line {m : WireMessage} (hkind : m.kind ≠ .status)
    (hsize : Text.utf8Length m.line ≤ maxMessageBytes) :
    message (Bytes.ofChars m.line) = [.ok m] := by
  rw [message, m.entry_line, Option.map_some, Option.toList_some, Json.ok_bind,
    m.decode_line hkind hsize]

theorem trimEnd_append_line (cs : List Char) (m : WireMessage) :
    Text.trimEnd (cs ++ m.line) = cs ++ m.line := by
  induction cs with
  | nil => exact m.trimEnd_line
  | cons c cs ih =>
    have hne : (cs ++ m.line).isEmpty = false := by
      simp [WireMessage.line, Json.Write.object]
    rw [List.cons_append, Text.trimEnd_cons, ih, hne, if_neg (by decide)]

section Runaway

variable {c : Char} {cs : List Char} {m : WireMessage}

theorem overlong_append_line (hblank : Text.isBlank c = false)
    (hlong : maxMessageBytes < Text.utf8Length (c :: cs)) :
    Overlong (Bytes.ofChars (c :: cs) ++ Bytes.ofChars m.line) := by
  refine ⟨String.ofList (c :: (cs ++ m.line)), ?_, ?_⟩
  · rw [← Bytes.ofChars_append, List.cons_append, ← Bytes.text?_ofString, Bytes.ofString,
      String.toList_ofList]
  · rw [String.toList_ofList, Text.trim_cons, hblank, if_neg (by decide), ← List.cons_append,
      trimEnd_append_line, ← Text.length_ofChars, Bytes.ofChars_append, List.length_append,
      Text.length_ofChars]
    exact Nat.lt_of_lt_of_le hlong (Nat.le_add_right _ _)

theorem cut_append_line (hnewline : '\n' ∉ c :: cs) (hkind : m.kind ≠ .status) :
    cut [Bytes.ofChars (c :: cs), m.encode] =
      ([⟨[Bytes.ofChars (c :: cs)], Bytes.ofChars m.line⟩], [[]]) := by
  have hline : newline ∉ Bytes.ofChars m.line :=
    newline_not_mem_ofChars (m.newline_not_mem_line hkind)
  have hencode : m.encode = Bytes.ofChars m.line ++ [newline] := rfl
  rw [cut_piece (newline_not_mem_ofChars hnewline), hencode, cut_whole hline]
  rfl

/-- A message at the end of a line that was given up is read, although the line is only
refused when it comes in one chunk. -/
theorem read_after_runaway (hblank : Text.isBlank c = false) (hnewline : '\n' ∉ c :: cs)
    (hlong : maxMessageBytes < Text.utf8Length (c :: cs)) (hkind : m.kind ≠ .status)
    (hsize : Text.utf8Length m.line ≤ maxMessageBytes) :
    let runaway := Bytes.ofChars (c :: cs)
    let line := runaway ++ Bytes.ofChars m.line
    splitLines (runaway ++ m.encode) = ([line], []) ∧ Overlong line ∧
      feed drainMessages [] [runaway, m.encode] = ([.error .oversized, .ok m], []) ∧
      feed drainMessages [] [runaway ++ m.encode] = ([.error .oversized], []) := by
  intro runaway line
  have hline : newline ∉ line := by
    rw [List.mem_append, not_or]
    exact ⟨newline_not_mem_ofChars hnewline, newline_not_mem_ofChars (m.newline_not_mem_line hkind)⟩
  have hbytes : runaway ++ m.encode = line ++ [newline] := (List.append_assoc _ _ _).symm
  have hoverlong : Overlong line := overlong_append_line hblank hlong
  refine ⟨?_, hoverlong, ?_, ?_⟩
  · rw [hbytes, splitLines_line hline]
    rfl
  · have hhold : hold [] [runaway] = (1, []) := by
      rw [hold, List.nil_append, if_pos (by rwa [Text.length_ofChars])]
      rfl
    rw [feed_drainMessages_pieces, cut_append_line hnewline hkind]
    simp [runaway, Line.messages, Line.tail, hhold, message_line hkind hsize, hold_of_le]
  · rw [hbytes]
    exact feed_of_overlong hline hoverlong

end Runaway

theorem utf8Length_replicate (n : Nat) : Text.utf8Length (List.replicate n 'a') = n := by
  induction n with
  | zero => rfl
  | succ n ih =>
    rw [List.replicate_succ, Text.utf8Length_cons, ih]
    exact Nat.add_comm 1 n

/-- One letter more than fits into a message. -/
def letters : List Char := 'a' :: List.replicate maxMessageBytes 'a'

theorem lt_utf8Length_letters : maxMessageBytes < Text.utf8Length letters := by
  rw [letters, Text.utf8Length_cons, utf8Length_replicate]
  exact Nat.lt_add_of_pos_left (by decide)

theorem newline_not_mem_letters : '\n' ∉ letters := by
  simp [letters]

/-- What becomes of a line that is too long. For every stream and every way of cutting it into
chunks: what is taken out of the buffer is what the lines of the stream say, one after the
other, and nothing but faults for what follows the last. So the lines around a line that is
too long say what they say in the same stream without it. The line itself is answered with a
fault; it says a message exactly if a chunk ended inside of it when more than the largest
message had come, and its tail, the end of it that came after it was last given up, reads as
that message. -/
theorem overlong_line_extent (chunks : List Bytes) (before after : List Line) (l : Line)
    (hcut : (cut chunks).1 = before ++ l :: after) (hlong : Overlong l.bytes) :
    (splitLines chunks.flatten).1 = before.map Line.bytes ++ l.bytes :: after.map Line.bytes ∧
    (∃ faults buffer without,
      cut without = (before ++ after, (cut chunks).2) ∧
      feed drainMessages [] chunks =
        (before.flatMap Line.messages ++ l.messages ++ after.flatMap Line.messages ++
          List.replicate faults (.error .oversized), buffer) ∧
      feed drainMessages [] without =
        (before.flatMap Line.messages ++ after.flatMap Line.messages ++
          List.replicate faults (.error .oversized), buffer)) ∧
    .error .oversized ∈ l.messages ∧
    l.tail <:+ l.bytes ∧
    ∀ m, .ok m ∈ l.messages ↔
      maxMessageBytes < l.pieces.flatten.length ∧ message l.tail = [.ok m] := by
  have hlines : (splitLines chunks.flatten).1 = (cut chunks).1.map Line.bytes := by
    rw [← cut_bytes]
  have htail : l.tail <:+ l.bytes := by
    obtain ⟨given, h⟩ := hold_suffix [] l.pieces
    refine ⟨given, ?_⟩
    rw [Line.tail, Line.bytes, ← List.append_assoc, h, List.nil_append]
  refine ⟨?_, ?_, error_mem_overlong hlong, htail, fun m => ok_mem_overlong_iff hlong⟩
  · rw [hlines, hcut, List.map_append, List.map_cons]
  · obtain ⟨without, hwithout⟩ := exists_without hcut
    refine ⟨(hold [] (cut chunks).2).1, (hold [] (cut chunks).2).2, without, hwithout, ?_, ?_⟩
    · rw [feed_drainMessages_pieces, hcut]
      simp
    · rw [feed_drainMessages_pieces, hwithout]
      simp

/-- Letters and a heartbeat. -/
theorem overlong_line_extent_letters :
    let l : Line := ⟨[Bytes.ofChars letters], Bytes.ofChars WireMessage.heartbeat.line⟩
    (cut [Bytes.ofChars letters, WireMessage.heartbeat.encode]).1 = [l] ∧ Overlong l.bytes ∧
      .error .oversized ∈ l.messages ∧
      (.ok .heartbeat ∈ l.messages ↔
        maxMessageBytes < l.pieces.flatten.length ∧ message l.tail = [.ok .heartbeat]) := by
  intro l
  have hcut : (cut [Bytes.ofChars letters, WireMessage.heartbeat.encode]).1 = [l] :=
    congrArg Prod.fst (cut_append_line newline_not_mem_letters (by decide))
  have hlong : Overlong l.bytes := by
    rw [Line.bytes, List.flatten_singleton]
    exact overlong_append_line (by decide) lt_utf8Length_letters
  obtain ⟨-, -, hfault, -, hread⟩ := overlong_line_extent _ [] [] l hcut hlong
  exact ⟨hcut, hlong, hfault, hread .heartbeat⟩

/-- The heartbeat is read, although the line is only refused when it comes in one chunk. -/
theorem overlong_line_tail_read :
    let line := Bytes.ofChars letters ++ Bytes.ofChars WireMessage.heartbeat.line
    splitLines (Bytes.ofChars letters ++ WireMessage.heartbeat.encode) = ([line], []) ∧
      Overlong line ∧
      feed drainMessages [] [Bytes.ofChars letters, WireMessage.heartbeat.encode] =
        ([.error .oversized, .ok .heartbeat], []) ∧
      feed drainMessages [] [Bytes.ofChars letters ++ WireMessage.heartbeat.encode] =
        ([.error .oversized], []) :=
  read_after_runaway (by decide) newline_not_mem_letters lt_utf8Length_letters (by decide)
    (by decide)

end Frame

end PromptGateway
