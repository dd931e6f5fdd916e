import PromptGateway.Wire.Frame
import Mathlib.Data.List.Basic

/-
  Lines that arrive in pieces.

  A connection brings its stream in chunks that have nothing to do with the lines in it.
  `Frame.feed` is what becomes of a buffer meanwhile: each chunk is put at its end, and
  the complete lines are taken out at once.

    1. A stream splits into lines and a rest in one way only (`splitLines_of_join`). So to
       split it in two goes, keeping the rest of the first for the second, is to split it
       at once (`splitLines_append`).
    2. The end of a chunk cuts the line it falls into. `Frame.cut` is the lines of the
       stream with their pieces (`cut_bytes`), and any lines in any pieces may come
       (`cut_chunksOf`).
    3. `feed_drainLines_pieces`: what is taken out of the buffer is the lines one after the
       other, each as its own pieces have left it (`Frame.hold`). A line is given up when
       more than the largest message of it has come and a chunk ends (`hold_pos`), and what
       then comes of it begins a line of its own.
    4. `feed_drainLines`: as long as no line and no rest is longer than the largest
       message, it makes no difference where a stream was cut.
-/

namespace PromptGateway

namespace Frame

/-- Chunks that arrive one after the other, drained after each: everything that is taken
out of the buffer, and the buffer at the end. -/
def feed {α : Type} (drain : Bytes → List α × Bytes) : Bytes → List Bytes → List α × Bytes
  | buffer, [] => ([], buffer)
  | buffer, chunk :: chunks =>
    let (got, rest) := drain (buffer ++ chunk)
    let (more, rest) := feed drain rest chunks
    (got ++ more, rest)

theorem feed_concat {α : Type} (drain : Bytes → List α × Bytes) (buffer : Bytes)
    (chunks : List Bytes) (chunk : Bytes) :
    feed drain buffer (chunks ++ [chunk]) =
      ((feed drain buffer chunks).1 ++ (drain ((feed drain buffer chunks).2 ++ chunk)).1,
        (drain ((feed drain buffer chunks).2 ++ chunk)).2) := by
  induction chunks generalizing buffer with
  | nil => simp [feed]
  | cons c chunks ih => simp [feed, ih]

/-! ## One splitting -/

theorem splitLines_of_not_mem {rest : Bytes} (h : newline ∉ rest) :
    splitLines rest = ([], rest) := by
  induction rest with
  | nil => rfl
  | cons b rest ih =>
    rw [List.mem_cons, not_or] at h
    show prepend b (splitLines rest) = _
    rw [ih h.2]
    simp [prepend, Ne.symm h.1]

theorem splitLines_line {l : Bytes} (h : newline ∉ l) (stream : Bytes) :
    splitLines (l ++ newline :: stream) =
      (l :: (splitLines stream).1, (splitLines stream).2) := by
  induction l with
  | nil =>
    show prepend newline (splitLines stream) = _
    simp [prepend]
  | cons b l ih =>
    rw [List.mem_cons, not_or] at h
    show prepend b (splitLines (l ++ newline :: stream)) = _
    rw [ih h.2]
    simp [prepend, Ne.symm h.1]

theorem splitLines_of_join {lines : List Bytes} {rest : Bytes} (hl : ∀ l ∈ lines, newline ∉ l)
    (hr : newline ∉ rest) : splitLines (join lines rest) = (lines, rest) := by
  induction lines with
  | nil => exact splitLines_of_not_mem hr
  | cons l lines ih =>
    show splitLines (l ++ newline :: join lines rest) = _
    rw [splitLines_line (hl l List.mem_cons_self), ih fun l h => hl l (List.mem_cons_of_mem _ h)]

theorem newline_not_mem_lines (stream : Bytes) : ∀ l ∈ (splitLines stream).1, newline ∉ l := by
  induction stream with
  | nil => simp [splitLines]
  | cons b stream ih =>
    show ∀ l ∈ (prepend b (splitLines stream)).1, newline ∉ l
    rcases h : splitLines stream with ⟨lines, rest⟩
    rw [h] at ih
    simp only [prepend]
    split
    · simpa using ih
    · next hb =>
      cases lines with
      | nil => simp
      | cons l ls =>
        simp only [List.mem_cons, forall_eq_or_imp, not_or] at ih ⊢
        exact ⟨⟨fun e => hb e.symm, ih.1⟩, ih.2⟩

theorem join_append (lines lines' : List Bytes) (rest : Bytes) :
    join (lines ++ lines') rest = join lines (join lines' rest) :=
  List.foldr_append

theorem join_rest_append (lines : List Bytes) (rest stream : Bytes) :
    join lines rest ++ stream = join lines (rest ++ stream) := by
  induction lines with
  | nil => rfl
  | cons l lines ih =>
    show (l ++ newline :: join lines rest) ++ stream = l ++ newline :: join lines (rest ++ stream)
    rw [List.append_assoc, List.cons_append, ih]

/-- A stream may be split in two goes, the rest of the first being kept for the second. -/
theorem splitLines_append (a b : Bytes) :
    splitLines (a ++ b) =
      ((splitLines a).1 ++ (splitLines ((splitLines a).2 ++ b)).1,
        (splitLines ((splitLines a).2 ++ b)).2) := by
  have hjoin : a ++ b = join ((splitLines a).1 ++ (splitLines ((splitLines a).2 ++ b)).1)
      (splitLines ((splitLines a).2 ++ b)).2 := by
    rw [join_append, splitLines_join, ← join_rest_append, splitLines_join]
  rw [hjoin]
  refine splitLines_of_join ?_ (newline_not_mem_rest _)
  intro l hl
  rcases List.mem_append.mp hl with hl | hl
  · exact newline_not_mem_lines _ l hl
  · exact newline_not_mem_lines _ l hl

/-- Bytes without a newline come before the first line, or before the rest. -/
theorem splitLines_kept {kept : Bytes} (hk : newline ∉ kept) (stream : Bytes) :
    splitLines (kept ++ stream) =
      match splitLines stream with
      | ([], rest) => ([], kept ++ rest)
      | (l :: ls, rest) => ((kept ++ l) :: ls, rest) := by
  have hrest := newline_not_mem_rest stream
  have hlines := newline_not_mem_lines stream
  have hjoin := splitLines_join stream
  have happend {l : Bytes} (h : newline ∉ l) : newline ∉ kept ++ l := by
    rw [List.mem_append, not_or]
    exact ⟨hk, h⟩
  rcases hs : splitLines stream with ⟨_ | ⟨l, ls⟩, rest⟩ <;> rw [hs] at hrest hlines hjoin
  · rw [← hjoin]
    exact splitLines_of_not_mem (happend hrest)
  · rw [List.forall_mem_cons] at hlines
    have hstream : kept ++ stream = join ((kept ++ l) :: ls) rest := by
      rw [← hjoin]
      simp [join]
    rw [hstream]
    exact splitLines_of_join (List.forall_mem_cons.mpr ⟨happend hlines.1, hlines.2⟩) hrest

/-! ## Pieces -/

/-- A line of a stream that comes in chunks: the pieces of it that the end of a chunk cut
off, and what came after the last of them. -/
structure Line where
  pieces : List Bytes
  last : Bytes
  deriving DecidableEq, Repr

/-- The line put together. -/
def Line.bytes (l : Line) : Bytes := l.pieces.flatten ++ l.last

/-- One more piece at the front of the first line, or of what follows the last newline. -/
def lead (piece : Bytes) : List Line × List Bytes → List Line × List Bytes
  | ([], pieces) => ([], piece :: pieces)
  | (l :: ls, pieces) => ({ l with pieces := piece :: l.pieces } :: ls, pieces)

/-- The lines of a stream that comes in chunks, and the pieces of what follows the last
newline. -/
def cut : List Bytes → List Line × List Bytes
  | [] => ([], [])
  | chunk :: chunks =>
    let (lines, rest) := splitLines chunk
    let (more, pieces) := lead rest (cut chunks)
    (lines.map (⟨[], ·⟩) ++ more, pieces)

theorem cut_cons (chunk : Bytes) (chunks : List Bytes) :
    cut (chunk :: chunks) =
      ((splitLines chunk).1.map (⟨[], ·⟩) ++ (lead (splitLines chunk).2 (cut chunks)).1,
        (lead (splitLines chunk).2 (cut chunks)).2) :=
  rfl

/-- The lines in their pieces are the lines of the stream. -/
theorem cut_bytes (chunks : List Bytes) :
    ((cut chunks).1.map Line.bytes, (cut chunks).2.flatten) = splitLines chunks.flatten := by
  induction chunks with
  | nil => rfl
  | cons chunk chunks ih =>
    rw [List.flatten_cons, splitLines_append, splitLines_kept (newline_not_mem_rest chunk), ← ih,
      cut_cons]
    rcases cut chunks with ⟨_ | ⟨l, ls⟩, pieces⟩ <;> simp [lead, Line.bytes, Function.comp_def]

theorem cut_piece {piece : Bytes} (h : newline ∉ piece) (chunks : List Bytes) :
    cut (piece :: chunks) = lead piece (cut chunks) := by
  rw [cut_cons, splitLines_of_not_mem h]
  rfl

theorem cut_of_not_mem {pieces : List Bytes} (h : ∀ p ∈ pieces, newline ∉ p) :
    cut pieces = ([], pieces) := by
  induction pieces with
  | nil => rfl
  | cons piece pieces ih =>
    rw [List.forall_mem_cons] at h
    rw [cut_piece h.1, ih h.2]
    rfl

/-- The chunks that bring given lines in given pieces, and then some more pieces. -/
def chunksOf : List Line → List Bytes → List Bytes
  | [], pieces => pieces
  | l :: ls, pieces =>
    l.pieces ++ match chunksOf ls pieces with
      | [] => [l.last ++ [newline]]
      | chunk :: chunks => (l.last ++ newline :: chunk) :: chunks

theorem cut_line {l : Line} (hl : newline ∉ l.bytes) {chunk : Bytes} {chunks : List Bytes} :
    cut (l.pieces ++ (l.last ++ newline :: chunk) :: chunks) =
      (l :: (cut (chunk :: chunks)).1, (cut (chunk :: chunks)).2) := by
  obtain ⟨pieces, last⟩ := l
  rw [Line.bytes, List.mem_append, not_or] at hl
  obtain ⟨hpieces, hlast⟩ := hl
  induction pieces with
  | nil =>
    rw [List.nil_append, cut_cons, cut_cons, splitLines_line hlast]
    rfl
  | cons piece pieces ih =>
    rw [List.flatten_cons, List.mem_append, not_or] at hpieces
    rw [List.cons_append, cut_piece hpieces.1, ih hpieces.2 hlast]
    rfl

theorem chunksOf_ne_nil (lines : List Line) {pieces : List Bytes} (hp : pieces ≠ []) :
    chunksOf lines pieces ≠ [] := by
  cases lines with
  | nil => exact hp
  | cons l ls =>
    rw [chunksOf]
    split <;> simp

/-- Any lines in any pieces may come. -/
theorem cut_chunksOf {lines : List Line} {pieces : List Bytes} (hl : ∀ l ∈ lines, newline ∉ l.bytes)
    (hp : ∀ p ∈ pieces, newline ∉ p) (hne : pieces ≠ []) :
    cut (chunksOf lines pieces) = (lines, pieces) := by
  induction lines with
  | nil => exact cut_of_not_mem hp
  | cons l ls ih =>
    rw [List.forall_mem_cons] at hl
    have ih := ih hl.2
    rw [chunksOf]
    cases hc : chunksOf ls pieces with
    | nil => exact absurd hc (chunksOf_ne_nil ls hne)
    | cons chunk chunks =>
      dsimp only
      rw [cut_line hl.1, ← hc, ih]

theorem cut_rest_ne_nil {chunks : List Bytes} (h : chunks ≠ []) : (cut chunks).2 ≠ [] := by
  induction chunks with
  | nil => exact absurd rfl h
  | cons chunk chunks ih =>
    rw [cut_cons]
    cases hc : cut chunks with
    | mk lines pieces =>
      cases lines with
      | nil => simp [lead]
      | cons l ls =>
        have hne : chunks ≠ [] := by
          rintro rfl
          cases hc
        have := ih hne
        rwa [hc] at this

/-! ## Chunks -/

/-- What is kept of a line whose pieces come one after the other, and how often it was given
up before. -/
def hold : Bytes → List Bytes → Nat × Bytes
  | kept, [] => (0, kept)
  | kept, piece :: pieces =>
    if maxMessageBytes < (kept ++ piece).length then
      let (n, rest) := hold [] pieces
      (n + 1, rest)
    else hold (kept ++ piece) pieces

/-- What is taken out of a buffer of a line, when some of it is kept already: a fault each
time it is given up, and its end as a line of its own. -/
def Line.taken (kept : Bytes) (l : Line) : List (Except DecodeError String) :=
  List.replicate (hold kept l.pieces).1 (.error .oversized) ++
    (entry ((hold kept l.pieces).2 ++ l.last)).toList

/-- What is taken out of a buffer of lines and of what follows them, and what stays. -/
def taken (kept : Bytes) : List Line → List Bytes → List (Except DecodeError String) × Bytes
  | [], pieces => (List.replicate (hold kept pieces).1 (.error .oversized), (hold kept pieces).2)
  | l :: ls, pieces => (l.taken kept ++ (taken [] ls pieces).1, (taken [] ls pieces).2)

theorem taken_eq (lines : List Line) (pieces : List Bytes) :
    taken [] lines pieces =
      (lines.flatMap (Line.taken []) ++
          List.replicate (hold [] pieces).1 (.error .oversized), (hold [] pieces).2) := by
  induction lines with
  | nil => rfl
  | cons l ls ih => simp only [taken, ih, List.flatMap_cons, List.append_assoc]

theorem taken_lead (kept piece : Bytes) (x : List Line × List Bytes) :
    taken kept (lead piece x).1 (lead piece x).2 =
      if maxMessageBytes < (kept ++ piece).length then
        (.error .oversized :: (taken [] x.1 x.2).1, (taken [] x.1 x.2).2)
      else taken (kept ++ piece) x.1 x.2 := by
  obtain ⟨_ | ⟨l, ls⟩, pieces⟩ := x
  all_goals
    simp only [lead, taken, Line.taken, hold]
    split <;> simp [List.replicate_succ]

theorem taken_whole (lines : List Bytes) (x : List Line) (pieces : List Bytes) :
    taken [] (lines.map (⟨[], ·⟩) ++ x) pieces =
      (lines.filterMap entry ++ (taken [] x pieces).1, (taken [] x pieces).2) := by
  induction lines with
  | nil => rfl
  | cons l ls ih =>
    rw [List.map_cons, List.cons_append, taken, ih, List.filterMap_cons]
    simp only [Line.taken, hold, List.replicate_zero, List.nil_append]
    cases entry l <;> simp

theorem feed_drainLines_cons (kept chunk : Bytes) (chunks : List Bytes) :
    feed drainLines kept (chunk :: chunks) =
      let (lines, rest) := splitLines (kept ++ chunk)
      let (more, buffer) :=
        if maxMessageBytes < rest.length then
          (.error .oversized :: (feed drainLines [] chunks).1, (feed drainLines [] chunks).2)
        else feed drainLines rest chunks
      (lines.filterMap entry ++ more, buffer) := by
  simp only [feed, drainLines]
  split <;> simp

/-- What is taken out of the buffer, whatever the chunks: line by line, each in the pieces in
which it came. -/
theorem feed_drainLines_pieces (chunks : List Bytes) {kept : Bytes} (hk : newline ∉ kept) :
    feed drainLines kept chunks = taken kept (cut chunks).1 (cut chunks).2 := by
  induction chunks generalizing kept with
  | nil => rfl
  | cons chunk chunks ih =>
    have hrest := newline_not_mem_rest chunk
    rw [feed_drainLines_cons, splitLines_kept hk, cut]
    rcases hs : splitLines chunk with ⟨_ | ⟨l, ls⟩, rest⟩ <;> rw [hs] at hrest
    · have hbuffer : newline ∉ kept ++ rest := by
        rw [List.mem_append, not_or]
        exact ⟨hk, hrest⟩
      dsimp only
      rw [ih List.not_mem_nil, ih hbuffer, ← taken_lead]
      rfl
    · dsimp only
      rw [ih List.not_mem_nil, ih hrest, List.map_cons, List.cons_append, taken, taken_whole,
        taken_lead, List.nil_append]
      simp only [Line.taken, hold, List.filterMap_cons]
      cases entry (kept ++ l) <;> simp

theorem hold_of_le {kept : Bytes} {pieces : List Bytes}
    (h : (kept ++ pieces.flatten).length ≤ maxMessageBytes) :
    hold kept pieces = (0, kept ++ pieces.flatten) := by
  induction pieces generalizing kept with
  | nil => rw [List.flatten_nil, List.append_nil]; rfl
  | cons piece pieces ih =>
    rw [List.flatten_cons, ← List.append_assoc] at h ⊢
    have hlen : (kept ++ piece).length ≤ maxMessageBytes := by
      rw [List.length_append] at h
      omega
    rw [hold, if_neg (Nat.not_lt_of_le hlen), ih h]

theorem hold_pos {kept : Bytes} {pieces : List Bytes} (hk : kept.length ≤ maxMessageBytes)
    (h : maxMessageBytes < (kept ++ pieces.flatten).length) : 0 < (hold kept pieces).1 := by
  induction pieces generalizing kept with
  | nil =>
    rw [List.flatten_nil, List.append_nil] at h
    omega
  | cons piece pieces ih =>
    rw [List.flatten_cons, ← List.append_assoc] at h
    rw [hold]
    split
    · exact Nat.succ_pos _
    · next hlen => exact ih (Nat.le_of_not_lt hlen) h

theorem hold_suffix (kept : Bytes) (pieces : List Bytes) :
    (hold kept pieces).2 <:+ kept ++ pieces.flatten := by
  induction pieces generalizing kept with
  | nil => simp [hold]
  | cons piece pieces ih =>
    rw [hold, List.flatten_cons, ← List.append_assoc]
    split
    · exact (ih []).trans (List.suffix_append _ _)
    · exact ih _

/-! ## Short lines -/

/-- No line of a stream, and not what follows the last, is longer than the largest
message. -/
def Fits (stream : Bytes) : Prop :=
  (∀ l ∈ (splitLines stream).1, l.length ≤ maxMessageBytes) ∧
    (splitLines stream).2.length ≤ maxMessageBytes

theorem taken_of_le {l : Line} (h : l.bytes.length ≤ maxMessageBytes) :
    l.taken [] = (entry l.bytes).toList := by
  have hlen : ([] ++ l.pieces.flatten).length ≤ maxMessageBytes := by
    rw [Line.bytes, List.length_append] at h
    exact Nat.le_trans (Nat.le_add_right _ _) h
  rw [Line.taken, hold_of_le hlen]
  rfl

/-- Lines that are not longer than the largest message come out, wherever the stream was
cut and whatever follows them. -/
theorem feed_drainLines_lines {chunks : List Bytes}
    (h : ∀ l ∈ (splitLines chunks.flatten).1, l.length ≤ maxMessageBytes) :
    feed drainLines [] chunks =
      ((splitLines chunks.flatten).1.filterMap entry ++
          List.replicate (hold [] (cut chunks).2).1 (.error .oversized),
        (hold [] (cut chunks).2).2) := by
  rw [← cut_bytes] at h ⊢
  have hlines : (cut chunks).1.flatMap (Line.taken []) =
      ((cut chunks).1.map Line.bytes).filterMap entry := by
    rw [List.filterMap_map, List.filterMap_eq_flatMap_toList]
    exact List.flatMap_congr fun l hl => taken_of_le (h _ (List.mem_map_of_mem hl))
  rw [feed_drainLines_pieces chunks List.not_mem_nil, taken_eq, hlines]

/-- Where a stream was cut makes no difference to the lines that are taken out of it. -/
theorem feed_drainLines {chunks : List Bytes} (h : Fits chunks.flatten) :
    feed drainLines [] chunks =
      ((splitLines chunks.flatten).1.filterMap entry, (splitLines chunks.flatten).2) := by
  have hrest := h.2
  rw [← cut_bytes] at hrest
  rw [feed_drainLines_lines h.1, hold_of_le hrest, ← cut_bytes]
  simp

theorem feed_drainMessages (chunks : List Bytes) (buffer : Bytes) :
    feed drainMessages buffer chunks =
      ((feed drainLines buffer chunks).1.map (· >>= WireMessage.decode),
        (feed drainLines buffer chunks).2) := by
  induction chunks generalizing buffer with
  | nil => rfl
  | cons chunk chunks ih =>
    simp only [feed, drainMessages, ih, List.map_append]

end Frame

end PromptGateway
