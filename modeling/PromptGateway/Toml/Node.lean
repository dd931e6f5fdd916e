/-
  The tree of a TOML document.

  Tables come about in four ways, and how a table came about decides what may
  still be added to it. A header opens a table once; the tables on the way to it
  are there by implication, and a later header may open them. A dotted key makes
  tables on its way, to which other dotted keys of the same block may add. A table
  in braces is complete, and a header in double brackets adds another table to a
  list of them, of which only the last can still be added to.

  `put` enters a value under a dotted key and `enter` a whole block under its
  header; each gives none where the document contradicts itself. `lookup_set` says
  what becomes of a table when a value is put under a key.
-/

namespace PromptGateway.Toml

/-- How a table came about. -/
inductive Origin where
  /-- It was opened by a header. -/
  | header
  /-- It is on the way to a table that was opened by a header. -/
  | implied
  /-- It is on the way to a value under a dotted key. -/
  | dotted
  /-- It was written in braces. -/
  | braces
  deriving DecidableEq, Repr

/-- A value in a document. Of a floating point number and of a moment it is only
kept that there is one. -/
inductive Node where
  | text (s : String)
  | integer (n : Int)
  | float
  | boolean (b : Bool)
  | moment
  | list (items : List Node)
  | table (origin : Origin) (entries : List (String × Node))
  /-- The tables under headers in double brackets. -/
  | tables (items : List (List (String × Node)))

/-- The keys of a table with their values. -/
abbrev Entries := List (String × Node)

/-- Puts a value under a key, in place of the one there if there is one. -/
def set (key : String) (v : Node) (es : Entries) : Entries :=
  if (es.lookup key).isSome then es.map fun (k, w) => (k, if k = key then v else w)
  else es ++ [(key, v)]

theorem lookup_map_replace (key : String) (v : Node) (k : String) : ∀ es : Entries,
    (es.map fun (n, w) => (n, if n = key then v else w)).lookup k =
      if k = key then (es.lookup key).map fun _ => v else es.lookup k
  | [] => by simp
  | (n, w) :: es => by
    have ih := lookup_map_replace key v k es
    simp only [List.map_cons, List.lookup_cons]
    by_cases hn : k = n
    · subst hn
      by_cases hk : k = key
      · subst hk; simp
      · simp [hk]
    · have hb : (k == n) = false := by simpa using hn
      simp only [hb, ih]
      by_cases hk : k = key
      · subst hk; simp [hb]
      · simp [hk]

/-- A value that was put under a key is found there, and every other key is
untouched. -/
theorem lookup_set (key : String) (v : Node) (es : Entries) (k : String) :
    (set key v es).lookup k = if k = key then some v else es.lookup k := by
  unfold set
  split
  · next h =>
    rw [lookup_map_replace]
    obtain ⟨w, hw⟩ := Option.isSome_iff_exists.mp h
    simp [hw]
  · next h =>
    have hn : es.lookup key = none := Option.not_isSome_iff_eq_none.mp h
    rw [List.lookup_append]
    by_cases hk : k = key
    · subst hk; simp [hn]
    · have hb : (k == key) = false := by simpa using hk
      simp [List.lookup_cons, hb, hk]

/-- Enters a value under a key, through the tables that a path of keys names. A
path ends in a table that dotted keys made, and no key is entered twice. -/
def put (key : String) (v : Node) : List String → Entries → Option Entries
  | [], es => if (es.lookup key).isSome then none else some (es ++ [(key, v)])
  | k :: path, es =>
    match es.lookup k with
    | none => do return set k (.table .dotted (← put key v path [])) es
    | some (.table .dotted inner) => do return set k (.table .dotted (← put key v path inner)) es
    | some (.table .implied inner) =>
      if path.isEmpty then none
      else do return set k (.table .implied (← put key v path inner)) es
    | some (.tables items) =>
      match path, items.getLast? with
      | [], _ | _, none => none
      | _, some last => do return set k (.tables (items.dropLast ++ [← put key v path last])) es
    | some _ => none

/-- A value under a dotted key. -/
structure Pair where
  path : List String
  key : String
  value : Node

/-- Enters values one after the other. -/
def fill (pairs : List Pair) (es : Entries) : Option Entries :=
  pairs.foldlM (fun es p => put p.key p.value p.path es) es

/-- Changes the table that the path of a header names. -/
def within (change : Entries → Option Entries) : List String → Entries → Option Entries
  | [], es => change es
  | k :: path, es =>
    match es.lookup k with
    | none => do return set k (.table .implied (← within change path [])) es
    | some (.table .braces _) => none
    | some (.table origin inner) => do
      return set k (.table origin (← within change path inner)) es
    | some (.tables items) =>
      match items.getLast? with
      | none => none
      | some last => do
        return set k (.tables (items.dropLast ++ [← within change path last])) es
    | some _ => none

/-- A header: the path to a table, and whether it is one of a list. -/
structure Header where
  path : List String
  key : String
  listed : Bool
  deriving DecidableEq, Repr

/-- Enters the block under a header into the table above it. -/
def Header.open (h : Header) (pairs : List Pair) (es : Entries) : Option Entries :=
  match es.lookup h.key, h.listed with
  | none, false => do return set h.key (.table .header (← fill pairs [])) es
  | some (.table .implied inner), false => do
    return set h.key (.table .header (← fill pairs inner)) es
  | none, true => do return set h.key (.tables [← fill pairs []]) es
  | some (.tables items), true => do
    return set h.key (.tables (items ++ [← fill pairs []])) es
  | some _, _ => none

/-- Enters the block under a header into a document. -/
def enter (h : Header) (pairs : List Pair) (root : Entries) : Option Entries :=
  within (h.open pairs) h.path root

end PromptGateway.Toml
