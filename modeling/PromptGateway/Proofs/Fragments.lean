import PromptGateway.Proofs.Exchange

/-
  A stream is a log of what was appended to it, and its reader goes through it.

  A stream is called in five ways: a fragment is appended, the stream is ended, it fails, it is
  read, or its cursor is put back. The calls may come in any order.

    1. `fragments_run`, `finished_run`, `failure_run`: the fragments, the end and the failure can
       be told from the calls alone, wherever the cursor is.
    2. `take_cursor_run`: as long as the cursor only reads, what is before it grows by what is
       read.
    3. `Spent.run`: a failure takes the cursor to the end for good, unless it is put back.
    4. `readings_of_cursor_eq_zero`: so whatever is called, what has been read since the cursor was
       put back is the front of the fragments.
-/

namespace PromptGateway

/-! ## Calls -/

/-- A call of a stream. -/
inductive StreamCall where
  | append (fragment : String)
  | finish
  | fail (message : String)
  | read
  | rewind
  deriving DecidableEq

namespace StreamCall

/-- Whether a call ends the stream. -/
@[simp] def ends : StreamCall → Bool
  | finish | fail _ => true
  | append _ | read | rewind => false

/-- The fragment that a call appends. -/
@[simp] def fragment? : StreamCall → Option String
  | append f => some f
  | finish | fail _ | read | rewind => none

/-- The message with which a call fails the stream. -/
@[simp] def message? : StreamCall → Option String
  | fail m => some m
  | append _ | finish | read | rewind => none

/-- The fragments that are appended before the first end. -/
def kept (calls : List StreamCall) : List String :=
  (calls.takeWhile fun x => !x.ends).filterMap fragment?

theorem kept_cons (x : StreamCall) (calls : List StreamCall) :
    kept (x :: calls) = x.fragment?.toList ++ if x.ends then [] else kept calls := by
  cases x <;> rfl

end StreamCall

namespace TokenStream

open StreamCall (kept)

/-- The stream after a call. -/
def call (s : TokenStream) : StreamCall → TokenStream
  | .append f => (s.append f).2
  | .finish => s.finish
  | .fail m => s.fail m
  | .read => (s.nextUnread.map (·.2)).getD s
  | .rewind => s.rewind

/-- The stream after a list of calls. -/
def run (s : TokenStream) (calls : List StreamCall) : TokenStream := calls.foldl call s

/-- What a call hands out. -/
def reading (s : TokenStream) : StreamCall → List String
  | .read => (s.nextUnread.map (·.1)).toList
  | .append _ | .finish | .fail _ | .rewind => []

/-- What is read during a list of calls. -/
def readings (s : TokenStream) (calls : List StreamCall) : List String :=
  journal call reading s calls

variable {s : TokenStream}

/-- A call to read moves the cursor over a fragment, or finds nothing and changes nothing. -/
theorem read_cases (s : TokenStream) :
    (∃ f, s.fragments[s.cursor]? = some f ∧ s.reading .read = [f] ∧
      s.call .read = { s with cursor := s.cursor + 1 }) ∨
    (s.fragments.length ≤ s.cursor ∧ s.reading .read = [] ∧ s.call .read = s) := by
  simp only [reading, call, nextUnread]
  cases hf : s.fragments[s.cursor]? with
  | some f => exact .inl ⟨f, rfl, rfl, rfl⟩
  | none => exact .inr ⟨List.getElem?_eq_none_iff.mp hf, rfl, rfl⟩

/-! ## What the calls alone tell -/

/-- What a call does, but for the cursor. -/
theorem call_eq (s : TokenStream) (x : StreamCall) :
    s.call x =
      { fragments := if s.finished then s.fragments else s.fragments ++ x.fragment?.toList
        cursor := (s.call x).cursor
        finished := s.finished || x.ends
        failure := s.failure.or x.message? } := by
  cases x with
  | append f =>
    obtain ⟨fragments, cursor, finished, failure⟩ := s
    cases finished <;> simp [call, append]
  | finish => simp [call, finish]
  | fail m => cases hf : s.failure <;> simp [call, fail, hf]
  | read => obtain ⟨f, -, -, hcall⟩ | ⟨-, -, hcall⟩ := s.read_cases <;> simp [hcall]
  | rewind => simp [call, rewind]

theorem fragments_call (s : TokenStream) (x : StreamCall) :
    (s.call x).fragments = if s.finished then s.fragments else s.fragments ++ x.fragment?.toList :=
  congrArg fragments (s.call_eq x)

theorem finished_call (s : TokenStream) (x : StreamCall) :
    (s.call x).finished = (s.finished || x.ends) :=
  congrArg finished (s.call_eq x)

/-- A fragment is taken exactly if the stream has not ended. -/
theorem append_fst (s : TokenStream) (f : String) : (s.append f).1 = !s.finished := by
  rw [append]
  cases s.finished <;> rfl

theorem failure_call (s : TokenStream) (x : StreamCall) :
    (s.call x).failure = s.failure.or x.message? :=
  congrArg failure (s.call_eq x)

theorem finished_run (s : TokenStream) (calls : List StreamCall) :
    (s.run calls).finished = (s.finished || calls.any StreamCall.ends) := by
  induction calls generalizing s with
  | nil => exact (Bool.or_false _).symm
  | cons x calls ih =>
    calc ((s.call x).run calls).finished
        = (s.finished || x.ends || calls.any StreamCall.ends) := by rw [ih, finished_call]
      _ = (s.finished || (x :: calls).any StreamCall.ends) := by rw [Bool.or_assoc, List.any_cons]

theorem failure_run (s : TokenStream) (calls : List StreamCall) :
    (s.run calls).failure = s.failure.or (calls.findSome? StreamCall.message?) := by
  induction calls generalizing s with
  | nil => exact Option.or_none.symm
  | cons x calls ih =>
    calc ((s.call x).run calls).failure
        = (s.failure.or x.message?).or (calls.findSome? StreamCall.message?) := by
          rw [ih, failure_call]
      _ = s.failure.or ((x :: calls).findSome? StreamCall.message?) := by
          rw [Option.or_assoc, List.findSome?_cons]
          cases x.message? <;> rfl

theorem fragments_run (s : TokenStream) (calls : List StreamCall) :
    (s.run calls).fragments = if s.finished then s.fragments else s.fragments ++ kept calls := by
  induction calls generalizing s with
  | nil =>
    rw [kept, List.takeWhile_nil, List.filterMap_nil, List.append_nil, ite_self]
    rfl
  | cons x calls ih =>
    show ((s.call x).run calls).fragments = _
    rw [ih, finished_call, fragments_call, StreamCall.kept_cons]
    cases s.finished with
    | true => rfl
    | false => cases x.ends <;> simp

theorem fragments_prefix_run (s : TokenStream) (calls : List StreamCall) :
    s.fragments <+: (s.run calls).fragments := by
  rw [fragments_run]
  split
  · exact List.prefix_rfl
  · exact List.prefix_append _ _

/-! ## The cursor -/

theorem nextUnread_eq_none_iff_of_le (h : s.cursor ≤ s.fragments.length) :
    s.nextUnread = none ↔ s.cursor = s.fragments.length :=
  s.nextUnread_eq_none_iff.trans ⟨Nat.le_antisymm h, Nat.le_of_eq ∘ Eq.symm⟩

theorem cursor_le_call (h : s.cursor ≤ s.fragments.length) (x : StreamCall) :
    (s.call x).cursor ≤ (s.call x).fragments.length := by
  cases x with
  | append f =>
    rw [call, append]
    split
    · exact h
    · simpa using Nat.le_succ_of_le h
  | finish => exact h
  | fail m => exact Nat.le_refl _
  | read =>
    obtain ⟨f, hf, -, hcall⟩ | ⟨-, -, hcall⟩ := s.read_cases
    · rw [hcall]
      exact (List.getElem?_eq_some_iff.mp hf).1
    · rwa [hcall]
  | rewind => exact Nat.zero_le _

theorem cursor_le_run (h : s.cursor ≤ s.fragments.length) (calls : List StreamCall) :
    (s.run calls).cursor ≤ (s.run calls).fragments.length :=
  List.foldlRecOn calls call (motive := fun s : TokenStream => s.cursor ≤ s.fragments.length) h
    fun _ h x _ => cursor_le_call h x

/-- As long as the cursor only reads, what is before it grows by what is read. -/
theorem take_cursor_call (h : s.cursor ≤ s.fragments.length) {x : StreamCall}
    (hrewind : x ≠ .rewind) (hfail : ∀ m, x ≠ .fail m) :
    (s.call x).fragments.take (s.call x).cursor =
      s.fragments.take s.cursor ++ s.reading x := by
  cases x with
  | append f =>
    rw [reading, List.append_nil, call, append]
    split
    · rfl
    · exact List.take_append_of_le_length h
  | finish => exact (List.append_nil _).symm
  | fail m => exact absurd rfl (hfail m)
  | read =>
    obtain ⟨f, hf, hread, hcall⟩ | ⟨-, hread, hcall⟩ := s.read_cases
    · rw [hcall, hread, List.take_add_one, hf]
      rfl
    · rw [hcall, hread, List.append_nil]
  | rewind => exact absurd rfl hrewind

theorem take_cursor_run (h : s.cursor ≤ s.fragments.length) {calls : List StreamCall}
    (hrewind : .rewind ∉ calls) (hfail : ∀ m, .fail m ∉ calls) :
    (s.run calls).fragments.take (s.run calls).cursor =
      s.fragments.take s.cursor ++ s.readings calls := by
  induction calls generalizing s with
  | nil => exact (List.append_nil _).symm
  | cons x calls ih =>
    rw [List.mem_cons, not_or] at hrewind
    have hx : ∀ m, x ≠ .fail m := fun m he => hfail m (he ▸ List.mem_cons_self)
    have hcalls : ∀ m, .fail m ∉ calls := fun m hm => hfail m (List.mem_cons_of_mem x hm)
    calc ((s.call x).run calls).fragments.take ((s.call x).run calls).cursor
        = (s.call x).fragments.take (s.call x).cursor ++ (s.call x).readings calls :=
          ih (cursor_le_call h x) hrewind.2 hcalls
      _ = s.fragments.take s.cursor ++ s.readings (x :: calls) := by
          rw [take_cursor_call h (Ne.symm hrewind.1) hx, List.append_assoc]
          rfl

/-- The stream has ended, and the cursor is at the end of it. -/
structure Spent (s : TokenStream) : Prop where
  finished : s.finished = true
  cursor : s.cursor = s.fragments.length

theorem spent_fail (s : TokenStream) (m : String) : (s.fail m).Spent := ⟨rfl, rfl⟩

namespace Spent

theorem nextUnread (h : s.Spent) : s.nextUnread = none :=
  s.nextUnread_eq_none_iff.mpr (Nat.le_of_eq h.cursor.symm)

theorem reading (h : s.Spent) (x : StreamCall) : s.reading x = [] := by
  cases x with
  | read => simp [TokenStream.reading, h.nextUnread]
  | append _ | finish | fail _ | rewind => rfl

theorem call (h : s.Spent) {x : StreamCall} (hx : x ≠ .rewind) : (s.call x).Spent := by
  cases x with
  | append f => simpa [TokenStream.call, append, h.finished] using h
  | finish => exact ⟨rfl, h.cursor⟩
  | fail m => exact spent_fail s m
  | read => simpa [TokenStream.call, h.nextUnread] using h
  | rewind => exact absurd rfl hx

theorem run (h : s.Spent) {calls : List StreamCall} (hrewind : .rewind ∉ calls) :
    (s.run calls).Spent ∧ s.readings calls = [] := by
  induction calls generalizing s with
  | nil => exact ⟨h, rfl⟩
  | cons x calls ih =>
    rw [List.mem_cons, not_or] at hrewind
    obtain ⟨hspent, hnothing⟩ := ih (h.call (Ne.symm hrewind.1)) hrewind.2
    refine ⟨hspent, ?_⟩
    rw [readings, journal, h.reading x]
    exact hnothing

end Spent

/-- What is before the cursor, and then what is read until it is put back, is the front of the
fragments, whatever else is called. -/
theorem readings_prefix (h : s.cursor ≤ s.fragments.length) {calls : List StreamCall}
    (hrewind : .rewind ∉ calls) :
    s.fragments.take s.cursor ++ s.readings calls <+: (s.run calls).fragments := by
  induction calls generalizing s with
  | nil =>
    rw [readings, journal, List.append_nil]
    exact List.take_prefix _ _
  | cons x calls ih =>
    rw [List.mem_cons, not_or] at hrewind
    by_cases hfail : ∃ m, x = .fail m
    · -- the cursor leaps over what is unread, and nothing more is read
      obtain ⟨m, rfl⟩ := hfail
      have hnothing : s.readings (.fail m :: calls) = [] :=
        ((s.spent_fail m).run hrewind.2).2
      rw [hnothing, List.append_nil]
      exact (List.take_prefix _ _).trans (s.fragments_prefix_run _)
    · have hstep := take_cursor_call h (Ne.symm hrewind.1) (not_exists.mp hfail)
      have hlater := ih (cursor_le_call h x) hrewind.2
      rw [hstep, List.append_assoc] at hlater
      exact hlater

/-- From the first fragment on, what is read is the front of the fragments, and without a failure
it is all that is before the cursor. -/
theorem readings_of_cursor_eq_zero (hzero : s.cursor = 0) {calls : List StreamCall}
    (hrewind : .rewind ∉ calls) :
    s.readings calls <+: (s.run calls).fragments ∧
      ((∀ m, .fail m ∉ calls) →
        s.readings calls = (s.run calls).fragments.take (s.run calls).cursor) := by
  have hle : s.cursor ≤ s.fragments.length := hzero ▸ Nat.zero_le _
  have hfront := readings_prefix hle hrewind
  rw [hzero] at hfront
  refine ⟨hfront, fun hfail => ?_⟩
  have hread := take_cursor_run hle hrewind hfail
  rw [hzero] at hread
  exact hread.symm

theorem cursor_run_of_rewound {before : List StreamCall}
    (h : before = [] ∨ before.getLast? = some .rewind) :
    (({} : TokenStream).run before).cursor = 0 := by
  rcases h with rfl | h
  · rfl
  · obtain ⟨calls, rfl⟩ := List.getLast?_eq_some_iff.mp h
    rw [run, List.foldl_append]
    rfl

end TokenStream

open StreamCall (kept) in
/-- A stream that began empty, after any calls in any order; what is said of the next call holds
of every call, for it comes after those before it. The fragments are what was appended before the
first end, each in its place, and to append is answered with yes exactly if there was no end yet.
The cursor is never beyond the fragments. What has been read since the cursor was last put back,
or since the beginning, is the front of the fragments, and if the stream did not fail meanwhile,
it is all that is before the cursor.

Nothing is there to be read exactly if the cursor is at the end; once the stream has failed this
stays so until the cursor is put back. The stream has ended if some call ended it, and stays
ended; its failure is the first one and stays so. It is drained exactly if it has ended and there
is nothing to be read. -/
theorem stream_faithful (calls : List StreamCall) :
    let fresh : TokenStream := {}
    let s := fresh.run calls
    s.fragments = kept calls ∧
    (∀ f, (s.append f).1 = true ↔ ∀ x ∈ calls, x.ends = false) ∧
    s.cursor ≤ s.fragments.length ∧
    (∀ before since, calls = before ++ since →
      (before = [] ∨ before.getLast? = some .rewind) → .rewind ∉ since →
      let given := (fresh.run before).readings since
      given <+: s.fragments ∧ ((∀ m, .fail m ∉ since) → given = s.fragments.take s.cursor)) ∧
    (s.nextUnread = none ↔ s.cursor = s.fragments.length) ∧
    (∀ m since, .rewind ∉ since → (s.run (.fail m :: since)).nextUnread = none) ∧
    s.finished = calls.any StreamCall.ends ∧
    (s.finished = true → ∀ more, (s.run more).finished = true) ∧
    s.failure = calls.findSome? StreamCall.message? ∧
    (∀ m, s.failure = some m → ∀ more, (s.run more).failure = some m) ∧
    (s.isDrained = true ↔ s.finished = true ∧ s.nextUnread = none) := by
  intro fresh s
  have hle : s.cursor ≤ s.fragments.length :=
    TokenStream.cursor_le_run (s := fresh) (Nat.le_refl 0) calls
  have hfinished : s.finished = calls.any StreamCall.ends := fresh.finished_run calls
  have hnone : s.nextUnread = none ↔ s.cursor = s.fragments.length :=
    TokenStream.nextUnread_eq_none_iff_of_le hle
  refine ⟨fresh.fragments_run calls, fun f => ?_, hle, ?_, hnone, ?_, hfinished, ?_, ?_, ?_, ?_⟩
  · rw [TokenStream.append_fst, hfinished]
    simp
  · intro before since hcalls hstart hrewind given
    have hsplit : s = (fresh.run before).run since := by
      rw [show s = fresh.run calls from rfl, hcalls]
      exact List.foldl_append
    rw [hsplit]
    exact TokenStream.readings_of_cursor_eq_zero (TokenStream.cursor_run_of_rewound hstart) hrewind
  · intro m since hrewind
    exact ((s.spent_fail m).run hrewind).1.nextUnread
  · intro hend more
    rw [TokenStream.finished_run, hend, Bool.true_or]
  · exact fresh.failure_run calls
  · intro m hm more
    rw [TokenStream.failure_run, hm, Option.some_or]
  · rw [hnone, TokenStream.isDrained, Bool.and_eq_true, beq_iff_eq]

/-- What was unread when a stream failed is passed over, until the cursor is put back. -/
example :
    let s := ({} : TokenStream).run [.append "a", .append "b", .read, .fail "lost", .append "c"]
    s.readings [.read] = [] ∧ s.readings [.rewind, .read, .read, .read] = ["a", "b"] := by
  decide

end PromptGateway
