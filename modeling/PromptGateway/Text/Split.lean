/-
  The parts of a list between the occurrences of a separator.

  An empty list has one part, the empty one. What is proved: `intercalate_split`, the
  parts with the separator between them are the list again.
-/

namespace PromptGateway.Text

/-- The parts of a list between the occurrences of a separator. -/
def split [DecidableEq α] (c : α) : List α → List (List α)
  | [] => [[]]
  | d :: cs =>
    if d = c then [] :: split c cs
    else match split c cs with
      | [] => [[d]]
      | p :: ps => (d :: p) :: ps

theorem split_ne_nil [DecidableEq α] (c : α) (cs : List α) : split c cs ≠ [] := by
  cases cs with
  | nil => simp [split]
  | cons d cs =>
    unfold split
    split
    · simp
    · split <;> simp

theorem intercalate_split [DecidableEq α] (c : α) :
    ∀ cs : List α, [c].intercalate (split c cs) = cs
  | [] => by simp [split]
  | d :: cs => by
    have ih := intercalate_split c cs
    unfold split
    cases hs : split c cs with
    | nil => exact absurd hs (split_ne_nil c cs)
    | cons p ps =>
      rw [hs] at ih
      split
      · next h =>
        subst h
        rw [List.intercalate_cons_cons, ih]
        rfl
      · cases ps with
        | nil => simp_all
        | cons q qs =>
          rw [List.intercalate_cons_cons] at ih ⊢
          rw [← ih]
          rfl

end PromptGateway.Text
