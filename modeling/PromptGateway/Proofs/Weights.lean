import PromptGateway.Proofs.Readback
import PromptGateway.Json.Record
import Mathlib.Algebra.Ring.Nat

/-
  What is read weighs no more than the text it was read from.

  A character may be written in several ways, and a message is written in the shortest:
  only what has to be escaped is, and then by one letter if there is one. So a string that
  has been read is no longer when it is written again. `Takes w n x` says of a reader's
  result that its weight `w` and the text that is left come to at most `n` bytes. It goes
  through the readers one by one, from the escapes (`takes_escape`) to a whole document
  (`takes_value`), and a record weighs no more than the members it is filled from
  (`recordOf_le`).
-/

namespace PromptGateway

open Text (utf8Length)

namespace Text

theorem utf8Length_append (a b : List Char) :
    utf8Length (a ++ b) = utf8Length a + utf8Length b := by
  simp only [← length_ofChars, Bytes.ofChars_append, List.length_append]

theorem utf8Length_le_of_suffix {a b : List Char} (h : a <:+ b) : utf8Length a ≤ utf8Length b := by
  obtain ⟨front, rfl⟩ := h
  rw [utf8Length_append]
  exact Nat.le_add_left _ _

end Text

namespace Json

/-- A result, if there is one, and the text that is left come to at most `n` bytes. -/
structure Takes {α : Type} (w : α → Nat) (n : Nat) (x : Except Fault (α × List Char)) : Prop where
  le : ∀ a rest, x = .ok (a, rest) → w a + utf8Length rest ≤ n

namespace Takes

variable {α β : Type} {v : α → Nat} {w : β → Nat} {n m : Nat}

theorem ok {a : α} {rest : List Char} (h : v a + utf8Length rest ≤ n) :
    Takes v n (.ok (a, rest)) where
  le _ _ he := by
    cases he
    exact h

theorem error {e : Fault} : Takes v n (.error e) where
  le _ _ he := nomatch he

theorem mono {x : Except Fault (α × List Char)} (hx : Takes v n x) (h : n ≤ m) : Takes v m x where
  le a rest he := Nat.le_trans (hx.le a rest he) h

theorem bind {x : Except Fault (α × List Char)}
    {f : α × List Char → Except Fault (β × List Char)} (hx : Takes v n x)
    (hf : ∀ a rest, v a + utf8Length rest ≤ n → Takes w m (f (a, rest))) :
    Takes w m (x >>= f) := by
  cases hok : x with
  | error e => exact .error
  | ok y => exact hf y.1 y.2 (hx.le y.1 y.2 hok)

/-- After a reader that gives nothing but the text that is left. -/
theorem after {x : Except Fault (List Char)} {f : List Char → Except Fault (β × List Char)}
    (hx : ∀ rest, x = .ok rest → utf8Length rest ≤ n)
    (hf : ∀ rest, utf8Length rest ≤ n → Takes w m (f rest)) : Takes w m (x >>= f) := by
  cases hok : x with
  | error e => exact .error
  | ok rest => exact hf rest (hx rest hok)

end Takes

/-- A weight for what has none. -/
def weightless {α : Type} (_ : α) : Nat := 0

/-! ## Tokens -/

theorem skipSpace_le (cs : List Char) : utf8Length (skipSpace cs) ≤ utf8Length cs :=
  Text.utf8Length_le_of_suffix (List.dropWhile_suffix _)

theorem utf8Length_cons_pos (c : Char) (cs : List Char) :
    utf8Length cs < utf8Length (c :: cs) := by
  rw [Text.utf8Length_cons]
  have := c.utf8Size_pos
  omega

theorem word_le (ws : List Char) {cs rest : List Char} (h : word ws cs = .ok rest) :
    utf8Length rest ≤ utf8Length cs := by
  induction ws generalizing cs with
  | nil =>
    cases h
    exact Nat.le_refl _
  | cons w ws ih =>
    cases cs with
    | nil => cases h
    | cons c cs =>
      rw [word] at h
      split at h
      · exact Nat.le_trans (ih h) (Nat.le_of_lt (utf8Length_cons_pos c cs))
      · cases h

theorem colon_le {cs rest : List Char} (h : colon cs = .ok rest) :
    utf8Length rest ≤ utf8Length cs := by
  have hs := skipSpace_le cs
  unfold colon at h
  split at h
  · cases h
  · next r hr =>
    cases h
    rw [hr] at hs
    exact Nat.le_trans (Nat.le_of_lt (utf8Length_cons_pos _ _)) hs
  · cases h

/-! ## Strings -/

/-- The bytes of characters written in a string. -/
def written (cs : List Char) : Nat := utf8Length (cs.flatMap Write.escaped)

theorem written_cons (c : Char) (cs : List Char) :
    written (c :: cs) = utf8Length (Write.escaped c) + written cs := by
  rw [written, List.flatMap_cons, Text.utf8Length_append]
  rfl

theorem written_append (a b : List Char) : written (a ++ b) = written a + written b := by
  rw [written, List.flatMap_append, Text.utf8Length_append]
  rfl

theorem utf8Length_text (s : String) : utf8Length (Write.text s) = written s.toList + 2 := by
  rw [Write.text, Text.utf8Length_append, Text.utf8Length_cons, ← written]
  show 1 + written s.toList + 1 = _
  omega

/-- No character takes more than an escape with four digits. -/
theorem utf8Length_escaped_le (c : Char) : utf8Length (Write.escaped c) ≤ 6 := by
  have hsize := c.utf8Size_le_four
  unfold Write.escaped
  split
  all_goals try decide
  split
  · next h =>
    have hdigits : ∀ n < 0x20, utf8Length ('\\' :: 'u' :: Write.fourDigits n) ≤ 6 := by decide
    exact hdigits c.toNat h
  · rw [Text.utf8Length_cons]
    show c.utf8Size + 0 ≤ 6
    omega

theorem takes_hexEscape (cs : List Char) :
    Takes (fun _ => 4) (utf8Length cs) (hexEscape cs) := by
  unfold hexEscape
  split
  · next a b c d rest =>
    split
    · refine .ok ?_
      have := a.utf8Size_pos
      have := b.utf8Size_pos
      have := c.utf8Size_pos
      have := d.utf8Size_pos
      simp only [Text.utf8Length_cons]
      omega
    · exact .error
  · exact .error

theorem takes_unicodeEscape (cs : List Char) :
    Takes (fun c => utf8Length (Write.escaped c)) (utf8Length cs + 2) (unicodeEscape cs) := by
  have hsix := utf8Length_escaped_le
  unfold unicodeEscape
  refine (takes_hexEscape cs).bind fun n rest hn => ?_
  dsimp only
  split
  · exact .error
  split
  · refine .ok ?_
    have := hsix (.ofNat n)
    omega
  split
  · exact .error
  · exact .error
  · next rest' =>
    refine (takes_hexEscape rest').bind fun k rest'' hk => ?_
    dsimp only
    split
    · refine .ok ?_
      have := hsix (.ofNat (0x10000 + (n - 0xD800) * 0x400 + (k - 0xDC00)))
      simp only [Text.utf8Length_cons] at hn
      omega
    · exact .error
  · exact .error
  · exact .error

theorem plainEscape_le {c x : Char} (h : plainEscape c = some x) :
    utf8Length (Write.escaped x) ≤ 2 := by
  unfold plainEscape at h
  split at h <;> cases h <;> decide

theorem takes_escape (cs : List Char) :
    Takes (fun c => utf8Length (Write.escaped c)) (utf8Length cs + 1) (escape cs) := by
  unfold escape
  split
  · exact .error
  · next rest =>
    refine (takes_unicodeEscape rest).mono ?_
    rw [Text.utf8Length_cons]
    show _ ≤ 1 + utf8Length rest + 1
    omega
  · next c rest _ =>
    split
    · next x hx =>
      refine .ok ?_
      have := plainEscape_le hx
      have := utf8Length_cons_pos c rest
      omega
    · exact .error

/-- A character that may stand for itself is written so. -/
theorem escaped_of_plain {c : Char} (hquote : c ≠ '"') (hslash : c ≠ '\\')
    (hcontrol : ¬ c.toNat < 0x20) : Write.escaped c = [c] := by
  unfold Write.escaped
  split
  all_goals first | contradiction | skip
  rw [if_neg hcontrol]

theorem takes_stringRest (fuel : Nat) (seen cs : List Char) :
    Takes (fun s => written s + 1) (written seen.reverse + utf8Length cs)
      (stringRest fuel seen cs) := by
  induction fuel generalizing seen cs with
  | zero => exact .error
  | succ fuel ih =>
    have hnext : ∀ c, written (c :: seen).reverse = written seen.reverse +
        utf8Length (Write.escaped c) := by
      intro c
      rw [List.reverse_cons, written_append, written_cons]
      rfl
    unfold stringRest
    split
    · exact .error
    · next rest =>
      refine .ok ?_
      rw [Text.utf8Length_cons]
      show _ ≤ written seen.reverse + (1 + utf8Length rest)
      omega
    · next rest =>
      refine (takes_escape rest).bind fun c rest' hc => (ih (c :: seen) rest').mono ?_
      rw [hnext, Text.utf8Length_cons]
      show _ ≤ written seen.reverse + (1 + utf8Length rest)
      omega
    · next c rest hquote hslash =>
      split
      · exact .error
      · next hcontrol =>
        refine (ih (c :: seen) rest).mono ?_
        rw [hnext, escaped_of_plain hquote hslash hcontrol, Text.utf8Length_cons,
          Text.utf8Length_cons]
        show _ + (c.utf8Size + 0) + _ ≤ _
        omega

/-- A string whose opening quote has been read. -/
theorem takes_string (cs : List Char) :
    Takes (fun s => utf8Length (Write.text s)) (utf8Length cs + 1) (string cs) := by
  refine (takes_stringRest _ [] cs).bind fun s rest hs => .ok ?_
  rw [utf8Length_text, String.toList_ofList]
  have hnil : written [].reverse = 0 := rfl
  omega

/-! ## Numbers -/

theorem takes_finish (negative : Bool) (n : Nat) (e : Int) (rest : List Char) :
    Takes weightless (utf8Length rest) (finish negative n e rest) := by
  unfold finish
  split
  · exact .ok (by simp [weightless])
  · exact .error

theorem exponentDigits_suffix (n : Nat) (cs : List Char) :
    (∀ e rest, exponentDigits n cs = .fits e rest → rest <:+ cs) ∧
      ∀ rest, exponentDigits n cs = .tooLarge rest → rest <:+ cs := by
  induction cs generalizing n with
  | nil =>
    refine ⟨fun e rest h => ?_, fun rest h => ?_⟩ <;> cases h
    exact List.suffix_rfl
  | cons c cs ih =>
    rw [exponentDigits]
    split
    · dsimp only
      split
      · exact ⟨fun e rest h => ((ih _).1 e rest h).trans (List.suffix_cons ..),
          fun rest h => ((ih _).2 rest h).trans (List.suffix_cons ..)⟩
      · refine ⟨fun e rest h => ?_, fun rest h => ?_⟩ <;> cases h
        exact List.suffix_cons ..
    · refine ⟨fun e rest h => ?_, fun rest h => ?_⟩ <;> cases h
      exact List.suffix_rfl

theorem takes_exponentPart (negative : Bool) (n : Nat) (e : Int) (cs : List Char) :
    Takes weightless (utf8Length cs) (exponentPart negative n e cs) := by
  unfold exponentPart
  split
  next down ds hds =>
    -- a sign in front of the digits is left out at most
    have hsuffix : ds <:+ cs := by
      split at hds <;> cases hds
      · exact List.suffix_cons ..
      · exact List.suffix_cons ..
      · exact List.suffix_rfl
    cases ds with
    | nil => exact .error
    | cons d ds =>
      dsimp only
      split
      · exact .error
      · split
        · next k rest hk =>
          have hrest := ((exponentDigits_suffix 0 (d :: ds)).1 k rest hk).trans hsuffix
          exact (takes_finish ..).mono (Text.utf8Length_le_of_suffix hrest)
        · next rest hk =>
          split
          · exact .error
          · refine .ok ?_
            have hrest := ((exponentDigits_suffix 0 (d :: ds)).2 rest hk).trans hsuffix
            rw [weightless, Nat.zero_add]
            exact Text.utf8Length_le_of_suffix ((List.dropWhile_suffix _).trans hrest)

theorem takes_fractionPart (negative : Bool) (n : Nat) (e : Int) (cs : List Char) :
    Takes weightless (utf8Length cs) (fractionPart negative n e cs) := by
  have hrest : cs.dropWhile Char.isDigit <:+ cs := List.dropWhile_suffix _
  unfold fractionPart
  dsimp only
  split
  · exact .error
  · split
    · next r hr =>
      rw [hr] at hrest
      exact (takes_exponentPart ..).mono
        (Text.utf8Length_le_of_suffix ((List.suffix_cons ..).trans hrest))
    · next r hr =>
      rw [hr] at hrest
      exact (takes_exponentPart ..).mono
        (Text.utf8Length_le_of_suffix ((List.suffix_cons ..).trans hrest))
    · exact (takes_finish ..).mono (Text.utf8Length_le_of_suffix hrest)

theorem takes_afterDigits (negative : Bool) (ds rest : List Char) :
    Takes weightless (utf8Length rest) (afterDigits negative ds rest) := by
  unfold afterDigits
  dsimp only
  split
  · exact (takes_fractionPart ..).mono (Nat.le_of_lt (utf8Length_cons_pos ..))
  · exact (takes_exponentPart ..).mono (Nat.le_of_lt (utf8Length_cons_pos ..))
  · exact (takes_exponentPart ..).mono (Nat.le_of_lt (utf8Length_cons_pos ..))
  · split
    · exact .ok (by simp [weightless])
    · exact takes_finish ..

theorem takes_numeral (negative : Bool) (cs : List Char) :
    Takes weightless (utf8Length cs) (numeral negative cs) := by
  unfold numeral
  split
  · exact .error
  · next r =>
    have hle := Nat.le_of_lt (utf8Length_cons_pos '0' r)
    split
    · split
      · exact .error
      · exact (takes_afterDigits ..).mono hle
    · exact (takes_afterDigits ..).mono hle
  · next d ds _ =>
    split
    · exact (takes_afterDigits ..).mono (Text.utf8Length_le_of_suffix (List.dropWhile_suffix _))
    · exact .error

/-! ## Lists and objects -/

section

variable {α σ : Type} {w : α → Nat} {item : Reader α}

theorem takes_moreItems (hitem : ∀ cs, Takes w (utf8Length cs) (item cs)) (fuel : Nat)
    (seen : List α) (cs : List Char) :
    Takes (fun xs => (xs.map w).sum) ((seen.map w).sum + utf8Length cs)
      (moreItems item fuel seen cs) := by
  induction fuel generalizing seen cs with
  | zero => exact .error
  | succ fuel ih =>
    have hs := skipSpace_le cs
    unfold moreItems
    split
    · exact .error
    · next rest hrest =>
      rw [hrest] at hs
      have := utf8Length_cons_pos ']' rest
      refine .ok ?_
      rw [List.map_reverse, List.sum_reverse]
      omega
    · next rest hrest =>
      rw [hrest] at hs
      have hcomma := utf8Length_cons_pos ',' rest
      have hs' := skipSpace_le rest
      split
      · exact .error
      · exact .error
      · refine (hitem _).bind fun x rest' hx => (ih (x :: seen) rest').mono ?_
        rw [List.map_cons, List.sum_cons]
        omega
    · exact .error

theorem takes_items (hitem : ∀ cs, Takes w (utf8Length cs) (item cs)) (cs : List Char) :
    Takes (fun xs => (xs.map w).sum) (utf8Length cs) (items item cs) := by
  have hs := skipSpace_le cs
  unfold items
  split
  · exact .error
  · next rest hrest =>
    rw [hrest] at hs
    have := utf8Length_cons_pos ']' rest
    refine .ok ?_
    rw [List.map_nil, List.sum_nil]
    omega
  · refine (hitem _).bind fun x rest' hx => (takes_moreItems hitem _ [x] rest').mono ?_
    rw [List.map_cons, List.map_nil, List.sum_singleton]
    omega

variable {φ : σ → Nat} {member : σ → String → Reader σ}

/-- If no member makes the state heavier by more than it takes, the members together do not. -/
theorem takes_moreMembers
    (hmember : ∀ s key cs, Takes φ (φ s + utf8Length cs) (member s key cs)) (fuel : Nat) (s : σ)
    (cs : List Char) : Takes φ (φ s + utf8Length cs) (moreMembers member fuel s cs) := by
  induction fuel generalizing s cs with
  | zero => exact .error
  | succ fuel ih =>
    have hs := skipSpace_le cs
    unfold moreMembers
    split
    · exact .error
    · next rest hrest =>
      rw [hrest] at hs
      have := utf8Length_cons_pos '}' rest
      exact .ok (by omega)
    · next rest hrest =>
      rw [hrest] at hs
      have hcomma := utf8Length_cons_pos ',' rest
      have hs' := skipSpace_le rest
      split
      · exact .error
      · next rest' hrest' =>
        rw [hrest', Text.utf8Length_cons] at hs'
        refine (takes_string rest').bind fun key rest₁ hkey => ?_
        rw [utf8Length_text] at hkey
        refine (hmember s key rest₁).bind fun s' rest₂ hs₂ => (ih s' rest₂).mono ?_
        have hquote : ('"' : Char).utf8Size = 1 := rfl
        omega
      · exact .error
      · exact .error
    · exact .error

theorem takes_members
    (hmember : ∀ s key cs, Takes φ (φ s + utf8Length cs) (member s key cs)) (s : σ)
    (cs : List Char) : Takes φ (φ s + utf8Length cs) (members member s cs) := by
  have hs := skipSpace_le cs
  unfold members
  split
  · exact .error
  · next rest hrest =>
    rw [hrest] at hs
    have := utf8Length_cons_pos '}' rest
    exact .ok (by omega)
  · next rest hrest =>
    rw [hrest, Text.utf8Length_cons] at hs
    refine (takes_string rest).bind fun key rest₁ hkey => ?_
    rw [utf8Length_text] at hkey
    refine (hmember s key rest₁).bind fun s' rest₂ hs₂ =>
      (takes_moreMembers hmember _ s' rest₂).mono ?_
    have hquote : ('"' : Char).utf8Size = 1 := rfl
    omega
  · exact .error

end

/-! ## Values -/

/-- The bytes that a string takes where it is written as a value. Nothing else has weight. -/
def Content.weight : Content → Nat
  | .text s => utf8Length (Write.text s)
  | _ => 0

/-- The strings among members together. -/
def weights (ms : List (String × Content)) : Nat := (ms.map fun e => e.2.weight).sum

theorem takes_keep {reader : Reader Content}
    (hvalue : ∀ cs, Takes Content.weight (utf8Length cs) (reader cs))
    (seen : List (String × Content)) (key : String) (cs : List Char) :
    Takes weights (weights seen + utf8Length cs) (keep reader seen key cs) := by
  unfold keep
  refine Takes.after (fun rest h => colon_le h) fun rest hrest => ?_
  refine (hvalue rest).bind fun v rest' hv => .ok ?_
  rw [weights, List.map_cons, List.sum_cons]
  show v.weight + weights seen + utf8Length rest' ≤ _
  omega

/-- A value, if those inside its brackets are known. -/
theorem takes_value_of (n : Nat)
    (hinner : ∀ k, n = k + 1 → ∀ cs, Takes Content.weight (utf8Length cs) (value k cs))
    (cs : List Char) : Takes Content.weight (utf8Length cs) (value n cs) := by
  have hs := skipSpace_le cs
  -- what has no weight only has to leave no more text than there was
  have hword : ∀ (ws : List Char) (c : Content) (d : Char) (rest : List Char), c.weight = 0 →
      utf8Length (d :: rest) ≤ utf8Length cs →
      Takes Content.weight (utf8Length cs) (word ws rest >>= fun rest => .ok (c, rest)) := by
    intro ws c d rest hc hrest
    refine Takes.after (fun rest' h => word_le ws h) fun rest' h => .ok ?_
    have := utf8Length_cons_pos d rest
    omega
  have hnumber : ∀ (negative : Bool) (rest : List Char), utf8Length rest ≤ utf8Length cs →
      Takes Content.weight (utf8Length cs)
        (numeral negative rest >>= fun x => .ok (.number x.1, x.2)) := by
    intro negative rest hrest
    refine (takes_numeral negative rest).bind fun x rest' h => .ok ?_
    rw [weightless] at h
    show 0 + utf8Length rest' ≤ _
    omega
  unfold value
  split
  · exact .error
  · next rest hrest => exact hword _ _ _ rest rfl (hrest ▸ hs)
  · next rest hrest => exact hword _ _ _ rest rfl (hrest ▸ hs)
  · next rest hrest => exact hword _ _ _ rest rfl (hrest ▸ hs)
  · next rest hrest =>
    exact hnumber true rest
      (Nat.le_trans (Nat.le_of_lt (utf8Length_cons_pos '-' rest)) (hrest ▸ hs))
  · next rest hrest =>
    rw [hrest, Text.utf8Length_cons] at hs
    refine (takes_string rest).bind fun s rest' h => .ok ?_
    have hquote : ('"' : Char).utf8Size = 1 := rfl
    show utf8Length (Write.text s) + utf8Length rest' ≤ _
    omega
  · next rest hrest =>
    rw [hrest] at hs
    have hbracket := utf8Length_cons_pos '[' rest
    cases n with
    | zero => exact .error
    | succ k =>
      refine (takes_items (hinner k rfl) rest).bind fun xs rest' h => .ok ?_
      show 0 + utf8Length rest' ≤ _
      omega
  · next rest hrest =>
    rw [hrest] at hs
    have hbrace := utf8Length_cons_pos '{' rest
    cases n with
    | zero => exact .error
    | succ k =>
      refine (takes_members (takes_keep (hinner k rfl)) [] rest).bind fun ms rest' h => .ok ?_
      have hnil : weights [] = 0 := rfl
      show 0 + utf8Length rest' ≤ _
      omega
  · next d rest _ _ _ _ _ _ _ hrest =>
    split
    · exact hnumber false _ (hrest ▸ hs)
    · exact .error

theorem takes_value (n : Nat) (cs : List Char) :
    Takes Content.weight (utf8Length cs) (value n cs) := by
  induction n generalizing cs with
  | zero => exact takes_value_of 0 (fun k h => nomatch h) cs
  | succ n ih => exact takes_value_of (n + 1) (fun k h cs => by cases h; exact ih cs) cs

theorem takes_mapError {α : Type} {n : Nat} {x : Except Cause α} {rest : List Char}
    {f : Cause → Fault} (h : utf8Length rest ≤ n) :
    Takes weightless n (((·, rest) <$> x).mapError f) := by
  cases x with
  | error e => exact .error
  | ok a =>
    refine .ok ?_
    rw [weightless, Nat.zero_add]
    exact h

theorem takes_scalar {α : Type} (convert : Content → Except Cause α) (cs : List Char) :
    Takes weightless (utf8Length cs) (scalar convert cs) := by
  have hs := skipSpace_le cs
  unfold scalar
  split
  · next rest hrest =>
    exact takes_mapError (Nat.le_trans (Nat.le_of_lt (utf8Length_cons_pos _ rest)) (hrest ▸ hs))
  · next rest hrest =>
    exact takes_mapError (Nat.le_trans (Nat.le_of_lt (utf8Length_cons_pos _ rest)) (hrest ▸ hs))
  · exact (takes_value 0 _).bind fun c rest' h => takes_mapError (by omega)

/-- What is refused whatever it is takes nothing. -/
theorem takes_refused {α : Type} {w : α → Nat} {n : Nat} {f : Content → Cause} (cs : List Char) :
    Takes w n (scalar (fun c => .error (f c)) cs) := by
  unfold scalar
  split
  · exact .error
  · exact .error
  · refine (takes_value 0 _).bind fun c rest' h => ?_
    exact .error

theorem nextItem_le {first : Bool} {cs rest : List Char}
    (h : nextItem first cs = .ok (some rest)) : utf8Length rest ≤ utf8Length cs := by
  have hs := skipSpace_le cs
  unfold nextItem at h
  split at h
  · cases h
  · cases h
  · next r hr =>
    rw [hr] at hs
    split at h
    · cases h
      exact hs
    · have hs' := skipSpace_le r
      have hcomma := utf8Length_cons_pos ',' r
      split at h
      · cases h
      · cases h
      · cases h
        omega
  · split at h
    · cases h
      exact hs
    · cases h

/-! ## Records -/

section

variable {σ : Type} {ψ : σ → Nat} {slots : List (Slot σ (Content → Except Cause σ))}

/-- If no slot makes a record heavier by more than what is put into it, the members together do
not. -/
theorem fillByName_le
    (hslots : ∀ slot ∈ slots, ∀ s c s', slot.read s c = .ok s' → ψ s' ≤ ψ s + c.weight)
    {s s' : σ} {ms : List (String × Content)} (h : fillByName slots s ms = .ok s') :
    ψ s' ≤ ψ s + weights ms := by
  induction ms generalizing s with
  | nil =>
    cases h
    exact Nat.le_add_right _ _
  | cons m ms ih =>
    obtain ⟨key, c⟩ := m
    rw [fillByName] at h
    have hsum : weights ((key, c) :: ms) = c.weight + weights ms := List.sum_cons
    rw [hsum]
    split at h
    · have := ih h
      omega
    · next slot hslot =>
      split at h
      · cases h
      · cases hread : slot.read s c with
        | error e => rw [hread] at h; cases h
        | ok s₁ =>
          rw [hread] at h
          have := ih h
          have := hslots slot (List.mem_of_find?_eq_some hslot) s c s₁ hread
          omega

theorem fillByPosition_le
    (hslots : ∀ slot ∈ slots, ∀ s c s', slot.read s c = .ok s' → ψ s' ≤ ψ s + c.weight)
    {name : String} {count n : Nat} {s s' : σ} {xs : List Content}
    (h : fillByPosition name count slots n s xs = .ok s') :
    ψ s' ≤ ψ s + (xs.map Content.weight).sum := by
  induction slots generalizing n s xs with
  | nil =>
    cases xs with
    | nil =>
      cases h
      exact Nat.le_add_right _ _
    | cons c xs => cases h
  | cons slot slots ih =>
    rw [List.forall_mem_cons] at hslots
    cases xs with
    | nil =>
      rw [fillByPosition] at h
      split at h
      · cases h
      · exact ih hslots.2 h
    | cons c xs =>
      rw [fillByPosition] at h
      rw [List.map_cons, List.sum_cons]
      cases hread : slot.read s c with
      | error e => rw [hread] at h; cases h
      | ok s₁ =>
        rw [hread] at h
        have := ih hslots.2 h
        have := hslots.1 s c s₁ hread
        omega

/-- The strings in an object or a list together. -/
def Content.total : Content → Nat
  | .object ms => weights ms
  | .list xs => (xs.map Content.weight).sum
  | _ => 0

theorem recordOf_le
    (hslots : ∀ slot ∈ slots, ∀ s c s', slot.read s c = .ok s' → ψ s' ≤ ψ s + c.weight)
    {name : String} {s s' : σ} {c : Content} (h : recordOf name slots s c = .ok s') :
    ψ s' ≤ ψ s + c.total := by
  unfold recordOf at h
  split at h
  · exact fillByName_le hslots h
  · exact fillByPosition_le hslots h
  · cases h

end

end Json

end PromptGateway
