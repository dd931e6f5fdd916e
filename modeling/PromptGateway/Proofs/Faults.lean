import PromptGateway.Proofs.Quotations

/-
  What is reported of a malformed line.

  Most faults are worded once and for all. The others quote a value of the document, and a value
  is no longer, where it is written again, than the text it was read from. `Yields Q P x` says of
  the result of a reader that a fault satisfies `Q` and a value `P`.

    1. The readers of a document report nothing but what is plain, and the numbers that they read
       are of 64 bits (`yields_value`).
    2. The kind of a message, and the envelope around its members, are reported briefly
       (`WireMessage.yields_readEnvelope`).
    3. So is what is wrong with a record (`yields_recordOf`), of whatever kind
       (`WireMessage.yields_ofContent`).
    4. `WireMessage.malformed_le`: a report is at most about seven times as long as the line.
-/

namespace PromptGateway

open Text (utf8Length)

namespace Json

/-- A fault, if there is one, satisfies `Q`, and what there is otherwise satisfies `P`. -/
structure Yields {ε α : Type} (Q : ε → Prop) (P : α → Prop) (x : Except ε α) : Prop where
  fault : ∀ e, x = .error e → Q e
  value : ∀ a, x = .ok a → P a

/-- What is true of everything. -/
def anything {α : Type} (_ : α) : Prop := True

namespace Yields

variable {ε ε' α β : Type} {Q Q' : ε → Prop} {P P' : α → Prop} {R : β → Prop}
variable {x : Except ε α}

theorem ok {a : α} (h : P a) : Yields Q P (.ok a) where
  fault _ he := nomatch he
  value _ ha := by
    cases ha
    exact h

theorem error {e : ε} (h : Q e) : Yields Q P (.error e) where
  fault _ he := by
    cases he
    exact h
  value _ ha := nomatch ha

theorem mono (hx : Yields Q P x) (hQ : ∀ e, Q e → Q' e) (hP : ∀ a, P a → P' a) :
    Yields Q' P' x where
  fault e he := hQ e (hx.fault e he)
  value a ha := hP a (hx.value a ha)

theorem bind {f : α → Except ε β} (hx : Yields Q P x) (hf : ∀ a, P a → Yields Q R (f a)) :
    Yields Q R (x >>= f) := by
  cases hok : x with
  | error e => exact .error (hx.fault e hok)
  | ok a => exact hf a (hx.value a hok)

theorem map {f : α → β} (hx : Yields Q P x) (hf : ∀ a, P a → R (f a)) : Yields Q R (f <$> x) := by
  cases hok : x with
  | error e => exact .error (hx.fault e hok)
  | ok a => exact .ok (hf a (hx.value a hok))

theorem mapError {g : ε → ε'} {Q' : ε' → Prop} (hx : Yields Q P x) (hg : ∀ e, Q e → Q' (g e)) :
    Yields Q' P (x.mapError g) := by
  cases hok : x with
  | error e => exact .error (hg e (hx.fault e hok))
  | ok a => exact .ok (hx.value a hok)

/-- What is known of the value of a reader by other means. -/
theorem and {P' : α → Prop} (hx : Yields Q P x) (h : ∀ a, x = .ok a → P' a) :
    Yields Q (fun a => P a ∧ P' a) x where
  fault := hx.fault
  value a ha := ⟨hx.value a ha, h a ha⟩

end Yields

/-- A fault with a plain cause. -/
def Fault.Plain (f : Fault) : Prop := f.cause.Plain

/-- A fault with a brief cause. -/
def Fault.Brief (n : Nat) (f : Fault) : Prop := f.cause.Brief n

theorem Fault.Plain.brief {n : Nat} {f : Fault} (h : f.Plain) : f.Brief n := Cause.Plain.brief h

/-! ## Tokens -/

/-- The text after a character that comes next. -/
theorem le_of_skipSpace {c : Char} {cs rest : List Char} (h : skipSpace cs = c :: rest) :
    utf8Length rest ≤ utf8Length cs :=
  calc utf8Length rest ≤ utf8Length (c :: rest) := Nat.le_of_lt (utf8Length_cons_pos c rest)
    _ = utf8Length (skipSpace cs) := by rw [h]
    _ ≤ utf8Length cs := skipSpace_le cs

theorem yields_word (ws cs : List Char) : Yields Fault.Plain anything (word ws cs) := by
  induction ws generalizing cs with
  | nil => exact .ok trivial
  | cons w ws ih =>
    cases cs with
    | nil => exact .error trivial
    | cons c cs =>
      rw [word]
      split
      · exact ih cs
      · exact .error trivial

theorem yields_colon (cs : List Char) :
    Yields Fault.Plain (fun rest => utf8Length rest ≤ utf8Length cs) (colon cs) := by
  unfold colon
  split
  · exact .error trivial
  · next rest hrest => exact .ok (le_of_skipSpace hrest)
  · exact .error trivial

theorem plain_badHexEscape (cs : List Char) : (badHexEscape cs).Plain := by
  unfold badHexEscape
  split <;> trivial

theorem yields_hexEscape (cs : List Char) : Yields Fault.Plain anything (hexEscape cs) := by
  unfold hexEscape
  split
  · split
    · exact .ok trivial
    · exact .error (plain_badHexEscape _)
  · exact .error (plain_badHexEscape _)

theorem yields_unicodeEscape (cs : List Char) :
    Yields Fault.Plain anything (unicodeEscape cs) := by
  unfold unicodeEscape
  refine (yields_hexEscape cs).bind fun (n, rest) _ => ?_
  dsimp only
  split
  · exact .error trivial
  split
  · exact .ok trivial
  split
  · exact .error trivial
  · exact .error trivial
  · refine (yields_hexEscape _).bind fun (m, rest') _ => ?_
    dsimp only
    split
    · exact .ok trivial
    · exact .error trivial
  · exact .error trivial
  · exact .error trivial

theorem yields_escape (cs : List Char) : Yields Fault.Plain anything (escape cs) := by
  unfold escape
  split
  · exact .error trivial
  · exact yields_unicodeEscape _
  · split
    · exact .ok trivial
    · exact .error trivial

theorem yields_stringRest (fuel : Nat) (seen cs : List Char) :
    Yields Fault.Plain anything (stringRest fuel seen cs) := by
  induction fuel generalizing seen cs with
  | zero => exact .error trivial
  | succ fuel ih =>
    unfold stringRest
    split
    · exact .error trivial
    · exact .ok trivial
    · next rest => exact (yields_escape rest).bind fun (c, rest') _ => ih (c :: seen) rest'
    · split
      · exact .error trivial
      · exact ih _ _

/-- A string whose opening quote has been read. -/
theorem yields_string (cs : List Char) :
    Yields Fault.Plain (fun x => utf8Length x.2 ≤ utf8Length cs) (string cs) := by
  have hplain : Yields Fault.Plain anything (string cs) :=
    (yields_stringRest _ [] cs).bind fun _ _ => .ok trivial
  refine (hplain.and fun x hx => (takes_string cs).le x.1 x.2 hx).mono (fun _ h => h) fun x hx => ?_
  have htaken := hx.2
  rw [utf8Length_text] at htaken
  omega

/-! ## Numbers -/

/-- A number of 64 bits has been read. -/
def moderateNumeral (x : Numeral × List Char) : Prop := x.1.Moderate

theorem yields_finish (negative : Bool) (n : Nat) (e : Int) (rest : List Char) :
    Yields Fault.Plain moderateNumeral (finish negative n e rest) := by
  unfold finish
  split
  · next x hx =>
    refine .ok fun d hd => ?_
    cases hd
    exact magnitude_moderate hx
  · exact .error trivial

theorem yields_exponentPart (negative : Bool) (n : Nat) (e : Int) (cs : List Char) :
    Yields Fault.Plain moderateNumeral (exponentPart negative n e cs) := by
  unfold exponentPart
  split
  next down ds _ =>
    cases ds with
    | nil => exact .error trivial
    | cons d ds =>
      dsimp only
      split
      · exact .error trivial
      · split
        · exact yields_finish ..
        · split
          · exact .error trivial
          · refine .ok fun d hd => ?_
            cases hd
            exact Number.zero_moderate

theorem yields_fractionPart (negative : Bool) (n : Nat) (e : Int) (cs : List Char) :
    Yields Fault.Plain moderateNumeral (fractionPart negative n e cs) := by
  unfold fractionPart
  dsimp only
  split
  · refine .error ?_
    split <;> trivial
  · split
    · exact yields_exponentPart ..
    · exact yields_exponentPart ..
    · exact yields_finish ..

theorem yields_afterDigits (negative : Bool) (ds rest : List Char) :
    Yields Fault.Plain moderateNumeral (afterDigits negative ds rest) := by
  unfold afterDigits
  dsimp only
  split
  · exact yields_fractionPart ..
  · exact yields_exponentPart ..
  · exact yields_exponentPart ..
  · split
    · exact .ok (wholeNumeral_moderate negative (absorb_le (Nat.zero_le _) ds))
    · exact yields_finish ..

theorem yields_numeral (negative : Bool) (cs : List Char) :
    Yields Fault.Plain moderateNumeral (numeral negative cs) := by
  unfold numeral
  split
  · exact .error trivial
  · split
    · split
      · exact .error trivial
      · exact yields_afterDigits ..
    · exact yields_afterDigits ..
  · split
    · exact yields_afterDigits ..
    · exact .error trivial

/-! ## Lists and objects -/

section

variable {α σ : Type} {Q : Fault → Prop}

/-- What each item keeps of the items so far and the text that is left, the whole list keeps. -/
theorem yields_moreItems {I : List α → List Char → Prop} {item : Reader α}
    (hplain : ∀ f, f.Plain → Q f)
    (hless : ∀ xs cs rest, utf8Length rest ≤ utf8Length cs → I xs cs → I xs rest)
    (hitem : ∀ xs cs, I xs cs → Yields Q (fun x => I (x.1 :: xs) x.2) (item cs)) (fuel : Nat)
    {seen : List α} {cs : List Char} (h : I seen cs) :
    Yields Q (fun x => I x.1.reverse x.2) (moreItems item fuel seen cs) := by
  induction fuel generalizing seen cs with
  | zero => exact .error (hplain _ trivial)
  | succ fuel ih =>
    unfold moreItems
    split
    · exact .error (hplain _ trivial)
    · next rest hrest =>
      refine .ok ?_
      rw [List.reverse_reverse]
      exact hless _ _ _ (le_of_skipSpace hrest) h
    · next rest hrest =>
      have hleft := Nat.le_trans (skipSpace_le rest) (le_of_skipSpace hrest)
      split
      · exact .error (hplain _ trivial)
      · exact .error (hplain _ trivial)
      · exact (hitem _ _ (hless _ _ _ hleft h)).bind fun _ hx => ih hx
    · exact .error (hplain _ trivial)

theorem length_moreItems_le {item : Reader α} {fuel : Nat} {seen xs : List α}
    {cs rest : List Char} (h : moreItems item fuel seen cs = .ok (xs, rest)) :
    xs.length ≤ seen.length + fuel := by
  induction fuel generalizing seen cs with
  | zero => cases h
  | succ fuel ih =>
    unfold moreItems at h
    split at h
    · cases h
    · cases h
      rw [List.length_reverse]
      exact Nat.le_add_right _ _
    · split at h
      · cases h
      · cases h
      · next rest' _ _ _ _ =>
        cases hitem : item (skipSpace rest') with
        | error f => rw [hitem] at h; cases h
        | ok x =>
          rw [hitem] at h
          have := ih h
          rw [List.length_cons] at this
          omega
    · cases h

theorem yields_items {item : Reader α} (hitem : ∀ cs, Yields Fault.Plain anything (item cs))
    (cs : List Char) : Yields Fault.Plain anything (items item cs) := by
  unfold items
  split
  · exact .error trivial
  · exact .ok trivial
  · exact (hitem _).bind fun (x, rest) _ =>
      yields_moreItems (I := fun _ _ => True) (fun _ h => h) (fun _ _ _ _ h => h)
        (fun _ cs _ => hitem cs) (rest.length + 1) trivial

variable {I : σ → List Char → Prop} {member : σ → String → Reader σ}

/-- What each member keeps of the state and the text that is left, the whole object keeps. -/
theorem yields_moreMembers (hplain : ∀ f, f.Plain → Q f)
    (hless : ∀ s cs rest, utf8Length rest ≤ utf8Length cs → I s cs → I s rest)
    (hmember : ∀ s key cs, I s cs → Yields Q (fun x => I x.1 x.2) (member s key cs)) (fuel : Nat)
    {s : σ} {cs : List Char} (h : I s cs) :
    Yields Q (fun x => I x.1 x.2) (moreMembers member fuel s cs) := by
  induction fuel generalizing s cs with
  | zero => exact .error (hplain _ trivial)
  | succ fuel ih =>
    unfold moreMembers
    split
    · exact .error (hplain _ trivial)
    · next rest hrest => exact .ok (hless _ _ _ (le_of_skipSpace hrest) h)
    · next rest hrest =>
      split
      · exact .error (hplain _ trivial)
      · next rest' hrest' =>
        have hleft := Nat.le_trans (le_of_skipSpace hrest') (le_of_skipSpace hrest)
        refine ((yields_string rest').mono hplain fun _ hx => hx).bind fun x hx => ?_
        obtain ⟨key, rest₁⟩ := x
        exact (hmember s key rest₁ (hless _ _ _ (Nat.le_trans hx hleft) h)).bind fun _ hy => ih hy
      · exact .error (hplain _ trivial)
      · exact .error (hplain _ trivial)
    · exact .error (hplain _ trivial)

theorem yields_members (hplain : ∀ f, f.Plain → Q f)
    (hless : ∀ s cs rest, utf8Length rest ≤ utf8Length cs → I s cs → I s rest)
    (hmember : ∀ s key cs, I s cs → Yields Q (fun x => I x.1 x.2) (member s key cs))
    {s : σ} {cs : List Char} (h : I s cs) :
    Yields Q (fun x => I x.1 x.2) (members member s cs) := by
  unfold members
  split
  · exact .error (hplain _ trivial)
  · next rest hrest => exact .ok (hless _ _ _ (le_of_skipSpace hrest) h)
  · next rest hrest =>
    refine ((yields_string rest).mono hplain fun _ hx => hx).bind fun x hx => ?_
    obtain ⟨key, rest₁⟩ := x
    have hleft := Nat.le_trans hx (le_of_skipSpace hrest)
    exact (hmember s key rest₁ (hless _ _ _ hleft h)).bind fun _ hy =>
      yields_moreMembers hplain hless hmember _ hy
  · exact .error (hplain _ trivial)

end

/-! ## Values -/

/-- A value, if those inside its brackets are known. -/
theorem yields_value_of (n : Nat)
    (hinner : ∀ k, n = k + 1 → ∀ cs, Yields Fault.Plain anything (value k cs)) (cs : List Char) :
    Yields Fault.Plain (fun x => x.1.Moderate) (value n cs) := by
  have hword : ∀ (ws rest : List Char) (c : Content), (∀ x, c ≠ .number x) →
      Yields Fault.Plain (fun x => x.1.Moderate)
        (word ws rest >>= fun rest => .ok (c, rest)) := fun ws rest c hc =>
    (yields_word ws rest).bind fun _ _ => .ok fun x hx => absurd hx (hc x)
  have hnumber : ∀ (negative : Bool) (rest : List Char),
      Yields Fault.Plain (fun x => x.1.Moderate)
        (numeral negative rest >>= fun x => .ok (Content.number x.1, x.2)) := by
    refine fun negative rest => (yields_numeral negative rest).bind fun y hy => .ok fun x hx => ?_
    cases hx
    exact hy
  unfold value
  split
  · exact .error trivial
  · exact hword _ _ _ nofun
  · exact hword _ _ _ nofun
  · exact hword _ _ _ nofun
  · exact hnumber true _
  · exact (yields_string _).bind fun _ _ => .ok nofun
  · cases n with
    | zero => exact .error trivial
    | succ k => exact (yields_items (hinner k rfl) _).bind fun _ _ => .ok nofun
  · cases n with
    | zero => exact .error trivial
    | succ k =>
      refine (yields_members (I := fun _ _ => True) (fun _ h => h) (fun _ _ _ _ h => h)
        (fun seen key cs _ => ?_) trivial).bind fun _ _ => .ok nofun
      exact (yields_colon cs).bind fun rest _ => (hinner k rfl rest).bind fun _ _ => .ok trivial
  · split
    · exact hnumber false _
    · exact .error trivial

theorem yields_value (n : Nat) (cs : List Char) :
    Yields Fault.Plain (fun x => x.1.Moderate) (value n cs) := by
  induction n generalizing cs with
  | zero => exact yields_value_of 0 (fun k h => nomatch h) cs
  | succ n ih =>
    refine yields_value_of (n + 1) (fun k h cs => ?_) cs
    cases h
    exact (ih cs).mono (fun _ h => h) fun _ _ => trivial

/-- A value that is read from at most `n` bytes may be quoted. -/
theorem yields_quotable {n k : Nat} {cs : List Char} (h : utf8Length cs ≤ k) (depth : Nat)
    (hk : k ≤ n) :
    Yields (Fault.Brief n) (fun x => x.1.Quotable n ∧ x.1.weight + utf8Length x.2 ≤ k)
      (value depth cs) := by
  refine ((yields_value depth cs).and fun x hx => (takes_value depth cs).le x.1 x.2 hx).mono
    (fun _ h => h.brief) fun x hx => ?_
  exact ⟨⟨hx.1, by omega⟩, by omega⟩

theorem yields_atEnd (cs : List Char) : Yields Fault.Plain anything (atEnd cs) := by
  unfold atEnd
  split
  · exact .ok trivial
  · exact .error trivial

theorem yields_nextItem (first : Bool) (cs : List Char) :
    Yields Fault.Plain (fun x => ∀ rest, x = some rest → utf8Length rest ≤ utf8Length cs)
      (nextItem first cs) := by
  have hplain : Yields Fault.Plain anything (nextItem first cs) := by
    unfold nextItem
    split
    · exact .error trivial
    · exact .ok trivial
    · split
      · exact .ok trivial
      · split
        · exact .error trivial
        · exact .error trivial
        · exact .ok trivial
    · split
      · exact .ok trivial
      · exact .error trivial
  refine (hplain.and fun _ h => h).mono (fun _ h => h) fun x hx rest hrest => ?_
  subst hrest
  exact nextItem_le hx.2

/-- A value that is converted as soon as it has been read. -/
theorem yields_scalar {α : Type} {n : Nat} {P : α → Prop} {convert : Content → Except Cause α}
    (hconvert : ∀ c, c.Quotable n → Yields (Cause.Brief n) P (convert c)) {cs : List Char}
    (h : utf8Length cs ≤ n) : Yields (Fault.Brief n) (fun x => P x.1) (scalar convert cs) := by
  have hs := skipSpace_le cs
  have hlocated : ∀ (c : Content) (rest rest' : List Char), c.Quotable n →
      Yields (Fault.Brief n) (fun x => P x.1)
        (((·, rest) <$> convert c).mapError (.here · rest')) := by
    intro c rest rest' hc
    refine Yields.mapError ?_ fun _ he => he
    exact (hconvert c hc).map fun _ ha => ha
  unfold scalar
  split
  · exact hlocated _ _ _ ⟨nofun, Nat.zero_le _⟩
  · exact hlocated _ _ _ ⟨nofun, Nat.zero_le _⟩
  · exact (yields_quotable (Nat.le_trans hs h) 0 (Nat.le_refl n)).bind fun (c, rest) hc =>
      hlocated c rest rest hc.1

/-! ## Records -/

section

variable {n : Nat} {c : Content}

theorem yields_asText (h : c.Quotable n) : Yields (Cause.Brief n) anything c.asText := by
  unfold Content.asText
  split
  · exact .ok trivial
  · exact .error (brief_mismatch h (by decide))

theorem yields_asBoolean (h : c.Quotable n) : Yields (Cause.Brief n) anything c.asBoolean := by
  unfold Content.asBoolean
  split
  · exact .ok trivial
  · exact .error (brief_mismatch h (by decide))

theorem yields_asInteger {wanted : String} (low high : Int) (h : c.Quotable n)
    (hwanted : bodySize wanted ≤ 41) :
    Yields (Cause.Brief n) anything (c.asInteger wanted low high) := by
  unfold Content.asInteger
  split
  · split
    · exact .ok trivial
    · exact .error (brief_outOfRange (h.number _ rfl) hwanted)
  · exact .error (brief_mismatch h hwanted)

theorem yields_asUSize (h : c.Quotable n) : Yields (Cause.Brief n) anything c.asUSize :=
  (yields_asInteger _ _ h (by decide)).map fun _ _ => trivial

theorem yields_asUInt32 (h : c.Quotable n) : Yields (Cause.Brief n) anything c.asUInt32 :=
  (yields_asInteger _ _ h (by decide)).map fun _ _ => trivial

theorem yields_asInt32 (h : c.Quotable n) : Yields (Cause.Brief n) anything c.asInt32 :=
  (yields_asInteger _ _ h (by decide)).map fun _ _ => trivial

theorem yields_asFloat32 (h : c.Quotable n) : Yields (Cause.Brief n) anything c.asFloat32 := by
  unfold Content.asFloat32
  split
  · exact .ok trivial
  · exact .ok trivial
  · exact .error (brief_mismatch h (by decide))

theorem yields_asOptional {α : Type} {read : Content → Except Cause α}
    (hread : ∀ c, c.Quotable n → Yields (Cause.Brief n) anything (read c)) (h : c.Quotable n) :
    Yields (Cause.Brief n) anything (c.asOptional read) := by
  unfold Content.asOptional
  split
  · exact .ok trivial
  · exact (hread _ h).map fun _ _ => trivial

/-- A slot with a short name, in which faults are reported briefly. -/
structure Slot.Brief {σ : Type} (n : Nat) (slot : Slot σ (Content → Except Cause σ)) : Prop where
  name : bodySize slot.name ≤ 41
  read : ∀ s c, c.Quotable n → Yields (Cause.Brief n) anything (slot.read s c)

theorem Slot.Brief.keeping {σ α : Type} {name : String} {get : σ → Option α} {set : σ → α → σ}
    {convert : Content → Except Cause α} {required : Bool} (hname : bodySize name ≤ 41)
    (hconvert : ∀ c, c.Quotable n → Yields (Cause.Brief n) anything (convert c)) :
    (Slot.keeping name get set convert required).Brief n where
  name := hname
  read _ c hc := (hconvert c hc).map fun _ _ => trivial

theorem yields_require {α : Type} {name : String} (hname : bodySize name ≤ 41) (o : Option α) :
    Yields (Cause.Brief n) anything (require name o) := by
  cases o with
  | none => exact .error (brief_missingField hname)
  | some a => exact .ok trivial

theorem bodySize_elements_le {k : Nat} (hk : k < 10 ^ 6) : bodySize (elements k) ≤ 15 := by
  have hword : bodySize " elements" = 9 := by decide
  have hcount := bodySize_nat_le (by decide) hk
  unfold elements
  split
  · decide
  · show bodySize (toString k ++ " elements") ≤ 15
    rw [bodySize_append]
    omega

/-- What an envelope holds may be quoted, and is not too much to be counted. -/
def Content.Held (n : Nat) : Content → Prop
  | .object ms => ∀ m ∈ ms, m.2.Quotable n
  | .list xs => xs.length ≤ maxMessageBytes + 1 ∧ ∀ x ∈ xs, x.Quotable n
  | _ => False

/-- The items that have been read so far may be quoted. -/
structure ItemsHeld (n : Nat) (xs : List Content) (cs : List Char) : Prop where
  left : utf8Length cs ≤ n
  items : ∀ x ∈ xs, x.Quotable n

/-- The items after the first one of a list that is read from at most `n` bytes. -/
theorem yields_itemsAfterFirst {cs : List Char} (h : utf8Length cs ≤ n)
    (hn : n ≤ maxMessageBytes) (depth : Nat) :
    Yields (Fault.Brief n) (fun x => (Content.list x.1).Held n)
      (itemsAfterFirst (value depth) cs) := by
  have hitem : ∀ xs cs, ItemsHeld n xs cs →
      Yields (Fault.Brief n) (fun x => ItemsHeld n (x.1 :: xs) x.2) (value depth cs) := by
    intro xs cs hxs
    refine (yields_quotable hxs.left depth (Nat.le_refl n)).mono (fun _ hf => hf) fun x hx => ?_
    exact ⟨Nat.le_trans (Nat.le_add_left ..) hx.2, List.forall_mem_cons.mpr ⟨hx.1, hxs.items⟩⟩
  have hitems : Yields (Fault.Brief n) (fun x => ItemsHeld n x.1.reverse x.2)
      (itemsAfterFirst (value depth) cs) :=
    yields_moreItems (fun _ hf => hf.brief)
      (fun _ _ _ hle hx => ⟨Nat.le_trans hle hx.left, hx.items⟩) hitem (cs.length + 1)
      ⟨h, List.forall_mem_nil _⟩
  refine (hitems.and fun _ hx => hx).mono (fun _ hf => hf) fun x hx => ⟨?_, fun y hy => ?_⟩
  · -- an item for each character at most
    have hcount : x.1.length ≤ 0 + (cs.length + 1) := length_moreItems_le hx.2
    have hchars := Text.length_le_utf8Length cs
    omega
  · exact hx.1.items y (List.mem_reverse.mpr hy)

variable {σ : Type} {slots : List (Slot σ (Content → Except Cause σ))}

theorem yields_fillByName (hslots : ∀ slot ∈ slots, slot.Brief n) {ms : List (String × Content)}
    (hms : ∀ m ∈ ms, m.2.Quotable n) (s : σ) :
    Yields (Cause.Brief n) anything (fillByName slots s ms) := by
  induction ms generalizing s with
  | nil => exact .ok trivial
  | cons m ms ih =>
    obtain ⟨key, c⟩ := m
    rw [List.forall_mem_cons] at hms
    rw [fillByName]
    split
    · exact ih hms.2 s
    · next slot hslot =>
      have hbrief := hslots slot (List.mem_of_find?_eq_some hslot)
      split
      · have hkey : slot.name = key := by simpa using List.find?_some hslot
        exact .error (brief_duplicateField (hkey ▸ hbrief.name))
      · exact (hbrief.read s c hms.1).bind fun s' _ => ih hms.2 s'

theorem yields_fillByPosition {name : String} {count : Nat}
    (hname : bodySize s!"struct {name} with {elements count}" ≤ 41)
    (hslots : ∀ slot ∈ slots, slot.Brief n) {xs : List Content} (hxs : ∀ x ∈ xs, x.Quotable n)
    {before : Nat} (hcount : before + slots.length + xs.length < 10 ^ 6) (s : σ) :
    Yields (Cause.Brief n) anything (fillByPosition name count slots before s xs) := by
  induction slots generalizing before s xs with
  | nil =>
    cases xs with
    | nil => exact .ok trivial
    | cons c xs =>
      rw [List.length_nil] at hcount
      refine .error (brief_wrongLength (by omega) ?_)
      have hwords : bodySize " in sequence" = 12 := by decide
      have helements := bodySize_elements_le (k := before) (by omega)
      rw [bodySize_append]
      omega
  | cons slot slots ih =>
    rw [List.forall_mem_cons] at hslots
    rw [List.length_cons] at hcount
    cases xs with
    | nil =>
      rw [fillByPosition]
      split
      · exact .error (brief_wrongLength (by omega) hname)
      · exact ih hslots.2 hxs (by omega) s
    | cons c xs =>
      rw [List.forall_mem_cons] at hxs
      rw [List.length_cons] at hcount
      rw [fillByPosition]
      exact (hslots.1.read s c hxs.1).bind fun s' _ => ih hslots.2 hxs.2 (by omega) s'

theorem yields_recordOf {name : String} {start : σ}
    (hname : bodySize s!"struct {name} with {elements slots.length}" ≤ 41)
    (hslots : ∀ slot ∈ slots, slot.Brief n) (hcount : slots.length ≤ 6) (h : c.Held n) :
    Yields (Cause.Brief n) anything (recordOf name slots start c) := by
  have hceiling : maxMessageBytes = 65536 := rfl
  cases c with
  | object ms => exact yields_fillByName hslots h start
  | list xs => exact yields_fillByPosition hname hslots h.2 (by have := h.1; omega) start
  | _ => exact h.elim

end

end Json

open Json (Cause Content Fault Yields anything)

variable {n : Nat} {c : Content}

/-! ## Messages -/

namespace InferenceRequest

theorem slots_brief : ∀ slot ∈ slots, slot.Brief n := by
  simp only [slots, List.forall_mem_cons]
  exact ⟨.keeping (by decide) fun _ => Json.yields_asOptional fun _ => Json.yields_asText,
    .keeping (by decide) fun _ => Json.yields_asText,
    .keeping (by decide) fun _ => Json.yields_asText,
    .keeping (by decide) fun _ => Json.yields_asUInt32,
    .keeping (by decide) fun _ => Json.yields_asBoolean,
    .keeping (by decide) fun _ => Json.yields_asInt32, List.forall_mem_nil _⟩

theorem yields_ofContent (h : c.Held n) : Yields (Cause.Brief n) anything (ofContent c) :=
  (Json.yields_recordOf (by decide) slots_brief (by decide) h).bind fun _ _ => .ok trivial

end InferenceRequest

namespace TaskAssignment

theorem slots_brief : ∀ slot ∈ slots, slot.Brief n := by
  simp only [slots, List.forall_mem_cons]
  exact ⟨.keeping (by decide) fun _ => Json.yields_asText,
    .keeping (by decide) fun _ => Json.yields_asUSize,
    .keeping (by decide) fun _ => Json.yields_asText,
    .keeping (by decide) fun _ => Json.yields_asText,
    .keeping (by decide) fun _ => Json.yields_asUInt32,
    .keeping (by decide) fun _ => Json.yields_asBoolean, List.forall_mem_nil _⟩

theorem yields_ofContent (h : c.Held n) : Yields (Cause.Brief n) anything (ofContent c) :=
  (Json.yields_recordOf (by decide) slots_brief (by decide) h).bind fun _ _ =>
    (Json.yields_require (by decide) _).bind fun _ _ =>
      (Json.yields_require (by decide) _).bind fun _ _ => .ok trivial

end TaskAssignment

namespace TokenResponse

theorem slots_brief : ∀ slot ∈ slots, slot.Brief n := by
  simp only [slots, List.forall_mem_cons]
  exact ⟨.keeping (by decide) fun _ => Json.yields_asText,
    .keeping (by decide) fun _ => Json.yields_asOptional fun _ => Json.yields_asText,
    .keeping (by decide) fun _ => Json.yields_asOptional fun _ => Json.yields_asText,
    .keeping (by decide) fun _ => Json.yields_asBoolean,
    .keeping (by decide) fun _ => Json.yields_asOptional fun _ => Json.yields_asUSize,
    List.forall_mem_nil _⟩

theorem yields_ofContent (h : c.Held n) : Yields (Cause.Brief n) anything (ofContent c) :=
  (Json.yields_recordOf (by decide) slots_brief (by decide) h).bind fun _ _ =>
    (Json.yields_require (by decide) _).bind fun _ _ => .ok trivial

end TokenResponse

namespace ErrorReport

theorem slots_brief : ∀ slot ∈ slots, slot.Brief n := by
  simp only [slots, List.forall_mem_cons]
  exact ⟨.keeping (by decide) fun _ => Json.yields_asText,
    .keeping (by decide) fun _ => Json.yields_asText, List.forall_mem_nil _⟩

theorem yields_ofContent (h : c.Held n) : Yields (Cause.Brief n) anything (ofContent c) :=
  (Json.yields_recordOf (by decide) slots_brief (by decide) h).bind fun _ _ =>
    (Json.yields_require (by decide) _).bind fun _ _ => .ok trivial

end ErrorReport

namespace NodeStatus

theorem slots_brief : ∀ slot ∈ slots, slot.Brief n := by
  simp only [slots, List.forall_mem_cons]
  exact ⟨.keeping (by decide) fun _ => Json.yields_asText,
    .keeping (by decide) fun _ => Json.yields_asBoolean,
    .keeping (by decide) fun _ => Json.yields_asFloat32, List.forall_mem_nil _⟩

theorem yields_ofContent (h : c.Held n) : Yields (Cause.Brief n) anything (ofContent c) :=
  (Json.yields_recordOf (by decide) slots_brief (by decide) h).bind fun _ _ => .ok trivial

end NodeStatus

namespace WireMessage

theorem yields_ofContent (kind : MessageKind) (h : c.Held n) :
    Yields (Cause.Brief n) anything (ofContent kind c) := by
  unfold ofContent
  split
  · exact (InferenceRequest.yields_ofContent h).map fun _ _ => trivial
  · exact (TaskAssignment.yields_ofContent h).map fun _ _ => trivial
  · exact (TokenResponse.yields_ofContent h).map fun _ _ => trivial
  · exact (ErrorReport.yields_ofContent h).map fun _ _ => trivial
  · exact (NodeStatus.yields_ofContent h).map fun _ _ => trivial
  · exact .ok trivial
  · next xs _ =>
    have hceiling : maxMessageBytes = 65536 := rfl
    have hlength : xs.length ≤ maxMessageBytes + 1 := h.1
    exact .error (Json.brief_wrongLength (by omega) (by decide))
  · exact .ok trivial

theorem yields_readKind {cs : List Char} (h : utf8Length cs ≤ n) :
    Yields (Fault.Brief n) (fun x => utf8Length x.2 ≤ n) (readKind cs) := by
  have hbrief : Yields (Fault.Brief n) (fun x => anything x.1) (readKind cs) := by
    refine Json.yields_scalar (fun c hc => ?_) h
    split
    · split
      · exact .ok trivial
      · exact .error (Json.brief_unknownVariant hc (by decide))
    · exact .error (Json.brief_mismatch hc (by decide))
  refine (hbrief.and fun x hx => (Json.takes_scalar _ cs).le x.1 x.2 hx).mono (fun _ hf => hf)
    fun x hx => ?_
  exact Nat.le_trans (Nat.le_of_add_left_le hx.2) h

/-- The members that have been read so far may be quoted. -/
structure Envelope.Held (n : Nat) (s : Envelope) (cs : List Char) : Prop where
  left : utf8Length cs ≤ n
  members : ∀ m ∈ s.2, m.2.Quotable n

theorem Envelope.Held.less {s : Envelope} {cs rest : List Char}
    (hrest : utf8Length rest ≤ utf8Length cs) (h : s.Held n cs) : s.Held n rest :=
  ⟨Nat.le_trans hrest h.left, h.members⟩

theorem yields_readMember {s : Envelope} {cs : List Char} (key : String) (h : s.Held n cs) :
    Yields (Fault.Brief n) (fun x => x.1.Held n x.2) (readMember s key cs) := by
  have hcolon : Yields (Fault.Brief n) (fun rest => utf8Length rest ≤ n) (Json.colon cs) :=
    (Json.yields_colon cs).mono (fun _ hf => hf.brief) fun _ hrest => Nat.le_trans hrest h.left
  unfold readMember
  split
  · split
    · exact .error (Json.brief_duplicateField (by decide))
    · refine hcolon.bind fun rest hrest => ?_
      exact (yields_readKind hrest).bind fun (k, rest') hk => .ok ⟨hk, h.members⟩
  · refine Yields.bind (P := fun x => Envelope.Held n (s.1, x.1) x.2) ?_ fun _ hx => .ok hx
    refine hcolon.bind fun rest hrest => ?_
    refine (Json.yields_quotable hrest _ (Nat.le_refl n)).bind fun (v, rest') hv => .ok ⟨?_, ?_⟩
    · exact Nat.le_trans (Nat.le_add_left ..) hv.2
    · exact List.forall_mem_cons.mpr ⟨hv.1, h.members⟩

theorem yields_readEnvelope {cs : List Char} (h : utf8Length cs ≤ n) (hn : n ≤ maxMessageBytes) :
    Yields (Fault.Brief n) (fun x => x.1.2.Held n) (readEnvelope cs) := by
  have hplain : ∀ f : Fault, f.Plain → f.Brief n := fun _ hf => hf.brief
  unfold readEnvelope
  split
  · next rest hrest =>
    have hbrace := Nat.le_trans (Json.le_of_skipSpace hrest) h
    refine (Json.yields_members (I := Envelope.Held n) hplain (fun _ _ _ hle hs => hs.less hle)
      (fun s key cs hs => yields_readMember key hs) ⟨hbrace, List.forall_mem_nil _⟩).bind
      fun x hx => ?_
    obtain ⟨⟨_ | k, ms⟩, rest'⟩ := x
    · exact .error (Json.brief_missingField (by decide))
    · exact .ok fun m hm => hx.members m (List.mem_reverse.mp hm)
  · next rest hrest =>
    have hbracket := Nat.le_trans (Json.le_of_skipSpace hrest) h
    refine ((Json.yields_nextItem true rest).mono hplain fun _ hx => hx).bind fun next hnext => ?_
    cases next with
    | none => exact .error (Json.brief_missingField (by decide))
    | some cs' =>
      have hcs := Nat.le_trans (hnext cs' rfl) hbracket
      refine (yields_readKind hcs).bind fun (k, rest₁) hk => ?_
      exact (Json.yields_itemsAfterFirst hk hn _).bind fun (xs, rest₂) hxs => .ok hxs
  · have hle := Nat.le_trans (Json.skipSpace_le cs) h
    refine (Json.yields_scalar (P := fun _ => False) (fun c hc => ?_) hle).mono (fun _ hf => hf)
      fun _ hx => hx.elim
    exact .error (Json.brief_mismatch hc (by decide))

theorem yields_read {cs : List Char} (h : utf8Length cs ≤ n) (hn : n ≤ maxMessageBytes) :
    Yields (Fault.Brief n) anything (read cs) := by
  refine (yields_readEnvelope h hn).bind fun ((kind, c), rest) hc => ?_
  have hcontent : Yields (Fault.Brief n) anything ((ofContent kind c).mapError .inValue) :=
    (yields_ofContent kind hc).mapError fun _ he => he
  have hend : Yields (Fault.Brief n) anything (Json.atEnd rest) :=
    (Json.yields_atEnd rest).mono (fun _ hf => hf.brief) fun _ h => h
  exact hcontent.bind fun _ _ => hend.bind fun _ _ => .ok trivial

/-- What is reported of a malformed line is not much more than seven times as long as the line
without the blanks around it. -/
theorem malformed_le {line : String} {e : Json.Error} (h : decode line = .error (.malformed e)) :
    textSize (DecodeError.malformed e).message ≤
      7 * utf8Length (Text.trim line.toList) + 460 := by
  unfold decode at h
  dsimp only at h
  split at h
  · cases h
  · split at h
    · cases h
    · next hsize =>
      have hle : utf8Length (Text.trim line.toList) ≤ maxMessageBytes := Nat.le_of_not_lt hsize
      cases hread : read (Text.trim line.toList) with
      | ok m => rw [hread] at h; cases h
      | error f =>
        rw [hread] at h
        cases h
        have hbrief := (yields_read (Nat.le_refl _) hle).fault f hread
        have hlocated := bodySize_located_le hbrief hle
        have hopen : bodySize "malformed message: " = 19 := by decide
        show textSize ("malformed message: " ++ (f.locate _).message) ≤ _
        rw [textSize_eq_bodySize, bodySize_append]
        omega

end WireMessage

end PromptGateway
