import PromptGateway.Proofs.Forwarding

/-
  How long a number is where it is shown.

  A number that has been read comes from 64 bits, and so its text is short, however long the
  numeral was that it was read from.

    1. What has been rounded is no larger than a value of 64 bits can be (`nearest_moderate`).
       In the unit that is chosen the significand has at most one binary digit too many
       (`Format.scaled_unit_lt`).
    2. The decimal that a value is shown as has a bounded number of digits, and so has its
       exponent (`shortest_bounds`). The decimals that are tried have one digit after the other
       more, counted from the leading one (`below_lt`).
    3. `written_floatText_le` and `written_integer_le` are the texts. Every numeral that is read
       is put together by `magnitude` or `wholeNumeral`, and both stay in bounds
       (`magnitude_moderate`, `wholeNumeral_moderate`).
-/

namespace PromptGateway

open Json (written)
open Text (utf8Length)

namespace Number

/-! ## Rounding -/

/-- The significand and the unit are no larger than those of a value of 64 bits. -/
structure Magnitude.Moderate (x : Magnitude) : Prop where
  significand : x.m ≤ 2 ^ 54
  unit : x.e ≤ 971

theorem divEven_le_succ (n d : Nat) : divEven n d ≤ n / d + 1 := by
  unfold divEven
  dsimp only
  split
  · omega
  · split
    · omega
    · split <;> omega

/-- In the unit that is chosen a quotient counts no more than one binary digit too many. -/
theorem Format.scaled_unit_lt (f : Format) (num den : Nat) :
    (scaled num den (f.unit num den)).1 / (scaled num den (f.unit num den)).2 <
      2 ^ (f.precision + 1) := by
  have hunit : (num.log2 : Int) - den.log2 - f.precision ≤ f.unit num den := by
    unfold Format.unit
    dsimp only
    split
    · exact Int.le_max_right ..
    · have := Int.le_max_right f.least ((num.log2 : Int) - den.log2 - f.precision)
      omega
  generalize f.unit num den = e at hunit ⊢
  show num * 2 ^ (-e).toNat / (den * 2 ^ e.toNat) < _
  rcases Nat.eq_zero_or_pos den with rfl | hden
  · simp
  rw [Nat.div_lt_iff_lt_mul (Nat.mul_pos hden (Nat.two_pow_pos _))]
  calc num * 2 ^ (-e).toNat
      < 2 ^ (num.log2 + 1) * 2 ^ (-e).toNat :=
        Nat.mul_lt_mul_of_pos_right Nat.lt_log2_self (Nat.two_pow_pos _)
    _ = 2 ^ (num.log2 + 1 + (-e).toNat) := (Nat.pow_add ..).symm
    _ ≤ 2 ^ (f.precision + 1 + (den.log2 + e.toNat)) :=
        Nat.pow_le_pow_right (by decide) (by omega)
    _ = 2 ^ (f.precision + 1) * (2 ^ den.log2 * 2 ^ e.toNat) := by rw [Nat.pow_add, Nat.pow_add 2 den.log2]
    _ ≤ 2 ^ (f.precision + 1) * (den * 2 ^ e.toNat) :=
        Nat.mul_le_mul_left _ (Nat.mul_le_mul_right _ (Nat.log2_self_le (Nat.ne_of_gt hden)))

theorem nearest_moderate {num den : Nat} {x : Magnitude} (h : binary64.nearest num den = some x) :
    x.Moderate := by
  have hcount := binary64.scaled_unit_lt num den
  unfold Format.nearest at h
  split at h
  · cases h
    exact ⟨Nat.zero_le _, by decide⟩
  · dsimp only at h
    generalize Format.scaled num den (binary64.unit num den) = q at hcount h
    have hround := divEven_le_succ q.1 q.2
    have hm : divEven q.1 q.2 ≤ 2 ^ 54 := by
      have : q.1 / q.2 < 2 ^ 54 := hcount
      omega
    generalize divEven q.1 q.2 = m at hm h
    generalize hrounded : (if m = Nat.pow 2 binary64.precision then
      (⟨Nat.pow 2 (binary64.precision - 1), binary64.unit num den + 1⟩ : Magnitude)
      else ⟨m, binary64.unit num den⟩) = rounded at h
    split at h
    · next hgreatest =>
      cases h
      refine ⟨?_, hgreatest⟩
      rw [← hrounded]
      split
      · exact Nat.pow_le_pow_right (by decide) (by decide)
      · exact hm
    · cases h

theorem zero_moderate : Magnitude.Moderate ⟨0, binary64.least⟩ := ⟨Nat.zero_le _, by decide⟩

/-! ## Digits -/

theorem length_natText_le_iff {n e : Nat} (he : 0 < e) : (natText n).length ≤ e ↔ n < 10 ^ e :=
  Nat.length_toDigits_le_iff (by decide) he

theorem length_natText_pos (n : Nat) : 0 < (natText n).length := Nat.length_toDigits_pos

theorem lt_pow_length_natText (n : Nat) : n < 10 ^ (natText n).length :=
  (length_natText_le_iff (length_natText_pos n)).mp (Nat.le_refl _)

theorem length_natText_mono {m n : Nat} (h : m ≤ n) : (natText m).length ≤ (natText n).length :=
  (length_natText_le_iff (length_natText_pos n)).mpr
    (Nat.lt_of_le_of_lt h (lt_pow_length_natText n))

theorem den_pos (x : Magnitude) : 0 < x.den := Nat.two_pow_pos _

/-- A value of 64 bits has no more than 309 digits before the point. -/
theorem length_num_le {x : Magnitude} (h : x.Moderate) : (natText x.num).length ≤ 309 := by
  rw [length_natText_le_iff (by decide)]
  have hunit : x.e.toNat ≤ 971 := by
    have := h.unit
    omega
  calc x.m * 2 ^ x.e.toNat
      ≤ 2 ^ 54 * 2 ^ 971 :=
        Nat.mul_le_mul h.significand (Nat.pow_le_pow_right (by decide) hunit)
    _ < 10 ^ 309 := by decide +kernel

/-- The leading exponent is read off a value that has been shifted. -/
theorem leadingExponent_eq (x : Magnitude) {k : Nat} (hk : 350 = k) :
    leadingExponent x = ((natText (x.num * Nat.pow 10 k / x.den)).length : Int) - 1 - 350 := by
  rw [leadingExponent, natText, hk]

theorem leadingExponent_bounds {x : Magnitude} (h : x.Moderate) :
    -350 ≤ leadingExponent x ∧ leadingExponent x ≤ 308 := by
  obtain ⟨k, hk⟩ : ∃ k, 350 = k := ⟨_, rfl⟩
  have hlead := leadingExponent_eq x hk
  have hpos := length_natText_pos (x.num * Nat.pow 10 k / x.den)
  have hnum := length_num_le h
  have hle : (natText (x.num * Nat.pow 10 k / x.den)).length ≤ (natText x.num).length + k := by
    rw [length_natText_le_iff (by omega), Nat.pow_add]
    calc x.num * 10 ^ k / x.den
        ≤ x.num * 10 ^ k := Nat.div_le_self _ _
      _ < 10 ^ (natText x.num).length * 10 ^ k :=
        Nat.mul_lt_mul_of_pos_right (lt_pow_length_natText _) (Nat.pow_pos (by decide))
  omega

/-- On the grid of `n` digits behind the leading one a value has no more than `n + 1` digits. -/
theorem below_lt (x : Magnitude) (n : Nat) :
    x.num * Nat.pow 10 (-(leadingExponent x - n)).toNat /
      (x.den * Nat.pow 10 (leadingExponent x - n).toNat) < 10 ^ (n + 1) := by
  obtain ⟨k, hk⟩ : ∃ k, 350 = k := ⟨_, rfl⟩
  have hlead := leadingExponent_eq x hk
  have hshift := lt_pow_length_natText (x.num * Nat.pow 10 k / x.den)
  rw [Nat.div_lt_iff_lt_mul (den_pos x)] at hshift
  generalize (natText (x.num * Nat.pow 10 k / x.den)).length = len at hlead hshift
  have hexponent : leadingExponent x - n = (len : Int) - 1 - 350 - n := by rw [hlead]
  generalize leadingExponent x - n = e at hexponent ⊢
  show x.num * 10 ^ (-e).toNat / (x.den * 10 ^ e.toNat) < _
  rw [Nat.div_lt_iff_lt_mul (Nat.mul_pos (den_pos x) (Nat.pow_pos (by decide)))]
  -- both sides are compared after the same shift
  refine Nat.lt_of_mul_lt_mul_right (a := 10 ^ k) ?_
  have hdigits : len + (-e).toNat = n + 1 + e.toNat + k := by omega
  calc x.num * 10 ^ (-e).toNat * 10 ^ k
      = x.num * 10 ^ k * 10 ^ (-e).toNat := Nat.mul_right_comm ..
    _ < 10 ^ len * x.den * 10 ^ (-e).toNat :=
        Nat.mul_lt_mul_of_pos_right hshift (Nat.pow_pos (by decide))
    _ = 10 ^ (len + (-e).toNat) * x.den := by rw [Nat.pow_add, Nat.mul_right_comm]
    _ = 10 ^ (n + 1) * 10 ^ e.toNat * 10 ^ k * x.den := by
        rw [hdigits, Nat.pow_add, Nat.pow_add]
    _ = 10 ^ (n + 1) * (x.den * 10 ^ e.toNat) * 10 ^ k := by
        rw [Nat.mul_right_comm _ (10 ^ k), Nat.mul_assoc (10 ^ (n + 1)), Nat.mul_comm x.den]

theorem onGrid_eq {i : Interval} {x : Magnitude} {exponent : Int} {d : Decimal}
    (h : onGrid i x exponent = some d) :
    d.exponent = exponent ∧ d.digits ≤ x.num * Nat.pow 10 (-exponent).toNat /
      (x.den * Nat.pow 10 exponent.toNat) + 1 := by
  unfold onGrid at h
  dsimp only at h
  split at h
  · cases h
  · cases h
    exact ⟨rfl, Nat.le_succ _⟩
  · cases h
    exact ⟨rfl, Nat.le_refl _⟩
  · split at h
    · cases h
      exact ⟨rfl, Nat.le_succ _⟩
    · cases h
      exact ⟨rfl, Nat.le_refl _⟩

/-- The decimals that are tried have few digits, and if none of them fits the digits are those
before the point. -/
theorem search_bounds {x : Magnitude} (h : x.Moderate) (i : Interval) {fuel n : Nat}
    (hfuel : fuel + n ≤ 20) :
    (natText (search i x (leadingExponent x) fuel n).digits).length ≤ 309 ∧
      -369 ≤ (search i x (leadingExponent x) fuel n).exponent ∧
      (search i x (leadingExponent x) fuel n).exponent ≤ 308 := by
  induction fuel generalizing n with
  | zero =>
    refine ⟨?_, Int.neg_nonpos_of_nonneg (by decide), Int.natCast_nonneg 308⟩
    exact Nat.le_trans (length_natText_mono (Nat.div_le_self ..)) (length_num_le h)
  | succ fuel ih =>
    obtain ⟨hlow, hhigh⟩ := leadingExponent_bounds h
    rw [search]
    cases hgrid : onGrid i x (leadingExponent x - n) with
    | none => exact ih (n := n + 1) (by omega)
    | some d =>
      obtain ⟨hexponent, hdigits⟩ := onGrid_eq hgrid
      have hlt : d.digits < 10 ^ (n + 2) :=
        calc d.digits ≤ 10 ^ (n + 1) := Nat.le_trans hdigits (below_lt x n)
          _ < 10 ^ (n + 2) := Nat.pow_lt_pow_right (by decide) (Nat.lt_succ_self _)
      have hlength := (length_natText_le_iff (Nat.succ_pos _)).mpr hlt
      rw [Option.getD_some, hexponent]
      exact ⟨by omega, by omega, by omega⟩

theorem strip_bounds (fuel : Nat) (d : Decimal) :
    (d.strip fuel).digits ≤ d.digits ∧ d.exponent ≤ (d.strip fuel).exponent ∧
      (d.strip fuel).exponent ≤ d.exponent + fuel := by
  induction fuel generalizing d with
  | zero => exact ⟨Nat.le_refl _, Int.le_refl _, by simp [Decimal.strip]⟩
  | succ fuel ih =>
    rw [Decimal.strip]
    split
    · obtain ⟨hdigits, hlow, hhigh⟩ := ih ⟨d.digits / 10, d.exponent + 1⟩
      dsimp only at hdigits hlow hhigh
      exact ⟨Nat.le_trans hdigits (Nat.div_le_self ..), by omega, by omega⟩
    · exact ⟨Nat.le_refl _, Int.le_refl _, by omega⟩

/-- What a value of 64 bits is shown as. -/
theorem shortest_bounds {x : Magnitude} (h : x.Moderate) :
    (natText (shortest binary64 x).digits).length ≤ 309 ∧
      -369 ≤ (shortest binary64 x).exponent ∧ (shortest binary64 x).exponent ≤ 328 := by
  unfold shortest
  split
  · exact ⟨by decide, by decide, by decide⟩
  · obtain ⟨hdigits, hlow, hhigh⟩ := search_bounds h (.around binary64 x) (Nat.le_refl (20 + 0))
    have hstrip :=
      strip_bounds 20 (search (.around binary64 x) x (leadingExponent x) 20 ((0 : Nat) : Int))
    exact ⟨Nat.le_trans (length_natText_mono hstrip.1) hdigits, Int.le_trans hlow hstrip.2.1,
      Int.le_trans hstrip.2.2 (Int.add_le_add_right hhigh 20)⟩

/-! ## Text -/

theorem written_of_isDigit {cs : List Char} (h : ∀ c ∈ cs, c.isDigit = true) :
    written cs = cs.length := by
  induction cs with
  | nil => rfl
  | cons c cs ih =>
    rw [List.forall_mem_cons] at h
    have hplain : Json.Write.escaped c = [c] := by
      have hcode : 48 ≤ c.toNat := by
        have hdigit := h.1
        simp only [Char.isDigit, Bool.and_eq_true, decide_eq_true_eq] at hdigit
        exact hdigit.1
      refine Json.escaped_of_plain ?_ ?_ (by omega) <;> rintro rfl
      · cases h.1
      · cases h.1
    rw [Json.written_cons, hplain, ih h.2, Text.utf8Length_cons,
      Json.Write.utf8Size_of_isDigit h.1, List.length_cons, Text.utf8Length_nil]
    omega

theorem written_natText (n : Nat) : written (natText n) = (natText n).length :=
  written_of_isDigit fun _ hc => Json.isDigit_of_mem_natText hc

theorem written_zeros (n : Nat) : written (List.replicate n '0') = n := by
  rw [written_of_isDigit, List.length_replicate]
  intro c hc
  rw [List.eq_of_mem_replicate hc]
  rfl

theorem written_positional_le {d : Decimal} (hdigits : (natText d.digits).length ≤ 309)
    (hlow : layout64.lowest ≤ d.leading) (hhigh : d.leading ≤ layout64.highest) :
    written (positional d) ≤ 326 := by
  have hlead : d.leading = ((natText d.digits).length : Int) - 1 + d.exponent := rfl
  have hpos := length_natText_pos d.digits
  change -5 ≤ d.leading at hlow
  change d.leading ≤ 15 at hhigh
  have hpoint : written ['.', '0'] = 2 := by decide
  have hfront : written ['0', '.'] = 2 := by decide
  have hdot : written ['.'] = 1 := by decide
  have htext := written_natText d.digits
  unfold positional
  dsimp only
  split
  · rw [Json.written_append, Json.written_append, written_zeros, hpoint, htext]
    omega
  · split
    · have hcut := Json.written_append ((natText d.digits).take
        ((natText d.digits).length - (-d.exponent).toNat)) ((natText d.digits).drop
        ((natText d.digits).length - (-d.exponent).toNat))
      rw [List.take_append_drop] at hcut
      rw [Json.written_append, Json.written_append, hdot]
      omega
    · rw [Json.written_append, Json.written_append, written_zeros, hfront, htext]
      omega

theorem written_scientific_le {d : Decimal} (hdigits : (natText d.digits).length ≤ 309)
    (hlow : -369 ≤ d.exponent) (hhigh : d.exponent ≤ 328) : written (scientific d) ≤ 315 := by
  have hlead : d.leading = ((natText d.digits).length : Int) - 1 + d.exponent := rfl
  have hpos := length_natText_pos d.digits
  have hexponent : (natText d.leading.natAbs).length ≤ 3 := by
    rw [length_natText_le_iff (by decide)]
    omega
  have hsign : written (if d.leading < 0 then ['-'] else ['+']) = 1 := by
    split <;> decide
  have he : written ['e'] = 1 := by decide
  have hdot : utf8Length (Json.Write.escaped '.') = 1 := by decide
  have htext := written_natText d.digits
  unfold scientific
  dsimp only
  rw [Json.written_append, Json.written_append, Json.written_append, written_natText, hsign, he]
  -- a point stands behind the first digit if there are others
  split
  · exact Nat.le_trans (Nat.add_le_add_left hexponent _) (by decide)
  · next c hc =>
    rw [hc] at htext hdigits
    rw [htext]
    omega
  · next c cs _ hc =>
    rw [hc, Json.written_cons] at htext
    rw [Json.written_cons, Json.written_cons, hdot]
    rw [hc] at hdigits
    omega

/-- The text of a value of 64 bits in a message. -/
theorem written_floatText_le {x : Floating binary64}
    (h : ∀ d, x.magnitude = some d → d.Moderate) :
    written (Json.Found.floatText x).toList ≤ 327 := by
  rw [Json.Found.floatText, String.toList_ofList, Floating.text?]
  cases hd : x.magnitude with
  | none => exact (by decide : written ['i', 'n', 'f'] ≤ 327)
  | some d =>
    obtain ⟨hdigits, hlow, hhigh⟩ := shortest_bounds (h d hd)
    rw [Option.map_some, Option.getD_some]
    dsimp only
    generalize hbody : (if d.m = 0 then ['0', '.', '0']
      else if layout64.lowest ≤ (shortest binary64 d).leading ∧
          (shortest binary64 d).leading ≤ layout64.highest then positional (shortest binary64 d)
        else scientific (shortest binary64 d)) = body
    have hle : written body ≤ 326 := by
      rw [← hbody]
      split
      · decide
      · split
        · next hlayout => exact written_positional_le hdigits hlayout.1 hlayout.2
        · exact Nat.le_trans (written_scientific_le hdigits hlow hhigh) (by decide)
    have hminus : utf8Length (Json.Write.escaped '-') = 1 := by decide
    split
    · rw [Json.written_cons, hminus]
      omega
    · omega

end Number

namespace Json

open Number (Magnitude binary64 nearest_moderate zero_moderate)

/-- A number that 64 bits hold. -/
def Numeral.Moderate : Numeral → Prop
  | .integer k => k.natAbs ≤ maxSignificand
  | .float x => ∀ d, x.magnitude = some d → d.Moderate

theorem written_natText_le {k : Nat} (h : k ≤ maxSignificand) :
    written (Number.natText k) ≤ 20 := by
  rw [Number.written_natText, Number.length_natText_le_iff (by decide)]
  exact Nat.lt_of_le_of_lt h (by decide)

/-- The text of an integer in a message. -/
theorem written_integer_le {k : Int} (h : k.natAbs ≤ maxSignificand) :
    written (toString k).toList ≤ 21 := by
  have hnat : ∀ m : Nat, m ≤ maxSignificand → written (toString m).toList ≤ 20 := by
    intro m hm
    rw [Nat.toString_eq_ofList_toDigits, String.toList_ofList]
    exact written_natText_le hm
  cases k with
  | ofNat m => exact Nat.le_succ_of_le (hnat m h)
  | negSucc m =>
    have hminus : written "-".toList = 1 := by decide
    have hdigits := hnat (m + 1) h
    show written ("-" ++ toString (m + 1)).toList ≤ 21
    rw [String.toList_append, written_append, hminus]
    omega

/-! ## Reading -/

theorem shrink_moderate {fuel : Nat} {x y : Magnitude} {exponent : Int} (hx : x.Moderate)
    (h : shrink fuel x exponent = some y) : y.Moderate := by
  induction fuel generalizing x exponent with
  | zero =>
    cases h
    exact zero_moderate
  | succ fuel ih =>
    rw [shrink] at h
    split at h
    · cases h
      exact hx
    · dsimp only at h
      obtain ⟨p, -, h⟩ := Option.bind_eq_some_iff.mp h
      obtain ⟨z, hz, h⟩ := Option.bind_eq_some_iff.mp h
      split at h
      · cases h
        exact nearest_moderate hz
      · exact ih (nearest_moderate hz) h

theorem magnitude_moderate {significand : Nat} {exponent : Int} {x : Magnitude}
    (h : magnitude significand exponent = some x) : x.Moderate := by
  unfold magnitude at h
  obtain ⟨y, hy, h⟩ := Option.bind_eq_some_iff.mp h
  split at h
  · exact shrink_moderate (nearest_moderate hy) h
  · split at h
    · obtain ⟨p, -, h⟩ := Option.bind_eq_some_iff.mp h
      exact nearest_moderate h
    · split at h
      · cases h
        exact nearest_moderate hy
      · cases h

theorem absorb_le {n : Nat} (hn : n ≤ maxSignificand) (ds : List Char) :
    (absorb n ds).1 ≤ maxSignificand := by
  induction ds generalizing n with
  | nil => exact hn
  | cons d ds ih =>
    rw [absorb]
    split
    · next h => exact ih h
    · exact hn

theorem wholeNumeral_moderate (negative : Bool) {n : Nat} (hn : n ≤ maxSignificand) :
    (wholeNumeral negative n).Moderate := by
  unfold wholeNumeral
  split
  · exact hn
  · split
    · show (-(n : Int)).natAbs ≤ _
      rwa [Int.natAbs_neg, Int.natAbs_natCast]
    · exact fun d hd => nearest_moderate hd

end Json

end PromptGateway
