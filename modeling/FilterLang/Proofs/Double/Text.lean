import FilterLang.Double.Text
import FilterLang.Proofs.Double.Shortest
import FilterLang.Proofs.Text.Plain

/-! The plain text of a number is read as the number.

The text has the digits of the shortest decimal, with zeros and a point where the exponent wants
them (`decimal?_plain`), the decimal is taken by the rank, and reading rounds to the rank that takes
the decimal (`ofDecimal_of_takes`). Main statement: `ofText?_text`. -/

namespace FilterLang.Double

open Text

/-- Twice a number that a positive rank takes is at least one unit. -/
theorem Takes.den_le {rank num den : Nat} (hrank : 0 < rank) (h : Takes rank num den) :
    den ≤ 2 * num := by
  have hunits := units_pos hrank
  exact (Nat.le_mul_of_pos_left den (by omega)).trans h.low

theorem Takes.digits_pos {rank digits : Nat} {e : Int} (hrank : 0 < rank)
    (h : Takes rank (digits * (powerOfTen e).1) (powerOfTen e).2) : 0 < digits := by
  have hden := h.den_le hrank
  have hone := (powerOfTen_pos e).2
  refine Nat.pos_of_ne_zero ?_
  rintro rfl
  omega

/-- A finite magnitude is too small for a decimal with more than 400 digits before the point. -/
theorem Takes.point_le {rank digits : Nat} {e : Int} (hrank : rank < infinityRank)
    (hdigits : 0 < digits) (h : Takes rank (digits * (powerOfTen e).1) (powerOfTen e).2) :
    e + (decimal digits).length ≤ 400 := by
  -- The exponent is kept as a variable, or the power would be computed digit by digit.
  obtain ⟨c, hc, hbound⟩ : ∃ c, c = 400 ∧ units infinityRank < Nat.pow 10 c * one :=
    ⟨400, rfl, by decide +kernel⟩
  refine Int.not_lt.mp fun hlarge => ?_
  have hlength := List.length_pos_iff.mpr (decimal_ne_nil digits)
  have hdecimal := (length_decimal_spec hdigits).1
  obtain ⟨n, hn⟩ : ∃ n : Nat, e + ((decimal digits).length - 1 : Nat) = n :=
    Int.eq_ofNat_of_zero_le (by omega)
  have hadd := powerOfTen_add e ((decimal digits).length - 1)
  rw [hn, powerOfTen_of_nonneg] at hadd
  have hden := (powerOfTen_pos e).2
  have hhigh := h.high
  have hself := units_strictMono.monotone hrank.le
  have hnext : units (rank + 1) ≤ units infinityRank := units_strictMono.monotone hrank
  have hpow : 10 ^ c ≤ 10 ^ n := Nat.pow_le_pow_right (by decide) (by omega)
  have hunits : 2 * (digits * (powerOfTen e).1) ≤ 2 * units infinityRank * (powerOfTen e).2 :=
    hhigh.trans (Nat.mul_le_mul_right _ (by omega))
  have hle : 10 ^ c * one * (powerOfTen e).2 ≤ units infinityRank * (powerOfTen e).2 := by
    calc 10 ^ c * one * (powerOfTen e).2
        ≤ 10 ^ n * one * (powerOfTen e).2 :=
          Nat.mul_le_mul_right _ (Nat.mul_le_mul_right one hpow)
      _ = 10 ^ ((decimal digits).length - 1) * (powerOfTen e).1 := by rw [hadd, Nat.mul_one]
      _ ≤ digits * (powerOfTen e).1 := Nat.mul_le_mul_right _ hdecimal
      _ ≤ units infinityRank * (powerOfTen e).2 := by
        rw [Nat.mul_assoc] at hunits
        exact Nat.le_of_mul_le_mul_left hunits (by decide)
  exact Nat.not_lt.mpr (Nat.le_of_mul_le_mul_right hle hden) hbound

/-- A positive magnitude is too large for a decimal with 400 zeros after the point. -/
theorem Takes.le_point {rank digits : Nat} {e : Int} (hrank : 0 < rank)
    (hdigits : 0 < digits) (h : Takes rank (digits * (powerOfTen e).1) (powerOfTen e).2) :
    -400 ≤ e + (decimal digits).length := by
  obtain ⟨c, hc, hbound⟩ : ∃ c, c = 400 ∧ 2 * one ≤ Nat.pow 10 c := ⟨400, rfl, by decide +kernel⟩
  refine Int.not_lt.mp fun hsmall => ?_
  have hdecimal := (length_decimal_spec hdigits).2
  obtain ⟨n, hn⟩ : ∃ n : Nat, e + (decimal digits).length = -n :=
    ⟨(e + (decimal digits).length).natAbs, by omega⟩
  have hadd := powerOfTen_add e (decimal digits).length
  rw [hn, powerOfTen_of_neg (by omega)] at hadd
  have hnum := (powerOfTen_pos e).1
  have hpow : 10 ^ c ≤ 10 ^ n := Nat.pow_le_pow_right (by decide) (by omega)
  have hlt : (powerOfTen e).2 * 10 ^ n < 2 * one * (powerOfTen e).2 := by
    calc (powerOfTen e).2 * 10 ^ n
        ≤ 2 * (digits * (powerOfTen e).1) * 10 ^ n := Nat.mul_le_mul_right _ (h.den_le hrank)
      _ = 2 * (digits * ((powerOfTen e).1 * 10 ^ n)) := by ring
      _ < 2 * (10 ^ (decimal digits).length * ((powerOfTen e).1 * 10 ^ n)) :=
        Nat.mul_lt_mul_of_pos_left
          (Nat.mul_lt_mul_of_pos_right hdecimal (by positivity)) (by decide)
      _ = 2 * one * (powerOfTen e).2 := by
        rw [Nat.mul_assoc 2, hadd]
        ring
  rw [Nat.mul_comm] at hlt
  exact Nat.not_lt.mpr (hbound.trans hpow) (Nat.lt_of_mul_lt_mul_right hlt)

/-- A decimal with at most 400 places to one side of its point is rounded as a fraction. -/
theorem ofDecimal_eq (negative : Bool) {digits : Nat} {e : Int} (hdigits : 0 < digits)
    (hlow : -400 ≤ e + (decimal digits).length) (hhigh : e + (decimal digits).length ≤ 400) :
    ofDecimal negative digits e =
      if 0 ≤ e then ofRatio negative (digits * Nat.pow 10 e.toNat) 1
      else ofRatio negative digits (Nat.pow 10 (-e).toNat) := by
  rw [ofDecimal]
  change (if _ then _ else if e + ((decimal digits).length : Int) > 400 then _
    else if e + ((decimal digits).length : Int) < -400 then _ else _) = _
  rw [if_neg (Nat.pos_iff_ne_zero.mp hdigits), if_neg (by omega), if_neg (by omega)]

/-- A decimal that a rank takes is read as the magnitude of the rank. -/
theorem ofDecimal_of_takes {rank digits : Nat} {e : Int} (negative : Bool) (hpos : 0 < rank)
    (hrank : rank < infinityRank)
    (h : Takes rank (digits * (powerOfTen e).1) (powerOfTen e).2) :
    ofDecimal negative digits e = .number negative ⟨rank, Nat.lt_succ_of_lt hrank⟩ := by
  have hdigits := h.digits_pos hpos
  rw [ofDecimal_eq negative hdigits (h.le_point hpos hdigits) (h.point_le hrank hdigits)]
  split
  · rename_i he
    obtain ⟨n, rfl⟩ := Int.eq_ofNat_of_zero_le he
    rw [powerOfTen_of_nonneg, ← Nat.mul_assoc] at h
    exact ofRatio_of_takes negative Nat.one_pos hrank h
  · obtain ⟨n, rfl⟩ : ∃ n : Nat, e = -n := ⟨e.natAbs, by omega⟩
    rw [powerOfTen_of_neg (by omega)] at h
    dsimp only at h
    rw [Int.neg_neg, Int.toNat_natCast]
    exact ofRatio_of_takes negative (Nat.pow_pos (by decide)) hrank h

/-- A whole number that is not too long is read as the double nearest to it. -/
theorem ofDecimal_zero (negative : Bool) {n : Nat} (hpos : 0 < n) (hlt : n < 10 ^ 19) :
    ofDecimal negative n 0 = ofRatio negative n 1 := by
  have hlength : (decimal n).length ≤ 19 :=
    (Nat.length_toDigits_le_iff (by decide) (by decide)).mpr hlt
  rw [ofDecimal_eq negative hpos (by omega) (by omega), if_pos (Int.le_refl 0)]
  exact congrArg (ofRatio negative · 1) (Nat.mul_one n)

theorem decimal?_digits (negative : Bool) {whole : List Char} (hne : whole ≠ [])
    (hwhole : ∀ c ∈ whole, c.isDigit = true) :
    decimal? negative whole = some (ofDecimal negative (digitsValue whole) 0) := by
  obtain ⟨htake, hdrop⟩ := takeWhile_append_of_head [] hwhole nofun
  rw [List.append_nil] at htake hdrop
  rw [decimal?, htake, hdrop]
  have hempty : (whole.isEmpty && ([] : List Char).isEmpty) = false := by
    simpa using hne
  simp only [hempty, exponent?, List.append_nil]
  rfl

theorem decimal?_point (negative : Bool) {whole fraction : List Char} (hne : whole ≠ [])
    (hwhole : ∀ c ∈ whole, c.isDigit = true) (hfraction : ∀ c ∈ fraction, c.isDigit = true) :
    decimal? negative (whole ++ '.' :: fraction) =
      some (ofDecimal negative (digitsValue (whole ++ fraction)) (-fraction.length)) := by
  obtain ⟨htake, hdrop⟩ := takeWhile_append_of_head ('.' :: fraction) hwhole <| by
    rintro _ _ ⟨⟩
    decide
  obtain ⟨htake', hdrop'⟩ := takeWhile_append_of_head [] hfraction nofun
  rw [List.append_nil] at htake' hdrop'
  rw [decimal?, htake, hdrop]
  have hempty : (whole.isEmpty && fraction.isEmpty) = false := by
    rw [List.isEmpty_eq_false_iff.mpr hne, Bool.false_and]
  simp only [htake', hdrop', hempty, exponent?]
  simp

/-- No minus sign follows the digits of a number. -/
theorem decimal?_minus (negative : Bool) {whole : List Char}
    (hwhole : ∀ c ∈ whole, c.isDigit = true) (rest : List Char) :
    decimal? negative (whole ++ '-' :: rest) = none := by
  obtain ⟨htake, hdrop⟩ := takeWhile_append_of_head ('-' :: rest) hwhole <| by
    rintro _ _ ⟨⟩
    decide
  have hexponent : exponent? ('-' :: rest) = none := rfl
  rw [decimal?, htake, hdrop]
  simp [hexponent]

/-- The text of a decimal is read as its digits, with zeros at their end if the point wants them. -/
theorem decimal?_plain (negative : Bool) {d : Decimal} (hne : d.digits ≠ [])
    (hdigits : ∀ c ∈ d.digits, c.isDigit = true) :
    ∃ k : Nat, decimal? negative d.plain = some
      (ofDecimal negative (digitsValue d.digits * 10 ^ k) (d.point - d.digits.length - k)) := by
  have hzeros : ∀ k, ∀ c ∈ List.replicate k '0', c.isDigit = true := by
    intro k c hc
    rw [List.eq_of_mem_replicate hc]
    rfl
  rw [Decimal.plain]
  split
  · have hfraction := List.forall_mem_append.mpr ⟨hzeros (-d.point).toNat, hdigits⟩
    refine ⟨0, (decimal?_point negative (List.cons_ne_nil '0' []) (by simp) hfraction).trans ?_⟩
    have hvalue : digitsValue ('0' :: (List.replicate (-d.point).toNat '0' ++ d.digits)) =
        digitsValue d.digits :=
      digitsValue_replicate_append ((-d.point).toNat + 1) d.digits
    have hpoint : -((List.replicate (-d.point).toNat '0' ++ d.digits).length : Int) =
        d.point - d.digits.length - (0 : Nat) := by
      rw [List.length_append, List.length_replicate]
      omega
    rw [List.cons_append, List.nil_append, hvalue, hpoint, Nat.pow_zero, Nat.mul_one]
  · split
    · have hwhole : d.digits.take d.point.toNat ≠ [] := by
        rw [Ne, List.take_eq_nil_iff, not_or]
        exact ⟨by omega, hne⟩
      refine ⟨0, (decimal?_point negative hwhole (fun c hc => hdigits c (List.mem_of_mem_take hc))
        fun c hc => hdigits c (List.mem_of_mem_drop hc)).trans ?_⟩
      have hpoint : -((d.digits.drop d.point.toNat).length : Int) =
          d.point - d.digits.length - (0 : Nat) := by
        rw [List.length_drop]
        omega
      rw [List.take_append_drop, hpoint, Nat.pow_zero, Nat.mul_one]
    · have hwhole := List.forall_mem_append.mpr ⟨hdigits, hzeros (d.point - d.digits.length).toNat⟩
      refine ⟨(d.point - d.digits.length).toNat,
        (decimal?_digits negative (by simp [hne]) hwhole).trans ?_⟩
      have hpoint : d.point - d.digits.length - ((d.point - d.digits.length).toNat : Nat) = 0 := by
        omega
      rw [digitsValue_append_replicate, hpoint]

/-- The text of a finite magnitude is read as the magnitude. -/
theorem decimal?_plainMagnitude (negative : Bool) {rank : Rank} (h : rank.val < infinityRank) :
    decimal? negative (plainMagnitude rank) = some (.number negative rank) := by
  rw [plainMagnitude]
  split
  · rename_i hzero
    have hrank : rank = ⟨0, by decide⟩ := Fin.ext hzero
    rw [hrank]
    rfl
  · rename_i hzero
    have hpos : 0 < rank.val := Nat.pos_of_ne_zero hzero
    rw [if_neg h.ne]
    obtain ⟨multiple, e, hshortest, htakes⟩ := shortest_takes .up hpos
    obtain ⟨k, hvalue, hpoint, hne, hdigits⟩ := ofMultiple_spec (htakes.digits_pos hpos) e
    rw [hshortest]
    generalize Decimal.ofMultiple multiple e = d at *
    obtain ⟨k', hread⟩ := decimal?_plain negative hne hdigits
    rw [hread]
    -- The zeros that the grid's point lost and the zeros that the text got move the point alike.
    refine congrArg some (ofDecimal_of_takes negative hpos h ?_)
    have hsum : d.point - d.digits.length - k' + k' = e + k := by omega
    rw [takes_shift, hsum, ← takes_shift, ← hvalue]
    exact htakes

theorem mem_plain {d : Decimal} (hdigits : ∀ c ∈ d.digits, c.isDigit = true) :
    ∀ c ∈ d.plain, c ∈ plainCharacters := by
  have hplain : ∀ c ∈ d.digits, c ∈ plainCharacters := fun c hc =>
    mem_plainCharacters_of_isDigit (hdigits c hc)
  have hzeros : ∀ k, ∀ c ∈ List.replicate k '0', c ∈ plainCharacters := by
    intro k c hc
    rw [List.eq_of_mem_replicate hc]
    decide
  have hpoint : '.' ∈ plainCharacters := by decide
  rw [Decimal.plain]
  split
  · refine List.forall_mem_cons.mpr ⟨by decide, List.forall_mem_cons.mpr ⟨hpoint, ?_⟩⟩
    exact List.forall_mem_append.mpr ⟨hzeros _, hplain⟩
  · split
    · refine List.forall_mem_append.mpr ⟨fun c hc => hplain c (List.mem_of_mem_take hc), ?_⟩
      exact List.forall_mem_cons.mpr ⟨hpoint, fun c hc => hplain c (List.mem_of_mem_drop hc)⟩
    · exact List.forall_mem_append.mpr ⟨hplain, hzeros _⟩

theorem mem_plainMagnitude {rank : Rank} : ∀ c ∈ plainMagnitude rank, c ∈ plainCharacters := by
  rw [plainMagnitude]
  split
  · exact mem_plainCharacters_of_all (by decide)
  · rename_i hzero
    split
    · exact mem_plainCharacters_of_all (by decide)
    · have hpos : 0 < rank.val := Nat.pos_of_ne_zero hzero
      obtain ⟨multiple, e, hshortest, htakes⟩ := shortest_takes .up hpos
      rw [hshortest]
      exact mem_plain (ofMultiple_spec (htakes.digits_pos hpos) e).choose_spec.2.2.2

theorem isPlain_text (x : Double) : IsPlain x.text.toList := by
  cases x with
  | nan => exact .of_forall (mem_plainCharacters_of_all (by decide))
  | number negative rank =>
    rw [text, String.toList_ofList]
    cases negative with
    | true =>
      rw [if_pos rfl]
      exact .neg mem_plainMagnitude
    | false =>
      rw [if_neg Bool.false_ne_true]
      exact .of_forall mem_plainMagnitude

theorem takeSign_magnitude (negative : Bool) (rank : Rank) :
    takeSign (if negative then '-' :: plainMagnitude rank else plainMagnitude rank) =
      (negative, plainMagnitude rank) := by
  cases negative with
  | true =>
    rw [if_pos rfl]
    rfl
  | false =>
    rw [if_neg Bool.false_ne_true]
    refine takeSign_eq_self fun c hc => ?_
    have hspec := plainCharacters_spec (mem_plainMagnitude c (List.mem_of_mem_head? hc))
    exact ⟨hspec.2.1, hspec.2.2.1⟩

/-- The text of a number is read as the number. -/
theorem ofText?_text (x : Double) : ofText? x.text.toList = some x := by
  cases x with
  | nan => decide +kernel
  | number negative rank =>
    rw [text, String.toList_ofList, ofText?, takeSign_magnitude]
    dsimp only
    rcases Nat.lt_or_eq_of_le (Nat.le_of_lt_succ rank.isLt) with hlt | heq
    · rw [decimal?_plainMagnitude negative hlt]
    · have hinf : plainMagnitude rank = ['i', 'n', 'f'] := by
        rw [plainMagnitude, if_neg (by rw [heq]; decide), if_pos heq]
      obtain rfl : rank = ⟨infinityRank, Nat.lt_succ_self _⟩ := Fin.ext heq
      rw [hinf]
      cases negative with
      | true => rfl
      | false => rfl

/-- Digits and a minus sign behind a sign are no number. -/
theorem ofText?_minus {cs ds rest : List Char} {negative : Bool}
    (hsign : takeSign cs = (negative, ds ++ '-' :: rest)) (hds : ∀ d ∈ ds, d.isDigit = true) :
    ofText? cs = none := by
  have hminus : '-' ∈ (String.ofList (ds ++ '-' :: rest)).toList := by simp
  have hword := fun word => sameWord_minus word hminus
  rw [ofText?, hsign]
  simp only [decimal?_minus negative hds, hword "nan" (by simp), hword "inf" (by simp),
    hword "infinity" (by simp)]
  rfl

end FilterLang.Double
