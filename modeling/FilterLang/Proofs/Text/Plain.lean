import FilterLang.Proofs.Text.Digits
import FilterLang.Text.Basic

/-! Plain texts: what trimming, signs and words do to the characters of numbers. -/

namespace FilterLang.Text

/-- What holds of all ASCII characters is found by going through them. -/
theorem forall_ascii {P : Char → Prop} (h : ∀ n < 128, P (Char.ofNat n)) {c : Char}
    (hc : c.toNat < 128) : P c := by
  have hcode := h c.toNat hc
  rwa [Char.ofNat_toNat] at hcode

theorem isDigit_lt {c : Char} (h : c.isDigit = true) : c.toNat < 128 := by
  simp only [Char.isDigit, Bool.and_eq_true, decide_eq_true_eq, UInt32.le_iff_toNat_le] at h
  exact Nat.lt_of_le_of_lt h.2 (by decide)

/-- The characters of numbers and of bytes, signs aside. -/
def plainCharacters : List Char :=
  ['0', '1', '2', '3', '4', '5', '6', '7', '8', '9', 'A', 'B', 'C', 'D', 'E', 'F', '.', 'i', 'n',
    'f', 'N', 'a']

theorem mem_plainCharacters_of_isDigit {c : Char} (h : c.isDigit = true) :
    c ∈ plainCharacters :=
  forall_ascii (P := fun c => c.isDigit = true → c ∈ plainCharacters) (by decide +kernel)
    (isDigit_lt h) h

theorem mem_plainCharacters_of_all {cs : List Char} (h : cs.all plainCharacters.contains = true) :
    ∀ c ∈ cs, c ∈ plainCharacters := fun c hc =>
  List.contains_iff_mem.mp (List.all_eq_true.mp h c hc)

/-- A plain character is no blank, no sign and in neither of the words for the truth values. -/
theorem plainCharacters_spec {c : Char} (h : c ∈ plainCharacters) :
    isBlank c = false ∧ c ≠ '-' ∧ c ≠ '+' ∧ c.toLower ≠ 'u' ∧ c.toLower ≠ 'l' := by
  have hall : plainCharacters.all (fun c => !isBlank c && c != '-' && c != '+' &&
      c.toLower != 'u' && c.toLower != 'l') = true := by
    decide
  have hc := List.all_eq_true.mp hall c h
  simpa [and_assoc] using hc

theorem isBlank_of_isDigit {c : Char} (h : c.isDigit = true) : isBlank c = false :=
  (plainCharacters_spec (mem_plainCharacters_of_isDigit h)).1

theorem not_sign_of_isDigit {c : Char} (h : c.isDigit = true) : c ≠ '-' ∧ c ≠ '+' :=
  have hspec := plainCharacters_spec (mem_plainCharacters_of_isDigit h)
  ⟨hspec.2.1, hspec.2.2.1⟩

/-- A text that starts with digits starts with a digit. -/
theorem isDigit_of_head? {ds : List Char} (hne : ds ≠ []) (hds : ∀ d ∈ ds, d.isDigit = true)
    (rest : List Char) : ∀ c ∈ (ds ++ rest).head?, c.isDigit = true := by
  obtain ⟨d, ds, rfl⟩ := List.exists_cons_of_ne_nil hne
  rintro _ ⟨⟩
  exact hds d List.mem_cons_self

/-- A text that ends with digits ends with a digit. -/
theorem isDigit_of_getLast? {cs ds : List Char} (hne : ds ≠ []) (hds : ∀ d ∈ ds, d.isDigit = true) :
    ∀ c ∈ (cs ++ ds).getLast?, c.isDigit = true := by
  rw [List.getLast?_append, List.getLast?_eq_some_getLast hne, Option.some_or]
  rintro _ ⟨⟩
  exact hds _ (List.getLast_mem hne)

theorem dropWhile_eq_self {p : Char → Bool} {cs : List Char} (h : ∀ c ∈ cs.head?, p c = false) :
    cs.dropWhile p = cs := by
  cases cs with
  | nil => rfl
  | cons c cs => exact List.dropWhile_cons_of_neg (by rw [h c rfl]; exact Bool.false_ne_true)

/-- A text without blanks at its ends is not trimmed. -/
theorem trim_eq_self {cs : List Char} (hhead : ∀ c ∈ cs.head?, isBlank c = false)
    (hlast : ∀ c ∈ cs.getLast?, isBlank c = false) : trim cs = cs := by
  have hreverse : ∀ c ∈ cs.reverse.head?, isBlank c = false := by
    rwa [List.head?_reverse]
  rw [trim, dropWhile_eq_self hhead, dropWhile_eq_self hreverse, List.reverse_reverse]

theorem trim_eq_self_of_forall {cs : List Char} (h : ∀ c ∈ cs, isBlank c = false) :
    trim cs = cs :=
  trim_eq_self (fun c hc => h c (List.mem_of_mem_head? hc))
    fun c hc => h c (List.mem_of_mem_getLast? hc)

theorem takeSign_eq_self {cs : List Char} (h : ∀ c ∈ cs.head?, c ≠ '-' ∧ c ≠ '+') :
    takeSign cs = (false, cs) := by
  rw [takeSign.eq_def]
  split
  · exact ((h '-' rfl).1 rfl).elim
  · exact ((h '+' rfl).2 rfl).elim
  · rfl

/-- Plain characters after a minus sign at most. -/
def IsPlain (cs : List Char) : Prop :=
  ∃ ds : List Char, (∀ d ∈ ds, d ∈ plainCharacters) ∧ (cs = ds ∨ cs = '-' :: ds)

namespace IsPlain

variable {cs : List Char}

theorem of_forall (h : ∀ c ∈ cs, c ∈ plainCharacters) : IsPlain cs := ⟨cs, h, .inl rfl⟩

theorem neg (h : ∀ c ∈ cs, c ∈ plainCharacters) : IsPlain ('-' :: cs) := ⟨cs, h, .inr rfl⟩

theorem trim_eq (h : IsPlain cs) : trim cs = cs := by
  obtain ⟨ds, hds, rfl | rfl⟩ := h
  · exact trim_eq_self_of_forall fun d hd => (plainCharacters_spec (hds d hd)).1
  · refine trim_eq_self_of_forall (List.forall_mem_cons.mpr ⟨by decide, ?_⟩)
    exact fun d hd => (plainCharacters_spec (hds d hd)).1

theorem minus_notMem_tail (h : IsPlain cs) : '-' ∉ cs.tail := by
  obtain ⟨ds, hds, rfl | rfl⟩ := h
  · exact fun hminus => (plainCharacters_spec (hds _ (List.mem_of_mem_tail hminus))).2.1 rfl
  · exact fun hminus => (plainCharacters_spec (hds _ hminus)).2.1 rfl

theorem toLower_ne (h : IsPlain cs) : ∀ c ∈ cs, c.toLower ≠ 'u' ∧ c.toLower ≠ 'l' := by
  obtain ⟨ds, hds, rfl | rfl⟩ := h
  · exact fun d hd => (plainCharacters_spec (hds d hd)).2.2.2
  · refine List.forall_mem_cons.mpr ⟨by decide, ?_⟩
    exact fun d hd => (plainCharacters_spec (hds d hd)).2.2.2

end IsPlain

theorem isPlain_intText (i : Int) : IsPlain (intText i) := by
  have hds : ∀ d ∈ decimal i.natAbs, d ∈ plainCharacters := fun d hd =>
    mem_plainCharacters_of_isDigit (isDigit_of_mem_decimal hd)
  rw [intText]
  split
  · exact .neg hds
  · exact .of_forall hds

/-- A word has all characters of the word that it is the same as, up to case. -/
theorem sameWord_eq_false {s t : String} {d : Char} (hd : d ∈ t.toList)
    (hs : ∀ c ∈ s.toList, c.toLower ≠ d.toLower) : sameWord s t = false := by
  refine Bool.eq_false_iff.mpr fun hsame => ?_
  have hmap := beq_iff_eq.mp hsame
  have hmem : d.toLower ∈ s.toList.map Char.toLower := hmap ▸ List.mem_map_of_mem hd
  obtain ⟨c, hc, hlower⟩ := List.mem_map.mp hmem
  exact hs c hc hlower

/-- No word that stands for a number or a truth value has a minus sign. -/
theorem sameWord_minus {s : String} (word : String) (hs : '-' ∈ s.toList)
    (hword : word ∈ ["nan", "inf", "infinity", "true", "false"]) : sameWord s word = false := by
  have hall : ["nan", "inf", "infinity", "true", "false"].all
      (fun word => word.toList.all fun c => c.toLower != '-'.toLower) = true := by
    decide
  rw [sameWord_comm]
  refine sameWord_eq_false hs fun c hc => ?_
  exact bne_iff_ne.mp (List.all_eq_true.mp (List.all_eq_true.mp hall word hword) c hc)

theorem intOfText?_of_digits {cs ds : List Char} {negative : Bool}
    (hsign : takeSign cs = (negative, ds)) (hne : ds ≠ []) (hds : ∀ d ∈ ds, d.isDigit = true) :
    intOfText? cs = some (if negative then -(digitsValue ds : Int) else digitsValue ds) := by
  have hall : (ds.isEmpty || !ds.all Char.isDigit) = false := by
    rw [Bool.or_eq_false_iff, List.isEmpty_eq_false_iff, Bool.not_eq_false']
    exact ⟨hne, List.all_eq_true.mpr hds⟩
  rw [intOfText?, hsign]
  dsimp only
  rw [hall]
  rfl

theorem takeSign_digits {ds : List Char} (hne : ds ≠ []) (hds : ∀ d ∈ ds, d.isDigit = true)
    (rest : List Char) : takeSign (ds ++ rest) = (false, ds ++ rest) :=
  takeSign_eq_self fun c hc => not_sign_of_isDigit (isDigit_of_head? hne hds rest c hc)

theorem intOfText?_intText (i : Int) : intOfText? (intText i) = some i := by
  have hds : ∀ d ∈ decimal i.natAbs, d.isDigit = true := fun d hd => isDigit_of_mem_decimal hd
  rw [intText]
  split
  · have hsign : takeSign ('-' :: decimal i.natAbs) = (true, decimal i.natAbs) := rfl
    rw [intOfText?_of_digits hsign (decimal_ne_nil _) hds, digitsValue_decimal, if_pos rfl]
    exact congrArg some (by omega)
  · have hsign := takeSign_digits (decimal_ne_nil i.natAbs) hds []
    rw [List.append_nil] at hsign
    rw [intOfText?_of_digits hsign (decimal_ne_nil _) hds, digitsValue_decimal]
    exact congrArg some (by simp; omega)

end FilterLang.Text
