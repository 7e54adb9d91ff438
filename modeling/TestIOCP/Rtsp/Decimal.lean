import TestIOCP.Rtsp.Server

/-! Decimal numbers as the server writes them, and as it reads them back. -/
namespace TestIOCP.Rtsp
open CString

theorem toNat_ch {c : Char} (digit : c.isDigit = true) : (ch c).toNat = c.toNat := by
  have bound := Char.isDigit_iff_toNat.mp digit
  have nine : '9'.toNat = 57 := by decide
  simp only [ch, Nat.toUInt8, UInt8.toNat_ofNat']
  omega

theorem isdigit_ch {c : Char} (digit : c.isDigit = true) : isdigit (ch c) = true := by
  have bound := Char.isDigit_iff_toNat.mp digit
  have value := toNat_ch digit
  have zero : '0'.toNat = 48 ∧ (ch '0').toNat = 48 := by decide
  have nine : '9'.toNat = 57 ∧ (ch '9').toNat = 57 := by decide
  simp only [isdigit, Bool.and_eq_true, decide_eq_true_eq, UInt8.le_iff_toNat_le,
    value, zero.2, nine.2]
  omega

theorem digits_unsignedText (n : Nat) : ∀ c ∈ unsignedText n, isdigit c = true := by
  intro c inside
  obtain ⟨d, digit, rfl⟩ := List.mem_map.mp inside
  exact isdigit_ch (Nat.isDigit_of_mem_toDigits (by decide) (by decide) digit)

theorem digitsValue_map {digits : List Char} (all : ∀ c ∈ digits, c.isDigit = true) (value : Nat) :
    (digits.map ch).foldl (fun v c => 10 * v + (c.toNat - 48)) value =
      Nat.ofDigitChars 10 digits value := by
  induction digits generalizing value with
  | nil => rfl
  | cons c digits ih =>
    obtain ⟨here, others⟩ := List.forall_mem_cons.mp all
    rw [List.map_cons, List.foldl_cons, ih others, toNat_ch here, Nat.ofDigitChars_cons]
    rfl

theorem digitsValue_unsignedText (n : Nat) : digitsValue (unsignedText n) = n := by
  have all : ∀ c ∈ Nat.toDigits 10 n, c.isDigit = true := fun c inside =>
    Nat.isDigit_of_mem_toDigits (by decide) (by decide) inside
  rw [digitsValue, unsignedText, digitsValue_map all, Nat.ofDigitChars_ten_toDigits]

theorem unsignedText_inj {m n : Nat} : unsignedText m = unsignedText n ↔ m = n := by
  constructor
  · intro same
    rw [← digitsValue_unsignedText m, same, digitsValue_unsignedText]
  · exact congrArg unsignedText

theorem plain_of_digit {c : Byte} (digit : isdigit c = true) :
    isspace c = false ∧ c ≠ ch '-' ∧ c ≠ ch '+' ∧ SPACE_CHARS.contains c = false := by
  have zero : (ch '0').toNat = 48 := by decide
  have least : 48 ≤ c.toNat := by
    simp only [isdigit, Bool.and_eq_true, decide_eq_true_eq, UInt8.le_iff_toNat_le, zero] at digit
    exact digit.1
  have other (d : Byte) (below : d.toNat < 48) : c ≠ d := by
    rintro rfl
    omega
  refine ⟨?_, other _ (by decide), other _ (by decide), ?_⟩
  · have space := other (ch ' ') (by decide)
    simp only [isspace, space, decide_false, Bool.false_or, Bool.and_eq_false_iff,
      decide_eq_false_iff_not, UInt8.le_iff_toNat_le, UInt8.reduceToNat]
    omega
  · have none_ : c ∉ SPACE_CHARS := by
      have all : ∀ d ∈ SPACE_CHARS, d.toNat < 48 := by decide
      exact fun inside => absurd (all c inside) (by omega)
    simpa using none_

theorem unsignedText_cons (n : Nat) : ∃ c rest, unsignedText n = c :: rest ∧ isdigit c = true := by
  obtain ⟨c, rest, text⟩ : ∃ c rest, unsignedText n = c :: rest := by
    apply List.exists_cons_of_ne_nil
    simp [unsignedText, Nat.toDigits_ne_nil]
  exact ⟨c, rest, text, digits_unsignedText n c (by simp [text])⟩

/-- A number is written with a first byte that is no blank. -/
theorem signedText_cons (i : Int) : ∃ c rest, signedText i = c :: rest ∧ isspace c = false ∧
    SPACE_CHARS.contains c = false := by
  rw [signedText]
  split
  · exact ⟨_, _, rfl, by decide, by decide⟩
  · obtain ⟨c, rest, text, digit⟩ := unsignedText_cons i.natAbs
    have plain := plain_of_digit digit
    exact ⟨c, rest, text, plain.1, plain.2.2.2⟩

theorem unsignedText_length {n digits : Nat} (some_ : 0 < digits) (below : n < 10 ^ digits) :
    (unsignedText n).length ≤ digits := by
  simpa [unsignedText] using (Nat.length_toDigits_le_iff (by decide) some_).mpr below

/-- Ten digits and a sign. -/
theorem signedText_length {i : Int} (low : -2 ^ 31 ≤ i) (high : i < 2 ^ 31) :
    (signedText i).length ≤ 11 := by
  have digits : (unsignedText i.natAbs).length ≤ 10 :=
    unsignedText_length (by decide) (by omega)
  rw [signedText]
  split
  · rw [List.length_cons]
    omega
  · omega

theorem mem_signedText {i : Int} {c : Byte} (inside : c ∈ signedText i) :
    isdigit c = true ∨ c = ch '-' := by
  have digits := digits_unsignedText i.natAbs c
  rw [signedText] at inside
  split at inside
  · rcases List.mem_cons.mp inside with sign | digit
    · exact .inr sign
    · exact .inl (digits digit)
  · exact .inl (digits inside)

/-- An int is read as it is written, up to a byte that is no digit. -/
theorem strtol_signedText {i : Int} (low : -2 ^ 31 ≤ i) (high : i < 2 ^ 31) {more : List Byte}
    (stops : ∀ c ∈ more.head?, isdigit c = false) :
    strtol (signedText i ++ more) = ⟨i, more, false⟩ := by
  have all := digits_unsignedText i.natAbs
  have value := digitsValue_unsignedText i.natAbs
  obtain ⟨c, rest, text, digit⟩ := unsignedText_cons i.natAbs
  obtain ⟨space, minus, plus, -⟩ := plain_of_digit digit
  have taken : (unsignedText i.natAbs ++ more).takeWhile isdigit = unsignedText i.natAbs := by
    rw [List.takeWhile_append_of_pos all]
    cases more with
    | nil => simp
    | cons d more => simp [stops d rfl]
  have left : (unsignedText i.natAbs ++ more).dropWhile isdigit = more := by
    rw [List.dropWhile_append_of_pos all]
    cases more with
    | nil => rfl
    | cons d more => simp [stops d rfl]
  have some_ : unsignedText i.natAbs ≠ [] := by rw [text]; simp
  by_cases negative : i < 0
  · have head : (signedText i ++ more).dropWhile isspace =
        ch '-' :: (unsignedText i.natAbs ++ more) := by
      rw [signedText, if_pos negative, List.cons_append, List.dropWhile_cons_of_neg (by decide)]
    simp only [strtol, strto, head, deref, List.headD_cons, true_or, if_true, List.tail_cons,
      taken, left, some_, if_false, value]
    have same : -(i.natAbs : Int) = i := by omega
    rw [same, if_neg (by omega), if_neg (by omega)]
  · have head : (signedText i ++ more).dropWhile isspace = unsignedText i.natAbs ++ more := by
      rw [signedText, if_neg negative, text, List.cons_append,
        List.dropWhile_cons_of_neg (by simp [space])]
    have first : deref (unsignedText i.natAbs ++ more) = c := by rw [text]; rfl
    simp only [strtol, strto, head, first, minus, plus, or_self, if_false, taken, left, some_, value]
    have same : (i.natAbs : Int) = i := by omega
    rw [same, if_neg (by omega), if_neg (by omega)]

/-- A number after a space is read as it is written. -/
theorem strtol_unsignedText {n : Nat} (fits : n ≤ 2 ^ 31 - 1) :
    (strtol (ch ' ' :: unsignedText n)).value = n := by
  obtain ⟨c, rest, text, digit⟩ := unsignedText_cons n
  have number : strtol (signedText n ++ []) = ⟨n, [], false⟩ :=
    strtol_signedText (by omega) (by omega) (by simp)
  rw [signedText, if_neg (by omega), Int.natAbs_natCast, List.append_nil] at number
  have skipped : (ch ' ' :: unsignedText n).dropWhile isspace =
      (unsignedText n).dropWhile isspace := List.dropWhile_cons_of_pos (by decide)
  have value : (strto 32 (ch ' ' :: unsignedText n)).value = (strto 32 (unsignedText n)).value := by
    simp only [strto, skipped]
    repeat' split
    all_goals rfl
  rw [strtol] at number ⊢
  rw [value, number]

/-- A range is read as it is written. -/
theorem rtsp_parse_range_signedText {i j : Int} (left : -2 ^ 31 ≤ i ∧ i < 2 ^ 31)
    (right : -2 ^ 31 ≤ j ∧ j < 2 ^ 31) {more : List Byte}
    (stops : ∀ c ∈ more.head?, isdigit c = false) :
    rtsp_parse_range (signedText i ++ ch '-' :: (signedText j ++ more)) = (i, j, more) := by
  obtain ⟨c, rest, text, -, plain⟩ := signedText_cons i
  have start : skip SPACE_CHARS (signedText i ++ ch '-' :: (signedText j ++ more)) =
      signedText i ++ ch '-' :: (signedText j ++ more) := by
    rw [text, List.cons_append, skip, List.dropWhile_cons_of_neg (by rw [plain]; decide)]
  have minus : ∀ c ∈ (ch '-' :: (signedText j ++ more)).head?, isdigit c = false := by
    intro c head
    rw [← Option.some.inj head]
    decide
  have first := strtol_signedText left.1 left.2 minus
  have second := strtol_signedText right.1 right.2 stops
  simp only [rtsp_parse_range, start, first, deref, List.headD_cons, if_true, List.tail_cons,
    second]

end TestIOCP.Rtsp
