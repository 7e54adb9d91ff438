import TestIOCP.Rtsp.Server

/-! Readers that stop at a separator: on a text before a separator they do what they do on
the text alone. -/
namespace TestIOCP.Rtsp
open CString

/-- A text without any of the separators. -/
def Clear (stop s : List Byte) : Prop :=
  ∀ c ∈ s, c ∉ stop

instance (stop s : List Byte) : Decidable (Clear stop s) :=
  inferInstanceAs (Decidable (∀ c ∈ s, c ∉ stop))

/-- What follows starts with a separator, if there is anything. -/
def Ends (stop more : List Byte) : Prop :=
  ∀ c ∈ more.head?, c ∈ stop

/-- A reader goes no further than the first separator. -/
def Stops (stop : List Byte) (read : List Byte → α × List Byte) : Prop :=
  ∀ s more, Clear stop s → Ends stop more →
    read (s ++ more) = ((read s).1, (read s).2 ++ more) ∧ Clear stop (read s).2

section
variable {stop s more : List Byte}

theorem Clear.suffix {t : List Byte} (clear : Clear stop s) (suffix : t <:+ s) : Clear stop t :=
  fun c inside => clear c (suffix.subset inside)

theorem takeWhile_stops {p : Byte → Bool} (stops : ∀ c ∈ stop, p c = false)
    (ends : Ends stop more) :
    (s ++ more).takeWhile p = s.takeWhile p := by
  induction s with
  | nil =>
    cases more with
    | nil => rfl
    | cons c rest => simp [stops c (ends c rfl)]
  | cons c s ih =>
    rw [List.cons_append, List.takeWhile_cons, List.takeWhile_cons, ih]

theorem dropWhile_stops {p : Byte → Bool} (stops : ∀ c ∈ stop, p c = false)
    (ends : Ends stop more) :
    (s ++ more).dropWhile p = s.dropWhile p ++ more := by
  induction s with
  | nil =>
    cases more with
    | nil => rfl
    | cons c rest => simp [stops c (ends c rfl)]
  | cons c s ih =>
    rw [List.cons_append, List.dropWhile_cons, List.dropWhile_cons, ih]
    split <;> rfl

theorem deref_stops {c : Byte} (other : c ∉ stop) (some_ : c ≠ 0) (ends : Ends stop more) :
    deref (s ++ more) = c ↔ deref s = c := by
  cases s with
  | cons d s => rfl
  | nil =>
    cases more with
    | nil => rfl
    | cons d more =>
      have separator : d ∈ stop := ends d rfl
      have left : ¬ d = c := fun same => other (same ▸ separator)
      exact iff_of_false left (Ne.symm some_)

/-- A pointer is moved over a byte that is no separator. -/
theorem tail_stops {c : Byte} (here : deref s = c) (some_ : c ≠ 0) : (s ++ more).tail =
    s.tail ++ more := by
  cases s with
  | nil => exact absurd here (Ne.symm some_)
  | cons d s => rfl

end

/-- Separators that no reader takes for part of what it reads. -/
structure Separators (stop : List Byte) : Prop where
  not_space : ∀ c ∈ stop, SPACE_CHARS.contains c = false ∧ isspace c = false
  not_digit : ∀ c ∈ stop, isdigit c = false
  not_sign : ch '-' ∉ stop ∧ ch '+' ∉ stop
  not_mark : ch '/' ∉ stop ∧ ch '=' ∉ stop

namespace Separators
variable {stop : List Byte}

theorem skip (separators : Separators stop) {s more : List Byte} (clear : Clear stop s)
    (ends : Ends stop more) :
    CString.skip SPACE_CHARS (s ++ more) = CString.skip SPACE_CHARS s ++ more ∧
      Clear stop (CString.skip SPACE_CHARS s) :=
  ⟨dropWhile_stops (fun c inside => (separators.not_space c inside).1) ends,
    clear.suffix (List.dropWhile_suffix _)⟩

theorem get_word_until_chars (separators : Separators stop) (n : Nat) {sep : List Byte}
    (all : ∀ c ∈ stop, c ∈ sep) : Stops stop (get_word_until_chars n sep) := by
  intro s more clear ends
  have stops : ∀ c ∈ stop, (!sep.contains c) = false := by
    intro c inside
    simpa using all c inside
  obtain ⟨skipped, rest⟩ := separators.skip clear ends
  constructor
  · simp only [Rtsp.get_word_until_chars, skipped, takeWhile_stops stops ends,
      dropWhile_stops stops ends]
  · exact rest.suffix (List.dropWhile_suffix _)

theorem get_word_sep (separators : Separators stop) (n : Nat) (sep : List Byte)
    (all : ∀ c ∈ stop, c ∈ sep) : Stops stop (get_word_sep n sep) := by
  intro s more clear ends
  have slash := deref_stops (s := s) separators.not_mark.1 (by decide) ends
  by_cases here : deref s = ch '/'
  · simp only [Rtsp.get_word_sep, slash, here, if_true, tail_stops here (by decide)]
    exact separators.get_word_until_chars n all _ _ (clear.suffix (List.tail_suffix s)) ends
  · simp only [Rtsp.get_word_sep, slash, here, if_false]
    exact separators.get_word_until_chars n all s more clear ends

/-- strtol stops there too. -/
theorem strto (separators : Separators stop) (width : Nat) {s more : List Byte}
    (clear : Clear stop s)
    (ends : Ends stop more) :
    strto width (s ++ more) = ⟨(strto width s).value, (strto width s).rest ++ more,
      (strto width s).range⟩ ∧
      Clear stop (strto width s).rest := by
  have blank := dropWhile_stops (s := s) (fun c inside => (separators.not_space c inside).2) ends
  have left : Clear stop (s.dropWhile isspace) := clear.suffix (List.dropWhile_suffix _)
  have minus := deref_stops (s := s.dropWhile isspace) separators.not_sign.1 (by decide) ends
  have plus := deref_stops (s := s.dropWhile isspace) separators.not_sign.2 (by decide) ends
  -- the text after a sign
  obtain ⟨u, unsigned, unsigned', clear_u⟩ : ∃ u,
      (if deref (s.dropWhile isspace) = ch '-' ∨ deref (s.dropWhile isspace) = ch '+' then
        (s.dropWhile isspace).tail else s.dropWhile isspace) = u ∧
      (if deref (s.dropWhile isspace) = ch '-' ∨ deref (s.dropWhile isspace) = ch '+' then
        (s.dropWhile isspace ++ more).tail else s.dropWhile isspace ++ more) = u ++ more ∧
            Clear stop u := by
    split
    · rename_i sign
      refine ⟨_, rfl, ?_, left.suffix (List.tail_suffix _)⟩
      rcases sign with sign | sign
      · exact tail_stops sign (by decide)
      · exact tail_stops sign (by decide)
    · exact ⟨_, rfl, rfl, left⟩
  have digits := takeWhile_stops (s := u) separators.not_digit ends
  have rest := dropWhile_stops (s := u) separators.not_digit ends
  simp only [CString.strto, blank, minus, plus, unsigned, unsigned', digits, rest]
  split
  · exact ⟨rfl, clear⟩
  · have clear_rest : Clear stop (u.dropWhile isdigit) := clear_u.suffix (List.dropWhile_suffix _)
    -- The sign and the two bounds leave the end pointer alone.
    repeat' split
    all_goals exact ⟨rfl, clear_rest⟩

theorem rtsp_parse_range (separators : Separators stop) {s more : List Byte} (clear : Clear stop s)
    (ends : Ends stop more) :
    rtsp_parse_range (s ++ more) =
        ((rtsp_parse_range s).1, (rtsp_parse_range s).2.1, (rtsp_parse_range s).2.2 ++ more) ∧
      Clear stop (rtsp_parse_range s).2.2 := by
  obtain ⟨skipped, clear_skipped⟩ := separators.skip clear ends
  obtain ⟨first, clear_first⟩ := separators.strto 32 clear_skipped ends
  have minus := deref_stops (s := (strtol (CString.skip SPACE_CHARS s)).rest) separators.not_sign.1
    (by decide) ends
  simp only [Rtsp.rtsp_parse_range, skipped, strtol] at minus ⊢
  rw [first]
  by_cases here : deref (CString.strto 32 (CString.skip SPACE_CHARS s)).rest = ch '-'
  · obtain ⟨second, clear_second⟩ :=
      separators.strto 32 (clear_first.suffix (List.tail_suffix _)) ends
    simp only [minus, here, if_true, tail_stops here (by decide), second]
    exact ⟨trivial, clear_second⟩
  · simp only [minus, here, if_false]
    exact ⟨trivial, clear_first⟩

end Separators

theorem separators_specification : Separators [ch ','] :=
  ⟨by decide, by decide, by decide, by decide⟩

theorem separators_parameter : Separators [ch ';', ch ','] :=
  ⟨by decide, by decide, by decide, by decide⟩

end TestIOCP.Rtsp
