import TestIOCP.Rtsp.Reparsed
import Mathlib.Tactic.Ring

/-! The durations that av_parse_time reads, and what they mean. rtsp_parse_range_npt cuts the
words of a Range header at minus signs, so it hands over texts without one. -/
namespace TestIOCP.Rtsp
open CString

/-- Decimal digits, at least one of them. -/
structure Number (digits : List Byte) : Prop where
  some_ : digits ≠ []
  all : ∀ c ∈ digits, isdigit c = true

instance (digits : List Byte) : Decidable (Number digits) :=
  decidable_of_iff (digits ≠ [] ∧ ∀ c ∈ digits, isdigit c = true)
    ⟨fun ⟨some_, all⟩ => ⟨some_, all⟩, fun ⟨some_, all⟩ => ⟨some_, all⟩⟩

/-- Hours, minutes and seconds, or minutes and seconds, or seconds after blanks and a sign. -/
inductive Clock where
  | hms (h m s : List Byte)
  | ms (m s : List Byte)
  | seconds (blanks : List Byte) (plus : Bool) (digits : List Byte)
  deriving DecidableEq, Repr

namespace Clock

def text : Clock → List Byte
  | hms h m s => h ++ ch ':' :: (m ++ ch ':' :: s)
  | ms m s => m ++ ch ':' :: s
  | seconds blanks plus digits => blanks ++ ((if plus then [ch '+'] else []) ++ digits)

/-- In seconds. -/
def value : Clock → Nat
  | hms h m s => digitsValue h * 3600 + digitsValue m * 60 + digitsValue s
  | ms m s => digitsValue m * 60 + digitsValue s
  | seconds _ _ digits => digitsValue digits

/-- Minutes and seconds, which have two digits at most. -/
def Sexagesimal (digits : List Byte) : Prop :=
  Number digits ∧ digits.length ≤ 2 ∧ digitsValue digits ≤ 59

instance (digits : List Byte) : Decidable (Sexagesimal digits) :=
  inferInstanceAs (Decidable (_ ∧ _ ∧ _))

def Valid : Clock → Prop
  | hms h m s => Number h ∧ h.length ≤ 4 ∧ Sexagesimal m ∧ Sexagesimal s
  | ms m s => Sexagesimal m ∧ Sexagesimal s
  | seconds blanks _ digits => (∀ c ∈ blanks, isspace c = true) ∧ Number digits

instance : (c : Clock) → Decidable c.Valid
  | hms h m s =>
    inferInstanceAs (Decidable (Number h ∧ h.length ≤ 4 ∧ Sexagesimal m ∧ Sexagesimal s))
  | ms m s => inferInstanceAs (Decidable (Sexagesimal m ∧ Sexagesimal s))
  | seconds blanks _ digits =>
    inferInstanceAs (Decidable ((∀ c ∈ blanks, isspace c = true) ∧ Number digits))

end Clock

inductive Suffix where
  | none
  | ms
  | us
  | s
  deriving DecidableEq, Repr

namespace Suffix

def text : Suffix → List Byte
  | none => []
  | ms => bytes "ms"
  | us => bytes "us"
  | s => bytes "s"

/-- How many microseconds a unit has. -/
def scale : Suffix → Nat
  | none | s => 1000000
  | ms => 1000
  | us => 1

/-- What the digits after the point are worth in microseconds of the unit. -/
def part : Suffix → Nat → Nat
  | none, micro | s, micro => micro
  | ms, micro => micro / 1000
  | us, _ => 0

end Suffix

/-- The first six digits after the point. -/
def microsValue (fraction : List Byte) : Nat :=
  digitsValue (fraction.take 6) * 10 ^ (6 - fraction.length)

structure Duration where
  clock : Clock
  fraction : Option (List Byte)
  suffix : Suffix
  deriving DecidableEq, Repr

namespace Duration

def fractionText : Option (List Byte) → List Byte
  | none => []
  | some digits => ch '.' :: digits

def text (d : Duration) : List Byte :=
  d.clock.text ++ (fractionText d.fraction ++ d.suffix.text)

def micros (d : Duration) : Nat :=
  microsValue (d.fraction.getD [])

/-- In microseconds. -/
def value (d : Duration) : Nat :=
  d.clock.value * d.suffix.scale + d.suffix.part d.micros

structure Valid (d : Duration) : Prop where
  clock : d.clock.Valid
  fraction : ∀ digits ∈ d.fraction, ∀ c ∈ digits, isdigit c = true

end Duration

theorem takeWhile_digits {digits more : List Byte} (all : ∀ c ∈ digits, isdigit c = true)
    (stops : ∀ c ∈ more.head?, isdigit c = false) :
    (digits ++ more).takeWhile isdigit = digits := by
  rw [List.takeWhile_append_of_pos all]
  cases more with
  | nil => simp
  | cons c more => simp [stops c rfl]

theorem dropWhile_digits {digits more : List Byte} (all : ∀ c ∈ digits, isdigit c = true)
    (stops : ∀ c ∈ more.head?, isdigit c = false) :
    (digits ++ more).dropWhile isdigit = more := by
  rw [List.dropWhile_append_of_pos all]
  cases more with
  | nil => rfl
  | cons c more => simp [stops c rfl]

theorem digitsValue_from (digits : List Byte) (value : Nat) :
    digits.foldl (fun v c => 10 * v + (c.toNat - 48)) value =
      value * 10 ^ digits.length + digitsValue digits := by
  induction digits generalizing value with
  | nil => simp [digitsValue]
  | cons c digits ih =>
    have here : digitsValue (c :: digits) =
        (10 * 0 + (c.toNat - 48)) * 10 ^ digits.length + digitsValue digits := ih _
    rw [List.foldl_cons, ih, here, List.length_cons, pow_succ]
    ring

theorem digitsValue_cons (c : Byte) (digits : List Byte) :
    digitsValue (c :: digits) = (c.toNat - 48) * 10 ^ digits.length + digitsValue digits := by
  have here : digitsValue (c :: digits) =
      (10 * 0 + (c.toNat - 48)) * 10 ^ digits.length + digitsValue digits :=
    digitsValue_from digits (10 * 0 + (c.toNat - 48))
  rw [here, Nat.mul_zero, Nat.zero_add]

theorem digitsValue_lt {digits : List Byte} (all : ∀ c ∈ digits, isdigit c = true) :
    digitsValue digits < 10 ^ digits.length := by
  induction digits with
  | nil => decide
  | cons c digits ih =>
    obtain ⟨digit, others⟩ := List.forall_mem_cons.mp all
    have nine : (ch '9').toNat = 57 := by decide
    have small : c.toNat - 48 ≤ 9 := by
      simp only [isdigit, Bool.and_eq_true, decide_eq_true_eq, UInt8.le_iff_toNat_le, nine] at digit
      omega
    have scaled := Nat.mul_le_mul_right (10 ^ digits.length) small
    have rest := ih others
    rw [digitsValue_cons, List.length_cons, pow_succ]
    omega

theorem microseconds_stops {n acc : Nat} {more : List Byte} (some_ : n ≠ 0)
    (stops : ∀ c ∈ more.head?, isdigit c = false) : microseconds n acc more = (acc, more) := by
  cases n with
  | zero => contradiction
  | succ n =>
    cases more with
    | nil => rfl
    | cons c more => simp [microseconds, stops c rfl]

theorem microseconds_digit {n acc : Nat} {c : Byte} {more : List Byte} (some_ : n ≠ 0)
    (digit : isdigit c = true) :
    microseconds n acc (c :: more) = microseconds (n / 10) (acc + n * (c.toNat - 48)) more := by
  cases n with
  | zero => contradiction
  | succ n => simp [microseconds, digit]

/-- The loop over the digits after the point. -/
theorem microseconds_eq {fraction more : List Byte} (all : ∀ c ∈ fraction, isdigit c = true)
    (stops : ∀ c ∈ more.head?, isdigit c = false) (k acc : Nat) :
    microseconds (10 ^ k) acc (fraction ++ more) =
      (acc + digitsValue (fraction.take (k + 1)) * 10 ^ (k + 1 - fraction.length), more) := by
  have some_ (k : Nat) : 10 ^ k ≠ 0 := (Nat.pow_pos (by decide)).ne'
  induction fraction generalizing k acc with
  | nil => simpa [digitsValue] using microseconds_stops (some_ k) stops
  | cons c fraction ih =>
    obtain ⟨digit, others⟩ := List.forall_mem_cons.mp all
    rw [List.cons_append, microseconds_digit (some_ k) digit]
    cases k with
    | zero =>
      have rest : microseconds 0 (acc + (c.toNat - 48)) (fraction ++ more) =
          (acc + (c.toNat - 48), more) := by
        rw [microseconds, dropWhile_digits others stops]
      simpa [digitsValue] using rest
    | succ k =>
      have next : 10 ^ (k + 1) / 10 = 10 ^ k := by
        rw [pow_succ, Nat.mul_div_cancel _ (by decide)]
      have scale : 10 ^ (fraction.take (k + 1)).length * 10 ^ (k + 1 - fraction.length) =
          10 ^ (k + 1) := by
        rw [← pow_add, List.length_take]
        congr 1
        omega
      rw [next, ih others, List.take_succ_cons, digitsValue_cons, List.length_cons,
        Nat.add_sub_add_right, Nat.add_mul, Nat.mul_assoc, scale, Nat.mul_comm (c.toNat - 48)]
      congr 1
      omega

/-- A number is read up to the first byte that is no digit, or to its full length. -/
theorem date_get_num_eq {digits more : List Byte} (number : Number digits) {n_max len_max : Nat}
    (short : digits.length ≤ len_max)
    (stops : digits.length = len_max ∨ ∀ c ∈ more.head?, isdigit c = false)
    (high : digitsValue digits ≤ n_max) :
    date_get_num (digits ++ more) 0 n_max len_max = some (digitsValue digits, more) := by
  have read : ((digits ++ more).take len_max).takeWhile isdigit = digits := by
    rw [List.take_append, List.take_of_length_le short]
    refine takeWhile_digits number.all fun c head => ?_
    rw [List.head?_take] at head
    split at head
    · cases head
    · rename_i room
      exact stops.resolve_left (by omega) c head
  rw [date_get_num, read, if_neg, List.drop_left]
  rintro (none_ | low | high')
  · exact number.some_ none_
  · exact absurd low (Nat.not_lt_zero _)
  · omega

theorem date_get_num_some {p q : List Byte} {n_max len_max val : Nat}
    (read : date_get_num p 0 n_max len_max = some (val, q)) :
    ∃ digits, p = digits ++ q ∧ Number digits ∧ digits.length ≤ len_max ∧
      digitsValue digits ≤ n_max ∧ val = digitsValue digits := by
  simp only [date_get_num] at read
  split at read
  · cases read
  rename_i accepted
  cases read
  obtain ⟨some_, -, high⟩ : _ ∧ _ ∧ _ := by simpa only [not_or] using accepted
  have front : (p.take len_max).takeWhile isdigit <+: p :=
    (List.takeWhile_prefix _).trans (List.take_prefix _ _)
  refine ⟨_, ?_, ⟨some_, fun c inside => List.mem_takeWhile_imp inside⟩, ?_, by omega, rfl⟩
  · exact (List.prefix_iff_eq_append.mp front).symm
  · have shorter := (List.takeWhile_prefix (p := isdigit) (l := p.take len_max)).length_le
    have taken := List.length_take_le len_max p
    omega

section strptime
variable {p q : List Byte} {fmt : List Conversion} {dt dt' : Tm}

theorem strptime_char {c : Byte} (read : av_small_strptime p (.char c :: fmt) dt = (some q, dt')) :
    ∃ p', p = c :: p' ∧ av_small_strptime p' fmt dt = (some q, dt') := by
  cases p with
  | nil => simp [av_small_strptime] at read
  | cons d p =>
    simp only [av_small_strptime, List.head?_cons, Option.some.injEq] at read
    split at read
    · rename_i same
      exact ⟨p, by rw [same], read⟩
    · cases read

theorem strptime_J (read : av_small_strptime p (.J :: fmt) dt = (some q, dt')) :
    ∃ h p', p = h ++ p' ∧ Number h ∧ h.length ≤ 4 ∧
      av_small_strptime p' fmt { dt with tm_hour := digitsValue h } = (some q, dt') := by
  rw [av_small_strptime] at read
  split at read
  · cases read
  · rename_i val p' number
    obtain ⟨h, split_, digits, short, -, rfl⟩ := date_get_num_some number
    exact ⟨h, p', split_, digits, short, read⟩

theorem strptime_M (read : av_small_strptime p (.M :: fmt) dt = (some q, dt')) :
    ∃ m p', p = m ++ p' ∧ Clock.Sexagesimal m ∧
      av_small_strptime p' fmt { dt with tm_min := digitsValue m } = (some q, dt') := by
  rw [av_small_strptime] at read
  split at read
  · cases read
  · rename_i val p' number
    obtain ⟨m, split_, digits, short, high, rfl⟩ := date_get_num_some number
    exact ⟨m, p', split_, ⟨digits, short, high⟩, read⟩

theorem strptime_S (read : av_small_strptime p [.S] dt = (some q, dt')) :
    ∃ s, p = s ++ q ∧ Clock.Sexagesimal s ∧ dt' = { dt with tm_sec := digitsValue s } := by
  rw [av_small_strptime] at read
  split at read
  · cases read
  · rename_i val p' number
    obtain ⟨s, split_, digits, short, high, rfl⟩ := date_get_num_some number
    cases read
    exact ⟨s, split_, ⟨digits, short, high⟩, rfl⟩

end strptime

def hmsFormat : List Conversion := [.J, .char (ch ':'), .M, .char (ch ':'), .S]
def msFormat : List Conversion := [.M, .char (ch ':'), .S]

theorem strptime_ms_some {p q : List Byte} {dt dt' : Tm}
    (read : av_small_strptime p msFormat dt = (some q, dt')) :
    ∃ m s, p = (Clock.ms m s).text ++ q ∧ (Clock.ms m s).Valid ∧
      dt' = ⟨dt.tm_hour, digitsValue m, digitsValue s⟩ := by
  obtain ⟨m, p₁, rfl, minutes, read⟩ := strptime_M read
  obtain ⟨p₂, rfl, read⟩ := strptime_char read
  obtain ⟨s, rfl, seconds, rfl⟩ := strptime_S read
  exact ⟨m, s, by simp [Clock.text], ⟨minutes, seconds⟩, rfl⟩

theorem strptime_hms_some {p q : List Byte} {dt dt' : Tm}
    (read : av_small_strptime p hmsFormat dt = (some q, dt')) :
    ∃ h m s, p = (Clock.hms h m s).text ++ q ∧ (Clock.hms h m s).Valid ∧
      dt' = ⟨digitsValue h, digitsValue m, digitsValue s⟩ := by
  obtain ⟨h, p₁, rfl, hours, short, read⟩ := strptime_J read
  obtain ⟨p₂, rfl, read⟩ := strptime_char read
  obtain ⟨m, s, rfl, ⟨minutes, seconds⟩, rfl⟩ := strptime_ms_some read
  exact ⟨h, m, s, by simp [Clock.text], ⟨hours, short, minutes, seconds⟩, rfl⟩

/-- What comes after a clock: nothing that would go on with its digits. -/
def Clock.Ends (more : List Byte) : Prop :=
  ∀ c ∈ more.head?, isdigit c = false ∧ c ≠ ch ':'

theorem strptime_ms_eq {m s more : List Byte} (valid : (Clock.ms m s).Valid)
    (stops : Clock.Ends more) (dt : Tm) :
    av_small_strptime ((Clock.ms m s).text ++ more) msFormat dt =
      (some more, ⟨dt.tm_hour, digitsValue m, digitsValue s⟩) := by
  obtain ⟨⟨m_digits, m_short, m_high⟩, s_digits, s_short, s_high⟩ := valid
  have minutes : date_get_num (m ++ ch ':' :: (s ++ more)) 0 59 2 =
      some (digitsValue m, ch ':' :: (s ++ more)) :=
    date_get_num_eq m_digits m_short
      (.inr fun c head => by rw [← Option.some.inj head]; decide) m_high
  have seconds := date_get_num_eq s_digits s_short (.inr fun c head => (stops c head).1) s_high
  simp only [Clock.text, List.append_assoc, List.cons_append, msFormat, av_small_strptime, minutes,
    List.head?_cons, if_true, List.tail_cons, seconds]

theorem strptime_hms_eq {h m s more : List Byte} (valid : (Clock.hms h m s).Valid)
    (stops : Clock.Ends more) (dt : Tm) :
    av_small_strptime ((Clock.hms h m s).text ++ more) hmsFormat dt =
      (some more, ⟨digitsValue h, digitsValue m, digitsValue s⟩) := by
  obtain ⟨h_digits, h_short, minutes, seconds⟩ := valid
  have below : digitsValue h ≤ 2147483647 := by
    have bound := digitsValue_lt h_digits.all
    have power : 10 ^ h.length ≤ 10 ^ 4 := Nat.pow_le_pow_right (by decide) h_short
    omega
  have hours : date_get_num (h ++ ch ':' :: ((Clock.ms m s).text ++ more)) 0 2147483647 4 =
      some (digitsValue h, ch ':' :: ((Clock.ms m s).text ++ more)) :=
    date_get_num_eq h_digits h_short
      (.inr fun c head => by rw [← Option.some.inj head]; decide) below
  have rest := strptime_ms_eq ⟨minutes, seconds⟩ stops { dt with tm_hour := digitsValue h }
  have text : (Clock.hms h m s).text ++ more =
      h ++ ch ':' :: ((Clock.ms m s).text ++ more) := by simp [Clock.text]
  rw [text, hmsFormat, av_small_strptime, hours]
  simp only [av_small_strptime, List.head?_cons, if_true, List.tail_cons]
  exact rest

theorem Number.no_colon {digits : List Byte} (number : Number digits) : ch ':' ∉ digits :=
  fun inside => absurd (number.all _ inside) (by decide)

/-- A text with fewer than two colons is no hours, minutes and seconds. -/
theorem strptime_hms_none {p : List Byte} (few : p.count (ch ':') < 2) (dt : Tm) :
    (av_small_strptime p hmsFormat dt).1 = none := by
  cases read : av_small_strptime p hmsFormat dt with
  | mk q dt' =>
    cases q with
    | none => rfl
    | some q =>
      obtain ⟨h, m, s, rfl, -, -⟩ := strptime_hms_some read
      simp only [Clock.text, List.count_append, List.count_cons_self] at few
      omega

theorem strptime_ms_none {p : List Byte} (none_ : ch ':' ∉ p) (dt : Tm) :
    (av_small_strptime p msFormat dt).1 = none := by
  cases read : av_small_strptime p msFormat dt with
  | mk q dt' =>
    cases q with
    | none => rfl
    | some q =>
      obtain ⟨m, s, rfl, -, -⟩ := strptime_ms_some read
      simp [Clock.text] at none_

/-- The seconds that av_parse_time starts with, and what is behind them. -/
def readClock (p : List Byte) : Option (Int × List Byte) :=
  match av_small_strptime p hmsFormat {} with
  | (some q, dt) => some (dt.tm_hour * 3600 + dt.tm_min * 60 + dt.tm_sec, q)
  | (none, dt) =>
    match av_small_strptime p msFormat dt with
    | (some q, dt) => some (dt.tm_min * 60 + dt.tm_sec, q)
    | (none, _) =>
      let number := strtoll p
      if number.rest = p ∨ number.range then none else some (number.value, number.rest)

/-- The digits after a point, as microseconds. -/
def readFraction (q : List Byte) : Nat × List Byte :=
  if deref q = ch '.' then microseconds 100000 0 q.tail else (0, q)

/-- The microseconds of a unit, and how many of those that were read count. -/
def readSuffix (micro : Nat) (q : List Byte) : Int × Nat × List Byte :=
  if q.take 2 = bytes "ms" then (1000, micro / 1000, q.drop 2)
  else if q.take 2 = bytes "us" then (1, 0, q.drop 2)
  else if deref q = ch 's' then (1000000, micro, q.tail)
  else (1000000, micro, q)

/-- What av_parse_time makes of the rest of a text without a minus sign. -/
def finish (t : Int) (q : List Byte) : Int × Bool :=
  let (micro, q) := readFraction q
  let (suffix, micro, q) := readSuffix micro q
  if q ≠ [] then (INT64_MIN, false)
  else if INT64_MAX / suffix < t then (INT64_MIN, false)
  else if INT64_MAX - micro < int64 (t * suffix) then (INT64_MIN, false)
  else (int64 (int64 (t * suffix) + micro), true)

theorem av_parse_time_eq {text : List Byte} (plain : ch '-' ∉ text) :
    av_parse_time text =
      match readClock text with
      | none => (INT64_MIN, false)
      | some (t, q) => finish t q := by
  have positive : deref text ≠ ch '-' := by
    cases text with
    | nil => decide
    | cons c text => exact fun same => plain (same ▸ List.mem_cons_self)
  have hms : av_small_strptime text [.J, .char (ch ':'), .M, .char (ch ':'), .S] {} =
    av_small_strptime text hmsFormat {} := rfl
  have ms (dt : Tm) : av_small_strptime text [.M, .char (ch ':'), .S] dt =
    av_small_strptime text msFormat dt := rfl
  simp only [av_parse_time, positive, if_false, hms, ms, readClock]
  rcases av_small_strptime text hmsFormat {} with ⟨q | q, dt⟩
  · simp only
    rcases av_small_strptime text msFormat dt with ⟨q | q, dt⟩
    · by_cases failed : (strtoll text).rest = text ∨ (strtoll text).range = true
      · simp only [failed, if_true]
      · simp only [failed, if_false]
        rfl
    · simp [finish, readFraction, readSuffix]
  · rfl

/-- A number without a minus sign, after blanks. -/
theorem strtoll_eq {blanks digits more : List Byte} (plus : Bool)
    (spaces : ∀ c ∈ blanks, isspace c = true) (number : Number digits)
    (stops : ∀ c ∈ more.head?, isdigit c = false) :
    strtoll ((Clock.seconds blanks plus digits).text ++ more) =
      if digitsValue digits < 2 ^ 63 then ⟨digitsValue digits, more, false⟩
      else ⟨2 ^ 63 - 1, more, true⟩ := by
  obtain ⟨c, rest, same⟩ := List.exists_cons_of_ne_nil number.some_
  obtain ⟨space, minus, sign, -⟩ := plain_of_digit (number.all c (same ▸ List.mem_cons_self))
  have start : ((Clock.seconds blanks plus digits).text ++ more).dropWhile isspace =
      (if plus then [ch '+'] else []) ++ (digits ++ more) := by
    rw [Clock.text, List.append_assoc, List.append_assoc, List.dropWhile_append_of_pos spaces, same]
    cases plus
    · exact List.dropWhile_cons_of_neg (by simp [space])
    · exact List.dropWhile_cons_of_neg (by decide)
  have positive : deref ((if plus then [ch '+'] else []) ++ (digits ++ more)) ≠ ch '-' := by
    cases plus
    · rw [same]
      exact minus
    · exact (by decide : ch '+' ≠ ch '-')
  have unsigned : (if deref ((if plus then [ch '+'] else []) ++ (digits ++ more)) = ch '+' then
      ((if plus then [ch '+'] else []) ++ (digits ++ more)).tail
      else (if plus then [ch '+'] else []) ++ (digits ++ more)) = digits ++ more := by
    cases plus
    · rw [same]
      exact if_neg sign
    · exact if_pos rfl
  have taken := takeWhile_digits number.all stops
  have left := dropWhile_digits number.all stops
  simp only [strtoll, strto, start, positive, false_or, unsigned, taken, left, number.some_,
    if_false]
  rw [if_neg (by omega)]
  by_cases small : digitsValue digits < 2 ^ 63
  · rw [if_neg (by omega), if_pos small]
  · rw [if_pos (by omega), if_neg small]

theorem strtoll_some {p : List Byte} (plain : ch '-' ∉ p)
    (read : ¬ ((strtoll p).rest = p ∨ (strtoll p).range = true)) :
    ∃ blanks plus digits, p = (Clock.seconds blanks plus digits).text ++ (strtoll p).rest ∧
      (Clock.seconds blanks plus digits).Valid ∧ (strtoll p).value = digitsValue digits := by
  obtain ⟨moved, fits⟩ := not_or.mp read
  obtain ⟨t, start⟩ : ∃ t, t = p.dropWhile isspace := ⟨_, rfl⟩
  have whole : p = p.takeWhile isspace ++ t := by rw [start, List.takeWhile_append_dropWhile]
  have positive : deref t ≠ ch '-' := by
    cases t with
    | nil => decide
    | cons c t =>
      rintro rfl
      rw [whole] at plain
      simp at plain
  obtain ⟨plus, u, signed, unsigned⟩ : ∃ (plus : Bool) (u : List Byte),
      t = (if plus then [ch '+'] else []) ++ u ∧ (if deref t = ch '+' then t.tail else t) = u := by
    by_cases sign : deref t = ch '+'
    · cases t with
      | nil => exact absurd sign (by decide)
      | cons c t =>
        obtain rfl : c = ch '+' := sign
        exact ⟨true, t, rfl, if_pos (show deref (ch '+' :: t) = ch '+' from rfl)⟩
    · exact ⟨false, t, rfl, if_neg sign⟩
  have read : strtoll p = strto 64 p := rfl
  simp only [strto, ← start, positive, false_or, unsigned, if_false] at read
  split at read
  · rw [read] at moved
    exact absurd rfl moved
  rename_i some_
  rw [if_neg (by omega)] at read
  split at read
  · rw [read] at fits
    exact absurd rfl fits
  refine ⟨p.takeWhile isspace, plus, u.takeWhile isdigit, ?_,
    ⟨fun c inside => List.mem_takeWhile_imp inside, some_,
      fun c inside => List.mem_takeWhile_imp inside⟩, ?_⟩
  · rw [read]
    simp only [Clock.text, List.append_assoc, List.takeWhile_append_dropWhile]
    rw [← signed]
    exact whole
  · rw [read]

theorem Clock.hms_small {h m s : List Byte} (valid : (hms h m s).Valid) :
    digitsValue h ≤ 9999 ∧ digitsValue m ≤ 59 ∧ digitsValue s ≤ 59 := by
  obtain ⟨hours, short, minutes, seconds⟩ := valid
  have bound := digitsValue_lt hours.all
  have power : 10 ^ h.length ≤ 10 ^ 4 := Nat.pow_le_pow_right (by decide) short
  exact ⟨by omega, minutes.2.2, seconds.2.2⟩

theorem Clock.no_colon {blanks digits : List Byte} {plus : Bool}
    (valid : (seconds blanks plus digits).Valid) : ch ':' ∉ (seconds blanks plus digits).text := by
  have spaces : ch ':' ∉ blanks := fun inside => absurd (valid.1 _ inside) (by decide)
  have sign : ch ':' ∉ (if plus then [ch '+'] else []) := by
    cases plus <;> decide
  simp only [text, List.mem_append, not_or]
  exact ⟨spaces, sign, valid.2.no_colon⟩

/-- A clock is read as what it means, unless it is out of range. -/
theorem readClock_eq {c : Clock} (valid : c.Valid) {more : List Byte} (stops : Clock.Ends more)
    (few : ch ':' ∉ more) :
    readClock (c.text ++ more) =
      if c.value < 2 ^ 63 then some ((c.value : Int), more) else none := by
  cases c with
  | hms h m s =>
    have small := Clock.hms_small valid
    rw [if_pos (by simp only [Clock.value]; omega), readClock, strptime_hms_eq valid stops]
    simp [Clock.value]
  | ms m s =>
    obtain ⟨m_digits, -, m_high⟩ := valid.1
    obtain ⟨s_digits, -, s_high⟩ := valid.2
    have count : ((Clock.ms m s).text ++ more).count (ch ':') < 2 := by
      simp [Clock.text, List.count_eq_zero.mpr, m_digits.no_colon, s_digits.no_colon, few]
    have none_ := strptime_hms_none count {}
    rw [if_pos (by simp only [Clock.value]; omega), readClock]
    rcases read : av_small_strptime ((Clock.ms m s).text ++ more) hmsFormat {} with ⟨q, dt⟩
    obtain rfl : q = none := by rwa [read] at none_
    simp only [strptime_ms_eq valid stops]
    simp [Clock.value]
  | seconds blanks plus digits =>
    have outside : ch ':' ∉ (Clock.seconds blanks plus digits).text ++ more := by
      simp [Clock.no_colon valid, few]
    have no_hms := strptime_hms_none (by rw [List.count_eq_zero.mpr outside]; decide) {}
    rw [readClock]
    rcases read : av_small_strptime ((Clock.seconds blanks plus digits).text ++ more) hmsFormat {}
      with ⟨q, dt⟩
    obtain rfl : q = none := by rwa [read] at no_hms
    have no_ms := strptime_ms_none outside dt
    rcases read_ms : av_small_strptime ((Clock.seconds blanks plus digits).text ++ more) msFormat dt
      with ⟨q, dt'⟩
    obtain rfl : q = none := by rwa [read_ms] at no_ms
    have number := strtoll_eq plus valid.1 valid.2 fun c head => (stops c head).1
    have moved : more ≠ (Clock.seconds blanks plus digits).text ++ more := by
      intro same
      have lengths := congrArg List.length same
      have some_ := List.length_pos_iff.mpr valid.2.some_
      simp only [Clock.text, List.length_append] at lengths
      omega
    have value : (Clock.seconds blanks plus digits).value = digitsValue digits := rfl
    by_cases small : digitsValue digits < 2 ^ 63
    · rw [if_pos small] at number
      rw [value, if_pos small]
      simp [read_ms, number, moved]
    · rw [if_neg small] at number
      rw [value, if_neg small]
      simp [read_ms, number]

theorem readClock_some {p q : List Byte} {t : Int} (plain : ch '-' ∉ p)
    (read : readClock p = some (t, q)) :
    ∃ c : Clock, c.Valid ∧ p = c.text ++ q ∧ t = c.value := by
  rw [readClock] at read
  rcases first : av_small_strptime p hmsFormat {} with ⟨q₁, dt₁⟩
  rw [first] at read
  cases q₁ with
  | some q₁ =>
    cases read
    obtain ⟨h, m, s, rfl, valid, rfl⟩ := strptime_hms_some first
    exact ⟨.hms h m s, valid, rfl, by simp [Clock.value]⟩
  | none =>
    rcases second : av_small_strptime p msFormat dt₁ with ⟨q₂, dt₂⟩
    simp only [second] at read
    cases q₂ with
    | some q₂ =>
      cases read
      obtain ⟨m, s, rfl, valid, rfl⟩ := strptime_ms_some second
      exact ⟨.ms m s, valid, rfl, by simp [Clock.value]⟩
    | none =>
      simp only at read
      split at read
      · cases read
      · rename_i number
        cases read
        obtain ⟨blanks, plus, digits, split_, valid, value⟩ := strtoll_some plain number
        exact ⟨.seconds blanks plus digits, valid, split_, value⟩

theorem int64_eq {i : Int} (low : INT64_MIN ≤ i) (high : i ≤ INT64_MAX) : int64 i = i := by
  simp only [INT64_MIN, INT64_MAX] at low high
  rw [int64, BitVec.toInt_ofInt]
  exact Int.bmod_eq_of_le (by norm_num; omega) (by norm_num; omega)

theorem Suffix.stops (u : Suffix) : Clock.Ends u.text := by
  intro c head
  cases u with
  | none => cases head
  | _ =>
    rw [← Option.some.inj head]
    decide

theorem fractionText_stops (fraction : Option (List Byte)) (u : Suffix) :
    Clock.Ends (Duration.fractionText fraction ++ u.text) := by
  cases fraction with
  | none => exact u.stops
  | some digits =>
    intro c head
    obtain rfl : ch '.' = c := Option.some.inj head
    decide

/-- The fraction is read to its end, and the suffix is left. -/
theorem readFraction_eq {fraction : Option (List Byte)} (all : ∀ digits ∈ fraction, ∀ c ∈ digits,
    isdigit c = true) (u : Suffix) :
    readFraction (Duration.fractionText fraction ++ u.text) =
      (microsValue (fraction.getD []), u.text) := by
  cases fraction with
  | none => cases u <;> decide
  | some digits =>
    have read := microseconds_eq (all digits rfl) (fun c head => (u.stops c head).1) 5 0
    rw [Nat.zero_add] at read
    exact read

theorem readFraction_split (q : List Byte) : ∃ fraction : Option (List Byte),
    (∀ digits ∈ fraction, ∀ c ∈ digits, isdigit c = true) ∧
      q = Duration.fractionText fraction ++ (readFraction q).2 := by
  rw [readFraction]
  by_cases point : deref q = ch '.'
  · obtain ⟨c, q, rfl⟩ := List.exists_cons_of_ne_nil (l := q) (by rintro rfl; cases point)
    have all : ∀ c ∈ q.takeWhile isdigit, isdigit c = true := fun c inside =>
      List.mem_takeWhile_imp inside
    have stops : ∀ c ∈ (q.dropWhile isdigit).head?, isdigit c = false := by
      intro c head
      have stop := List.head?_dropWhile_not isdigit q
      rwa [Option.mem_def.mp head] at stop
    have read := microseconds_eq all stops 5 0
    rw [List.takeWhile_append_dropWhile] at read
    refine ⟨some (q.takeWhile isdigit), fun digits same => Option.some.inj same ▸ all, ?_⟩
    rw [if_pos point, List.tail_cons, show 100000 = 10 ^ 5 from rfl, read]
    simp only [Duration.fractionText, List.cons_append, List.takeWhile_append_dropWhile]
    rw [show c = ch '.' from point]
  · refine ⟨none, nofun, ?_⟩
    rw [if_neg point]
    rfl

theorem readSuffix_eq (u : Suffix) (micro : Nat) :
    readSuffix micro u.text = ((u.scale : Int), u.part micro, []) := by
  cases u <;> rfl

theorem readSuffix_empty {micro : Nat} {q : List Byte} (empty : (readSuffix micro q).2.2 = []) :
    ∃ u : Suffix, q = u.text := by
  have whole := List.take_append_drop 2 q
  simp only [readSuffix] at empty
  split at empty
  · rename_i front
    rw [front, show q.drop 2 = [] from empty] at whole
    exact ⟨.ms, whole.symm⟩
  split at empty
  · rename_i front
    rw [front, show q.drop 2 = [] from empty] at whole
    exact ⟨.us, whole.symm⟩
  split at empty
  · rename_i front
    cases q with
    | nil => cases front
    | cons c q => exact ⟨.s, by rw [show c = ch 's' from front, show q = [] from empty]; rfl⟩
  · exact ⟨.none, empty⟩

/-- The two comparisons with INT64_MAX find the overflow, and nothing is wrapped without one. -/
theorem scaled_eq {scale : Nat} (some_ : 0 < scale) {t micro : Nat} (small : micro < 2 ^ 63) :
    (if INT64_MAX / scale < t then (INT64_MIN, false)
      else if INT64_MAX - micro < int64 (t * scale) then (INT64_MIN, false)
      else (int64 (int64 (t * scale) + micro), true)) =
      if t * scale + micro < 2 ^ 63 then (((t * scale + micro : Nat) : Int), true)
      else (INT64_MIN, false) := by
  have least : INT64_MIN = -2 ^ 63 := rfl
  have most : INT64_MAX = 2 ^ 63 - 1 := rfl
  have product : INT64_MAX / scale < t ↔ INT64_MAX < (t * scale : Nat) := by
    rw [Int.ediv_lt_iff_lt_mul (by exact_mod_cast some_), Nat.cast_mul]
  rw [← Nat.cast_mul]
  by_cases high : INT64_MAX < (t * scale : Nat)
  · rw [if_pos (product.mpr high), if_neg (by omega)]
  · rw [if_neg (mt product.mp high), int64_eq (by omega) (by omega), ← Nat.cast_add]
    by_cases fits : t * scale + micro < 2 ^ 63
    · rw [if_neg (by omega), if_pos fits, int64_eq (by omega) (by omega)]
    · rw [if_pos (by omega), if_neg fits]

theorem microsValue_lt {fraction : List Byte} (all : ∀ c ∈ fraction, isdigit c = true) :
    microsValue fraction < 1000000 := by
  have below := digitsValue_lt fun c (inside : c ∈ fraction.take 6) =>
    all c (List.mem_of_mem_take inside)
  have scaled := Nat.mul_lt_mul_of_pos_right below
    (show 0 < 10 ^ (6 - fraction.length) from Nat.pow_pos (by decide))
  rw [← pow_add, List.length_take, show min 6 fraction.length + (6 - fraction.length) = 6 by omega]
    at scaled
  exact scaled

theorem finish_eq {fraction : Option (List Byte)} (all : ∀ digits ∈ fraction, ∀ c ∈ digits,
    isdigit c = true) (u : Suffix) (t : Nat) :
    finish t (Duration.fractionText fraction ++ u.text) =
      if t * u.scale + u.part (microsValue (fraction.getD [])) < 2 ^ 63 then
        (((t * u.scale + u.part (microsValue (fraction.getD [])) : Nat) : Int), true)
      else (INT64_MIN, false) := by
  have below : microsValue (fraction.getD []) < 1000000 := by
    cases fraction with
    | none => decide
    | some digits => exact microsValue_lt (all digits rfl)
  have some_ : 0 < u.scale := by cases u <;> decide
  have smaller : u.part (microsValue (fraction.getD [])) < 2 ^ 63 := by
    cases u <;> simp only [Suffix.part] <;> omega
  simp only [finish, readFraction_eq all u, readSuffix_eq, ne_eq, not_true_eq_false, if_false]
  exact scaled_eq some_ smaller

theorem finish_some {t : Int} {q : List Byte} (success : (finish t q).2 = true) :
    ∃ (fraction : Option (List Byte)) (u : Suffix),
      (∀ digits ∈ fraction, ∀ c ∈ digits, isdigit c = true) ∧
        q = Duration.fractionText fraction ++ u.text := by
  obtain ⟨fraction, all, split_⟩ := readFraction_split q
  simp only [finish] at success
  split at success
  · cases success
  · rename_i empty
    obtain ⟨u, text⟩ := readSuffix_empty (not_not.mp empty)
    exact ⟨fraction, u, all, by rw [← text]; exact split_⟩

theorem finish_failed {t : Int} {q : List Byte} (failure : (finish t q).2 = false) :
    finish t q = (INT64_MIN, false) := by
  simp only [finish] at failure ⊢
  split_ifs at failure ⊢ <;> rfl

theorem fractionText_no_colon {fraction : Option (List Byte)} (all : ∀ digits ∈ fraction,
    ∀ c ∈ digits, isdigit c = true) (u : Suffix) :
    ch ':' ∉ Duration.fractionText fraction ++ u.text := by
  have suffix : ch ':' ∉ u.text := by cases u <;> decide
  cases fraction with
  | none => exact suffix
  | some digits =>
    have other : ch ':' ∉ digits := fun inside => absurd (all digits rfl _ inside) (by decide)
    have point : ch ':' ≠ ch '.' := by decide
    simp [Duration.fractionText, other, point, suffix]

namespace Duration

/-- The bytes that a duration is written with. -/
def letter (c : Byte) : Bool :=
  isdigit c || isspace c || (bytes ":+.msu").contains c

theorem digits_letters {digits : List Byte} (all : ∀ c ∈ digits, isdigit c = true) :
    ∀ c ∈ digits, letter c = true := by
  intro c inside
  simp [letter, all c inside]

theorem clock_letters {c : Clock} (valid : c.Valid) : ∀ b ∈ c.text, letter b = true := by
  cases c with
  | hms h m s =>
    obtain ⟨hours, -, minutes, seconds⟩ := valid
    rw [Clock.text]
    exact List.forall_mem_append.mpr ⟨digits_letters hours.all, List.forall_mem_cons.mpr
      ⟨by decide, List.forall_mem_append.mpr ⟨digits_letters minutes.1.all,
        List.forall_mem_cons.mpr ⟨by decide, digits_letters seconds.1.all⟩⟩⟩⟩
  | ms m s =>
    obtain ⟨minutes, seconds⟩ := valid
    rw [Clock.text]
    exact List.forall_mem_append.mpr ⟨digits_letters minutes.1.all,
      List.forall_mem_cons.mpr ⟨by decide, digits_letters seconds.1.all⟩⟩
  | seconds blanks plus digits =>
    obtain ⟨spaces, number⟩ := valid
    have sign : ∀ b ∈ (if plus then [ch '+'] else []), letter b = true := by
      cases plus <;> decide
    rw [Clock.text]
    refine List.forall_mem_append.mpr ⟨fun b inside => ?_,
      List.forall_mem_append.mpr ⟨sign, digits_letters number.all⟩⟩
    simp [letter, spaces b inside]

theorem Valid.letters {d : Duration} (valid : d.Valid) : ∀ c ∈ d.text, letter c = true := by
  have suffix : ∀ c ∈ d.suffix.text, letter c = true := by
    cases d.suffix <;> decide
  have fraction : ∀ c ∈ fractionText d.fraction, letter c = true := by
    cases same : d.fraction with
    | none => exact List.forall_mem_nil _
    | some digits =>
      exact List.forall_mem_cons.mpr ⟨by decide, digits_letters (valid.fraction digits same)⟩
  exact List.forall_mem_append.mpr
    ⟨clock_letters valid.clock, List.forall_mem_append.mpr ⟨fraction, suffix⟩⟩

theorem Valid.no_minus {d : Duration} (valid : d.Valid) : ch '-' ∉ d.text :=
  fun inside => absurd (valid.letters _ inside) (by decide)

/-- A duration is read as what it means, unless that is out of range. -/
theorem Valid.read {d : Duration} (valid : d.Valid) :
    av_parse_time d.text =
      if d.value < 2 ^ 63 then ((d.value : Int), true) else (INT64_MIN, false) := by
  rw [av_parse_time_eq valid.no_minus, text, readClock_eq valid.clock (fractionText_stops _ _)
    (fractionText_no_colon valid.fraction _)]
  by_cases clock : d.clock.value < 2 ^ 63
  · rw [if_pos clock]
    exact finish_eq valid.fraction d.suffix d.clock.value
  · have some_ : 0 < d.suffix.scale := by cases d.suffix <;> decide
    have grown := Nat.le_mul_of_pos_right d.clock.value some_
    rw [if_neg clock, if_neg (by rw [value]; omega)]

end Duration

/-- The time is that of the duration that the text spells. -/
theorem durations_read {text : List Byte} (plain : ch '-' ∉ text) :
    (∃ d : Duration, d.Valid ∧ d.text = text ∧ d.value < 2 ^ 63 ∧
        av_parse_time text = ((d.value : Int), true)) ∨
      (∀ d : Duration, d.Valid → d.text = text → 2 ^ 63 ≤ d.value) ∧
        av_parse_time text = (INT64_MIN, false) := by
  by_cases spelt : ∃ d : Duration, d.Valid ∧ d.text = text ∧ d.value < 2 ^ 63
  · obtain ⟨d, valid, rfl, fits⟩ := spelt
    exact .inl ⟨d, valid, rfl, fits, by rw [valid.read, if_pos fits]⟩
  · have none_ : ∀ d : Duration, d.Valid → d.text = text → 2 ^ 63 ≤ d.value := fun d valid same =>
      not_lt.mp fun fits => spelt ⟨d, valid, same, fits⟩
    refine .inr ⟨none_, ?_⟩
    cases read : readClock text with
    | none => simp only [av_parse_time_eq plain, read]
    | some result =>
      obtain ⟨t, q⟩ := result
      simp only [av_parse_time_eq plain, read]
      obtain ⟨c, c_valid, split_, rfl⟩ := readClock_some plain read
      cases success : (finish c.value q).2 with
      | false => exact finish_failed success
      | true =>
        obtain ⟨fraction, u, all, rest⟩ := finish_some success
        have high := none_ ⟨c, fraction, u⟩ ⟨c_valid, all⟩ (by rw [split_, rest]; rfl)
        rw [rest, finish_eq all u]
        exact if_neg (not_lt.mpr high)

/-- An hour, two minutes and three and a half seconds. -/
theorem durations_read_clock :
    ch '-' ∉ bytes "1:02:03.5" ∧
      ((∃ d : Duration, d.Valid ∧ d.text = bytes "1:02:03.5" ∧ d.value < 2 ^ 63 ∧
          av_parse_time (bytes "1:02:03.5") = ((d.value : Int), true)) ∨
        (∀ d : Duration, d.Valid → d.text = bytes "1:02:03.5" → 2 ^ 63 ≤ d.value) ∧
          av_parse_time (bytes "1:02:03.5") = (INT64_MIN, false)) :=
  ⟨by decide, durations_read (by decide)⟩

/-! ### The Range header -/

theorem skip_number {digits more : List Byte} (number : Number digits) :
    skip SPACE_CHARS (digits ++ more) = digits ++ more := by
  obtain ⟨c, rest, rfl⟩ := List.exists_cons_of_ne_nil number.some_
  obtain ⟨-, -, -, other⟩ := plain_of_digit (number.all c List.mem_cons_self)
  exact List.dropWhile_cons_of_neg (by simp only [other]; decide)

/-- The blanks that are skipped in front of a word change nothing about its time. -/
theorem Clock.skip_text {c : Clock} (valid : c.Valid) (more : List Byte) :
    ∃ c' : Clock, c'.Valid ∧ c'.value = c.value ∧
      skip SPACE_CHARS (c.text ++ more) = c'.text ++ more := by
  cases c with
  | hms h m s =>
    refine ⟨.hms h m s, valid, rfl, ?_⟩
    rw [text, List.append_assoc]
    exact skip_number valid.1
  | ms m s =>
    refine ⟨.ms m s, valid, rfl, ?_⟩
    rw [text, List.append_assoc]
    exact skip_number valid.1.1
  | seconds blanks plus digits =>
    refine ⟨.seconds (blanks.dropWhile SPACE_CHARS.contains) plus digits,
      ⟨fun c inside => valid.1 c ((List.dropWhile_suffix _).subset inside), valid.2⟩, rfl, ?_⟩
    have unmoved : skip SPACE_CHARS ((if plus then [ch '+'] else []) ++ (digits ++ more)) =
        (if plus then [ch '+'] else []) ++ (digits ++ more) := by
      cases plus
      · rw [if_neg (by decide), List.nil_append]
        exact skip_number valid.2
      · rfl
    rw [skip] at unmoved ⊢
    simp only [text, List.append_assoc]
    rw [List.dropWhile_append, unmoved]
    split
    · rename_i all
      rw [List.isEmpty_iff.mp all, List.nil_append]
    · rfl

/-- A duration that has room in the buffer for a word and in 64 bits. -/
structure Duration.Fits (d : Duration) : Prop where
  valid : d.Valid
  short : d.text.length < 256
  small : d.value < 2 ^ 63

theorem Duration.Fits.word {d : Duration} (fits : d.Fits) (more : List Byte)
    (ends : Ends [ch '-'] more) :
    ∃ word, get_word_sep 256 (bytes "-") (d.text ++ more) = (word, more) ∧
      av_parse_time word = ((d.value : Int), true) := by
  obtain ⟨c, valid, value, skipped⟩ := Clock.skip_text fits.valid.clock
    (fractionText d.fraction ++ d.suffix.text ++ more)
  obtain ⟨d', whole⟩ : ∃ d' : Duration, d' = ⟨c, d.fraction, d.suffix⟩ := ⟨_, rfl⟩
  have valid' : d'.Valid := whole ▸ ⟨valid, fits.valid.fraction⟩
  have moved : skip SPACE_CHARS (d.text ++ more) = d'.text ++ more := by
    rw [whole]
    simpa only [Duration.text, List.append_assoc] using skipped
  have shorter : d'.text.length ≤ d.text.length := by
    have suffix : skip SPACE_CHARS (d.text ++ more) <:+ d.text ++ more := List.dropWhile_suffix _
    have lengths := suffix.length_le
    rw [moved, List.length_append, List.length_append] at lengths
    omega
  have mark : deref (d.text ++ more) ≠ ch '/' := by
    intro slash
    rw [deref_stops (by decide) (by decide) ends] at slash
    cases same : d.text with
    | nil =>
      rw [same] at slash
      cases slash
    | cons b rest =>
      rw [same] at slash
      have letter_ := fits.valid.letters b (same ▸ List.mem_cons_self)
      rw [show b = ch '/' from slash] at letter_
      cases letter_
  have stops : ∀ c ∈ [ch '-'], (!(bytes "-").contains c) = false := by decide
  have inside : ∀ c ∈ d'.text, (!(bytes "-").contains c) = true := by
    intro c inside
    have other : c ≠ ch '-' := fun same => valid'.no_minus (same ▸ inside)
    simpa [bytes, ch] using other
  have taken : (d'.text ++ more).takeWhile (fun c => !(bytes "-").contains c) = d'.text := by
    rw [takeWhile_stops stops ends, List.takeWhile_eq_self_iff.mpr inside]
  have left : (d'.text ++ more).dropWhile (fun c => !(bytes "-").contains c) = more := by
    rw [dropWhile_stops stops ends, List.dropWhile_eq_nil_iff.mpr inside, List.nil_append]
  have same_value : d'.value = d.value := by
    rw [whole, Duration.value, Duration.value, value]
    rfl
  refine ⟨d'.text, ?_, ?_⟩
  · simp only [get_word_sep, mark, if_false, get_word_until_chars, moved, taken, left]
    rw [List.take_of_length_le (by have := fits.short; omega)]
  · rw [valid'.read, same_value, if_pos fits.small]

/-- The text of a range, which may be open at its end. -/
def rangeText (first : Duration) (last : Option Duration) : List Byte :=
  first.text ++ ch '-' :: (last.map Duration.text).getD []

theorem rtsp_parse_range_npt_eq {first : Duration} {last : Option Duration} (start : first.Fits)
    (end_ : ∀ d ∈ last, d.Fits) (range : Int × Int) :
    rtsp_parse_range_npt (bytes " npt=" ++ rangeText first last) range =
      ((first.value : Int), (last.map fun d => (d.value : Int)).getD AV_NOPTS_VALUE) := by
  have skipped (text : List Byte) :
      skip SPACE_CHARS (bytes " npt=" ++ text) = bytes "npt=" ++ text := rfl
  have ends : Ends [ch '-'] (ch '-' :: (last.map Duration.text).getD []) := fun c head => by
    rw [← Option.some.inj head]
    exact List.mem_cons_self
  obtain ⟨word, cut, value⟩ := start.word _ ends
  rw [← rangeText] at cut
  simp only [rtsp_parse_range_npt, skipped, av_stristart_self, cut, value, deref, List.headD_cons,
    if_true, List.tail_cons]
  cases last with
  | none => rfl
  | some d =>
    obtain ⟨word, cut, value⟩ := (end_ d rfl).word [] (fun c head => by cases head)
    rw [List.append_nil] at cut
    simp only [Option.map_some, Option.getD_some, cut, value]

/-- A Range header gives the two times that it spells, and nothing else changes. -/
theorem range_read_back (env : Env) (msg : RTSPMessageHeader) (lower_transport : List Byte)
    {first : Duration} {last : Option Duration} (start : first.Fits)
    (end_ : ∀ d ∈ last, d.Fits) :
    parse_nocommand_line env msg lower_transport
        (bytes "Range: npt=" ++ rangeText first last) =
      { msg with
        range_start := first.value
        range_end := (last.map fun d => (d.value : Int)).getD AV_NOPTS_VALUE } := by
  have line : bytes "Range: npt=" ++ rangeText first last =
      bytes "Range:" ++ (bytes " npt=" ++ rangeText first last) := rfl
  obtain ⟨text, same⟩ : ∃ text, text = bytes " npt=" ++ rangeText first last := ⟨_, rfl⟩
  have session : av_stristart (bytes "Range:" ++ text) (bytes "Session:") = none := rfl
  have content : av_stristart (bytes "Range:" ++ text) (bytes "Content-Length:") = none := rfl
  have transport : av_stristart (bytes "Range:" ++ text) (bytes "Transport:") = none := rfl
  have cseq : av_stristart (bytes "Range:" ++ text) (bytes "CSeq:") = none := rfl
  rw [line, ← same]
  simp only [parse_nocommand_line, session, content, transport, cseq, av_stristart_self]
  rw [same, rtsp_parse_range_npt_eq start end_]

/-- From an hour on, and up to two minutes and half a second more. -/
theorem range_read_back_closed :
    let first : Duration := ⟨.hms (bytes "1") (bytes "00") (bytes "00"), none, .none⟩
    let last : Duration := ⟨.hms (bytes "1") (bytes "02") (bytes "00"), some (bytes "5"), .none⟩
    first.Fits ∧ last.Fits ∧ first.value = 3600000000 ∧ last.value = 3720500000 ∧
      parse_nocommand_line Env.blank .zero []
          (bytes "Range: npt=" ++ rangeText first (some last)) =
        { RTSPMessageHeader.zero with range_start := first.value, range_end := last.value } := by
  intro first last
  have start : first.Fits := ⟨⟨by decide, nofun⟩, by decide, by decide⟩
  have digits : ∀ c ∈ bytes "5", isdigit c = true := by decide
  have end_ : last.Fits :=
    ⟨⟨by decide, fun fraction same => Option.some.inj same ▸ digits⟩, by decide, by decide⟩
  exact ⟨start, end_, by decide, by decide,
    range_read_back Env.blank .zero [] start fun d same => Option.some.inj same ▸ end_⟩

end TestIOCP.Rtsp
