import TestIOCP.CString

/-! The helpers of ffutils.cpp that CRtspServer calls. A function that advances a
pointer returns the new one. -/
namespace TestIOCP.Rtsp
open CString

def SPACE_CHARS : List Byte := bytes " \t\r\n"

def av_tolower (c : Byte) : Byte :=
  if ch 'A' ≤ c ∧ c ≤ ch 'Z' then c ^^^ 0x20 else c

def av_toupper (c : Byte) : Byte :=
  if ch 'a' ≤ c ∧ c ≤ ch 'z' then c ^^^ 0x20 else c

def av_strstart : List Byte → List Byte → Option (List Byte)
  | str, [] => some str
  | c :: str, d :: pfx => if d = c then av_strstart str pfx else none
  | [], _ :: _ => none

def av_stristart : List Byte → List Byte → Option (List Byte)
  | str, [] => some str
  | c :: str, d :: pfx => if av_toupper d = av_toupper c then av_stristart str pfx else none
  | [], _ :: _ => none

/-- Equality of two strings up to case: av_strcasecmp returns zero. -/
def av_strcaseeq (a b : List Byte) : Bool :=
  a.map av_tolower = b.map av_tolower

/-- av_strlcpy into an array of n bytes. -/
def av_strlcpy (dst : Buffer n) (src : List Byte) : Buffer n :=
  dst.store (src.take (n - 1))

/-- av_strlcat and av_strlcatf on a string in an array of the given size. -/
def av_strlcat (dst src : List Byte) (size : Nat) : List Byte :=
  if size ≤ dst.length + 1 then dst else dst ++ src.take (size - dst.length - 1)

/-- The word, cut to the size of its array, and the pointer to the separator. -/
def get_word_until_chars (buf_size : Nat) (sep p : List Byte) : List Byte × List Byte :=
  let p := skip SPACE_CHARS p
  ((p.takeWhile (fun c => !sep.contains c)).take (buf_size - 1),
    p.dropWhile (fun c => !sep.contains c))

def get_word_sep (buf_size : Nat) (sep p : List Byte) : List Byte × List Byte :=
  get_word_until_chars buf_size sep (if deref p = ch '/' then p.tail else p)

/-- The two ends of a range and the pointer after it. -/
def rtsp_parse_range (q : List Byte) : Int × Int × List Byte :=
  let v := strtol (skip SPACE_CHARS q)
  if deref v.rest = ch '-' then
    let w := strtol v.rest.tail
    (v.value, w.value, w.rest)
  else (v.value, v.value, v.rest)

/-- At most len_max digits, with a value between the bounds. -/
def date_get_num (p : List Byte) (n_min n_max : Nat) (len_max : Nat) : Option (Nat × List Byte) :=
  let digits := (p.take len_max).takeWhile isdigit
  let val := digitsValue digits
  if digits = [] ∨ val < n_min ∨ n_max < val then none else some (val, p.drop digits.length)

structure Tm where
  tm_hour : Nat := 0
  tm_min : Nat := 0
  tm_sec : Nat := 0
  deriving DecidableEq, Repr

/-- The conversions of a format; av_parse_time uses these for durations. The
fields read before a mismatch stay in dt. -/
inductive Conversion where
  | J
  | M
  | S
  | char (c : Byte)

def av_small_strptime : List Byte → List Conversion → Tm → Option (List Byte) × Tm
  | p, [], dt => (some p, dt)
  | p, .char c :: fmt, dt =>
    if p.head? = some c then av_small_strptime p.tail fmt dt else (none, dt)
  | p, .J :: fmt, dt =>
    match date_get_num p 0 2147483647 4 with
    | none => (none, dt)
    | some (val, p) => av_small_strptime p fmt { dt with tm_hour := val }
  | p, .M :: fmt, dt =>
    match date_get_num p 0 59 2 with
    | none => (none, dt)
    | some (val, p) => av_small_strptime p fmt { dt with tm_min := val }
  | p, .S :: fmt, dt =>
    match date_get_num p 0 59 2 with
    | none => (none, dt)
    | some (val, p) => av_small_strptime p fmt { dt with tm_sec := val }

def INT64_MIN : Int := -2 ^ 63
def INT64_MAX : Int := 2 ^ 63 - 1

/-- A 64-bit result, wrapped. -/
def int64 (i : Int) : Int := (BitVec.ofInt 64 i).toInt

/-- The digits after the point, as microseconds, and the pointer after them. -/
def microseconds : Nat → Nat → List Byte → Nat × List Byte
  | 0, acc, q => (acc, q.dropWhile isdigit)
  | _, acc, [] => (acc, [])
  | n, acc, c :: q =>
    if isdigit c then microseconds (n / 10) (acc + n * (c.toNat - 48)) q else (acc, c :: q)

/-- av_parse_time for a duration: the value, and whether the call succeeded. -/
def av_parse_time (timestr : List Byte) : Int × Bool :=
  let negative := deref timestr = ch '-'
  let p := if deref timestr = ch '-' then timestr.tail else timestr
  let (q, dt) := av_small_strptime p [.J, .char (ch ':'), .M, .char (ch ':'), .S] {}
  let (q, dt) := match q with
    | some q => (some q, dt)
    | none =>
      let (q, dt) := av_small_strptime p [.M, .char (ch ':'), .S] dt
      (q, { dt with tm_hour := 0 })
  let start : Option (Int × List Byte) := match q with
    | some q => some (dt.tm_hour * 3600 + dt.tm_min * 60 + dt.tm_sec, q)
    | none =>
      let number := strtoll p
      if number.rest = p ∨ number.range then none else some (number.value, number.rest)
  match start with
  | none => (INT64_MIN, false)
  | some (t, q) =>
    let (micro, q) := if deref q = ch '.' then microseconds 100000 0 q.tail else (0, q)
    let (suffix, micro, q) : Int × Nat × List Byte :=
      if q.take 2 = bytes "ms" then (1000, micro / 1000, q.drop 2)
      else if q.take 2 = bytes "us" then (1, 0, q.drop 2)
      else if deref q = ch 's' then (1000000, micro, q.tail)
      else (1000000, micro, q)
    if q ≠ [] then (INT64_MIN, false)
    else if INT64_MAX / suffix < t then (INT64_MIN, false)
    else
      let t := int64 (t * suffix)
      if INT64_MAX - micro < t then (INT64_MIN, false)
      else
        let t := int64 (t + micro)
        (if negative then int64 (-t) else t, true)

def AV_NOPTS_VALUE : Int := -2 ^ 63

/-- The new start and end of the range. -/
def rtsp_parse_range_npt (p : List Byte) (range : Int × Int) : Int × Int :=
  match av_stristart (skip SPACE_CHARS p) (bytes "npt=") with
  | none => range
  | some p =>
    let (buf, p) := get_word_sep 256 (bytes "-") p
    match av_parse_time buf with
    | (start, false) => (start, AV_NOPTS_VALUE)
    | (start, true) =>
      if deref p = ch '-' then
        let (buf, _) := get_word_sep 256 (bytes "-") p.tail
        (start, (av_parse_time buf).1)
      else (start, AV_NOPTS_VALUE)

end TestIOCP.Rtsp
