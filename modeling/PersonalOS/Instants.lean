import Mathlib.Data.Rat.Floor

/-! # Datetimes

An `Instant` is a number of microseconds, which is what a datetime resolves; a span of seconds is a
rational and is rounded to microseconds where it is added to a datetime.  The first and the last datetime
there are bound what can be added (`Instant.plus`, `Instant.checked`). -/

namespace PersonalOS

/-- Microseconds since some fixed moment. -/
abbrev Instant := ℤ

namespace Instant

/-- `datetime.min`, in microseconds since 1970. -/
def first : Instant := -62135596800000000

/-- `datetime.max`, in microseconds since 1970. -/
def last : Instant := 253402300799999999

/-- `date value out of range`. -/
inductive OverflowError where
  | outOfRange
deriving DecidableEq, Repr

/-- A sum of datetimes and timedeltas, or what it raises. -/
def checked (moment : Instant) : Except OverflowError Instant :=
  if first ≤ moment ∧ moment ≤ last then .ok moment else .error .outOfRange

theorem checked_ok {moment result : Instant} (h : checked moment = .ok result) : result = moment := by
  unfold checked at h
  split at h
  · exact (Except.ok.inj h).symm
  · cases h

theorem checked_of_mem {moment : Instant} (hfirst : first ≤ moment) (hlast : moment ≤ last) :
    checked moment = .ok moment := if_pos ⟨hfirst, hlast⟩

/-- The integer nearest to a rational, the even one of two. -/
def roundHalfEven (q : ℚ) : ℤ :=
  let below := ⌊q⌋
  if q - below < 1 / 2 then below
  else if 1 / 2 < q - below then below + 1
  else if below % 2 = 0 then below
  else below + 1

/-- `timedelta(seconds=...)`. -/
def microseconds (seconds : ℚ) : ℤ := roundHalfEven (seconds * 1000000)

/-- The sum of a datetime and seconds; `none` when it is past the last datetime. -/
def plus (now : Instant) (seconds : ℚ) : Option Instant :=
  let later := now + microseconds seconds
  if later ≤ last then some later else none

end Instant

end PersonalOS
