import Mathlib.Data.Nat.Notation
import Mathlib.Tactic.Common

/-! # Texts and answers

What the strings of the source have that those of the library lack, whitespace beyond ASCII, and what
is behind the answer of two fallible steps. -/

namespace PersonalOS

/-- `str.isspace` of one character. -/
def isSpace (c : Char) : Bool :=
  let n := c.toNat
  decide (9 ≤ n ∧ n ≤ 13 ∨ 28 ≤ n ∧ n ≤ 32 ∨ n = 0x85 ∨ n = 0xA0 ∨ n = 0x1680 ∨
    0x2000 ≤ n ∧ n ≤ 0x200A ∨ n = 0x2028 ∨ n = 0x2029 ∨ n = 0x202F ∨ n = 0x205F ∨ n = 0x3000)

/-- `str.strip` on characters. -/
def stripChars (text : List Char) : List Char :=
  ((text.dropWhile isSpace).reverse.dropWhile isSpace).reverse

/-- `str.strip`. -/
def strip (text : String) : String := String.ofList (stripChars text.toList)

example : strip "  a key\n" = "a key" := by decide +kernel

/-- `[A-Za-z0-9]` as `re.IGNORECASE` takes it: also the dotted and the dotless i, the long s and the
Kelvin sign. -/
def isAlnumAnyCase (c : Char) : Bool :=
  c.isAlphanum || c == '\u0130' || c == '\u0131' || c == '\u017f' || c == '\u212a'

theorem toNat_of_isUpper {c : Char} (h : c.isUpper = true) : 65 ≤ c.toNat ∧ c.toNat ≤ 90 := by
  have hrange : 'A'.val ≤ c.val ∧ c.val ≤ 'Z'.val := of_decide_eq_true h
  exact ⟨UInt32.le_iff_toNat_le.mp hrange.1, UInt32.le_iff_toNat_le.mp hrange.2⟩

theorem toNat_of_isLower {c : Char} (h : c.isLower = true) : 97 ≤ c.toNat ∧ c.toNat ≤ 122 := by
  have hrange : decide ('a'.val ≤ c.val) = true ∧ decide (c.val ≤ 'z'.val) = true :=
    Bool.and_eq_true_iff.mp h
  exact ⟨UInt32.le_iff_toNat_le.mp (of_decide_eq_true hrange.1),
    UInt32.le_iff_toNat_le.mp (of_decide_eq_true hrange.2)⟩

theorem toNat_of_isDigit {c : Char} (h : c.isDigit = true) : 48 ≤ c.toNat ∧ c.toNat ≤ 57 := by
  have hrange : decide ('0'.val ≤ c.val) = true ∧ decide (c.val ≤ '9'.val) = true :=
    Bool.and_eq_true_iff.mp h
  exact ⟨UInt32.le_iff_toNat_le.mp (of_decide_eq_true hrange.1),
    UInt32.le_iff_toNat_le.mp (of_decide_eq_true hrange.2)⟩

theorem isAlphanum_iff {c : Char} :
    c.isAlphanum = true ↔ (c.isUpper = true ∨ c.isLower = true) ∨ c.isDigit = true := by
  have hletter : c.isAlpha = true ↔ c.isUpper = true ∨ c.isLower = true := Bool.or_eq_true_iff
  exact Bool.or_eq_true_iff.trans (or_congr_left hletter)

theorem toNat_of_isAlphanum {c : Char} (h : c.isAlphanum = true) :
    48 ≤ c.toNat ∧ c.toNat ≤ 57 ∨ 65 ≤ c.toNat ∧ c.toNat ≤ 90 ∨ 97 ≤ c.toNat ∧ c.toNat ≤ 122 := by
  rcases isAlphanum_iff.mp h with (hupper | hlower) | hdigit
  · exact Or.inr (Or.inl (toNat_of_isUpper hupper))
  · exact Or.inr (Or.inr (toNat_of_isLower hlower))
  · exact Or.inl (toNat_of_isDigit hdigit)

theorem ok_bind {ε α β : Type} (a : α) (f : α → Except ε β) : (Except.ok a >>= f) = f a := rfl

theorem bind_eq_ok {ε α β : Type} {x : Except ε α} {f : α → Except ε β} {b : β}
    (h : x >>= f = .ok b) : ∃ a, x = .ok a ∧ f a = .ok b := by
  cases x with
  | error e => cases h
  | ok a => exact ⟨a, rfl, h⟩

end PersonalOS
