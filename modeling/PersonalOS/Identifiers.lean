import PersonalOS.JobSearch
import PersonalOS.StringLiterals

/-! # Identifiers in texts

A UUID is printed as 32 hexadecimal digits in five groups, and no two are printed alike
(`UUID.text_injective`). -/

namespace PersonalOS

/-- A UUID as it is printed. -/
def UUID.text (id : UUID) : String :=
  let digits := Nat.toDigits 16 id
  let hex := List.replicate (32 - digits.length) '0' ++ digits
  String.ofList (hex.take 8 ++ '-' :: (hex.drop 8).take 4 ++ '-' :: (hex.drop 12).take 4 ++
    '-' :: (hex.drop 16).take 4 ++ '-' :: hex.drop 20)

/-- The number that hexadecimal digits stand for; other characters are passed over. -/
def UUID.number (text : List Char) : ℕ :=
  text.foldl (fun n c => (StringLiterals.hexDigit c).elim n (16 * n + ·)) 0

theorem UUID.number_toDigits (n : ℕ) : UUID.number (Nat.toDigits 16 n) = n := by
  induction n using Nat.strongRecOn with
  | ind n ih =>
      rw [Nat.toDigits_eq_if (by decide)]
      split
      · rename_i hlt
        rw [UUID.number, List.foldl_cons, StringLiterals.hexDigit_digitChar hlt]
        exact Nat.zero_add n
      · have hdigit := StringLiterals.hexDigit_digitChar (Nat.mod_lt n (by decide : 0 < 16))
        have hrest : UUID.number (Nat.toDigits 16 (n / 16)) = n / 16 := ih (n / 16) (by omega)
        rw [UUID.number] at hrest ⊢
        rw [List.foldl_append, hrest, List.foldl_cons, hdigit]
        exact Nat.div_add_mod n 16

theorem UUID.number_text (id : UUID) : UUID.number (UUID.text id).toList = id := by
  let digits := Nat.toDigits 16 id
  let hex := List.replicate (32 - digits.length) '0' ++ digits
  have hzeros : ∀ k, UUID.number (List.replicate k '0' ++ digits) = id := by
    intro k
    induction k with
    | zero => exact UUID.number_toDigits id
    | succ k ih => exact ih
  have hgroups : hex = hex.take 8 ++ ((hex.drop 8).take 4 ++ ((hex.drop 12).take 4 ++
      ((hex.drop 16).take 4 ++ hex.drop 20))) := by
    rw [← List.drop_drop (i := 4) (j := 16), List.take_append_drop, ← List.drop_drop (i := 4) (j := 12),
      List.take_append_drop, ← List.drop_drop (i := 4) (j := 8), List.take_append_drop,
      List.take_append_drop]
  -- The dashes between the groups are passed over.
  have hread : UUID.number (UUID.text id).toList = UUID.number hex := by
    conv_rhs => rw [hgroups]
    show UUID.number (String.ofList _).toList = _
    rw [String.toList_ofList]
    simp only [UUID.number, List.foldl_append, List.foldl_cons]
    rfl
  exact hread.trans (hzeros _)

/-- Two UUIDs are not printed alike. -/
theorem UUID.text_injective : Function.Injective UUID.text := by
  intro id id' h
  rw [← UUID.number_text id, h, UUID.number_text]

end PersonalOS
