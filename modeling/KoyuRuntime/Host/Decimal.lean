/-
# Host.Decimal — how decimal texts of one length compare

`f"{n}"` of a natural number is its decimal text.  Texts compare character by
character, so numbers compare like their texts only among texts of one length:
"9" comes after "10".

* `lt_append`: what decides two texts of one length decides every extension.
* `toDigits_lt`: among texts of one length the smaller number comes first.
* `zeroPadded_lt`: so it does once short texts are padded with zeros.
-/
import Mathlib.Data.String.Basic

namespace KoyuRuntime.Host

set_option autoImplicit false

theorem lt_append {l r : List Char} (same : l.length = r.length) (before : l < r)
    (x y : List Char) : l ++ x < r ++ y := by
  induction l generalizing r with
  | nil =>
      cases r with
      | nil => exact absurd before (lt_irrefl _)
      | cons d ds => cases same
  | cons c cs ih =>
      cases r with
      | nil => cases same
      | cons d ds =>
          rw [List.cons_append, List.cons_append, List.cons_lt_cons_iff]
          rcases List.cons_lt_cons_iff.mp before with first | ⟨rfl, rest⟩
          · exact Or.inl first
          · exact Or.inr ⟨rfl, ih (Nat.succ.inj same) rest⟩

theorem append_lt_append (front : List Char) {x y : List Char} (before : x < y) :
    front ++ x < front ++ y := by
  induction front with
  | nil => exact before
  | cons c cs ih => exact List.cons_lt_cons_iff.mpr (Or.inr ⟨rfl, ih⟩)

theorem digitChar_lt {m n : Nat} (small : n < 10) (less : m < n) : m.digitChar < n.digitChar := by
  show m.digitChar.toNat < n.digitChar.toNat
  rw [Nat.toNat_digitChar_of_lt_ten small, Nat.toNat_digitChar_of_lt_ten (by omega)]
  omega

/-- A number of at least two digits is its tenth followed by its last digit. -/
theorem toDigits_split {n : Nat} (large : 10 ≤ n) :
    Nat.toDigits 10 n = Nat.toDigits 10 (n / 10) ++ [(n % 10).digitChar] :=
  Nat.toDigits_of_base_le (by omega) large

/-- **Decimal order**: among texts of one length the smaller number comes first. -/
theorem toDigits_lt {m n : Nat} (same : (Nat.toDigits 10 m).length = (Nat.toDigits 10 n).length)
    (less : m < n) : Nat.toDigits 10 m < Nat.toDigits 10 n := by
  induction n using Nat.strongRecOn generalizing m with
  | _ n ih =>
      by_cases small : n < 10
      · rw [Nat.toDigits_of_lt_base small, Nat.toDigits_of_lt_base (by omega)]
        exact List.cons_lt_cons_iff.mpr (Or.inl (digitChar_lt small less))
      · have large : 10 ≤ n := by omega
        have positive : ∀ k, 0 < (Nat.toDigits 10 k).length := fun k => Nat.length_toDigits_pos
        by_cases short : m < 10
        · -- one digit against at least two
          rw [Nat.toDigits_of_lt_base short, toDigits_split large, List.length_append] at same
          have := positive (n / 10)
          simp only [List.length_singleton] at same
          omega
        · rw [toDigits_split large, toDigits_split (by omega : 10 ≤ m)] at same ⊢
          have same' : (Nat.toDigits 10 (m / 10)).length = (Nat.toDigits 10 (n / 10)).length := by
            simpa using same
          by_cases tenth : m / 10 < n / 10
          · exact lt_append same' (ih (n / 10) (by omega) same' tenth) _ _
          · have equal : m / 10 = n / 10 := by omega
            rw [equal]
            apply append_lt_append
            exact List.cons_lt_cons_iff.mpr (Or.inl (digitChar_lt (by omega) (by omega)))

/-- `f"{n:0{width}d}"`. -/
def zeroPadded (width n : Nat) : List Char :=
  List.replicate (width - (Nat.toDigits 10 n).length) '0' ++ Nat.toDigits 10 n

theorem zeroPadded_of_lt_ten {n : Nat} (small : n < 10) (width : Nat) :
    zeroPadded (width + 1) n = List.replicate width '0' ++ [n.digitChar] := by
  rw [zeroPadded, Nat.toDigits_of_lt_base small, List.length_singleton, Nat.add_sub_cancel]

/-- A padded number is its padded tenth followed by its last digit. -/
theorem zeroPadded_split (width n : Nat) :
    zeroPadded (width + 2) n = zeroPadded (width + 1) (n / 10) ++ [(n % 10).digitChar] := by
  by_cases small : n < 10
  · rw [Nat.div_eq_of_lt small, Nat.mod_eq_of_lt small, zeroPadded_of_lt_ten small,
      zeroPadded_of_lt_ten (by omega), List.replicate_succ']
    rfl
  · rw [zeroPadded, toDigits_split (by omega), List.length_append, List.length_singleton,
      show width + 2 - ((Nat.toDigits 10 (n / 10)).length + 1) =
        width + 1 - (Nat.toDigits 10 (n / 10)).length by omega, ← List.append_assoc, zeroPadded]

theorem length_zeroPadded {width n : Nat} (fits : n < 10 ^ (width + 1)) :
    (zeroPadded (width + 1) n).length = width + 1 := by
  induction width generalizing n with
  | zero =>
      rw [zeroPadded_of_lt_ten (by omega)]
      rfl
  | succ width ih =>
      have tenth : n / 10 < 10 ^ (width + 1) := by
        rw [pow_succ] at fits
        omega
      rw [zeroPadded_split, List.length_append, ih tenth, List.length_singleton]

/-- **Padded order**: numbers that fit the width compare like their padded texts. -/
theorem zeroPadded_lt {width m n : Nat} (fits : n < 10 ^ (width + 1)) (less : m < n) :
    zeroPadded (width + 1) m < zeroPadded (width + 1) n := by
  induction width generalizing m n with
  | zero =>
      rw [zeroPadded_of_lt_ten (by omega), zeroPadded_of_lt_ten (by omega)]
      exact List.cons_lt_cons_iff.mpr (Or.inl (digitChar_lt (by omega) less))
  | succ width ih =>
      have tenth : n / 10 < 10 ^ (width + 1) := by
        rw [pow_succ] at fits
        omega
      rw [zeroPadded_split, zeroPadded_split]
      by_cases below : m / 10 < n / 10
      · refine lt_append ?_ (ih tenth below) _ _
        rw [length_zeroPadded (by omega), length_zeroPadded tenth]
      · have equal : m / 10 = n / 10 := by omega
        rw [equal]
        apply append_lt_append
        exact List.cons_lt_cons_iff.mpr (Or.inl (digitChar_lt (by omega) (by omega)))

end KoyuRuntime.Host
