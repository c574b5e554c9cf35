/-
# Theory.LongestSuffix — the longest suffix that fits

A buffer that keeps as much of the end of a history as fits into it.

* `LongestSuffix.of_front`: dropping from the front while the rest does not fit leaves
  the longest suffix that fits.
* `LongestSuffix.snoc`: nothing is lost by dropping early, as long as a list that fits still
  fits without its last element.
-/
import Mathlib.Data.List.Basic

namespace KoyuRuntime.Theory

set_option autoImplicit false

universe u

variable {α : Type u}

/-- Of the suffixes of `all` that fit, `kept` is the longest. -/
structure LongestSuffix (Fits : List α → Prop) (all kept : List α) : Prop where
  suffix : kept <:+ all
  fits : Fits kept
  longest : ∀ other, other <:+ all → Fits other → other.length ≤ kept.length

namespace LongestSuffix

variable {Fits : List α → Prop} {all kept : List α}

theorem suffix_of_fits (best : LongestSuffix Fits all kept) {other : List α} (suffix : other <:+ all)
    (fits : Fits other) : other <:+ kept :=
  List.suffix_of_suffix_length_le suffix best.suffix (best.longest other suffix fits)

/-- **Dropping from the front**: no suffix that starts in the dropped front fits. -/
theorem of_front {gone : List α} (fits : Fits kept)
    (exceeds : ∀ before f after, gone = before ++ f :: after → ¬ Fits (f :: (after ++ kept))) :
    LongestSuffix Fits (gone ++ kept) kept := by
  refine ⟨List.suffix_append _ _, fits, ?_⟩
  intro other suffix fitsOther
  rcases List.suffix_or_suffix_of_suffix suffix (List.suffix_append gone kept) with shorter | longer
  · exact shorter.length_le
  · obtain ⟨front, rfl⟩ := longer
    cases front with
    | nil => exact Nat.le_refl _
    | cons f after =>
        obtain ⟨before, same⟩ := suffix
        have split : gone = before ++ f :: after := by
          rw [← List.append_assoc] at same
          exact (List.append_cancel_right same).symm
        exact absurd fitsOther (exceeds before f after split)

/-- **One more element**: the longest suffix of what was kept and the new element is that
of the whole history and the new element. -/
theorem snoc (heir : ∀ l x, Fits (l ++ [x]) → Fits l) {x : α} {kept' : List α}
    (best : LongestSuffix Fits all kept) (next : LongestSuffix Fits (kept ++ [x]) kept') :
    LongestSuffix Fits (all ++ [x]) kept' := by
  have both {l : List α} (suffix : l <:+ all) : l ++ [x] <:+ all ++ [x] :=
    List.suffix_concat_iff.mpr (.inr ⟨l, rfl, suffix⟩)
  refine ⟨next.suffix.trans (both best.suffix), next.fits, ?_⟩
  intro other suffix fits
  rcases List.suffix_concat_iff.mp suffix with rfl | ⟨l, rfl, old⟩
  · exact Nat.zero_le _
  · have inKept : l <:+ kept := best.suffix_of_fits old (heir l x fits)
    exact next.longest _ (List.suffix_concat_iff.mpr (.inr ⟨l, rfl, inKept⟩)) fits

end LongestSuffix

end KoyuRuntime.Theory
