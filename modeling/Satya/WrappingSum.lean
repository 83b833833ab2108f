import Mathlib.Algebra.Order.BigOperators.Group.List
import Mathlib.Algebra.Order.Ring.Nat
/-!
# WrappingSum — accumulators of 64 bits

A wrapping accumulator is the exact sum as long as the final sum stays below `2 ^ 64` (`fits_iff`); sums of fewer than
`2 ^ 32` numbers of 32 bits do (`sum_small`).
-/
namespace Satya

def add64 (a b : ℕ) : ℕ := (a + b) % 2 ^ 64

/-- The accumulator that starts at `a` and adds up `l`. -/
def sum64 (a : ℕ) (l : List ℕ) : ℕ := l.foldl add64 a

/-- The accumulator stays below `2 ^ 64` and is the exact sum, addition by addition. -/
def Fits (a : ℕ) (l : List ℕ) : Prop := ∀ pre, pre <+: l → a + pre.sum < 2 ^ 64 ∧ sum64 a pre = a + pre.sum

theorem add64_eq {a b : ℕ} (h : a + b < 2 ^ 64) : add64 a b = a + b := Nat.mod_eq_of_lt h

theorem sum64_eq : ∀ {l : List ℕ} {a : ℕ}, a + l.sum < 2 ^ 64 → sum64 a l = a + l.sum
  | [], _, _ => rfl
  | b :: l, a, h => by
    rw [List.sum_cons, ← add_assoc] at h ⊢
    rw [sum64, List.foldl_cons, add64_eq ((Nat.le_add_right _ _).trans_lt h)]
    exact sum64_eq h

/-- **An accumulator stays below `2 ^ 64` exactly when its final sum is.** -/
theorem fits_iff {a : ℕ} {l : List ℕ} : Fits a l ↔ a + l.sum < 2 ^ 64 := by
  constructor
  · exact fun h => (h l List.prefix_rfl).1
  · rintro h pre ⟨post, rfl⟩
    rw [List.sum_append] at h
    have hpre : a + pre.sum < 2 ^ 64 := by omega
    exact ⟨hpre, sum64_eq hpre⟩

/-- Sums of fewer than `2 ^ 32` numbers below `2 ^ 32` leave room for one more. -/
theorem sum_small {l : List ℕ} (hlen : l.length < 2 ^ 32) (h : ∀ x ∈ l, x < 2 ^ 32) : 2 ^ 32 + l.sum < 2 ^ 64 := by
  have hsum : l.sum ≤ l.length * (2 ^ 32 - 1) :=
    List.sum_le_card_nsmul l (2 ^ 32 - 1) (fun x hx => Nat.le_sub_one_of_lt (h x hx))
  have hcard : l.length * (2 ^ 32 - 1) ≤ (2 ^ 32 - 1) * (2 ^ 32 - 1) :=
    Nat.mul_le_mul_right _ (Nat.le_sub_one_of_lt hlen)
  omega

end Satya
