import SshKeys.Arithmetic.Modular
import SshKeys.Proofs.BigEndian
import Mathlib.Data.Nat.ModEq
/-!
# Laws of modular arithmetic

Repeated squaring keeps the product of what is accumulated and what is still to be raised, so it
gives the power.
-/
namespace SshKeys.Modular

theorem pow_split (base exponent : Nat) :
    base ^ exponent = base ^ (exponent % 2) * (base * base) ^ (exponent / 2) := by
  rw [← pow_two, ← pow_mul, ← pow_add, Nat.mod_add_div]

/-- One more bit of the exponent: the accumulator times the power that is left stays the same. -/
theorem powerFrom_eq (m : Nat) {bits exponent : Nat} (base acc : Nat) (hBits : exponent < 2 ^ bits)
    (hReduced : acc % m = acc) : powerFrom m bits base exponent acc = acc * base ^ exponent % m := by
  induction bits generalizing base exponent acc with
  | zero =>
    obtain rfl : exponent = 0 := by simpa using hBits
    rw [powerFrom, pow_zero, Nat.mul_one, hReduced]
  | succ bits ih =>
    have hHalf : exponent / 2 < 2 ^ bits := by
      rw [Nat.pow_succ] at hBits
      omega
    have hSquare : (base * base % m) ^ (exponent / 2) ≡ (base * base) ^ (exponent / 2) [MOD m] :=
      (Nat.mod_modEq _ _).pow _
    rw [powerFrom]
    rcases Nat.mod_two_eq_zero_or_one exponent with hEven | hOdd
    · rw [if_neg (by omega), ih _ _ hHalf hReduced, pow_split base exponent, hEven, pow_zero,
        Nat.one_mul]
      exact hSquare.mul_left acc
    · rw [if_pos hOdd, ih _ _ hHalf (Nat.mod_mod _ _), pow_split base exponent, hOdd, pow_one,
        ← Nat.mul_assoc]
      exact (Nat.mod_modEq (acc * base) m).mul hSquare

theorem power_eq (base exponent m : Nat) : power base exponent m = base ^ exponent % m := by
  rw [power, powerFrom_eq m _ _ (Bytes.bitLength_le.mp le_rfl) (Nat.mod_mod _ _)]
  have hBase : 1 % m * (base % m) ^ exponent ≡ 1 * base ^ exponent [MOD m] :=
    (Nat.mod_modEq _ _).mul ((Nat.mod_modEq _ _).pow _)
  rwa [Nat.one_mul] at hBase

end SshKeys.Modular
