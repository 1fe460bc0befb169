import SshKeys.Arithmetic.Modular
import SshKeys.Proofs.BigEndian
import Mathlib.Data.ZMod.Basic
/-!
# Differences and inverses modulo a number

Euclid's algorithm keeps the divisors of its two numbers, and the multiples that they stand for; the
product of the two halves at every step, so the steps it is given are enough.
-/
namespace SshKeys.Modular

variable {m : Nat}

theorem cast_mod (n : Nat) : ((n % m : Nat) : ZMod m) = n := ZMod.natCast_mod n m

theorem cast_sub {a b : Nat} (h : b ≤ m) : ((sub a b m : Nat) : ZMod m) = a - b := by
  rw [sub, cast_mod, Nat.cast_add, Nat.cast_sub h, ZMod.natCast_self]
  ring

theorem two_mul_mod_le {a b : Nat} (hPositive : 0 < b) (hLess : b < a) : 2 * (a % b) ≤ a := by
  have hRest := Nat.mod_lt a hPositive
  have hParts := Nat.div_add_mod a b
  have hOnce : b ≤ b * (a / b) :=
    Nat.le_mul_of_pos_right b (Nat.div_pos hLess.le hPositive)
  omega

theorem euclid_fst (bits : Nat) {steps a b : Nat} (x y : Int) (hLess : b < a)
    (hBits : a * b < 2 ^ bits) (hSteps : bits < steps) :
    (euclid steps a b x y).1 = Nat.gcd a b := by
  -- on the steps: the product of the two numbers halves, so `bits` is used up before the steps are
  induction steps generalizing bits a b x y with
  | zero => cases hSteps
  | succ steps ih =>
    rw [euclid]
    split
    · rename_i hZero
      rw [hZero, Nat.gcd_zero_right]
    · rename_i hSome
      have hPositive := Nat.pos_of_ne_zero hSome
      have hHalf : 2 * (b * (a % b)) ≤ a * b := by
        calc 2 * (b * (a % b)) = 2 * (a % b) * b := by ring
          _ ≤ a * b := Nat.mul_le_mul_right b (two_mul_mod_le hPositive hLess)
      have hProduct : 0 < a * b := Nat.mul_pos (hPositive.trans hLess) hPositive
      obtain ⟨bits, rfl⟩ : ∃ lower, bits = lower + 1 := by
        refine ⟨bits - 1, (Nat.sub_add_cancel (Nat.pos_of_ne_zero ?_)).symm⟩
        rintro rfl
        omega
      have hLower : b * (a % b) < 2 ^ bits := by
        rw [Nat.pow_succ] at hBits
        omega
      rw [ih bits y _ (Nat.mod_lt a hPositive) hLower (by omega), Nat.gcd_comm b, ← Nat.gcd_rec,
        Nat.gcd_comm]

/-- Every number of the algorithm stays the multiple of `n` that it stands for. -/
theorem euclid_snd {n : ZMod m} {steps a b : Nat} {x y : Int} (hFirst : (a : ZMod m) = x * n)
    (hSecond : (b : ZMod m) = y * n) :
    ((euclid steps a b x y).1 : ZMod m) = (euclid steps a b x y).2 * n := by
  induction steps generalizing a b x y with
  | zero => exact hFirst
  | succ steps ih =>
    rw [euclid]
    split
    · exact hFirst
    · refine ih hSecond ?_
      have hRest : ((a % b : Nat) : ZMod m) = a - b * (a / b : Nat) := by
        rw [eq_sub_iff_add_eq, ← Nat.cast_mul, ← Nat.cast_add, Nat.mod_add_div]
      rw [hRest, hFirst, hSecond, Int.ofNat_eq_natCast, Int.cast_sub, Int.cast_mul,
        Int.cast_natCast]
      ring

theorem euclid_eq_gcd (a : Nat) (hPositive : 0 < m) :
    (euclid (2 * Bytes.bitLength m + 2) (a % m) m 1 0).1 = Nat.gcd a m := by
  have hBelow := Nat.mod_lt a hPositive
  have hLength : m < 2 ^ Bytes.bitLength m := Bytes.bitLength_le.mp le_rfl
  rw [euclid, if_neg hPositive.ne', Nat.mod_mod]
  rw [euclid_fst (2 * Bytes.bitLength m) _ _ hBelow ?_ (by omega), Nat.gcd_comm m,
    ← Nat.gcd_rec, Nat.gcd_comm]
  calc m * (a % m) < 2 ^ Bytes.bitLength m * 2 ^ Bytes.bitLength m :=
        Nat.mul_lt_mul'' hLength (hBelow.trans hLength)
    _ = 2 ^ (2 * Bytes.bitLength m) := by rw [← Nat.pow_add, Nat.two_mul]

theorem mul_inverse {a : Nat} (hPositive : 0 < m) (h : Nat.Coprime a m) :
    (a : ZMod m) * (inverse a m : Nat) = 1 := by
  obtain ⟨⟨divisor, x⟩, hEuclid⟩ : ∃ r, r = euclid (2 * Bytes.bitLength m + 2) (a % m) m 1 0 :=
    ⟨_, rfl⟩
  have hOne : divisor = 1 := by
    have hDivisor := euclid_eq_gcd a hPositive
    rw [← hEuclid, h] at hDivisor
    exact hDivisor
  have hMultiple : (divisor : ZMod m) = x * a := by
    have hKept : ((euclid (2 * Bytes.bitLength m + 2) (a % m) m 1 0).1 : ZMod m) =
        (euclid (2 * Bytes.bitLength m + 2) (a % m) m 1 0).2 * a :=
      euclid_snd (by rw [cast_mod, Int.cast_one, one_mul]) (by simp)
    rwa [← hEuclid] at hKept
  have hInverse : inverse a m = (x % (m : Int)).toNat := by
    rw [inverse, inverse?, ← hEuclid, hOne]
    rfl
  have hResidue : ((x % (m : Int)).toNat : ZMod m) = x := by
    have hBack : ((x % (m : Int)).toNat : Int) = x % (m : Int) :=
      Int.toNat_of_nonneg (Int.emod_nonneg _ (by omega))
    rw [← Int.cast_natCast, hBack, ZMod.intCast_mod]
  rw [hInverse, hResidue, mul_comm, ← hMultiple, hOne, Nat.cast_one]

end SshKeys.Modular
