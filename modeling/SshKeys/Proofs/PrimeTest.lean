import Mathlib.FieldTheory.Finite.Basic
import SshKeys.Arithmetic.Prime
import SshKeys.Proofs.Modular
/-!
# No prime is refused

Modulo a prime the squares end in one, and the only roots of one are one and minus one. So going back
from the last square, either all of them are one or one of them is minus one.
-/
namespace SshKeys.Prime

variable {n count odd base x : Nat}

theorem oddPart_eq {steps : Nat} (h : oddPart steps n = (count, odd)) : n = 2 ^ count * odd := by
  induction steps generalizing n count with
  | zero =>
    obtain ⟨rfl, rfl⟩ := Prod.mk.inj h
    rw [pow_zero, Nat.one_mul]
  | succ steps ih =>
    rw [oddPart] at h
    split at h
    · rename_i hEven
      obtain ⟨rfl, rfl⟩ := Prod.mk.inj h
      rw [pow_succ, Nat.mul_right_comm, ← ih rfl]
      omega
    · obtain ⟨rfl, rfl⟩ := Prod.mk.inj h
      rw [pow_zero, Nat.one_mul]

theorem oddPart_pos {steps : Nat} (hSteps : 0 < steps) (hEven : n % 2 = 0)
    (h : oddPart steps n = (count, odd)) : 0 < count := by
  obtain ⟨steps, rfl⟩ := Nat.exists_eq_add_one.mpr hSteps
  rw [oddPart, if_pos hEven] at h
  obtain ⟨rfl, -⟩ := Prod.mk.inj h
  exact Nat.succ_pos _

theorem eq_one_or_of_square (hPrime : n.Prime) (hx : x < n) (hSquare : x * x % n = 1) :
    x = 1 ∨ x = n - 1 := by
  have : Fact n.Prime := ⟨hPrime⟩
  have hOne : (x : ZMod n) * x = 1 := by
    rw [← Nat.cast_mul, ← Nat.cast_one, ZMod.natCast_eq_natCast_iff, Nat.ModEq, hSquare,
      Nat.mod_eq_of_lt hPrime.one_lt]
  rcases mul_self_eq_one_iff.mp hOne with hSame | hMinus
  · left
    rw [← Nat.cast_one, ZMod.natCast_eq_natCast_iff] at hSame
    exact hSame.eq_of_lt_of_lt hx hPrime.one_lt
  · right
    have hSum : ((x + 1 : Nat) : ZMod n) = 0 := by
      rw [Nat.cast_add, Nat.cast_one, hMinus, neg_add_cancel]
    have hUpper := Nat.le_of_dvd (Nat.succ_pos x) ((ZMod.natCast_eq_zero_iff _ _).mp hSum)
    omega

theorem reachesMinusOne_self (count : Nat) : reachesMinusOne n count (n - 1) = true := by
  cases count with
  | zero => exact beq_self_eq_true _
  | succ count => rw [reachesMinusOne, beq_self_eq_true, Bool.true_or]

/-- A number whose repeated squares end in one is one, or the squares go through minus one. -/
theorem reachesMinusOne_of_pow (hPrime : n.Prime) (hx : x < n)
    (hOne : x ^ 2 ^ (count + 1) % n = 1) : x = 1 ∨ reachesMinusOne n count x = true := by
  induction count generalizing x with
  | zero =>
    rw [Nat.zero_add, pow_one, pow_two] at hOne
    rcases eq_one_or_of_square hPrime hx hOne with hSame | rfl
    · exact .inl hSame
    · exact .inr (reachesMinusOne_self 0)
  | succ count ih =>
    have hNext : (x * x % n) ^ 2 ^ (count + 1) % n = 1 := by
      rw [← Nat.pow_mod, ← pow_two, ← pow_mul, ← pow_succ', hOne]
    rcases ih (Nat.mod_lt _ hPrime.pos) hNext with hSquare | hLater
    · rcases eq_one_or_of_square hPrime hx hSquare with hSame | rfl
      · exact .inl hSame
      · exact .inr (reachesMinusOne_self _)
    · rw [reachesMinusOne, hLater, Bool.or_true]
      exact .inr rfl

theorem passes_of_prime (hPrime : n.Prime) (hSplit : n - 1 = 2 ^ count * odd) (hCount : 0 < count)
    (hBase : ¬n ∣ base) : passes n count odd base = true := by
  obtain ⟨count, rfl⟩ := Nat.exists_eq_add_one.mpr hCount
  have hFermat : base ^ (n - 1) % n = 1 := by
    have hCoprime : base.Coprime n := (hPrime.coprime_iff_not_dvd.mpr hBase).symm
    have hTotient := Nat.ModEq.pow_totient hCoprime
    rwa [Nat.totient_prime hPrime, Nat.ModEq, Nat.mod_eq_of_lt hPrime.one_lt] at hTotient
  have hOne : (base ^ odd % n) ^ 2 ^ (count + 1) % n = 1 := by
    rw [← Nat.pow_mod, ← pow_mul, Nat.mul_comm odd, ← hSplit, hFermat]
  rw [passes, Modular.power_eq, Nat.add_sub_cancel]
  rcases reachesMinusOne_of_pow hPrime (Nat.mod_lt _ hPrime.pos) hOne with hSame | hReaches
  · rw [hSame, beq_self_eq_true, Bool.true_or]
  · rw [hReaches, Bool.or_true]

theorem prime_of_mem_smallPrimes {p : Nat} (hp : p ∈ smallPrimes) : p.Prime := by
  have hAll : ∀ p ∈ smallPrimes, p.Prime := by decide +kernel
  exact hAll p hp

theorem not_dvd_of_mem_bases (hTwo : 2 ≤ n) (hPrime : n.Prime) (hLarge : n ∉ smallPrimes)
    (h : base ∈ bases n) : ¬n ∣ base := by
  rw [bases, List.mem_append] at h
  rcases h with hSmall | hDrawn
  · have hMember := List.mem_of_mem_take hSmall
    intro hDivides
    rw [Nat.prime_dvd_prime_iff_eq hPrime (prime_of_mem_smallPrimes hMember)] at hDivides
    exact hLarge (hDivides ▸ hMember)
  · obtain ⟨i, -, rfl⟩ := List.mem_map.mp hDrawn
    have hBelow := Nat.mod_lt (Bytes.toNat (Sha512.digest (Bytes.minimal n)) + i)
      (Nat.sub_pos_of_lt hTwo)
    exact Nat.not_dvd_of_pos_of_lt (by omega) (by omega)

/-- The test takes every prime, whatever bases it draws. -/
theorem isPrime_of_prime (hPrime : n.Prime) : isPrime n = true := by
  have hTwo := hPrime.two_le
  rw [isPrime, if_neg (Nat.not_lt.mpr hTwo)]
  split
  · rfl
  · rename_i hLarge
    rw [List.contains_iff_mem] at hLarge
    have hUndivided : ¬(smallPrimes.any fun p => n % p == 0) = true := by
      rw [List.any_eq_true]
      rintro ⟨p, hp, hDivides⟩
      rw [beq_iff_eq, ← Nat.dvd_iff_mod_eq_zero,
        Nat.prime_dvd_prime_iff_eq (prime_of_mem_smallPrimes hp) hPrime] at hDivides
      exact hLarge (hDivides ▸ hp)
    rw [if_neg hUndivided]
    rcases hParts : oddPart (Bytes.bitLength n) (n - 1) with ⟨count, odd⟩
    have hEven : (n - 1) % 2 = 0 := by
      have hOdd := hPrime.eq_two_or_odd.resolve_left fun h => hLarge (h ▸ List.mem_cons_self)
      omega
    have hBits : 0 < Bytes.bitLength n := by
      rw [Bytes.bitLength, if_neg (by omega)]
      exact Nat.succ_pos _
    simp only [List.all_eq_true]
    intro base hBase
    exact passes_of_prime hPrime (oddPart_eq hParts) (oddPart_pos hBits hEven hParts)
      (not_dvd_of_mem_bases hTwo hPrime hLarge hBase)

end SshKeys.Prime
