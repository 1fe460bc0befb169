import SshKeys.Key.Class
import SshKeys.Proofs.CurvePoint
import SshKeys.Proofs.Modular
import Mathlib.FieldTheory.Finite.Basic
import Mathlib.NumberTheory.LucasLehmer
import Mathlib.Tactic.NormNum.Prime
/-!
# The field primes of the curves are primes

A prime factor of `n - 1` that divides the order of two modulo each prime divisor of `n` also
divides that divisor less one. If such factors make up more than the square root of `n`, no divisor
is left for them but `n`.
-/
namespace SshKeys

/-- A number to be shown prime, with some primes whose product is a large divisor of its
predecessor. -/
structure PrimeStep where
  number : Nat
  factors : List Nat

namespace PrimeStep

/-- Whether the power of two that leaves out a factor differs from one modulo every divisor. -/
def shows (s : PrimeStep) (q : Nat) : Bool :=
  Nat.gcd (Modular.power 2 ((s.number - 1) / q) s.number + (s.number - 1)) s.number == 1

/-- Whether a step stands, given numbers that are known to be prime. -/
def stands (known : List Nat) (s : PrimeStep) : Bool :=
  s.factors.all (· ∈ known) && s.factors.Nodup && (s.number - 1) % s.factors.prod == 0 &&
    s.number < s.factors.prod * s.factors.prod && 1 < s.number &&
    Modular.power 2 (s.number - 1) s.number == 1 && s.factors.all s.shows

/-- Whether each step stands on the primes before it. -/
def allStand : List Nat → List PrimeStep → Bool
  | _, [] => true
  | known, s :: steps => s.stands known && allStand (s.number :: known) steps

variable {s : PrimeStep} {p q : Nat}

theorem cast_power (hDivides : p ∣ s.number) (exponent : Nat) :
    ((Modular.power 2 exponent s.number : Nat) : ZMod p) = (2 : ZMod p) ^ exponent := by
  have hSame : Modular.power 2 exponent s.number ≡ 2 ^ exponent [MOD p] := by
    rw [Modular.power_eq]
    exact (Nat.mod_modEq _ _).of_dvd hDivides
  rw [(ZMod.natCast_eq_natCast_iff _ _ _).mpr hSame, Nat.cast_pow, Nat.cast_ofNat]

/-- A factor that is shown divides the order, and so every prime divisor less one. -/
theorem dvd_sub_one (hPrime : p.Prime) (hDivides : p ∣ s.number) (hLarge : 1 < s.number)
    (hPower : Modular.power 2 (s.number - 1) s.number = 1) (hFactor : q.Prime)
    (hq : q ∣ s.number - 1) (hShows : s.shows q = true) : q ∣ p - 1 := by
  have : Fact p.Prime := ⟨hPrime⟩
  have hOne : (2 : ZMod p) ^ (s.number - 1) = 1 := by
    rw [← cast_power hDivides, hPower, Nat.cast_one]
  have hOther : (2 : ZMod p) ^ ((s.number - 1) / q) ≠ 1 := by
    intro hSame
    have hZero : ((Modular.power 2 ((s.number - 1) / q) s.number + (s.number - 1) : Nat) :
        ZMod p) = 0 := by
      rw [Nat.cast_add, cast_power hDivides, hSame, Nat.cast_sub hLarge.le,
        (ZMod.natCast_eq_zero_iff _ _).mpr hDivides]
      simp
    have hCommon := Nat.dvd_gcd ((ZMod.natCast_eq_zero_iff _ _).mp hZero) hDivides
    rw [shows, beq_iff_eq] at hShows
    rw [hShows] at hCommon
    exact hPrime.one_lt.ne' (Nat.dvd_one.mp hCommon)
  -- `q` divides the order of two: otherwise the order would divide the exponent without `q`
  have hOrder : orderOf (2 : ZMod p) ∣ s.number - 1 := orderOf_dvd_of_pow_eq_one hOne
  have hInside : q ∣ orderOf (2 : ZMod p) := by
    obtain ⟨k, hk⟩ := hOrder
    rcases (hFactor.dvd_mul.mp (hk ▸ hq)) with hFound | ⟨l, hl⟩
    · exact hFound
    · refine absurd (orderOf_dvd_iff_pow_eq_one.mp ?_) hOther
      rw [hk, hl, Nat.mul_left_comm, Nat.mul_div_cancel_left _ hFactor.pos]
      exact Dvd.intro _ rfl
  refine hInside.trans (ZMod.orderOf_dvd_card_sub_one ?_)
  intro hZero
  rw [hZero, zero_pow (by omega)] at hOne
  exact zero_ne_one hOne

theorem prod_dvd {factors : List Nat} {n : Nat} (hPrime : ∀ q ∈ factors, q.Prime)
    (hDistinct : factors.Nodup) (hEach : ∀ q ∈ factors, q ∣ n) : factors.prod ∣ n := by
  induction factors with
  | nil => exact one_dvd n
  | cons q factors ih =>
    rw [List.forall_mem_cons] at hPrime hEach
    rw [List.nodup_cons] at hDistinct
    have hCoprime : Nat.Coprime q factors.prod := by
      rw [hPrime.1.coprime_iff_not_dvd]
      intro hDivides
      obtain ⟨r, hr, hq⟩ := (hPrime.1.prime.dvd_prod_iff).mp hDivides
      rw [(Nat.prime_dvd_prime_iff_eq hPrime.1 (hPrime.2 r hr)).mp hq] at hDistinct
      exact hDistinct.1 hr
    rw [List.prod_cons]
    exact hCoprime.mul_dvd_of_dvd_of_dvd hEach.1 (ih hPrime.2 hDistinct.2 hEach.2)

theorem prime_of_stands {known : List Nat} (hKnown : ∀ q ∈ known, q.Prime)
    (h : s.stands known = true) : s.number.Prime := by
  simp only [stands, Bool.and_eq_true, List.all_eq_true, decide_eq_true_eq, beq_iff_eq] at h
  obtain ⟨⟨⟨⟨⟨⟨hFactors, hDistinct⟩, hWhole⟩, hSize⟩, hLarge⟩, hPower⟩, hShows⟩ := h
  have hPrimes : ∀ q ∈ s.factors, q.Prime := fun q hq => hKnown q (hFactors q hq)
  by_contra hComposite
  -- the factors divide the least prime divisor less one, which makes its square too large
  have hLeast := Nat.minFac_prime hLarge.ne'
  have hProduct : s.factors.prod ∣ s.number.minFac - 1 := by
    refine prod_dvd hPrimes hDistinct fun q hq => ?_
    exact dvd_sub_one hLeast (Nat.minFac_dvd _) hLarge hPower (hPrimes q hq)
      ((List.dvd_prod hq).trans (Nat.dvd_of_mod_eq_zero hWhole)) (hShows q hq)
  have hBelow : s.factors.prod < s.number.minFac := by
    have hLe := Nat.le_of_dvd (Nat.sub_pos_of_lt hLeast.one_lt) hProduct
    have hPositive := hLeast.pos
    omega
  have hSquare := Nat.minFac_sq_le_self (Nat.zero_lt_of_lt hLarge) hComposite
  rw [pow_two] at hSquare
  exact absurd (hSize.trans (Nat.mul_lt_mul'' hBelow hBelow)) (Nat.not_lt.mpr hSquare)

/-- Every number of steps that stand one on the other is prime. -/
theorem prime_of_allStand {known : List Nat} {steps : List PrimeStep}
    (hKnown : ∀ q ∈ known, q.Prime) (h : allStand known steps = true) :
    ∀ s ∈ steps, s.number.Prime := by
  induction steps generalizing known with
  | nil => exact nofun
  | cons s steps ih =>
    rw [allStand, Bool.and_eq_true] at h
    have hPrime := prime_of_stands hKnown h.1
    exact List.forall_mem_cons.mpr
      ⟨hPrime, ih (List.forall_mem_cons.mpr ⟨hPrime, hKnown⟩) h.2⟩

/-- Steps that lead to the field prime of `secp256r1`. -/
def toP256 : List PrimeStep :=
  [⟨66417393611, [3677, 197]⟩,
   ⟨11290956913871, [66417393611]⟩,
   ⟨46076956964474543, [704251, 78283]⟩,
   ⟨774023187263532362759620327192479577272145303, [46076956964474543, 11290956913871]⟩,
   ⟨835945042244614951780389953367877943453916927241,
    [774023187263532362759620327192479577272145303]⟩,
   ⟨Curve.secp256r1.p, [835945042244614951780389953367877943453916927241]⟩]

/-- Steps that lead to the field prime of `secp384r1`. -/
def toP384 : List PrimeStep :=
  [⟨532247449, [363557]⟩,
   ⟨44925942675193, [532247449]⟩,
   ⟨35581458644053887931343, [44925942675193]⟩,
   ⟨23964610537191310276190549303, [35581458644053887931343]⟩,
   ⟨862725979338887169942859774909, [23964610537191310276190549303]⟩,
   ⟨20705423504133292078628634597817, [862725979338887169942859774909]⟩,
   ⟨413244619895455989650825325680172591660047, [20705423504133292078628634597817]⟩,
   ⟨12397338596863679689524759770405177749801411,
    [413244619895455989650825325680172591660047]⟩,
   ⟨246608641, [21407]⟩,
   ⟨529709925838459440593, [246608641, 181]⟩,
   ⟨0x23108C4E1B4108EC0AE7F9AC9F118677A6C53E44FD12FCACC07B805145240AAE82349D3CE0E376778BD1,
    [12397338596863679689524759770405177749801411, 529709925838459440593]⟩,
   ⟨Curve.secp384r1.p,
    [0x23108C4E1B4108EC0AE7F9AC9F118677A6C53E44FD12FCACC07B805145240AAE82349D3CE0E376778BD1]⟩]

theorem prime_p256 : Curve.secp256r1.p.Prime := by
  have hKnown : ∀ q ∈ [197, 3677, 78283, 704251], q.Prime := by
    simp only [List.forall_mem_cons]
    norm_num
  exact prime_of_allStand hKnown (show allStand _ toP256 = true by decide +kernel)
    (toP256.getLast (List.cons_ne_nil _ _)) (List.getLast_mem _)

theorem prime_p384 : Curve.secp384r1.p.Prime := by
  have hKnown : ∀ q ∈ [181, 21407, 363557], q.Prime := by
    simp only [List.forall_mem_cons]
    norm_num
  exact prime_of_allStand hKnown (show allStand _ toP384 = true by decide +kernel)
    (toP384.getLast (List.cons_ne_nil _ _)) (List.getLast_mem _)

theorem prime_p521 : Curve.secp521r1.p.Prime := by
  have hMersenne : (mersenne 521).Prime :=
    lucas_lehmer_sufficiency _ (by norm_num) (by norm_num)
  have hSame : Curve.secp521r1.p = mersenne 521 := by decide +kernel
  rwa [hSame]

end PrimeStep

theorem NistCurve.prime_p (c : NistCurve) : c.curve.p.Prime := by
  cases c with
  | p256 => exact PrimeStep.prime_p256
  | p384 => exact PrimeStep.prime_p384
  | p521 => exact PrimeStep.prime_p521

/-- The multiples of the base point of a curve lie on it. -/
theorem NistCurve.contains_baseMultiple? (c : NistCurve) {k : Nat} {q : Point}
    (h : c.curve.baseMultiple? k = some q) : c.curve.contains q = true := by
  have hPrime := c.prime_p
  have hBase : c.curve.contains c.curve.base = true := by
    cases c <;> decide +kernel
  have : NeZero c.curve.p := ⟨hPrime.ne_zero⟩
  exact Curve.contains_baseMultiple? hPrime hBase h

end SshKeys
