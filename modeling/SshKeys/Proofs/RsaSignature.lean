import SshKeys.Proofs.ModularInverse
import SshKeys.Proofs.SignatureRoundTrip
import Mathlib.FieldTheory.Finite.Basic
/-!
# RSA signatures open to what was signed

The factors of accepted keys have passed a probable prime test only; where they are prime, raising
to both exponents gives every number below the modulus back, and the padded digest is such a number.
-/
namespace SshKeys

namespace Modular

/-- Fermat's little theorem, for all numbers. -/
theorem pow_modEq_self {p : Nat} (hp : p.Prime) (b k : Nat) :
    b ^ (1 + (p - 1) * k) ≡ b [MOD p] := by
  have : Fact p.Prime := ⟨hp⟩
  rw [← ZMod.natCast_eq_natCast_iff, Nat.cast_pow, pow_add, pow_one, pow_mul]
  by_cases hZero : (b : ZMod p) = 0
  · rw [hZero, zero_mul]
  · rw [ZMod.pow_card_sub_one_eq_one hZero, one_pow, mul_one]

theorem power_power {p q d e b : Nat} (hp : p.Prime) (hq : q.Prime) (hDistinct : p ≠ q)
    (hInverse : d * e % Nat.lcm (p - 1) (q - 1) = 1) (hb : b < p * q) :
    power (power b d (p * q)) e (p * q) = b := by
  have hSteps := Nat.mod_add_div (d * e) (Nat.lcm (p - 1) (q - 1))
  rw [hInverse] at hSteps
  -- the exponent is one and a multiple of the order for either factor
  have hFactor {r : Nat} (hr : r.Prime) (hDivides : r - 1 ∣ Nat.lcm (p - 1) (q - 1)) :
      b ^ (d * e) ≡ b [MOD r] := by
    obtain ⟨count, hCount⟩ := hDivides
    rw [← hSteps, hCount, Nat.mul_assoc]
    exact pow_modEq_self hr b _
  have hProduct : b ^ (d * e) ≡ b [MOD p * q] :=
    (Nat.modEq_and_modEq_iff_modEq_mul ((Nat.coprime_primes hp hq).mpr hDistinct)).mp
      ⟨hFactor hp (Nat.dvd_lcm_left _ _), hFactor hq (Nat.dvd_lcm_right _ _)⟩
  rw [power_eq, power_eq, ← Nat.pow_mod, ← Nat.pow_mul]
  exact Eq.trans hProduct (Nat.mod_eq_of_lt hb)

theorem coprime_of_inverse? {a m w : Nat} (hPositive : 0 < m) (h : inverse? a m = some w) :
    Nat.Coprime a m := by
  rw [Nat.Coprime, ← euclid_eq_gcd a hPositive]
  simp only [inverse?] at h
  split at h
  · assumption
  · cases h

end Modular

theorem Hash.length_digest (hash : Hash) (message : Bytes) :
    (hash.digest message).length = hash.digestSize := by
  cases hash <;> rfl

namespace Rsa

variable {hash : Hash} {size n d e : Nat} {message : Bytes}

theorem length_tail_le (hash : Hash) (message : Bytes) :
    (digestMark hash ++ hash.digest message).length ≤ 83 := by
  rw [List.length_append, hash.length_digest]
  cases hash <;> decide

theorem length_padded (hash : Hash) (message : Bytes) (hSize : 86 ≤ size) :
    (padded hash size message).length = size := by
  have hTail := length_tail_le hash message
  simp only [padded, List.length_cons, List.length_append, List.length_replicate] at hTail ⊢
  omega

theorem toNat_padded_lt (hash : Hash) (message : Bytes) (hSize : 86 ≤ Bytes.byteLength n) :
    Bytes.toNat (padded hash (Bytes.byteLength n) message) < n := by
  have hLength := length_padded hash message hSize
  obtain ⟨rest, hRest⟩ : ∃ rest, padded hash (Bytes.byteLength n) message = 0 :: rest := ⟨_, rfl⟩
  rw [hRest, List.length_cons] at hLength
  -- behind its leading zero the digest is a byte shorter than the modulus
  have hModulus : 2 ^ (8 * rest.length) ≤ n := by
    refine Bytes.lt_bitLength.mp ?_
    rw [Bytes.byteLength] at hLength
    omega
  calc Bytes.toNat (padded hash (Bytes.byteLength n) message) = Bytes.toNat rest := by
        rw [hRest, ← List.singleton_append, Bytes.toNat_append]
        simp
    _ < 256 ^ rest.length := Bytes.toNat_lt rest
    _ = 2 ^ (8 * rest.length) := TwosComplement.pow_256 _
    _ ≤ n := hModulus

theorem verify_sign {p q : Nat} (hash : Hash) (message : Bytes) (hp : p.Prime) (hq : q.Prime)
    (hDistinct : p ≠ q) (hInverse : d * e % Nat.lcm (p - 1) (q - 1) = 1)
    (hSize : 86 ≤ Bytes.byteLength (p * q)) (hWorkable : isWorkable (p * q) e = true) :
    verify hash (p * q) e message (sign hash (p * q) d message) = true := by
  let digest := padded hash (Bytes.byteLength (p * q)) message
  have hBelow : Bytes.toNat digest < p * q := toNat_padded_lt hash message hSize
  have hPower : Modular.power (Bytes.toNat digest) d (p * q) < p * q := by
    rw [Modular.power_eq]
    exact Nat.mod_lt _ (Nat.zero_lt_of_lt hBelow)
  have hSignature : Bytes.toNat (sign hash (p * q) d message) =
      Modular.power (Bytes.toNat digest) d (p * q) :=
    Bytes.toNat_ofNat_of_lt (hPower.trans (Bytes.lt_pow_byteLength _))
  have hGuard : ¬((sign hash (p * q) d message).length ≠ Bytes.byteLength (p * q) ∨
      p * q ≤ Bytes.toNat (sign hash (p * q) d message) ∨ (!isWorkable (p * q) e) = true) := by
    rw [hSignature, hWorkable, sign, Bytes.length_ofNat]
    simpa using hPower
  have hDigest := Bytes.ofNat_toNat digest
  rw [length_padded hash message hSize] at hDigest
  rw [verify, if_neg hGuard, hSignature, Modular.power_power hp hq hDistinct hInverse hBelow,
    hDigest]
  exact beq_self_eq_true digest

end Rsa

/-- The factors of a private key are prime, and its numbers are not too long to work with. -/
structure RsaKey.Proper (key : RsaKey) : Prop where
  factors : ∀ secret, key.secret = some secret → secret.p.Prime ∧ secret.q.Prime
  modulus : Bytes.bitLength key.n ≤ 16384
  exponent : Bytes.bitLength key.n ≤ 3072 ∨ Bytes.bitLength key.e ≤ 64

/-- The library accepts its own RSA signatures. -/
theorem SignaturePrimitives.own_honours_rsa {key : RsaKey} (hAccepted : (KeyBody.rsa key).Accepted)
    (hProper : key.Proper) (data : Bytes) (algorithm : Option String) :
    own.Honours data algorithm (.rsa key) := by
  intro hash secret _ hSecret
  obtain ⟨hp, hq⟩ := hProper.factors secret hSecret
  obtain ⟨-, hModulus, hExponent⟩ := hProper
  obtain ⟨r, hNumbers, hRange, hSound, -, hSize⟩ := KeyBody.accepted_rsa_iff.mp hAccepted
  obtain ⟨n, e, _⟩ := key
  cases hSecret
  cases hNumbers
  obtain ⟨-, -, ⟨-, hBelow, -⟩, -⟩ := RsaNumbers.areInRange_iff.mp hRange
  obtain ⟨⟨⟨hFirst, hSecond⟩, hProduct⟩, -, hInverse, -, hQuotient, -⟩ :=
    RsaNumbers.areSound_iff.mp hSound
  dsimp only at hFirst hSecond hProduct hInverse hQuotient hBelow hSize
  have hDistinct : secret.p ≠ secret.q := by
    have hCoprime := Modular.coprime_of_inverse? hp.pos hQuotient
    rintro hSame
    rw [hSame, Nat.coprime_self] at hCoprime
    exact hq.one_lt.ne' hCoprime
  have hWorkable : Rsa.isWorkable (secret.p * secret.q) e = true := by
    have hModulusOdd : secret.p * secret.q % 2 = 1 := by
      rw [Nat.mul_mod, hFirst, hSecond]
    rw [← hProduct] at hModulus hExponent hBelow
    simp [Rsa.isWorkable, hBelow, hModulusOdd, hModulus, hExponent]
  have hLength : 86 ≤ Bytes.byteLength (secret.p * secret.q) := by
    have hBits : 1023 < Bytes.bitLength n := Bytes.lt_bitLength.mpr hSize
    rw [hProduct, Bytes.byteLength]
    omega
  rw [← hProduct]
  exact Rsa.verify_sign hash data hp hq hDistinct hInverse hLength hWorkable

/-- What a proper RSA key signs, it accepts. -/
theorem Key.verify_sign_rsa {key : RsaKey} (hAccepted : (KeyBody.rsa key).Accepted)
    (hProper : key.Proper) (comment : Option String) (data : Bytes) {algorithm : Option String}
    (hAlgorithm : ∀ name, algorithm = some name → name ∈ KeyClass.rsa.identifiers) :
    ∃ message, sign { body := .rsa key, comment } data algorithm = .ok message ∧
      verify { body := .rsa key, comment } data message = .ok true := by
  have hHonours := SignaturePrimitives.own_honours_rsa hAccepted hProper data algorithm
  obtain ⟨signature, hSigns⟩ :
      ∃ signature, Signs .own { body := .rsa key, comment } data algorithm signature :=
    signs_rsa SignaturePrimitives.own_lawful hAccepted hAlgorithm hHonours
  exact ⟨_, hSigns.signed, hSigns.verifyBy (takes_signatureName fun _ => hAlgorithm)⟩

end SshKeys
