import SshKeys.Proofs.KeyEntry
/-!
# What entries ask of a key

What the checks of an entry ask of the numbers of a key, class by class, in the terms in which other
containers check the same numbers.
-/
namespace SshKeys

namespace Bytes

@[simp] theorem length_ofNatLittle (width n : Nat) : (ofNatLittle width n).length = width := by
  induction width generalizing n with
  | zero => rfl
  | succ width ih => rw [ofNatLittle, List.length_cons, ih]

end Bytes

theorem Edwards.length_publicKey (seed : Bytes) : (Edwards.publicKey seed).length = 32 :=
  Bytes.length_ofNatLittle _ _

namespace NistCurve

theorem order_lt (c : NistCurve) : c.curve.order < 2 ^ c.bits := by
  cases c <;> decide +kernel

end NistCurve

theorem Curve.publicPoint?_eq_some_iff {c : Curve} {scalar : Nat} {q : Point} :
    c.publicPoint? scalar = some q ↔
      (0 < scalar ∧ scalar < c.order) ∧ c.baseMultiple? scalar = some q := by
  rw [publicPoint?, Option.ite_none_right_eq_some]

theorem Modular.inverse?_lt {a m w : Nat} (hPositive : 0 < m) (h : inverse? a m = some w) :
    w < m := by
  simp only [inverse?, Option.ite_none_right_eq_some, Option.some.injEq] at h
  obtain ⟨-, rfl⟩ := h
  rw [Int.toNat_lt_of_ne_zero hPositive.ne']
  exact Int.emod_lt_of_pos _ (Int.natCast_pos.mpr hPositive)

theorem Prime.two_le_of_isPrime {n : Nat} (h : isPrime n = true) : 2 ≤ n := by
  by_contra hSmall
  rw [isPrime, if_pos (Nat.lt_of_not_le hSmall)] at h
  cases h

namespace RsaNumbers

theorem areInRange_iff {r : RsaNumbers} : r.areInRange = true ↔
    3 ≤ r.n ∧ (r.p < r.n ∧ r.q < r.n ∧ r.dmp1 < r.n ∧ r.dmq1 < r.n ∧ r.iqmp < r.n ∧ r.d < r.n) ∧
      (3 ≤ r.e ∧ r.e < r.n ∧ r.e % 2 = 1) ∧ (r.dmp1 % 2 = 1 ∧ r.dmq1 % 2 = 1) ∧
      r.p * r.q = r.n := by
  simp only [areInRange, Bool.and_eq_true, decide_eq_true_eq, beq_iff_eq]
  tauto

theorem areSound_iff {r : RsaNumbers} : r.areSound = true ↔
    ((r.p % 2 = 1 ∧ r.q % 2 = 1) ∧ r.p * r.q = r.n) ∧ (r.e % 2 = 1 ∧ r.e ≠ 1) ∧
      r.d * r.e % Nat.lcm (r.p - 1) (r.q - 1) = 1 ∧
      (r.dmp1 = r.d % (r.p - 1) ∧ r.dmq1 = r.d % (r.q - 1)) ∧
      Modular.inverse? r.q r.p = some r.iqmp ∧
      Prime.isPrime r.p = true ∧ Prime.isPrime r.q = true := by
  simp only [areSound, Bool.and_eq_true, bne_iff_ne, beq_iff_eq]
  tauto

variable {r : RsaNumbers}

theorem factors_of_areSound (h : r.areSound = true) : 3 ≤ r.p ∧ 3 ≤ r.q ∧ r.p * r.q = r.n := by
  obtain ⟨⟨⟨hp, hq⟩, hProduct⟩, -, -, -, -, hpPrime, hqPrime⟩ := areSound_iff.mp h
  have hpTwo := Prime.two_le_of_isPrime hpPrime
  have hqTwo := Prime.two_le_of_isPrime hqPrime
  exact ⟨by omega, by omega, hProduct⟩

theorem odd_parts_of_areSound (h : r.areSound = true) :
    0 < r.d ∧ r.dmp1 % 2 = 1 ∧ r.dmq1 % 2 = 1 := by
  obtain ⟨⟨⟨hp, hq⟩, -⟩, -, hInverse, ⟨hdmp, hdmq⟩, -⟩ := areSound_iff.mp h
  have hEven {f : Nat} (hf : f % 2 = 1) : 2 ∣ f - 1 := by omega
  have hLcm : 2 ∣ Nat.lcm (r.p - 1) (r.q - 1) := (hEven hp).trans (Nat.dvd_lcm_left _ _)
  have hProduct : r.d * r.e % 2 = 1 := by
    rw [← Nat.mod_mod_of_dvd _ hLcm, hInverse]
  have hOdd : r.d % 2 = 1 := by
    rcases Nat.mod_two_eq_zero_or_one r.d with hZero | hOne
    · rw [Nat.mul_mod, hZero, Nat.zero_mul] at hProduct
      cases hProduct
    · exact hOne
  refine ⟨by omega, ?_, ?_⟩
  · rw [hdmp, Nat.mod_mod_of_dvd _ (hEven hp), hOdd]
  · rw [hdmq, Nat.mod_mod_of_dvd _ (hEven hq), hOdd]

/-- The numbers of a sound key are in range but for its exponents. -/
theorem areInRange_iff_of_areSound (h : r.areSound = true) :
    r.areInRange = true ↔ r.d < r.n ∧ r.e < r.n := by
  obtain ⟨hp, hq, hProduct⟩ := factors_of_areSound h
  obtain ⟨-, hdmpOdd, hdmqOdd⟩ := odd_parts_of_areSound h
  obtain ⟨-, ⟨heOdd, heOne⟩, -, ⟨hdmp, hdmq⟩, hInverse, -⟩ := areSound_iff.mp h
  have hpBelow : r.p < r.n := hProduct ▸ (Nat.lt_mul_iff_one_lt_right (by omega)).mpr (by omega)
  have hqBelow : r.q < r.n := hProduct ▸ (Nat.lt_mul_iff_one_lt_left (by omega)).mpr (by omega)
  have hdmpBelow : r.dmp1 < r.p - 1 := hdmp ▸ Nat.mod_lt _ (by omega)
  have hdmqBelow : r.dmq1 < r.q - 1 := hdmq ▸ Nat.mod_lt _ (by omega)
  have hiqmp : r.iqmp < r.p := Modular.inverse?_lt (by omega) hInverse
  rw [areInRange_iff]
  constructor
  · rintro ⟨-, ⟨-, -, -, -, -, hd⟩, ⟨-, he, -⟩, -⟩
    exact ⟨hd, he⟩
  · rintro ⟨hd, he⟩
    exact ⟨by omega, ⟨hpBelow, hqBelow, by omega, by omega, by omega, hd⟩, ⟨by omega, he, heOdd⟩,
      ⟨hdmpOdd, hdmqOdd⟩, hProduct⟩

/-- Sound numbers are got back from the key that they make. -/
theorem numbers?_toKey (h : r.areSound = true) : r.toKey.numbers? = some r := by
  obtain ⟨-, -, -, ⟨hp, hq⟩, -⟩ := areSound_iff.mp h
  rw [toKey, RsaKey.numbers?, Option.map_some, ← hp, ← hq]

end RsaNumbers

theorem RsaKey.toKey_of_numbers? {k : RsaKey} {r : RsaNumbers} (h : k.numbers? = some r) :
    r.toKey = k := by
  obtain ⟨n, e, secret⟩ := k
  cases secret with
  | none => cases h
  | some s =>
    cases h
    rfl

namespace KeyBody

theorem ofRsaEntry_numbers {r : RsaNumbers} :
    ofRsaEntry r.n r.e r.d r.iqmp r.p r.q = .ok (.rsa r.toKey) ↔
      ∃ s : RsaNumbers, r.toKey.numbers? = some s ∧ s.areInRange = true ∧ s.areSound = true ∧
        1 < r.d ∧ 2 ^ 1023 ≤ r.n := by
  let s : RsaNumbers := { r with dmp1 := r.d % (r.p - 1), dmq1 := r.d % (r.q - 1) }
  have hNumbers : r.toKey.numbers? = some s := rfl
  simp only [ofRsaEntry, Fallible.bind_eq_ok_iff, checkRsaSize_eq_ok_iff,
    Fallible.throwIf_eq_ok_iff, Fallible.throwUnless_eq_ok_iff, Fallible.pure_eq_ok_iff,
    Int.toNat_natCast, Int.natAbs_natCast]
  constructor
  · rintro ⟨_, hSize, -, -, hExponent, -, hRange, -, hSound, -⟩
    exact ⟨s, hNumbers, hRange, hSound, by omega, hSize⟩
  · rintro ⟨s', hSame, hRange, hSound, hExponent, hSize⟩
    cases hNumbers.symm.trans hSame
    obtain ⟨hp, hq, hProduct⟩ := RsaNumbers.factors_of_areSound hSound
    have hProduct' : (r.p : Int) * r.q = r.n := by exact_mod_cast hProduct
    simp only [s] at hp hq
    exact ⟨(), hSize, by omega, not_not_intro hProduct', by omega, by omega, hRange, by omega,
      hSound, rfl⟩

theorem accepted_rsa_iff {k : RsaKey} : (rsa k).Accepted ↔
    ∃ r : RsaNumbers, k.numbers? = some r ∧ r.areInRange = true ∧ r.areSound = true ∧ 1 < r.d ∧
      2 ^ 1023 ≤ k.n := by
  obtain ⟨n, e, secret⟩ := k
  cases secret with
  | none => exact ⟨fun ⟨_, h, _⟩ => (nomatch h), fun ⟨_, h, _⟩ => (nomatch h)⟩
  | some s =>
    let r : RsaNumbers := ⟨n, e, s.d, s.p, s.q, 0, 0, s.iqmp⟩
    constructor
    · rintro ⟨s', hSame, hChecks⟩
      cases hSame
      obtain ⟨_, hNumbers, hRange, hSound, hExponent, hSize⟩ :=
        (ofRsaEntry_numbers (r := r)).mp hChecks
      cases hNumbers
      exact ⟨_, rfl, hRange, hSound, hExponent, hSize⟩
    · rintro ⟨_, hNumbers, hRange, hSound, hExponent, hSize⟩
      cases hNumbers
      exact ⟨s, rfl, (ofRsaEntry_numbers (r := r)).mpr ⟨_, rfl, hRange, hSound, hExponent, hSize⟩⟩

/-- Whether the private number of a DSA key derives its public number, with parameters of a size
with which DSA is carried out. -/
def MatchesDsa (k : DsaKey) (x : Int) : Prop :=
  (0 < x ∧ x < k.q) ∧ Int.ofNat (Modular.power k.g.toNat x.toNat k.p.toNat) = k.y ∧
    dsaModulusSizes.contains (TwosComplement.bitLength k.p) = true

theorem accepted_dsa_iff {k : DsaKey} : (dsa k).Accepted ↔
    ∃ x, k.x = some x ∧ checkDsa k.p k.q k.g k.y = .ok () ∧ MatchesDsa k x := by
  simp only [Accepted, ofDsaEntry, Fallible.bind_eq_ok_iff, Fallible.throwIf_eq_ok_iff,
    Fallible.throwUnless_eq_ok_iff, Fallible.pure_eq_ok_iff, not_not, MatchesDsa]
  constructor
  · rintro ⟨x, hx, _, hChecks, hRange, hDerived, hSizes, -⟩
    exact ⟨x, hx, hChecks, hRange, hDerived, hSizes⟩
  · rintro ⟨x, hx, hChecks, hRange, hDerived, hSizes⟩
    obtain ⟨p, q, g, y, x'⟩ := k
    cases hx
    exact ⟨x, rfl, (), hChecks, hRange, hDerived, hSizes, rfl⟩

theorem accepted_ecdsa_iff {k : EcdsaKey} : (ecdsa k).Accepted ↔
    ∃ scalar, k.scalar = some scalar ∧ k.curve.curve.contains k.point = true ∧
      (0 < scalar ∧ scalar < 2 ^ k.curve.bits) ∧
      k.curve.curve.baseMultiple? scalar = some k.point := by
  constructor
  · rintro ⟨scalar, hScalar, hOn, hChecks⟩
    obtain ⟨m, hm, -, m', hm', hRange, hDerived⟩ := ofEcdsaEntry_sound hChecks
    cases hScalar.symm.trans hm'
    exact ⟨scalar, hScalar, hOn, hRange, hDerived⟩
  · rintro ⟨scalar, hScalar, hOn, hRange, hDerived⟩
    have hBits : TwosComplement.bitLength (scalar : Int) ≤ k.curve.bits :=
      Bytes.bitLength_le.mpr hRange.2
    refine ⟨scalar, hScalar, hOn, ?_⟩
    rw [ofEcdsaEntry, Fallible.throwIf_eq_ok_iff, Int.toNat_natCast, hDerived]
    refine ⟨by omega, ?_⟩
    simp only [Fallible.throwIf_eq_ok_iff, Fallible.pure_eq_ok_iff]
    refine ⟨not_not_intro rfl, ?_⟩
    rw [← hScalar]

/-- The scalar of an elliptic key lies below the order of the base point. Entries may hold others. -/
def IsReduced : KeyBody → Prop
  | .ecdsa k => ∀ scalar, k.scalar = some scalar → scalar < k.curve.curve.order
  | _ => True

theorem isReduced_p256_one : (ecdsa ⟨.p256, Curve.secp256r1.base, some 1⟩).IsReduced := by
  rintro scalar ⟨⟩
  decide

theorem accepted_ed25519_iff {k : Ed25519Key} : (ed25519 k).Accepted ↔
    ∃ seed, k.seed = some seed ∧ seed.length = 32 ∧ Edwards.publicKey seed = k.publicKey := by
  obtain ⟨publicKey, seed⟩ := k
  simp only [Accepted, Ed25519Key.secret, ofEd25519Entry, Fallible.throwIf_eq_ok_iff,
    Fallible.pure_eq_ok_iff, not_not]
  constructor
  · rintro ⟨secret, hSecret, hSize, hLength, -, hDerived, -⟩
    obtain ⟨seed, rfl, rfl⟩ := Option.map_eq_some_iff.mp hSecret
    rw [List.length_append, hSize] at hLength
    have hSeed : seed.length = 32 := by omega
    rw [List.take_left' hSeed] at hDerived
    exact ⟨seed, rfl, hSeed, hDerived⟩
  · rintro ⟨seed, rfl, hSeed, rfl⟩
    have hSize := Edwards.length_publicKey seed
    refine ⟨seed ++ Edwards.publicKey seed, rfl, hSize, ?_, ?_, ?_, ?_⟩
    · rw [List.length_append, hSeed, hSize]
    · rw [List.drop_left' hSeed]
    · rw [List.take_left' hSeed]
    · rw [List.take_left' hSeed]

end KeyBody
end SshKeys
