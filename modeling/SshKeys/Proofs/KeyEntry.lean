import SshKeys.Key.Private
import SshKeys.Proofs.Modular
import SshKeys.Proofs.Reading
/-!
# Reading and writing private key entries

An entry is read exactly if its fields spell numbers that pass the checks of their class; such
numbers belong together, and writing them gives an entry that reads as the same key.
-/
namespace SshKeys

namespace NistCurve

theorem ofKeyType?_keyType (c : NistCurve) : ofKeyType? c.keyType = some c := by
  cases c <;> decide

theorem ofKeyType?_eq_some_iff {s : String} {c : NistCurve} :
    ofKeyType? s = some c ↔ s = c.keyType := by
  constructor
  · intro h
    have hFound := List.find?_some h
    exact (beq_iff_eq.mp hFound).symm
  · rintro rfl
    exact ofKeyType?_keyType c

theorem pointSize_eq (c : NistCurve) : c.pointSize = 1 + 2 * c.curve.width := by
  cases c <;> decide +kernel

end NistCurve

namespace KeyClass

theorem ofIdentifier?_eq_some_iff {s : String} {c : KeyClass} :
    ofIdentifier? s = some c ↔ s ∈ c.identifiers := by
  constructor
  · intro h
    simpa using List.find?_some h
  · have hAll : ∀ t ∈ c.identifiers, ofIdentifier? t = some c := by cases c <;> decide
    exact hAll s

end KeyClass

namespace Curve

theorem length_uncompressed (c : Curve) (q : Point) :
    (c.uncompressed q).length = 1 + 2 * c.width := by
  simp only [uncompressed, List.length_cons, List.length_append, Bytes.length_ofNat]
  omega

theorem lt_of_lt_p {c : Curve} {n : Nat} (h : n < c.p) : n < 256 ^ c.width := by
  rw [TwosComplement.pow_256, width, Bytes.byteLength]
  calc
    n < 2 ^ Bytes.bitLength c.p := h.trans (Bytes.bitLength_le.mp le_rfl)
    _ ≤ 2 ^ (8 * ((Bytes.bitLength c.p + 7) / 8)) := Nat.pow_le_pow_right (by decide) (by omega)

/-- The uncompressed writing of a point on the curve is the only one that reads as the point. -/
theorem readUncompressed?_eq_some_iff {c : Curve} {bs : Bytes} {q : Point} :
    c.readUncompressed? bs = some q ↔ c.contains q ∧ bs = c.uncompressed q := by
  constructor
  · intro h
    unfold readUncompressed? at h
    split at h
    · rename_i rest
      rw [Option.ite_none_right_eq_some, Option.ite_none_right_eq_some] at h
      obtain ⟨hLength, hOn, hPoint⟩ := h
      cases hPoint
      have hFirst : (rest.take c.width).length = c.width := by
        rw [List.length_take]
        omega
      have hSecond : (rest.drop c.width).length = c.width := by
        rw [List.length_drop]
        omega
      have hx := Bytes.ofNat_toNat (rest.take c.width)
      have hy := Bytes.ofNat_toNat (rest.drop c.width)
      rw [hFirst] at hx
      rw [hSecond] at hy
      refine ⟨hOn, ?_⟩
      rw [uncompressed, hx, hy, List.take_append_drop]
    · cases h
  · rintro ⟨hOn, rfl⟩
    have hRange : q.x < c.p ∧ q.y < c.p := by
      simp only [contains, Bool.and_eq_true, decide_eq_true_eq] at hOn
      exact hOn.1
    have hLength : (Bytes.ofNat c.width q.x).length = c.width := Bytes.length_ofNat _ _
    rw [uncompressed, readUncompressed?]
    rw [if_pos (by simp only [List.length_append, Bytes.length_ofNat]; omega)]
    simp only [List.take_left' hLength, List.drop_left' hLength,
      Bytes.toNat_ofNat_of_lt (lt_of_lt_p hRange.1), Bytes.toNat_ofNat_of_lt (lt_of_lt_p hRange.2)]
    exact if_pos hOn

end Curve

namespace KeyBody

/-- The private numbers of a key are there and belong to its public ones. -/
def Consistent : KeyBody → Prop
  | .rsa k => ∃ s, k.secret = some s ∧ 1 < s.p ∧ 1 < s.q ∧ 0 < s.d ∧ s.p * s.q = k.n ∧
      2 ^ 1023 ≤ k.n
  | .dsa k => ∃ x, k.x = some x ∧ (2 ^ 159 ≤ k.q ∧ k.q < 2 ^ 160) ∧ 2 ^ 1023 ≤ k.p ∧
      (1 < k.g ∧ k.g < k.p) ∧ (1 < k.y ∧ k.y < k.p) ∧ (0 < x ∧ x < k.q) ∧
      k.g ^ x.toNat % k.p = k.y
  | .ecdsa k => ∃ scalar, k.scalar = some scalar ∧ (0 < scalar ∧ scalar < 2 ^ k.curve.bits) ∧
      k.curve.curve.baseMultiple? scalar = some k.point
  | .ed25519 k => ∃ secret, k.secret = some secret ∧ secret.length = 64 ∧
      k.publicKey.length = 32 ∧ secret.drop 32 = k.publicKey ∧
      Edwards.publicKey (secret.take 32) = k.publicKey

/-- The numbers of a key pass the checks that the reader of entries makes for its class. -/
def Accepted : KeyBody → Prop
  | .rsa k => ∃ s, k.secret = some s ∧ ofRsaEntry k.n k.e s.d s.iqmp s.p s.q = .ok (.rsa k)
  | .dsa k => ∃ x, k.x = some x ∧ ofDsaEntry k.p k.q k.g k.y x = .ok (.dsa k)
  | .ecdsa k => ∃ scalar : Nat, k.scalar = some scalar ∧ k.curve.curve.contains k.point ∧
      ofEcdsaEntry k.curve k.point scalar = .ok (.ecdsa k)
  | .ed25519 k => ∃ secret, k.secret = some secret ∧ k.publicKey.length = 32 ∧
      ofEd25519Entry k.publicKey secret = .ok (.ed25519 k)

/-- The type names that may open an entry of the key. -/
def tags : KeyBody → List String
  | .rsa _ => KeyClass.rsa.identifiers
  | body => [body.name]

/-- Whether string fields spell the numbers of a key; integers may have any writing. -/
def SpelledBy : KeyBody → List Bytes → Prop
  | .rsa k, fields => ∃ s, k.secret = some s ∧
      fields.map TwosComplement.decode = [(k.n : Int), k.e, s.d, s.iqmp, s.p, s.q]
  | .dsa k, fields => ∃ x, k.x = some x ∧
      fields.map TwosComplement.decode = [k.p, k.q, k.g, k.y, x]
  | .ecdsa k, fields => ∃ scalar : Nat, k.scalar = some scalar ∧
      ∃ number, TwosComplement.decode number = scalar ∧
        fields = [Utf8.encode k.curve.name, k.pointBytes, number]
  | .ed25519 k, fields => ∃ secret, k.secret = some secret ∧ fields = [k.publicKey, secret]

theorem checkRsaSize_eq_ok_iff {n : Int} {u : Unit} :
    checkRsaSize n = .ok u ↔ 2 ^ 1023 ≤ n.natAbs := by
  rw [← Bytes.lt_bitLength, checkRsaSize]
  split
  · rename_i hSmall
    exact ⟨nofun, fun hLarge => absurd hSmall (Nat.not_lt.mpr hLarge)⟩
  · rename_i hLarge
    exact ⟨fun _ => Nat.le_of_not_lt hLarge, fun _ => rfl⟩

theorem checkDsa_eq_ok_iff {p q g y : Int} {u : Unit} :
    checkDsa p q g y = .ok u ↔ (2 ^ 159 ≤ q.natAbs ∧ q.natAbs < 2 ^ 160) ∧ 2 ^ 1023 ≤ p.natAbs ∧
      (1 < g ∧ g < p) ∧ 1 < y ∧ y < p := by
  rw [← Bytes.lt_bitLength, ← Bytes.bitLength_le, ← Bytes.lt_bitLength]
  simp only [checkDsa, Fallible.throwIf_eq_ok_iff, Fallible.elseThrow_eq_ok_iff]
  simp only [TwosComplement.bitLength, minModulusBits]
  constructor
  · rintro ⟨hSubgroup, hModulus, ⟨hGenerator, hBelow, hPublic⟩, -⟩
    exact ⟨by omega, by omega, ⟨hGenerator, hBelow⟩, hPublic⟩
  · rintro ⟨hSubgroup, hModulus, ⟨hGenerator, hBelow⟩, hPublic⟩
    exact ⟨by omega, by omega, ⟨hGenerator, hBelow, hPublic⟩, rfl⟩

theorem ofRsaEntry_sound {n e d iqmp p q : Int} {body : KeyBody}
    (h : ofRsaEntry n e d iqmp p q = .ok body) :
    ∃ k s, body = .rsa k ∧ k.secret = some s ∧
      [n, e, d, iqmp, p, q] = [(k.n : Int), k.e, s.d, s.iqmp, s.p, s.q] ∧ Consistent (.rsa k) := by
  simp only [ofRsaEntry, Fallible.bind_eq_ok_iff, checkRsaSize_eq_ok_iff,
    Fallible.throwIf_eq_ok_iff, Fallible.throwUnless_eq_ok_iff, Fallible.pure_eq_ok_iff] at h
  obtain ⟨_, hSize, hPrimes, hProduct, -, hExponent, -, hInverse, -, rfl⟩ := h
  rw [not_not] at hProduct
  have hPositive : 0 < n := hProduct ▸ Int.mul_pos (by omega) (by omega)
  refine ⟨_, _, rfl, rfl, ?_, _, rfl, ?_⟩
  · simp only [RsaNumbers.toKey, List.cons.injEq, and_true]
    omega
  · simp only [RsaNumbers.toKey]
    refine ⟨by omega, by omega, by omega, ?_, by omega⟩
    rw [← Int.toNat_mul (by omega) (by omega), hProduct]

theorem ofDsaEntry_sound {p q g y x : Int} {body : KeyBody} (h : ofDsaEntry p q g y x = .ok body) :
    body = .dsa ⟨p, q, g, y, some x⟩ ∧ body.Consistent := by
  simp only [ofDsaEntry, Fallible.bind_eq_ok_iff, checkDsa_eq_ok_iff, Fallible.throwIf_eq_ok_iff,
    Fallible.throwUnless_eq_ok_iff, Fallible.pure_eq_ok_iff] at h
  obtain ⟨_, ⟨hSubgroup, hModulus, hGenerator, hPublic⟩, hPrivate, hDerived, -, rfl⟩ := h
  have hSubgroupPositive : 2 ^ 159 ≤ q ∧ q < 2 ^ 160 := by omega
  have hModulusPositive : 2 ^ 1023 ≤ p := by omega
  refine ⟨rfl, x, rfl, hSubgroupPositive, hModulusPositive, hGenerator, hPublic, hPrivate, ?_⟩
  have hg : ((g.toNat : Nat) : Int) = g := Int.toNat_of_nonneg (by omega)
  have hp : ((p.toNat : Nat) : Int) = p := Int.toNat_of_nonneg (by omega)
  rw [not_not, Modular.power_eq, Int.ofNat_eq_natCast] at hDerived
  push_cast at hDerived
  rwa [hg, hp] at hDerived

theorem ofEcdsaEntry_sound {curve : NistCurve} {point : Point} {scalar : Int} {body : KeyBody}
    (h : ofEcdsaEntry curve point scalar = .ok body) :
    ∃ m : Nat, scalar = m ∧ body = .ecdsa ⟨curve, point, some m⟩ ∧ body.Consistent := by
  rw [ofEcdsaEntry, Fallible.throwIf_eq_ok_iff] at h
  obtain ⟨hRange, h⟩ := h
  rw [not_or, Nat.not_lt, TwosComplement.bitLength, Bytes.bitLength_le] at hRange
  split at h
  · cases h
  · rename_i derived hDerived
    rw [Fallible.throwIf_eq_ok_iff, not_not, Fallible.pure_eq_ok_iff] at h
    obtain ⟨rfl, rfl⟩ := h
    have hPositive : 0 < scalar.toNat := by omega
    have hBelow : scalar.toNat < 2 ^ curve.bits := by omega
    exact ⟨scalar.toNat, by omega, rfl, scalar.toNat, rfl, ⟨hPositive, hBelow⟩, hDerived⟩

theorem ofEd25519Entry_sound {publicKey secret : Bytes} {body : KeyBody}
    (hSize : publicKey.length = 32) (h : ofEd25519Entry publicKey secret = .ok body) :
    ∃ k : Ed25519Key, body = .ed25519 k ∧ k.publicKey = publicKey ∧ k.secret = some secret ∧
      body.Consistent := by
  simp only [ofEd25519Entry, Fallible.throwIf_eq_ok_iff, Fallible.pure_eq_ok_iff, not_not] at h
  obtain ⟨hLength, hEmbedded, hDerived, rfl⟩ := h
  have hSecret : (⟨publicKey, some (secret.take 32)⟩ : Ed25519Key).secret = some secret := by
    rw [Ed25519Key.secret, Option.map_some, ← hEmbedded, List.take_append_drop]
  exact ⟨_, rfl, rfl, hSecret, secret, hSecret, hLength, hSize, hEmbedded, hDerived⟩

theorem Accepted.consistent {body : KeyBody} (h : body.Accepted) : body.Consistent := by
  cases body with
  | rsa k =>
    obtain ⟨s, -, hChecks⟩ := h
    obtain ⟨_, _, hBody, -, -, hConsistent⟩ := ofRsaEntry_sound hChecks
    cases hBody
    exact hConsistent
  | dsa k =>
    obtain ⟨x, -, hChecks⟩ := h
    exact (ofDsaEntry_sound hChecks).2
  | ecdsa k =>
    obtain ⟨scalar, -, -, hChecks⟩ := h
    obtain ⟨_, -, -, hConsistent⟩ := ofEcdsaEntry_sound hChecks
    exact hConsistent
  | ed25519 k =>
    obtain ⟨secret, -, hSize, hChecks⟩ := h
    obtain ⟨_, -, -, -, hConsistent⟩ := ofEd25519Entry_sound hSize hChecks
    exact hConsistent

theorem Consistent.canSign {body : KeyBody} (h : body.Consistent) : body.canSign = true := by
  cases body with
  | rsa k =>
    obtain ⟨s, hSecret, -⟩ := h
    rw [KeyBody.canSign, hSecret]
    rfl
  | dsa k =>
    obtain ⟨x, hSecret, -⟩ := h
    rw [KeyBody.canSign, hSecret]
    rfl
  | ecdsa k =>
    obtain ⟨scalar, hSecret, -⟩ := h
    rw [KeyBody.canSign, hSecret]
    rfl
  | ed25519 k =>
    obtain ⟨secret, hSecret, -⟩ := h
    rw [Ed25519Key.secret, Option.map_eq_some_iff] at hSecret
    obtain ⟨seed, hSeed, -⟩ := hSecret
    rw [KeyBody.canSign, hSeed]
    rfl

theorem readPoint_eq_ok_iff {keyType : String} {c : NistCurve} {p p' : Packet} {q : Point} :
    readPoint keyType c p = .ok q p' ↔ c.curve.contains q ∧
      Packet.Takes p.limit (Utf8.encode c.name) ∧ Packet.Takes p.limit (c.curve.uncompressed q) ∧
      p.Advance (Wire.text c.name ++ Wire.string (c.curve.uncompressed q)) p' := by
  simp only [readPoint, Stateful.bind_eq_ok_iff, Stateful.throwIf_eq_ok_iff,
    Packet.readText_eq_ok_iff, Packet.readString_eq_ok_iff, not_not]
  constructor
  · rintro ⟨_, p₁, ⟨hName, hNameAt⟩, rfl, bs, p₂, ⟨hTakes, hAt⟩, -, -, h⟩
    cases hPoint : c.curve.readUncompressed? bs with
    | none => simp only [hPoint, Stateful.throw_eq_ok_iff] at h
    | some point =>
      simp only [hPoint, Stateful.pure_eq_ok_iff] at h
      obtain ⟨rfl, rfl⟩ := h
      obtain ⟨hOn, rfl⟩ := Curve.readUncompressed?_eq_some_iff.mp hPoint
      rw [hNameAt.limit] at hTakes
      exact ⟨hOn, hName, hTakes, hNameAt.trans hAt⟩
  · rintro ⟨hOn, hName, hTakes, h⟩
    obtain ⟨p₁, hNameAt, hAt⟩ := Packet.advance_append_iff.mp h
    rw [← hNameAt.limit] at hTakes
    refine ⟨_, p₁, ⟨hName, hNameAt⟩, rfl, _, p', ⟨hTakes, hAt⟩, rfl, ?_, ?_⟩
    · rw [Curve.length_uncompressed, NistCurve.pointSize_eq]
    · rw [Curve.readUncompressed?_eq_some_iff.mpr ⟨hOn, rfl⟩]
      rfl

theorem readEd25519Bytes_eq_ok_iff {p p' : Packet} {bs : Bytes} :
    readEd25519Bytes p = .ok bs p' ↔
      bs.length = 32 ∧ Packet.Takes p.limit bs ∧ p.Advance (Wire.string bs) p' := by
  simp only [readEd25519Bytes, Stateful.bind_eq_ok_iff, Stateful.throwIf_eq_ok_iff,
    Stateful.pure_eq_ok_iff, Packet.readString_eq_ok_iff, not_not]
  constructor
  · rintro ⟨_, _, ⟨hTakes, hAt⟩, hSize, rfl, rfl⟩
    exact ⟨hSize, hTakes, hAt⟩
  · rintro ⟨hSize, hTakes, hAt⟩
    exact ⟨bs, p', ⟨hTakes, hAt⟩, hSize, rfl, rfl⟩

variable {tag : String} {body : KeyBody} {p p' : Packet}

theorem readPrivateFields_sound {c : KeyClass} (hTag : tag ∈ c.identifiers)
    (h : readPrivateFields tag c p = .ok body p') :
    body.Accepted ∧ tag ∈ body.tags ∧ ∃ fields, body.SpelledBy fields ∧ p.FieldsAt fields p' := by
  cases c with
  | rsa =>
    simp only [readPrivateFields, Stateful.bind_eq_ok_iff, Packet.readInteger_eq_ok_iff,
      Packet.lift_eq_ok_iff] at h
    obtain ⟨_, p₁, ⟨n, rfl, hn⟩, _, p₂, ⟨e, rfl, he⟩, _, p₃, ⟨d, rfl, hd⟩, _, p₄, ⟨iqmp, rfl, hi⟩,
      _, p₅, ⟨r, rfl, hr⟩, _, p₆, ⟨q, rfl, hq⟩, hChecks, rfl⟩ := h
    obtain ⟨k, s, rfl, hSecret, hNumbers, -⟩ := ofRsaEntry_sound hChecks
    refine ⟨⟨s, hSecret, ?_⟩, hTag, [n, e, d, iqmp, r, q], ⟨s, hSecret, hNumbers⟩, ?_⟩
    · simp only [List.cons.injEq] at hNumbers
      obtain ⟨hN, hE, hD, hI, hP, hQ, -⟩ := hNumbers
      rwa [hN, hE, hD, hI, hP, hQ] at hChecks
    · simp only [Packet.fieldsAt_cons_iff, Packet.fieldsAt_nil_iff]
      exact ⟨p₁, hn, p₂, he, p₃, hd, p₄, hi, p₅, hr, p₆, hq, rfl⟩
  | dsa =>
    simp only [readPrivateFields, Stateful.bind_eq_ok_iff, Packet.readInteger_eq_ok_iff,
      Packet.lift_eq_ok_iff] at h
    obtain ⟨_, p₁, ⟨r, rfl, hr⟩, _, p₂, ⟨q, rfl, hq⟩, _, p₃, ⟨g, rfl, hg⟩, _, p₄, ⟨y, rfl, hy⟩,
      _, p₅, ⟨x, rfl, hx⟩, hChecks, rfl⟩ := h
    obtain ⟨rfl, -⟩ := ofDsaEntry_sound hChecks
    refine ⟨⟨_, rfl, hChecks⟩, hTag, [r, q, g, y, x], ⟨_, rfl, rfl⟩, ?_⟩
    simp only [Packet.fieldsAt_cons_iff, Packet.fieldsAt_nil_iff]
    exact ⟨p₁, hr, p₂, hq, p₃, hg, p₄, hy, p₅, hx, rfl⟩
  | ecdsa =>
    rw [readPrivateFields] at h
    cases hCurve : NistCurve.ofKeyType? tag with
    | none => simp only [hCurve, Stateful.throw_eq_ok_iff] at h
    | some curve =>
      simp only [hCurve, Stateful.bind_eq_ok_iff, Packet.readInteger_eq_ok_iff,
        readPoint_eq_ok_iff, Packet.lift_eq_ok_iff] at h
      obtain ⟨q, p₁, ⟨hOn, hName, hPoint, hPointAt⟩, _, p₂, ⟨x, rfl, hx⟩, hChecks, rfl⟩ := h
      obtain ⟨m, hScalar, rfl, -⟩ := ofEcdsaEntry_sound hChecks
      rw [hScalar] at hChecks
      obtain ⟨p₀, hNameAt, hAt⟩ := Packet.advance_append_iff.mp hPointAt
      rw [← hNameAt.limit] at hPoint
      have hKeyType : tag = curve.keyType := NistCurve.ofKeyType?_eq_some_iff.mp hCurve
      refine ⟨⟨m, rfl, hOn, hChecks⟩, List.mem_singleton.mpr hKeyType,
        [Utf8.encode curve.name, curve.curve.uncompressed q, x], ⟨m, rfl, x, hScalar, rfl⟩, ?_⟩
      simp only [Packet.fieldsAt_cons_iff, Packet.fieldsAt_nil_iff]
      exact ⟨p₀, ⟨hName, hNameAt⟩, p₁, ⟨hPoint, hAt⟩, p₂, hx, rfl⟩
  | ed25519 =>
    simp only [readPrivateFields, Stateful.bind_eq_ok_iff, Packet.readString_eq_ok_iff,
      readEd25519Bytes_eq_ok_iff, Packet.lift_eq_ok_iff] at h
    obtain ⟨publicKey, p₁, ⟨hSize, hPublic⟩, secret, p₂, hSecretAt, hChecks, rfl⟩ := h
    obtain ⟨k, rfl, rfl, hSecret, -⟩ := ofEd25519Entry_sound hSize hChecks
    refine ⟨⟨secret, hSecret, hSize, hChecks⟩, hTag, [k.publicKey, secret],
      ⟨secret, hSecret, rfl⟩, ?_⟩
    simp only [Packet.fieldsAt_cons_iff, Packet.fieldsAt_nil_iff]
    exact ⟨p₁, hPublic, p₂, hSecretAt, rfl⟩

theorem readPrivateFields_complete {fields : List Bytes} (hAccepted : body.Accepted)
    (hTag : tag ∈ body.tags) (hSpelled : body.SpelledBy fields) (hAt : p.FieldsAt fields p') :
    readPrivateFields tag body.keyClass p = .ok body p' := by
  cases body with
  | rsa k =>
    obtain ⟨s, hSecret, hChecks⟩ := hAccepted
    obtain ⟨s', hSecret', hNumbers⟩ := hSpelled
    cases hSecret.symm.trans hSecret'
    simp only [List.map_eq_cons_iff, List.map_eq_nil_iff] at hNumbers
    obtain ⟨n, _, rfl, hN, e, _, rfl, hE, d, _, rfl, hD, iqmp, _, rfl, hI, r, _, rfl, hP, q, _, rfl,
      hQ, rfl⟩ := hNumbers
    simp only [Packet.fieldsAt_cons_iff, Packet.fieldsAt_nil_iff] at hAt
    obtain ⟨p₁, hn, p₂, he, p₃, hd, p₄, hi, p₅, hr, p₆, hq, rfl⟩ := hAt
    simp only [KeyBody.keyClass, readPrivateFields, Stateful.bind_eq_ok_iff,
      Packet.readInteger_eq_ok_iff, Packet.lift_eq_ok_iff]
    exact ⟨_, p₁, ⟨n, hN, hn⟩, _, p₂, ⟨e, hE, he⟩, _, p₃, ⟨d, hD, hd⟩, _, p₄, ⟨iqmp, hI, hi⟩, _, p₅,
      ⟨r, hP, hr⟩, _, p₆, ⟨q, hQ, hq⟩, hChecks, rfl⟩
  | dsa k =>
    obtain ⟨x, hSecret, hChecks⟩ := hAccepted
    obtain ⟨x', hSecret', hNumbers⟩ := hSpelled
    cases hSecret.symm.trans hSecret'
    simp only [List.map_eq_cons_iff, List.map_eq_nil_iff] at hNumbers
    obtain ⟨r, _, rfl, hP, q, _, rfl, hQ, g, _, rfl, hG, y, _, rfl, hY, w, _, rfl, hX, rfl⟩ := hNumbers
    simp only [Packet.fieldsAt_cons_iff, Packet.fieldsAt_nil_iff] at hAt
    obtain ⟨p₁, hr, p₂, hq, p₃, hg, p₄, hy, p₅, hx, rfl⟩ := hAt
    simp only [KeyBody.keyClass, readPrivateFields, Stateful.bind_eq_ok_iff,
      Packet.readInteger_eq_ok_iff, Packet.lift_eq_ok_iff]
    exact ⟨_, p₁, ⟨r, hP, hr⟩, _, p₂, ⟨q, hQ, hq⟩, _, p₃, ⟨g, hG, hg⟩, _, p₄, ⟨y, hY, hy⟩, _, p₅,
      ⟨w, hX, hx⟩, hChecks, rfl⟩
  | ecdsa k =>
    obtain ⟨m, hSecret, hOn, hChecks⟩ := hAccepted
    obtain ⟨m', hSecret', number, hNumber, rfl⟩ := hSpelled
    cases hSecret.symm.trans hSecret'
    simp only [Packet.fieldsAt_cons_iff, Packet.fieldsAt_nil_iff] at hAt
    obtain ⟨p₀, ⟨hName, hNameAt⟩, p₁, ⟨hPoint, hPointAt⟩, p₂, hx, rfl⟩ := hAt
    rw [hNameAt.limit] at hPoint
    have hKeyType : tag = k.curve.keyType := List.mem_singleton.mp hTag
    rw [KeyBody.keyClass, readPrivateFields, NistCurve.ofKeyType?_eq_some_iff.mpr hKeyType]
    simp only [Stateful.bind_eq_ok_iff, Packet.readInteger_eq_ok_iff, readPoint_eq_ok_iff,
      Packet.lift_eq_ok_iff]
    exact ⟨_, p₁, ⟨hOn, hName, hPoint, hNameAt.trans hPointAt⟩, _, p₂, ⟨number, hNumber, hx⟩,
      hChecks, rfl⟩
  | ed25519 k =>
    obtain ⟨secret, hSecret, hSize, hChecks⟩ := hAccepted
    obtain ⟨secret', hSecret', rfl⟩ := hSpelled
    cases hSecret.symm.trans hSecret'
    simp only [Packet.fieldsAt_cons_iff, Packet.fieldsAt_nil_iff] at hAt
    obtain ⟨p₁, hPublic, p₂, hSecretAt, rfl⟩ := hAt
    simp only [KeyBody.keyClass, readPrivateFields, Stateful.bind_eq_ok_iff,
      Packet.readString_eq_ok_iff, readEd25519Bytes_eq_ok_iff, Packet.lift_eq_ok_iff]
    exact ⟨_, p₁, ⟨hSize, hPublic⟩, _, p₂, hSecretAt, hChecks, rfl⟩

theorem mem_identifiers_of_mem_tags (h : tag ∈ body.tags) : tag ∈ body.keyClass.identifiers := by
  cases body with
  | rsa _ => exact h
  | dsa _ => exact h
  | ed25519 _ => exact h
  | ecdsa k =>
    obtain rfl : tag = k.curve.keyType := List.mem_singleton.mp h
    have hMember : k.curve ∈ NistCurve.all := by cases k.curve <;> decide
    exact List.mem_map_of_mem hMember

/-- An entry opens with a type name of its key, and its fields spell numbers that pass the checks. -/
theorem readEntry_eq_ok_iff : readEntry p = .ok body p' ↔ body.Accepted ∧ ∃ tag ∈ body.tags,
    ∃ fields, body.SpelledBy fields ∧ p.FieldsAt (Utf8.encode tag :: fields) p' := by
  simp only [readEntry, Stateful.bind_eq_ok_iff, Packet.readText_eq_ok_iff,
    Packet.fieldsAt_cons_iff]
  constructor
  · rintro ⟨tag, p₁, hTagAt, h⟩
    cases hClass : KeyClass.ofIdentifier? tag with
    | none => simp only [hClass, Stateful.throw_eq_ok_iff] at h
    | some c =>
      simp only [hClass] at h
      obtain ⟨hAccepted, hTag, fields, hSpelled, hAt⟩ :=
        readPrivateFields_sound (KeyClass.ofIdentifier?_eq_some_iff.mp hClass) h
      exact ⟨hAccepted, tag, hTag, fields, hSpelled, p₁, hTagAt, hAt⟩
  · rintro ⟨hAccepted, tag, hTag, fields, hSpelled, p₁, hTagAt, hAt⟩
    refine ⟨tag, p₁, hTagAt, ?_⟩
    rw [KeyClass.ofIdentifier?_eq_some_iff.mpr (mem_identifiers_of_mem_tags hTag)]
    exact readPrivateFields_complete hAccepted hTag hSpelled hAt

theorem Accepted.privateFields (h : body.Accepted) :
    ∃ fields, body.privateFields? = some fields ∧ body.SpelledBy fields := by
  cases body with
  | rsa k =>
    obtain ⟨s, hSecret, -⟩ := h
    refine ⟨_, by rw [privateFields?, hSecret]; rfl, s, hSecret, ?_⟩
    simp
  | dsa k =>
    obtain ⟨x, hSecret, -⟩ := h
    refine ⟨_, by rw [privateFields?, hSecret]; rfl, x, hSecret, ?_⟩
    simp
  | ecdsa k =>
    obtain ⟨scalar, hSecret, -⟩ := h
    exact ⟨_, by rw [privateFields?, hSecret]; rfl, scalar, hSecret, _,
      Wire.decode_integerBytes scalar, rfl⟩
  | ed25519 k =>
    obtain ⟨secret, hSecret, -⟩ := h
    exact ⟨_, by rw [privateFields?, hSecret]; rfl, secret, hSecret, rfl⟩

theorem length_integerBytes_le_of_map_decode {numbers : List Int} {fields : List Bytes}
    (h : fields.map TwosComplement.decode = numbers) :
    List.Forall₂ (·.length ≤ ·.length) (numbers.map Wire.integerBytes) fields := by
  rw [← h, List.map_map, List.forall₂_map_left_iff, List.forall₂_same]
  exact fun bs _ => Wire.length_integerBytes_le bs

/-- The fields that are written are the shortest ones that spell the key. -/
theorem SpelledBy.length_le {fields written : List Bytes} (h : body.SpelledBy fields)
    (hWritten : body.privateFields? = some written) :
    List.Forall₂ (·.length ≤ ·.length) written fields := by
  cases body with
  | rsa k =>
    obtain ⟨s, hSecret, hNumbers⟩ := h
    rw [privateFields?, hSecret] at hWritten
    cases hWritten
    exact length_integerBytes_le_of_map_decode hNumbers
  | dsa k =>
    obtain ⟨x, hSecret, hNumbers⟩ := h
    rw [privateFields?, hSecret] at hWritten
    cases hWritten
    exact length_integerBytes_le_of_map_decode hNumbers
  | ecdsa k =>
    obtain ⟨scalar, hSecret, number, hNumber, rfl⟩ := h
    rw [privateFields?, hSecret] at hWritten
    cases hWritten
    refine .cons le_rfl (.cons le_rfl (.cons ?_ .nil))
    rw [← hNumber]
    exact Wire.length_integerBytes_le number
  | ed25519 k =>
    obtain ⟨secret, hSecret, rfl⟩ := h
    rw [privateFields?, hSecret] at hWritten
    cases hWritten
    exact .cons le_rfl (.cons le_rfl .nil)

theorem name_mem_tags (body : KeyBody) : body.name ∈ body.tags := by
  cases body with
  | rsa _ => exact List.mem_cons_self ..
  | dsa _ => exact List.mem_cons_self ..
  | ecdsa _ => exact List.mem_cons_self ..
  | ed25519 _ => exact List.mem_cons_self ..

theorem ofIdentifier?_name (body : KeyBody) : KeyClass.ofIdentifier? body.name = some body.keyClass :=
  KeyClass.ofIdentifier?_eq_some_iff.mpr (mem_identifiers_of_mem_tags body.name_mem_tags)

/-- An entry with the name of a key is read with the fields of its class. -/
theorem readEntry_of_name {p₁ : Packet} (hTag : Packet.readText p = .ok body.name p₁) :
    readEntry p = readPrivateFields body.name body.keyClass p₁ := by
  rw [readEntry, Stateful.bind_ok hTag, ofIdentifier?_name]

theorem length_name_le (h : tag ∈ body.tags) :
    (Utf8.encode body.name).length ≤ (Utf8.encode tag).length := by
  cases body with
  | rsa _ =>
    have hAll : ∀ t ∈ KeyClass.rsa.identifiers,
        (Utf8.encode "ssh-rsa").length ≤ (Utf8.encode t).length := by decide
    exact hAll tag h
  | dsa _ => rw [List.mem_singleton.mp h]
  | ecdsa _ => rw [List.mem_singleton.mp h]
  | ed25519 _ => rw [List.mem_singleton.mp h]

theorem takes_written {fields written : List Bytes} {limit limit' : Int} (hTag : tag ∈ body.tags)
    (hSpelled : body.SpelledBy fields) (hWritten : body.privateFields? = some written)
    (hTakes : ∀ c ∈ Utf8.encode tag :: fields, Packet.Takes limit c) (hLimit : limit ≤ limit') :
    ∀ c ∈ Utf8.encode body.name :: written, Packet.Takes limit' c := by
  have hShorter : List.Forall₂ (·.length ≤ ·.length) (Utf8.encode body.name :: written)
      (Utf8.encode tag :: fields) :=
    .cons (length_name_le hTag) (hSpelled.length_le hWritten)
  exact Packet.takes_of_forall₂ hShorter hTakes hLimit

theorem accepted_p256 {scalar : Nat} (hRange : 0 < scalar ∧ scalar < 2 ^ NistCurve.p256.bits)
    (hDerived : Curve.secp256r1.baseMultiple? scalar = some Curve.secp256r1.base) :
    (ecdsa ⟨.p256, Curve.secp256r1.base, some scalar⟩).Accepted := by
  have hBits : TwosComplement.bitLength (scalar : Int) ≤ NistCurve.p256.bits :=
    Bytes.bitLength_le.mpr hRange.2
  have hPoint : NistCurve.p256.curve.baseMultiple? ((scalar : Nat) : Int).toNat =
      some Curve.secp256r1.base := hDerived
  have hOn : NistCurve.p256.curve.contains Curve.secp256r1.base = true := by decide +kernel
  refine ⟨scalar, rfl, hOn, ?_⟩
  rw [ofEcdsaEntry, Fallible.throwIf_eq_ok_iff, hPoint]
  refine ⟨by simp only; omega, ?_⟩
  exact if_neg (not_not_intro rfl)

theorem accepted_p256_one : (ecdsa ⟨.p256, Curve.secp256r1.base, some 1⟩).Accepted :=
  accepted_p256 (by decide +kernel) (by decide +kernel)

end KeyBody

namespace Key

/-- What is written for an accepted key reads as this key, if no field is too long for the reader. -/
theorem readEntry_entry {k : Key} {fields : List Bytes} {q : Packet} {rest : Bytes}
    (hAccepted : k.body.Accepted) (hFields : k.body.privateFields? = some fields)
    (hTakes : ∀ c ∈ Utf8.encode k.name :: fields, Packet.Takes q.limit c)
    (hPending : q.pending = (Utf8.encode k.name :: fields).flatMap Wire.string ++ rest) :
    readEntry q =
      .ok { body := k.body } (q.past ((Utf8.encode k.name :: fields).flatMap Wire.string) rest) := by
  obtain ⟨written, hWritten, hSpelled⟩ := hAccepted.privateFields
  cases hFields.symm.trans hWritten
  have hRead := KeyBody.readEntry_eq_ok_iff.mpr ⟨hAccepted, k.name, KeyBody.name_mem_tags _, fields,
    hSpelled, hTakes, Packet.advance_past hPending⟩
  rw [readEntry, Stateful.bind_ok hRead]
  rfl

/-- A key that is read from an entry can sign and is consistent, the fields of the entry spell it,
and what is written for it reads as the same key, to its end and no further. -/
theorem readEntry_consistent {p p' : Packet} {k : Key} (h : readEntry p = .ok k p') :
    k.canSign = true ∧ k.body.Consistent ∧
    (∃ tag ∈ k.body.tags, ∃ fields, k.body.SpelledBy fields ∧
      p.FieldsAt (Utf8.encode tag :: fields) p') ∧
    ∃ fields, k.body.SpelledBy fields ∧
      let bytes := (Utf8.encode k.name :: fields).flatMap Wire.string
      k.entry = .ok bytes ∧ ∀ q rest, p.limit ≤ q.limit → q.pending = bytes ++ rest →
        readEntry q = .ok k (q.past bytes rest) := by
  simp only [readEntry, Stateful.bind_eq_ok_iff, Stateful.pure_eq_ok_iff] at h
  obtain ⟨body, _, hBody, rfl, rfl⟩ := h
  obtain ⟨hAccepted, tag, hTag, fields, hSpelled, hAt⟩ := KeyBody.readEntry_eq_ok_iff.mp hBody
  obtain ⟨written, hWritten, hWrittenSpelled⟩ := hAccepted.privateFields
  have hTakes : ∀ limit, p.limit ≤ limit →
      ∀ c ∈ Utf8.encode body.name :: written, Packet.Takes limit c := fun limit hLimit =>
    KeyBody.takes_written hTag hSpelled hWritten hAt.1 hLimit
  refine ⟨hAccepted.consistent.canSign, hAccepted.consistent, ⟨tag, hTag, fields, hSpelled, hAt⟩,
    written, hWrittenSpelled, ?_, ?_⟩
  · rw [entry, hWritten]
    exact Wire.strings_eq_ok_iff.mpr ⟨fun c hMember => (hTakes p.limit le_rfl c hMember).1, rfl⟩
  · intro q rest hLimit hPending
    exact readEntry_entry (k := { body }) hAccepted hWritten (hTakes q.limit hLimit) hPending

/-- The scalar one above the order of the base point has the base point for its own. -/
theorem readEntry_consistent_p256 : ∃ (p p' : Packet) (k : Key), readEntry p = .ok k p' ∧
    k.body = .ecdsa ⟨.p256, Curve.secp256r1.base, some (Curve.secp256r1.order + 1)⟩ ∧
    k.body.Consistent := by
  let scalar := Curve.secp256r1.order + 1
  let k : Key := { body := .ecdsa ⟨.p256, Curve.secp256r1.base, some scalar⟩ }
  let fields : List Bytes := [Utf8.encode "nistp256",
    Curve.secp256r1.uncompressed Curve.secp256r1.base, Wire.integerBytes scalar]
  have hTakes : ∀ c ∈ Utf8.encode k.name :: fields, Packet.Takes Wire.fieldLimit c := by
    decide +kernel
  have hRead := readEntry_entry (k := k)
    (q := Packet.ofBytes ((Utf8.encode k.name :: fields).flatMap Wire.string))
    (KeyBody.accepted_p256 (by decide +kernel) (by decide +kernel)) rfl hTakes
    (List.append_nil _).symm
  exact ⟨_, _, _, hRead, rfl, (readEntry_consistent hRead).2.1⟩

end Key
end SshKeys
