import SshKeys.Proofs.BlobCodec
import SshKeys.Proofs.CurvePoint
/-!
# The sizes of public keys

The checks of the reader come down to bounds on the numbers of a key, and any numbers within them
are accepted. Sizes are counted in bits, which a number has whatever its sign; a range rules out
negative numbers for all but the order of the DSA subgroup.
-/
namespace SshKeys

namespace KeyBody

variable {body : KeyBody}

/-- The bounds on the public numbers of a key. -/
def Sized : KeyBody → Prop
  | .rsa k => 2 ^ 1023 ≤ k.n ∧ (3 ≤ k.e ∧ k.e < k.n) ∧ k.e % 2 = 1
  | .dsa k => (2 ^ 159 ≤ k.q ∧ k.q < 2 ^ 160 ∨ -2 ^ 160 < k.q ∧ k.q ≤ -2 ^ 159) ∧ 2 ^ 1023 ≤ k.p ∧
      (1 < k.g ∧ k.g < k.p) ∧ 1 < k.y ∧ k.y < k.p
  | .ecdsa k => k.point.x < k.curve.curve.p ∧ k.point.y < k.curve.curve.p ∧
      (k.point.y : ZMod k.curve.curve.p) ^ 2 =
        k.point.x ^ 3 + k.curve.curve.a * k.point.x + k.curve.curve.b
  | .ed25519 k => k.publicKey.length = 32

theorem ofRsaNumbers_eq_ok_iff {n e : Nat} :
    ofRsaNumbers e n = .ok (.rsa ⟨n, e, none⟩) ↔ Sized (.rsa ⟨n, e, none⟩) := by
  simp only [ofRsaNumbers, Fallible.bind_eq_ok_iff, checkRsaSize_eq_ok_iff,
    Fallible.throwIf_eq_ok_iff, Fallible.throwUnless_eq_ok_iff, isRsaPublic, Bool.and_eq_true,
    decide_eq_true_eq, beq_iff_eq, Sized, Int.natAbs_natCast, Int.toNat_natCast]
  constructor
  · rintro ⟨-, hSize, -, ⟨⟨⟨-, hExponent⟩, hBelow⟩, hOdd⟩, -⟩
    exact ⟨hSize, ⟨hExponent, hBelow⟩, hOdd⟩
  · rintro ⟨hSize, ⟨hExponent, hBelow⟩, hOdd⟩
    exact ⟨(), hSize, by omega, ⟨⟨⟨by omega, hExponent⟩, hBelow⟩, hOdd⟩, rfl⟩

/-- The generator is positive and below the modulus, so the modulus is positive; nothing bounds the
order from below. -/
theorem ofDsaNumbers_eq_ok_iff {p q g y : Int} :
    ofDsaNumbers p q g y = .ok (.dsa ⟨p, q, g, y, none⟩) ↔ Sized (.dsa ⟨p, q, g, y, none⟩) := by
  simp only [ofDsaNumbers, Fallible.bind_eq_ok_iff, checkDsa_eq_ok_iff, Sized]
  constructor
  · rintro ⟨-, ⟨hOrder, hModulus, hGenerator, hPublic⟩, -⟩
    exact ⟨by omega, by omega, hGenerator, hPublic⟩
  · rintro ⟨hOrder, hModulus, hGenerator, hPublic⟩
    exact ⟨(), ⟨by omega, by omega, hGenerator, hPublic⟩, rfl⟩

theorem publicAccepted_iff : body.PublicAccepted ↔ body.canSign = false ∧ body.Sized := by
  cases body with
  | rsa k =>
    obtain ⟨n, e, _ | s⟩ := k
    · exact and_congr (by simp [canSign]) ofRsaNumbers_eq_ok_iff
    · simp [PublicAccepted, canSign]
  | dsa k =>
    obtain ⟨p, q, g, y, _ | x⟩ := k
    · exact and_congr (by simp [canSign]) ofDsaNumbers_eq_ok_iff
    · simp [PublicAccepted, canSign]
  | ecdsa k => exact and_congr (by simp [canSign]) Curve.contains_iff
  | ed25519 k => exact and_congr_left' (by simp [canSign])

/-- The mirror image of a DSA key: the order of its subgroup with the other sign. -/
def mirrored : KeyBody → KeyBody
  | .dsa k => .dsa { k with q := -k.q }
  | body => body

theorem canSign_mirrored (body : KeyBody) : body.mirrored.canSign = body.canSign := by
  cases body <;> rfl

theorem Sized.mirrored (h : body.Sized) : body.mirrored.Sized := by
  cases body with
  | rsa k => exact h
  | dsa k =>
    obtain ⟨hOrder, hRest⟩ := h
    refine ⟨?_, hRest⟩
    simp only
    omega
  | ecdsa k => exact h
  | ed25519 k => exact h

theorem Sized.takes_mirrored (h : body.Sized)
    (hTakes : ∀ c ∈ body.publicContents, Packet.Takes Wire.fieldLimit c) :
    ∀ c ∈ body.mirrored.publicContents, Packet.Takes Wire.fieldLimit c := by
  cases body with
  | rsa k => exact hTakes
  | dsa k =>
    obtain ⟨hOrder, -⟩ := h
    have hWritten : (Wire.integerBytes (-k.q)).length ≤ 21 :=
      TwosComplement.length_integerBytes_le_iff.mpr (by omega)
    have hTaken := Packet.takes_of_length_le (hWritten.trans (by decide))
    simp only [KeyBody.mirrored, publicContents, List.map_cons, List.map_nil, List.forall_mem_cons]
      at hTakes ⊢
    obtain ⟨hModulus, -, hRest⟩ := hTakes
    exact ⟨hModulus, hTaken, hRest⟩
  | ecdsa k => exact hTakes
  | ed25519 k => exact hTakes

end KeyBody

theorem NistCurve.width_curve (c : NistCurve) : c.curve.width = (c.bits + 7) / 8 := by
  have hSize := c.pointSize_eq
  rw [pointSize, width] at hSize
  omega

namespace Key

variable {blob : Bytes} {k : Key}

theorem sized_of_ofBlob (h : ofBlob blob = .ok k) : k.body.Sized :=
  (KeyBody.publicAccepted_iff.mp (ofBlob_eq_ok_iff.mp h).2.1).2

theorem ecdsa_of_ofBlob {e : EcdsaKey} (h : ofBlob blob = .ok k) (hBody : k.body = .ecdsa e) :
    blob = [Utf8.encode e.curve.keyType, Utf8.encode e.curve.name, e.pointBytes].flatMap
      Wire.string := by
  obtain ⟨-, -, fields, hSpelled, -, hBlob⟩ := ofBlob_eq_ok_iff.mp h
  rw [hBody] at hSpelled
  rw [hBlob, show fields = _ from hSpelled, Key.name, hBody]
  rfl

theorem ofBlob_mirrored (h : ofBlob blob = .ok k) :
    ofBlob k.body.mirrored.blob = .ok { body := k.body.mirrored } := by
  obtain ⟨-, hAccepted, fields, hSpelled, hTakes, -⟩ := ofBlob_eq_ok_iff.mp h
  obtain ⟨hPublic, hSized⟩ := KeyBody.publicAccepted_iff.mp hAccepted
  have hContents : ∀ c ∈ k.body.publicContents, Packet.Takes Wire.fieldLimit c :=
    Packet.takes_of_forall₂ hSpelled.length_le (List.forall_mem_cons.mp hTakes).2 le_rfl
  have hMirrored : k.body.mirrored.PublicAccepted :=
    KeyBody.publicAccepted_iff.mpr ⟨(KeyBody.canSign_mirrored _).trans hPublic, hSized.mirrored⟩
  refine ofBlob_eq_ok_iff.mpr ⟨rfl, hMirrored, k.body.mirrored.publicContents,
    KeyBody.publicSpelledBy_publicContents _, ?_, KeyBody.blob_eq _⟩
  rw [List.forall_mem_cons]
  exact ⟨KeyBody.takes_name _, hSized.takes_mirrored hContents⟩

/-- Every key that a blob gives is within the bounds of its class. The blob of an elliptic key has the
curve name of its type name and the coordinates of the point at full width. For the order of a DSA key
the bounds leave the sign open: with the other sign the same numbers are accepted as well. -/
theorem ofBlob_sized (h : ofBlob blob = .ok k) :
    k.body.Sized ∧
      (∀ e, k.body = .ecdsa e → ∃ x y : Bytes,
        blob = [Utf8.encode ("ecdsa-sha2-" ++ e.curve.name), Utf8.encode e.curve.name,
          4 :: (x ++ y)].flatMap Wire.string ∧
        x.length = (e.curve.bits + 7) / 8 ∧ y.length = (e.curve.bits + 7) / 8 ∧
        e.point = ⟨Bytes.toNat x, Bytes.toNat y⟩) ∧
      ofBlob k.body.mirrored.blob = .ok { body := k.body.mirrored } := by
  have hSized := sized_of_ofBlob h
  refine ⟨hSized, fun e hBody => ?_, ofBlob_mirrored h⟩
  rw [hBody] at hSized
  obtain ⟨hx, hy, -⟩ := hSized
  refine ⟨Bytes.ofNat e.curve.curve.width e.point.x, Bytes.ofNat e.curve.curve.width e.point.y,
    ecdsa_of_ofBlob h hBody, ?_, ?_, ?_⟩
  · rw [Bytes.length_ofNat, e.curve.width_curve]
  · rw [Bytes.length_ofNat, e.curve.width_curve]
  · rw [Bytes.toNat_ofNat_of_lt (Curve.lt_of_lt_p hx), Bytes.toNat_ofNat_of_lt (Curve.lt_of_lt_p hy)]

/-- The smallest numbers that are accepted for a DSA key. -/
def smallestDsa : DsaKey := ⟨2 ^ 1023, 2 ^ 159, 2, 2, none⟩

theorem ofBlob_smallestDsa :
    ofBlob (KeyBody.dsa smallestDsa).blob = .ok { body := .dsa smallestDsa } := by
  have hSized : (KeyBody.dsa smallestDsa).Sized := by
    simp only [KeyBody.Sized, smallestDsa]
    omega
  have hTakes : ∀ c ∈ (KeyBody.dsa smallestDsa).publicContents,
      Packet.Takes Wire.fieldLimit c := by
    decide +kernel
  exact ofBlob_blob_publicHalf (k := { body := .dsa smallestDsa })
    (KeyBody.publicAccepted_iff.mpr ⟨rfl, hSized⟩) hTakes

theorem ofBlob_sized_smallest :
    ofBlob (KeyBody.dsa smallestDsa).blob = .ok { body := .dsa smallestDsa } ∧
      (KeyBody.dsa smallestDsa).Sized ∧
      ofBlob (KeyBody.dsa smallestDsa).mirrored.blob =
        .ok { body := (KeyBody.dsa smallestDsa).mirrored } := by
  obtain ⟨hSized, -, hMirrored⟩ := ofBlob_sized ofBlob_smallestDsa
  exact ⟨ofBlob_smallestDsa, hSized, hMirrored⟩

/-- The order of the subgroup may be negative. -/
theorem ofBlob_negative_order :
    ofBlob (KeyBody.dsa ⟨2 ^ 1023, -2 ^ 159, 2, 2, none⟩).blob =
      .ok { body := .dsa ⟨2 ^ 1023, -2 ^ 159, 2, 2, none⟩ } ∧ ¬(2 ^ 159 : Int) ≤ -2 ^ 159 := by
  have hRead := ofBlob_mirrored ofBlob_smallestDsa
  exact ⟨hRead, by omega⟩

end Key
end SshKeys
