import SshKeys.Proofs.DerKey
import SshKeys.Proofs.Verdict
/-!
# Signing and verifying

What a key signs, it accepts, and so does the public key that its blob gives, provided that the
primitives accept what they made themselves; between the two lies the wire format, with its padding,
its two DSA numbers of fixed width and its two signed ECDSA numbers.
-/
namespace SshKeys

open Packet (outcome)

theorem Nonce.attempt_of_search {α : Type} {hash : Hash} {order tries : Nat}
    {attempt : Nat → Option α} {s : Nonce.State} {a : α}
    (h : search hash order attempt tries s = some a) : ∃ k, attempt k = some a := by
  induction tries generalizing s with
  | zero => cases h
  | succ tries ih =>
    simp only [search] at h
    split at h
    · rename_i a' hAttempt
      cases h
      rw [Option.ite_none_right_eq_some] at hAttempt
      exact ⟨_, hAttempt.2⟩
    · exact ih h

namespace SignaturePrimitives

/-- What is relied on for the primitives, apart from signatures being accepted: the sizes of what
they return, and that RSA gives up on moduli that are too costly to work with. -/
structure Lawful (P : SignaturePrimitives) : Prop where
  length_rsaSign : ∀ hash n d message, (P.rsaSign hash n d message).length = Bytes.byteLength n
  bitLength_of_rsaVerify : ∀ hash n e message signature,
    P.rsaVerify hash n e message signature = true → Bytes.bitLength n ≤ 16384
  dsaSign_lt : ∀ domain x message sig, 0 < domain.q →
    P.dsaSign? domain x message = some sig → sig.r < domain.q ∧ sig.s < domain.q
  ecdsaSign_lt : ∀ c hash scalar message sig, 0 < c.order →
    P.ecdsaSign? c hash scalar message = some sig → sig.r < c.order ∧ sig.s < c.order
  length_edwardsSign : ∀ seed message, (P.edwardsSign seed message).length = 64

/-- The primitives accept what they return for the private number of a key, the data, and for RSA
the hash function that goes with the name of the algorithm. -/
def Honours (P : SignaturePrimitives) (data : Bytes) (algorithm : Option String) : KeyBody → Prop
  | .rsa k => ∀ hash secret, RsaKey.hash? (algorithm.getD RsaKey.defaultAlgorithm) = some hash →
      k.secret = some secret →
      P.rsaVerify hash k.n k.e data (P.rsaSign hash k.n secret.d data) = true
  | .dsa k => ∀ domain x, k.domain = .ok domain → k.x = some x →
      ∃ sig, P.dsaSign? domain x.toNat data = some sig ∧
        P.dsaVerify domain k.y.toNat data sig = true
  | .ecdsa k => ∀ scalar, k.scalar = some scalar →
      ∃ sig, P.ecdsaSign? k.curve.curve k.curve.hash scalar data = some sig ∧
        P.ecdsaVerify k.curve.curve k.curve.hash k.point data sig = true
  | .ed25519 k => ∀ seed, k.seed = some seed →
      P.edwardsVerify k.publicKey data (P.edwardsSign seed data) = true

end SignaturePrimitives

theorem Dsa.lt_of_sign? {domain : Domain} {x : Nat} {message : Bytes} {sig : Signature}
    (hOrder : 0 < domain.q) (h : sign? domain x message = some sig) :
    sig.r < domain.q ∧ sig.s < domain.q := by
  obtain ⟨k, hAttempt⟩ := Nonce.attempt_of_search h
  simp only [signWith] at hAttempt
  split at hAttempt
  · cases hAttempt
  · cases hAttempt
    exact ⟨Nat.mod_lt _ hOrder, Nat.mod_lt _ hOrder⟩

theorem Ecdsa.lt_of_sign? {c : Curve} {hash : Hash} {scalar : Nat} {message : Bytes}
    {sig : Signature} (hOrder : 0 < c.order) (h : sign? c hash scalar message = some sig) :
    sig.r < c.order ∧ sig.s < c.order := by
  obtain ⟨k, hAttempt⟩ := Nonce.attempt_of_search h
  rw [signWith] at hAttempt
  split at hAttempt
  · cases hAttempt
  · dsimp only at hAttempt
    split at hAttempt
    · cases hAttempt
    · cases hAttempt
      exact ⟨Nat.mod_lt _ hOrder, Nat.mod_lt _ hOrder⟩

theorem Edwards.length_sign (seed message : Bytes) : (Edwards.sign seed message).length = 64 := by
  rw [sign, List.length_append, encode, Bytes.length_ofNatLittle, Bytes.length_ofNatLittle]

theorem Rsa.bitLength_of_verify {hash : Hash} {n e : Nat} {message signature : Bytes}
    (h : Rsa.verify hash n e message signature = true) : Bytes.bitLength n ≤ 16384 := by
  have hWorkable : isWorkable n e = true := by
    by_contra hCostly
    rw [Bool.not_eq_true] at hCostly
    simp [verify, hCostly] at h
  simp only [isWorkable, Bool.and_eq_true, decide_eq_true_eq] at hWorkable
  exact hWorkable.1.2

theorem SignaturePrimitives.own_lawful : own.Lawful where
  length_rsaSign _ _ _ _ := Bytes.length_ofNat _ _
  bitLength_of_rsaVerify _ _ _ _ _ := Rsa.bitLength_of_verify
  dsaSign_lt _ _ _ _ := Dsa.lt_of_sign?
  ecdsaSign_lt _ _ _ _ _ := Ecdsa.lt_of_sign?
  length_edwardsSign := Edwards.length_sign

theorem TwosComplement.length_encodeUnsigned_le {n count : Nat} (hCount : 0 < count)
    (h : n < 256 ^ count) : (encodeUnsigned (n : Int)).length ≤ count := by
  rcases Nat.eq_zero_or_pos n with rfl | hSome
  · exact hCount
  · rw [encodeUnsigned_natCast hSome, Bytes.length_minimal]
    exact Bytes.byteLength_le h

theorem Wire.length_integerBytes_natCast_le {n bits : Nat} (h : Bytes.bitLength n ≤ bits) :
    (integerBytes (n : Int)).length ≤ bits / 8 + 1 := by
  have hNumber : n < 2 ^ bits := Bytes.bitLength_le.mp h
  have hPower : 2 ^ (bits + 1) ≤ 256 ^ (bits / 8 + 1) := Bytes.two_pow_le (by omega)
  rw [Nat.pow_succ] at hPower
  refine TwosComplement.length_integerBytes_le_iff.mpr ⟨by omega, ?_⟩
  exact_mod_cast (by omega : 2 * n < 256 ^ (bits / 8 + 1))

namespace DsaKey

variable {n : Nat}

@[simp] theorem toNat_signatureField (n : Nat) : Bytes.toNat (signatureField n) = n := by
  rw [signatureField, Bytes.toNat_zeros_append, TwosComplement.toNat_encodeUnsigned]

theorem length_signatureField (h : n < 2 ^ 160) : (signatureField n).length = 20 := by
  have hShort : (TwosComplement.encodeUnsigned (n : Int)).length ≤ 20 :=
    TwosComplement.length_encodeUnsigned_le (by decide) (by rwa [TwosComplement.pow_256])
  rw [signatureField, List.length_append, Bytes.length_zeros, Nat.sub_add_cancel hShort]

theorem length_signatureBytes (sig : Dsa.Signature) (hr : sig.r < 2 ^ 160) (hs : sig.s < 2 ^ 160) :
    (signatureBytes sig).length = 40 := by
  rw [signatureBytes, List.length_append, length_signatureField hr, length_signatureField hs]

theorem signatureNumbers_signatureBytes {sig : Dsa.Signature} (hr : sig.r < 2 ^ 160) :
    signatureNumbers (signatureBytes sig) = sig := by
  have hFirst := length_signatureField hr
  rw [signatureNumbers, signatureBytes, List.take_left' hFirst, List.drop_left' hFirst,
    toNat_signatureField, toNat_signatureField]

end DsaKey

namespace EcdsaKey

variable {r s : Int}

theorem parse_signatureBytes (hr : (Wire.integerBytes r).length ≤ Wire.fieldLimit)
    (hs : (Wire.integerBytes s).length ≤ Wire.fieldLimit) :
    Packet.parse readSignature (signatureBytes r s) = .ok (r, s) := by
  refine parse_readSignature_eq_ok_iff.mpr ⟨Wire.integerBytes r, Wire.integerBytes s, [], ?_,
    ⟨Packet.takes_of_length_le hr, Packet.takes_of_length_le hs⟩, Wire.decode_integerBytes r,
    Wire.decode_integerBytes s⟩
  rw [List.append_nil]
  rfl

theorem length_signatureBytes (r s : Int) : (signatureBytes r s).length =
    (Wire.integerBytes r).length + (Wire.integerBytes s).length + 8 := by
  rw [signatureBytes, List.length_append, Wire.integer, Wire.integer, Wire.length_string,
    Wire.length_string]
  omega

end EcdsaKey

namespace NistCurve

theorem order_pos (c : NistCurve) : 0 < c.curve.order := by cases c <;> decide

theorem bits_le (c : NistCurve) : c.bits ≤ 521 := by cases c <;> decide

end NistCurve

namespace Key

variable {P : SignaturePrimitives} {k : Key} {data signature : Bytes} {algorithm : Option String}

/-- The name that the signature messages of a key open with. -/
def signatureName (k : Key) (algorithm : Option String) : String :=
  match k.body with
  | .rsa _ => algorithm.getD RsaKey.defaultAlgorithm
  | body => body.name

/-- Signing gives a message with a signature that readers take, and the key accepts it wherever it
comes upon it. -/
structure Signs (P : SignaturePrimitives) (k : Key) (data : Bytes) (algorithm : Option String)
    (signature : Bytes) : Prop where
  signed : k.signBy P data algorithm =
    .ok (signatureMessage (k.signatureName algorithm) signature)
  takes : Packet.Takes Wire.fieldLimit signature
  accepted : ∀ p : Packet, p.HoldsSignature (k.signatureName algorithm) signature →
    outcome (k.readVerdict P data) p = .ok true

theorem readVerdict_publicHalf (P : SignaturePrimitives) (k : Key) (data : Bytes) :
    readVerdict P { body := k.body.publicHalf } data = k.readVerdict P data := by
  obtain ⟨body, comment⟩ := k
  cases body <;> rfl

theorem exists_hash (h : ∀ name, algorithm = some name → name ∈ KeyClass.rsa.identifiers) :
    ∃ hash, RsaKey.hash? (algorithm.getD RsaKey.defaultAlgorithm) = some hash := by
  have hAll : ∀ name ∈ KeyClass.rsa.identifiers, (RsaKey.hash? name).isSome = true := by decide
  refine Option.isSome_iff_exists.mp ?_
  cases algorithm with
  | none => rfl
  | some name => exact hAll name (h name rfl)

theorem modulus_of_honours {key : RsaKey} (hLawful : P.Lawful)
    (hAccepted : (KeyBody.rsa key).Accepted)
    (hAlgorithm : ∀ name, algorithm = some name → name ∈ KeyClass.rsa.identifiers)
    (hHonours : P.Honours data algorithm (.rsa key)) : Bytes.bitLength key.n ≤ 16384 := by
  obtain ⟨secret, hSecret, -⟩ := hAccepted
  obtain ⟨hash, hHash⟩ := exists_hash hAlgorithm
  exact hLawful.bitLength_of_rsaVerify _ _ _ _ _ (hHonours hash secret hHash hSecret)

theorem signs_rsa {key : RsaKey} {comment : Option String} (hLawful : P.Lawful)
    (hAccepted : (KeyBody.rsa key).Accepted)
    (hAlgorithm : ∀ name, algorithm = some name → name ∈ KeyClass.rsa.identifiers)
    (hHonours : P.Honours data algorithm (.rsa key)) :
    ∃ signature, Signs P { body := .rsa key, comment } data algorithm signature := by
  have hModulus := modulus_of_honours hLawful hAccepted hAlgorithm hHonours
  have hCan : canSign { body := .rsa key, comment } = true := hAccepted.consistent.canSign
  obtain ⟨secret, hSecret, -⟩ := hAccepted
  obtain ⟨hash, hHash⟩ := exists_hash hAlgorithm
  have hVerifies := hHonours hash secret hHash hSecret
  have hLength := hLawful.length_rsaSign hash key.n secret.d data
  refine ⟨P.rsaSign hash key.n secret.d data, ?_, ?_, fun p h => ?_⟩
  · simp only [signBy, requirePrivate, hCan, if_true, hHash, hSecret]
    rfl
  · refine Packet.takes_of_length_le ?_
    rw [hLength, Bytes.byteLength, Wire.fieldLimit]
    omega
  · change p.HoldsSignature (algorithm.getD RsaKey.defaultAlgorithm) _ at h
    change outcome (verifyRsa P key data) p = _
    rw [outcome_verifyRsa h, hHash, RsaKey.padSignature_of_le hLength.ge]
    exact congrArg _ hVerifies

theorem signs_dsa {key : DsaKey} {comment : Option String} (hLawful : P.Lawful)
    (hAccepted : (KeyBody.dsa key).Accepted) (hHonours : P.Honours data algorithm (.dsa key)) :
    ∃ signature, Signs P { body := .dsa key, comment } data algorithm signature := by
  have hCan : canSign { body := .dsa key, comment } = true := hAccepted.consistent.canSign
  obtain ⟨x, hSecret, hChecks, hMatches⟩ := KeyBody.accepted_dsa_iff.mp hAccepted
  obtain ⟨⟨-, hOrder⟩, -⟩ := KeyBody.checkDsa_eq_ok_iff.mp hChecks
  obtain ⟨hRange, -⟩ := id hMatches
  have hDomain := DsaKey.domain_eq hMatches
  obtain ⟨sig, hSign, hVerifies⟩ := hHonours _ x hDomain hSecret
  obtain ⟨hr, hs⟩ := hLawful.dsaSign_lt _ _ _ _ (by change 0 < key.q.toNat; omega) hSign
  simp only at hr hs
  have hLength := DsaKey.length_signatureBytes sig (by omega) (by omega)
  refine ⟨DsaKey.signatureBytes sig, ?_, ?_, fun p h => ?_⟩
  · simp only [signBy, requirePrivate, hCan, if_true, hSecret, Option.getD_some]
    rw [DsaKey.privateNumber_eq hMatches]
    simp only [Fallible.bind_ok, hSign]
    rfl
  · refine Packet.takes_of_length_le ?_
    rw [hLength]
    decide
  · change outcome (verifyDsa P key data) p = _
    rw [outcome_verifyDsa h, if_pos ⟨rfl, hLength⟩, hDomain,
      DsaKey.signatureNumbers_signatureBytes (by omega)]
    exact congrArg _ hVerifies

theorem signs_ecdsa {key : EcdsaKey} {comment : Option String} (hLawful : P.Lawful)
    (hAccepted : (KeyBody.ecdsa key).Accepted) (hHonours : P.Honours data algorithm (.ecdsa key)) :
    ∃ signature, Signs P { body := .ecdsa key, comment } data algorithm signature := by
  have hCan : canSign { body := .ecdsa key, comment } = true := hAccepted.consistent.canSign
  obtain ⟨scalar, hSecret, -⟩ := hAccepted
  obtain ⟨sig, hSign, hVerifies⟩ := hHonours scalar hSecret
  obtain ⟨hr, hs⟩ := hLawful.ecdsaSign_lt _ _ _ _ _ key.curve.order_pos hSign
  have hShort {n : Nat} (h : n < key.curve.curve.order) :
      (Wire.integerBytes (n : Int)).length ≤ 66 :=
    Wire.length_integerBytes_natCast_le
      ((Bytes.bitLength_le.mpr (h.trans key.curve.order_lt)).trans key.curve.bits_le)
  refine ⟨EcdsaKey.signatureBytes sig.r sig.s, ?_, ?_, fun p h => ?_⟩
  · simp only [signBy, requirePrivate, hCan, if_true, hSecret, Option.getD_some, hSign]
    rfl
  · refine Packet.takes_of_length_le ?_
    have hFirst := hShort hr
    have hSecond := hShort hs
    rw [EcdsaKey.length_signatureBytes, Wire.fieldLimit]
    omega
  · have hRead := EcdsaKey.parse_signatureBytes ((hShort hr).trans (by decide))
      ((hShort hs).trans (by decide))
    change p.HoldsSignature key.curve.keyType _ at h
    change outcome (verifyEcdsa P key data) p = _
    rw [outcome_verifyEcdsa h, if_pos rfl, hRead, Fallible.bind_ok]
    exact (if_neg (by omega)).trans (congrArg _ hVerifies)

theorem signs_ed25519 {key : Ed25519Key} {comment : Option String} (hLawful : P.Lawful)
    (hAccepted : (KeyBody.ed25519 key).Accepted)
    (hHonours : P.Honours data algorithm (.ed25519 key)) :
    ∃ signature, Signs P { body := .ed25519 key, comment } data algorithm signature := by
  have hCan : canSign { body := .ed25519 key, comment } = true := hAccepted.consistent.canSign
  obtain ⟨seed, hSecret, -⟩ := KeyBody.accepted_ed25519_iff.mp hAccepted
  have hVerifies := hHonours seed hSecret
  refine ⟨P.edwardsSign seed data, ?_, ?_, fun p h => ?_⟩
  · simp only [signBy, requirePrivate, hCan, if_true, hSecret, Option.getD_some]
    rfl
  · refine Packet.takes_of_length_le ?_
    rw [hLawful.length_edwardsSign]
    decide
  · change outcome (verifyEd25519 P key data) p = _
    rw [outcome_verifyEd25519 h]
    exact congrArg _ hVerifies

theorem exists_signs (hLawful : P.Lawful) (hAccepted : k.body.Accepted)
    (hAlgorithm : k.keyClass = .rsa →
      ∀ name, algorithm = some name → name ∈ KeyClass.rsa.identifiers)
    (hHonours : P.Honours data algorithm k.body) :
    ∃ signature, k.Signs P data algorithm signature := by
  obtain ⟨body, comment⟩ := k
  cases body with
  | rsa key => exact signs_rsa hLawful hAccepted (hAlgorithm rfl) hHonours
  | dsa key => exact signs_dsa hLawful hAccepted hHonours
  | ecdsa key => exact signs_ecdsa hLawful hAccepted hHonours
  | ed25519 key => exact signs_ed25519 hLawful hAccepted hHonours

theorem takes_signatureName (hAlgorithm : k.keyClass = .rsa →
      ∀ name, algorithm = some name → name ∈ KeyClass.rsa.identifiers) :
    Packet.Takes Wire.fieldLimit (Utf8.encode (k.signatureName algorithm)) := by
  obtain ⟨body, comment⟩ := k
  cases body with
  | rsa key =>
    have hAll : ∀ name ∈ KeyClass.rsa.identifiers,
        Packet.Takes Wire.fieldLimit (Utf8.encode name) := by decide
    cases algorithm with
    | none => exact hAll RsaKey.defaultAlgorithm (by decide)
    | some name => exact hAll name (hAlgorithm rfl name rfl)
  | dsa key => exact KeyBody.takes_name (.dsa key)
  | ecdsa key => exact KeyBody.takes_name (.ecdsa key)
  | ed25519 key => exact KeyBody.takes_name (.ed25519 key)

end Key

theorem Packet.takes_natCast {n : Nat} (h : Bytes.bitLength n < 16385) :
    Takes Wire.fieldLimit (Wire.integerBytes (n : Int)) :=
  takes_of_length_le
    ((Wire.length_integerBytes_natCast_le (Nat.le_of_lt_succ h)).trans (by decide))

namespace KeyBody

theorem Accepted.takes_publicContents {body : KeyBody} (h : body.Accepted)
    (hModulus : ∀ key, body = .rsa key → Bytes.bitLength key.n ≤ 16384) :
    ∀ c ∈ body.publicContents, Packet.Takes Wire.fieldLimit c := by
  cases body with
  | rsa key =>
    obtain ⟨r, hNumbers, hRange, -⟩ := accepted_rsa_iff.mp h
    obtain rfl := RsaKey.toKey_of_numbers? hNumbers
    have hAll := RsaNumbers.bitLength_lt hRange (Nat.lt_succ_of_le (hModulus _ rfl))
    simp only [List.forall_mem_cons] at hAll
    obtain ⟨-, hn, he, -⟩ := hAll
    simp only [publicContents, List.map_cons, List.map_nil, List.forall_mem_cons]
    exact ⟨Packet.takes_natCast he, Packet.takes_natCast hn, List.forall_mem_nil _⟩
  | dsa key =>
    obtain ⟨x, -, -, -, -, hSize⟩ := accepted_dsa_iff.mp h
    have hSizes : ∀ bits ∈ dsaModulusSizes, bits < 16385 := by decide
    obtain ⟨d, y, x, rfl, -, -, hAll⟩ :=
      accepted_dsa_naturals h (hSizes _ (List.contains_iff_mem.mp hSize))
    simp only [List.forall_mem_cons] at hAll
    obtain ⟨-, hp, hq, hg, hy, -⟩ := hAll
    simp only [publicContents, List.map_cons, List.map_nil, List.forall_mem_cons]
    exact ⟨Packet.takes_natCast hp, Packet.takes_natCast hq, Packet.takes_natCast hg,
      Packet.takes_natCast hy, List.forall_mem_nil _⟩
  | ecdsa key =>
    have hName : Packet.Takes Wire.fieldLimit (Utf8.encode key.curve.name) := by
      cases key.curve <;> decide
    have hPoint : key.pointBytes.length ≤ Wire.fieldLimit := by
      rw [EcdsaKey.pointBytes, Curve.length_uncompressed, ← NistCurve.pointSize_eq]
      cases key.curve <;> decide
    simp only [publicContents, List.forall_mem_cons]
    exact ⟨hName, Packet.takes_of_length_le hPoint, List.forall_mem_nil _⟩
  | ed25519 key =>
    obtain ⟨-, hLength⟩ := h.publicHalf
    simp only [publicContents, List.forall_mem_cons]
    exact ⟨Packet.takes_of_length_le (hLength.trans_le (by decide)), List.forall_mem_nil _⟩

end KeyBody

namespace Key

variable {P : SignaturePrimitives} {k : Key} {data signature : Bytes} {algorithm : Option String}

theorem parse_signatureMessage {name : String}
    (hName : Packet.Takes Wire.fieldLimit (Utf8.encode name))
    (hSignature : Packet.Takes Wire.fieldLimit signature) :
    Packet.parse readSignature (signatureMessage name signature) = .ok (name, signature, 0) := by
  simp only [Packet.parse_eq_ok_iff, readSignature, Stateful.bind_eq_ok_iff, Stateful.get_eq_ok_iff,
    Stateful.pure_eq_ok_iff, Packet.readText_eq_ok_iff, Packet.readString_eq_ok_iff]
  exact ⟨_, name, _, ⟨hName, Packet.advance_past rfl⟩, signature, _,
    ⟨hSignature, Packet.advance_past (List.append_nil _).symm⟩, _, _, ⟨rfl, rfl⟩, rfl, rfl⟩

theorem Signs.verifyBy (h : k.Signs P data algorithm signature)
    (hName : Packet.Takes Wire.fieldLimit (Utf8.encode (k.signatureName algorithm))) :
    k.verifyBy P data (signatureMessage (k.signatureName algorithm) signature) = .ok true :=
  h.accepted _ (holdsSignature_signatureMessage _ _ hName h.takes)

/-- What a key signs is a message of two strings that the key accepts, and so does the public key
that its blob reads as. In between, DSA numbers of up to 160 bits are written in forty bytes and
come to the check as they were, and ECDSA numbers of any size that can be read are read as they were
written. -/
theorem sign_verifies :
    (∀ (P : SignaturePrimitives) (k : Key) (data : Bytes) (algorithm : Option String),
      P.Lawful → k.body.Accepted →
      (k.keyClass = .rsa → ∀ name, algorithm = some name → name ∈ KeyClass.rsa.identifiers) →
      P.Honours data algorithm k.body →
      ∃ signature message, k.signBy P data algorithm = .ok message ∧
        message = Wire.text (k.signatureName algorithm) ++ Wire.string signature ∧
        Packet.parse readSignature message = .ok (k.signatureName algorithm, signature, 0) ∧
        k.verifyBy P data message = .ok true ∧
        ∃ pub, ofBlob k.blob = .ok pub ∧ pub.canSign = false ∧
          pub.verifyBy P data message = .ok true) ∧
    (∀ r s : Nat, r < 2 ^ 160 → s < 2 ^ 160 →
      (DsaKey.signatureBytes ⟨r, s⟩).length = 40 ∧
      ∀ (P : SignaturePrimitives) (key : DsaKey) (domain : Dsa.Domain) (data : Bytes) (p : Packet),
        key.domain = .ok domain → p.HoldsSignature "ssh-dss" (DsaKey.signatureBytes ⟨r, s⟩) →
        outcome (verifyDsa P key data) p = .ok (P.dsaVerify domain key.y.toNat data ⟨r, s⟩)) ∧
    ∀ r s : Int, (Wire.integerBytes r).length ≤ Wire.fieldLimit →
      (Wire.integerBytes s).length ≤ Wire.fieldLimit →
      Packet.parse EcdsaKey.readSignature (EcdsaKey.signatureBytes r s) = .ok (r, s) := by
  refine ⟨?_, ?_, fun r s hr hs => EcdsaKey.parse_signatureBytes hr hs⟩
  · intro P k data algorithm hLawful hAccepted hAlgorithm hHonours
    obtain ⟨signature, hSigns⟩ := exists_signs hLawful hAccepted hAlgorithm hHonours
    have hName := takes_signatureName hAlgorithm
    have hPublic : ofBlob k.blob = .ok { body := k.body.publicHalf } := by
      refine ofBlob_blob_publicHalf hAccepted.publicHalf
        (hAccepted.takes_publicContents fun key hBody => ?_)
      have hClass : k.keyClass = .rsa := congrArg KeyBody.keyClass hBody
      rw [hBody] at hAccepted hHonours
      exact modulus_of_honours hLawful hAccepted (hAlgorithm hClass) hHonours
    have hVerdict := hSigns.verifyBy hName
    refine ⟨signature, _, hSigns.signed, rfl, parse_signatureMessage hName hSigns.takes, hVerdict,
      _, hPublic, hAccepted.publicHalf.canSign, ?_⟩
    rw [verifyBy, ← readVerdict_publicHalf] at hVerdict
    exact hVerdict
  · intro r s hr hs
    have hLength := DsaKey.length_signatureBytes ⟨r, s⟩ hr hs
    refine ⟨hLength, fun P key domain data p hDomain hHolds => ?_⟩
    rw [outcome_verifyDsa hHolds, if_pos ⟨rfl, hLength⟩, hDomain,
      DsaKey.signatureNumbers_signatureBytes hr]
    rfl

/-- A key of 1024 bits, from the largest two primes of 512 bits. -/
def pairedPrimes : RsaKey :=
  let p := 2 ^ 512 - 569
  let q := 2 ^ 512 - 629
  ⟨p * q, 3, some ⟨(Nat.lcm (p - 1) (q - 1) + 1) / 3, Modular.inverse q p, p, q⟩⟩

theorem accepted_pairedPrimes : (KeyBody.rsa pairedPrimes).Accepted :=
  KeyBody.accepted_rsa_iff.mpr
    ⟨_, rfl, by decide +kernel, by decide +kernel, by decide +kernel⟩

theorem sign_verifies_pairedPrimes :
    (KeyBody.rsa pairedPrimes).Accepted ∧
      ∃ message pub, sign { body := .rsa pairedPrimes } [1, 2] none = .ok message ∧
        verify { body := .rsa pairedPrimes } [1, 2] message = .ok true ∧
        ofBlob (KeyBody.rsa pairedPrimes).blob = .ok pub ∧ pub.canSign = false ∧
        pub.verify [1, 2] message = .ok true := by
  have hHonours : SignaturePrimitives.own.Honours [1, 2] none (.rsa pairedPrimes) := by
    rintro hash secret hHash hSecret
    cases hHash
    cases hSecret
    decide +kernel
  obtain ⟨_, message, hSigned, -, -, hVerifies, pub, hPublic⟩ := sign_verifies.1 .own
    { body := .rsa pairedPrimes } [1, 2] none SignaturePrimitives.own_lawful accepted_pairedPrimes
    nofun hHonours
  exact ⟨accepted_pairedPrimes, message, pub, hSigned, hVerifies, hPublic⟩

end Key
end SshKeys
