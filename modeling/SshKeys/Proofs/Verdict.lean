import SshKeys.Key.Signing
import SshKeys.Proofs.Acceptance
import SshKeys.Proofs.Failure
import SshKeys.Proofs.IntegerCodec
import SshKeys.Proofs.PublicSizes
/-!
# What verifying a signature comes to

The primitives are arbitrary. Once the algorithm name and the signature have been read, each class
of keys hands the primitive something that these two determine; what it hands over is stated once
per class, and so is what keeps it from doing so.
-/
namespace SshKeys

namespace Packet

variable {α β : Type} {reader : Reader α} {f : α → Reader β} {p p' : Packet} {a : α} {name : String}
  {signature : Bytes}

/-- What a reader gives, whatever packet it leaves. -/
def outcome (reader : Reader α) (p : Packet) : Except Error α :=
  match reader p with
  | .ok a _ => .ok a
  | .error e _ => .error e

theorem parse_eq_outcome (content : Bytes) :
    parse reader content = outcome reader (ofBytes content) := rfl

theorem outcome_bind (h : reader p = .ok a p') : outcome (reader >>= f) p = outcome (f a) p' := by
  rw [outcome, Stateful.bind_ok h]
  rfl

theorem outcome_lift_bind (x : Except Error α) :
    outcome (KeyBody.lift x >>= f) p = x >>= fun a => outcome (f a) p := by
  cases x <;> rfl

/-- A packet goes on with a text and a string: the algorithm name and the signature proper. -/
def HoldsSignature (p : Packet) (name : String) (signature : Bytes) : Prop :=
  ∃ p₁ p₂, readText p = .ok name p₁ ∧ readString p₁ = .ok signature p₂

theorem holdsSignature_of_pending {rest : Bytes} (hName : Takes p.limit (Utf8.encode name))
    (hSignature : Takes p.limit signature)
    (h : p.pending = Wire.text name ++ (Wire.string signature ++ rest)) :
    p.HoldsSignature name signature :=
  ⟨_, _, readText_eq_ok_iff.mpr ⟨hName, advance_past h⟩,
    readString_eq_ok_iff.mpr ⟨hSignature, advance_past rfl⟩⟩

end Packet

open Packet (outcome)

namespace RsaKey

theorem padSignature_eq (n : Nat) (signature : Bytes) :
    padSignature n signature =
      Bytes.zeros (Bytes.byteLength n - signature.length) ++ signature := by
  -- the missing bits, rounded up to bytes, are the missing bytes
  have hCount : (Bytes.bitLength n - 8 * signature.length + 7) / 8 =
      Bytes.byteLength n - signature.length := by
    rw [Bytes.byteLength]
    omega
  rw [padSignature, hCount]

theorem length_padSignature (n : Nat) (signature : Bytes) :
    (padSignature n signature).length = max (Bytes.byteLength n) signature.length := by
  rw [padSignature_eq, List.length_append, Bytes.length_zeros]
  omega

theorem padSignature_of_le {n : Nat} {signature : Bytes}
    (h : Bytes.byteLength n ≤ signature.length) : padSignature n signature = signature := by
  rw [padSignature_eq, Nat.sub_eq_zero_of_le h]
  rfl

@[simp] theorem toNat_padSignature (n : Nat) (signature : Bytes) :
    Bytes.toNat (padSignature n signature) = Bytes.toNat signature := by
  rw [padSignature_eq, Bytes.toNat_zeros_append]

theorem padSignature_zeros_append {n count : Nat} {signature : Bytes}
    (h : count + signature.length ≤ Bytes.byteLength n) :
    padSignature n (Bytes.zeros count ++ signature) = padSignature n signature := by
  apply Bytes.toNat_inj
  · rw [length_padSignature, length_padSignature, List.length_append, Bytes.length_zeros]
    omega
  · rw [toNat_padSignature, toNat_padSignature, Bytes.toNat_zeros_append]

end RsaKey

namespace EcdsaKey

/-- A signature opens with two string fields that spell the numbers `r` and `s`; anything may stand
behind them. -/
def Spells (signature : Bytes) (r s : Int) : Prop :=
  ∃ a b rest : Bytes, signature = Wire.string a ++ (Wire.string b ++ rest) ∧
    (Packet.Takes Wire.fieldLimit a ∧ Packet.Takes Wire.fieldLimit b) ∧
    TwosComplement.decode a = r ∧ TwosComplement.decode b = s

theorem parse_readSignature_eq_ok_iff {signature : Bytes} {r s : Int} :
    Packet.parse readSignature signature = .ok (r, s) ↔ Spells signature r s := by
  simp only [Packet.parse_eq_ok_iff, readSignature, Stateful.bind_eq_ok_iff,
    Stateful.pure_eq_ok_iff, Packet.readInteger_eq_ok_iff, Prod.mk.injEq]
  constructor
  · rintro ⟨_, r, p₁, ⟨a, rfl, hTakes, hFirst⟩, s, p₂, ⟨b, rfl, hTakes', hSecond⟩, ⟨rfl, rfl⟩, rfl⟩
    rw [hFirst.limit] at hTakes'
    refine ⟨a, b, p₂.pending, ?_, ⟨hTakes, hTakes'⟩, rfl, rfl⟩
    rw [← hSecond.pending]
    exact hFirst.pending
  · rintro ⟨a, b, rest, rfl, ⟨hTakes, hTakes'⟩, rfl, rfl⟩
    exact ⟨_, _, _, ⟨a, rfl, hTakes, Packet.advance_past rfl⟩, _, _,
      ⟨b, rfl, hTakes', Packet.advance_past rfl⟩, ⟨rfl, rfl⟩, rfl⟩

theorem readSignature_format : Stateful.FailsOnly Error.IsFormat readSignature := by
  have hInteger : Stateful.FailsOnly Error.IsFormat Packet.readInteger :=
    Packet.readString_format.bind fun _ _ _ _ => Stateful.failsOnly_pure _
  exact hInteger.bind fun _ _ _ _ => hInteger.bind fun _ _ _ _ => Stateful.failsOnly_pure _

end EcdsaKey

namespace Key

variable {P : SignaturePrimitives} {data signature : Bytes} {name : String} {p q : Packet}

theorem outcome_verifyRsa {key : RsaKey} (h : p.HoldsSignature name signature) :
    outcome (verifyRsa P key data) p =
      match RsaKey.hash? name with
      | none => .ok false
      | some hash =>
        .ok (P.rsaVerify hash key.n key.e data (RsaKey.padSignature key.n signature)) := by
  obtain ⟨p₁, p₂, hName, hSignature⟩ := h
  rw [verifyRsa, Packet.outcome_bind hName]
  cases RsaKey.hash? name with
  | none => rfl
  | some hash => exact Packet.outcome_bind hSignature

theorem outcome_verifyDsa {key : DsaKey} (h : p.HoldsSignature name signature) :
    outcome (verifyDsa P key data) p =
      if name = "ssh-dss" ∧ signature.length = 40 then
        key.domain >>= fun domain =>
          .ok (P.dsaVerify domain key.y.toNat data (DsaKey.signatureNumbers signature))
      else .ok false := by
  obtain ⟨p₁, p₂, hName, hSignature⟩ := h
  rw [verifyDsa, Packet.outcome_bind hName]
  by_cases hTag : name = "ssh-dss"
  · rw [if_neg (not_not_intro hTag), Packet.outcome_bind hSignature]
    by_cases hLength : signature.length = 40
    · rw [if_neg (not_not_intro hLength), if_pos ⟨hTag, hLength⟩, Packet.outcome_lift_bind]
      rfl
    · rw [if_pos hLength, if_neg fun h => hLength h.2]
      rfl
  · rw [if_pos hTag, if_neg fun h => hTag h.1]
    rfl

theorem outcome_verifyEcdsa {key : EcdsaKey} (h : p.HoldsSignature name signature) :
    outcome (verifyEcdsa P key data) p =
      if name = key.curve.keyType then
        Packet.parse EcdsaKey.readSignature signature >>= fun (r, s) =>
          if r < 0 ∨ s < 0 then .error (.misuse .value)
          else .ok (P.ecdsaVerify key.curve.curve key.curve.hash key.point data ⟨r.toNat, s.toNat⟩)
      else .ok false := by
  obtain ⟨p₁, p₂, hName, hSignature⟩ := h
  rw [verifyEcdsa, Packet.outcome_bind hName]
  by_cases hTag : name = key.curve.keyType
  · rw [if_neg (not_not_intro hTag), if_pos hTag, Packet.outcome_bind hSignature,
      Packet.outcome_lift_bind]
    congr 1
    funext ⟨r, s⟩
    by_cases hSign : r < 0 ∨ s < 0
    · simp only [if_pos hSign]
      rfl
    · simp only [if_neg hSign]
      rfl
  · rw [if_pos hTag, if_neg hTag]
    rfl

theorem outcome_verifyEd25519 {key : Ed25519Key} (h : p.HoldsSignature name signature) :
    outcome (verifyEd25519 P key data) p =
      .ok (if name = "ssh-ed25519" then P.edwardsVerify key.publicKey data signature
        else false) := by
  obtain ⟨p₁, p₂, hName, hSignature⟩ := h
  rw [verifyEd25519, Packet.outcome_bind hName]
  by_cases hTag : name = "ssh-ed25519"
  · rw [if_neg (not_not_intro hTag), if_pos hTag, Packet.outcome_bind hSignature]
    rfl
  · rw [if_pos hTag, if_neg hTag]
    rfl

theorem holdsSignature_signatureMessage (name : String) (signature : Bytes)
    (hName : Packet.Takes Wire.fieldLimit (Utf8.encode name))
    (hSignature : Packet.Takes Wire.fieldLimit signature) :
    (Packet.ofBytes (signatureMessage name signature)).HoldsSignature name signature := by
  have hWhole : (Packet.ofBytes (signatureMessage name signature)).pending =
      Wire.text name ++ (Wire.string signature ++ []) := by
    rw [List.append_nil]
    rfl
  exact Packet.holdsSignature_of_pending hName hSignature hWhole

/-- Whatever checks an RSA signature is handed as many bytes as the modulus takes, which spell the
same number, so that zeros in front of the signature make no difference; a signature that is longer
is handed over as it is. -/
theorem verifyRsa_pads (key : RsaKey) (signature : Bytes) :
    ∃ handed : Bytes,
      (∀ (P : SignaturePrimitives) (data : Bytes) (name : String) (hash : Hash) (p : Packet),
        RsaKey.hash? name = some hash → p.HoldsSignature name signature →
        outcome (verifyRsa P key data) p = .ok (P.rsaVerify hash key.n key.e data handed)) ∧
      (signature.length ≤ Bytes.byteLength key.n →
        handed.length = Bytes.byteLength key.n ∧ Bytes.toNat handed = Bytes.toNat signature ∧
        ∀ count, count + signature.length ≤ Bytes.byteLength key.n →
          ∀ (P : SignaturePrimitives) (data : Bytes) (name : String) (p q : Packet),
            p.HoldsSignature name signature →
            q.HoldsSignature name (Bytes.zeros count ++ signature) →
            outcome (verifyRsa P key data) p = outcome (verifyRsa P key data) q) ∧
      (Bytes.byteLength key.n < signature.length → handed = signature) := by
  refine ⟨RsaKey.padSignature key.n signature, ?_, fun hShort => ⟨?_, ?_, ?_⟩, fun hLong => ?_⟩
  · intro P data name hash p hHash hHolds
    rw [outcome_verifyRsa hHolds, hHash]
  · rw [RsaKey.length_padSignature, Nat.max_eq_left hShort]
  · exact RsaKey.toNat_padSignature _ _
  · intro count hCount P data name p q hHolds hPadded
    rw [outcome_verifyRsa hHolds, outcome_verifyRsa hPadded,
      RsaKey.padSignature_zeros_append hCount]
  · exact RsaKey.padSignature_of_le hLong.le

/-- A modulus of 1025 bits takes 129 bytes; the signature is one byte, alone or behind two zeros. -/
theorem verifyRsa_pads_partial_byte :
    let key : RsaKey := ⟨2 ^ 1024 + 1, 3, none⟩
    let answer (signature : Bytes) : Except Error Bool :=
      outcome (verifyRsa .own key [1]) (Packet.ofBytes (signatureMessage "ssh-rsa" signature))
    ∃ handed : Bytes, answer [7] = .ok (Rsa.verify .sha1 key.n key.e [1] handed) ∧
      handed.length = 129 ∧ Bytes.toNat handed = 7 ∧ answer [7] = answer [0, 0, 7] := by
  intro key answer
  have hTag : Packet.Takes Wire.fieldLimit (Utf8.encode "ssh-rsa") := by decide
  have hShort := holdsSignature_signatureMessage "ssh-rsa" [7] hTag (by decide)
  have hPadded := holdsSignature_signatureMessage "ssh-rsa" (Bytes.zeros 2 ++ [7]) hTag (by decide)
  have hSize : Bytes.byteLength key.n = 129 := by decide +kernel
  obtain ⟨handed, hHanded, hFits, -⟩ := verifyRsa_pads key [7]
  obtain ⟨hLength, hValue, hSame⟩ := hFits (by rw [hSize]; decide)
  rw [hSize] at hLength hSame
  exact ⟨handed, hHanded .own [1] "ssh-rsa" .sha1 _ rfl hShort, hLength, hValue,
    hSame 2 (by decide) .own [1] "ssh-rsa" _ _ hShort hPadded⟩

end Key

namespace KeyBody

/-- What keeps a signature message from an answer: DSA parameters that cannot be carried out, or an
ECDSA signature that is not two numbers. -/
inductive Stumbles (name : String) (signature : Bytes) : KeyBody → Error → Prop
  | modulusSize {k : DsaKey} (hName : name = "ssh-dss") (hLength : signature.length = 40)
      (hSize : TwosComplement.bitLength k.p ∉ dsaModulusSizes) :
      Stumbles name signature (.dsa k) (.misuse .value)
  | negativeOrder {k : DsaKey} (hName : name = "ssh-dss") (hLength : signature.length = 40)
      (hSize : TwosComplement.bitLength k.p ∈ dsaModulusSizes) (hOrder : k.q < 0) :
      Stumbles name signature (.dsa k) (.misuse .magnitude)
  | fields {k : EcdsaKey} {e : Error} (hName : name = k.curve.keyType)
      (hFields : ¬∃ r s, EcdsaKey.Spells signature r s) (hFormat : e.IsFormat) :
      Stumbles name signature (.ecdsa k) e
  | negativeNumber {k : EcdsaKey} {r s : Int} (hName : name = k.curve.keyType)
      (hSpells : EcdsaKey.Spells signature r s) (hSign : r < 0 ∨ s < 0) :
      Stumbles name signature (.ecdsa k) (.misuse .value)

theorem Accepted.not_stumbles {body : KeyBody} {name : String} {signature : Bytes} {e : Error}
    (h : body.Accepted) (hClass : body.keyClass ≠ .ecdsa) : ¬body.Stumbles name signature e := by
  intro hStumbles
  cases hStumbles with
  | modulusSize _ _ hSize =>
    obtain ⟨_, -, -, -, -, hUsable⟩ := accepted_dsa_iff.mp h
    exact hSize (List.contains_iff_mem.mp hUsable)
  | negativeOrder _ _ _ hOrder =>
    obtain ⟨_, -, -, hRange, -⟩ := accepted_dsa_iff.mp h
    omega
  | fields => exact hClass rfl
  | negativeNumber => exact hClass rfl

end KeyBody

theorem DsaKey.domain_eq_error_iff {k : DsaKey} {e : Error} : k.domain = .error e ↔
    (TwosComplement.bitLength k.p ∉ KeyBody.dsaModulusSizes ∧ e = .misuse .value) ∨
      TwosComplement.bitLength k.p ∈ KeyBody.dsaModulusSizes ∧ k.q < 0 ∧
        e = .misuse .magnitude := by
  simp only [domain, Fallible.throwUnless_eq_error_iff, Fallible.throwIf_eq_error_iff,
    Fallible.pure_eq_error_iff, List.contains_iff_mem, and_false, or_false, eq_comm (b := e)]

namespace Key

variable {P : SignaturePrimitives} {k : Key} {data signature : Bytes} {name : String} {p : Packet}
  {e : Error}

theorem stumbles_of_error (h : p.HoldsSignature name signature)
    (hError : outcome (k.readVerdict P data) p = .error e) : k.body.Stumbles name signature e := by
  -- along the checks of each class: those that answer no cannot be what failed
  obtain ⟨body, comment⟩ := k
  cases body with
  | rsa key =>
    change outcome (verifyRsa P key data) p = _ at hError
    rw [outcome_verifyRsa h] at hError
    split at hError <;> cases hError
  | dsa key =>
    change outcome (verifyDsa P key data) p = _ at hError
    rw [outcome_verifyDsa h] at hError
    split at hError
    · rename_i hShape
      obtain ⟨hName, hLength⟩ := hShape
      rcases Fallible.bind_eq_error_iff.mp hError with hDomain | ⟨_, -, hAnswer⟩
      · rcases DsaKey.domain_eq_error_iff.mp hDomain with ⟨hSize, rfl⟩ | ⟨hSize, hOrder, rfl⟩
        · exact .modulusSize hName hLength hSize
        · exact .negativeOrder hName hLength hSize hOrder
      · cases hAnswer
    · cases hError
  | ecdsa key =>
    change outcome (verifyEcdsa P key data) p = _ at hError
    rw [outcome_verifyEcdsa h] at hError
    split at hError
    · rename_i hName
      rcases Fallible.bind_eq_error_iff.mp hError with hFields | ⟨⟨r, s⟩, hFields, hAnswer⟩
      · refine .fields hName ?_ (Packet.parse_failsOnly EcdsaKey.readSignature_format _ _ hFields)
        rintro ⟨r, s, hSpells⟩
        rw [EcdsaKey.parse_readSignature_eq_ok_iff.mpr hSpells] at hFields
        cases hFields
      · dsimp only at hAnswer
        split at hAnswer
        · rename_i hSign
          cases hAnswer
          exact .negativeNumber hName (EcdsaKey.parse_readSignature_eq_ok_iff.mp hFields) hSign
        · cases hAnswer
    · cases hError
  | ed25519 key =>
    change outcome (verifyEd25519 P key data) p = _ at hError
    rw [outcome_verifyEd25519 h] at hError
    cases hError

theorem error_of_stumbles (h : p.HoldsSignature name signature)
    (hStumbles : k.body.Stumbles name signature e) :
    ∃ e', outcome (k.readVerdict P data) p = .error e' := by
  obtain ⟨body, comment⟩ := k
  cases hStumbles with
  | @modulusSize key hName hLength hSize =>
    have hDomain := DsaKey.domain_eq_error_iff.mpr (.inl ⟨hSize, rfl⟩)
    change ∃ e', outcome (verifyDsa P key data) p = _
    rw [outcome_verifyDsa h, if_pos ⟨hName, hLength⟩, hDomain]
    exact ⟨_, rfl⟩
  | @negativeOrder key hName hLength hSize hOrder =>
    have hDomain := DsaKey.domain_eq_error_iff.mpr (.inr ⟨hSize, hOrder, rfl⟩)
    change ∃ e', outcome (verifyDsa P key data) p = _
    rw [outcome_verifyDsa h, if_pos ⟨hName, hLength⟩, hDomain]
    exact ⟨_, rfl⟩
  | @fields key _ hName hFields =>
    change ∃ e', outcome (verifyEcdsa P key data) p = _
    rw [outcome_verifyEcdsa h, if_pos hName]
    cases hRead : Packet.parse EcdsaKey.readSignature signature with
    | error e' => exact ⟨e', rfl⟩
    | ok numbers => exact absurd ⟨_, _, EcdsaKey.parse_readSignature_eq_ok_iff.mp hRead⟩ hFields
  | @negativeNumber key r s hName hSpells hSign =>
    change ∃ e', outcome (verifyEcdsa P key data) p = _
    rw [outcome_verifyEcdsa h, if_pos hName, EcdsaKey.parse_readSignature_eq_ok_iff.mpr hSpells,
      Fallible.bind_ok]
    exact ⟨_, if_pos hSign⟩

/-- A signature message gets an answer unless the key stumbles over it, and there are no other
failures. RSA and Ed25519 keys always answer, and so do DSA keys from an entry. -/
theorem readVerdict_answers (h : p.HoldsSignature name signature) :
    ((∃ b, outcome (k.readVerdict P data) p = .ok b) ↔ ∀ e, ¬k.body.Stumbles name signature e) ∧
      (∀ e, outcome (k.readVerdict P data) p = .error e → k.body.Stumbles name signature e) ∧
      (k.keyClass = .rsa ∨ k.keyClass = .ed25519 ∨ k.keyClass = .dsa ∧ k.body.Accepted →
        ∃ b, outcome (k.readVerdict P data) p = .ok b) := by
  have hAnswers : (∃ b, outcome (k.readVerdict P data) p = .ok b) ↔
      ∀ e, ¬k.body.Stumbles name signature e := by
    constructor
    · rintro ⟨b, hAnswer⟩ e hStumbles
      obtain ⟨e', hError⟩ := error_of_stumbles h hStumbles
      rw [hAnswer] at hError
      cases hError
    · intro hNone
      cases hOutcome : outcome (k.readVerdict P data) p with
      | ok b => exact ⟨b, rfl⟩
      | error e => exact absurd (stumbles_of_error h hOutcome) (hNone e)
  refine ⟨hAnswers, fun e => stumbles_of_error h, fun hClass => hAnswers.mpr fun e hStumbles => ?_⟩
  obtain ⟨body, comment⟩ := k
  rcases hClass with hClass | hClass | ⟨hClass, hAccepted⟩
  · cases hStumbles <;> cases hClass
  · cases hStumbles <;> cases hClass
  · refine hAccepted.not_stumbles ?_ hStumbles
    change body.keyClass = _ at hClass
    rw [hClass]
    nofun

/-- The public key of the scalar one. -/
def p256One : Key := { body := .ecdsa ⟨.p256, Curve.secp256r1.base, none⟩ }

theorem ofBlob_p256One : ofBlob p256One.blob = .ok p256One :=
  ofBlob_blob_publicHalf (k := { body := .ecdsa ⟨.p256, Curve.secp256r1.base, some 1⟩ })
    KeyBody.accepted_p256_one.publicHalf (by decide +kernel)

/-- A signature of the numbers one and two gets an answer, if only a negative one. -/
theorem readVerdict_answers_p256 :
    ofBlob p256One.blob = .ok p256One ∧
      ∃ b, outcome (p256One.readVerdict .own [1]) (Packet.ofBytes
        (signatureMessage "ecdsa-sha2-nistp256" (EcdsaKey.signatureBytes 1 2))) = .ok b := by
  have hHolds := holdsSignature_signatureMessage "ecdsa-sha2-nistp256"
    (EcdsaKey.signatureBytes 1 2) (by decide) (by decide)
  refine ⟨ofBlob_p256One, (readVerdict_answers hHolds).1.mpr fun e hStumbles => ?_⟩
  have hRead : Packet.parse EcdsaKey.readSignature (EcdsaKey.signatureBytes 1 2) = .ok (1, 2) := by
    decide
  cases hStumbles with
  | fields _ hFields => exact hFields ⟨1, 2, EcdsaKey.parse_readSignature_eq_ok_iff.mp hRead⟩
  | negativeNumber _ hSpells hSign =>
    rw [← EcdsaKey.parse_readSignature_eq_ok_iff, hRead] at hSpells
    cases hSpells
    omega

/-- Keys that came from blobs fail on readable signature messages: an elliptic key on a signature
that is empty, and a DSA key whose order is negative on one of forty bytes. -/
theorem verify_fails :
    (ofBlob p256One.blob = .ok p256One ∧
      p256One.verify [] (signatureMessage "ecdsa-sha2-nistp256" []) = .error (.truncated 4 0)) ∧
    ofBlob (KeyBody.dsa smallestDsa).mirrored.blob =
        .ok { body := (KeyBody.dsa smallestDsa).mirrored } ∧
      verify { body := (KeyBody.dsa smallestDsa).mirrored } []
        (signatureMessage "ssh-dss" (Bytes.zeros 40)) = .error (.misuse .magnitude) := by
  have hMirrored := ofBlob_mirrored ofBlob_smallestDsa
  refine ⟨⟨ofBlob_p256One, ?_⟩, hMirrored, ?_⟩
  · let key : EcdsaKey := ⟨.p256, Curve.secp256r1.base, none⟩
    have hHolds := holdsSignature_signatureMessage "ecdsa-sha2-nistp256" [] (by decide) (by decide)
    have hOutcome : outcome (verifyEcdsa .own key []) _ = _ := outcome_verifyEcdsa hHolds
    have hName : "ecdsa-sha2-nistp256" = NistCurve.p256.keyType := by decide
    rw [if_pos hName] at hOutcome
    exact hOutcome
  · -- the check of the order counts its bits, which the sign does not change
    let key : DsaKey := { smallestDsa with q := -smallestDsa.q }
    have hHolds := holdsSignature_signatureMessage "ssh-dss" (Bytes.zeros 40) (by decide)
      (by decide)
    have hSize : TwosComplement.bitLength smallestDsa.p ∈ KeyBody.dsaModulusSizes := by
      decide +kernel
    have hOrder : -smallestDsa.q < 0 := by decide +kernel
    have hDomain : key.domain = .error (.misuse .magnitude) :=
      DsaKey.domain_eq_error_iff.mpr (.inr ⟨hSize, hOrder, rfl⟩)
    have hOutcome : outcome (verifyDsa .own key []) _ = _ := outcome_verifyDsa hHolds
    rw [if_pos ⟨rfl, rfl⟩, hDomain, Fallible.bind_error] at hOutcome
    rw [verify, verifyBy, Packet.parse_eq_outcome]
    exact hOutcome

end Key
end SshKeys
