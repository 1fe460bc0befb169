import SshKeys.Proofs.Acceptance
import SshKeys.Proofs.FieldPrime
import SshKeys.Proofs.StoredKey
/-!
# Keys as they are loaded from any container

The private numbers that a container gives pass the checks of their class, except in DER: DSA
numbers are not compared with the public one there, and RSA exponents are not bounded by the
modulus. Public keys are checked by every reader, so that none of them holds a private number.
-/
namespace SshKeys

namespace Der

namespace Reading

variable {α : Type} {a : α} {o : Option α} {first second : Reading α} {condition : Bool} {u : Unit}

theorem expect_eq_ok_iff : expect o = .ok a ↔ o = some a := by
  cases o with
  | none => exact ⟨nofun, nofun⟩
  | some b => exact ⟨fun h => congrArg some (Except.ok.inj h), fun h => by cases h; rfl⟩

theorem require_eq_ok_iff : require condition = .ok u ↔ condition = true := by
  cases condition <;> simp [require]

theorem orTry_eq_ok (h : orTry first second = .ok a) : first = .ok a ∨ second = .ok a := by
  unfold orTry at h
  split at h
  · exact .inr h
  · exact .inl h

end Reading

theorem Domain.curve_mem_named {e : Element} {curve : Curve} (h : Domain.curve e = .ok curve) :
    curve ∈ Curve.named := by
  unfold Domain.curve at h
  split at h
  · split at h
    · rename_i c hFound
      cases h
      exact List.mem_of_find?_eq_some hFound
    · cases h
  · exact List.mem_of_find?_eq_some (Reading.expect_eq_ok_iff.mp h)

namespace PrivateKey

/-- What the readers of DER see to: RSA numbers that belong together, a point that its scalar
derives on a curve with a name, a seed of full length. -/
def Sound : PrivateKey → Prop
  | rsa numbers => numbers.areSound = true
  | elliptic curve point scalar => curve ∈ Curve.named ∧ curve.publicPoint? scalar = some point
  | ed25519 seed => seed.length = 32
  | dsa .. | foreign _ => True

variable {bs : Bytes} {key : PrivateKey}

theorem readRsa_sound (h : readRsa bs = .ok key) : key.Sound := by
  rw [readRsa, Fallible.bind_eq_ok_iff] at h
  obtain ⟨ns, -, h⟩ := h
  split at h
  · simp only [Fallible.bind_eq_ok_iff, Reading.require_eq_ok_iff, Fallible.pure_eq_ok_iff] at h
    obtain ⟨-, -, -, hSound, rfl⟩ := h
    exact hSound
  · cases h

theorem readDsa_sound (h : readDsa bs = .ok key) : key.Sound := by
  rw [readDsa, Fallible.bind_eq_ok_iff] at h
  obtain ⟨ns, -, h⟩ := h
  split at h
  · simp only [Fallible.bind_eq_ok_iff, Fallible.pure_eq_ok_iff] at h
    obtain ⟨-, -, rfl⟩ := h
    trivial
  · cases h

theorem agreedCurve_mem_named {outer inner : Option Element} {curve : Curve}
    (h : agreedCurve outer inner = .ok curve) : curve ∈ Curve.named := by
  unfold agreedCurve at h
  split at h
  · split at h
    · exact Domain.curve_mem_named h
    · cases h
  · exact Domain.curve_mem_named h
  · exact Domain.curve_mem_named h
  · cases h

theorem readElliptic_sound {outer : Option Element} (h : readElliptic outer bs = .ok key) :
    key.Sound := by
  simp only [readElliptic, Fallible.bind_eq_ok_iff] at h
  obtain ⟨-, -, items, -, h⟩ := h
  split at h
  · simp only [Fallible.bind_eq_ok_iff, Reading.expect_eq_ok_iff] at h
    obtain ⟨secret, -, ⟨inner, octets⟩, -, _, -, curve, hCurve, _, -, point, hPoint, h⟩ := h
    have hSound : (elliptic curve point (Bytes.toNat secret)).Sound :=
      ⟨agreedCurve_mem_named hCurve, hPoint⟩
    cases octets with
    | none =>
      cases h
      exact hSound
    | some octets =>
      simp only [Fallible.bind_eq_ok_iff, Fallible.pure_eq_ok_iff] at h
      obtain ⟨-, -, rfl⟩ := h
      exact hSound
  · cases h

theorem readOctets_sound {algorithm : KeyAlgorithm} (h : readOctets bs algorithm = .ok key) :
    key.Sound := by
  cases algorithm with
  | rsa => exact readRsa_sound h
  | dsa domain =>
    simp only [readOctets, ofDsaSecret, Fallible.bind_eq_ok_iff, Fallible.pure_eq_ok_iff] at h
    obtain ⟨-, -, -, -, rfl⟩ := h
    trivial
  | elliptic parameters => exact readElliptic_sound h
  | ed25519 =>
    simp only [readOctets, Fallible.bind_eq_ok_iff, Reading.require_eq_ok_iff, beq_iff_eq,
      Fallible.pure_eq_ok_iff] at h
    obtain ⟨seed, -, -, hLength, rfl⟩ := h
    exact hLength
  | foreign kind =>
    cases kind with
    | diffieHellman =>
      rw [readOctets, Fallible.bind_eq_ok_iff] at h
      obtain ⟨-, -, h⟩ := h
      cases h
      trivial
    | _ =>
      simp only [readOctets, Fallible.bind_eq_ok_iff, Fallible.pure_eq_ok_iff] at h
      obtain ⟨-, -, -, -, rfl⟩ := h
      trivial
  | unknown => cases h

theorem readAny_sound (h : readAny bs = .ok key) : key.Sound := by
  simp only [readAny, Fallible.bind_eq_ok_iff] at h
  obtain ⟨-, -, items, -, h⟩ := h
  split at h
  · simp only [Fallible.bind_eq_ok_iff] at h
    obtain ⟨algorithm, -, octets, -, -, -, h⟩ := h
    exact readOctets_sound h
  · cases h

theorem readPlain_sound (h : readPlain bs = .ok key) : key.Sound := by
  rcases Reading.orTry_eq_ok h with h | h
  · exact readAny_sound h
  rcases Reading.orTry_eq_ok h with h | h
  · exact readRsa_sound h
  rcases Reading.orTry_eq_ok h with h | h
  · exact readElliptic_sound h
  · exact readDsa_sound h

theorem readEncrypted_sound {password : Option Bytes} (h : readEncrypted password bs = .ok key) :
    key.Sound := by
  simp only [readEncrypted, Fallible.bind_eq_ok_iff] at h
  obtain ⟨-, -, items, -, h⟩ := h
  split at h
  · simp only [Fallible.bind_eq_ok_iff] at h
    obtain ⟨scheme, -, text, -, h⟩ := h
    cases password with
    | none => cases h
    | some password =>
      simp only [Fallible.bind_eq_ok_iff] at h
      obtain ⟨plain, -, h⟩ := h
      exact readAny_sound h
  · cases h

theorem read_sound {password : Option Bytes} (h : read password bs = .ok key) : key.Sound := by
  rw [read] at h
  split at h
  · exact readEncrypted_sound h
  · cases h
  · rename_i found hFound
    split at h
    · cases h
    · cases h
      exact readPlain_sound hFound

end PrivateKey
end Der

theorem NistCurve.curve_of_ofCurve? {curve : Curve} {c : NistCurve} (hNamed : curve ∈ Curve.named)
    (h : NistCurve.ofCurve? curve = some c) : c.curve = curve := by
  have hArcs : ∀ c : NistCurve, ∀ curve ∈ Curve.named, c.curve.arcs = curve.arcs →
      c.curve = curve := by
    intro c
    cases c <;> decide
  exact hArcs c curve hNamed (by simpa using List.find?_some h)

namespace KeyBody

/-- DSA keys with proper public numbers whose private number is not worked with: it is out of range,
it does not derive the public number, or the modulus has a size without use. -/
def IsMismatched (body : KeyBody) : Prop :=
  ∃ k x, body = .dsa k ∧ k.x = some x ∧ checkDsa k.p k.q k.g k.y = .ok () ∧ ¬MatchesDsa k x

/-- RSA keys whose numbers belong together and whose exponents are out of the range that entries are
held to: the private one is one, or one of them is not below the modulus. -/
def IsOutOfRange (body : KeyBody) : Prop :=
  ∃ r : RsaNumbers, body = .rsa r.toKey ∧ r.areSound = true ∧ 2 ^ 1023 ≤ r.n ∧
    (r.d = 1 ∨ r.n ≤ r.d ∨ r.n ≤ r.e)

/-- The keys that DER may hold and entries may not. -/
def HeldOnlyInDer (body : KeyBody) : Prop := body.IsMismatched ∨ body.IsOutOfRange

theorem not_accepted_of_heldOnlyInDer {body : KeyBody} (h : body.HeldOnlyInDer) :
    ¬body.Accepted := by
  intro hAccepted
  rcases h with ⟨k, x, rfl, hx, -, hOther⟩ | ⟨r, rfl, hSound, -, hExponents⟩
  · obtain ⟨x', hx', -, hMatches⟩ := accepted_dsa_iff.mp hAccepted
    cases hx.symm.trans hx'
    exact hOther hMatches
  · obtain ⟨r', hSame, hRange, -, hExponent, -⟩ := accepted_rsa_iff.mp hAccepted
    cases (RsaNumbers.numbers?_toKey hSound).symm.trans hSame
    obtain ⟨hd, he⟩ := (RsaNumbers.areInRange_iff_of_areSound hSound).mp hRange
    omega

theorem canSign_of_heldOnlyInDer {body : KeyBody} (h : body.HeldOnlyInDer) :
    body.canSign = true := by
  rcases h with ⟨k, x, rfl, hx, -⟩ | ⟨r, rfl, -⟩
  · rw [canSign, hx]
    rfl
  · rfl

end KeyBody

theorem Der.PrivateKey.Sound.accepted {secret : Der.PrivateKey} {body : KeyBody}
    (hSound : secret.Sound) (h : secret.toBody = .ok body) :
    body.Accepted ∨ body.HeldOnlyInDer := by
  cases secret with
  | rsa numbers =>
    simp only [toBody, Fallible.bind_eq_ok_iff, Fallible.pure_eq_ok_iff] at h
    obtain ⟨_, hSize, rfl⟩ := h
    have hModulus : 2 ^ 1023 ≤ numbers.n := KeyBody.checkRsaSize_eq_ok_iff.mp hSize
    obtain ⟨hPositive, -⟩ := RsaNumbers.odd_parts_of_areSound hSound
    by_cases hExponents : numbers.d = 1 ∨ numbers.n ≤ numbers.d ∨ numbers.n ≤ numbers.e
    · exact .inr (.inr ⟨numbers, rfl, hSound, hModulus, hExponents⟩)
    · have hRange := (RsaNumbers.areInRange_iff_of_areSound hSound).mpr (by omega)
      exact .inl (KeyBody.accepted_rsa_iff.mpr ⟨numbers, RsaNumbers.numbers?_toKey hSound, hRange,
        hSound, by omega, hModulus⟩)
  | dsa domain y x =>
    simp only [toBody, Fallible.bind_eq_ok_iff, Fallible.pure_eq_ok_iff] at h
    obtain ⟨_, hChecks, rfl⟩ := h
    by_cases hMatches : KeyBody.MatchesDsa ⟨domain.p, domain.q, domain.g, y, some (Int.ofNat x)⟩
        (Int.ofNat x)
    · exact .inl (KeyBody.accepted_dsa_iff.mpr ⟨_, rfl, hChecks, hMatches⟩)
    · exact .inr (.inl ⟨_, _, rfl, rfl, hChecks, hMatches⟩)
  | elliptic curve point scalar =>
    rw [toBody] at h
    split at h
    · rename_i c hCurve
      cases h
      have hPoint : c.curve.publicPoint? scalar = some point := by
        rw [NistCurve.curve_of_ofCurve? hSound.1 hCurve]
        exact hSound.2
      obtain ⟨⟨hPositive, hOrder⟩, hDerived⟩ := Curve.publicPoint?_eq_some_iff.mp hPoint
      exact .inl (KeyBody.accepted_ecdsa_iff.mpr ⟨scalar, rfl, c.contains_baseMultiple? hDerived,
        ⟨hPositive, hOrder.trans c.order_lt⟩, hDerived⟩)
    · cases h
  | ed25519 seed =>
    cases h
    exact .inl (KeyBody.accepted_ed25519_iff.mpr ⟨seed, rfl, hSound, rfl⟩)
  | foreign kind => cases h

/-- What holds of the private keys that any container gives. -/
structure Key.Loaded (key : Key) : Prop where
  body : key.body.Accepted ∨ key.body.HeldOnlyInDer
  comment : key.comment.isSome = true

theorem Key.Stored.loaded {key : Key} (h : key.Stored) : key.Loaded := ⟨.inl h.body, h.comment⟩

namespace PemBlock

variable {b : PemBlock} {kind : PemKind} {data passphrase : Datum} {key : Key} {j j' : Journal}

theorem readPrivate_sound {secret : Der.PrivateKey}
    (h : b.readPrivate kind passphrase j = .ok secret j') : secret.Sound := by
  have hPlain {r : Der.Reading Der.PrivateKey} {f : Der.Refusal → Error}
      (hRead : r.mapError f = .ok secret) : r = .ok secret := by
    cases r with
    | error refusal => cases hRead
    | ok found => exact congrArg Except.ok (Except.ok.inj hRead)
  rw [readPrivate] at h
  by_cases hEncrypted : kind = .encryptedPrivate
  · rw [if_pos hEncrypted, Stateful.throwIf_eq_ok_iff] at h
    obtain ⟨-, h⟩ := h
    cases hPassword : passphrase.toBytes with
    | error e =>
      rw [hPassword] at h
      cases h
    | ok password =>
      rw [hPassword] at h
      exact Der.PrivateKey.read_sound (hPlain (Action.ofExcept_eq_ok_iff.mp h).1)
  · rw [if_neg hEncrypted] at h
    cases hType : b.header "proc-type" with
    | some procType =>
      simp only [hType, Stateful.bind_eq_ok_iff, Action.ofExcept_eq_ok_iff] at h
      obtain ⟨plain, _, -, hRead, -⟩ := h
      exact Der.PrivateKey.read_sound (hPlain hRead)
    | none =>
      rw [hType] at h
      exact Der.PrivateKey.read_sound (hPlain (Action.ofExcept_eq_ok_iff.mp h).1)

theorem loadPrivate_loaded (h : loadPrivate data passphrase j = .ok key j') : key.Loaded := by
  simp only [loadPrivate, Stateful.bind_eq_ok_iff, Action.ofExcept_eq_ok_iff,
    Fallible.bind_eq_ok_iff] at h
  obtain ⟨b, _, -, kind, _, -, _, _, -, secret, _, hRead, ⟨body, hBody, hChecked⟩, -⟩ := h
  rw [checkKind] at hChecked
  split at hChecked
  · cases hChecked
    exact ⟨(readPrivate_sound hRead).accepted hBody, rfl⟩
  · cases hChecked

end PemBlock

theorem KeyBody.PublicAccepted.canSign {body : KeyBody} (h : body.PublicAccepted) :
    body.canSign = false := by
  cases body <;> exact congrArg Option.isSome h.1

namespace Curve

variable {c : Curve} {bs : Bytes} {q : Point}

theorem contains_of_readUncompressed? (h : c.readUncompressed? bs = some q) :
    c.contains q = true := by
  unfold readUncompressed? at h
  split at h
  · split at h
    · simp only [Option.ite_none_right_eq_some, Option.some.injEq] at h
      obtain ⟨hOn, rfl⟩ := h
      exact hOn
    · cases h
  · cases h

theorem contains_of_readPoint? (h : c.readPoint? bs = some q) : c.contains q = true := by
  unfold readPoint? at h
  split at h
  all_goals try exact contains_of_readUncompressed? (Option.filter_eq_some_iff.mp h).1
  all_goals try exact contains_of_readUncompressed? h
  all_goals
    rw [readCompressed?] at h
    simp only [Option.ite_none_right_eq_some] at h
    obtain ⟨-, h⟩ := h
    split at h
    · simp only [Option.ite_none_right_eq_some, Option.some.injEq] at h
      obtain ⟨⟨hOn, -⟩, rfl⟩ := h
      exact hOn
    · cases h

end Curve

namespace Der.PublicKey

/-- What the readers of DER see to: RSA numbers in range, a point on a curve with a name, a key of
full length. -/
def Sound : PublicKey → Prop
  | rsa n e => KeyBody.isRsaPublic n e = true
  | elliptic curve point => curve ∈ Curve.named ∧ curve.contains point = true
  | ed25519 key => key.length = 32
  | dsa .. | foreign _ => True

variable {bs : Bytes} {given : PublicKey} {body : KeyBody}

theorem readRsa_sound (h : readRsa bs = .ok given) : given.Sound := by
  simp only [readRsa, Fallible.bind_eq_ok_iff] at h
  obtain ⟨-, -, items, -, h⟩ := h
  split at h
  · simp only [Fallible.bind_eq_ok_iff, Reading.require_eq_ok_iff, Fallible.pure_eq_ok_iff] at h
    obtain ⟨_, -, _, -, _, hRange, rfl⟩ := h
    exact hRange
  · cases h

theorem readOctets_sound {algorithm : KeyAlgorithm} (h : readOctets bs algorithm = .ok given) :
    given.Sound := by
  cases algorithm with
  | rsa => exact readRsa_sound h
  | dsa domain =>
    simp only [readOctets, Fallible.bind_eq_ok_iff, Fallible.pure_eq_ok_iff] at h
    obtain ⟨-, -, rfl⟩ := h
    trivial
  | elliptic parameters =>
    simp only [readOctets, Fallible.bind_eq_ok_iff, Reading.expect_eq_ok_iff,
      Fallible.pure_eq_ok_iff] at h
    obtain ⟨curve, hCurve, point, hPoint, rfl⟩ := h
    exact ⟨Domain.curve_mem_named hCurve, Curve.contains_of_readPoint? hPoint⟩
  | ed25519 =>
    simp only [readOctets, Fallible.bind_eq_ok_iff, Reading.require_eq_ok_iff, beq_iff_eq,
      Fallible.pure_eq_ok_iff] at h
    obtain ⟨-, hLength, rfl⟩ := h
    exact hLength
  | foreign kind =>
    cases kind with
    | diffieHellman =>
      rw [readOctets, Fallible.bind_eq_ok_iff] at h
      obtain ⟨-, -, h⟩ := h
      cases h
      trivial
    | _ =>
      simp only [readOctets, Fallible.bind_eq_ok_iff, Fallible.pure_eq_ok_iff] at h
      obtain ⟨-, -, rfl⟩ := h
      trivial
  | unknown => cases h

theorem read_sound (h : read bs = .ok given) : given.Sound := by
  rcases Reading.orTry_eq_ok h with h | h
  · simp only [readAny, Fallible.bind_eq_ok_iff] at h
    obtain ⟨-, -, items, -, h⟩ := h
    split at h
    · simp only [Fallible.bind_eq_ok_iff] at h
      obtain ⟨algorithm, -, octets, -, h⟩ := h
      exact readOctets_sound h
    · cases h
  · exact readRsa_sound h

theorem Sound.publicAccepted (hSound : given.Sound) (h : given.toBody = .ok body) :
    body.PublicAccepted := by
  cases given with
  | rsa n e =>
    simp only [toBody, Fallible.bind_eq_ok_iff, Fallible.pure_eq_ok_iff] at h
    obtain ⟨u, hSize, rfl⟩ := h
    refine ⟨rfl, ?_⟩
    simp only [KeyBody.ofRsaNumbers, Fallible.bind_eq_ok_iff, Fallible.throwIf_eq_ok_iff,
      Fallible.throwUnless_eq_ok_iff, Fallible.pure_eq_ok_iff]
    exact ⟨u, hSize, by omega, hSound, rfl⟩
  | dsa domain y =>
    obtain rfl := KeyBody.ofDsaNumbers_sound h
    exact ⟨rfl, h⟩
  | elliptic curve point =>
    rw [toBody] at h
    split at h
    · rename_i c hCurve
      cases h
      refine ⟨rfl, ?_⟩
      rw [NistCurve.curve_of_ofCurve? hSound.1 hCurve]
      exact hSound.2
    · cases h
  | ed25519 key =>
    cases h
    exact ⟨rfl, hSound⟩
  | foreign kind => cases h

end Der.PublicKey

namespace Key

variable {k : Key}

theorem publicAccepted_of_ofTypedBlob {keyType : String} {blob : Bytes}
    (h : ofTypedBlob keyType blob = .ok k) : k.body.PublicAccepted := by
  rw [ofTypedBlob] at h
  split at h
  · simp only [Fallible.bind_eq_ok_iff, Fallible.pure_eq_ok_iff, Packet.parse_eq_ok_iff,
      KeyBody.readWholePublic_eq_ok_iff] at h
    obtain ⟨body, ⟨_, hRead, -⟩, rfl⟩ := h
    exact (KeyBody.readPublic_sound hRead).2.1
  · cases h

theorem publicAccepted_of_ofLine {line : Datum} (h : ofLine line = .ok k) :
    k.body.PublicAccepted := by
  simp only [ofLine, ofPublicLine, Fallible.bind_eq_ok_iff, Fallible.pure_eq_ok_iff] at h
  obtain ⟨_, -, found, hFound, rfl⟩ := h
  have hAccepted : found.body.PublicAccepted := publicAccepted_of_ofTypedBlob hFound
  exact hAccepted

end Key

theorem PemBlock.publicAccepted_of_loadPublic {data : Datum} {comment : Option String} {key : Key}
    (h : loadPublic data comment = .ok key) : key.body.PublicAccepted := by
  simp only [loadPublic, Fallible.bind_eq_ok_iff] at h
  obtain ⟨b, -, kind, -, given, hRead, body, hBody, hChecked⟩ := h
  rw [checkKind] at hChecked
  split at hChecked
  · cases hChecked
    have hSound : given.Sound := by
      cases hFound : Der.PublicKey.read b.body with
      | error refusal =>
        rw [hFound] at hRead
        cases hRead
      | ok found =>
        rw [hFound] at hRead
        cases hRead
        exact Der.PublicKey.read_sound hFound
    exact hSound.publicAccepted hBody
  · cases hChecked

namespace KeyFile

variable {container : Container} {data passphrase : Datum} {keys : List Key} {key : Key}
  {j j' : Journal}

theorem publicAccepted_of_parsePublicKey (h : parsePublicKey data = .ok key) :
    key.body.PublicAccepted := by
  rw [parsePublicKey, Fallible.bind_eq_ok_iff] at h
  obtain ⟨label, -, h⟩ := h
  split at h
  · exact PemBlock.publicAccepted_of_loadPublic h
  · rw [Fallible.bind_eq_ok_iff] at h
    obtain ⟨line, -, h⟩ := h
    cases line with
    | some line => exact Key.publicAccepted_of_ofLine h
    | none => cases h

theorem keysIn_of_loadFrom (h : loadFrom container data passphrase j = .ok keys j') :
    container.isPublic = false ∧ ∃ i, keysIn container data passphrase j = .ok keys i := by
  have hPrivate : container.isPublic = false := by
    rw [loadFrom, Stateful.throwIf_eq_ok_iff] at h
    exact Bool.eq_false_iff.mpr h.1
  simp only [loadFrom_eq hPrivate, Stateful.bind_eq_ok_iff, Stateful.pure_eq_ok_iff] at h
  obtain ⟨_, i, hKeys, _, _, -, rfl, -⟩ := h
  exact ⟨hPrivate, i, hKeys⟩

theorem loadFrom_loaded (h : loadFrom container data passphrase j = .ok keys j') :
    ∀ k ∈ keys, k.Loaded := by
  obtain ⟨-, i, hKeys⟩ := keysIn_of_loadFrom h
  rw [keysIn] at hKeys
  split at hKeys
  · exact fun k hk => (Envelope.decodeKeys_stored hKeys k hk).loaded
  · rw [Stateful.map_eq_ok_iff] at hKeys
    obtain ⟨key, hKey, rfl⟩ := hKeys
    exact List.forall_mem_singleton.mpr (PemBlock.loadPrivate_loaded hKey)

theorem loadPrivateKeys_of_parsePrivateKey
    (h : parsePrivateKey data passphrase j = .ok key j') :
    ∃ others i, loadPrivateKeys data passphrase j = .ok (key :: others) i := by
  rw [parsePrivateKey, Stateful.bind_eq_ok_iff] at h
  obtain ⟨keys, i, hLoad, h⟩ := h
  cases keys with
  | nil => cases h
  | cons first others =>
    cases others with
    | nil =>
      rw [Stateful.pure_eq_ok_iff] at h
      rw [← h.1]
      exact ⟨[], i, hLoad⟩
    | cons second others =>
      simp only [Stateful.bind_eq_ok_iff, Stateful.pure_eq_ok_iff] at h
      obtain ⟨_, _, -, rfl, -⟩ := h
      exact ⟨second :: others, i, hLoad⟩

theorem parsePrivateKey_loaded (h : parsePrivateKey data passphrase j = .ok key j') :
    key.Loaded := by
  obtain ⟨others, i, hLoad⟩ := loadPrivateKeys_of_parsePrivateKey h
  obtain ⟨⟨container, _⟩, _, -, hKeys⟩ := Stateful.bind_eq_ok_iff.mp hLoad
  exact loadFrom_loaded hKeys key List.mem_cons_self

theorem reader_of_parse (h : parse data passphrase j = .ok key j') :
    parsePublicKey data = .ok key ∨ ∃ i, parsePrivateKey data passphrase i = .ok key j' := by
  simp only [parse, Stateful.bind_eq_ok_iff] at h
  obtain ⟨⟨container, _⟩, i, -, h⟩ := h
  split at h
  · exact .inl (Action.ofExcept_eq_ok_iff.mp h).1
  · exact .inr ⟨i, h⟩

theorem parse_loaded (h : parse data passphrase j = .ok key j') (hSigns : key.canSign = true) :
    key.Loaded := by
  rcases reader_of_parse h with hPublic | ⟨i, hPrivate⟩
  · rw [Key.canSign, (publicAccepted_of_parsePublicKey hPublic).canSign] at hSigns
    cases hSigns
  · exact parsePrivateKey_loaded hPrivate

end KeyFile
end SshKeys
