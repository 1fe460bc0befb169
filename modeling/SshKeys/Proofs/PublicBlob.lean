import SshKeys.Proofs.KeyEntry
/-!
# Reading public keys in the wire format

A blob is read exactly if it is a type name with fields that spell numbers which pass the checks of
their class, and the public half of every key that an entry may hold is such a key.
-/
namespace SshKeys

namespace KeyBody

/-- The numbers of a key without private part pass the checks that the reader of blobs makes for its
class. -/
def PublicAccepted : KeyBody → Prop
  | .rsa k => k.secret = none ∧ ofRsaNumbers k.e k.n = .ok (.rsa k)
  | .dsa k => k.x = none ∧ ofDsaNumbers k.p k.q k.g k.y = .ok (.dsa k)
  | .ecdsa k => k.scalar = none ∧ k.curve.curve.contains k.point
  | .ed25519 k => k.seed = none ∧ k.publicKey.length = 32

/-- Whether string fields spell the public numbers of a key; integers may have any writing. -/
def PublicSpelledBy : KeyBody → List Bytes → Prop
  | .rsa k, fields => fields.map TwosComplement.decode = [(k.e : Int), k.n]
  | .dsa k, fields => fields.map TwosComplement.decode = [k.p, k.q, k.g, k.y]
  | .ecdsa k, fields => fields = [Utf8.encode k.curve.name, k.pointBytes]
  | .ed25519 k, fields => fields = [k.publicKey]

/-- The contents of the public fields as they are written. -/
def publicContents : KeyBody → List Bytes
  | .rsa k => [(k.e : Int), k.n].map Wire.integerBytes
  | .dsa k => [k.p, k.q, k.g, k.y].map Wire.integerBytes
  | .ecdsa k => [Utf8.encode k.curve.name, k.pointBytes]
  | .ed25519 k => [k.publicKey]

theorem blob_eq (body : KeyBody) :
    body.blob = (Utf8.encode body.name :: body.publicContents).flatMap Wire.string := by
  cases body <;> simp [blob, publicFields, publicContents, Wire.text, Wire.integer]

theorem publicSpelledBy_publicContents (body : KeyBody) :
    body.PublicSpelledBy body.publicContents := by
  cases body <;> simp [PublicSpelledBy, publicContents]

theorem ofRsaNumbers_sound {e n : Int} {body : KeyBody} (h : ofRsaNumbers e n = .ok body) :
    ∃ k, body = .rsa k ∧ k.secret = none ∧ [e, n] = [(k.e : Int), k.n] := by
  simp only [ofRsaNumbers, Fallible.bind_eq_ok_iff, Fallible.throwIf_eq_ok_iff,
    Fallible.throwUnless_eq_ok_iff, Fallible.pure_eq_ok_iff] at h
  obtain ⟨_, -, hSigns, -, rfl⟩ := h
  refine ⟨_, rfl, rfl, ?_⟩
  simp only [List.cons.injEq, and_true]
  omega

theorem ofDsaNumbers_sound {p q g y : Int} {body : KeyBody} (h : ofDsaNumbers p q g y = .ok body) :
    body = .dsa ⟨p, q, g, y, none⟩ := by
  simp only [ofDsaNumbers, Fallible.bind_eq_ok_iff, Fallible.pure_eq_ok_iff] at h
  obtain ⟨_, -, rfl⟩ := h
  rfl

variable {body : KeyBody} {p p' : Packet}

theorem name_mem_publicTypes (body : KeyBody) : body.name ∈ body.keyClass.publicTypes := by
  cases body with
  | rsa _ => exact List.mem_singleton.mpr rfl
  | dsa _ => exact List.mem_singleton.mpr rfl
  | ed25519 _ => exact List.mem_singleton.mpr rfl
  | ecdsa k =>
    have hMember : k.curve ∈ NistCurve.all := by cases k.curve <;> decide
    exact List.mem_map_of_mem hMember

theorem readPublic_sound {c : KeyClass} (h : readPublic c p = .ok body p') :
    body.keyClass = c ∧ body.PublicAccepted ∧ ∃ fields, body.PublicSpelledBy fields ∧
      p.rewind.FieldsAt (Utf8.encode body.name :: fields) p' := by
  simp only [readPublic, Stateful.bind_eq_ok_iff, Stateful.modify_eq_ok_iff,
    Packet.readText_eq_ok_iff, Stateful.throwUnless_eq_ok_iff, List.contains_iff_mem] at h
  obtain ⟨_, _, rfl, tag, p₁, hTagAt, hTag, h⟩ := h
  simp only [Packet.fieldsAt_cons_iff]
  cases c with
  | rsa =>
    simp only [readRsaPublic, Stateful.bind_eq_ok_iff, Packet.readInteger_eq_ok_iff,
      Packet.lift_eq_ok_iff] at h
    obtain ⟨_, p₂, ⟨e, rfl, he⟩, _, p₃, ⟨n, rfl, hn⟩, hChecks, rfl⟩ := h
    obtain ⟨k, rfl, hPublic, hNumbers⟩ := ofRsaNumbers_sound hChecks
    obtain rfl : tag = "ssh-rsa" := List.mem_singleton.mp hTag
    refine ⟨rfl, ⟨hPublic, ?_⟩, [e, n], hNumbers, p₁, hTagAt, ?_⟩
    · simp only [List.cons.injEq] at hNumbers
      rwa [hNumbers.1, hNumbers.2.1] at hChecks
    · simp only [Packet.fieldsAt_cons_iff, Packet.fieldsAt_nil_iff]
      exact ⟨p₂, he, p₃, hn, rfl⟩
  | dsa =>
    simp only [readDsaPublic, Stateful.bind_eq_ok_iff, Packet.readInteger_eq_ok_iff,
      Packet.lift_eq_ok_iff] at h
    obtain ⟨_, p₂, ⟨r, rfl, hr⟩, _, p₃, ⟨q, rfl, hq⟩, _, p₄, ⟨g, rfl, hg⟩, _, p₅, ⟨y, rfl, hy⟩,
      hChecks, rfl⟩ := h
    obtain rfl := ofDsaNumbers_sound hChecks
    obtain rfl : tag = "ssh-dss" := List.mem_singleton.mp hTag
    refine ⟨rfl, ⟨rfl, hChecks⟩, [r, q, g, y], rfl, p₁, hTagAt, ?_⟩
    simp only [Packet.fieldsAt_cons_iff, Packet.fieldsAt_nil_iff]
    exact ⟨p₂, hr, p₃, hq, p₄, hg, p₅, hy, rfl⟩
  | ecdsa =>
    simp only [readEcdsaPublic] at h
    cases hCurve : NistCurve.ofKeyType? tag with
    | none => simp only [hCurve, Stateful.throw_eq_ok_iff] at h
    | some curve =>
      simp only [hCurve, Stateful.bind_eq_ok_iff, Stateful.pure_eq_ok_iff, readPoint_eq_ok_iff] at h
      obtain ⟨q, p₃, ⟨hOn, hName, hPoint, hPointAt⟩, rfl, rfl⟩ := h
      obtain rfl : tag = curve.keyType := NistCurve.ofKeyType?_eq_some_iff.mp hCurve
      obtain ⟨p₂, hNameAt, hAt⟩ := Packet.advance_append_iff.mp hPointAt
      rw [← hNameAt.limit] at hPoint
      refine ⟨rfl, ⟨rfl, hOn⟩, _, rfl, p₁, hTagAt, ?_⟩
      simp only [Packet.fieldsAt_cons_iff, Packet.fieldsAt_nil_iff]
      exact ⟨p₂, ⟨hName, hNameAt⟩, p₃, ⟨hPoint, hAt⟩, rfl⟩
  | ed25519 =>
    simp only [readEd25519Public, Stateful.bind_eq_ok_iff, Stateful.pure_eq_ok_iff,
      readEd25519Bytes_eq_ok_iff] at h
    obtain ⟨publicKey, p₂, ⟨hSize, hAt⟩, rfl, rfl⟩ := h
    obtain rfl : tag = "ssh-ed25519" := List.mem_singleton.mp hTag
    refine ⟨rfl, ⟨rfl, hSize⟩, _, rfl, p₁, hTagAt, ?_⟩
    simp only [Packet.fieldsAt_cons_iff, Packet.fieldsAt_nil_iff]
    exact ⟨p₂, hAt, rfl⟩

theorem readPublic_complete {fields : List Bytes} (hAccepted : body.PublicAccepted)
    (hSpelled : body.PublicSpelledBy fields)
    (hAt : p.rewind.FieldsAt (Utf8.encode body.name :: fields) p') :
    readPublic body.keyClass p = .ok body p' := by
  obtain ⟨p₁, hTagAt, hFields⟩ := Packet.fieldsAt_cons_iff.mp hAt
  simp only [readPublic, Stateful.bind_eq_ok_iff, Stateful.modify_eq_ok_iff,
    Packet.readText_eq_ok_iff, Stateful.throwUnless_eq_ok_iff, List.contains_iff_mem]
  refine ⟨(), _, rfl, body.name, p₁, hTagAt, name_mem_publicTypes body, ?_⟩
  cases body with
  | rsa k =>
    obtain ⟨-, hChecks⟩ := hAccepted
    simp only [PublicSpelledBy, List.map_eq_cons_iff, List.map_eq_nil_iff] at hSpelled
    obtain ⟨e, _, rfl, hE, n, _, rfl, hN, rfl⟩ := hSpelled
    simp only [Packet.fieldsAt_cons_iff, Packet.fieldsAt_nil_iff] at hFields
    obtain ⟨p₂, he, p₃, hn, rfl⟩ := hFields
    simp only [keyClass, readRsaPublic, Stateful.bind_eq_ok_iff, Packet.readInteger_eq_ok_iff,
      Packet.lift_eq_ok_iff]
    exact ⟨_, p₂, ⟨e, hE, he⟩, _, p₃, ⟨n, hN, hn⟩, hChecks, rfl⟩
  | dsa k =>
    obtain ⟨-, hChecks⟩ := hAccepted
    simp only [PublicSpelledBy, List.map_eq_cons_iff, List.map_eq_nil_iff] at hSpelled
    obtain ⟨r, _, rfl, hR, q, _, rfl, hQ, g, _, rfl, hG, y, _, rfl, hY, rfl⟩ := hSpelled
    simp only [Packet.fieldsAt_cons_iff, Packet.fieldsAt_nil_iff] at hFields
    obtain ⟨p₂, hr, p₃, hq, p₄, hg, p₅, hy, rfl⟩ := hFields
    simp only [keyClass, readDsaPublic, Stateful.bind_eq_ok_iff, Packet.readInteger_eq_ok_iff,
      Packet.lift_eq_ok_iff]
    exact ⟨_, p₂, ⟨r, hR, hr⟩, _, p₃, ⟨q, hQ, hq⟩, _, p₄, ⟨g, hG, hg⟩, _, p₅, ⟨y, hY, hy⟩, hChecks,
      rfl⟩
  | ecdsa k =>
    obtain ⟨curve, point, scalar⟩ := k
    obtain ⟨rfl, hOn⟩ := hAccepted
    obtain rfl := hSpelled
    simp only [Packet.fieldsAt_cons_iff, Packet.fieldsAt_nil_iff] at hFields
    obtain ⟨p₂, ⟨hName, hNameAt⟩, p₃, ⟨hPoint, hPointAt⟩, rfl⟩ := hFields
    rw [hNameAt.limit] at hPoint
    simp only [keyClass, readEcdsaPublic, KeyBody.name, NistCurve.ofKeyType?_keyType,
      Stateful.bind_eq_ok_iff, Stateful.pure_eq_ok_iff, readPoint_eq_ok_iff]
    exact ⟨point, p₃, ⟨hOn, hName, hPoint, hNameAt.trans hPointAt⟩, rfl, rfl⟩
  | ed25519 k =>
    obtain ⟨publicKey, seed⟩ := k
    obtain ⟨rfl, hSize⟩ := hAccepted
    obtain rfl := hSpelled
    simp only [Packet.fieldsAt_cons_iff, Packet.fieldsAt_nil_iff] at hFields
    obtain ⟨p₂, hPublic, rfl⟩ := hFields
    simp only [keyClass, readEd25519Public, Stateful.bind_eq_ok_iff, Stateful.pure_eq_ok_iff,
      readEd25519Bytes_eq_ok_iff]
    exact ⟨publicKey, p₂, ⟨hSize, hPublic⟩, rfl, rfl⟩

theorem readWholePublic_eq_ok_iff {c : KeyClass} {tag : String} :
    readWholePublic c tag p = .ok body p' ↔ readPublic c p = .ok body p' ∧ p'.pending = [] := by
  simp only [readWholePublic, Stateful.bind_eq_ok_iff, Stateful.get_eq_ok_iff,
    Stateful.throwIf_eq_ok_iff, Stateful.pure_eq_ok_iff, not_not]
  constructor
  · rintro ⟨_, _, h, _, _, ⟨rfl, rfl⟩, hEnd, rfl, rfl⟩
    exact ⟨h, List.length_eq_zero_iff.mp hEnd⟩
  · rintro ⟨h, hEnd⟩
    exact ⟨body, p', h, p', p', ⟨rfl, rfl⟩, List.length_eq_zero_iff.mpr hEnd, rfl, rfl⟩

theorem publicHalf_samePublic (body : KeyBody) : body.publicHalf.samePublic body = true := by
  cases body <;> exact beq_self_eq_true _

theorem blob_publicHalf (body : KeyBody) : body.publicHalf.blob = body.blob := by
  cases body <;> rfl

theorem publicContents_publicHalf (body : KeyBody) :
    body.publicHalf.publicContents = body.publicContents := by
  cases body <;> rfl

theorem takes_name (body : KeyBody) : Packet.Takes Wire.fieldLimit (Utf8.encode body.name) := by
  cases body with
  | rsa _ => exact (by decide : Packet.Takes Wire.fieldLimit (Utf8.encode "ssh-rsa"))
  | dsa _ => exact (by decide : Packet.Takes Wire.fieldLimit (Utf8.encode "ssh-dss"))
  | ecdsa k =>
    change Packet.Takes Wire.fieldLimit (Utf8.encode k.curve.keyType)
    cases k.curve <;> decide
  | ed25519 _ => exact (by decide : Packet.Takes Wire.fieldLimit (Utf8.encode "ssh-ed25519"))

theorem Accepted.publicHalf (h : body.Accepted) : body.publicHalf.PublicAccepted := by
  cases body with
  | rsa k =>
    obtain ⟨s, -, hChecks⟩ := h
    simp only [ofRsaEntry, Fallible.bind_eq_ok_iff, checkRsaSize_eq_ok_iff,
      Fallible.throwIf_eq_ok_iff, Fallible.throwUnless_eq_ok_iff, Fallible.pure_eq_ok_iff] at hChecks
    obtain ⟨_, hSize, -, -, -, -, hRange, -⟩ := hChecks
    simp only [RsaNumbers.areInRange, Bool.and_eq_true, decide_eq_true_eq, and_assoc] at hRange
    obtain ⟨hModulus, -, -, -, -, -, -, hExponent, hBelow, hOdd, -⟩ := hRange
    refine ⟨rfl, ?_⟩
    simp only [ofRsaNumbers, Fallible.bind_eq_ok_iff, checkRsaSize_eq_ok_iff,
      Fallible.throwIf_eq_ok_iff, Fallible.throwUnless_eq_ok_iff, Fallible.pure_eq_ok_iff]
    refine ⟨(), hSize, by omega, ?_, rfl⟩
    simp only [isRsaPublic, Bool.and_eq_true, decide_eq_true_eq]
    exact ⟨⟨⟨hModulus, hExponent⟩, hBelow⟩, hOdd⟩
  | dsa k =>
    obtain ⟨x, -, hChecks⟩ := h
    simp only [ofDsaEntry, Fallible.bind_eq_ok_iff] at hChecks
    obtain ⟨_, hPublic, -⟩ := hChecks
    refine ⟨rfl, ?_⟩
    simp only [ofDsaNumbers, Fallible.bind_eq_ok_iff]
    exact ⟨(), hPublic, rfl⟩
  | ecdsa k =>
    obtain ⟨_, -, hOn, -⟩ := h
    exact ⟨rfl, hOn⟩
  | ed25519 k =>
    obtain ⟨_, -, hSize, -⟩ := h
    exact ⟨rfl, hSize⟩

theorem publicContents_subset {fields : List Bytes} (h : body.privateFields? = some fields) :
    body.publicContents ⊆ fields := by
  cases body with
  | rsa k =>
    obtain ⟨s, -, rfl⟩ := Option.map_eq_some_iff.mp h
    simp [publicContents]
  | dsa k =>
    obtain ⟨x, -, rfl⟩ := Option.map_eq_some_iff.mp h
    simp [publicContents]
  | ecdsa k =>
    obtain ⟨scalar, -, rfl⟩ := Option.map_eq_some_iff.mp h
    simp [publicContents]
  | ed25519 k =>
    obtain ⟨secret, -, rfl⟩ := Option.map_eq_some_iff.mp h
    simp [publicContents]

end KeyBody

namespace Key

/-- A blob reads as a key exactly if it is the type name of the key and fields that spell its
numbers, and these pass the checks of their class. -/
theorem ofBlob_eq_ok_iff {blob : Bytes} {k : Key} :
    ofBlob blob = .ok k ↔ k.comment = some "" ∧ k.body.PublicAccepted ∧
      ∃ fields, k.body.PublicSpelledBy fields ∧
        (∀ c ∈ Utf8.encode k.name :: fields, Packet.Takes Wire.fieldLimit c) ∧
        blob = (Utf8.encode k.name :: fields).flatMap Wire.string := by
  obtain ⟨body, comment⟩ := k
  simp only [ofBlob, Fallible.bind_eq_ok_iff, Packet.parse_eq_ok_iff, Packet.readText_eq_ok_iff]
  constructor
  · rintro ⟨tag, ⟨p₁, hTakes, hTagAt⟩, h⟩
    rw [ofTypedBlob] at h
    split at h
    · simp only [Fallible.bind_eq_ok_iff, Fallible.pure_eq_ok_iff, Packet.parse_eq_ok_iff,
        KeyBody.readWholePublic_eq_ok_iff] at h
      obtain ⟨_, ⟨p', hPublic, hEnd⟩, hKey⟩ := h
      cases hKey
      obtain ⟨-, hAccepted, fields, hSpelled, hFields, hAt⟩ := KeyBody.readPublic_sound hPublic
      refine ⟨rfl, hAccepted, fields, hSpelled, hFields, ?_⟩
      have hBlob := hAt.pending
      rwa [hEnd, List.append_nil] at hBlob
    · cases h
  · rintro ⟨rfl, hAccepted, fields, hSpelled, hFields, rfl⟩
    have hTag : Packet.Takes Wire.fieldLimit (Utf8.encode body.name) :=
      hFields _ (List.mem_cons_self ..)
    refine ⟨body.name, ⟨_, hTag, Packet.advance_past rfl⟩, ?_⟩
    simp only [ofTypedBlob, KeyBody.ofIdentifier?_name, Fallible.bind_eq_ok_iff, Fallible.pure_eq_ok_iff,
      Packet.parse_eq_ok_iff, KeyBody.readWholePublic_eq_ok_iff]
    exact ⟨body, ⟨_, KeyBody.readPublic_complete hAccepted hSpelled
      ⟨hFields, Packet.advance_past (List.append_nil _).symm⟩, rfl⟩, rfl⟩

theorem ofBlob_blob_publicHalf {k : Key} (hAccepted : k.body.publicHalf.PublicAccepted)
    (hTakes : ∀ c ∈ k.body.publicContents, Packet.Takes Wire.fieldLimit c) :
    ofBlob k.blob = .ok { body := k.body.publicHalf } := by
  rw [Key.blob, ← KeyBody.blob_publicHalf]
  refine ofBlob_eq_ok_iff.mpr ⟨rfl, hAccepted, k.body.publicHalf.publicContents,
    KeyBody.publicSpelledBy_publicContents _, ?_, KeyBody.blob_eq _⟩
  rw [List.forall_mem_cons, KeyBody.publicContents_publicHalf]
  exact ⟨KeyBody.takes_name _, hTakes⟩

theorem ofBlob_blob {k : Key} {fields : List Bytes} (hAccepted : k.body.Accepted)
    (hFields : k.body.privateFields? = some fields)
    (hTakes : ∀ c ∈ Utf8.encode k.name :: fields, Packet.Takes Wire.fieldLimit c) :
    ofBlob k.blob = .ok { body := k.body.publicHalf } := by
  rw [List.forall_mem_cons] at hTakes
  exact ofBlob_blob_publicHalf hAccepted.publicHalf fun c hMember =>
    hTakes.2 c (KeyBody.publicContents_subset hFields hMember)

end Key
end SshKeys
