import SshKeys.Proofs.BlobCodec
import SshKeys.Proofs.Recognition
/-!
# What equality of keys looks at

The fields of a blob and those of a private section tell all numbers of a key, and the strings they
are written as come apart in one way only. So keys are the same exactly if their blobs are, and
identical exactly if they are written as the same section.
-/
namespace SshKeys

namespace Utf8

theorem encode_injective : Function.Injective encode := by
  intro s t h
  have hRead := decode?_encode s
  rw [h, decode?_encode] at hRead
  exact (Option.some.inj hRead).symm

end Utf8

namespace Wire

theorem integerBytes_injective : Function.Injective integerBytes :=
  Function.LeftInverse.injective decode_integerBytes

theorem map_integerBytes_inj {l l' : List Int} (h : l.map integerBytes = l'.map integerBytes) : l = l' :=
  List.map_injective_iff.mpr integerBytes_injective h

/-- As many strings on both sides end at the same place, whatever follows them. -/
theorem flatMap_string_append_inj {a b : List Bytes} {x y : Bytes} (hCount : a.length = b.length)
    (ha : ∀ c ∈ a, fits c.length) (hb : ∀ c ∈ b, fits c.length)
    (h : a.flatMap string ++ x = b.flatMap string ++ y) : a = b ∧ x = y := by
  induction a generalizing b with
  | nil =>
    cases b with
    | nil => exact ⟨rfl, h⟩
    | cons c' rest' => cases hCount
  | cons c rest ih =>
    cases b with
    | nil => cases hCount
    | cons c' rest' =>
      rw [List.forall_mem_cons] at ha hb
      rw [List.flatMap_cons, List.flatMap_cons, List.append_assoc, List.append_assoc] at h
      obtain ⟨rfl, hRest⟩ := string_append_inj ha.1 hb.1 h
      obtain ⟨rfl, hBehind⟩ := ih (Nat.succ.inj hCount) ha.2 hb.2 hRest
      exact ⟨rfl, hBehind⟩

end Wire

theorem Curve.uncompressed_inj {c : Curve} {q r : Point} (hq : c.contains q = true)
    (hr : c.contains r = true) (h : c.uncompressed q = c.uncompressed r) : q = r := by
  have hRead : c.readUncompressed? (c.uncompressed q) = some q :=
    readUncompressed?_eq_some_iff.mpr ⟨hq, rfl⟩
  rw [h, readUncompressed?_eq_some_iff.mpr ⟨hr, rfl⟩] at hRead
  exact (Option.some.inj hRead).symm

/-- The number of private fields. -/
def KeyClass.privateCount : KeyClass → Nat
  | .rsa => 6
  | .dsa => 5
  | .ecdsa => 3
  | .ed25519 => 2

namespace KeyBody

variable {a b : KeyBody} {fields : List Bytes}

/-- The point of an elliptic key lies on its curve. -/
def OnCurve : KeyBody → Prop
  | .ecdsa k => k.curve.curve.contains k.point = true
  | .rsa _ | .dsa _ | .ed25519 _ => True

theorem PublicAccepted.onCurve (h : a.publicHalf.PublicAccepted) : a.OnCurve := by
  cases a with
  | ecdsa k => exact h.2
  | rsa _ | dsa _ | ed25519 _ => trivial

theorem keyClass_eq_of_name_eq (h : a.name = b.name) : a.keyClass = b.keyClass := by
  have hClass := a.ofIdentifier?_name
  have hClass' := b.ofIdentifier?_name
  rw [h, hClass'] at hClass
  exact (Option.some.inj hClass).symm

theorem curve_eq_of_name_eq {k k' : EcdsaKey} (h : (ecdsa k).name = (ecdsa k').name) :
    k.curve = k'.curve := by
  have hCurve := NistCurve.ofKeyType?_keyType k.curve
  rw [show k.curve.keyType = k'.curve.keyType from h, NistCurve.ofKeyType?_keyType] at hCurve
  exact (Option.some.inj hCurve).symm

/-- Type name and public fields tell the public numbers. -/
theorem publicHalf_eq_of_publicContents_eq (ha : a.OnCurve) (hb : b.OnCurve) (hName : a.name = b.name)
    (h : a.publicContents = b.publicContents) : a.publicHalf = b.publicHalf := by
  have hClass := keyClass_eq_of_name_eq hName
  cases a with
  | rsa k =>
    cases b with
    | rsa k' =>
      have hNumbers := Wire.map_integerBytes_inj h
      simp only [List.cons.injEq, Int.natCast_inj, and_true] at hNumbers
      obtain ⟨hExponent, hModulus⟩ := hNumbers
      simp only [publicHalf, hExponent, hModulus]
    | dsa _ | ecdsa _ | ed25519 _ => cases hClass
  | dsa k =>
    cases b with
    | dsa k' =>
      have hNumbers := Wire.map_integerBytes_inj h
      simp only [List.cons.injEq, and_true] at hNumbers
      obtain ⟨hModulus, hOrder, hGenerator, hPublic⟩ := hNumbers
      simp only [publicHalf, hModulus, hOrder, hGenerator, hPublic]
    | rsa _ | ecdsa _ | ed25519 _ => cases hClass
  | ecdsa k =>
    cases b with
    | ecdsa k' =>
      obtain ⟨curve, point, scalar⟩ := k
      obtain ⟨curve', point', scalar'⟩ := k'
      obtain rfl : curve = curve' := curve_eq_of_name_eq hName
      obtain ⟨-, hPoint⟩ := List.cons.inj h
      obtain rfl := Curve.uncompressed_inj ha hb (List.cons.inj hPoint).1
      rfl
    | rsa _ | dsa _ | ed25519 _ => cases hClass
  | ed25519 k =>
    cases b with
    | ed25519 k' =>
      obtain ⟨hPublic, -⟩ := List.cons.inj h
      simp only [publicHalf, hPublic]
    | rsa _ | dsa _ | ecdsa _ => cases hClass

theorem eq_of_privateFields?_eq (ha : a.OnCurve) (hb : b.OnCurve) (hName : a.name = b.name)
    (hFields : a.privateFields? = some fields) (hFields' : b.privateFields? = some fields) : a = b := by
  have hClass := keyClass_eq_of_name_eq hName
  cases a with
  | rsa k =>
    cases b with
    | rsa k' =>
      obtain ⟨n, e, secret⟩ := k
      obtain ⟨n', e', secret'⟩ := k'
      obtain ⟨⟨d, iqmp, p, q⟩, rfl, rfl⟩ := Option.map_eq_some_iff.mp hFields
      obtain ⟨⟨d', iqmp', p', q'⟩, rfl, h⟩ := Option.map_eq_some_iff.mp hFields'
      have hNumbers := Wire.map_integerBytes_inj h
      simp only [List.cons.injEq, Int.natCast_inj, and_true] at hNumbers
      obtain ⟨rfl, rfl, rfl, rfl, rfl, rfl⟩ := hNumbers
      rfl
    | dsa _ | ecdsa _ | ed25519 _ => cases hClass
  | dsa k =>
    cases b with
    | dsa k' =>
      obtain ⟨p, q, g, y, x⟩ := k
      obtain ⟨p', q', g', y', x'⟩ := k'
      obtain ⟨x, rfl, rfl⟩ := Option.map_eq_some_iff.mp hFields
      obtain ⟨x', rfl, h⟩ := Option.map_eq_some_iff.mp hFields'
      have hNumbers := Wire.map_integerBytes_inj h
      simp only [List.cons.injEq, and_true] at hNumbers
      obtain ⟨rfl, rfl, rfl, rfl, rfl⟩ := hNumbers
      rfl
    | rsa _ | ecdsa _ | ed25519 _ => cases hClass
  | ecdsa k =>
    cases b with
    | ecdsa k' =>
      obtain ⟨curve, point, scalar⟩ := k
      obtain ⟨curve', point', scalar'⟩ := k'
      obtain rfl : curve = curve' := curve_eq_of_name_eq hName
      cases scalar with
      | none => cases hFields
      | some scalar =>
        cases scalar' with
        | none => cases hFields'
        | some scalar' =>
          cases hFields
          have h := Option.some.inj hFields'
          simp only [List.cons.injEq, true_and, and_true] at h
          obtain ⟨hPoint, hScalar⟩ := h
          obtain rfl := Curve.uncompressed_inj hb ha hPoint
          obtain rfl := Int.ofNat.inj (Wire.integerBytes_injective hScalar)
          rfl
    | rsa _ | dsa _ | ed25519 _ => cases hClass
  | ed25519 k =>
    cases b with
    | ed25519 k' =>
      obtain ⟨publicKey, seed⟩ := k
      obtain ⟨publicKey', seed'⟩ := k'
      obtain ⟨secret, hSecret, rfl⟩ := Option.map_eq_some_iff.mp hFields
      obtain ⟨secret', hSecret', h⟩ := Option.map_eq_some_iff.mp hFields'
      obtain ⟨seed, rfl, rfl⟩ := Option.map_eq_some_iff.mp hSecret
      obtain ⟨seed', rfl, rfl⟩ := Option.map_eq_some_iff.mp hSecret'
      simp only [List.cons.injEq, and_true] at h
      obtain ⟨rfl, hSecret⟩ := h
      obtain rfl := List.append_cancel_right hSecret
      rfl
    | rsa _ | dsa _ | ecdsa _ => cases hClass

theorem length_privateFields? (h : a.privateFields? = some fields) :
    fields.length = a.keyClass.privateCount := by
  cases a with
  | rsa k | dsa k | ecdsa k | ed25519 k =>
    obtain ⟨_, -, rfl⟩ := Option.map_eq_some_iff.mp h
    rfl

end KeyBody

namespace Key

variable {a b : Key}

/-- However a key has been obtained, its point is on its curve. -/
theorem Obtained.onCurve (h : a.Obtained) : a.body.OnCurve := by
  rcases h.publicAccepted with hAccepted | ⟨k, hBody, -⟩
  · exact hAccepted.onCurve
  · rw [hBody]
    trivial

theorem blob_eq_of_sameKey (h : a.sameKey b = true) : a.blob = b.blob := by
  have hHalf : a.body.publicHalf = b.body.publicHalf := beq_iff_eq.mp h
  rw [blob, blob, ← KeyBody.blob_publicHalf, hHalf, KeyBody.blob_publicHalf]

theorem sameKey_of_blob_eq (ha : a.body.OnCurve) (hb : b.body.OnCurve)
    (hFits : ∀ c ∈ a.body.publicContents, Wire.fits c.length)
    (hFits' : ∀ c ∈ b.body.publicContents, Wire.fits c.length) (h : a.blob = b.blob) :
    a.sameKey b = true := by
  have fits {k : Key} (hFits : ∀ c ∈ k.body.publicContents, Wire.fits c.length) :
      ∀ c ∈ Utf8.encode k.body.name :: k.body.publicContents, Wire.fits c.length :=
    List.forall_mem_cons.mpr ⟨k.body.takes_name.1, hFits⟩
  rw [blob, blob, KeyBody.blob_eq, KeyBody.blob_eq] at h
  obtain ⟨hName, hContents⟩ := List.cons.inj (Wire.flatMap_string_inj (fits hFits) (fits hFits') h)
  exact beq_iff_eq.mpr
    (KeyBody.publicHalf_eq_of_publicContents_eq ha hb (Utf8.encode_injective hName) hContents)

theorem identical_iff : a.identical b = true ↔ a = b := by
  obtain ⟨body, comment⟩ := a
  obtain ⟨body', comment'⟩ := b
  simp only [identical, sameKey, KeyBody.samePublic, Bool.and_eq_true, beq_iff_eq, mk.injEq]
  constructor
  · rintro ⟨⟨-, hComment⟩, hBody⟩
    exact ⟨hBody, hComment⟩
  · rintro ⟨rfl, rfl⟩
    exact ⟨⟨rfl, rfl⟩, rfl⟩

/-- What is written for a key tells the key, whatever follows. -/
theorem eq_of_fieldsOf {x y : Bytes} (ha : a.body.OnCurve) (hb : b.body.OnCurve)
    (hSigns : a.canSign = true) (hSigns' : b.canSign = true) (hComment : a.comment.isSome)
    (hComment' : b.comment.isSome) (hFits : ∀ c ∈ PrivateSection.fieldsOf a, Wire.fits c.length)
    (hFits' : ∀ c ∈ PrivateSection.fieldsOf b, Wire.fits c.length)
    (h : (PrivateSection.fieldsOf a).flatMap Wire.string ++ x =
      (PrivateSection.fieldsOf b).flatMap Wire.string ++ y) : a = b := by
  obtain ⟨body, comment⟩ := a
  obtain ⟨body', comment'⟩ := b
  obtain ⟨fields, hFields⟩ :=
    Option.isSome_iff_exists.mp ((KeyBody.isSome_privateFields? body).trans hSigns)
  obtain ⟨fields', hFields'⟩ :=
    Option.isSome_iff_exists.mp ((KeyBody.isSome_privateFields? body').trans hSigns')
  obtain ⟨text, rfl⟩ := Option.isSome_iff_exists.mp hComment
  obtain ⟨text', rfl⟩ := Option.isSome_iff_exists.mp hComment'
  simp only [PrivateSection.fieldsOf, hFields, hFields', Option.getD_some, name, commentText]
    at hFits hFits' h
  have hName : body.name = body'.name := by
    rw [List.forall_mem_cons] at hFits hFits'
    rw [List.flatMap_cons, List.flatMap_cons, List.append_assoc, List.append_assoc] at h
    exact Utf8.encode_injective (Wire.string_append_inj hFits.1 hFits'.1 h).1
  have hCount : fields.length = fields'.length := by
    rw [KeyBody.length_privateFields? hFields, KeyBody.length_privateFields? hFields',
      KeyBody.keyClass_eq_of_name_eq hName]
  obtain ⟨hWritten, -⟩ := Wire.flatMap_string_append_inj (by simp [hCount]) hFits hFits' h
  obtain ⟨hPrivate, hText⟩ := List.append_inj (List.cons.inj hWritten).2 hCount
  rw [← hPrivate] at hFields'
  obtain rfl := KeyBody.eq_of_privateFields?_eq ha hb hName hFields hFields'
  obtain rfl := Utf8.encode_injective (List.cons.inj hText).1
  rfl

end Key

namespace PrivateSection

variable {a b : Key} {blockSize : Nat} {check : Int}

/-- Both keys alone are written as the same section. -/
def SameSection (a b : Key) (blockSize : Nat) (check : Int) : Prop :=
  ∃ plain, build [a] blockSize check = .ok plain ∧ build [b] blockSize check = .ok plain

theorem SameSection.eq (h : SameSection a b blockSize check) (ha : a.body.OnCurve)
    (hb : b.body.OnCurve) (hSigns : a.canSign = true) (hSigns' : b.canSign = true)
    (hComment : a.comment.isSome) (hComment' : b.comment.isSome) : a = b := by
  obtain ⟨plain, hBuild, hBuild'⟩ := h
  obtain ⟨-, hFits, hPlain⟩ :=
    (build_eq_ok_iff (KeyFile.isSome_privateFields?_of_canSign hSigns)).mp hBuild
  obtain ⟨-, hFits', hPlain'⟩ :=
    (build_eq_ok_iff (KeyFile.isSome_privateFields?_of_canSign hSigns')).mp hBuild'
  simp only [List.flatMap_cons, List.flatMap_nil, List.append_nil] at hFits hFits'
  -- the check numbers are the same on both sides, and the padding comes behind all that tells the key
  have hSame : bytesOf [a] blockSize check.toNat = bytesOf [b] blockSize check.toNat :=
    hPlain.symm.trans hPlain'
  simp only [bytesOf, List.flatMap_cons, List.flatMap_nil, List.append_nil, List.append_assoc,
    List.append_cancel_left_eq] at hSame
  exact Key.eq_of_fieldsOf ha hb hSigns hSigns' hComment hComment' hFits hFits' hSame

theorem sameSection_self (hSigns : a.canSign = true) (hFits : ∀ c ∈ fieldsOf a, Wire.fits c.length)
    (hCheck : 0 ≤ check ∧ check < 4294967296) (blockSize : Nat) :
    SameSection a a blockSize check := by
  have hBuild : build [a] blockSize check = .ok (bytesOf [a] blockSize check.toNat) := by
    refine (build_eq_ok_iff (KeyFile.isSome_privateFields?_of_canSign hSigns)).mpr
      ⟨hCheck, ?_, rfl⟩
    simpa using hFits
  exact ⟨_, hBuild, hBuild⟩

end PrivateSection

namespace Key

open PrivateSection in
/-- Keys are the same if and only if their blobs are. Private keys with comments are identical if and
only if their sections are the same, for any block size and any check number as well as for all. Both
hold of all keys that can be written at all. -/
theorem sameKey_iff_and_identical_iff {a b : Key} (ha : a.body.OnCurve) (hb : b.body.OnCurve)
    (hFits : ∀ c ∈ a.body.publicContents, Wire.fits c.length)
    (hFits' : ∀ c ∈ b.body.publicContents, Wire.fits c.length) :
    (a.sameKey b = true ↔ a.blob = b.blob) ∧
    (a.canSign = true → b.canSign = true → a.comment.isSome → b.comment.isSome →
      (∀ c ∈ fieldsOf a, Wire.fits c.length) →
      (a.identical b = true ↔ ∃ blockSize check, 1 ≤ blockSize ∧ (0 ≤ check ∧ check < 2 ^ 32) ∧
        SameSection a b blockSize check) ∧
      (a.identical b = true ↔ ∀ blockSize check, 1 ≤ blockSize → 0 ≤ check ∧ check < 2 ^ 32 →
        SameSection a b blockSize check)) := by
  refine ⟨⟨blob_eq_of_sameKey, sameKey_of_blob_eq ha hb hFits hFits'⟩, ?_⟩
  intro hSigns hSigns' hComment hComment' hFields
  have always (h : a.identical b = true) {blockSize : Nat} {check : Int}
      (hCheck : 0 ≤ check ∧ check < 2 ^ 32) : SameSection a b blockSize check := by
    obtain rfl := identical_iff.mp h
    exact sameSection_self hSigns hFields hCheck blockSize
  have once {blockSize : Nat} {check : Int} (h : SameSection a b blockSize check) :
      a.identical b = true :=
    identical_iff.mpr (h.eq ha hb hSigns hSigns' hComment hComment')
  refine ⟨⟨fun h => ?_, ?_⟩, ⟨fun h _ _ _ hCheck => always h hCheck, fun h => ?_⟩⟩
  · exact ⟨1, 0, le_rfl, by decide, always h (by decide)⟩
  · rintro ⟨blockSize, check, -, -, hSection⟩
    exact once hSection
  · exact once (h 1 0 le_rfl (by decide))

/-- Under another comment a key has the same blob, but no section of it is the same. -/
theorem sameKey_and_identical_commented :
    (Envelope.plainKey "home").blob = (Envelope.plainKey "work").blob ∧
      ¬∃ blockSize check, 1 ≤ blockSize ∧ (0 ≤ check ∧ check < 2 ^ 32) ∧
        PrivateSection.SameSection (Envelope.plainKey "home") (Envelope.plainKey "work") blockSize
          check := by
  have hOnCurve : (Envelope.plainKey "home").body.OnCurve :=
    KeyBody.accepted_p256_one.publicHalf.onCurve
  have hFits : ∀ c ∈ (Envelope.plainKey "home").body.publicContents, Wire.fits c.length := by
    decide +kernel
  have hFields : ∀ c ∈ PrivateSection.fieldsOf (Envelope.plainKey "home"), Wire.fits c.length := by
    decide +kernel
  obtain ⟨hBlob, hSection⟩ := sameKey_iff_and_identical_iff (b := Envelope.plainKey "work") hOnCurve
    hOnCurve hFits hFits
  refine ⟨hBlob.mp (beq_iff_eq.mpr rfl), fun hSame => ?_⟩
  have hIdentical := identical_iff.mp ((hSection rfl rfl rfl rfl hFields).1.mpr hSame)
  exact absurd (congrArg Key.comment hIdentical) (by decide)

end Key
end SshKeys
