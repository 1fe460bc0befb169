import SshKeys.Proofs.KeyFileRoundTrip
/-!
# Key files as raw bytes and in armour

What is in armour is read as the bytes that it holds. Raw bytes are read as they are, unless the
begin marker of armour occurs anywhere in them, be it in a comment: then they are taken for text,
and whether they are an envelope no longer matters.
-/
namespace SshKeys

namespace Utf8

theorem encode_append (s t : String) : encode (s ++ t) = encode s ++ encode t := by
  simp [encode, String.toUTF8]

theorem prefix_of_encode {s t : String} (h : encode s <+: encode t) : s.toList <+: t.toList := by
  obtain ⟨rest, hBytes⟩ := h
  apply List.isPrefix_of_utf8Encode_append_eq_utf8Encode ⟨rest.toArray⟩
  rw [String.utf8Encode_toList, String.utf8Encode_toList]
  apply ByteArray.ext
  rw [ByteArray.data_append, ← Array.toList_inj, Array.toList_append]
  exact hBytes

end Utf8

namespace Armour

/-- The bytes that mark armour. -/
def mark : Bytes := Utf8.encode (String.ofList beginMarker)

theorem occurs_iff {pattern bs : Bytes} : occurs pattern bs = true ↔ pattern <:+: bs := by
  induction bs with
  | nil => rw [occurs, List.isEmpty_iff, List.infix_nil]
  | cons b bs ih =>
    rw [occurs, Bool.or_eq_true, List.isPrefixOf_iff_prefix, ih, List.infix_cons_iff]

theorem mark_infix_encode (bs : Bytes) : mark <:+: Utf8.encode (encode bs) := by
  have hSplit : ∃ rest, encode bs = String.ofList beginMarker ++ rest := by
    refine ⟨String.ofList ('\n' :: (Bytes.chunks lineWidth (Base64.encode bs) ++
      [endMarker]).flatMap (· ++ ['\n'])), ?_⟩
    rw [← String.ofList_append, encode, unlines, List.cons_append, List.flatMap_cons,
      List.append_assoc]
    rfl
  obtain ⟨rest, hRest⟩ := hSplit
  rw [hRest, Utf8.encode_append]
  exact (List.prefix_append _ _).isInfix

end Armour

namespace Envelope

/-- The keys of an envelope in some bytes. -/
def unlock (data : Bytes) (passphrase : Datum) : Action (List Key) := do
  let e ← load data
  return (← e.decrypt passphrase).entries

variable {data : Bytes} {e : Envelope} {passphrase : Datum} {i : Journal}

theorem unlock_eq {i' : Journal} (h : load data i = .ok e i') :
    unlock data passphrase i = (PrivateSection.entries <$> e.decrypt passphrase) i' := by
  rw [unlock, Stateful.bind_ok h]
  rfl

theorem decodeKeys_unmarked (h : ¬Armour.mark <:+: data) :
    decodeKeys (.bytes data) passphrase i = unlock data passphrase i := by
  have hMark : Armour.isMarked (.bytes data) = .ok false := by
    have hOccurs : Armour.occurs Armour.mark data = false := by
      rwa [← Bool.not_eq_true, Armour.occurs_iff]
    change Except.ok (Armour.occurs Armour.mark data) = _
    rw [hOccurs]
  simp only [decodeKeys]
  rw [hMark]
  rfl

theorem decodeKeys_marked (h : Armour.mark <:+: data) :
    decodeKeys (.bytes data) passphrase i =
      match Utf8.decode? data with
      | some s => decodeKeys (.text s) passphrase i
      | none => .error .notText i := by
  have hMark : Armour.isMarked (.bytes data) = .ok true := by
    change Except.ok (Armour.occurs Armour.mark data) = _
    rw [Armour.occurs_iff.mpr h]
  simp only [decodeKeys]
  rw [hMark]
  change ((do
    let raw ← Action.ofExcept (Armour.decode (.bytes data))
    unlock raw passphrase) : Action (List Key)) i = _
  rw [Armour.decode]
  cases hText : Utf8.decode? data with
  | none =>
    rw [Datum.toTextOr_undecodable _ hText]
    rfl
  | some s =>
    obtain rfl := Utf8.eq_encode_of_decode? hText
    rw [Datum.toTextOr_encode]
    rfl

theorem decodeKeys_armoured_bytes (data : Bytes) :
    decodeKeys (.bytes (Utf8.encode (Armour.encode data))) passphrase i =
      unlock data passphrase i := by
  rw [decodeKeys_marked (Armour.mark_infix_encode data), Utf8.decode?_encode]
  exact decodeKeys_armour data passphrase i

/-- A key file in armour, as text or as the bytes of that text, has the keys of the envelope that it
holds. The same file as raw bytes has them too if the begin marker of armour does not occur in it;
otherwise it is read as the text that it spells, and refused where it spells none. -/
theorem decodeKeys_raw_or_armoured (h : ofBytes data = .ok e) (i : Journal) :
    ∃ i', load data i = .ok e i' ∧ ∀ passphrase : Datum,
      let outcome := (PrivateSection.entries <$> e.decrypt passphrase) i'
      decodeKeys (.text (Armour.encode data)) passphrase i = outcome ∧
      decodeKeys (.bytes (Utf8.encode (Armour.encode data))) passphrase i = outcome ∧
      (¬Armour.mark <:+: data → decodeKeys (.bytes data) passphrase i = outcome) ∧
      (Armour.mark <:+: data → decodeKeys (.bytes data) passphrase i =
        match Utf8.decode? data with
        | some s => decodeKeys (.text s) passphrase i
        | none => .error .notText i) := by
  obtain ⟨i', hLoad⟩ := load_ok h i
  refine ⟨i', hLoad, fun passphrase => ⟨?_, ?_, fun hMark => ?_, decodeKeys_marked⟩⟩
  · rw [← unlock_eq hLoad]
    exact decodeKeys_armour data passphrase i
  · rw [decodeKeys_armoured_bytes, unlock_eq hLoad]
  · rw [decodeKeys_unmarked hMark, unlock_eq hLoad]

/-- The key of the smallest scalar, with a given comment. -/
def plainKey (comment : String) : Key :=
  ⟨.ecdsa ⟨.p256, Curve.secp256r1.base, some 1⟩, some comment⟩

/-- An envelope around that key which is not encrypted. -/
def plainOf (comment : String) : Envelope :=
  ⟨"none", Stretching.none, [(plainKey comment).blob],
    PrivateSection.bytesOf [plainKey comment] CipherSuite.none.blockSize 7⟩

theorem ofBytes_unsealed {blob payload : Bytes} (hBlob : blob.length ≤ Wire.fieldLimit)
    (hPayload : payload.length ≤ Wire.fieldLimit) (hSome : payload ≠ [])
    (hWhole : payload.length % CipherSuite.none.blockSize = 0) :
    ofBytes (magic ++ (⟨"none", Stretching.none, [blob], payload⟩ : Envelope).fieldBytes []) =
      .ok ⟨"none", Stretching.none, [blob], payload⟩ := by
  have hForm : (⟨"none", Stretching.none, [blob], payload⟩ : Envelope).WellFormed :=
    ⟨⟨CipherSuite.none, List.mem_cons_self, rfl, hWhole⟩, .none, fun _ => rfl,
      List.cons_ne_nil _ _, hSome⟩
  have hWithin : (⟨"none", Stretching.none, [blob], payload⟩ : Envelope).Within Wire.fieldLimit :=
    ⟨List.forall_mem_singleton.mpr hBlob, hPayload, [], rfl, Nat.zero_le _⟩
  have fits : ∀ {n : Nat}, n ≤ Wire.fieldLimit → Wire.fits n := fun hLength =>
    Wire.fits_iff.mpr (hLength.trans_lt (by decide))
  exact ofBytes_eq_ok_iff.mpr ⟨hForm, hWithin, toBytes_eq_ok_iff.mpr ⟨[], rfl,
    ⟨(takes_cipherName hForm).1, (takes_stretchingName hForm).1, rfl⟩, rfl,
    ⟨fun blob hBlob => fits (hWithin.blobs blob hBlob), fits hWithin.payload⟩, rfl⟩⟩

section Unsealed

/-- An envelope around one key which is not encrypted. -/
def unsealedOf (key : Key) : Envelope :=
  ⟨"none", Stretching.none, [key.blob],
    PrivateSection.bytesOf [key] CipherSuite.none.blockSize 7⟩

variable {key : Key} (hAccepted : key.body.Accepted)
  (hSize : PrivateSection.size [key] CipherSuite.none.blockSize ≤ Wire.fieldLimit)
include hAccepted hSize

theorem ofBytes_unsealedOf :
    ofBytes (magic ++ (unsealedOf key).fieldBytes []) = .ok (unsealedOf key) := by
  have hPayload : (unsealedOf key).payload.length =
      PrivateSection.size [key] CipherSuite.none.blockSize :=
    PrivateSection.length_bytesOf _ _ _
  obtain ⟨fields, hFields, -⟩ := hAccepted.privateFields
  have hBlob : key.blob.length ≤ Wire.fieldLimit :=
    (PrivateSection.length_blob_le_size List.mem_cons_self
      (Option.isSome_iff_exists.mpr ⟨fields, hFields⟩) _).trans hSize
  refine ofBytes_unsealed hBlob (hPayload.trans_le hSize) ?_ ?_
  · intro hEmpty
    have hLength := PrivateSection.length_fields_le_size [key] CipherSuite.none.blockSize
    rw [← hPayload, unsealedOf, hEmpty, List.length_nil] at hLength
    omega
  · exact (congrArg (· % 8) hPayload).trans (PrivateSection.size_mod (by decide) _)

theorem decrypt_unsealedOf (hComment : key.comment.isSome) (passphrase : Datum) (i : Journal) :
    (PrivateSection.entries <$> (unsealedOf key).decrypt passphrase) i = .ok [key] i := by
  obtain ⟨s, hSection, hEntries⟩ := PrivateSection.ofBytes_bytesOf
    (List.forall_mem_singleton.mpr ⟨hAccepted, hComment⟩) hSize (show 7 < 2 ^ 32 by decide)
  have hAligned : (unsealedOf key).payload.length % CipherSuite.none.blockSize = 0 :=
    (congrArg (· % 8) (PrivateSection.length_bytesOf _ _ _)).trans
      (PrivateSection.size_mod (by decide) _)
  have hOpen : (unsealedOf key).decrypt passphrase i = .ok s i := by
    change (CipherSuite.none.decrypt Stretching.none passphrase (unsealedOf key).payload >>=
      _) i = _
    rw [Stateful.bind_ok (CipherSuite.decrypt_of_isNone hAligned rfl i)]
    rw [show PrivateSection.ofBytes (unsealedOf key).payload (unsealedOf key).publicBlobs = .ok s
      from hSection]
    rfl
  change EStateM.map _ _ i = _
  rw [EStateM.map, hOpen]
  exact congrArg (EStateM.Result.ok · i) hEntries

end Unsealed

section Plain

variable {comment : String}
  (hSize : PrivateSection.size [plainKey comment] CipherSuite.none.blockSize ≤ Wire.fieldLimit)
include hSize

theorem ofBytes_plainOf :
    ofBytes (magic ++ (plainOf comment).fieldBytes []) = .ok (plainOf comment) :=
  ofBytes_unsealedOf KeyBody.accepted_p256_one hSize

theorem decrypt_plainOf (passphrase : Datum) (i : Journal) :
    (PrivateSection.entries <$> (plainOf comment).decrypt passphrase) i =
      .ok [plainKey comment] i :=
  decrypt_unsealedOf KeyBody.accepted_p256_one hSize rfl passphrase i

end Plain

/-- A comment without the marker. -/
theorem decodeKeys_raw_or_armoured_unmarked :
    ∃ data e, ofBytes data = .ok e ∧ ¬Armour.mark <:+: data ∧ ∀ i, ∃ i',
      decodeKeys (.text (Armour.encode data)) (.text "") i = .ok [plainKey "work"] i' ∧
      decodeKeys (.bytes data) (.text "") i = .ok [plainKey "work"] i' := by
  have hSize : PrivateSection.size [plainKey "work"] CipherSuite.none.blockSize ≤
      Wire.fieldLimit := by
    decide +kernel
  have hRead := ofBytes_plainOf hSize
  have hMark : ¬Armour.mark <:+: magic ++ (plainOf "work").fieldBytes [] := by
    rw [← Armour.occurs_iff]
    decide +kernel
  refine ⟨_, _, hRead, hMark, fun i => ?_⟩
  obtain ⟨i', -, hOutcome⟩ := decodeKeys_raw_or_armoured hRead i
  obtain ⟨hArmoured, -, hRaw, -⟩ := hOutcome (.text "")
  exact ⟨i', hArmoured.trans (decrypt_plainOf hSize _ i'),
    (hRaw hMark).trans (decrypt_plainOf hSize _ i')⟩

/-- A key file whose comment is the begin marker of armour has its key in armour, but is refused as
raw bytes. -/
theorem decodeKeys_marked_comment :
    ∃ data e, ofBytes data = .ok e ∧ ∀ i, (∃ keys i',
      decodeKeys (.text (Armour.encode data)) (.text "") i = .ok keys i') ∧
      decodeKeys (.bytes data) (.text "") i = .error .notText i := by
  let comment := String.ofList Armour.beginMarker
  have hSize : PrivateSection.size [plainKey comment] CipherSuite.none.blockSize ≤
      Wire.fieldLimit := by
    decide +kernel
  have hRead := ofBytes_plainOf hSize
  have hMark : Armour.mark <:+: magic ++ (plainOf comment).fieldBytes [] := by
    rw [← Armour.occurs_iff]
    decide +kernel
  have hText : Utf8.decode? (magic ++ (plainOf comment).fieldBytes []) = none := by
    decide +kernel
  refine ⟨_, _, hRead, fun i => ?_⟩
  obtain ⟨i', hLoad⟩ := load_ok hRead i
  refine ⟨⟨[plainKey comment], i', ?_⟩, ?_⟩
  · rw [decodeKeys_armour]
    exact (unlock_eq hLoad).trans (decrypt_plainOf hSize _ i')
  · rw [decodeKeys_marked hMark, hText]

end Envelope
end SshKeys
