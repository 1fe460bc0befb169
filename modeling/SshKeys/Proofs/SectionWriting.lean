import Mathlib.Order.Bounds.Basic
import SshKeys.Proofs.SectionReading
import SshKeys.Proofs.Sealing
/-!
# Writing private sections

The section of some keys is made of the string fields of all keys one behind the other, between the
check numbers and the padding; only a field that is too long for its length keeps it from being
written, and within the limit of readers it reads back as the keys.
-/
namespace SshKeys

namespace Wire

theorem strings_append (a b : List Bytes) :
    strings (a ++ b) = (do return (← strings a) ++ (← strings b)) := by
  by_cases ha : ∀ c ∈ a, fits c.length
  · by_cases hb : ∀ c ∈ b, fits c.length
    · rw [strings_ok ha, strings_ok hb, strings_ok (List.forall_mem_append.mpr ⟨ha, hb⟩),
        List.flatMap_append]
      rfl
    · rw [strings_ok ha, strings_error hb,
        strings_error fun h => hb (List.forall_mem_append.mp h).2]
      rfl
  · rw [strings_error ha, strings_error fun h => ha (List.forall_mem_append.mp h).1]
    rfl

theorem length_le_of_mem {contents : List Bytes} {c : Bytes} (h : c ∈ contents) :
    c.length ≤ (contents.flatMap string).length := by
  have hString : (string c).length ≤ (contents.flatMap string).length := by
    rw [List.flatMap_def]
    exact (List.sublist_flatten_of_mem (List.mem_map_of_mem h)).length_le
  rw [length_string] at hString
  omega

end Wire

namespace KeyBody

theorem isSome_privateFields? (body : KeyBody) : body.privateFields?.isSome = body.canSign := by
  rcases body with ⟨_, _, _ | _⟩ | ⟨_, _, _, _, _ | _⟩ | ⟨_, _, _ | _⟩ | ⟨_, _ | _⟩ <;> rfl

/-- The public fields are among the private ones, so a blob is no longer than an entry. -/
theorem length_blob_le {body : KeyBody} {fields : List Bytes}
    (h : body.privateFields? = some fields) :
    body.blob.length ≤ ((Utf8.encode body.name :: fields).flatMap Wire.string).length := by
  rw [blob_eq]
  cases body with
  | rsa k =>
    obtain ⟨s, -, rfl⟩ := Option.map_eq_some_iff.mp h
    simp only [publicContents, List.map_cons, List.map_nil, List.flatMap_cons, List.flatMap_nil,
      List.length_append, Wire.length_string, List.length_nil]
    omega
  | dsa k =>
    obtain ⟨x, -, rfl⟩ := Option.map_eq_some_iff.mp h
    simp only [publicContents, List.map_cons, List.map_nil, List.flatMap_cons, List.flatMap_nil,
      List.length_append, Wire.length_string, List.length_nil]
    omega
  | ecdsa k =>
    obtain ⟨scalar, -, rfl⟩ := Option.map_eq_some_iff.mp h
    simp only [publicContents, List.flatMap_cons, List.flatMap_nil, List.length_append,
      Wire.length_string, List.length_nil]
    omega
  | ed25519 k =>
    obtain ⟨secret, -, rfl⟩ := Option.map_eq_some_iff.mp h
    simp only [publicContents, List.flatMap_cons, List.flatMap_nil, List.length_append,
      Wire.length_string, List.length_nil]
    omega

end KeyBody

namespace PrivateSection

/-- The string fields that are written for a key: its type name, its private fields, its comment. -/
def fieldsOf (k : Key) : List Bytes :=
  Utf8.encode k.name :: (k.body.privateFields?.getD [] ++ [Utf8.encode k.commentText])

/-- The padded section of some keys around a given check number. -/
def bytesOf (keys : List Key) (blockSize check : Nat) : Bytes :=
  let body := Wire.uint32 check ++ (Wire.uint32 check ++ (keys.flatMap fieldsOf).flatMap Wire.string)
  body ++ paddingFrom 0 (paddingSize blockSize body.length)

/-- How many bytes the padded section of some keys takes. -/
def size (keys : List Key) (blockSize : Nat) : Nat :=
  let bodySize := 8 + ((keys.flatMap fieldsOf).flatMap Wire.string).length
  bodySize + paddingSize blockSize bodySize

variable {keys : List Key} {blockSize check : Nat}

theorem bytesOf_eq (keys : List Key) (blockSize check : Nat) : bytesOf keys blockSize check =
    Wire.uint32 check ++ (Wire.uint32 check ++ ((keys.flatMap fieldsOf).flatMap Wire.string ++
      paddingFrom 0 (paddingSize blockSize
        (8 + ((keys.flatMap fieldsOf).flatMap Wire.string).length)))) := by
  have hLength : (Wire.uint32 check ++ (Wire.uint32 check ++
      (keys.flatMap fieldsOf).flatMap Wire.string)).length =
      8 + ((keys.flatMap fieldsOf).flatMap Wire.string).length := by
    simp only [List.length_append, Wire.uint32, Bytes.length_ofNat]
    omega
  rw [bytesOf, hLength, List.append_assoc, List.append_assoc]

theorem length_bytesOf (keys : List Key) (blockSize check : Nat) :
    (bytesOf keys blockSize check).length = size keys blockSize := by
  rw [bytesOf_eq, size]
  simp only [List.length_append, Wire.uint32, Bytes.length_ofNat, length_paddingFrom]
  omega

theorem add_paddingSize_mod (hBlock : 0 < blockSize) (n : Nat) :
    (n + paddingSize blockSize n) % blockSize = 0 := by
  have hBelow := Nat.mod_lt n hBlock
  have hSplit := Nat.div_add_mod n blockSize
  have hWhole : n + (blockSize - n % blockSize) = blockSize * (n / blockSize + 1) := by
    rw [Nat.mul_add, Nat.mul_one]
    omega
  rw [paddingSize, Nat.add_mod_mod, hWhole, Nat.mul_mod_right]

theorem isLeast_add_paddingSize (hBlock : 0 < blockSize) (n : Nat) :
    IsLeast {m | blockSize ∣ m ∧ n ≤ m} (n + paddingSize blockSize n) := by
  have hWhole : blockSize ∣ n + paddingSize blockSize n :=
    Nat.dvd_of_mod_eq_zero (add_paddingSize_mod hBlock n)
  refine ⟨⟨hWhole, Nat.le_add_right _ _⟩, ?_⟩
  rintro m ⟨hm, hAbove⟩
  have hPadding : paddingSize blockSize n < blockSize := Nat.mod_lt _ hBlock
  by_contra hOver
  -- whole blocks beyond `m` are beyond it by a block, which is more than the padding
  have hNext := Nat.le_of_dvd (Nat.sub_pos_of_lt (Nat.not_le.mp hOver)) (Nat.dvd_sub hWhole hm)
  omega

theorem size_mod (hBlock : 0 < blockSize) (keys : List Key) : size keys blockSize % blockSize = 0 :=
  add_paddingSize_mod hBlock _

theorem length_fields_le_size (keys : List Key) (blockSize : Nat) :
    ((keys.flatMap fieldsOf).flatMap Wire.string).length + 8 ≤ size keys blockSize := by
  rw [size]
  omega

theorem length_le_size {c : Bytes} (h : c ∈ keys.flatMap fieldsOf) (blockSize : Nat) :
    c.length ≤ size keys blockSize := by
  have hField := Wire.length_le_of_mem h
  have hFields := length_fields_le_size keys blockSize
  omega

theorem flatten_pieces (keys : List Key) :
    (keys.map fun k => (fieldsOf k).flatMap Wire.string).flatten =
      (keys.flatMap fieldsOf).flatMap Wire.string := by
  rw [List.flatMap_assoc, List.flatMap_def]

theorem length_blob_le_size {k : Key} (hk : k ∈ keys) (hPrivate : k.body.privateFields?.isSome)
    (blockSize : Nat) : k.blob.length ≤ size keys blockSize := by
  obtain ⟨fields, hFields⟩ := Option.isSome_iff_exists.mp hPrivate
  have hBlob := KeyBody.length_blob_le hFields
  have hKey : ((fieldsOf k).flatMap Wire.string).length ≤
      ((keys.flatMap fieldsOf).flatMap Wire.string).length := by
    have hPiece : (fieldsOf k).flatMap Wire.string ∈ keys.map fun k => (fieldsOf k).flatMap Wire.string :=
      List.mem_map_of_mem (f := fun k => (fieldsOf k).flatMap Wire.string) hk
    rw [← flatten_pieces]
    exact (List.sublist_flatten_of_mem hPiece).length_le
  rw [fieldsOf, hFields, Option.getD_some, ← List.cons_append, List.flatMap_append,
    List.length_append] at hKey
  have hAll := length_fields_le_size keys blockSize
  rw [Key.blob]
  rw [Key.name] at hKey
  omega

theorem length_le_size_of_keys (keys : List Key) (blockSize : Nat) :
    keys.length ≤ size keys blockSize := by
  have hFields : keys.length ≤ (keys.flatMap fieldsOf).length := by
    induction keys with
    | nil => rfl
    | cons k keys ih =>
      rw [List.flatMap_cons, List.length_append, List.length_cons, fieldsOf, List.length_cons]
      omega
  have hStrings := Envelope.four_mul_le_length_strings (keys.flatMap fieldsOf)
  have hAll := length_fields_le_size keys blockSize
  omega

theorem keyBytes_eq {k : Key} (hPrivate : k.body.privateFields?.isSome) :
    keyBytes k = Wire.strings (fieldsOf k) := by
  obtain ⟨fields, hFields⟩ := Option.isSome_iff_exists.mp hPrivate
  rw [keyBytes, Key.entry, fieldsOf, hFields, Option.getD_some, ← List.cons_append,
    Wire.strings_append]

theorem keysBytes_eq (hPrivate : ∀ k ∈ keys, k.body.privateFields?.isSome) :
    keysBytes keys = Wire.strings (keys.flatMap fieldsOf) := by
  induction keys with
  | nil => rfl
  | cons k keys ih =>
    rw [List.forall_mem_cons] at hPrivate
    rw [keysBytes, keyBytes_eq hPrivate.1, ih hPrivate.2, List.flatMap_cons, Wire.strings_append]

/-- A step of the padding loop leaves what the loop ends in as it is. -/
theorem pad_step (hBlock : 0 < blockSize) {bytes : Bytes} (hOpen : bytes.length % blockSize ≠ 0)
    (count : Nat) : pad blockSize (count + 1) (bytes ++ [UInt8.ofNat (count + 1)]) =
      pad blockSize count bytes := by
  rw [pad.eq_def blockSize count bytes, if_pos ⟨hBlock, hOpen⟩]

/-- The padding loop appends the padding of the missing size, and nothing else. -/
theorem pad_eq (blockSize count : Nat) (bytes : Bytes) : pad blockSize count bytes =
    bytes ++ paddingFrom count (paddingSize blockSize bytes.length) := by
  induction hSize : paddingSize blockSize bytes.length generalizing count bytes with
  | zero =>
    have hWhole : ¬(0 < blockSize ∧ bytes.length % blockSize ≠ 0) := by
      rintro ⟨hBlock, hOpen⟩
      rw [paddingSize_eq_succ hBlock hOpen] at hSize
      cases hSize
    rw [pad, if_neg hWhole, paddingFrom, List.append_nil]
  | succ size ih =>
    have hBlock : 0 < blockSize := by
      rw [paddingSize] at hSize
      by_contra hNone
      simp [Nat.eq_zero_of_not_pos hNone] at hSize
    have hOpen : bytes.length % blockSize ≠ 0 := by
      intro hWhole
      rw [paddingSize, hWhole, Nat.sub_zero, Nat.mod_self] at hSize
      cases hSize
    rw [paddingSize_eq_succ hBlock hOpen, Nat.add_right_cancel_iff] at hSize
    have hNext := ih (count + 1) (bytes ++ [UInt8.ofNat (count + 1)])
    rw [List.length_append, List.length_singleton] at hNext
    rw [← pad_step hBlock hOpen, hNext hSize, paddingFrom, List.append_assoc, List.singleton_append]

theorem build_eq_ok_iff {number : Int} {plain : Bytes}
    (hPrivate : ∀ k ∈ keys, k.body.privateFields?.isSome) :
    build keys blockSize number = .ok plain ↔ (0 ≤ number ∧ number < 4294967296) ∧
      (∀ c ∈ keys.flatMap fieldsOf, Wire.fits c.length) ∧
      plain = bytesOf keys blockSize number.toNat := by
  simp only [build, keysBytes_eq hPrivate, Fallible.throwUnless_eq_ok_iff, Fallible.bind_eq_ok_iff,
    Fallible.pure_eq_ok_iff, Wire.strings_eq_ok_iff, bytesOf, pad_eq, List.append_assoc]
  constructor
  · rintro ⟨hNumber, _, ⟨hFits, rfl⟩, rfl⟩
    exact ⟨hNumber, hFits, rfl⟩
  · rintro ⟨hNumber, hFits, rfl⟩
    exact ⟨hNumber, _, ⟨hFits, rfl⟩, rfl⟩

theorem length_of_build {number : Int} {plain : Bytes}
    (hPrivate : ∀ k ∈ keys, k.body.privateFields?.isSome)
    (h : build keys blockSize number = .ok plain) : plain.length = size keys blockSize := by
  obtain ⟨-, -, rfl⟩ := (build_eq_ok_iff hPrivate).mp h
  exact length_bytesOf keys blockSize number.toNat

theorem build_error (hPrivate : ∀ k ∈ keys, k.body.privateFields?.isSome)
    (hLong : ¬∀ c ∈ keys.flatMap fieldsOf, Wire.fits c.length) (hCheck : check < 2 ^ 32) :
    build keys blockSize check = .error (.misuse .width) := by
  rw [build, if_pos (by omega), keysBytes_eq hPrivate, Wire.strings_error hLong, Fallible.bind_error]

theorem entryBytes_fieldsOf {limit : Int} {k : Key} (hAccepted : k.body.Accepted)
    (hComment : k.comment.isSome) (hTakes : ∀ c ∈ fieldsOf k, Packet.Takes limit c) :
    EntryBytes limit k ((fieldsOf k).flatMap Wire.string) := by
  obtain ⟨fields, hFields, hSpelled⟩ := hAccepted.privateFields
  obtain ⟨comment, hText⟩ := Option.isSome_iff_exists.mp hComment
  have hWritten : fieldsOf k = Utf8.encode k.name :: (fields ++ [Utf8.encode comment]) := by
    rw [fieldsOf, hFields, Key.commentText, hText]
    rfl
  rw [hWritten] at hTakes ⊢
  exact ⟨k.name, KeyBody.name_mem_tags _, fields, hSpelled, comment, hText, hTakes, rfl⟩

theorem ofBytes_bytesOf_of_fields (hAccepted : ∀ k ∈ keys, k.body.Accepted ∧ k.comment.isSome)
    (hFields : ∀ k ∈ keys, ∀ c ∈ fieldsOf k, c.length ≤ Wire.fieldLimit) (hCheck : check < 2 ^ 32)
    (count : Nat) :
    ofBytes (Wire.uint32 check ++ (Wire.uint32 check ++
      ((keys.flatMap fieldsOf).flatMap Wire.string ++ paddingFrom 0 count))) (keys.map Key.blob) =
      .ok ⟨check, check, keys, paddingFrom 0 count⟩ := by
  let pieces := keys.map fun k => (fieldsOf k).flatMap Wire.string
  have hEntries : List.Forall₂ (fun k blob => k.body.Accepted ∧ k.blob = blob) keys
      (keys.map Key.blob) := by
    rw [List.forall₂_map_right_iff, List.forall₂_same]
    exact fun k hk => ⟨(hAccepted k hk).1, rfl⟩
  have hPieces : List.Forall₂ (EntryBytes Wire.fieldLimit) keys pieces := by
    rw [List.forall₂_map_right_iff, List.forall₂_same]
    intro k hk
    apply entryBytes_fieldsOf (hAccepted k hk).1 (hAccepted k hk).2
    intro c hc
    exact Packet.takes_of_length_le (hFields k hk c hc)
  rw [← flatten_pieces]
  apply ofBytes_eq_ok_iff.mpr
  refine ⟨rfl, hCheck, ?_, hEntries, pieces, hPieces, rfl⟩
  simp only [length_paddingFrom]

/-- A section within the limit of readers reads as the keys it was written for. -/
theorem ofBytes_bytesOf (hAccepted : ∀ k ∈ keys, k.body.Accepted ∧ k.comment.isSome)
    (hSize : size keys blockSize ≤ Wire.fieldLimit) (hCheck : check < 2 ^ 32) :
    ∃ s, ofBytes (bytesOf keys blockSize check) (keys.map Key.blob) = .ok s ∧ s.entries = keys := by
  have hFields : ∀ k ∈ keys, ∀ c ∈ fieldsOf k, c.length ≤ Wire.fieldLimit := by
    intro k hk c hc
    exact (length_le_size (List.mem_flatMap_of_mem hk hc) blockSize).trans hSize
  rw [bytesOf_eq]
  exact ⟨_, ofBytes_bytesOf_of_fields hAccepted hFields hCheck _, rfl⟩

theorem buildFresh_eq (j : Journal) : ∃ check j', check < 2 ^ 32 ∧ ∀ keys blockSize,
    buildFresh keys blockSize none j = Action.ofExcept (build keys blockSize (check : Nat)) j' := by
  obtain ⟨bs, j', hDraw, hLength⟩ := Journal.draw_eq_ok 4 j
  have hCheck := Bytes.toNat_lt bs
  rw [hLength] at hCheck
  refine ⟨Bytes.toNat bs, j', hCheck, fun keys blockSize => ?_⟩
  have hNumber : ((fun bs => Int.ofNat (Bytes.toNat bs)) <$> Journal.draw 4) j =
      .ok (Bytes.toNat bs : Int) j' := by
    change EStateM.map _ _ j = _
    rw [EStateM.map, hDraw]
    rfl
  rw [buildFresh, Stateful.bind_ok hNumber]

end PrivateSection
end SshKeys
