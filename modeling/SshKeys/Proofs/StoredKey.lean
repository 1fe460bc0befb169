import SshKeys.Proofs.FileReading
/-!
# Keys as they stand in key files

Whatever key a key file gives is accepted, and no cipher needs more room for it than the limit of
readers allows, so it can be written to a key file of its own again.
-/
namespace SshKeys

namespace CipherSuite

theorem blockSize_dvd : ∀ suite ∈ all, suite.blockSize ∣ Wire.fieldLimit := by decide

variable {suite : CipherSuite} {s : Stretching} {passphrase : Datum} {text plain key iv : Bytes}
  {j j' : Journal}

theorem length_of_deriveFor (h : s.deriveFor suite passphrase = .ok (key, iv)) :
    iv.length = suite.ivSize := by
  simp only [Stretching.deriveFor, Fallible.bind_eq_ok_iff, Fallible.throwIf_eq_ok_iff,
    Fallible.pure_eq_ok_iff, Prod.mk.injEq] at h
  obtain ⟨_, -, hSizes, rfl, rfl⟩ := h
  exact not_not.mp (not_or.mp hSizes).2

theorem length_of_decrypt (hSuite : suite ∈ all)
    (h : suite.decrypt s passphrase text j = .ok plain j') : plain.length = text.length := by
  simp only [decrypt, Stateful.bind_eq_ok_iff, Action.ofExcept_eq_ok_iff,
    checkAligned_eq_ok_iff] at h
  obtain ⟨_, _, ⟨hText, -⟩, h⟩ := h
  split at h
  · rw [Stateful.pure_eq_ok_iff] at h
    rw [h.1]
  · simp only [Stateful.throwIf_eq_ok_iff, Stateful.bind_eq_ok_iff, Action.ofExcept_eq_ok_iff,
      Stateful.pure_eq_ok_iff] at h
    obtain ⟨-, _, _, -, ⟨key, iv⟩, _, ⟨hDerived, -⟩, rfl, -⟩ := h
    exact (encryptWith_decryptWith hSuite key (length_of_deriveFor hDerived) hText).1

end CipherSuite

theorem Wire.length_strings_le {a b : List Bytes} (h : List.Forall₂ (·.length ≤ ·.length) a b) :
    (a.flatMap string).length ≤ (b.flatMap string).length := by
  induction h with
  | nil => rfl
  | cons hHead _ ih =>
    simp only [List.flatMap_cons, List.length_append, length_string]
    omega

namespace PrivateSection

theorem EntryBytes.length_fieldsOf_le {limit : Int} {k : Key} {bytes : Bytes}
    (h : EntryBytes limit k bytes) (hAccepted : k.body.Accepted) :
    ((fieldsOf k).flatMap Wire.string).length ≤ bytes.length := by
  obtain ⟨tag, hTag, fields, hSpelled, comment, hComment, -, rfl⟩ := h
  obtain ⟨written, hWritten, -⟩ := hAccepted.privateFields
  have hShorter : List.Forall₂ (·.length ≤ ·.length) (Utf8.encode k.name :: written)
      (Utf8.encode tag :: fields) :=
    .cons (KeyBody.length_name_le hTag) (hSpelled.length_le hWritten)
  have hStrings := Wire.length_strings_le hShorter
  rw [fieldsOf, hWritten, Option.getD_some, Key.commentText, hComment, Option.getD_some,
    ← List.cons_append, ← List.cons_append, List.flatMap_append, List.flatMap_append,
    List.length_append, List.length_append]
  omega

end PrivateSection

/-- What holds of the keys in a key file: they are accepted, and there is room for each of them in a
key file of its own, whatever the cipher. -/
structure Key.Stored (key : Key) : Prop where
  body : key.body.Accepted
  comment : key.comment.isSome = true
  room : ∀ suite ∈ CipherSuite.all, PrivateSection.size [key] suite.blockSize ≤ Wire.fieldLimit

namespace Envelope

open PrivateSection (size)

variable {e : Envelope} {data passphrase : Datum} {keys : List Key} {j j' : Journal}

theorem unlock_stored {data : Bytes} (h : unlock data passphrase j = .ok keys j') :
    ∀ k ∈ keys, k.Stored := by
  simp only [unlock, load, decrypt, Stateful.bind_eq_ok_iff, Action.ofExcept_eq_ok_iff,
    Stateful.pure_eq_ok_iff] at h
  obtain ⟨_, _, ⟨e, _, ⟨hRead, -⟩, -, -, -, rfl, -⟩, s, _, ⟨suite, _, ⟨hSuite, -⟩, plain, _,
    hPlain, hSection, -⟩, rfl, -⟩ := h
  obtain ⟨-, hWithin, -⟩ := ofBytes_eq_ok_iff.mp hRead
  obtain ⟨-, -, -, hEntries, pieces, hPieces, hBytes⟩ :=
    PrivateSection.ofBytes_eq_ok_iff.mp hSection
  have hLength : plain.length ≤ Wire.fieldLimit := by
    rw [CipherSuite.length_of_decrypt (CipherSuite.ofName_eq_ok_iff.mp hSuite).1 hPlain]
    exact hWithin.payload
  intro k hk
  obtain ⟨hAccepted, -⟩ := (List.forall₂_and_left _ _).mp hEntries
  obtain ⟨piece, hPiece, hEntry⟩ := PrivateSection.exists_mem_entryBytes hPieces k hk
  refine ⟨hAccepted k hk, ?_, ?_⟩
  · obtain ⟨_, -, _, -, comment, hComment, -⟩ := hEntry
    rw [hComment]
    rfl
  · intro suite hSuite
    have hFields := hEntry.length_fieldsOf_le (hAccepted k hk)
    have hPieces := (List.sublist_flatten_of_mem hPiece).length_le
    rw [hBytes] at hLength
    simp only [List.length_append, Wire.uint32, Bytes.length_ofNat] at hLength
    rw [size, List.flatMap_singleton]
    exact (PrivateSection.isLeast_add_paddingSize (CipherSuite.blockSize_pos suite hSuite) _).2
      ⟨CipherSuite.blockSize_dvd suite hSuite, by omega⟩

/-- Whatever the form of the data, it comes down to the bytes of an envelope. -/
theorem decodeKeys_stored (h : decodeKeys data passphrase j = .ok keys j') :
    ∀ k ∈ keys, k.Stored := by
  have hUnlocked {raw : Action Bytes} {i : Journal}
      (hRead : (raw >>= fun bytes => unlock bytes passphrase) i = .ok keys j') :
      ∀ k ∈ keys, k.Stored := by
    obtain ⟨bytes, _, -, hKeys⟩ := Stateful.bind_eq_ok_iff.mp hRead
    exact unlock_stored hKeys
  cases data with
  | text s => exact hUnlocked h
  | bytes bs =>
    obtain ⟨marked, _, -, h⟩ := Stateful.bind_eq_ok_iff.mp h
    cases marked with
    | true => exact hUnlocked h
    | false => exact hUnlocked h
  | foreign value =>
    obtain ⟨marked, _, -, h⟩ := Stateful.bind_eq_ok_iff.mp h
    cases marked with
    | true => exact hUnlocked h
    | false => exact hUnlocked h

end Envelope
end SshKeys
