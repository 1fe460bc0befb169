import SshKeys.Proofs.SectionWriting
/-!
# Private sections, there and back

What is built for some keys is two check numbers, then for each key its entry and its comment, then
padding up to the next whole block; the reader gives back all of it. The first key without a private
part stops the writer.
-/
namespace SshKeys.PrivateSection

variable {keys : List Key} {blockSize check : Nat}

/-- The bytes of one key in a section: its entry, then its comment as a string. -/
def IsPiece (k : Key) (piece : Bytes) : Prop :=
  ∃ entry comment, k.entry = .ok entry ∧ k.comment = some comment ∧
    piece = entry ++ Wire.text comment

theorem isPiece_fieldsOf {k : Key} (hPrivate : k.body.privateFields?.isSome)
    (hComment : k.comment.isSome) (hFits : ∀ c ∈ fieldsOf k, Wire.fits c.length) :
    IsPiece k ((fieldsOf k).flatMap Wire.string) := by
  obtain ⟨fields, hFields⟩ := Option.isSome_iff_exists.mp hPrivate
  obtain ⟨comment, hText⟩ := Option.isSome_iff_exists.mp hComment
  have hWritten : fieldsOf k = Utf8.encode k.name :: fields ++ [Utf8.encode comment] := by
    rw [fieldsOf, hFields, Key.commentText, hText]
    rfl
  rw [hWritten] at hFits ⊢
  rw [List.forall_mem_append] at hFits
  refine ⟨(Utf8.encode k.name :: fields).flatMap Wire.string, comment, ?_, hText, ?_⟩
  · rw [Key.entry, hFields]
    exact Wire.strings_ok hFits.1
  · rw [List.flatMap_append, List.flatMap_singleton]
    rfl

theorem keyBytes_of_public {k : Key} (hPublic : k.canSign = false) :
    keyBytes k = .error (.noPrivatePart k.name "write") := by
  have hNone : k.body.privateFields? = none := by
    apply Option.not_isSome_iff_eq_none.mp
    rw [KeyBody.isSome_privateFields?]
    exact ne_true_of_eq_false hPublic
  rw [keyBytes, Key.entry, hNone]
  rfl

/-- Writing goes from key to key and stops at the first one without a private part. -/
theorem keysBytes_of_public (hFits : ∀ k ∈ keys, ∀ c ∈ fieldsOf k, Wire.fits c.length)
    (hPublic : ∃ k ∈ keys, k.canSign = false) :
    ∃ k ∈ keys, k.canSign = false ∧ keysBytes keys = .error (.noPrivatePart k.name "write") := by
  induction keys with
  | nil =>
    obtain ⟨k, hMember, -⟩ := hPublic
    cases hMember
  | cons k keys ih =>
    rw [List.forall_mem_cons] at hFits
    rw [List.exists_mem_cons_iff] at hPublic ⊢
    cases hSigns : k.canSign with
    | false =>
      left
      refine ⟨rfl, ?_⟩
      rw [keysBytes, keyBytes_of_public hSigns]
      rfl
    | true =>
      right
      have hPrivate : k.body.privateFields?.isSome := (KeyBody.isSome_privateFields? _).trans hSigns
      have hOthers : ∃ k ∈ keys, k.canSign = false := by
        rcases hPublic with hFirst | hOthers
        · rw [hSigns] at hFirst
          cases hFirst
        · exact hOthers
      obtain ⟨other, hMember, hOther, hError⟩ := ih hFits.2 hOthers
      refine ⟨other, hMember, hOther, ?_⟩
      rw [keysBytes, keyBytes_eq hPrivate, Wire.strings_ok hFits.1, hError]
      rfl

/-- The section of accepted keys opens with the check number twice and goes on with the keys; its
length is the next whole number of blocks; and it reads back as the check number, the keys and the
padding. If one of the keys has no private part, nothing is built. -/
theorem build_reads_back (hBlock : 0 < blockSize) (hCheck : check < 2 ^ 32)
    (hFields : ∀ k ∈ keys, ∀ field ∈ fieldsOf k, field.length ≤ Wire.fieldLimit) :
    ((∀ k ∈ keys, k.body.Accepted ∧ k.comment.isSome) → ∃ plain pieces padding,
      build keys blockSize check = .ok plain ∧
      List.Forall₂ IsPiece keys pieces ∧
      plain = Wire.uint32 check ++ (Wire.uint32 check ++ (pieces.flatten ++ padding)) ∧
      IsLeast {n | blockSize ∣ n ∧ 8 + pieces.flatten.length ≤ n} plain.length ∧
      padding.length < blockSize ∧
      (∀ i (hi : i < padding.length), (padding.get ⟨i, hi⟩).toNat = (i + 1) % 256) ∧
      ofBytes plain (keys.map Key.blob) = .ok ⟨check, check, keys, padding⟩) ∧
    ((∃ k ∈ keys, k.canSign = false) → ∃ e, build keys blockSize check = .error e ∧
      e.kind = .misuse .value ∧ ∃ k ∈ keys, k.canSign = false ∧ e = .noPrivatePart k.name "write") := by
  have hFits : ∀ k ∈ keys, ∀ c ∈ fieldsOf k, Wire.fits c.length := by
    intro k hk c hc
    exact Wire.fits_iff.mpr ((hFields k hk c hc).trans_lt (by decide))
  constructor
  · intro hAccepted
    have hPrivate : ∀ k ∈ keys, k.body.privateFields?.isSome := by
      intro k hk
      rw [KeyBody.isSome_privateFields?]
      exact (hAccepted k hk).1.consistent.canSign
    have hPieces : List.Forall₂ IsPiece keys
        (keys.map fun k => (fieldsOf k).flatMap Wire.string) := by
      rw [List.forall₂_map_right_iff, List.forall₂_same]
      intro k hk
      exact isPiece_fieldsOf (hPrivate k hk) (hAccepted k hk).2 (hFits k hk)
    refine ⟨bytesOf keys blockSize check, _, paddingFrom 0 (paddingSize blockSize
      (8 + ((keys.flatMap fieldsOf).flatMap Wire.string).length)), ?_, hPieces, ?_, ?_, ?_, ?_, ?_⟩
    · apply (build_eq_ok_iff hPrivate).mpr
      refine ⟨by omega, ?_, rfl⟩
      intro c hc
      obtain ⟨k, hk, hField⟩ := List.mem_flatMap.mp hc
      exact hFits k hk c hField
    · rw [flatten_pieces]
      exact bytesOf_eq keys blockSize check
    · rw [flatten_pieces, length_bytesOf]
      exact isLeast_add_paddingSize hBlock _
    · rw [length_paddingFrom]
      exact Nat.mod_lt _ hBlock
    · intro i hi
      have hByte := getElem_paddingFrom hi
      rwa [Nat.zero_add] at hByte
    · rw [bytesOf_eq]
      exact ofBytes_bytesOf_of_fields hAccepted hFields hCheck _
  · intro hPublic
    obtain ⟨k, hk, hSigns, hError⟩ := keysBytes_of_public hFits hPublic
    refine ⟨.noPrivatePart k.name "write", ?_, rfl, k, hk, hSigns, rfl⟩
    rw [build, if_pos (by omega), hError]
    rfl

/-- Two keys in blocks longer than the padding counts, and the same with a public key behind them. -/
theorem build_reads_back_p256 : ∃ keys : List Key, keys.length = 2 ∧
    (∃ plain padding, build keys 1000 7 = .ok plain ∧ plain.length = 1000 ∧
      ofBytes plain (keys.map Key.blob) = .ok ⟨7, 7, keys, padding⟩) ∧
    ∃ e, build (keys ++ [⟨.ed25519 ⟨[], none⟩, some "bare"⟩]) 1000 7 = .error e ∧
      e.kind = .misuse .value := by
  let body : KeyBody := .ecdsa ⟨.p256, Curve.secp256r1.base, some 1⟩
  let keys : List Key := [⟨body, some "first"⟩, ⟨body, some ""⟩]
  let bare : Key := ⟨.ed25519 ⟨[], none⟩, some "bare"⟩
  have hBlock : 0 < 1000 := by decide
  have hCheck : 7 < 2 ^ 32 := by decide
  have hFields : ∀ k ∈ keys, ∀ field ∈ fieldsOf k, field.length ≤ Wire.fieldLimit := by
    decide +kernel
  have hMixed : ∀ k ∈ keys ++ [bare], ∀ field ∈ fieldsOf k, field.length ≤ Wire.fieldLimit := by
    decide +kernel
  have hAccepted : ∀ k ∈ keys, k.body.Accepted ∧ k.comment.isSome := by
    simp only [keys, List.forall_mem_cons]
    exact ⟨⟨KeyBody.accepted_p256_one, rfl⟩, ⟨KeyBody.accepted_p256_one, rfl⟩, nofun⟩
  have hSize : size keys 1000 = 1000 := by decide +kernel
  refine ⟨keys, rfl, ?_, ?_⟩
  · obtain ⟨plain, _, padding, hBuild, -, -, -, -, -, hRead⟩ :=
      (build_reads_back hBlock hCheck hFields).1 hAccepted
    have hLength := length_of_build (by decide) hBuild
    exact ⟨plain, padding, hBuild, hLength.trans hSize, hRead⟩
  · have hBare : bare ∈ keys ++ [bare] := List.mem_append_right _ List.mem_cons_self
    obtain ⟨e, hError, hKind, -⟩ := (build_reads_back hBlock hCheck hMixed).2 ⟨bare, hBare, rfl⟩
    exact ⟨e, hError, hKind⟩

end SshKeys.PrivateSection
