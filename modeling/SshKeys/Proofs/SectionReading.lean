import SshKeys.Envelope.Section
import SshKeys.Proofs.Comparison
import SshKeys.Proofs.PublicBlob
/-!
# Reading private sections

The bytes that read as a section are two equal check numbers, then for each public key an entry with
a comment that has this public key, then the padding, and nothing else.
-/
namespace SshKeys.PrivateSection

/-- The strings of an entry and its comment, none of them longer than `limit`, one behind the
other. -/
def EntryBytes (limit : Int) (k : Key) (bytes : Bytes) : Prop :=
  ∃ tag ∈ k.body.tags, ∃ fields, k.body.SpelledBy fields ∧ ∃ comment, k.comment = some comment ∧
    (∀ c ∈ Utf8.encode tag :: (fields ++ [Utf8.encode comment]), Packet.Takes limit c) ∧
    bytes = (Utf8.encode tag :: (fields ++ [Utf8.encode comment])).flatMap Wire.string

theorem readKey_eq_ok_iff {index : Nat} {blob : Bytes} {k : Key} {p p' : Packet} :
    readKey index blob p = .ok k p' ↔ k.body.Accepted ∧ k.blob = blob ∧
      ∃ bytes, EntryBytes p.limit k bytes ∧ p.Advance bytes p' := by
  simp only [readKey, Key.readEntry, Stateful.bind_eq_ok_iff, Stateful.pure_eq_ok_iff,
    Stateful.throwUnless_eq_ok_iff, Packet.readText_eq_ok_iff, Datum.agree_bytes_iff,
    KeyBody.readEntry_eq_ok_iff]
  constructor
  · rintro ⟨_, p₁, ⟨body, _, ⟨hAccepted, tag, hTag, fields, hSpelled, hAt⟩, rfl, rfl⟩, comment, _,
      hComment, hBlob, rfl, rfl⟩
    refine ⟨hAccepted, hBlob, _, ⟨tag, hTag, fields, hSpelled, comment, rfl, ?_, rfl⟩, ?_⟩
    · rw [hAt.2.limit] at hComment
      rw [← List.cons_append, List.forall_mem_append, List.forall_mem_singleton]
      exact ⟨hAt.1, hComment.1⟩
    · rw [← List.cons_append, List.flatMap_append, List.flatMap_singleton]
      exact hAt.2.trans hComment.2
  · obtain ⟨body, comment⟩ := k
    rintro ⟨hAccepted, rfl, _, ⟨tag, hTag, fields, hSpelled, text, rfl, hTakes, rfl⟩, h⟩
    rw [← List.cons_append, List.flatMap_append, List.flatMap_singleton] at h
    rw [← List.cons_append, List.forall_mem_append, List.forall_mem_singleton] at hTakes
    obtain ⟨p₁, hAt, hComment⟩ := Packet.advance_append_iff.mp h
    refine ⟨_, p₁, ⟨body, _, ⟨hAccepted, tag, hTag, fields, hSpelled, hTakes.1, hAt⟩, rfl, rfl⟩, text,
      p', ⟨?_, hComment⟩, rfl, rfl, rfl⟩
    rw [hAt.limit]
    exact hTakes.2

theorem readKeys_eq_ok_iff {done keys : List Key} {blobs : List Bytes} {p p' : Packet} :
    readKeys done blobs p = .ok keys p' ↔ ∃ more, keys = done.reverse ++ more ∧
      List.Forall₂ (fun k blob => k.body.Accepted ∧ k.blob = blob) more blobs ∧
      ∃ pieces, List.Forall₂ (EntryBytes p.limit) more pieces ∧ p.Advance pieces.flatten p' := by
  induction blobs generalizing done p with
  | nil =>
    rw [readKeys, Stateful.pure_eq_ok_iff]
    constructor
    · rintro ⟨rfl, rfl⟩
      exact ⟨[], by simp, .nil, [], .nil, .nil p⟩
    · rintro ⟨more, rfl, hMore, pieces, hPieces, h⟩
      cases hMore
      cases hPieces
      exact ⟨by simp, Packet.advance_nil_iff.mp h⟩
  | cons blob blobs ih =>
    simp only [readKeys, Stateful.bind_eq_ok_iff, readKey_eq_ok_iff, ih]
    constructor
    · rintro ⟨k, p₁, ⟨hAccepted, hBlob, bytes, hBytes, hAt⟩, more, rfl, hMore, pieces, hPieces, h⟩
      rw [hAt.limit] at hPieces
      refine ⟨k :: more, by simp, .cons ⟨hAccepted, hBlob⟩ hMore, bytes :: pieces,
        .cons hBytes hPieces, ?_⟩
      rw [List.flatten_cons]
      exact hAt.trans h
    · rintro ⟨_, rfl, hMore, _, hPieces, h⟩
      cases hMore with
      | @cons k _ more _ hKey hMore =>
        cases hPieces with
        | @cons _ bytes _ pieces hBytes hPieces =>
          rw [List.flatten_cons] at h
          obtain ⟨p₁, hAt, h⟩ := Packet.advance_append_iff.mp h
          rw [← hAt.limit] at hPieces
          exact ⟨k, p₁, ⟨hKey.1, hKey.2, bytes, hBytes, hAt⟩, more, by simp, hMore, pieces, hPieces,
            h⟩

/-- The first `count` bytes of the padding, from offset `start` on. -/
def paddingFrom (start : Nat) : Nat → Bytes
  | 0 => []
  | count + 1 => UInt8.ofNat (start + 1) :: paddingFrom (start + 1) count

@[simp] theorem length_paddingFrom (start count : Nat) : (paddingFrom start count).length = count := by
  induction count generalizing start with
  | zero => rfl
  | succ count ih => rw [paddingFrom, List.length_cons, ih]

theorem getElem_paddingFrom {start count i : Nat} (h : i < (paddingFrom start count).length) :
    (paddingFrom start count)[i].toNat = (start + i + 1) % 256 := by
  induction count generalizing start i with
  | zero => cases h
  | succ count ih =>
    cases i with
    | zero => exact UInt8.toNat_ofNat'
    | succ i =>
      simp only [paddingFrom, List.getElem_cons_succ]
      rw [ih, Nat.add_right_comm start 1 i, Nat.add_assoc start i 1]

theorem checkPadding_eq_ok_iff {start : Nat} {bs : Bytes} {u : Unit} :
    checkPadding start bs = .ok u ↔ bs = paddingFrom start bs.length := by
  induction bs generalizing start with
  | nil => exact ⟨fun _ => rfl, fun _ => rfl⟩
  | cons b bs ih =>
    rw [checkPadding, List.length_cons, paddingFrom, List.cons.injEq, ← ih]
    split
    · rename_i hByte
      exact (and_iff_right hByte).symm
    · rename_i hByte
      exact ⟨nofun, fun h => absurd h.1 hByte⟩

/-- The bytes that read as a section are its check numbers, its entries and its padding. -/
theorem ofBytes_eq_ok_iff {plain : Bytes} {blobs : List Bytes} {s : PrivateSection} :
    ofBytes plain blobs = .ok s ↔ s.check1 = s.check2 ∧ s.check1 < 2 ^ 32 ∧
      s.padding = paddingFrom 0 s.padding.length ∧
      List.Forall₂ (fun k blob => k.body.Accepted ∧ k.blob = blob) s.entries blobs ∧
      ∃ pieces, List.Forall₂ (EntryBytes Wire.fieldLimit) s.entries pieces ∧
        plain = Wire.uint32 s.check1 ++ (Wire.uint32 s.check2 ++ (pieces.flatten ++ s.padding)) := by
  simp only [ofBytes, Packet.parse_eq_ok_iff, read, Packet.rest, Stateful.bind_eq_ok_iff,
    Stateful.get_eq_ok_iff, Stateful.pure_eq_ok_iff, Stateful.throwIf_eq_ok_iff,
    Packet.readUInt32_eq_ok_iff, Packet.lift_eq_ok_iff, readKeys_eq_ok_iff, checkPadding_eq_ok_iff,
    not_not]
  constructor
  · rintro ⟨_, check1, p₁, ⟨hFits, hFirst⟩, check2, p₂, ⟨-, hSecond⟩, hSame, entries, p₃,
      ⟨_, rfl, hEntries, pieces, hPieces, h⟩, _, p₄, ⟨_, _, ⟨rfl, rfl⟩, rfl, rfl⟩, _, _,
      ⟨hPadding, rfl⟩, rfl, rfl⟩
    rw [hSecond.limit, hFirst.limit] at hPieces
    refine ⟨hSame, hFits, hPadding, hEntries, pieces, hPieces, ?_⟩
    have hPlain := (hFirst.trans (hSecond.trans h)).pending
    rwa [List.append_assoc, List.append_assoc] at hPlain
  · obtain ⟨check1, check2, entries, padding⟩ := s
    rintro ⟨hSame, hFits, hPadding, hEntries, pieces, hPieces, rfl⟩
    simp only at hSame hFits
    subst hSame
    exact ⟨_, check1, _, ⟨hFits, Packet.advance_past rfl⟩, check1, _,
      ⟨hFits, Packet.advance_past rfl⟩, rfl, entries, _,
      ⟨entries, rfl, hEntries, pieces, hPieces, Packet.advance_past rfl⟩, padding, _,
      ⟨_, _, ⟨rfl, rfl⟩, rfl, rfl⟩, (), _, ⟨hPadding, rfl⟩, rfl, rfl⟩

/-- Different check numbers mean that decryption has failed, whatever stands behind them. -/
theorem ofBytes_checkMismatch {plain : Bytes} {blobs : List Bytes} (hLength : 8 ≤ plain.length)
    (hChecks : plain.take 4 ≠ (plain.drop 4).take 4) :
    ofBytes plain blobs = .error .checkMismatch := by
  have hFirst : (plain.take 4).length = 4 := by
    rw [List.length_take]
    omega
  have hSecond : ((plain.drop 4).take 4).length = 4 := by
    rw [List.length_take, List.length_drop]
    omega
  have hPlain : plain = plain.take 4 ++ ((plain.drop 4).take 4 ++ (plain.drop 4).drop 4) := by
    rw [List.take_append_drop, List.take_append_drop]
  have hDiffer : Bytes.toNat (plain.take 4) ≠ Bytes.toNat ((plain.drop 4).take 4) := by
    intro hSame
    rw [← Packet.uint32_toNat hFirst, ← Packet.uint32_toNat hSecond, hSame] at hChecks
    exact hChecks rfl
  have hReadFirst := Packet.readUInt32_eq_ok (p := Packet.ofBytes plain) hFirst hPlain
  apply Packet.parse_error
  rw [read, Stateful.bind_ok hReadFirst, Stateful.bind_ok (Packet.readUInt32_eq_ok hSecond rfl),
    if_pos hDiffer]
  rfl

theorem exists_mem_entryBytes {limit : Int} {keys : List Key} {pieces : List Bytes}
    (h : List.Forall₂ (EntryBytes limit) keys pieces) :
    ∀ k ∈ keys, ∃ bytes ∈ pieces, EntryBytes limit k bytes := by
  induction h with
  | nil => nofun
  | cons hBytes _ ih =>
    refine List.forall_mem_cons.mpr ⟨⟨_, List.mem_cons_self, hBytes⟩, fun k hk => ?_⟩
    obtain ⟨bytes, hMember, hEntry⟩ := ih k hk
    exact ⟨bytes, List.mem_cons_of_mem _ hMember, hEntry⟩

theorem exists_entryBytes {limit : Int} {keys : List Key} {pieces : List Bytes}
    (h : List.Forall₂ (EntryBytes limit) keys pieces) :
    ∀ k ∈ keys, ∃ bytes, EntryBytes limit k bytes := by
  intro k hk
  obtain ⟨bytes, -, hEntry⟩ := exists_mem_entryBytes h k hk
  exact ⟨bytes, hEntry⟩

theorem EntryBytes.ofBlob_blob {limit : Int} {k : Key} {bytes : Bytes}
    (h : EntryBytes limit k bytes) (hLimit : limit ≤ Wire.fieldLimit) (hAccepted : k.body.Accepted) :
    Key.ofBlob k.blob = .ok { body := k.body.publicHalf } := by
  obtain ⟨tag, hTag, fields, hSpelled, comment, -, hTakes, -⟩ := h
  obtain ⟨written, hWritten, -⟩ := hAccepted.privateFields
  rw [← List.cons_append, List.forall_mem_append] at hTakes
  exact Key.ofBlob_blob hAccepted hWritten
    (KeyBody.takes_written hTag hSpelled hWritten hTakes.1 hLimit)

/-- A section that is read has equal check numbers and one entry for each public key, which can sign
and has this public key; its padding counts up from one, and it is all that the bytes hold. Different
check numbers count as failed decryption. -/
theorem ofBytes_faithful :
    (∀ plain blobs s, ofBytes plain blobs = .ok s →
      s.check1 = s.check2 ∧
      List.Forall₂ (fun k blob => k.canSign = true ∧ k.blob = blob ∧
        ∃ k', Key.ofBlob blob = .ok k' ∧ k'.sameKey k = true) s.entries blobs ∧
      (∀ i (hi : i < s.padding.length), (s.padding.get ⟨i, hi⟩).toNat = (i + 1) % 256) ∧
      ∃ pieces, List.Forall₂ (EntryBytes Wire.fieldLimit) s.entries pieces ∧
        plain = Wire.uint32 s.check1 ++ (Wire.uint32 s.check2 ++ (pieces.flatten ++ s.padding))) ∧
    ∀ (plain : Bytes) blobs, 8 ≤ plain.length → plain.take 4 ≠ (plain.drop 4).take 4 →
      ∃ e, ofBytes plain blobs = .error e ∧ e.kind = .reported .decryptionFailed := by
  constructor
  · intro plain blobs s h
    obtain ⟨hSame, -, hPadding, hEntries, pieces, hPieces, hPlain⟩ := ofBytes_eq_ok_iff.mp h
    refine ⟨hSame, ?_, ?_, pieces, hPieces, hPlain⟩
    · obtain ⟨hAccepted, hBlobs⟩ := (List.forall₂_and_left _ _).mp hEntries
      have hSound : ∀ k ∈ s.entries, k.canSign = true ∧
          Key.ofBlob k.blob = .ok { body := k.body.publicHalf } := by
        intro k hMember
        obtain ⟨bytes, hBytes⟩ := exists_entryBytes hPieces k hMember
        exact ⟨(hAccepted k hMember).consistent.canSign,
          hBytes.ofBlob_blob le_rfl (hAccepted k hMember)⟩
      refine ((List.forall₂_and_left _ _).mpr ⟨hSound, hBlobs⟩).imp ?_
      rintro k _ ⟨⟨hSigns, hRead⟩, rfl⟩
      exact ⟨hSigns, rfl, _, hRead, KeyBody.publicHalf_samePublic k.body⟩
    · intro i hi
      have hInside : i < (paddingFrom 0 s.padding.length).length := by rwa [length_paddingFrom]
      have hByte := getElem_paddingFrom hInside
      rw [Nat.zero_add] at hByte
      rw [← hByte]
      congr 1
      simp only [List.get_eq_getElem]
      congr 1
  · intro plain blobs hLength hChecks
    exact ⟨.checkMismatch, ofBytes_checkMismatch hLength hChecks, rfl⟩

theorem ofBytes_faithful_p256 :
    (∃ plain blobs s, ofBytes plain blobs = .ok s ∧ s.entries.length = 1 ∧ s.check1 = s.check2) ∧
      ∃ e, ofBytes [0, 0, 0, 1, 0, 0, 0, 2] [] = .error e ∧ e.kind = .reported .decryptionFailed := by
  let k : Key := ⟨.ecdsa ⟨.p256, Curve.secp256r1.base, some 1⟩, some "a key"⟩
  let fields : List Bytes :=
    [Utf8.encode "nistp256", Curve.secp256r1.uncompressed Curve.secp256r1.base, [1]]
  have hTakes : ∀ c ∈ Utf8.encode k.name :: (fields ++ [Utf8.encode "a key"]),
      Packet.Takes Wire.fieldLimit c := by decide +kernel
  have hEntry : EntryBytes Wire.fieldLimit k _ :=
    ⟨k.name, KeyBody.name_mem_tags _, fields, ⟨1, rfl, [1], rfl, rfl⟩, _, rfl, hTakes, rfl⟩
  have hRead := ofBytes_eq_ok_iff (s := ⟨7, 7, [k], [1, 2, 3]⟩).mpr ⟨rfl, by decide, rfl,
    .cons ⟨KeyBody.accepted_p256_one, rfl⟩ .nil, _, .cons hEntry .nil, rfl⟩
  exact ⟨⟨_, _, _, hRead, rfl, (ofBytes_faithful.1 _ _ _ hRead).1⟩,
    ofBytes_faithful.2 _ [] (by decide) (by decide)⟩

end SshKeys.PrivateSection
