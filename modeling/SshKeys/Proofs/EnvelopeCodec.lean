import SshKeys.Envelope
import SshKeys.Proofs.Reading
/-!
# Envelopes and their bytes

An envelope can be read back exactly if it is well formed and none of its strings is too long for a
reader, and the only bytes that read as an envelope are those that it is written as:
`ofBytes_eq_ok_iff`.
-/
namespace SshKeys

namespace CipherSuite

theorem ofName?_name : ∀ suite ∈ all, ofName? suite.name = some suite := by decide

theorem isNone_iff : ∀ suite ∈ all, suite.isNone = true ↔ suite.name = "none" := by decide

theorem length_name_le : ∀ suite ∈ all, (Utf8.encode suite.name).length ≤ 27 := by decide

theorem ofName_eq_ok_iff {name : String} {suite : CipherSuite} :
    ofName (some name) = .ok suite ↔ suite ∈ all ∧ suite.name = name := by
  rw [ofName, Option.bind_some]
  constructor
  · intro h
    split at h
    · rename_i found hFound
      cases h
      exact ⟨List.mem_of_find?_eq_some hFound, by simpa using List.find?_some hFound⟩
    · cases h
  · rintro ⟨hMember, rfl⟩
    rw [ofName?_name suite hMember]

end CipherSuite

namespace Stretching

/-- Stretching parameters as files hold them. -/
inductive Sound : Stretching → Prop
  | none : Sound Stretching.none
  | bcrypt {salt : Bytes} {rounds : Int} (hSalt : salt ≠ []) (hPositive : 1 ≤ rounds)
      (hFits : rounds < 2 ^ 32) : Sound ⟨"bcrypt", salt, rounds⟩

theorem readOptions_eq_ok_iff {name : String} {p p' : Packet} {s : Stretching} :
    readOptions name p = .ok s p' ↔ p'.pending = [] ∧ s.name = name ∧ s.salt ≠ [] ∧ 1 ≤ s.rounds ∧
      s.rounds < 2 ^ 32 ∧ Packet.Takes p.limit s.salt ∧
      p.Advance (Wire.string s.salt ++ Wire.uint32 s.rounds.toNat) p' := by
  simp only [readOptions, Stateful.bind_eq_ok_iff, Stateful.get_eq_ok_iff,
    Stateful.throwIf_eq_ok_iff, Stateful.pure_eq_ok_iff, Packet.readString_eq_ok_iff,
    Packet.readUInt32_eq_ok_iff]
  constructor
  · rintro ⟨salt, p₁, ⟨hTakes, hSalt⟩, rounds, p₂, ⟨hFits, hRounds⟩, _, _, ⟨rfl, rfl⟩, hEnd, hEmpty,
      hZero, rfl, rfl⟩
    refine ⟨?_, rfl, ?_, ?_, ?_, hTakes, hSalt.trans hRounds⟩
    · simpa [Packet.remaining] using hEnd
    · simpa using hEmpty
    · simp
      omega
    · simp
      omega
  · obtain ⟨sName, salt, rounds⟩ := s
    rintro ⟨hEnd, rfl, hSalt, hPositive, hFits, hTakes, h⟩
    obtain ⟨p₁, hString, hNumber⟩ := Packet.advance_append_iff.mp h
    simp only at hSalt hPositive hFits hTakes hString hNumber
    refine ⟨salt, p₁, ⟨hTakes, hString⟩, rounds.toNat, p', ⟨by omega, hNumber⟩, p', p', ⟨rfl, rfl⟩,
      ?_, ?_, ?_, ?_, rfl⟩
    · simp [Packet.remaining, hEnd]
    · simpa using hSalt
    · omega
    · rw [Int.ofNat_toNat, max_eq_left (by omega)]

theorem options_bcrypt_eq_ok_iff {salt options : Bytes} {rounds : Int} (hPositive : 1 ≤ rounds)
    (hFits : rounds < 2 ^ 32) :
    (⟨"bcrypt", salt, rounds⟩ : Stretching).options = .ok options ↔
      Wire.fits salt.length ∧ options = Wire.string salt ++ Wire.uint32 rounds.toNat := by
  have hRoundsFit : (⟨"bcrypt", salt, rounds⟩ : Stretching).roundsFit = true := by
    simp [roundsFit]
    omega
  rw [Stretching.options, if_neg (by simp), if_pos hRoundsFit, Fallible.map_eq_ok_iff]
  simp only [Wire.strings_eq_ok_iff, List.forall_mem_singleton, List.flatMap_singleton]
  constructor
  · rintro ⟨_, ⟨hSalt, rfl⟩, rfl⟩
    exact ⟨hSalt, rfl⟩
  · rintro ⟨hSalt, rfl⟩
    exact ⟨_, ⟨hSalt, rfl⟩, rfl⟩

/-- The options of a file stand for the parameters that are written as these options. -/
theorem ofOptions_eq_ok_iff {name : String} {options : Bytes} {s : Stretching} :
    ofOptions name options = .ok s ↔
      s.Sound ∧ s.name = name ∧ s.salt.length ≤ Wire.fieldLimit ∧ s.options = .ok options := by
  rw [ofOptions]
  split
  · rename_i hName
    subst hName
    constructor
    · intro h
      split at h
      · rename_i hEmpty
        cases h
        rw [List.isEmpty_iff.mp hEmpty]
        exact ⟨.none, rfl, by decide, rfl⟩
      · cases h
    · rintro ⟨hSound, hName, -, hOptions⟩
      cases hSound with
      | none => cases hOptions; rfl
      | bcrypt => simp at hName
  · split
    · rename_i hNone hName
      subst hName
      rw [Packet.parse_eq_ok_iff]
      constructor
      · rintro ⟨p', h⟩
        obtain ⟨hEnd, hName, hSalt, hPositive, hFits, ⟨hSaltFits, hLimit⟩, hBytes⟩ :=
          readOptions_eq_ok_iff.mp h
        obtain ⟨sName, salt, rounds⟩ := s
        simp only at hName hSalt hPositive hFits hSaltFits hLimit hBytes
        subst hName
        have hOptions := hBytes.pending
        rw [hEnd, List.append_nil] at hOptions
        exact ⟨.bcrypt hSalt hPositive hFits, rfl, by simpa [Packet.ofBytes] using hLimit,
          (options_bcrypt_eq_ok_iff hPositive hFits).mpr ⟨hSaltFits, hOptions⟩⟩
      · rintro ⟨hSound, hName, hLimit, hOptions⟩
        cases hSound with
        | none => exact absurd hName.symm hNone
        | @bcrypt salt rounds hSalt hPositive hFits =>
          obtain ⟨hSaltFits, rfl⟩ := (options_bcrypt_eq_ok_iff hPositive hFits).mp hOptions
          refine ⟨_, readOptions_eq_ok_iff.mpr ⟨rfl, rfl, hSalt, hPositive, hFits,
            ⟨hSaltFits, ?_⟩, Packet.advance_past (List.append_nil _).symm⟩⟩
          simpa [Packet.ofBytes] using hLimit
    · rename_i hNone hName
      constructor
      · nofun
      · rintro ⟨hSound, rfl, -, -⟩
        cases hSound with
        | none => exact absurd rfl hNone
        | bcrypt => exact absurd rfl hName

theorem Sound.length_name {s : Stretching} (h : s.Sound) : (Utf8.encode s.name).length ≤ 6 := by
  cases h with
  | none => decide
  | bcrypt => exact (by decide : (Utf8.encode "bcrypt").length ≤ 6)

theorem Sound.length_salt {s : Stretching} {options : Bytes} (h : s.Sound)
    (hOptions : s.options = .ok options) : s.salt.length ≤ options.length := by
  cases h with
  | none => exact Nat.zero_le _
  | bcrypt _ hPositive hFits =>
    rw [((options_bcrypt_eq_ok_iff hPositive hFits).mp hOptions).2, List.length_append,
      Wire.length_string]
    simp only
    omega

end Stretching

namespace Envelope

/-- An envelope as files can hold it: a cipher that is known, stretching whenever the cipher
encrypts, at least one key, and a private section of whole blocks. -/
structure WellFormed (e : Envelope) : Prop where
  cipher : ∃ suite ∈ CipherSuite.all, suite.name = e.cipherName ∧
    e.payload.length % suite.blockSize = 0
  stretching : e.stretching.Sound
  plain : e.stretching.name = "none" → e.cipherName = "none"
  keys : e.publicBlobs ≠ []
  payload : e.payload ≠ []

/-- No string of the envelope is longer than `limit`. -/
structure Within (limit : Nat) (e : Envelope) : Prop where
  blobs : ∀ blob ∈ e.publicBlobs, blob.length ≤ limit
  payload : e.payload.length ≤ limit
  options : ∃ options, e.stretching.options = .ok options ∧ options.length ≤ limit

theorem readStrings_eq_ok_iff {done blobs : List Bytes} {count : Nat} {p p' : Packet} :
    readStrings done count p = .ok blobs p' ↔ ∃ more, blobs = done.reverse ++ more ∧
      more.length = count ∧ (∀ blob ∈ more, Packet.Takes p.limit blob) ∧
      p.Advance (more.flatMap Wire.string) p' := by
  induction count generalizing done p with
  | zero =>
    rw [readStrings, Stateful.pure_eq_ok_iff]
    constructor
    · rintro ⟨rfl, rfl⟩
      exact ⟨[], by simp, rfl, by simp, .nil p⟩
    · rintro ⟨more, rfl, hLength, -, h⟩
      rw [List.length_eq_zero_iff.mp hLength] at h ⊢
      exact ⟨by simp, Packet.advance_nil_iff.mp h⟩
  | succ count ih =>
    simp only [readStrings, Stateful.bind_eq_ok_iff, Packet.readString_eq_ok_iff, ih]
    constructor
    · rintro ⟨blob, p₁, ⟨hTakes, hBlob⟩, more, rfl, hLength, hMore, h⟩
      refine ⟨blob :: more, by simp, by simp [hLength], ?_, hBlob.trans h⟩
      rw [hBlob.limit] at hMore
      simpa using ⟨hTakes, hMore⟩
    · rintro ⟨more, rfl, hLength, hMore, h⟩
      cases more with
      | nil => cases hLength
      | cons blob more =>
        obtain ⟨p₁, hBlob, hRest⟩ := Packet.advance_append_iff.mp h
        rw [List.forall_mem_cons] at hMore
        refine ⟨blob, p₁, ⟨hMore.1, hBlob⟩, more, by simp, by simpa using hLength, ?_, hRest⟩
        rw [hBlob.limit]
        exact hMore.2

/-- What stands behind the magic text, for the options that the stretching is written as. -/
def fieldBytes (e : Envelope) (options : Bytes) : Bytes :=
  Wire.text e.cipherName ++ (Wire.text e.stretching.name ++ (Wire.string options ++
    (Wire.uint32 e.publicBlobs.length ++
      (e.publicBlobs.flatMap Wire.string ++ Wire.string e.payload))))

theorem toBytes_eq_ok_iff {e : Envelope} {data : Bytes} :
    e.toBytes = .ok data ↔ ∃ options, e.stretching.options = .ok options ∧
      (Wire.fits (Utf8.encode e.cipherName).length ∧ Wire.fits (Utf8.encode e.stretching.name).length ∧
        Wire.fits options.length) ∧
      Wire.fits e.publicBlobs.length ∧
      ((∀ blob ∈ e.publicBlobs, Wire.fits blob.length) ∧ Wire.fits e.payload.length) ∧
      data = magic ++ e.fieldBytes options := by
  simp only [toBytes, Fallible.bind_eq_ok_iff, Wire.strings_eq_ok_iff, Fallible.throwUnless_eq_ok_iff,
    Fallible.pure_eq_ok_iff, List.forall_mem_cons, List.forall_mem_append]
  constructor
  · rintro ⟨options, hOptions, _, ⟨⟨hCipher, hName, hOptionsFit, -⟩, rfl⟩, hCount, _,
      ⟨⟨hBlobs, hPayload, -⟩, rfl⟩, rfl⟩
    refine ⟨options, hOptions, ⟨hCipher, hName, hOptionsFit⟩, hCount, ⟨hBlobs, hPayload⟩, ?_⟩
    simp [fieldBytes, Wire.text]
  · rintro ⟨options, hOptions, ⟨hCipher, hName, hOptionsFit⟩, hCount, ⟨hBlobs, hPayload⟩, rfl⟩
    refine ⟨options, hOptions, _, ⟨⟨hCipher, hName, hOptionsFit, nofun⟩, rfl⟩, hCount, _,
      ⟨⟨hBlobs, hPayload, nofun⟩, rfl⟩, ?_⟩
    simp [fieldBytes, Wire.text]

theorem four_mul_le_length_strings (blobs : List Bytes) :
    4 * blobs.length ≤ (blobs.flatMap Wire.string).length := by
  induction blobs with
  | nil => simp
  | cons blob blobs ih =>
    simp only [List.flatMap_cons, List.length_append, List.length_cons, Wire.length_string]
    omega

theorem readFields_sound {p p' : Packet} {e : Envelope} (hLimit : p.limit = Wire.fieldLimit)
    (h : readFields p = .ok e p') : e.WellFormed ∧ e.Within Wire.fieldLimit ∧ p'.pending = [] ∧
      ∃ options, e.toBytes = .ok (magic ++ e.fieldBytes options) ∧
        p.Advance (e.fieldBytes options) p' := by
  simp only [readFields, Stateful.bind_eq_ok_iff, Stateful.get_eq_ok_iff, Stateful.pure_eq_ok_iff,
    Stateful.throwIf_eq_ok_iff, Packet.readText_eq_ok_iff, Packet.readString_eq_ok_iff,
    Packet.readUInt32_eq_ok_iff, Packet.lift_eq_ok_iff, readStrings_eq_ok_iff,
    CipherSuite.ofName_eq_ok_iff, Stretching.ofOptions_eq_ok_iff] at h
  obtain ⟨cipherName, p₁, ⟨hCipherFits, hCipher⟩, stretchingName, p₂, ⟨hNameFits, hName⟩, options, p₃,
    ⟨hOptionsFit, hOptions⟩, suite, _, ⟨⟨hSuite, rfl⟩, rfl⟩, stretching, _,
    ⟨⟨hSound, rfl, -, hWritten⟩, rfl⟩, hPlain, count, _, ⟨hCountFits, hCount⟩, hZero, _, p₄,
    ⟨rfl, rfl⟩, -, blobs, p₅, ⟨_, rfl, rfl, hBlobsFit, hBlobs⟩, payload, _,
    ⟨hPayloadFits, hPayload⟩, _, p₆, ⟨rfl, rfl⟩, hEnd, hBlocks, rfl, rfl⟩ := h
  simp only [hBlobs.limit, hCount.limit, hOptions.limit, hName.limit, hCipher.limit,
    hLimit] at hCipherFits hNameFits hOptionsFit hBlobsFit hPayloadFits
  have hBlobsEmpty : blobs ≠ [] := by
    rintro rfl
    exact hZero rfl
  rw [not_or, not_not, List.isEmpty_iff] at hBlocks
  refine ⟨⟨⟨suite, hSuite, rfl, hBlocks.2⟩, hSound, ?_, hBlobsEmpty, hBlocks.1⟩,
    ⟨fun blob hBlob => (hBlobsFit blob hBlob).length_le, hPayloadFits.length_le,
      options, hWritten, hOptionsFit.length_le⟩, ?_, options, ?_, ?_⟩
  · simpa [CipherSuite.isNone_iff suite hSuite] using hPlain
  · simpa [Packet.remaining] using hEnd
  · exact toBytes_eq_ok_iff.mpr ⟨options, hWritten, ⟨hCipherFits.1, hNameFits.1, hOptionsFit.1⟩,
      Wire.fits_iff.mpr hCountFits, ⟨fun blob hBlob => (hBlobsFit blob hBlob).1,
        hPayloadFits.1⟩, rfl⟩
  · exact hCipher.trans (hName.trans (hOptions.trans (hCount.trans (hBlobs.trans hPayload))))

/-- What the reader does behind the number of keys. -/
def readSections (cipherName : String) (suite : CipherSuite) (stretching : Stretching) (count : Nat) :
    Reader Envelope := do
  let publicBlobs ← readStrings [] count
  let payload ← Packet.readString
  let left := (← get).remaining
  if left ≠ 0 then throw (.sectionTrailing left)
  if payload.isEmpty ∨ payload.length % suite.blockSize ≠ 0 then
    throw (.sectionSize payload.length suite.blockSize)
  return ⟨cipherName, stretching, publicBlobs, payload⟩

theorem takes_cipherName {e : Envelope} (hForm : e.WellFormed) :
    Packet.Takes Wire.fieldLimit (Utf8.encode e.cipherName) := by
  obtain ⟨suite, hSuite, hCipher, -⟩ := hForm.cipher
  rw [← hCipher]
  exact Packet.takes_of_length_le ((CipherSuite.length_name_le suite hSuite).trans (by decide))

theorem takes_stretchingName {e : Envelope} (hForm : e.WellFormed) :
    Packet.Takes Wire.fieldLimit (Utf8.encode e.stretching.name) :=
  Packet.takes_of_length_le (hForm.stretching.length_name.trans (by decide))

/-- A header of a well formed envelope is read up to the number of keys; the keys and the section
behind it can be of any size. -/
theorem readFields_header {p p₁ p₂ p₃ p₄ : Packet} {e : Envelope} {suite : CipherSuite}
    {options : Bytes} (hLimit : p.limit = Wire.fieldLimit) (hForm : e.WellFormed)
    (hSuite : suite ∈ CipherSuite.all) (hCipher : suite.name = e.cipherName)
    (hCountFits : Wire.fits e.publicBlobs.length) (hOptions : e.stretching.options = .ok options)
    (hOptionsFit : options.length ≤ Wire.fieldLimit)
    (hCipherAt : p.Advance (Wire.text e.cipherName) p₁)
    (hNameAt : p₁.Advance (Wire.text e.stretching.name) p₂)
    (hOptionsAt : p₂.Advance (Wire.string options) p₃)
    (hCountAt : p₃.Advance (Wire.uint32 e.publicBlobs.length) p₄)
    (hPending : p₄.pending = e.publicBlobs.flatMap Wire.string ++ Wire.string e.payload) :
    readFields p = readSections e.cipherName suite e.stretching e.publicBlobs.length p₄ := by
  have hLimit₁ := hCipherAt.limit.trans hLimit
  have hLimit₂ := hNameAt.limit.trans hLimit₁
  have hCipherTakes : Packet.Takes p.limit _ := hLimit ▸ takes_cipherName hForm
  have hNameTakes : Packet.Takes p₁.limit _ := hLimit₁ ▸ takes_stretchingName hForm
  have hOptionsTakes : Packet.Takes p₂.limit _ := hLimit₂ ▸ Packet.takes_of_length_le hOptionsFit
  have hKnown : KeyBody.lift (CipherSuite.ofName (some e.cipherName)) p₃ = .ok suite p₃ :=
    Packet.lift_eq_ok_iff.mpr ⟨CipherSuite.ofName_eq_ok_iff.mpr ⟨hSuite, hCipher⟩, rfl⟩
  have hStretching : KeyBody.lift (Stretching.ofOptions e.stretching.name options) p₃ =
      .ok e.stretching p₃ :=
    Packet.lift_eq_ok_iff.mpr ⟨Stretching.ofOptions_eq_ok_iff.mpr ⟨hForm.stretching, rfl,
      (hForm.stretching.length_salt hOptions).trans hOptionsFit, hOptions⟩, rfl⟩
  have hSealed : ¬(e.stretching.name = "none" ∧ (!suite.isNone) = true) := by
    rintro ⟨hNone, hSome⟩
    have hSuiteNone := (CipherSuite.isNone_iff suite hSuite).mpr (hCipher.trans (hForm.plain hNone))
    simp [hSuiteNone] at hSome
  have hZero : ¬e.publicBlobs.length = 0 := by simpa using hForm.keys
  -- every key takes at least the four bytes of its length
  have hGuard : ¬p₄.remaining / 4 < e.publicBlobs.length := by
    have := four_mul_le_length_strings e.publicBlobs
    rw [Packet.remaining, hPending, List.length_append]
    omega
  rw [readFields, Stateful.bind_ok (Packet.readText_eq_ok_iff.mpr ⟨hCipherTakes, hCipherAt⟩),
    Stateful.bind_ok (Packet.readText_eq_ok_iff.mpr ⟨hNameTakes, hNameAt⟩),
    Stateful.bind_ok (Packet.readString_eq_ok_iff.mpr ⟨hOptionsTakes, hOptionsAt⟩),
    Stateful.bind_ok hKnown, Stateful.bind_ok hStretching, if_neg hSealed]
  beta_reduce
  rw [Stateful.bind_ok (Packet.readUInt32_eq_ok_iff.mpr ⟨Wire.fits_iff.mp hCountFits, hCountAt⟩),
    if_neg hZero]
  exact congrFun (if_neg hGuard) p₄

theorem readFields_complete {p p' : Packet} {e : Envelope} {options : Bytes}
    (hLimit : p.limit = Wire.fieldLimit) (hForm : e.WellFormed) (hWithin : e.Within Wire.fieldLimit)
    (hCountFits : Wire.fits e.publicBlobs.length) (hOptions : e.stretching.options = .ok options)
    (hEnd : p'.pending = []) (h : p.Advance (e.fieldBytes options) p') :
    readFields p = .ok e p' := by
  obtain ⟨hBlobsFit, hPayloadFits, written, hWritten, hOptionsFit⟩ := hWithin
  cases hOptions.symm.trans hWritten
  obtain ⟨suite, hSuite, hCipher, hBlocks⟩ := hForm.cipher
  obtain ⟨p₁, hCipherAt, h⟩ := Packet.advance_append_iff.mp h
  obtain ⟨p₂, hNameAt, h⟩ := Packet.advance_append_iff.mp h
  obtain ⟨p₃, hOptionsAt, h⟩ := Packet.advance_append_iff.mp h
  obtain ⟨p₄, hCountAt, h⟩ := Packet.advance_append_iff.mp h
  have hPending := h.pending
  rw [hEnd, List.append_nil] at hPending
  rw [readFields_header hLimit hForm hSuite hCipher hCountFits hOptions hOptionsFit hCipherAt hNameAt
    hOptionsAt hCountAt hPending]
  obtain ⟨p₅, hBlobsAt, hPayloadAt⟩ := Packet.advance_append_iff.mp h
  have hLimit₄ : p₄.limit = Wire.fieldLimit := hCountAt.limit.trans
    (hOptionsAt.limit.trans (hNameAt.limit.trans (hCipherAt.limit.trans hLimit)))
  have hLimit₅ := hBlobsAt.limit.trans hLimit₄
  simp only [readSections, Stateful.bind_eq_ok_iff, Stateful.get_eq_ok_iff, Stateful.pure_eq_ok_iff,
    Stateful.throwIf_eq_ok_iff, Packet.readString_eq_ok_iff, readStrings_eq_ok_iff]
  refine ⟨e.publicBlobs, p₅, ⟨_, rfl, rfl, ?_, hBlobsAt⟩, e.payload, p', ⟨?_, hPayloadAt⟩, p', p',
    ⟨rfl, rfl⟩, ?_, ?_, rfl, rfl⟩
  · rw [hLimit₄]
    exact fun blob hBlob => Packet.takes_of_length_le (hBlobsFit blob hBlob)
  · rw [hLimit₅]
    exact Packet.takes_of_length_le hPayloadFits
  · simp [Packet.remaining, hEnd]
  · simp [hForm.payload, hBlocks]

theorem readStrings_overflows {done blobs : List Bytes} {p : Packet} {rest : Bytes}
    (hFits : ∀ blob ∈ blobs, Wire.fits blob.length) (hLong : ∃ blob ∈ blobs, p.limit < blob.length)
    (h : p.pending = blobs.flatMap Wire.string ++ rest) :
    Packet.Overflows (readStrings done blobs.length) p := by
  induction blobs generalizing done p with
  | nil => simp at hLong
  | cons blob blobs ih =>
    rw [List.flatMap_cons, List.append_assoc] at h
    rw [List.forall_mem_cons] at hFits
    rw [List.length_cons, readStrings]
    by_cases hFirst : p.limit < blob.length
    · exact (Packet.readString_overflows hFits.1 hFirst h).bind
    · have hRead := Packet.readString_eq_ok_iff.mpr
        ⟨⟨hFits.1, Int.not_lt.mp hFirst⟩, Packet.advance_past h⟩
      refine Packet.overflows_of_ok hRead (ih hFits.2 ?_ rfl)
      obtain ⟨long, hMember, hLong⟩ := hLong
      rcases List.mem_cons.mp hMember with rfl | hMember
      · exact absurd hLong hFirst
      · exact ⟨long, hMember, hLong⟩

/-- The first string beyond the limit of readers stops the reader of an envelope. -/
theorem readFields_overflows {p p' : Packet} {e : Envelope} {options : Bytes}
    (hLimit : p.limit = Wire.fieldLimit) (hForm : e.WellFormed)
    (hOptions : e.stretching.options = .ok options) (hOptionsFit : Wire.fits options.length)
    (hCountFits : Wire.fits e.publicBlobs.length)
    (hBlobsFit : ∀ blob ∈ e.publicBlobs, Wire.fits blob.length)
    (hPayloadFits : Wire.fits e.payload.length) (hLong : ¬e.Within Wire.fieldLimit)
    (hEnd : p'.pending = []) (h : p.Advance (e.fieldBytes options) p') :
    Packet.Overflows readFields p := by
  obtain ⟨suite, hSuite, hCipher, -⟩ := hForm.cipher
  obtain ⟨p₁, hCipherAt, h⟩ := Packet.advance_append_iff.mp h
  obtain ⟨p₂, hNameAt, h⟩ := Packet.advance_append_iff.mp h
  obtain ⟨p₃, hOptionsAt, h⟩ := Packet.advance_append_iff.mp h
  obtain ⟨p₄, hCountAt, h⟩ := Packet.advance_append_iff.mp h
  have hLimit₁ := hCipherAt.limit.trans hLimit
  have hLimit₂ := hNameAt.limit.trans hLimit₁
  by_cases hOptionsLong : Wire.fieldLimit < options.length
  · have hCipherTakes : Packet.Takes p.limit _ := hLimit ▸ takes_cipherName hForm
    have hNameTakes : Packet.Takes p₁.limit _ := hLimit₁ ▸ takes_stretchingName hForm
    rw [readFields]
    refine Packet.overflows_of_ok (Packet.readText_eq_ok_iff.mpr ⟨hCipherTakes, hCipherAt⟩) ?_
    refine Packet.overflows_of_ok (Packet.readText_eq_ok_iff.mpr ⟨hNameTakes, hNameAt⟩) ?_
    refine (Packet.readString_overflows hOptionsFit ?_ hOptionsAt.pending).bind
    rw [hLimit₂]
    exact Int.ofNat_lt.mpr hOptionsLong
  have hPending := h.pending
  rw [hEnd, List.append_nil] at hPending
  rw [Packet.Overflows, readFields_header hLimit hForm hSuite hCipher hCountFits hOptions
    (Nat.not_lt.mp hOptionsLong) hCipherAt hNameAt hOptionsAt hCountAt hPending]
  change Packet.Overflows (readSections _ _ _ _) p₄
  have hLimit₄ := hCountAt.limit.trans (hOptionsAt.limit.trans hLimit₂)
  rw [readSections]
  by_cases hBlobsLong : ∃ blob ∈ e.publicBlobs, p₄.limit < blob.length
  · exact (readStrings_overflows hBlobsFit hBlobsLong hPending).bind
  obtain ⟨p₅, hBlobsAt, hPayloadAt⟩ := Packet.advance_append_iff.mp h
  have hBlobsLimit : ∀ blob ∈ e.publicBlobs, (blob.length : Int) ≤ p₄.limit := by
    simpa using hBlobsLong
  have hBlobsRead : readStrings [] e.publicBlobs.length p₄ = .ok e.publicBlobs p₅ :=
    readStrings_eq_ok_iff.mpr ⟨e.publicBlobs, rfl, rfl,
      fun blob hBlob => ⟨hBlobsFit blob hBlob, hBlobsLimit blob hBlob⟩, hBlobsAt⟩
  refine Packet.overflows_of_ok hBlobsRead
    (Packet.readString_overflows hPayloadFits ?_ hPayloadAt.pending).bind
  rw [hBlobsAt.limit, hLimit₄]
  refine Int.not_le.mp fun hPayloadLimit => hLong ⟨fun blob hBlob => ?_,
    Int.ofNat_le.mp hPayloadLimit, options, hOptions, Nat.not_lt.mp hOptionsLong⟩
  exact Int.ofNat_le.mp (hLimit₄ ▸ hBlobsLimit blob hBlob)

theorem ofBytes_eq_ok_iff_readFields {data : Bytes} {e : Envelope} :
    ofBytes data = .ok e ↔ ∃ p p', (Packet.ofBytes data).Advance magic p ∧
      readFields p = .ok e p' := by
  rw [ofBytes]
  split
  · rename_i hMagic
    obtain ⟨rest, rfl⟩ := List.isPrefixOf_iff_prefix.mp hMagic
    simp only [Packet.parse_eq_ok_iff, Stateful.bind_eq_ok_iff, Stateful.discard_eq_ok_iff,
      Packet.read_eq_ok_iff]
    constructor
    · rintro ⟨p', _, p, ⟨bs, hLength, hMagic⟩, h⟩
      have hTaken := List.append_inj_left hMagic.pending hLength.symm
      exact ⟨p, p', hTaken ▸ hMagic, h⟩
    · rintro ⟨p, p', hMagic, h⟩
      exact ⟨p', (), p, ⟨magic, rfl, hMagic⟩, h⟩
  · rename_i hMagic
    constructor
    · nofun
    · rintro ⟨p, p', hOther, -⟩
      exact absurd (List.isPrefixOf_iff_prefix.mpr ⟨_, hOther.pending.symm⟩) hMagic

/-- The bytes that read as an envelope are those that a well formed envelope is written as. -/
theorem ofBytes_eq_ok_iff {data : Bytes} {e : Envelope} :
    ofBytes data = .ok e ↔ e.WellFormed ∧ e.Within Wire.fieldLimit ∧ e.toBytes = .ok data := by
  rw [ofBytes_eq_ok_iff_readFields]
  constructor
  · rintro ⟨p, p', hMagic, h⟩
    obtain ⟨hForm, hWithin, hEnd, options, hBytes, hFields⟩ := readFields_sound hMagic.limit h
    refine ⟨hForm, hWithin, ?_⟩
    have hData : data = magic ++ e.fieldBytes options ++ p'.pending := (hMagic.trans hFields).pending
    rw [hData, hEnd, List.append_nil]
    exact hBytes
  · rintro ⟨hForm, hWithin, hBytes⟩
    obtain ⟨options, hOptions, -, hCount, -, rfl⟩ := toBytes_eq_ok_iff.mp hBytes
    have hStart : (Packet.ofBytes (magic ++ e.fieldBytes options)).pending =
      magic ++ (e.fieldBytes options ++ []) := by rw [List.append_nil]; rfl
    exact ⟨_, _, Packet.advance_past hStart,
      readFields_complete rfl hForm hWithin hCount hOptions rfl (Packet.advance_past rfl)⟩

/-- An envelope with a string beyond the limit of readers can be written, but not read again. -/
theorem ofBytes_overflows {data : Bytes} {e : Envelope} (hForm : e.WellFormed)
    (hBytes : e.toBytes = .ok data) (hLong : ¬e.Within Wire.fieldLimit) :
    ∃ err, ofBytes data = .error err ∧ err.kind = .reported .lengthOverflow := by
  obtain ⟨options, hOptions, ⟨-, -, hOptionsFit⟩, hCountFits, ⟨hBlobsFit, hPayloadFits⟩, rfl⟩ :=
    toBytes_eq_ok_iff.mp hBytes
  have hMagic : magic.isPrefixOf (magic ++ e.fieldBytes options) = true :=
    List.isPrefixOf_iff_prefix.mpr (List.prefix_append _ _)
  let p := (Packet.ofBytes (magic ++ e.fieldBytes options)).past magic (e.fieldBytes options)
  have hRead : discard (Packet.read magic.length) (Packet.ofBytes (magic ++ e.fieldBytes options)) =
      .ok () p :=
    Stateful.discard_eq_ok_iff.mpr
      ⟨magic, Packet.read_eq_ok_iff.mpr ⟨rfl, Packet.advance_past rfl⟩⟩
  have hFields : p.Advance (e.fieldBytes options) (p.past (e.fieldBytes options) []) :=
    Packet.advance_past (List.append_nil _).symm
  have hOverflows : Packet.Overflows readFields p := readFields_overflows rfl hForm hOptions
    hOptionsFit hCountFits hBlobsFit hPayloadFits hLong rfl hFields
  rw [ofBytes, if_pos hMagic]
  exact (Packet.overflows_of_ok hRead hOverflows).parse

theorem toBytes_error {e : Envelope} {options : Bytes} (hForm : e.WellFormed)
    (hOptions : e.stretching.options = .ok options) (hOptionsFit : Wire.fits options.length)
    (hLong : Wire.fits e.publicBlobs.length → ¬∀ c ∈ e.publicBlobs ++ [e.payload], Wire.fits c.length) :
    e.toBytes = .error (.misuse .width) := by
  have hHeader : ∀ c ∈ [Utf8.encode e.cipherName, Utf8.encode e.stretching.name, options],
      Wire.fits c.length := by
    simp only [List.forall_mem_cons]
    exact ⟨(takes_cipherName hForm).1, (takes_stretchingName hForm).1, hOptionsFit, nofun⟩
  rw [toBytes, hOptions, Fallible.bind_ok, Wire.strings_ok hHeader, Fallible.bind_ok]
  split
  · rename_i hCount
    rw [Wire.strings_error (hLong hCount)]
    rfl
  · rfl

theorem toBytes_of_within {e : Envelope} (hForm : e.WellFormed) (hWithin : e.Within Wire.fieldLimit) :
    if e.publicBlobs.length < 2 ^ 32 then ∃ data, e.toBytes = .ok data
    else e.toBytes = .error (.misuse .width) := by
  obtain ⟨hBlobs, hPayload, options, hOptions, hOptionsLimit⟩ := hWithin
  have fits : ∀ {bs : Bytes}, bs.length ≤ Wire.fieldLimit → Wire.fits bs.length := fun hLength =>
    (Packet.takes_of_length_le hLength).1
  split
  · rename_i hCount
    exact ⟨_, toBytes_eq_ok_iff.mpr ⟨options, hOptions, ⟨(takes_cipherName hForm).1,
      (takes_stretchingName hForm).1, fits hOptionsLimit⟩, Wire.fits_iff.mpr (by omega),
      ⟨fun blob hBlob => fits (hBlobs blob hBlob), fits hPayload⟩, rfl⟩⟩
  · rename_i hCount
    refine toBytes_error hForm hOptions (fits hOptionsLimit) fun hCountFits => ?_
    have hBelow := Wire.fits_iff.mp hCountFits
    omega

/-- Reading and writing are inverse to each other between the byte strings that read as an envelope
and the well formed envelopes within the limit of readers, but for a number of keys that does not fit
its four bytes. -/
theorem ofBytes_toBytes_inverse :
    (∀ data e, ofBytes data = .ok e → e.toBytes = .ok data ∧ e.WellFormed) ∧
    ∀ e : Envelope, e.WellFormed → e.Within Wire.fieldLimit →
      if e.publicBlobs.length < 2 ^ 32 then ∃ data, e.toBytes = .ok data ∧ ofBytes data = .ok e
      else e.toBytes = .error (.misuse .width) := by
  constructor
  · intro data e h
    obtain ⟨hForm, -, hBytes⟩ := ofBytes_eq_ok_iff.mp h
    exact ⟨hBytes, hForm⟩
  · intro e hForm hWithin
    have hWritten := toBytes_of_within hForm hWithin
    split
    · rename_i hCount
      rw [if_pos hCount] at hWritten
      obtain ⟨data, hBytes⟩ := hWritten
      exact ⟨data, hBytes, ofBytes_eq_ok_iff.mpr ⟨hForm, hWithin, hBytes⟩⟩
    · rename_i hCount
      rwa [if_neg hCount] at hWritten

theorem ofBytes_toBytes_inverse_encrypted :
    ∃ e : Envelope, e.cipherName = "aes256-ctr" ∧ e.stretching.rounds = 16 ∧ e.WellFormed ∧
      ∃ data, e.toBytes = .ok data ∧ ofBytes data = .ok e := by
  let e : Envelope := ⟨"aes256-ctr", ⟨"bcrypt", [7], 16⟩, [[1, 2], []], List.replicate 16 0⟩
  have hForm : e.WellFormed := by
    refine ⟨⟨CipherSuite.block "aes256-ctr" 32 .aes .ctr, by decide, rfl, by decide⟩, ?_, ?_, ?_, ?_⟩
    · exact .bcrypt (by decide) (by decide) (by decide)
    · simp [e]
    · simp [e]
    · simp [e]
  have hWithin : e.Within Wire.fieldLimit := by
    refine ⟨by decide, by decide, Wire.string [7] ++ Wire.uint32 16, ?_, by decide⟩
    exact (Stretching.options_bcrypt_eq_ok_iff (by decide) (by decide)).mpr ⟨by decide, rfl⟩
  obtain ⟨data, hBytes, hRead⟩ := ofBytes_toBytes_inverse.2 e hForm hWithin
  exact ⟨e, rfl, rfl, (ofBytes_toBytes_inverse.1 data e hRead).2, data, hBytes, hRead⟩

end Envelope
end SshKeys
