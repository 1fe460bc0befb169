import SshKeys.Proofs.ArmourCodec
import SshKeys.Proofs.SectionWriting
/-!
# Key files, there and back

Key files are read back as the keys they were written for, under the passphrase they were written
with. Writers know no limit but the four bytes of a length, so a section beyond the limit of readers
is written and then refused.
-/
namespace SshKeys

theorem Stretching.Sound.options_eq_ok {s : Stretching} (h : s.Sound) (hSalt : s.salt.length ≤ 16) :
    ∃ options, s.options = .ok options ∧ options.length ≤ 24 := by
  cases h with
  | none => exact ⟨[], rfl, Nat.zero_le _⟩
  | @bcrypt salt rounds _ hPositive hRounds =>
    have hSaltLength : salt.length ≤ 16 := hSalt
    have hFits : Wire.fits salt.length := Wire.fits_iff.mpr (by omega)
    refine ⟨_, (options_bcrypt_eq_ok_iff hPositive hRounds).mpr ⟨hFits, rfl⟩, ?_⟩
    simp only [List.length_append, Wire.length_string, Wire.uint32, Bytes.length_ofNat]
    omega

namespace Envelope

open PrivateSection (fieldsOf bytesOf size)

variable {keys : List Key} {passphrase : Datum} {cipherName : Option String} {rounds : Option Int}
  {suite : CipherSuite}

/-- What is written around the section of some keys, and how the section is got back from it. -/
structure Wraps (keys : List Key) (passphrase : Datum) (suite : CipherSuite) (e : Envelope) :
    Prop where
  wellFormed : e.WellFormed
  blobs : e.publicBlobs = keys.map Key.blob
  length_payload : e.payload.length = size keys suite.blockSize
  options : ∃ options, e.stretching.options = .ok options ∧ options.length ≤ 24
  opens : ∃ check < 2 ^ 32, ∀ i, ∃ i', e.decrypt passphrase i =
    Action.ofExcept (PrivateSection.ofBytes (bytesOf keys suite.blockSize check) e.publicBlobs) i'

theorem build_ok (hKeys : keys ≠ []) (hPrivate : ∀ k ∈ keys, k.body.privateFields?.isSome)
    (hFits : ∀ c ∈ keys.flatMap fieldsOf, Wire.fits c.length)
    (hSettings : Settings passphrase cipherName rounds suite) (j : Journal) :
    ∃ e j', build keys passphrase cipherName rounds none j = .ok e j' ∧
      Wraps keys passphrase suite e := by
  have hSuite := hSettings.mem_all
  have hBlock := CipherSuite.blockSize_pos suite hSuite
  obtain ⟨s, j₁, hProtection, hSound, hSalt, hPlain, hProtected⟩ := protection_eq_ok hSettings j
  obtain ⟨check, j₂, hCheck, hFresh⟩ := PrivateSection.buildFresh_eq j₁
  let plain := bytesOf keys suite.blockSize check
  have hBuilt : PrivateSection.build keys suite.blockSize (check : Nat) = .ok plain :=
    (PrivateSection.build_eq_ok_iff hPrivate).mpr ⟨by omega, hFits, rfl⟩
  have hLength : plain.length = size keys suite.blockSize :=
    PrivateSection.length_of_build hPrivate hBuilt
  have hWhole : plain.length % suite.blockSize = 0 := by
    rw [hLength]
    exact PrivateSection.size_mod hBlock keys
  obtain ⟨payload, j₃, hSealed, hPayload, hOpened⟩ :=
    CipherSuite.decrypt_encrypt hSuite hSound hWhole hProtected j₂
  have hFound : CipherSuite.ofName (some suite.name) = .ok suite :=
    CipherSuite.ofName_eq_ok_iff.mpr ⟨hSuite, rfl⟩
  have hSection : PrivateSection.buildFresh keys suite.blockSize none j₁ = .ok plain j₂ := by
    rw [hFresh, hBuilt]
    rfl
  have hWritten : ¬keys.isEmpty = true := by simpa using hKeys
  refine ⟨⟨suite.name, s, keys.map Key.blob, payload⟩, j₃, ?_, ?_⟩
  · rw [build, if_neg hWritten]
    beta_reduce
    rw [Stateful.bind_ok hProtection]
    simp only
    rw [hFound, Action.bind_ofExcept_ok, Stateful.bind_ok hSection, Stateful.bind_ok hSealed]
    rfl
  · have hPayloadLength := hPayload.trans hLength
    have hPayloadSome : payload ≠ [] := by
      rintro rfl
      have hFields := PrivateSection.length_fields_le_size keys suite.blockSize
      rw [List.length_nil] at hPayloadLength
      omega
    refine ⟨⟨⟨suite, hSuite, rfl, by rw [hPayload, hWhole]⟩, hSound, hPlain, by simpa using hKeys,
      hPayloadSome⟩, rfl, hPayloadLength, hSound.options_eq_ok hSalt, check, hCheck, fun i => ?_⟩
    obtain ⟨i', hOpen⟩ := hOpened i
    refine ⟨i', ?_⟩
    rw [decrypt, hFound, Action.bind_ofExcept_ok, Stateful.bind_ok hOpen]

theorem build_error (hKeys : keys ≠ []) (hPrivate : ∀ k ∈ keys, k.body.privateFields?.isSome)
    (hLong : ¬∀ c ∈ keys.flatMap fieldsOf, Wire.fits c.length)
    (hSettings : Settings passphrase cipherName rounds suite) (j : Journal) :
    ∃ j', build keys passphrase cipherName rounds none j = .error (.misuse .width) j' := by
  obtain ⟨s, j₁, hProtection, -⟩ := protection_eq_ok hSettings j
  obtain ⟨check, j₂, hCheck, hFresh⟩ := PrivateSection.buildFresh_eq j₁
  have hFound : CipherSuite.ofName (some suite.name) = .ok suite :=
    CipherSuite.ofName_eq_ok_iff.mpr ⟨hSettings.mem_all, rfl⟩
  have hSection : PrivateSection.buildFresh keys suite.blockSize none j₁ =
      .error (.misuse .width) j₂ := by
    rw [hFresh, PrivateSection.build_error hPrivate hLong hCheck]
    rfl
  have hWritten : ¬keys.isEmpty = true := by simpa using hKeys
  refine ⟨j₂, ?_⟩
  rw [build, if_neg hWritten]
  beta_reduce
  rw [Stateful.bind_ok hProtection]
  simp only
  rw [hFound, Action.bind_ofExcept_ok, Stateful.bind_error hSection]

theorem load_ok {data : Bytes} {e : Envelope} (h : ofBytes data = .ok e) (i : Journal) :
    ∃ i', load data i = .ok e i' := by
  rw [load, h, Action.bind_ofExcept_ok]
  exact ⟨_, rfl⟩

theorem load_error {data : Bytes} {err : Error} (h : ofBytes data = .error err) (i : Journal) :
    load data i = .error err i := by
  rw [load, h, Action.bind_ofExcept_error]

theorem decodeKeys_armour (data : Bytes) (passphrase : Datum) (i : Journal) :
    decodeKeys (.text (Armour.encode data)) passphrase i =
      (do let e ← load data; return (← e.decrypt passphrase).entries) i := by
  simp only [decodeKeys]
  rw [Armour.decodeText_encode, Action.bind_ofExcept_ok]

namespace Wraps

variable {e : Envelope}

theorem within_iff (h : Wraps keys passphrase suite e)
    (hPrivate : ∀ k ∈ keys, k.body.privateFields?.isSome) :
    e.Within Wire.fieldLimit ↔ size keys suite.blockSize ≤ Wire.fieldLimit := by
  constructor
  · intro hWithin
    rw [← h.length_payload]
    exact hWithin.payload
  · intro hSize
    obtain ⟨options, hOptions, hLength⟩ := h.options
    refine ⟨?_, h.length_payload.trans_le hSize, options, hOptions, hLength.trans (by decide)⟩
    rw [h.blobs, List.forall_mem_map]
    intro k hk
    exact (PrivateSection.length_blob_le_size hk (hPrivate k hk) suite.blockSize).trans hSize

theorem toBytes_ok (h : Wraps keys passphrase suite e)
    (hPrivate : ∀ k ∈ keys, k.body.privateFields?.isSome)
    (hSize : size keys suite.blockSize < 2 ^ 32) : ∃ data, e.toBytes = .ok data := by
  have fits : ∀ {n : Nat}, n ≤ size keys suite.blockSize → Wire.fits n := fun hLength =>
    Wire.fits_iff.mpr (by omega)
  obtain ⟨options, hOptions, hOptionsLength⟩ := h.options
  have hOptionsFit : Wire.fits options.length := Wire.fits_iff.mpr (by omega)
  have hCount : e.publicBlobs.length = keys.length := by rw [h.blobs, List.length_map]
  refine ⟨_, toBytes_eq_ok_iff.mpr ⟨options, hOptions, ⟨(takes_cipherName h.wellFormed).1,
    (takes_stretchingName h.wellFormed).1, hOptionsFit⟩, ?_, ⟨?_, fits h.length_payload.le⟩, rfl⟩⟩
  · rw [hCount]
    exact fits (PrivateSection.length_le_size_of_keys keys suite.blockSize)
  · rw [h.blobs, List.forall_mem_map]
    intro k hk
    exact fits (PrivateSection.length_blob_le_size hk (hPrivate k hk) suite.blockSize)

theorem toBytes_error (h : Wraps keys passphrase suite e)
    (hSize : ¬size keys suite.blockSize < 2 ^ 32) : e.toBytes = .error (.misuse .width) := by
  obtain ⟨options, hOptions, hOptionsLength⟩ := h.options
  have hOptionsFit : Wire.fits options.length := Wire.fits_iff.mpr (by omega)
  refine Envelope.toBytes_error h.wellFormed hOptions hOptionsFit fun _ hFits => ?_
  have hPayload := hFits e.payload (List.mem_append_right _ List.mem_cons_self)
  rw [Wire.fits_iff, h.length_payload] at hPayload
  omega

theorem decodeKeys_ok {data : Bytes} (h : Wraps keys passphrase suite e)
    (hAccepted : ∀ k ∈ keys, k.body.Accepted ∧ k.comment.isSome)
    (hPrivate : ∀ k ∈ keys, k.body.privateFields?.isSome) (hData : e.toBytes = .ok data)
    (hLimit : size keys suite.blockSize ≤ Wire.fieldLimit) (i : Journal) :
    ∃ i', decodeKeys (.text (Armour.encode data)) passphrase i = .ok keys i' := by
  have hRead := ofBytes_eq_ok_iff.mpr ⟨h.wellFormed, (h.within_iff hPrivate).mpr hLimit, hData⟩
  obtain ⟨i₁, hLoad⟩ := load_ok hRead i
  obtain ⟨check, hCheck, hOpens⟩ := h.opens
  obtain ⟨i₂, hOpen⟩ := hOpens i₁
  obtain ⟨s, hSection, hEntries⟩ := PrivateSection.ofBytes_bytesOf hAccepted hLimit hCheck
  rw [h.blobs, hSection] at hOpen
  refine ⟨i₂, ?_⟩
  rw [decodeKeys_armour, Stateful.bind_ok hLoad, Stateful.bind_ok (hOpen.trans rfl), hEntries]
  rfl

theorem decodeKeys_overflows {data : Bytes} (h : Wraps keys passphrase suite e)
    (hPrivate : ∀ k ∈ keys, k.body.privateFields?.isSome) (hData : e.toBytes = .ok data)
    (hLimit : ¬size keys suite.blockSize ≤ Wire.fieldLimit) (i : Journal) :
    ∃ err i', decodeKeys (.text (Armour.encode data)) passphrase i = .error err i' ∧
      err.kind = .reported .lengthOverflow := by
  obtain ⟨err, hRead, hKind⟩ := ofBytes_overflows h.wellFormed hData fun hWithin =>
    hLimit ((h.within_iff hPrivate).mp hWithin)
  refine ⟨err, i, ?_, hKind⟩
  rw [decodeKeys_armour, Stateful.bind_error (load_error hRead i)]

end Wraps

/-- Keys that pass the checks of their classes are read back from the text they are written as, in
their order and with their comments, if their padded section is within the limit of readers. A longer
section is written too, up to the four bytes of a length, but refused by the reader. -/
theorem decodeKeys_encodeKeys (hKeys : keys ≠ [])
    (hAccepted : ∀ k ∈ keys, k.body.Accepted ∧ k.comment.isSome)
    (hSettings : Settings passphrase cipherName rounds suite) (j : Journal) :
    if size keys suite.blockSize < 2 ^ 32 then
      ∃ text j', encodeKeys keys passphrase cipherName rounds j = .ok text j' ∧ ∀ i,
        if size keys suite.blockSize ≤ Wire.fieldLimit then
          ∃ i', decodeKeys (.text text) passphrase i = .ok keys i'
        else ∃ e i', decodeKeys (.text text) passphrase i = .error e i' ∧
          e.kind = .reported .lengthOverflow
    else ∃ j', encodeKeys keys passphrase cipherName rounds j = .error (.misuse .width) j' := by
  have hPrivate : ∀ k ∈ keys, k.body.privateFields?.isSome := by
    intro k hk
    obtain ⟨fields, hFields, -⟩ := (hAccepted k hk).1.privateFields
    rw [hFields]
    rfl
  by_cases hFits : ∀ c ∈ keys.flatMap fieldsOf, Wire.fits c.length
  · obtain ⟨e, j', hBuild, hWraps⟩ := build_ok hKeys hPrivate hFits hSettings j
    split
    · rename_i hSize
      obtain ⟨data, hData⟩ := hWraps.toBytes_ok hPrivate hSize
      refine ⟨Armour.encode data, j', ?_, fun i => ?_⟩
      · rw [encodeKeys, Stateful.bind_ok hBuild, hData]
        rfl
      split
      · rename_i hLimit
        exact hWraps.decodeKeys_ok hAccepted hPrivate hData hLimit i
      · rename_i hLimit
        exact hWraps.decodeKeys_overflows hPrivate hData hLimit i
    · rename_i hSize
      refine ⟨j', ?_⟩
      rw [encodeKeys, Stateful.bind_ok hBuild, hWraps.toBytes_error hSize]
      rfl
  · have hSize : ¬size keys suite.blockSize < 2 ^ 32 := by
      intro hSize
      refine hFits fun c hc => ?_
      have hField := PrivateSection.length_le_size hc suite.blockSize
      exact Wire.fits_iff.mpr (by omega)
    rw [if_neg hSize]
    obtain ⟨j', hBuild⟩ := build_error hKeys hPrivate hFits hSettings j
    refine ⟨j', ?_⟩
    rw [encodeKeys, Stateful.bind_error hBuild]

theorem decodeKeys_encodeKeys_p256 : ∃ keys : List Key, keys.length = 2 ∧
    ∃ text j, encodeKeys keys (.text "secret") none (some 7) ⟨[1, 2, 3], ⟨[], 0⟩, []⟩ = .ok text j ∧
      ∃ i, decodeKeys (.text text) (.text "secret") j = .ok keys i := by
  let body : KeyBody := .ecdsa ⟨.p256, Curve.secp256r1.base, some 1⟩
  let keys : List Key := [⟨body, some "first"⟩, ⟨body, some ""⟩]
  let suite := CipherSuite.block "aes256-ctr" 32 .aes .ctr
  have hAccepted : ∀ k ∈ keys, k.body.Accepted ∧ k.comment.isSome := by
    simp only [keys, List.forall_mem_cons]
    exact ⟨⟨KeyBody.accepted_p256_one, rfl⟩, ⟨KeyBody.accepted_p256_one, rfl⟩, nofun⟩
  have hSettings : Settings (.text "secret") none (some 7) suite := by
    refine .secret ⟨rfl, _, rfl⟩ (by decide) rfl rfl ?_
    intro n hn
    cases hn
    decide
  have hSize : size keys suite.blockSize ≤ Wire.fieldLimit := by decide +kernel
  have hWritten := decodeKeys_encodeKeys (List.cons_ne_nil _ _) hAccepted hSettings
    ⟨[1, 2, 3], ⟨[], 0⟩, []⟩
  rw [if_pos (hSize.trans_lt (by decide))] at hWritten
  obtain ⟨text, j, hText, hRead⟩ := hWritten
  have hKeys := hRead j
  rw [if_pos hSize] at hKeys
  exact ⟨keys, rfl, text, j, hText, hKeys⟩

end Envelope
end SshKeys
