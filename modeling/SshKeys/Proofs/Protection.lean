import SshKeys.Proofs.FileReading
import SshKeys.Proofs.PemHeaders
/-!
# A passphrase protects whatever is written under it

A text in any private format that is written under a passphrase tells that it is encrypted before
any private number can be read, so that without a passphrase no key is got from it.
-/
namespace SshKeys

namespace Envelope

open PrivateSection (fieldsOf size)

variable {keys : List Key} {key : Key} {passphrase given : Datum} {cipherName : Option String}
  {rounds : Option Int} {suite : CipherSuite} {e : Envelope} {j j' : Journal}

/-- Who writes under a passphrase has chosen a cipher that encrypts, and rounds that can be
written. -/
theorem protection_sealed {name : String} {s : Stretching} (hGiven : passphrase.isEmpty = false)
    (h : protection passphrase cipherName rounds j = .ok (name, s) j') :
    name = cipherName.getD defaultCipher ∧ name ≠ "none" ∧ s.name = "bcrypt" ∧
      s.rounds = rounds.getD Stretching.defaultRounds ∧ 1 ≤ s.rounds := by
  unfold protection at h
  rw [if_neg (by simp [hGiven])] at h
  simp only [Stateful.throwIf_eq_ok_iff, Stateful.bind_eq_ok_iff, Stateful.pure_eq_ok_iff,
    Stretching.fresh, Prod.mk.injEq] at h
  obtain ⟨hName, _, j₁, ⟨hRounds, salt, _, -, rfl, rfl⟩, ⟨rfl, rfl⟩, -⟩ := h
  exact ⟨rfl, hName, rfl, rfl, Int.not_lt.mp hRounds⟩

theorem deriveFor_sealed {s : Stretching} {key iv : Bytes} (hSuite : suite ∈ CipherSuite.all)
    (hSealed : suite.isNone = false) (hName : s.name = "bcrypt")
    (h : s.deriveFor suite passphrase = .ok (key, iv)) :
    (∃ bs, passphrase.toBytes = .ok bs) ∧ s.roundsFit = true := by
  obtain ⟨scheme, hScheme⟩ : ∃ scheme, suite.scheme = some scheme := by
    rw [CipherSuite.isNone, Option.isNone_eq_false_iff] at hSealed
    exact Option.isSome_iff_exists.mp hSealed
  obtain ⟨-, -, hSize, -⟩ := CipherSuite.sizes_of_scheme suite hSuite _ hScheme
  have hDerives : ¬(s.name = "none" ∨ suite.keySize + suite.ivSize = 0) := by
    rintro (hNone | hZero)
    · simp [hName] at hNone
    · omega
  rw [Stretching.deriveFor, Stretching.derive, if_neg hDerives] at h
  simp only [Fallible.bind_eq_ok_iff, Fallible.throwUnless_eq_ok_iff] at h
  obtain ⟨_, ⟨password, hPassword, hRounds, -⟩, -⟩ := h
  exact ⟨⟨password, hPassword⟩, hRounds⟩

/-- An envelope that was built under a passphrase was built with proper settings, and its section
could be written. -/
theorem settings_of_build (hGiven : passphrase.isEmpty = false)
    (h : build keys passphrase cipherName rounds none j = .ok e j') :
    ∃ suite, e.cipherName = suite.name ∧ suite.name ≠ "none" ∧
      suite.name = cipherName.getD defaultCipher ∧ Settings passphrase cipherName rounds suite ∧
      ∃ plain j₁ j₂, PrivateSection.buildFresh keys suite.blockSize none j₁ = .ok plain j₂ := by
  simp only [build, Stateful.throwIf_eq_ok_iff, Stateful.bind_eq_ok_iff, Stateful.pure_eq_ok_iff,
    Action.ofExcept_eq_ok_iff] at h
  obtain ⟨-, ⟨name, s⟩, j₁, hProtection, suite, _, ⟨hFound, rfl⟩, plain, j₂, hPlain, payload, j₃,
    hPayload, rfl, -⟩ := h
  obtain ⟨rfl, hOther, hStretching, hRounds, hPositive⟩ := protection_sealed hGiven hProtection
  obtain ⟨hSuite, hName⟩ := CipherSuite.ofName_eq_ok_iff.mp hFound
  have hSealed : suite.isNone = false := by
    rw [← Bool.not_eq_true, CipherSuite.isNone_iff suite hSuite, hName]
    exact hOther
  have hOpen : ¬suite.isNone = true := by simp [hSealed]
  have hSome : ¬passphrase.isEmpty = true := by simp [hGiven]
  rw [CipherSuite.encrypt] at hPayload
  simp only [Stateful.bind_eq_ok_iff, Action.ofExcept_eq_ok_iff, if_neg hOpen, if_neg hSome]
    at hPayload
  obtain ⟨_, _, -, _, _, -, ⟨key, iv⟩, _, ⟨hDerived, -⟩, -⟩ := hPayload
  obtain ⟨hPassword, hFits⟩ := deriveFor_sealed hSuite hSealed hStretching hDerived
  refine ⟨suite, hName.symm, hName ▸ hOther, hName,
    .secret ⟨hGiven, hPassword⟩ hSuite hName.symm hSealed ?_, plain, j₁, j₂, hPlain⟩
  rintro n rfl
  have hBelow : s.rounds < 4294967296 := by simp [Stretching.roundsFit] at hFits; exact hFits.2
  rw [hRounds] at hPositive hBelow
  exact ⟨hPositive, hBelow⟩

/-- How many bytes the private section of a key takes that is written with a given cipher. -/
def sectionSize (key : Key) (cipherName : Option String) : Nat :=
  size [key] ((CipherSuite.ofName? (cipherName.getD defaultCipher)).getD .none).blockSize

theorem unlock_fails_sealed {data : Bytes} (hRead : ofBytes data = .ok e)
    (hCipher : e.cipherName ≠ "none") (hGiven : given.isEmpty = true) :
    (unlock data given).Fails (· = .passphraseRequired) := by
  obtain ⟨hForm, -, -⟩ := ofBytes_eq_ok_iff.mp hRead
  obtain ⟨suite, hSuite, hName, hWhole⟩ := hForm.cipher
  have hFound : CipherSuite.ofName (some e.cipherName) = .ok suite :=
    CipherSuite.ofName_eq_ok_iff.mpr ⟨hSuite, hName⟩
  have hSealed : ¬suite.isNone = true := by
    rw [CipherSuite.isNone_iff suite hSuite, hName]
    exact hCipher
  have hDecrypt : (suite.decrypt e.stretching given e.payload).Fails (· = .passphraseRequired) := by
    rw [CipherSuite.decrypt, CipherSuite.checkAligned_ok hWhole]
    refine Action.Yields.bind_fails (Action.yields_ofExcept ()) ?_
    rw [if_neg hSealed, if_pos hGiven]
    exact Action.Fails.bind (Action.fails_throw rfl)
  have hOpen : (e.decrypt given).Fails (· = .passphraseRequired) := by
    rw [decrypt, hFound]
    exact Action.Yields.bind_fails (Action.yields_ofExcept suite) hDecrypt.bind
  exact Action.Yields.bind_fails (load_ok hRead) hOpen.bind

/-- What is written for a key under a passphrase is not read without one. A section beyond the limit
of readers is refused for its length, before anything else. -/
theorem encodeKeys_sealed {text : String} (hSign : key.canSign = true)
    (hSecret : passphrase.isEmpty = false) (hGiven : given.isEmpty = true)
    (h : encodeKeys [key] passphrase cipherName rounds j = .ok text j') :
    (KeyFile.parse (.text text) given).Fails fun err => err.kind = .reported
      (if Wire.fieldLimit < sectionSize key cipherName then .lengthOverflow
        else .passwordRequired) := by
  have hPrivate := KeyFile.isSome_privateFields?_of_canSign hSign
  simp only [encodeKeys, Stateful.bind_eq_ok_iff, Action.ofExcept_eq_ok_iff,
    Stateful.pure_eq_ok_iff] at h
  obtain ⟨e, j₁, hBuild, data, _, ⟨hData, -⟩, rfl, -⟩ := h
  obtain ⟨suite, hCipher, hOther, hName, hSettings, plain, j₂, j₃, hPlain⟩ :=
    settings_of_build hSecret hBuild
  have hFits : ∀ c ∈ [key].flatMap fieldsOf, Wire.fits c.length := by
    obtain ⟨check, j₄, -, hFresh⟩ := PrivateSection.buildFresh_eq j₂
    rw [hFresh, Action.ofExcept_eq_ok_iff] at hPlain
    exact ((PrivateSection.build_eq_ok_iff hPrivate).mp hPlain.1).2.1
  obtain ⟨e', j₄, hBuild', hWraps⟩ := build_ok (List.cons_ne_nil _ _) hPrivate hFits hSettings j
  -- the envelope that was built is the one that the settings determine
  cases hBuild.symm.trans hBuild'
  have hSize : sectionSize key cipherName = size [key] suite.blockSize := by
    rw [sectionSize, ← hName, CipherSuite.ofName?_name suite hSettings.mem_all]
    rfl
  rw [hSize]
  by_cases hLong : Wire.fieldLimit < size [key] suite.blockSize
  · rw [if_pos hLong]
    exact KeyFile.parse_wraps_overflows hWraps hData hSign hLong given
  · rw [if_neg hLong]
    have hRead := KeyFile.ofBytes_of_wraps hWraps hData hSign (Nat.not_lt.mp hLong)
    refine KeyFile.parse_armour_fails hRead (KeyFile.name_of_wraps hWraps) fun i => ?_
    obtain ⟨err, i', hError, rfl⟩ := unlock_fails_sealed hRead (hCipher ▸ hOther) hGiven i
    exact ⟨_, i', hError, rfl⟩

end Envelope

namespace PemBlock

variable {passphrase given : Datum} {cipherName : Option String} {key : Key} {text : String}
  {j j' : Journal}

/-- Texts with a block that tells that its key is encrypted, by its label or by its headers. -/
inductive Sealed : String → Prop
  | byLabel (body : Bytes) : Sealed (render PemKind.encryptedPrivate.label [] body)
  | byHeaders {kind : PemKind} (hPrivate : kind.isPublic = false)
      (hOther : kind ≠ .encryptedPrivate) (cipher : ChainedCipher) (iv body : Bytes) :
      Sealed (render kind.label (encryptedLines cipher iv) body)

theorem renderEncrypted_sealed {kind : PemKind} {body : Bytes} (hPrivate : kind.isPublic = false)
    (hOther : kind ≠ .encryptedPrivate)
    (h : renderEncrypted kind.label body passphrase cipherName j = .ok text j') : Sealed text := by
  simp only [renderEncrypted, Stateful.bind_eq_ok_iff, Action.ofExcept_eq_ok_iff,
    Stateful.pure_eq_ok_iff] at h
  obtain ⟨cipher, _, -, iv, _, -, _, _, -, rfl, -⟩ := h
  have hLines : ["Proc-Type: " ++ encryptedMark,
      "DEK-Info: " ++ cipher.headerName ++ "," ++ Hex.encodeUpper iv, ""] =
      encryptedLines cipher iv := by
    simp only [encryptedLines, cipherValue, String.append_assoc]
  rw [hLines]
  exact .byHeaders hPrivate hOther cipher iv _

theorem writePrivateAs_sealed {format : PrivateFormat} (hSecret : passphrase.isEmpty = false)
    (h : writePrivateAs format key passphrase cipherName j = .ok text j') : Sealed text := by
  have hSome : ¬passphrase.isEmpty = true := by simp [hSecret]
  rw [writePrivateAs, Stateful.throwUnless_eq_ok_iff] at h
  obtain ⟨-, h⟩ := h
  split at h
  · simp only [writeAny, Stateful.bind_eq_ok_iff, Action.ofExcept_eq_ok_iff, if_neg hSome,
      Stateful.throwIf_eq_ok_iff, Stateful.pure_eq_ok_iff] at h
    obtain ⟨_, _, -, _, _, -, -, encrypted, _, -, rfl, -⟩ := h
    exact .byLabel encrypted.toBytes
  · rw [writeOwn] at h
    split at h
    · cases h
    · rename_i kind hKind
      simp only [Stateful.bind_eq_ok_iff, Action.ofExcept_eq_ok_iff, if_neg hSome] at h
      obtain ⟨_, _, -, h⟩ := h
      obtain ⟨hPrivate, hOther, -⟩ := PemKind.admits_of_ofClass? hKind
      exact renderEncrypted_sealed hPrivate hOther h

theorem checkHeaders_without_passphrase {b : PemBlock} {cipher : ChainedCipher} {iv : Bytes}
    (hHeaders : b.headers = [("proc-type", encryptedMark), ("dek-info", cipherValue cipher iv)])
    (hGiven : given.isEmpty = true) :
    b.checkHeaders encryptedMark given = .error .passphraseRequired := by
  rw [checkHeaders, if_neg (not_not_intro rfl)]
  beta_reduce
  rw [cipherHeader_encrypted hHeaders, Fallible.bind_ok]
  simp only [if_pos hGiven]
  rfl

theorem Sealed.parse_fails (h : Sealed text) (hGiven : given.isEmpty = true) :
    (KeyFile.parse (.text text) given).Fails (· = .passphraseRequired) := by
  cases h with
  | byLabel body =>
    refine KeyFile.parse_render_fails .none rfl ?_
    rw [readPrivate, if_pos rfl, if_pos hGiven]
    refine Action.Fails.bind ?_
    exact Action.fails_throw rfl
  | @byHeaders kind hPrivate hOther cipher iv body =>
    refine KeyFile.parse_render_fails (heads_encrypted cipher iv) hPrivate ?_
    let b : PemBlock := ⟨kind.label,
      [("proc-type", encryptedMark), ("dek-info", cipherValue cipher iv)], body⟩
    have hHeader : b.header "proc-type" = some encryptedMark := rfl
    have hDecrypt : (b.decrypt encryptedMark given).Fails (· = .passphraseRequired) := by
      rw [decrypt, checkHeaders_without_passphrase rfl hGiven]
      exact Action.Fails.bind (Action.fails_ofExcept rfl)
    change (b.readPrivate kind given).Fails _
    rw [readPrivate, if_neg hOther, hHeader]
    exact hDecrypt.bind

end PemBlock

namespace KeyFile

/-- A passphrase is not dropped: whatever private format a key is written in under a passphrase, the
text is not read without one. It asks for a passphrase, unless the private section of a key file is
too long for readers. -/
theorem parse_requires_passphrase {format : Format} {key : Key} {passphrase given : Datum}
    {cipherName : Option String} {rounds : Option Int} {text : String} {j j' : Journal}
    (hPrivate : format.isPrivate = true) (hSecret : passphrase.isEmpty = false)
    (hWritten : serialize key (some format.name) passphrase cipherName rounds j = .ok text j')
    (hGiven : given.isEmpty = true) (i : Journal) :
    ∃ err i', parse (.text text) given i = .error err i' ∧ err.kind = .reported
      (if format = .openssh ∧ Wire.fieldLimit < Envelope.sectionSize key cipherName then
        .lengthOverflow else .passwordRequired) := by
  rw [serialize_eq] at hWritten
  unfold serializeAs at hWritten
  rw [Stateful.throwIf_eq_ok_iff] at hWritten
  obtain ⟨hKey, hWritten⟩ := hWritten
  have hSign : key.canSign = true := by simpa [hPrivate] using hKey
  have pem {pemFormat : PemBlock.PrivateFormat} {cipher : Option String}
      (hPem : PemBlock.writePrivateAs pemFormat key passphrase cipher j = .ok text j')
      (hOther : format ≠ .openssh) :
      ∃ err i', parse (.text text) given i = .error err i' ∧ err.kind = .reported
        (if format = .openssh ∧ Wire.fieldLimit < Envelope.sectionSize key cipherName then
          .lengthOverflow else .passwordRequired) := by
    obtain ⟨_, i', hError, rfl⟩ :=
      (PemBlock.writePrivateAs_sealed hSecret hPem).parse_fails hGiven i
    rw [if_neg fun h => hOther h.1]
    exact ⟨_, i', hError, rfl⟩
  cases format with
  | openssh =>
    simp only [true_and]
    exact Envelope.encodeKeys_sealed hSign hSecret hGiven hWritten i
  | pem => exact pem hWritten nofun
  | pkcs1 => exact pem hWritten nofun
  | sec1 => exact pem hWritten nofun
  | pkcs8 => exact pem hWritten nofun
  | publicLine => cases hPrivate
  | pemPublic => cases hPrivate
  | pkcs1Public => cases hPrivate

theorem parse_requires_passphrase_sec1 : ∃ key : Key, ∃ text j,
    serialize key (some "sec1") (.text "secret") none none ⟨[], ⟨[], 0⟩, []⟩ = .ok text j ∧
      ∃ err i, parse (.text text) (.text "") ⟨[], ⟨[], 0⟩, []⟩ = .error err i ∧
        err.kind = .reported .passwordRequired := by
  let key : Key := ⟨.ecdsa ⟨.p256, Curve.secp256r1.base, some 1⟩, some ""⟩
  have hWritten : ∃ text j, serialize key (some Format.sec1.name) (.text "secret") none none
      ⟨[], ⟨[], 0⟩, []⟩ = .ok text j := ⟨_, _, rfl⟩
  obtain ⟨text, j, hText⟩ := hWritten
  refine ⟨key, text, j, hText, ?_⟩
  obtain ⟨err, i, hError, hKind⟩ := parse_requires_passphrase rfl rfl hText
    (show (Datum.text "").isEmpty = true from rfl) ⟨[], ⟨[], 0⟩, []⟩
  exact ⟨err, i, hError, hKind⟩

end KeyFile
end SshKeys
