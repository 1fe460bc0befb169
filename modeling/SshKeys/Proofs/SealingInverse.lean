import SshKeys.Proofs.FileReading
/-!
# Encryption and decryption of private sections as maps on byte strings

Under parameters that a key file can hold and a passphrase that is not empty, each of the two takes
every text of whole blocks to one of the same length, whatever the journal, and each undoes the
other. Any other text is refused before the passphrase is looked at.
-/
namespace SshKeys.CipherSuite

variable {suite : CipherSuite} {s : Stretching} {passphrase : Datum} {text : Bytes}

theorem encrypt_unaligned (hText : text.length % suite.blockSize ≠ 0) (j : Journal) :
    suite.encrypt s passphrase text j = .error (.unaligned text.length suite.name) j := by
  have hUnaligned : suite.checkAligned text = .error (.unaligned text.length suite.name) :=
    if_neg hText
  rw [encrypt, hUnaligned, Action.bind_ofExcept_error]

theorem decrypt_unaligned (hText : text.length % suite.blockSize ≠ 0) (j : Journal) :
    suite.decrypt s passphrase text j = .error (.unaligned text.length suite.name) j := by
  have hUnaligned : suite.checkAligned text = .error (.unaligned text.length suite.name) :=
    if_neg hText
  rw [decrypt, hUnaligned, Action.bind_ofExcept_error]

/-- Under the passphrase, encryption and decryption of texts of whole blocks keep the length, and each
undoes the other. -/
structure Inverts (suite : CipherSuite) (s : Stretching) (passphrase : Datum) : Prop where
  sealing : ∀ text : Bytes, text.length % suite.blockSize = 0 → ∃ payload,
    (suite.encrypt s passphrase text).Yields payload ∧ payload.length = text.length ∧
      (suite.decrypt s passphrase payload).Yields text
  opening : ∀ payload : Bytes, payload.length % suite.blockSize = 0 → ∃ text,
    (suite.decrypt s passphrase payload).Yields text ∧ text.length = payload.length ∧
      (suite.encrypt s passphrase text).Yields payload

theorem inverts_of_sound (hSuite : suite ∈ all) (hSealed : suite.isNone = false) (hSound : s.Sound)
    (hName : s.name ≠ "none") (hSecret : passphrase.IsSecret) : suite.Inverts s passphrase := by
  -- Stretching looks neither at the text nor at the journal, so one key serves both directions.
  obtain ⟨key, iv, hDerived, hIv⟩ := s.deriveFor_eq_ok hSuite hSealed hSound hName hSecret
  constructor
  · intro text hText
    obtain ⟨hLength, hOpened⟩ := decryptWith_encryptWith hSuite key hIv hText
    refine ⟨suite.encryptWith key iv text,
      fun j => ⟨_, encrypt_of_deriveFor hText hSealed hSecret.1 hDerived j⟩, hLength, fun j => ?_⟩
    have hRun := decrypt_of_deriveFor (hLength.symm ▸ hText) hSealed hSecret.1 hDerived j
    rw [hOpened] at hRun
    exact ⟨_, hRun⟩
  · intro payload hPayload
    obtain ⟨hLength, hSealedAgain⟩ := encryptWith_decryptWith hSuite key hIv hPayload
    refine ⟨suite.decryptWith key iv payload,
      fun j => ⟨_, decrypt_of_deriveFor hPayload hSealed hSecret.1 hDerived j⟩, hLength,
      fun j => ?_⟩
    have hRun := encrypt_of_deriveFor (hLength.symm ▸ hPayload) hSealed hSecret.1 hDerived j
    rw [hSealedAgain] at hRun
    exact ⟨_, hRun⟩

/-- Every cipher but the one that does not encrypt inverts under bcrypt with a salt, a number of rounds
that fits its field and a passphrase that is not empty. The one that does not encrypt leaves texts of
whole blocks as they are under any parameters. All other texts are refused by every cipher as badly
formed. -/
theorem sealing_inverse (hSuite : suite ∈ all) :
    (suite.name ≠ "none" → ∀ (salt : Bytes) (rounds : Int) (passphrase : Datum), salt ≠ [] →
      1 ≤ rounds → rounds < 2 ^ 32 → passphrase.IsSecret →
        suite.Inverts ⟨"bcrypt", salt, rounds⟩ passphrase) ∧
    (suite.name = "none" → ∀ (s : Stretching) (passphrase : Datum) (text : Bytes) (j : Journal),
      text.length % suite.blockSize = 0 →
        suite.encrypt s passphrase text j = .ok text j ∧
        suite.decrypt s passphrase text j = .ok text j) ∧
    ∀ (s : Stretching) (passphrase : Datum) (text : Bytes), text.length % suite.blockSize ≠ 0 →
      (suite.encrypt s passphrase text).Fails (·.kind = .reported .format) ∧
      (suite.decrypt s passphrase text).Fails (·.kind = .reported .format) := by
  have hNone := isNone_iff suite hSuite
  refine ⟨fun hName salt rounds passphrase hSalt hPositive hFits hSecret => ?_,
    fun hName s passphrase text j hText => ?_, fun s passphrase text hText => ?_⟩
  · have hSealed : suite.isNone = false := by
      rw [Bool.eq_false_iff, Ne, hNone]
      exact hName
    exact inverts_of_sound hSuite hSealed (.bcrypt hSalt hPositive hFits)
      (show ("bcrypt" : String) ≠ "none" by decide) hSecret
  · exact ⟨encrypt_of_isNone hText (hNone.mpr hName) j, decrypt_of_isNone hText (hNone.mpr hName) j⟩
  · exact ⟨fun j => ⟨_, j, encrypt_unaligned hText j, rfl⟩,
      fun j => ⟨_, j, decrypt_unaligned hText j, rfl⟩⟩

theorem sealing_inverse_aes256 :
    (block "aes256-ctr" 32 .aes .ctr).Inverts ⟨"bcrypt", [7], 16⟩ (.text "secret") ∧
      ((block "aes256-ctr" 32 .aes .ctr).encrypt Stretching.none (.text "") [1, 2, 3]).Fails
        (·.kind = .reported .format) ∧
      ∀ j, none.decrypt Stretching.none (.text "") (List.replicate 8 0) j =
        .ok (List.replicate 8 0) j := by
  have hCounter : block "aes256-ctr" 32 .aes .ctr ∈ all := by decide
  obtain ⟨hInverts, -, hRefused⟩ := sealing_inverse hCounter
  obtain ⟨-, hPlain, -⟩ := sealing_inverse (show none ∈ all by decide)
  exact ⟨hInverts (by decide) [7] 16 (.text "secret") (by decide) (by decide) (by decide) ⟨rfl, _, rfl⟩,
    (hRefused _ _ [1, 2, 3] (by decide)).1, fun j => (hPlain rfl _ _ _ j (by decide)).2⟩

end SshKeys.CipherSuite
