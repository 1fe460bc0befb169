import SshKeys.Envelope
import SshKeys.Proofs.CipherModes
import SshKeys.Proofs.EnvelopeCodec
/-!
# Sealing a private section under a passphrase and opening it again

Stretching gives a key and an initial vector of the sizes that the cipher asks for, so a sealed
section is as long as it was and opens under the same passphrase, whatever the journal.
-/
namespace SshKeys

namespace Utf8

theorem encode_eq_nil_iff {s : String} : encode s = [] ↔ s = "" := by
  constructor
  · intro h
    have hRead := decode?_encode s
    rw [h, ← (show encode "" = [] from rfl), decode?_encode] at hRead
    exact (Option.some.inj hRead).symm
  · rintro rfl
    rfl

end Utf8

namespace Datum

/-- A passphrase that encrypts: text or bytes, and not empty. -/
def IsSecret (d : Datum) : Prop := d.isEmpty = false ∧ ∃ bs, d.toBytes = .ok bs

theorem toBytes_ne_nil {d : Datum} {bs : Bytes} (hSome : d.isEmpty = false)
    (h : d.toBytes = .ok bs) : bs ≠ [] := by
  cases d with
  | text s =>
    cases h
    rw [Ne, Utf8.encode_eq_nil_iff]
    rintro rfl
    cases hSome
  | bytes bs' =>
    cases h
    rintro rfl
    cases hSome
  | foreign _ => cases h

end Datum

namespace Action

variable {α β : Type} {a : α} {e : Error} {f : α → Action β} {j : Journal}

theorem bind_ofExcept_ok : (ofExcept (.ok a) >>= f) j = f a j := rfl

theorem bind_ofExcept_error : (ofExcept (.error e) >>= f) j = .error e j := rfl

theorem bind_log {level : Level} {source : Source} {message : String} {f : Unit → Action β} :
    (Journal.log level source message >>= f) j =
      f () { j with written := ⟨level, source, message⟩ :: j.written } := rfl

end Action

namespace Journal

theorem draw_eq_ok (count : Nat) (j : Journal) :
    ∃ bs j', draw count j = .ok bs j' ∧ bs.length = count := by
  refine ⟨_, _, rfl, ?_⟩
  rw [List.length_append, Bytes.length_zeros, List.length_take]
  omega

end Journal

namespace Bcrypt

theorem length_dealt {size : Nat} {blocks : List Bytes} (h : size ≤ 32 * blocks.length) :
    (dealt size blocks).length = size := by
  rw [dealt, List.length_take, List.length_flatMap]
  simp only [List.length_map, List.map_const', List.sum_replicate_nat, List.length_range]
  omega

theorem stretch?_eq_some {passphrase salt : Bytes} {rounds : Int} {size : Nat}
    (hPassphrase : passphrase ≠ []) (hSalt : salt ≠ []) (hRounds : 1 ≤ rounds) (hSize : 0 < size)
    (hLimit : size ≤ 512) :
    ∃ bs, stretch? passphrase salt rounds size = some bs ∧ bs.length = size := by
  have hAccepted : ¬(passphrase.isEmpty || salt.isEmpty || decide (rounds < 1) ||
      decide (size = 0) || decide (512 < size)) = true := by
    simp only [Bool.or_eq_true, decide_eq_true_eq, List.isEmpty_iff]
    rintro ((((h | h) | h) | h) | h)
    · exact hPassphrase h
    · exact hSalt h
    · omega
    · omega
    · omega
  rw [stretch?, if_neg hAccepted]
  refine ⟨_, rfl, length_dealt ?_⟩
  rw [List.length_map, List.length_range]
  omega

end Bcrypt

namespace CipherSuite

/-- The sizes of a cipher fit its algorithm, and stretching can supply them. -/
theorem sizes_of_scheme : ∀ suite ∈ all, ∀ scheme, suite.scheme = some scheme →
    suite.blockSize = scheme.1.blockSize ∧ suite.ivSize = scheme.1.blockSize ∧
      0 < suite.keySize + suite.ivSize ∧ suite.keySize + suite.ivSize ≤ 512 := by
  decide +kernel

theorem blockSize_pos : ∀ suite ∈ all, 0 < suite.blockSize := by decide

theorem decryptWith_encryptWith {suite : CipherSuite} (hSuite : suite ∈ all) {iv text : Bytes}
    (key : Bytes) (hIv : iv.length = suite.ivSize) (hText : text.length % suite.blockSize = 0) :
    (suite.encryptWith key iv text).length = text.length ∧
      suite.decryptWith key iv (suite.encryptWith key iv text) = text := by
  cases hScheme : suite.scheme with
  | none => simp only [encryptWith, decryptWith, hScheme, and_self]
  | some scheme =>
    obtain ⟨algorithm, mode⟩ := scheme
    obtain ⟨hBlock, hIvSize, -, -⟩ := sizes_of_scheme suite hSuite _ hScheme
    rw [hIvSize, ← algorithm.blockSize_under key] at hIv
    rw [hBlock, ← algorithm.blockSize_under key] at hText
    simp only [encryptWith, decryptWith, hScheme]
    exact mode.decrypt_encrypt (algorithm.lawful_under key) hIv hText

theorem encryptWith_decryptWith {suite : CipherSuite} (hSuite : suite ∈ all) {iv text : Bytes}
    (key : Bytes) (hIv : iv.length = suite.ivSize) (hText : text.length % suite.blockSize = 0) :
    (suite.decryptWith key iv text).length = text.length ∧
      suite.encryptWith key iv (suite.decryptWith key iv text) = text := by
  cases hScheme : suite.scheme with
  | none => simp only [encryptWith, decryptWith, hScheme, and_self]
  | some scheme =>
    obtain ⟨algorithm, mode⟩ := scheme
    obtain ⟨hBlock, hIvSize, -, -⟩ := sizes_of_scheme suite hSuite _ hScheme
    rw [hIvSize, ← algorithm.blockSize_under key] at hIv
    rw [hBlock, ← algorithm.blockSize_under key] at hText
    simp only [encryptWith, decryptWith, hScheme]
    exact mode.encrypt_decrypt (algorithm.lawful_under key) hIv hText

theorem checkAligned_eq_ok_iff {suite : CipherSuite} {text : Bytes} {u : Unit} :
    suite.checkAligned text = .ok u ↔ text.length % suite.blockSize = 0 := by
  rw [checkAligned]
  split
  · rename_i hWhole
    exact ⟨fun _ => hWhole, fun _ => rfl⟩
  · rename_i hOther
    exact ⟨nofun, fun hWhole => absurd hWhole hOther⟩

end CipherSuite

namespace Stretching

theorem fresh_eq_ok {rounds : Int} (hRounds : 1 ≤ rounds) (j : Journal) :
    ∃ salt j', fresh rounds j = .ok ⟨"bcrypt", salt, rounds⟩ j' ∧ salt.length = 16 := by
  obtain ⟨salt, j', hDraw, hLength⟩ := Journal.draw_eq_ok saltSize j
  refine ⟨salt, j', ?_, hLength⟩
  rw [fresh, if_neg (Int.not_lt.mpr hRounds)]
  exact Stateful.bind_ok hDraw

theorem deriveFor_eq_ok {s : Stretching} {suite : CipherSuite} {passphrase : Datum}
    (hSuite : suite ∈ CipherSuite.all) (hSealed : suite.isNone = false) (hSound : s.Sound)
    (hName : s.name ≠ "none") (hSecret : passphrase.IsSecret) :
    ∃ key iv, s.deriveFor suite passphrase = .ok (key, iv) ∧ iv.length = suite.ivSize := by
  cases hSound with
  | none => exact absurd rfl hName
  | @bcrypt salt rounds hSalt hPositive hFits =>
    obtain ⟨hSome, password, hPassword⟩ := hSecret
    obtain ⟨scheme, hScheme⟩ : ∃ scheme, suite.scheme = some scheme := by
      rw [CipherSuite.isNone, Option.isNone_eq_false_iff] at hSealed
      exact Option.isSome_iff_exists.mp hSealed
    obtain ⟨-, -, hSize, hLimit⟩ := CipherSuite.sizes_of_scheme suite hSuite _ hScheme
    obtain ⟨bs, hStretched, hLength⟩ := Bcrypt.stretch?_eq_some
      (Datum.toBytes_ne_nil hSome hPassword) hSalt hPositive hSize hLimit
    have hRounds : (⟨"bcrypt", salt, rounds⟩ : Stretching).roundsFit = true := by
      simp [roundsFit]
      omega
    have hDerived : (⟨"bcrypt", salt, rounds⟩ : Stretching).derive passphrase suite.keySize
        suite.ivSize = .ok (bs.take suite.keySize, bs.drop suite.keySize) := by
      rw [derive, if_neg (by simp; omega), hPassword, Fallible.bind_ok, if_pos hRounds, hStretched]
      rfl
    have hKey : (bs.take suite.keySize).length = suite.keySize := by
      rw [List.length_take]
      omega
    have hIv : (bs.drop suite.keySize).length = suite.ivSize := by
      rw [List.length_drop]
      omega
    refine ⟨bs.take suite.keySize, bs.drop suite.keySize, ?_, hIv⟩
    rw [deriveFor, hDerived, Fallible.bind_ok]
    exact if_neg (by simp [hKey, hIv])

end Stretching

namespace CipherSuite

section Runs

variable {suite : CipherSuite} {s : Stretching} {passphrase : Datum} {key iv text : Bytes}
  (hText : text.length % suite.blockSize = 0)
include hText

theorem checkAligned_ok : suite.checkAligned text = .ok () := checkAligned_eq_ok_iff.mpr hText

theorem encrypt_of_isNone (hNone : suite.isNone = true) (j : Journal) :
    suite.encrypt s passphrase text j = .ok text j := by
  rw [encrypt, checkAligned_ok hText, Action.bind_ofExcept_ok, if_pos hNone]
  rfl

theorem decrypt_of_isNone (hNone : suite.isNone = true) (j : Journal) :
    suite.decrypt s passphrase text j = .ok text j := by
  rw [decrypt, checkAligned_ok hText, Action.bind_ofExcept_ok, if_pos hNone]
  rfl

variable (hSealed : suite.isNone = false) (hGiven : passphrase.isEmpty = false)
  (hDerived : s.deriveFor suite passphrase = .ok (key, iv))
include hSealed hGiven hDerived

theorem encrypt_of_deriveFor (j : Journal) :
    suite.encrypt s passphrase text j = .ok (suite.encryptWith key iv text)
      { j with written :=
        ⟨.debug, .cipher, logText "Encrypting" suite s text.length⟩ :: j.written } := by
  rw [encrypt, checkAligned_ok hText, Action.bind_ofExcept_ok, if_neg (by simp [hSealed]),
    if_neg (by simp [hGiven])]
  beta_reduce
  rw [Action.bind_log, hDerived, Action.bind_ofExcept_ok]
  rfl

theorem decrypt_of_deriveFor (j : Journal) :
    suite.decrypt s passphrase text j = .ok (suite.decryptWith key iv text)
      { j with written :=
        ⟨.debug, .cipher, logText "Decrypting" suite s text.length⟩ :: j.written } := by
  rw [decrypt, checkAligned_ok hText, Action.bind_ofExcept_ok, if_neg (by simp [hSealed]),
    if_neg (by simp [hGiven])]
  beta_reduce
  rw [Action.bind_log, hDerived, Action.bind_ofExcept_ok]
  rfl

end Runs

/-- What is sealed keeps its length and opens again, in the runs of any two journals. -/
theorem decrypt_encrypt {suite : CipherSuite} {s : Stretching} {passphrase : Datum} {text : Bytes}
    (hSuite : suite ∈ all) (hSound : s.Sound) (hText : text.length % suite.blockSize = 0)
    (hProtected : suite.isNone = false → s.name ≠ "none" ∧ passphrase.IsSecret) (j : Journal) :
    ∃ payload j', suite.encrypt s passphrase text j = .ok payload j' ∧
      payload.length = text.length ∧
      ∀ i, ∃ i', suite.decrypt s passphrase payload i = .ok text i' := by
  cases hNone : suite.isNone with
  | true =>
    exact ⟨text, j, encrypt_of_isNone hText hNone j, rfl,
      fun i => ⟨i, decrypt_of_isNone hText hNone i⟩⟩
  | false =>
    obtain ⟨hName, hSecret⟩ := hProtected hNone
    obtain ⟨key, iv, hDerived, hIv⟩ := s.deriveFor_eq_ok hSuite hNone hSound hName hSecret
    obtain ⟨hLength, hOpened⟩ := decryptWith_encryptWith hSuite key hIv hText
    refine ⟨suite.encryptWith key iv text, _,
      encrypt_of_deriveFor hText hNone hSecret.1 hDerived j, hLength, fun i => ?_⟩
    have hPayload := decrypt_of_deriveFor (hLength.symm ▸ hText) hNone hSecret.1 hDerived i
    rw [hOpened] at hPayload
    exact ⟨_, hPayload⟩

end CipherSuite

namespace Envelope

/-- The choices of passphrase, cipher name and rounds with which keys can be written, each with the
cipher that it selects. -/
inductive Settings (passphrase : Datum) (cipherName : Option String) (rounds : Option Int) :
    CipherSuite → Prop
  | plain (hEmpty : passphrase.isEmpty = true)
      (hName : cipherName = none ∨ cipherName = some "none") :
      Settings passphrase cipherName rounds CipherSuite.none
  | secret {suite : CipherSuite} (hSecret : passphrase.IsSecret) (hSuite : suite ∈ CipherSuite.all)
      (hName : cipherName.getD defaultCipher = suite.name) (hSealed : suite.isNone = false)
      (hRounds : ∀ n, rounds = some n → 1 ≤ n ∧ n < 2 ^ 32) :
      Settings passphrase cipherName rounds suite

variable {passphrase : Datum} {cipherName : Option String} {rounds : Option Int}
  {suite : CipherSuite}

theorem Settings.mem_all (h : Settings passphrase cipherName rounds suite) :
    suite ∈ CipherSuite.all := by
  cases h with
  | plain => exact List.mem_cons_self ..
  | secret _ hSuite => exact hSuite

theorem protection_eq_ok (h : Settings passphrase cipherName rounds suite) (j : Journal) :
    ∃ s j', protection passphrase cipherName rounds j = .ok (suite.name, s) j' ∧ s.Sound ∧
      s.salt.length ≤ 16 ∧ (s.name = "none" → suite.name = "none") ∧
      (suite.isNone = false → s.name ≠ "none" ∧ passphrase.IsSecret) := by
  cases h with
  | plain hEmpty hName =>
    refine ⟨Stretching.none, j, ?_, .none, Nat.zero_le _, fun _ => rfl, nofun⟩
    unfold protection
    rw [if_pos hEmpty]
    rcases hName with rfl | rfl
    · rfl
    · rfl
  | secret hSecret hSuite hName hSealed hRounds =>
    have hGiven : ¬passphrase.isEmpty = true := by simp [hSecret.1]
    have hCipher : ¬suite.name = "none" := by
      intro hNone
      rw [← CipherSuite.isNone_iff suite hSuite, hSealed] at hNone
      cases hNone
    have hRange : 1 ≤ rounds.getD Stretching.defaultRounds ∧
        rounds.getD Stretching.defaultRounds < 2 ^ 32 := by
      cases rounds with
      | none => decide
      | some n => exact hRounds n rfl
    obtain ⟨salt, j', hFresh, hSalt⟩ := Stretching.fresh_eq_ok hRange.1 j
    have hSaltSome : salt ≠ [] := by
      rintro rfl
      cases hSalt
    refine ⟨⟨"bcrypt", salt, rounds.getD Stretching.defaultRounds⟩, j', ?_,
      .bcrypt hSaltSome hRange.1 hRange.2, hSalt.le, ?_, fun _ => ⟨by simp, hSecret⟩⟩
    · unfold protection
      rw [if_neg hGiven]
      simp only [hName]
      rw [if_neg hCipher]
      exact Stateful.bind_ok hFresh
    · intro hNone
      simp at hNone

end Envelope
end SshKeys
