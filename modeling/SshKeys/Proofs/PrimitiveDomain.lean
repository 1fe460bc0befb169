import SshKeys.Proofs.DigestChain
import SshKeys.Proofs.PrivateLoading
/-!
# What decryption asks of the primitives under it

Once the header of an envelope or the headers of a block have been accepted, passwords are
stretched, texts are deciphered and padding is taken off only where that cannot go wrong, whatever
the primitives do elsewhere.
-/
namespace SshKeys

/-- The primitives of decryption. Stretching and deciphering may refuse what they are given; padding
is taken off if it is there. -/
structure Primitives where
  stretch : (password salt : Bytes) → (rounds : Int) → (size : Nat) → Except Error Bytes
  decipher : BlockAlgorithm → BlockMode → (key iv text : Bytes) → Except Error Bytes
  unpad : (blockSize : Nat) → (text : Bytes) → Option Bytes

/-- The sizes that a key of the algorithm can have. -/
def BlockAlgorithm.keySizes : BlockAlgorithm → List Nat
  | .aes => [16, 24, 32]
  | .tripleDes => [24]

namespace Primitives

/-- Within their domain the primitives give as many bytes as they are asked for. -/
structure Reliable (P : Primitives) : Prop where
  stretch : ∀ {password salt : Bytes} {rounds : Int} {size : Nat}, password ≠ [] → salt ≠ [] →
    1 ≤ rounds → rounds < 2 ^ 32 → 1 ≤ size → size ≤ 512 →
    ∃ bs, P.stretch password salt rounds size = .ok bs ∧ bs.length = size
  decipher : ∀ {algorithm : BlockAlgorithm} (mode : BlockMode) {key iv text : Bytes},
    key.length ∈ algorithm.keySizes → iv.length = algorithm.blockSize →
    text.length % algorithm.blockSize = 0 →
    ∃ plain, P.decipher algorithm mode key iv text = .ok plain ∧ plain.length = text.length

/-- The primitives of the library itself. -/
def own : Primitives where
  stretch password salt rounds size :=
    if 0 ≤ rounds ∧ rounds < 4294967296 then
      match Bcrypt.stretch? password salt rounds size with
      | some bs => .ok bs
      | none => .error (.misuse .value)
    else .error (.misuse .magnitude)
  decipher algorithm mode key iv text :=
    if key.length ∈ algorithm.keySizes ∧ iv.length = algorithm.blockSize then
      .ok (mode.decrypt (algorithm.under key) iv text)
    else .error (.misuse .value)
  unpad := Padding.remove?

theorem own_reliable : own.Reliable where
  stretch := by
    intro password salt rounds size hPassword hSalt hPositive hFits hSome hLimit
    obtain ⟨bs, hStretched, hLength⟩ :=
      Bcrypt.stretch?_eq_some hPassword hSalt hPositive hSome hLimit
    refine ⟨bs, ?_, hLength⟩
    have hRange : 0 ≤ rounds ∧ rounds < 4294967296 := by omega
    simp only [own, if_pos hRange, hStretched]
  decipher := by
    intro algorithm mode key iv text hKey hIv hText
    refine ⟨mode.decrypt (algorithm.under key) iv text, if_pos ⟨hKey, hIv⟩, ?_⟩
    rw [← algorithm.blockSize_under key] at hIv hText
    exact (mode.encrypt_decrypt (algorithm.lawful_under key) hIv hText).1

end Primitives

variable {P : Primitives} {passphrase : Datum} {text : Bytes}

theorem Bcrypt.length_of_stretch? {password salt bs : Bytes} {rounds : Int} {size : Nat}
    (h : stretch? password salt rounds size = some bs) : bs.length = size := by
  rw [stretch?] at h
  split at h
  · cases h
  · obtain rfl := Option.some.inj h
    refine length_dealt ?_
    rw [List.length_map, List.length_range]
    omega

namespace Stretching

variable {s : Stretching} {suite : CipherSuite}

/-- Key material for a passphrase, by given primitives. -/
def deriveBy (P : Primitives) (s : Stretching) (passphrase : Datum) (size : Nat) :
    Except Error Bytes := do
  if s.name = "none" ∨ size = 0 then return []
  P.stretch (← passphrase.toBytes) s.salt s.rounds size

theorem deriveBy_eq_ok {size : Nat} (hP : P.Reliable) (hSound : s.Sound) (hName : s.name ≠ "none")
    (hSecret : passphrase.IsSecret) (hSome : 1 ≤ size) (hLimit : size ≤ 512) :
    ∃ bs, s.deriveBy P passphrase size = .ok bs ∧ bs.length = size := by
  cases hSound with
  | none => exact absurd rfl hName
  | @bcrypt salt rounds hSalt hPositive hFits =>
    obtain ⟨hGiven, password, hPassword⟩ := hSecret
    obtain ⟨bs, hStretched, hLength⟩ := hP.stretch (Datum.toBytes_ne_nil hGiven hPassword) hSalt
      hPositive hFits hSome hLimit
    refine ⟨bs, ?_, hLength⟩
    have hStretch : ¬(("bcrypt" : String) = "none" ∨ size = 0) := by
      rintro (hNone | hZero)
      · exact hName hNone
      · omega
    rw [deriveBy, if_neg hStretch, hPassword, Fallible.bind_ok, hStretched]

theorem deriveFor_eq (hSome : 0 < suite.keySize + suite.ivSize) :
    s.deriveFor suite passphrase = (do
      let bs ← s.deriveBy .own passphrase (suite.keySize + suite.ivSize)
      if bs.length ≠ suite.keySize + suite.ivSize then throw (.misuse .value)
      return (bs.take suite.keySize, bs.drop suite.keySize)) := by
  rw [deriveFor, derive, deriveBy]
  by_cases hName : s.name = "none"
  · have hShort : ([] : Bytes).length ≠ suite.keySize ∨ ([] : Bytes).length ≠ suite.ivSize := by
      simp only [List.length_nil]
      omega
    rw [if_pos (.inl hName), if_pos (.inl hName)]
    change (if _ then _ else _) = if _ then _ else _
    rw [if_pos hShort, if_pos (by simp only [List.length_nil]; omega)]
    rfl
  · have hStretch : ¬(s.name = "none" ∨ suite.keySize + suite.ivSize = 0) := by
      rintro (hNone | hZero)
      · exact hName hNone
      · omega
    rw [if_neg hStretch, if_neg hStretch]
    cases passphrase.toBytes with
    | error e => rfl
    | ok password =>
      simp only [Fallible.bind_ok, Primitives.own]
      by_cases hFits : s.roundsFit = true
      · have hRange : 0 ≤ s.rounds ∧ s.rounds < 4294967296 := by
          simpa only [roundsFit, Bool.and_eq_true, decide_eq_true_eq] using hFits
        rw [if_pos hFits, if_pos hRange]
        cases hStretched : Bcrypt.stretch? password s.salt s.rounds (suite.keySize + suite.ivSize) with
        | none => rfl
        | some bs =>
          have hLength := Bcrypt.length_of_stretch? hStretched
          have hKey : (bs.take suite.keySize).length = suite.keySize := by
            rw [List.length_take]
            omega
          have hIv : (bs.drop suite.keySize).length = suite.ivSize := by
            rw [List.length_drop]
            omega
          change (if _ then _ else _) = if _ then _ else _
          rw [if_neg (by simp only [hKey, hIv, ne_eq, not_true, or_self, not_false_eq_true]),
            if_neg (not_not.mpr hLength)]
      · have hRange : ¬(0 ≤ s.rounds ∧ s.rounds < 4294967296) := by
          simpa only [roundsFit, Bool.and_eq_true, decide_eq_true_eq] using hFits
        rw [if_neg hFits, if_neg hRange]
        rfl

theorem sizes_of_deriveFor {key iv : Bytes} (h : s.deriveFor suite passphrase = .ok (key, iv)) :
    key.length = suite.keySize ∧ iv.length = suite.ivSize := by
  simp only [deriveFor, Fallible.bind_eq_ok_iff, Fallible.throwIf_eq_ok_iff, Fallible.pure_eq_ok_iff,
    Prod.mk.injEq] at h
  obtain ⟨derived, -, hSizes, rfl, rfl⟩ := h
  rw [not_or, not_not, not_not] at hSizes
  exact hSizes

end Stretching

namespace CipherSuite

variable {suite : CipherSuite} {s : Stretching}

/-- The text in the clear, by given primitives. -/
def openBy (P : Primitives) (suite : CipherSuite) (s : Stretching) (passphrase : Datum)
    (text : Bytes) : Except Error Bytes := do
  let bs ← s.deriveBy P passphrase (suite.keySize + suite.ivSize)
  match suite.scheme with
  | .none => return text
  | some (algorithm, mode) =>
    P.decipher algorithm mode (bs.take suite.keySize) (bs.drop suite.keySize) text

/-- As `decrypt`, by given primitives. -/
def decryptBy (P : Primitives) (suite : CipherSuite) (s : Stretching) (passphrase : Datum)
    (text : Bytes) : Action Bytes := do
  Action.ofExcept (suite.checkAligned text)
  if suite.isNone then return text
  if passphrase.isEmpty then throw .passphraseRequired
  Journal.log .debug .cipher (logText "Decrypting" suite s text.length)
  Action.ofExcept (suite.openBy P s passphrase text)

theorem keySize_mem : ∀ suite ∈ all, ∀ scheme, suite.scheme = some scheme →
    suite.keySize ∈ scheme.1.keySizes := by
  decide +kernel

theorem exists_scheme (hSealed : suite.isNone = false) : ∃ scheme, suite.scheme = some scheme := by
  rw [isNone, Option.isNone_eq_false_iff] at hSealed
  exact Option.isSome_iff_exists.mp hSealed

theorem openBy_eq_ok (hP : P.Reliable) (hSuite : suite ∈ all) (hSealed : suite.isNone = false)
    (hSound : s.Sound) (hName : s.name ≠ "none") (hSecret : passphrase.IsSecret)
    (hText : text.length % suite.blockSize = 0) :
    ∃ plain, suite.openBy P s passphrase text = .ok plain ∧ plain.length = text.length := by
  obtain ⟨scheme, hScheme⟩ := exists_scheme hSealed
  obtain ⟨hBlock, hIvSize, hSize, hLimit⟩ := sizes_of_scheme suite hSuite _ hScheme
  obtain ⟨bs, hDerived, hLength⟩ := s.deriveBy_eq_ok hP hSound hName hSecret hSize hLimit
  have hKey : (bs.take suite.keySize).length ∈ scheme.1.keySizes := by
    rw [List.length_take, hLength, Nat.min_eq_left (Nat.le_add_right _ _)]
    exact keySize_mem suite hSuite _ hScheme
  have hIv : (bs.drop suite.keySize).length = scheme.1.blockSize := by
    rw [List.length_drop, hLength, Nat.add_sub_cancel_left, hIvSize]
  rw [hBlock] at hText
  obtain ⟨plain, hPlain, hSame⟩ := hP.decipher scheme.2 hKey hIv hText
  refine ⟨plain, ?_, hSame⟩
  rw [openBy, hDerived, Fallible.bind_ok, hScheme]
  exact hPlain

theorem openBy_own (hSuite : suite ∈ all) (hSealed : suite.isNone = false) (s : Stretching)
    (passphrase : Datum) (text : Bytes) : suite.openBy .own s passphrase text = (do
      let (key, iv) ← s.deriveFor suite passphrase
      return suite.decryptWith key iv text) := by
  obtain ⟨scheme, hScheme⟩ := exists_scheme hSealed
  obtain ⟨-, hIvSize, hSize, -⟩ := sizes_of_scheme suite hSuite _ hScheme
  rw [openBy, s.deriveFor_eq hSize, hScheme]
  cases s.deriveBy .own passphrase (suite.keySize + suite.ivSize) with
  | error e => rfl
  | ok bs =>
    rw [Fallible.bind_ok, Fallible.bind_ok]
    by_cases hLength : bs.length = suite.keySize + suite.ivSize
    · have hFits : (bs.take suite.keySize).length ∈ scheme.1.keySizes ∧
          (bs.drop suite.keySize).length = scheme.1.blockSize := by
        rw [List.length_take, List.length_drop, hLength, Nat.min_eq_left (Nat.le_add_right _ _),
          Nat.add_sub_cancel_left]
        exact ⟨keySize_mem suite hSuite _ hScheme, hIvSize⟩
      rw [if_neg (not_not.mpr hLength)]
      simp only [Primitives.own, if_pos hFits, decryptWith, hScheme]
      rfl
    · have hShort : ¬((bs.take suite.keySize).length ∈ scheme.1.keySizes ∧
          (bs.drop suite.keySize).length = scheme.1.blockSize) := by
        rintro ⟨-, hIv⟩
        have hPositive : 0 < scheme.1.blockSize := by cases scheme.1 <;> decide
        rw [List.length_drop] at hIv
        omega
      rw [if_pos hLength]
      simp only [Primitives.own, if_neg hShort]
      rfl

theorem decryptBy_own (hSuite : suite ∈ all) (s : Stretching) (passphrase : Datum) (text : Bytes) :
    suite.decryptBy .own s passphrase text = suite.decrypt s passphrase text := by
  rw [decryptBy, decrypt]
  cases hNone : suite.isNone with
  | true => rfl
  | false =>
    rw [openBy_own hSuite hNone]
    cases s.deriveFor suite passphrase with
    | error e => rfl
    | ok derived => rfl

theorem decryptBy_eq_ok (hP : P.Reliable) (hSuite : suite ∈ all) (hSealed : suite.isNone = false)
    (hSound : s.Sound) (hName : s.name ≠ "none") (hSecret : passphrase.IsSecret)
    (hText : text.length % suite.blockSize = 0) (j : Journal) :
    ∃ plain j', suite.decryptBy P s passphrase text j = .ok plain j' ∧
      plain.length = text.length := by
  obtain ⟨plain, hPlain, hLength⟩ := openBy_eq_ok hP hSuite hSealed hSound hName hSecret hText
  have hCipher : ¬suite.isNone = true := by simp [hSealed]
  have hGiven : ¬passphrase.isEmpty = true := by simp [hSecret.1]
  refine ⟨plain, { j with
    written := ⟨.debug, .cipher, logText "Decrypting" suite s text.length⟩ :: j.written }, ?_, hLength⟩
  rw [decryptBy, checkAligned_ok hText, Action.bind_ofExcept_ok, if_neg hCipher, if_neg hGiven]
  beta_reduce
  rw [Action.bind_log, hPlain]
  rfl

end CipherSuite

theorem Md5.length_digest (message : Bytes) : (digest message).length = 16 := rfl

namespace ChainedCipher

theorem keySize_mem (cipher : ChainedCipher) : cipher.keySize ∈ cipher.algorithm.keySizes := by
  cases cipher <;> decide

theorem length_key (cipher : ChainedCipher) (iv password : Bytes) :
    (Stretch.digestChain Md5.digest iv password cipher.keySize).length = cipher.keySize :=
  Stretch.length_digestChain (fun message => Nat.lt_of_lt_of_eq (by decide)
    (Md5.length_digest message).symm) iv password cipher.keySize

theorem openText?_eq (cipher : ChainedCipher) (key iv : Bytes) {text : Bytes}
    (hText : text.length % cipher.blockSize = 0) : (cipher.under key).openText? iv text =
      Padding.remove? cipher.blockSize (BlockMode.cbc.decrypt (cipher.algorithm.under key) iv text) := by
  rw [BlockCipher.openText?, cipher.blockSize_under, if_pos hText]
  rfl

end ChainedCipher

namespace PemBlock

variable {b : PemBlock} {procType : String} {cipher : ChainedCipher} {iv : Bytes}

/-- The body in the clear, by given primitives. -/
def openBy (P : Primitives) (b : PemBlock) (cipher : ChainedCipher) (iv : Bytes)
    (passphrase : Datum) : Except Error Bytes := do
  let key := Stretch.digestChain Md5.digest iv (← passphrase.toBytes) cipher.keySize
  match P.unpad cipher.blockSize (← P.decipher cipher.algorithm .cbc key iv b.body) with
  | some plain => return plain
  | none => throw .badPassword

/-- As `decrypt`, by given primitives. -/
def decryptBy (P : Primitives) (b : PemBlock) (procType : String) (passphrase : Datum) :
    Action Bytes := do
  let (cipher, iv) ← Action.ofExcept (b.checkHeaders procType passphrase)
  Journal.log .debug .pem s!"Decrypting traditional PEM key with {cipher.headerName}"
  Action.ofExcept (b.openBy P cipher iv passphrase)

theorem length_of_readIv {value : String} (h : readIv cipher value = .ok iv) :
    iv.length = cipher.blockSize := by
  rw [readIv] at h
  split at h
  · cases h
  · split at h
    · rename_i bs _ hLength
      cases h
      exact hLength
    · cases h

theorem isHeaderError_of_checkHeaders {e : Error} (hGiven : passphrase.isEmpty = false)
    (h : b.checkHeaders procType passphrase = .error e) : IsHeaderError e := by
  rcases checkHeaders_failsOnly b procType passphrase e h with hHeader | ⟨-, hEmpty⟩
  · exact hHeader
  · rw [hGiven] at hEmpty
    cases hEmpty

/-- The key, the initial vector and the body are what the cipher asks for, so only the padding is
left to go wrong. -/
theorem openBy_settles (hP : P.Reliable) (hSecret : passphrase.IsSecret)
    (h : b.checkHeaders procType passphrase = .ok (cipher, iv)) :
    (∃ plain, b.openBy P cipher iv passphrase = .ok plain) ∨
      b.openBy P cipher iv passphrase = .error .badPassword := by
  obtain ⟨-, ⟨value, -, hIv⟩, -, hBody⟩ := accepted_of_checkHeaders h
  obtain ⟨-, password, hPassword⟩ := hSecret
  have hKey : (Stretch.digestChain Md5.digest iv password cipher.keySize).length ∈
      cipher.algorithm.keySizes := by
    rw [cipher.length_key]
    exact cipher.keySize_mem
  obtain ⟨padded, hPadded, -⟩ := hP.decipher .cbc hKey (length_of_readIv hIv) hBody
  simp only [openBy, hPassword, hPadded, Fallible.bind_ok]
  cases P.unpad cipher.blockSize padded with
  | some plain => exact .inl ⟨plain, rfl⟩
  | none => exact .inr rfl

theorem decryptBy_own (b : PemBlock) (procType : String) (passphrase : Datum) :
    b.decryptBy .own procType passphrase = b.decrypt procType passphrase := by
  rw [decryptBy, decrypt]
  cases hHeaders : b.checkHeaders procType passphrase with
  | error e => rfl
  | ok found =>
    obtain ⟨cipher, iv⟩ := found
    obtain ⟨-, ⟨value, -, hIv⟩, -, hBody⟩ := accepted_of_checkHeaders hHeaders
    have hOpen : Action.ofExcept (b.openBy .own cipher iv passphrase) =
        (Action.ofExcept (cipherFor cipher iv passphrase) >>= fun c =>
          match c.openText? iv b.body with
          | some plain => return plain
          | none => throw .badPassword) := by
      rw [openBy, cipherFor]
      cases passphrase.toBytes with
      | error e => rfl
      | ok password =>
        let key := Stretch.digestChain Md5.digest iv password cipher.keySize
        have hFits : key.length ∈ cipher.algorithm.keySizes ∧
            iv.length = cipher.algorithm.blockSize := by
          rw [cipher.length_key iv password]
          exact ⟨cipher.keySize_mem, length_of_readIv hIv⟩
        change _ = match (cipher.under key).openText? iv b.body with
          | some plain => return plain
          | none => throw Error.badPassword
        simp only [Primitives.own, Fallible.bind_ok]
        rw [if_pos hFits, Fallible.bind_ok, cipher.openText?_eq key iv hBody]
        cases Padding.remove? cipher.blockSize
            (BlockMode.cbc.decrypt (cipher.algorithm.under key) iv b.body) with
        | some plain => rfl
        | none => rfl
    change (Journal.log _ _ _ >>= fun _ => Action.ofExcept (b.openBy .own cipher iv passphrase)) = _
    rw [hOpen]
    rfl

/-- Decryption ends with what the headers are refused for, with a text, or with the finding that the
password is wrong. -/
def Settles (b : PemBlock) (procType : String) (passphrase : Datum) (x : Action Bytes) : Prop :=
  ∀ j, (∃ e, b.checkHeaders procType passphrase = .error e ∧ IsHeaderError e ∧ x j = .error e j) ∨
    ((b.checkHeaders procType passphrase).isOk ∧
      ((∃ plain j', x j = .ok plain j') ∨ ∃ j', x j = .error .badPassword j'))

theorem decryptBy_settles (hP : P.Reliable) (hSecret : passphrase.IsSecret) (b : PemBlock)
    (procType : String) : b.Settles procType passphrase (b.decryptBy P procType passphrase) := by
  intro j
  rw [decryptBy]
  cases hHeaders : b.checkHeaders procType passphrase with
  | error e =>
    exact .inl ⟨e, rfl, isHeaderError_of_checkHeaders hSecret.1 hHeaders, rfl⟩
  | ok found =>
    obtain ⟨cipher, iv⟩ := found
    refine .inr ⟨rfl, ?_⟩
    rw [Action.bind_ofExcept_ok]
    change (∃ plain j', (Journal.log _ _ _ >>= fun _ => _) j = .ok plain j') ∨
      ∃ j', (Journal.log _ _ _ >>= fun _ => _) j = .error .badPassword j'
    rw [Action.bind_log]
    rcases openBy_settles hP hSecret hHeaders with ⟨plain, hPlain⟩ | hWrong
    · rw [hPlain]
      exact .inl ⟨plain, _, rfl⟩
    · rw [hWrong]
      exact .inr ⟨_, rfl⟩

end PemBlock

namespace Envelope

variable {data : Bytes} {e : Envelope}

theorem sealed_of_ofBytes (hRead : ofBytes data = .ok e) (hSealed : e.cipherName ≠ "none") :
    ∃ suite, CipherSuite.ofName (some e.cipherName) = .ok suite ∧ suite ∈ CipherSuite.all ∧
      suite.isNone = false ∧ e.stretching.Sound ∧ e.stretching.name ≠ "none" ∧
      e.payload.length % suite.blockSize = 0 := by
  obtain ⟨hForm, -, -⟩ := ofBytes_eq_ok_iff.mp hRead
  obtain ⟨suite, hSuite, hName, hWhole⟩ := hForm.cipher
  refine ⟨suite, CipherSuite.ofName_eq_ok_iff.mpr ⟨hSuite, hName⟩, hSuite, ?_, hForm.stretching,
    fun h => hSealed (hForm.plain h), hWhole⟩
  rw [Bool.eq_false_iff, Ne, CipherSuite.isNone_iff suite hSuite, hName]
  exact hSealed

end Envelope

namespace Primitives

/-- Under a passphrase that is text or bytes and not empty, no primitive is used outside its domain. The
private section of every accepted envelope that is encrypted is deciphered to as many bytes. The body of
a block with headers is deciphered as soon as these are accepted, and then nothing but its padding can
be wrong. This holds by any reliable primitives, and so by those of the library. -/
theorem Reliable.decrypts (hP : P.Reliable) (hSecret : passphrase.IsSecret) :
    (∀ data e, Envelope.ofBytes data = .ok e → e.cipherName ≠ "none" →
      ∃ suite, CipherSuite.ofName (some e.cipherName) = .ok suite ∧
        (∃ key iv, e.stretching.deriveFor suite passphrase = .ok (key, iv) ∧
          key.length = suite.keySize ∧ iv.length = suite.ivSize) ∧
        e.payload.length % suite.blockSize = 0 ∧ ∀ j,
        (∃ plain j', suite.decryptBy P e.stretching passphrase e.payload j = .ok plain j' ∧
          plain.length = e.payload.length) ∧
        ∃ plain j', suite.decrypt e.stretching passphrase e.payload j = .ok plain j' ∧
          plain.length = e.payload.length) ∧
    ∀ (b : PemBlock) (procType : String),
      b.Settles procType passphrase (b.decryptBy P procType passphrase) ∧
      b.Settles procType passphrase (b.decrypt procType passphrase) := by
  constructor
  · intro data e hRead hSealed
    obtain ⟨suite, hFound, hSuite, hCipher, hSound, hName, hWhole⟩ :=
      Envelope.sealed_of_ofBytes hRead hSealed
    obtain ⟨key, iv, hDerived, -⟩ :=
      e.stretching.deriveFor_eq_ok hSuite hCipher hSound hName hSecret
    refine ⟨suite, hFound, ⟨key, iv, hDerived, Stretching.sizes_of_deriveFor hDerived⟩, hWhole,
      fun j => ⟨?_, ?_⟩⟩
    · exact CipherSuite.decryptBy_eq_ok hP hSuite hCipher hSound hName hSecret hWhole j
    · rw [← CipherSuite.decryptBy_own hSuite]
      exact CipherSuite.decryptBy_eq_ok own_reliable hSuite hCipher hSound hName hSecret hWhole j
  · intro b procType
    have hOwn := b.decryptBy_settles own_reliable hSecret procType
    rw [b.decryptBy_own] at hOwn
    exact ⟨b.decryptBy_settles hP hSecret procType, hOwn⟩

/-- An envelope that was made up, and not sealed under any passphrase. -/
def strayEnvelope : Envelope :=
  ⟨"aes256-ctr", ⟨"bcrypt", [7], 16⟩, [[1, 2], []], List.replicate 16 0⟩

/-- A block that was made up, and not sealed under any passphrase. -/
def strayBlock : PemBlock :=
  ⟨"RSA PRIVATE KEY", [("proc-type", PemBlock.encryptedMark),
    ("dek-info", "AES-128-CBC,00112233445566778899AABBCCDDEEFF")], List.replicate 16 0⟩

theorem strayEnvelope_accepted : ∃ data, Envelope.ofBytes data = .ok strayEnvelope := by
  have hForm : strayEnvelope.WellFormed := by
    refine ⟨⟨CipherSuite.block "aes256-ctr" 32 .aes .ctr, by decide, rfl, by decide⟩, ?_, ?_, ?_, ?_⟩
    · exact .bcrypt (by decide) (by decide) (by decide)
    · simp [strayEnvelope]
    · simp [strayEnvelope]
    · simp [strayEnvelope]
  have hWithin : strayEnvelope.Within Wire.fieldLimit := by
    refine ⟨by decide, by decide, Wire.string [7] ++ Wire.uint32 16, ?_, by decide⟩
    exact (Stretching.options_bcrypt_eq_ok_iff (by decide) (by decide)).mpr ⟨by decide, rfl⟩
  have hWritten := Envelope.toBytes_of_within hForm hWithin
  rw [if_pos (by decide)] at hWritten
  obtain ⟨data, hBytes⟩ := hWritten
  exact ⟨data, Envelope.ofBytes_eq_ok_iff.mpr ⟨hForm, hWithin, hBytes⟩⟩

/-- Under a passphrase that nothing was sealed with, decryption runs through all the same. -/
theorem Reliable.decrypts_stray :
    (∃ data suite, Envelope.ofBytes data = .ok strayEnvelope ∧
      CipherSuite.ofName (some "aes256-ctr") = .ok suite ∧ ∀ j, ∃ plain j',
        suite.decrypt strayEnvelope.stretching (.text "secret") strayEnvelope.payload j =
          .ok plain j' ∧ plain.length = 16) ∧
    ∀ j, (∃ plain j', strayBlock.decrypt PemBlock.encryptedMark (.text "secret") j = .ok plain j') ∨
      ∃ j', strayBlock.decrypt PemBlock.encryptedMark (.text "secret") j =
        .error .badPassword j' := by
  have hSecret : (Datum.text "secret").IsSecret := ⟨rfl, _, rfl⟩
  obtain ⟨hEnvelopes, hBlocks⟩ := Reliable.decrypts own_reliable hSecret
  obtain ⟨data, hRead⟩ := strayEnvelope_accepted
  obtain ⟨suite, hFound, -, -, hOpens⟩ := hEnvelopes data strayEnvelope hRead (by decide)
  refine ⟨⟨data, suite, hRead, hFound, fun j => (hOpens j).2⟩, fun j => ?_⟩
  rcases (hBlocks strayBlock PemBlock.encryptedMark).2 j with ⟨e, hRefused, -⟩ | ⟨-, hOutcome⟩
  · have hHeaders : (strayBlock.checkHeaders PemBlock.encryptedMark (.text "secret")).isOk = true := by
      decide +kernel
    rw [hRefused] at hHeaders
    cases hHeaders
  · exact hOutcome

end Primitives
end SshKeys
