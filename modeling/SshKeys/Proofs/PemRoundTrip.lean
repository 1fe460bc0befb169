import SshKeys.Proofs.PemSealing
/-!
# Keys in PEM files are read back as they were written

Every PEM format that a class of keys admits gives a text for each accepted key, and this text gives
back the key, without its comment; only the form for keys of any class has a limit, for the length
of a password.
-/
namespace SshKeys

namespace PemBlock

variable {key : Key} {passphrase : Datum} {cipherName : Option String}

/-- Whatever the journal, an action ends with a text that gives a key under a passphrase. -/
def GivesBack (write : Action String) (passphrase : Datum) (body : KeyBody) : Prop :=
  ∀ j, ∃ text j', write j = .ok text j' ∧
    (KeyFile.parse (.text text) passphrase).Yields { body }

theorem givesBack_plain (kind : PemKind) {write : Action String} {e : Der.Element}
    {secret : Der.PrivateKey} (hKind : kind.isPublic = false ∧ kind ≠ .encryptedPrivate ∧
      kind.admits key.keyClass = true) (hRead : Der.PrivateKey.readPlain e.toBytes = .ok secret)
    (hBody : secret.toBody = .ok key.body)
    (hWrite : ∀ j, write j = .ok (render kind.label [] e.toBytes) j) :
    GivesBack write passphrase key.body := fun j =>
  ⟨_, j, hWrite j, KeyFile.parse_render_yields .none hKind.1 (readPrivate_plain hKind.2.1 hRead)
    hBody hKind.2.2⟩

theorem writeAny_givesBack (hAccepted : key.body.Accepted) (hReduced : key.body.IsReduced)
    (hBits : key.bits < 2 ^ 1000)
    (hPassphrase : passphrase.isEmpty = false →
      ∃ password, passphrase.toBytes = .ok password ∧ password.length ≤ passwordLimit) :
    GivesBack (writeAny key passphrase) passphrase key.body := by
  obtain ⟨e, secret, hElement, hWithin, hRead, hBody⟩ :=
    Der.PrivateKey.readAny_element hAccepted hReduced hBits
  cases hEmpty : passphrase.isEmpty with
  | true =>
    have hPlain : Der.PrivateKey.readPlain e.toBytes = .ok secret := by
      rw [Der.PrivateKey.readPlain, hRead]
      rfl
    refine givesBack_plain .anyPrivate ⟨rfl, by decide, rfl⟩ hPlain hBody fun j => ?_
    rw [writeAny, hElement, Action.bind_ofExcept_ok, if_pos hEmpty]
    rfl
  | false =>
    obtain ⟨password, hPassword, hShort⟩ := hPassphrase hEmpty
    intro j
    obtain ⟨written, j', hWritten, hOpened⟩ :=
      Der.PrivateKey.read_encrypted password hWithin hRead j
    refine ⟨render PemKind.encryptedPrivate.label [] written.toBytes, j', ?_, ?_⟩
    · rw [writeAny, hElement, Action.bind_ofExcept_ok, if_neg (by simp [hEmpty]), hPassword,
        Action.bind_ofExcept_ok, if_neg (Nat.not_lt.mpr hShort)]
      exact Stateful.bind_ok hWritten
    · exact KeyFile.parse_render_yields .none rfl (readPrivate_encrypted hEmpty hPassword hOpened)
        hBody rfl

theorem writeAny_refuses (hAccepted : key.body.Accepted) (hReduced : key.body.IsReduced)
    (hBits : key.bits < 2 ^ 1000)
    (hLong : passphrase.isEmpty = false ∧
      ∃ password, passphrase.toBytes = .ok password ∧ passwordLimit < password.length)
    (j : Journal) : writeAny key passphrase j = .error (.misuse .value) j := by
  obtain ⟨hSome, password, hPassword, hLength⟩ := hLong
  obtain ⟨e, -, hElement, -⟩ := Der.PrivateKey.readAny_element hAccepted hReduced hBits
  rw [writeAny, hElement, Action.bind_ofExcept_ok, if_neg (by simp [hSome]), hPassword,
    Action.bind_ofExcept_ok, if_pos hLength]
  rfl

theorem writeOwn_givesBack (hAccepted : key.body.Accepted) (hReduced : key.body.IsReduced)
    (hBits : key.bits < 2 ^ 1000) (hOwn : key.keyClass ≠ .ed25519) (cipher : ChainedCipher)
    (hPassphrase : passphrase.isEmpty = true ∨ passphrase.IsSecret) :
    GivesBack (writeOwn key passphrase (some cipher.headerName)) passphrase key.body := by
  obtain ⟨kind, hClass⟩ := PemKind.ofClass?_eq_some hOwn
  have hKind := PemKind.admits_of_ofClass? hClass
  obtain ⟨e, secret, hElement, hRead, hBody⟩ :=
    Der.PrivateKey.readPlain_ownElement hAccepted hReduced hBits hOwn
  rcases hPassphrase with hEmpty | hSecret
  · refine givesBack_plain kind hKind hRead hBody fun j => ?_
    rw [writeOwn, hClass]
    simp only
    rw [hElement, Action.bind_ofExcept_ok, if_pos hEmpty]
    rfl
  · intro j
    obtain ⟨iv, stretched, j', hIv, hStretched, hWritten⟩ :=
      renderEncrypted_eq kind.label e.toBytes cipher hSecret j
    refine ⟨_, j', ?_, KeyFile.parse_render_yields (heads_encrypted cipher iv) hKind.1
      (readPrivate_sealed hKind.2.1 hRead hIv hStretched hSecret) hBody hKind.2.2⟩
    rw [writeOwn, hClass]
    simp only
    rw [hElement, Action.bind_ofExcept_ok, if_neg (by simp [hSecret.1])]
    exact hWritten

theorem loadPublic_render {kind : PemKind} {bs : Bytes} {held : Der.PublicKey} {body : KeyBody}
    (hPublic : kind.isPublic = true) (hRead : Der.PublicKey.read bs = .ok held)
    (hBody : held.toBody = .ok body) (hKind : kind.admits body.keyClass = true)
    (comment : Option String) :
    loadPublic (.text (render kind.label [] bs)) comment = .ok { body, comment } := by
  have hKindOf : kindOf ⟨kind.label, [], bs⟩ true = .ok kind := by
    rw [← hPublic]
    exact kindOf_label kind [] bs
  have hChecked : checkKind kind { body, comment } = .ok { body, comment } := if_pos hKind
  rw [loadPublic, ofDatum_text, ofText_render (isLabel_of_kind kind) .none, Fallible.bind_ok,
    hKindOf, Fallible.bind_ok, hRead]
  change (held.toBody >>= fun body => checkKind kind { body, comment }) = _
  rw [hBody, Fallible.bind_ok, hChecked]

theorem parsePublicKey_render {kind : PemKind} {bs : Bytes} {key : Key}
    (hPublic : kind.isPublic = true)
    (hLoad : loadPublic (.text (render kind.label [] bs)) (some "") = .ok key) :
    KeyFile.parsePublicKey (.text (render kind.label [] bs)) = .ok key := by
  have hLabel : labelOf (.text (render kind.label [] bs)) = .ok (some kind.label) :=
    congrArg Except.ok (labelOfText?_render (isLabel_of_kind kind) .none bs)
  have hKind : ((some kind.label).bind PemKind.ofLabel?).any PemKind.isPublic = true := by
    cases kind <;> first | rfl | cases hPublic
  rw [KeyFile.parsePublicKey, hLabel, Fallible.bind_ok, if_pos hKind]
  exact hLoad

theorem parse_public {kind : PemKind} {bs : Bytes} {held : Der.PublicKey} {body : KeyBody}
    (hPublic : kind.isPublic = true) (hRead : Der.PublicKey.read bs = .ok held)
    (hBody : held.toBody = .ok body) (hKind : kind.admits body.keyClass = true)
    (passphrase : Datum) :
    (KeyFile.parse (.text (render kind.label [] bs)) passphrase).Yields { body } := by
  have hLoad := parsePublicKey_render hPublic (loadPublic_render hPublic hRead hBody hKind _)
  refine Action.Yields.bind (KeyFile.identify_render .none bs) ?_
  simp only [KeyFile.isPublic_ofKind, hPublic, if_true, hLoad]
  exact Action.yields_ofExcept _

end PemBlock

namespace KeyFile

namespace Format

/-- The PEM formats for private keys that a class of keys admits. -/
def holdsPrivate (format : Format) (keyClass : KeyClass) : Bool :=
  match format with
  | pem => keyClass != .ed25519
  | pkcs1 => keyClass == .rsa
  | sec1 => keyClass == .ecdsa
  | pkcs8 => true
  | _ => false

/-- The PEM formats for public keys that a class of keys admits. -/
def holdsPublic (format : Format) (keyClass : KeyClass) : Bool :=
  match format with
  | pemPublic => true
  | pkcs1Public => keyClass == .rsa
  | _ => false

end Format

/-- Whether a name selects a cipher for the headers of a block; an empty one selects the default. -/
def SelectsCipher (cipherName : Option String) : Prop :=
  ∃ cipher : ChainedCipher,
    (cipherName.filter (· ≠ "")).getD PemBlock.defaultCipher = cipher.headerName

/-- Whether a passphrase is longer than what a format takes: one format has a limit. -/
def Format.refusesPassphrase (format : Format) (passphrase : Datum) : Prop :=
  format = pkcs8 ∧ passphrase.isEmpty = false ∧
    ∃ password, passphrase.toBytes = .ok password ∧ PemBlock.passwordLimit < password.length

variable {format : Format} {key : Key} {passphrase : Datum} {cipherName : Option String}
  {rounds : Option Int}

theorem serializeAs_own (hAccepted : key.body.Accepted) (hReduced : key.body.IsReduced)
    (hBits : key.bits < 2 ^ 1000) (hHolds : format.holdsPrivate key.keyClass = true) (hOther : format ≠ .pkcs8)
    (hPassphrase : passphrase.isEmpty = true ∨ passphrase.IsSecret)
    (hCipher : SelectsCipher cipherName) :
    PemBlock.GivesBack (serializeAs format key passphrase cipherName rounds) passphrase
      key.body := by
  obtain ⟨cipher, hName⟩ := hCipher
  have hOwn : key.keyClass ≠ .ed25519 := by
    intro hClass
    rw [hClass] at hHolds
    cases format <;> first | exact hOther rfl | cases hHolds
  have hSame : serializeAs format key passphrase cipherName rounds =
      PemBlock.writeOwn key passphrase (some cipher.headerName) := by
    have hAllowed : ¬(format.isPrivate = true ∧ (!key.canSign) = true) := by
      simp [show key.canSign = true from hAccepted.consistent.canSign]
    unfold serializeAs
    rw [if_neg hAllowed, hName]
    cases format with
    | pem => rfl
    | pkcs1 => exact if_pos hHolds
    | sec1 => exact if_pos hHolds
    | pkcs8 => exact absurd rfl hOther
    | _ => cases hHolds
  rw [hSame]
  exact PemBlock.writeOwn_givesBack hAccepted hReduced hBits hOwn cipher hPassphrase

theorem serializeAs_pkcs8 (hSign : key.canSign = true) :
    serializeAs .pkcs8 key passphrase cipherName rounds = PemBlock.writeAny key passphrase := by
  have hAllowed : ¬(Format.pkcs8.isPrivate = true ∧ (!key.canSign) = true) := by simp [hSign]
  unfold serializeAs
  rw [if_neg hAllowed]
  rfl

theorem serializeAs_public (hAccepted : key.body.Accepted) (hBits : key.bits < 2 ^ 1000)
    (hHolds : format.holdsPublic key.keyClass = true) :
    ∃ text, serializeAs format key passphrase cipherName rounds = pure text ∧
      serializeAs format { key with body := key.body.publicHalf } passphrase cipherName rounds =
        pure text ∧ ∀ given, (parse (.text text) given).Yields { body := key.body.publicHalf } := by
  cases format with
  | pemPublic =>
    obtain ⟨e, held, hElement, hHalf, hRead, hBody⟩ := Der.PublicKey.read_element hAccepted hBits
    refine ⟨PemBlock.render PemKind.anyPublic.label [] e.toBytes, ?_, ?_,
      PemBlock.parse_public rfl hRead hBody rfl⟩
    · change Action.ofExcept (PemBlock.writePublicAs .any key) = _
      rw [PemBlock.writePublicAs, hElement]
      rfl
    · change Action.ofExcept
        (PemBlock.writePublicAs .any { key with body := key.body.publicHalf }) = _
      rw [PemBlock.writePublicAs, hHalf]
      rfl
  | pkcs1Public =>
    obtain ⟨body, comment⟩ := key
    cases body with
    | rsa k =>
      obtain ⟨r, hNumbers, hRange, -, -, hSize⟩ := KeyBody.accepted_rsa_iff.mp hAccepted
      obtain rfl := RsaKey.toKey_of_numbers? hNumbers
      exact ⟨PemBlock.render PemKind.rsaPublic.label [] (Der.PublicKey.rsaElement r.n r.e).toBytes,
        rfl, rfl, PemBlock.parse_public rfl (Der.PublicKey.read_rsaElement hRange hBits)
          (Der.PublicKey.toBody_rsa hSize) rfl⟩
    | _ => cases hHolds
  | _ => cases hHolds

/-- Accepted keys are read back from every PEM format that their class admits, with all their
numbers from the formats for private keys, where readers ask for a reduced scalar, and from those for
public keys with the same text for the whole key and for its public half. Only the format for keys of
any class may refuse to write, for a passphrase that is too long. -/
theorem parse_serialize_pem (hAccepted : key.body.Accepted) (hBits : key.bits < 2 ^ 1000)
    (hPassphrase : passphrase.isEmpty = true ∨ passphrase.IsSecret)
    (hCipher : SelectsCipher cipherName) (rounds : Option Int) :
    (key.body.IsReduced → ∀ format : Format, format.holdsPrivate key.keyClass = true → ∀ j,
      (format.refusesPassphrase passphrase ∧
        serialize key (some format.name) passphrase cipherName rounds j =
          .error (.misuse .value) j) ∨
      ∃ text j', serialize key (some format.name) passphrase cipherName rounds j = .ok text j' ∧
        ∀ i, ∃ i', parse (.text text) passphrase i =
          .ok { body := key.body, comment := some "" } i') ∧
    ∀ format : Format, format.holdsPublic key.keyClass = true → ∃ text,
      (∀ j, serialize key (some format.name) passphrase cipherName rounds j = .ok text j) ∧
      (∀ j, serialize { key with body := key.body.publicHalf } (some format.name) passphrase
        cipherName rounds j = .ok text j) ∧
      ∀ i, ∃ i', parse (.text text) passphrase i =
        .ok { body := key.body.publicHalf, comment := some "" } i' := by
  constructor
  · intro hReduced format hHolds j
    rw [serialize_eq]
    by_cases hOther : format = .pkcs8
    · subst hOther
      rw [serializeAs_pkcs8 hAccepted.consistent.canSign]
      by_cases hRefused : Format.pkcs8.refusesPassphrase passphrase
      · exact .inl ⟨hRefused, PemBlock.writeAny_refuses hAccepted hReduced hBits hRefused.2 j⟩
      · refine .inr (PemBlock.writeAny_givesBack hAccepted hReduced hBits (fun hSome => ?_) j)
        obtain hEmpty | ⟨-, password, hPassword⟩ := hPassphrase
        · rw [hSome] at hEmpty
          cases hEmpty
        · exact ⟨password, hPassword, Nat.not_lt.mp fun hLong =>
            hRefused ⟨rfl, hSome, password, hPassword, hLong⟩⟩
    · exact .inr (serializeAs_own hAccepted hReduced hBits hHolds hOther hPassphrase hCipher j)
  · intro format hHolds
    obtain ⟨text, hText, hHalf, hParse⟩ := serializeAs_public hAccepted hBits hHolds
    refine ⟨text, fun j => ?_, fun j => ?_, hParse passphrase⟩
    · rw [serialize_eq, hText]
      rfl
    · rw [serialize_eq, hHalf]
      rfl

/-- The key whose scalar is one, in the form of its class, under a passphrase. -/
theorem parse_serialize_pem_p256 : ∃ text j,
    serialize ⟨.ecdsa ⟨.p256, Curve.secp256r1.base, some 1⟩, some "name"⟩ (some "sec1")
      (.text "secret") (some "DES-EDE3-CBC") none ⟨[1, 2, 3], ⟨[], 0⟩, []⟩ = .ok text j ∧
    ∃ i, parse (.text text) (.text "secret") j =
      .ok ⟨.ecdsa ⟨.p256, Curve.secp256r1.base, some 1⟩, some ""⟩ i := by
  have hBits : Key.bits ⟨.ecdsa ⟨.p256, Curve.secp256r1.base, some 1⟩, some "name"⟩ < 2 ^ 1000 :=
    Nat.lt_of_lt_of_le (show 256 < 2 ^ 9 by decide)
      (pow_le_pow_right₀ (show 1 ≤ 2 by decide) (show 9 ≤ 1000 by decide))
  obtain ⟨hPrivate, -⟩ := parse_serialize_pem KeyBody.accepted_p256_one hBits
    (.inr ⟨rfl, _, rfl⟩ : (Datum.text "secret").isEmpty = true ∨ (Datum.text "secret").IsSecret)
    (⟨.tripleDes, rfl⟩ : SelectsCipher (some "DES-EDE3-CBC")) none
  obtain ⟨⟨hOther, -⟩, -⟩ | ⟨text, j, hText, hParse⟩ :=
    hPrivate KeyBody.isReduced_p256_one .sec1 rfl ⟨[1, 2, 3], ⟨[], 0⟩, []⟩
  · cases hOther
  · exact ⟨text, j, hText, hParse j⟩

end KeyFile
end SshKeys
