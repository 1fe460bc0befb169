import SshKeys.Proofs.DerRefusal
import SshKeys.Proofs.EnvelopeFailure
import SshKeys.Proofs.PemNoise
import SshKeys.Proofs.RawReading
/-!
# Loading private keys from any text or bytes, under any passphrase or none

Loading ends with keys that can all sign, at least one of them, or with a reported failure, apart
from two kinds of data and one of passphrases. An envelope may hold an RSA entry with a negative
inverse, a PEM block that is encrypted by its headers may hold data in the encrypted form, and
either may be encrypted where the passphrase is a text that no bytes spell; loading them ends with
the mistake of a caller.
-/
namespace SshKeys

open Error (Reported)
open Stateful (FailsOnly)

namespace PemBlock

variable {b : PemBlock} {kind : PemKind} {data passphrase : Datum} {s : String} {j j' : Journal}

theorem ofDatum_reports {bs : Bytes} (hData : data.toBytes = .ok bs) :
    Fallible.FailsOnly Reported (ofDatum data) :=
  (ofDatum_fails hData).mono fun _ => Error.reported

theorem kindOf_reports (b : PemBlock) (wantPublic : Bool) :
    Fallible.FailsOnly Reported (b.kindOf wantPublic) := by
  rw [kindOf]
  split
  · exact Fallible.failsOnly_ok _
  · exact Fallible.failsOnly_error (Error.reported rfl)

/-- The kinds of error that the checks of the headers end with. -/
def IsHeaderError (e : Error) : Prop :=
  e.kind = .reported .format ∨ e.kind = .reported .unsupportedCipher

theorem IsHeaderError.reported {e : Error} (h : IsHeaderError e) : e.Reported := by
  rcases h with hFormat | hCipher
  · exact Error.reported hFormat
  · exact Error.reported hCipher

theorem cipherHeader_failsOnly (b : PemBlock) : Fallible.FailsOnly IsHeaderError b.cipherHeader := by
  rw [cipherHeader]
  split
  · refine Fallible.FailsOnly.bind ?_ fun _ _ => Fallible.failsOnly_ok _
    rw [ChainedCipher.ofHeaderName]
    split
    · exact Fallible.failsOnly_ok _
    · exact Fallible.failsOnly_error (.inr rfl)
  · exact Fallible.failsOnly_error (.inl rfl)

theorem readIv_failsOnly (cipher : ChainedCipher) (value : String) :
    Fallible.FailsOnly IsHeaderError (readIv cipher value) := by
  rw [readIv]
  split
  · exact Fallible.failsOnly_error (.inl rfl)
  · split
    · exact Fallible.failsOnly_ok _
    · exact Fallible.failsOnly_error (.inl rfl)

theorem checkHeaders_failsOnly (b : PemBlock) (procType : String) (passphrase : Datum) :
    Fallible.FailsOnly (fun e => IsHeaderError e ∨ e = .passphraseRequired ∧ passphrase.isEmpty)
      (b.checkHeaders procType passphrase) := by
  refine .throwIf (.inl (.inl rfl)) fun _ => ?_
  refine ((cipherHeader_failsOnly b).mono fun _ => .inl).bind fun header _ => ?_
  change Fallible.FailsOnly _ (if passphrase.isEmpty = true then _ else _)
  by_cases hEmpty : passphrase.isEmpty = true
  · rw [if_pos hEmpty]
    exact Fallible.failsOnly_error (.inr ⟨rfl, hEmpty⟩)
  · rw [if_neg hEmpty]
    refine ((readIv_failsOnly header.1 header.2).mono fun _ => .inl).bind fun iv _ => ?_
    exact .throwIf (.inl (.inl rfl)) fun _ => Fallible.failsOnly_ok _

theorem checkHeaders_reports (b : PemBlock) (procType : String) (passphrase : Datum) :
    Fallible.FailsOnly Reported (b.checkHeaders procType passphrase) := by
  refine (checkHeaders_failsOnly b procType passphrase).mono fun e h => ?_
  rcases h with hHeader | ⟨rfl, -⟩
  · exact hHeader.reported
  · exact Error.reported rfl

theorem accepted_of_checkHeaders {procType : String} {cipher : ChainedCipher} {iv : Bytes}
    (h : b.checkHeaders procType passphrase = .ok (cipher, iv)) :
    passphrase.isEmpty = false ∧ (∃ value, b.cipherHeader = .ok (cipher, value) ∧
      readIv cipher value = .ok iv) ∧ b.body ≠ [] ∧ b.body.length % cipher.blockSize = 0 := by
  simp only [checkHeaders, Fallible.throwIf_eq_ok_iff, Fallible.bind_eq_ok_iff,
    Fallible.pure_eq_ok_iff, Prod.mk.injEq] at h
  obtain ⟨-, ⟨_, value⟩, hHeader, hGiven, _, hIv, hBody, rfl, rfl⟩ := h
  rw [List.isEmpty_iff, not_or, not_not] at hBody
  exact ⟨Bool.eq_false_iff.mpr hGiven, ⟨value, hHeader, hIv⟩, hBody⟩

theorem cipherFor_of_isBroken (cipher : ChainedCipher) (iv : Bytes) (hBroken : passphrase.IsBroken) :
    cipherFor cipher iv passphrase = .error .notEncodable := by
  rw [cipherFor, hBroken.toBytes_error]
  rfl

theorem decrypt_failsOnly (b : PemBlock) (procType : String)
    (hPassphrase : passphrase.IsPassphrase) :
    FailsOnly (fun e => e.Reported ∨ e = .notEncodable ∧ passphrase.IsBroken ∧
      ∃ found, b.checkHeaders procType passphrase = .ok found) (b.decrypt procType passphrase) := by
  refine (Action.ofExcept_failsOnly ((checkHeaders_reports b procType passphrase).mono
    fun _ => .inl)).bind fun found _ _ hFound => ?_
  replace hFound := (Action.ofExcept_eq_ok_iff.mp hFound).1
  obtain ⟨hGiven, -⟩ := accepted_of_checkHeaders hFound
  refine (Action.log_failsOnly _ _ _).bind fun _ _ _ _ => ?_
  rcases hPassphrase.isSecret_or_isBroken hGiven with hSecret | hBroken
  · obtain ⟨key, hCipher⟩ := cipherFor_eq_ok found.1 found.2 hSecret
    rw [hCipher]
    refine (Stateful.failsOnly_pure _).bind fun cipher _ _ _ => ?_
    cases cipher.openText? found.2 b.body with
    | none => exact Stateful.failsOnly_throw (.inl (Error.reported rfl))
    | some plain => exact Stateful.failsOnly_pure plain
  · rw [cipherFor_of_isBroken found.1 found.2 hBroken]
    exact (Action.ofExcept_failsOnly (Fallible.failsOnly_error
      (.inr ⟨rfl, hBroken, found, hFound⟩))).bind fun _ _ _ hOther => nomatch hOther

theorem decrypt_of_isBroken {procType : String} {found : ChainedCipher × Bytes}
    (hBroken : passphrase.IsBroken) (hFound : b.checkHeaders procType passphrase = .ok found)
    (j : Journal) : ∃ j', b.decrypt procType passphrase j = .error .notEncodable j' := by
  obtain ⟨cipher, iv⟩ := found
  rw [decrypt, hFound, Action.bind_ofExcept_ok]
  simp only
  rw [Action.bind_log, cipherFor_of_isBroken cipher iv hBroken]
  exact ⟨_, rfl⟩

theorem settled_decrypt (b : PemBlock) (procType : String) (passphrase : Datum) :
    (b.decrypt procType passphrase).Settled := by
  refine (Action.settled_ofExcept _).bind fun found => ?_
  refine (Action.settled_log _ _ _).bind fun _ => ?_
  refine (Action.settled_ofExcept _).bind fun cipher => ?_
  cases cipher.openText? found.2 b.body with
  | none => exact Action.settled_throw _
  | some plain => exact Action.settled_pure plain

/-- The block says that its body is encrypted, and what the body decrypts to is in the encrypted
form once more. -/
def IsSealedTwice (b : PemBlock) (kind : PemKind) (passphrase : Datum) : Prop :=
  kind ≠ .encryptedPrivate ∧ ∃ procType plain, b.header "proc-type" = some procType ∧
    (b.decrypt procType passphrase).Yields plain ∧ Der.PrivateKey.IsSealed plain

/-- The block says that its body is encrypted, and its headers are in order. -/
def AsksForKey (b : PemBlock) (kind : PemKind) (passphrase : Datum) : Prop :=
  kind ≠ .encryptedPrivate ∧ ∃ procType found, b.header "proc-type" = some procType ∧
    b.checkHeaders procType passphrase = .ok found

theorem readPrivate_failsOnly (b : PemBlock) (kind : PemKind)
    (hPassphrase : passphrase.IsPassphrase) :
    FailsOnly (fun e => e.Reported ∨ (e = .misuse .type ∧ b.IsSealedTwice kind passphrase) ∨
      e = .notEncodable ∧ passphrase.IsBroken ∧ b.AsksForKey kind passphrase)
      (b.readPrivate kind passphrase) := by
  rw [readPrivate]
  by_cases hEncrypted : kind = .encryptedPrivate
  · rw [if_pos hEncrypted]
    refine .throwIf (.inl (Error.reported rfl)) fun _ => ?_
    cases passphrase.toBytes with
    | error e => exact Stateful.failsOnly_throw (.inl (Error.reported rfl))
    | ok password =>
      have hAll : Fallible.FailsOnly (fun _ => True) (Der.PrivateKey.read (some password) b.body) :=
        fun _ _ => trivial
      refine Action.ofExcept_failsOnly (hAll.mapError ?_)
      rintro (_ | _ | _ | _) -
      all_goals exact .inl (Error.reported rfl)
  · rw [if_neg hEncrypted]
    cases hType : b.header "proc-type" with
    | none =>
      refine Action.ofExcept_failsOnly ((Der.PrivateKey.read_none_refusal b.body).mapError ?_)
      rintro _ ((rfl | rfl) | ⟨rfl, -⟩)
      all_goals exact .inl (Error.reported rfl)
    | some procType =>
      refine ((decrypt_failsOnly b procType hPassphrase).mono ?_).bind fun plain _ _ hPlain => ?_
      · rintro e (hReported | ⟨rfl, hBroken, found, hFound⟩)
        · exact .inl hReported
        · exact .inr (.inr ⟨rfl, hBroken, hEncrypted, procType, found, hType, hFound⟩)
      · refine Action.ofExcept_failsOnly ((Der.PrivateKey.read_none_refusal plain).mapError ?_)
        rintro _ ((rfl | rfl) | ⟨rfl, hSealed⟩)
        · exact .inl (Error.reported rfl)
        · exact .inl (Error.reported rfl)
        · exact .inr (.inl ⟨rfl, hEncrypted, procType, plain, hType,
            (settled_decrypt b procType passphrase).yields hPlain, hSealed⟩)

theorem readPrivate_of_isSealedTwice (h : b.IsSealedTwice kind passphrase) (j : Journal) :
    ∃ j', b.readPrivate kind passphrase j = .error (.misuse .type) j' := by
  obtain ⟨hEncrypted, procType, plain, hType, hPlain, hSealed⟩ := h
  obtain ⟨j', hDecrypted⟩ := hPlain j
  refine ⟨j', ?_⟩
  rw [readPrivate, if_neg hEncrypted, hType]
  simp only
  rw [Stateful.bind_ok hDecrypted, Der.PrivateKey.read_none_of_isSealed hSealed]
  rfl

theorem readPrivate_of_isBroken (hBroken : passphrase.IsBroken) (h : b.AsksForKey kind passphrase)
    (j : Journal) : ∃ j', b.readPrivate kind passphrase j = .error .notEncodable j' := by
  obtain ⟨hEncrypted, procType, found, hType, hFound⟩ := h
  obtain ⟨j', hDecrypt⟩ := decrypt_of_isBroken hBroken hFound j
  refine ⟨j', ?_⟩
  rw [readPrivate, if_neg hEncrypted, hType]
  exact Stateful.bind_error hDecrypt

theorem toBody_reports (secret : Der.PrivateKey) :
    Fallible.FailsOnly Reported secret.toBody := by
  cases secret with
  | rsa numbers =>
    exact (KeyBody.checkRsaSize_reports numbers.n).bind fun _ _ => Fallible.failsOnly_ok _
  | dsa domain y x =>
    exact (KeyBody.checkDsa_reports domain.p domain.q domain.g y).bind
      fun _ _ => Fallible.failsOnly_ok _
  | elliptic curve point scalar =>
    rw [Der.PrivateKey.toBody]
    split
    · exact Fallible.failsOnly_ok _
    · exact Fallible.failsOnly_error (Error.reported rfl)
  | ed25519 seed => exact Fallible.failsOnly_ok _
  | foreign kind => exact Fallible.failsOnly_error (Error.reported rfl)

theorem checkKind_reports (kind : PemKind) (key : Key) :
    Fallible.FailsOnly Reported (checkKind kind key) := by
  rw [checkKind]
  split
  · exact Fallible.failsOnly_ok _
  · exact Fallible.failsOnly_error (Error.reported rfl)

/-- The data holds a PEM block for private keys whose body is sealed twice. -/
def HoldsSealedTwice (data passphrase : Datum) : Prop :=
  ∃ b kind, ofDatum data = .ok b ∧ b.kindOf false = .ok kind ∧ b.IsSealedTwice kind passphrase

/-- The data holds a PEM block for private keys that is encrypted by its headers. -/
def HoldsSealed (data passphrase : Datum) : Prop :=
  ∃ b kind, ofDatum data = .ok b ∧ b.kindOf false = .ok kind ∧ b.AsksForKey kind passphrase

theorem loadPrivate_failsOnly {bs : Bytes} (hData : data.toBytes = .ok bs)
    (hPassphrase : passphrase.IsPassphrase) :
    FailsOnly (fun e => e.Reported ∨ (e = .misuse .type ∧ HoldsSealedTwice data passphrase) ∨
      e = .notEncodable ∧ passphrase.IsBroken ∧ HoldsSealed data passphrase)
      (loadPrivate data passphrase) := by
  refine (Action.ofExcept_failsOnly ((ofDatum_reports hData).mono fun _ => .inl)).bind
    fun b _ _ hBlock => ?_
  refine (Action.ofExcept_failsOnly ((kindOf_reports b false).mono fun _ => .inl)).bind
    fun kind _ _ hKind => ?_
  refine (Action.log_failsOnly _ _ _).bind fun _ _ _ _ => ?_
  replace hBlock := (Action.ofExcept_eq_ok_iff.mp hBlock).1
  replace hKind := (Action.ofExcept_eq_ok_iff.mp hKind).1
  refine ((readPrivate_failsOnly b kind hPassphrase).mono ?_).bind fun secret _ _ _ => ?_
  · rintro e (hReported | ⟨hMistake, hTwice⟩ | ⟨hMistake, hBroken, hAsks⟩)
    · exact .inl hReported
    · exact .inr (.inl ⟨hMistake, b, kind, hBlock, hKind, hTwice⟩)
    · exact .inr (.inr ⟨hMistake, hBroken, b, kind, hBlock, hKind, hAsks⟩)
  · refine Action.ofExcept_failsOnly (Fallible.FailsOnly.mono ?_ fun _ => .inl)
    exact (toBody_reports secret).bind fun body _ => checkKind_reports kind _

theorem loadPrivate_of_holdsSealedTwice (h : HoldsSealedTwice data passphrase) (j : Journal) :
    ∃ j', loadPrivate data passphrase j = .error (.misuse .type) j' := by
  obtain ⟨b, kind, hBlock, hKind, hTwice⟩ := h
  rw [loadPrivate, hBlock, Action.bind_ofExcept_ok, hKind, Action.bind_ofExcept_ok,
    Action.bind_log]
  obtain ⟨j', hRead⟩ := readPrivate_of_isSealedTwice hTwice _
  exact ⟨j', Stateful.bind_error hRead⟩

theorem loadPrivate_of_isBroken (hBroken : passphrase.IsBroken) (h : HoldsSealed data passphrase)
    (j : Journal) : ∃ j', loadPrivate data passphrase j = .error .notEncodable j' := by
  obtain ⟨b, kind, hBlock, hKind, hAsks⟩ := h
  rw [loadPrivate, hBlock, Action.bind_ofExcept_ok, hKind, Action.bind_ofExcept_ok,
    Action.bind_log]
  obtain ⟨j', hRead⟩ := readPrivate_of_isBroken hBroken hAsks _
  exact ⟨j', Stateful.bind_error hRead⟩

end PemBlock

namespace Container

variable {data : Datum}

theorem classOfEnvelope_reports (raw : Bytes) : FailsOnly Reported (classOfEnvelope raw) := by
  refine (Envelope.load_reports raw).bind fun e _ _ _ => ?_
  have hName := Packet.parse_failsOnly Packet.readText_reports (e.publicBlobs.headD [])
  exact (Action.ofExcept_failsOnly hName).bind fun _ _ _ _ => Stateful.failsOnly_pure _

theorem ofLine_reports (s : String) : Fallible.FailsOnly Reported (ofLine s) := by
  rw [ofLine]
  split
  · split
    · exact Fallible.failsOnly_ok _
    · exact Fallible.failsOnly_error (Error.reported rfl)
  · exact Fallible.failsOnly_error (Error.reported rfl)

theorem ofText_reports (s : String) : FailsOnly Reported (ofText s) := by
  rw [ofText]
  split
  · exact Action.ofExcept_failsOnly (ofLine_reports s)
  · split
    · refine (Action.ofExcept_failsOnly (Armour.decodeText_reports s)).bind fun raw _ _ _ => ?_
      exact (classOfEnvelope_reports raw).bind fun _ _ _ _ => Stateful.failsOnly_pure _
    · split
      · exact Stateful.failsOnly_pure _
      · exact Stateful.failsOnly_throw (Error.reported rfl)

theorem identify_reports {bs : Bytes} (hData : data.toBytes = .ok bs) :
    FailsOnly Reported (identify data) := by
  rw [identify, hData]
  refine (Stateful.failsOnly_pure bs).bind fun raw _ _ _ => ?_
  by_cases hMagic : Envelope.magic.isPrefixOf raw
  · rw [if_pos hMagic]
    exact (classOfEnvelope_reports raw).bind fun _ _ _ _ => Stateful.failsOnly_pure _
  · rw [if_neg hMagic]
    cases Utf8.decode? raw with
    | none => exact Stateful.failsOnly_throw (Error.reported rfl)
    | some s => exact ofText_reports s

theorem identify_of_block {b : PemBlock} {kind : PemKind}
    (hMagic : ∀ bs, data.toBytes = .ok bs → ¬Envelope.magic <+: bs)
    (hBlock : PemBlock.ofDatum data = .ok b) (hKind : b.kindOf false = .ok kind) :
    (identify data).Yields (ofKind kind, kind.keyClass?) := by
  simp only [PemBlock.ofDatum, Fallible.bind_eq_ok_iff, Datum.toTextOr_eq_ok_iff] at hBlock
  obtain ⟨s, hText, hBlock⟩ := hBlock
  have hLabel : PemBlock.labelOfText? s = some kind.label := by
    rw [PemBlock.labelOfText?_of_ofText hBlock, PemBlock.kind_of_kindOf hKind]
  have hOther : kind.label ≠ Armour.label := by
    cases kind <;> decide
  intro j
  refine ⟨j, ?_⟩
  rw [identify_of_toText hMagic hText, ofText, hLabel]
  simp only [if_neg hOther, PemKind.ofLabel?_eq_some_iff.mpr rfl]
  rfl

theorem openssh_of_magic {container : Container} {keyClass : Option KeyClass} {bs : Bytes}
    {j j' : Journal} (hData : data.toBytes = .ok bs) (hMagic : Envelope.magic <+: bs)
    (h : identify data j = .ok (container, keyClass) j') : container = openssh := by
  rw [identify, hData, Action.bind_ofExcept_ok, if_pos (List.isPrefixOf_iff_prefix.mpr hMagic)] at h
  simp only [Stateful.bind_eq_ok_iff, Stateful.pure_eq_ok_iff, Prod.mk.injEq] at h
  obtain ⟨_, _, -, ⟨rfl, -⟩, -⟩ := h
  rfl

theorem identify_raw_yields {bs : Bytes} {e : Envelope} (hData : data.toBytes = .ok bs)
    (hRead : Envelope.ofBytes bs = .ok e) {name : String}
    (hName : Packet.parse Packet.readText (e.publicBlobs.headD []) = .ok name) :
    (identify data).Yields (openssh, KeyClass.ofIdentifier? name) := by
  obtain ⟨-, -, hBytes⟩ := Envelope.ofBytes_eq_ok_iff.mp hRead
  obtain ⟨options, -, -, -, -, hLayout⟩ := Envelope.toBytes_eq_ok_iff.mp hBytes
  have hMagic : Envelope.magic.isPrefixOf bs = true :=
    List.isPrefixOf_iff_prefix.mpr ⟨_, hLayout.symm⟩
  intro j
  rw [identify, hData, Action.bind_ofExcept_ok, if_pos hMagic]
  exact Action.Yields.bind (classOfEnvelope_yields hRead hName)
    (Action.yields_pure (openssh, KeyClass.ofIdentifier? name)) j

end Container

namespace KeyFile

variable {data passphrase : Datum} {container : Container} {keyClass : Option KeyClass} {bs : Bytes}
  {keys : List Key} {j j' : Journal}

/-- The data is told to be an envelope, and holds an RSA entry with a negative inverse. -/
def MeetsNegativeInverse (data passphrase : Datum) : Prop :=
  (∃ keyClass, (Container.identify data).Yields (.openssh, keyClass)) ∧
    Envelope.HoldsNegativeInverse data passphrase

/-- The data is a PEM block that is encrypted by its headers and holds data in the encrypted form. -/
def MeetsSealedTwice (data passphrase : Datum) : Prop :=
  (∀ bs, data.toBytes = .ok bs → ¬Envelope.magic <+: bs) ∧ PemBlock.HoldsSealedTwice data passphrase

/-- The passphrase is a text that no bytes spell, and the data is an envelope that is encrypted, or a
PEM block that is encrypted by its headers. -/
def MeetsBrokenText (data passphrase : Datum) : Prop :=
  passphrase.IsBroken ∧
    (((∃ keyClass, (Container.identify data).Yields (.openssh, keyClass)) ∧
      Envelope.HoldsSealed data) ∨
    ((∀ bs, data.toBytes = .ok bs → ¬Envelope.magic <+: bs) ∧ PemBlock.HoldsSealed data passphrase))

/-- The failures of loading that are not reported, each with what it is met on. -/
inductive Escapes (data passphrase : Datum) : Error → Prop
  | magnitude (h : MeetsNegativeInverse data passphrase) :
      Escapes data passphrase (.misuse .magnitude)
  | type (h : MeetsSealedTwice data passphrase) : Escapes data passphrase (.misuse .type)
  | encoding (h : MeetsBrokenText data passphrase) : Escapes data passphrase .notEncodable

theorem Escapes.not_reported {e : Error} (h : Escapes data passphrase e) : ¬e.Reported := by
  cases h with
  | magnitude | type => exact Error.not_reported _
  | encoding => exact Error.not_reported_notEncodable

theorem loadFrom_ne_nil (h : loadFrom container data passphrase j = .ok keys j') : keys ≠ [] := by
  obtain ⟨-, _, hKeys⟩ := keysIn_of_loadFrom h
  rw [keysIn] at hKeys
  split at hKeys
  · exact Envelope.decodeKeys_ne_nil hKeys
  · obtain ⟨key, -, rfl⟩ := Stateful.map_eq_ok_iff.mp hKeys
    exact List.cons_ne_nil key []

theorem keysIn_failsOnly (container : Container) (hData : data.toBytes = .ok bs)
    (hPassphrase : passphrase.IsPassphrase) :
    FailsOnly (fun e => e.Reported ∨
      (container = .openssh ∧
        (e = .misuse .magnitude ∧ Envelope.HoldsNegativeInverse data passphrase ∨
          e = .notEncodable ∧ passphrase.IsBroken ∧ Envelope.HoldsSealed data)) ∨
      (container ≠ .openssh ∧
        (e = .misuse .type ∧ PemBlock.HoldsSealedTwice data passphrase ∨
          e = .notEncodable ∧ passphrase.IsBroken ∧ PemBlock.HoldsSealed data passphrase)))
      (keysIn container data passphrase) := by
  rw [keysIn]
  split
  · rename_i hContainer
    intro i e i' h
    rcases Envelope.decodeKeys_failsOnly hData hPassphrase i e i' h with
      (hReported | rfl) | hBroken
    · exact .inl hReported
    · exact .inr (.inl ⟨hContainer, .inl ⟨rfl,
        (Envelope.decodeKeys_magnitude_iff hData hPassphrase).mp ⟨i', h⟩⟩⟩)
    · exact .inr (.inl ⟨hContainer, .inr hBroken⟩)
  · rename_i hContainer
    refine ((PemBlock.loadPrivate_failsOnly hData hPassphrase).mono ?_).map
    rintro e (hReported | hMistake)
    · exact .inl hReported
    · exact .inr (.inr ⟨hContainer, hMistake⟩)

theorem loadPrivateKeys_failsOnly (hData : data.toBytes = .ok bs)
    (hPassphrase : passphrase.IsPassphrase) :
    FailsOnly (fun e => e.Reported ∨ Escapes data passphrase e) (loadPrivateKeys data passphrase) := by
  refine ((Container.identify_reports hData).mono fun _ => .inl).bind fun told i i' hTold => ?_
  obtain ⟨container, keyClass⟩ := told
  have hYields := (Container.settled_identify data).yields hTold
  cases hPublic : container.isPublic with
  | true =>
    simp only [loadFrom, hPublic, if_true]
    refine (Stateful.failsOnly_throw (.inl (Error.reported rfl))).bind fun _ _ _ hThrown => ?_
    cases hThrown
  | false =>
    have hBlock (hContainer : container ≠ .openssh) :
        ∀ given, data.toBytes = .ok given → ¬Envelope.magic <+: given :=
      fun _ hGiven hMagic => hContainer (Container.openssh_of_magic hGiven hMagic hTold)
    simp only [loadFrom_eq hPublic]
    refine ((keysIn_failsOnly container hData hPassphrase).mono ?_).bind fun keys _ _ _ => ?_
    · rintro e (hReported | ⟨rfl, ⟨rfl, hNegative⟩ | ⟨rfl, hBroken, hSealed⟩⟩ |
        ⟨hContainer, ⟨rfl, hTwice⟩ | ⟨rfl, hBroken, hSealed⟩⟩)
      · exact .inl hReported
      · exact .inr (.magnitude ⟨⟨keyClass, hYields⟩, hNegative⟩)
      · exact .inr (.encoding ⟨hBroken, .inl ⟨⟨keyClass, hYields⟩, hSealed⟩⟩)
      · exact .inr (.type ⟨hBlock hContainer, hTwice⟩)
      · exact .inr (.encoding ⟨hBroken, .inr ⟨hBlock hContainer, hSealed⟩⟩)
    · exact (Action.log_failsOnly _ _ _).bind fun _ _ _ _ => Stateful.failsOnly_pure keys

theorem keysIn_raw (hMark : ¬Armour.mark <:+: bs) (passphrase : Datum) :
    keysIn .openssh (.bytes bs) passphrase = Envelope.unlock bs passphrase :=
  funext fun _ => Envelope.decodeKeys_unmarked hMark

theorem loadPrivateKeys_error_of_envelope {e : Error}
    (hTold : ∃ keyClass, (Container.identify data).Yields (.openssh, keyClass))
    (hFails : ∀ i, ∃ i', Envelope.decodeKeys data passphrase i = .error e i') (j : Journal) :
    ∃ j', loadPrivateKeys data passphrase j = .error e j' := by
  obtain ⟨keyClass, hTold⟩ := hTold
  obtain ⟨i, hIdentify⟩ := hTold j
  obtain ⟨j', hKeys⟩ := hFails i
  refine ⟨j', ?_⟩
  rw [loadPrivateKeys, Stateful.bind_ok hIdentify]
  simp only
  rw [loadFrom_eq rfl]
  exact Stateful.bind_error hKeys

theorem loadPrivateKeys_error_of_block {e : Error} {b : PemBlock} {kind : PemKind}
    (hMagic : ∀ bs, data.toBytes = .ok bs → ¬Envelope.magic <+: bs)
    (hBlock : PemBlock.ofDatum data = .ok b) (hKind : b.kindOf false = .ok kind)
    (hFails : ∀ i, ∃ i', PemBlock.loadPrivate data passphrase i = .error e i') (j : Journal) :
    ∃ j', loadPrivateKeys data passphrase j = .error e j' := by
  obtain ⟨i, hIdentify⟩ := Container.identify_of_block hMagic hBlock hKind j
  obtain ⟨j', hKeys⟩ := hFails i
  have hPrivate : (Container.ofKind kind).isPublic = false := by
    rw [isPublic_ofKind]
    exact PemBlock.isPublic_of_kindOf hKind
  refine ⟨j', ?_⟩
  rw [loadPrivateKeys, Stateful.bind_ok hIdentify]
  simp only
  rw [loadFrom_eq hPrivate, keysIn_ofKind]
  refine Stateful.bind_error ?_
  change EStateM.map _ _ i = _
  rw [EStateM.map, hKeys]

theorem loadPrivateKeys_of_escapes {e : Error} (hData : data.toBytes = .ok bs)
    (hPassphrase : passphrase.IsPassphrase) (h : Escapes data passphrase e) :
    ∀ j, ∃ j', loadPrivateKeys data passphrase j = .error e j' := by
  cases h with
  | magnitude h =>
    exact loadPrivateKeys_error_of_envelope h.1 fun i =>
      (Envelope.decodeKeys_magnitude_iff (j := i) hData hPassphrase).mpr h.2
  | type h =>
    have hFails := PemBlock.loadPrivate_of_holdsSealedTwice h.2
    obtain ⟨hMagic, b, kind, hBlock, hKind, -⟩ := h
    exact loadPrivateKeys_error_of_block hMagic hBlock hKind hFails
  | encoding h =>
    obtain ⟨hBroken, ⟨hTold, hSealed⟩ | ⟨hMagic, hSealed⟩⟩ := h
    · exact loadPrivateKeys_error_of_envelope hTold (Envelope.decodeKeys_of_isBroken hBroken hSealed)
    · have hFails := PemBlock.loadPrivate_of_isBroken hBroken hSealed
      obtain ⟨b, kind, hBlock, hKind, -⟩ := hSealed
      exact loadPrivateKeys_error_of_block hMagic hBlock hKind hFails

/-- Data in the encrypted form that is encrypted once more, under the headers of a block. -/
theorem meetsSealedTwice_renderEncrypted {kind : PemKind} {body : Bytes}
    (hPrivate : kind.isPublic = false) (hKind : kind ≠ .encryptedPrivate)
    (hSealed : Der.PrivateKey.IsSealed body) (cipher : ChainedCipher)
    (hSecret : passphrase.IsSecret) (j : Journal) :
    ∃ s j', PemBlock.renderEncrypted kind.label body passphrase (some cipher.headerName) j =
      .ok s j' ∧ MeetsSealedTwice (.text s) passphrase := by
  obtain ⟨iv, key, j', hIv, hKey, hWritten⟩ :=
    PemBlock.renderEncrypted_eq kind.label body cipher hSecret j
  refine ⟨_, j', hWritten, Container.not_magic_of_hyphen (PemBlock.head?_render _ _ _),
    ⟨kind.label, [("proc-type", PemBlock.encryptedMark), ("dek-info", PemBlock.cipherValue cipher iv)],
      (cipher.under key).sealText iv body⟩, kind, ?_, ?_, hKind, PemBlock.encryptedMark, body, ?_,
    PemBlock.decrypt_sealed hIv hKey hSecret, hSealed⟩
  · rw [PemBlock.ofDatum_text]
    exact PemBlock.ofText_render (PemBlock.isLabel_of_kind kind) (PemBlock.heads_encrypted cipher iv) _
  · rw [← hPrivate]
    exact PemBlock.kindOf_label kind _ _
  · rfl

/-- Loading private keys from text or bytes ends with keys that can sign, at least one, or with a
failure that is reported or escapes. Three failures escape, wherever they are met: a negative number
where the data is told to be an envelope and its section is read up to an RSA entry with a negative
inverse, a missing password where what the headers of a block say is encrypted is encrypted once
more, and a text that no bytes spell where a key has to be made of it. -/
theorem loadPrivateKeys_outcome (hData : data.toBytes = .ok bs)
    (hPassphrase : passphrase.IsPassphrase) (j : Journal) :
    ((∃ keys j', loadPrivateKeys data passphrase j = .ok keys j' ∧ keys ≠ [] ∧
        ∀ k ∈ keys, k.canSign = true) ∨
      ∃ e j', loadPrivateKeys data passphrase j = .error e j' ∧
        (e.Reported ∨ Escapes data passphrase e)) ∧
    ∀ e, Escapes data passphrase e →
      ¬e.Reported ∧ ∃ j', loadPrivateKeys data passphrase j = .error e j' := by
  constructor
  · cases hLoad : loadPrivateKeys data passphrase j with
    | ok keys j' =>
      obtain ⟨_, _, -, hKeys⟩ := Stateful.bind_eq_ok_iff.mp hLoad
      exact .inl ⟨keys, j', rfl, loadFrom_ne_nil hKeys,
        fun k hk => (loadFrom_loaded hKeys k hk).canSign⟩
    | error e j' =>
      exact .inr ⟨e, j', rfl, loadPrivateKeys_failsOnly hData hPassphrase j e j' hLoad⟩
  · exact fun e h => ⟨h.not_reported, loadPrivateKeys_of_escapes hData hPassphrase h j⟩

section Unsealed

variable {key : Key} (hAccepted : key.body.Accepted)
  (hSize : PrivateSection.size [key] CipherSuite.none.blockSize ≤ Wire.fieldLimit)
include hAccepted hSize

theorem identify_unsealedFile (hData : data.toBytes = .ok (unsealedFile key)) :
    (Container.identify data).Yields (.openssh, KeyClass.ofIdentifier? key.name) :=
  Container.identify_raw_yields hData (Envelope.ofBytes_unsealedOf hAccepted hSize)
    (Key.readText_blob key)

theorem keysIn_unsealedFile (hMark : ¬Armour.mark <:+: unsealedFile key)
    (hComment : key.comment.isSome) (passphrase : Datum) :
    (keysIn .openssh (.bytes (unsealedFile key)) passphrase).Yields [key] := by
  rw [keysIn_raw hMark]
  exact unlock_unsealedFile hAccepted hSize hComment passphrase

end Unsealed

def greaterPrime : Nat :=
  0xf7a48155616dfdf241349f47b589c12991b0d1578739899561bbcc4acb6cb27f * 2 ^ 256 +
    0x2e9fea50a549bdbe51bf6e9ecec5dfe6f9bf4a584876c4f7efeb3a946af3701f

def lesserPrime : Nat :=
  0xdab31996bf129cc5e09f291ad8bba0800f5080c632d7c8726a8d5d531c92b9b3 * 2 ^ 256 +
    0x436bd37eab64119b00e2b135204451ca2250c7a109b33db5c0998657d5894399

/-- A common RSA key, in a file that is not encrypted, whose entry has the inverse below zero instead
of the one above. -/
def negativeKey : Key := { body := .rsa ⟨greaterPrime * lesserPrime, 35, none⟩ }

def negativeFields : List Bytes :=
  [Int.ofNat (greaterPrime * lesserPrime), 35,
    Int.ofNat (Modular.inverse 35 ((greaterPrime - 1) * (lesserPrime - 1))),
    Int.ofNat (Modular.inverse lesserPrime greaterPrime) - Int.ofNat greaterPrime,
    Int.ofNat greaterPrime, Int.ofNat lesserPrime].map Wire.integerBytes

def negativeSection : Bytes :=
  Wire.uint32 7 ++ (Wire.uint32 7 ++ ([].flatten ++
    ((Utf8.encode "ssh-rsa" :: negativeFields).flatMap Wire.string ++
      (Wire.string [] ++ [1, 2, 3, 4]))))

def negativeEnvelope : Envelope := ⟨"none", Stretching.none, [negativeKey.blob], negativeSection⟩

def negativeFile : Bytes := Envelope.magic ++ negativeEnvelope.fieldBytes []

theorem breaks_negativeSection : PrivateSection.Breaks negativeSection [negativeKey.blob] := by
  refine ⟨7, [], [], "ssh-rsa", negativeFields, Wire.string [] ++ [1, 2, 3, 4], by decide, rfl,
    Nat.succ_pos _, .nil, .nil, by decide, by decide +kernel,
    Int.ofNat (greaterPrime * lesserPrime), 35,
    Int.ofNat (Modular.inverse 35 ((greaterPrime - 1) * (lesserPrime - 1))),
    Int.ofNat (Modular.inverse lesserPrime greaterPrime) - Int.ofNat greaterPrime,
    Int.ofNat greaterPrime, Int.ofNat lesserPrime, by decide +kernel, ?_⟩
  exact ⟨by decide +kernel, by decide +kernel, by decide +kernel, by decide +kernel,
    by decide +kernel⟩

theorem meetsNegativeInverse_negativeFile (passphrase : Datum) :
    MeetsNegativeInverse (.bytes negativeFile) passphrase := by
  have hRead : Envelope.ofBytes negativeFile = .ok negativeEnvelope :=
    Envelope.ofBytes_unsealed (by decide +kernel) (by decide +kernel) (by decide +kernel)
      (by decide +kernel)
  constructor
  · have hName : Packet.parse Packet.readText (negativeEnvelope.publicBlobs.headD []) =
        .ok negativeKey.name := by
      rw [negativeEnvelope, List.headD_cons]
      exact Key.readText_blob negativeKey
    exact ⟨_, Container.identify_raw_yields rfl hRead hName⟩
  · have hMark : Armour.occurs Armour.mark negativeFile = false := by decide +kernel
    exact ⟨negativeFile, negativeEnvelope, negativeSection, Envelope.content_unmarked hMark, hRead,
      Envelope.opens_unsealed (by decide +kernel), breaks_negativeSection⟩

/-- A key file that is not encrypted is refused with a failure that is not reported. -/
theorem loadPrivateKeys_negativeFile :
    (loadPrivateKeys (.bytes negativeFile) (.foreign .nothing)).Fails fun e => ¬e.Reported := by
  intro j
  obtain ⟨j', h⟩ := loadPrivateKeys_of_escapes rfl (.inl rfl)
    (.magnitude (meetsNegativeInverse_negativeFile _)) j
  exact ⟨_, j', h, Error.not_reported _⟩

/-- The file of one key loads, and that of a negative inverse is a mistake. -/
theorem loadPrivateKeys_outcome_p256 : (∀ j, ∃ keys j',
      loadPrivateKeys (.bytes (Envelope.magic ++ (Envelope.plainOf "work").fieldBytes []))
        (.foreign .nothing) j = .ok keys j' ∧ keys ≠ [] ∧ ∀ k ∈ keys, k.canSign = true) ∧
    ∀ j, ∃ j', loadPrivateKeys (.bytes negativeFile) (.foreign .nothing) j =
      .error (.misuse .magnitude) j' := by
  constructor
  · intro j
    have hSize : PrivateSection.size [Envelope.plainKey "work"] CipherSuite.none.blockSize ≤
        Wire.fieldLimit := by
      decide +kernel
    have hMark : ¬Armour.mark <:+: unsealedFile (Envelope.plainKey "work") := by
      rw [← Armour.occurs_iff]
      decide +kernel
    obtain ⟨i, hKeys⟩ := loadPrivateKeys_yields
      (identify_unsealedFile KeyBody.accepted_p256_one hSize rfl) rfl
      (keysIn_unsealedFile KeyBody.accepted_p256_one hSize hMark rfl (.foreign .nothing)) j
    have hData : (Datum.bytes (unsealedFile (Envelope.plainKey "work"))).toBytes =
        .ok (unsealedFile (Envelope.plainKey "work")) := rfl
    rcases (loadPrivateKeys_outcome hData (.inl rfl) j).1 with hFound | ⟨e, j', hError, -⟩
    · exact hFound
    · cases hKeys.symm.trans hError
  · intro j
    exact ((loadPrivateKeys_outcome rfl (.inl rfl) j).2 _
      (.magnitude (meetsNegativeInverse_negativeFile _))).2

end KeyFile
end SshKeys
