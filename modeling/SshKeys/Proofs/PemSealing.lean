import SshKeys.Proofs.DerKey
import SshKeys.Proofs.FileReading
import SshKeys.Proofs.PemHeaders
import SshKeys.Proofs.Sealing
/-!
# Keys in PEM blocks under a passphrase

Padding is taken off again, a chained cipher opens what it sealed, and so an encrypted body gives
back the key in it, whether the headers of the block tell how it is encrypted or the data does
itself.
-/
namespace SshKeys

namespace Padding

variable {blockSize : Nat}

theorem length_add (text : Bytes) :
    (add blockSize text).length = text.length + (blockSize - text.length % blockSize) := by
  rw [add, List.length_append, List.length_replicate]

theorem length_add_mod (hSize : 0 < blockSize) (text : Bytes) :
    (add blockSize text).length % blockSize = 0 := by
  have hRest := Nat.mod_lt text.length hSize
  have hWhole := Nat.div_add_mod text.length blockSize
  have hSum : text.length + (blockSize - text.length % blockSize) =
      blockSize * (text.length / blockSize + 1) := by
    rw [Nat.mul_succ]
    omega
  rw [length_add, hSum, Nat.mul_mod_right]

theorem remove?_add (hSize : 0 < blockSize) (hByte : blockSize < 256) (text : Bytes) :
    remove? blockSize (add blockSize text) = some text := by
  have hRest := Nat.mod_lt text.length hSize
  obtain ⟨count, hCount⟩ : ∃ count, count = blockSize - text.length % blockSize := ⟨_, rfl⟩
  have hAdd : add blockSize text = text ++ List.replicate count (UInt8.ofNat count) := by
    rw [hCount, add]
  have hLast : (add blockSize text).getLast? = some (UInt8.ofNat count) := by
    rw [hAdd, List.getLast?_append, List.getLast?_replicate, if_neg (by omega)]
    rfl
  have hValue : (UInt8.ofNat count).toNat = count := by
    rw [UInt8.toNat_ofNat']
    omega
  have hText : (add blockSize text).length - count = text.length := by
    rw [length_add]
    omega
  rw [remove?, hLast]
  simp only [hValue, hText]
  rw [if_pos, hAdd, List.take_left]
  refine ⟨length_add_mod hSize text, by omega, by omega, by rw [length_add]; omega, ?_⟩
  rw [hAdd, List.drop_left]
  simp

end Padding

namespace BlockCipher

variable {c : BlockCipher} {iv : Bytes}

theorem openText?_sealText (h : c.Lawful) (hByte : c.blockSize < 256)
    (hIv : iv.length = c.blockSize) (text : Bytes) :
    (c.sealText iv text).length = (Padding.add c.blockSize text).length ∧
      c.openText? iv (c.sealText iv text) = some text := by
  have hWhole := Padding.length_add_mod h.positive text
  obtain ⟨hLength, hOpened⟩ := BlockMode.cbc.decrypt_encrypt h hIv hWhole
  refine ⟨hLength, ?_⟩
  change (if (BlockMode.cbc.encrypt c iv _).length % c.blockSize = 0 then
    Padding.remove? c.blockSize (BlockMode.cbc.decrypt c iv (BlockMode.cbc.encrypt c iv _))
    else none) = _
  rw [hLength, if_pos hWhole, hOpened, Padding.remove?_add h.positive hByte]

end BlockCipher

namespace ChainedCipher

theorem blockSize_under (cipher : ChainedCipher) (key : Bytes) :
    (cipher.under key).blockSize = cipher.blockSize := cipher.algorithm.blockSize_under key

theorem openText?_sealText (cipher : ChainedCipher) (key : Bytes) {iv : Bytes}
    (hIv : iv.length = cipher.blockSize) (text : Bytes) :
    ((cipher.under key).sealText iv text).length = (Padding.add cipher.blockSize text).length ∧
      (cipher.under key).openText? iv ((cipher.under key).sealText iv text) = some text := by
  have hBlock := cipher.blockSize_under key
  have hByte : (cipher.under key).blockSize < 256 := by
    rw [hBlock]
    cases cipher <;> decide
  rw [← hBlock] at hIv ⊢
  exact BlockCipher.openText?_sealText (cipher.algorithm.lawful_under key) hByte hIv text

end ChainedCipher

namespace Sha256

theorem length_digest (message : Bytes) : (digest message).length = 32 := rfl

end Sha256

namespace Entropy

theorem length_digests (blocks : Nat) (acc : Bytes) (e : Entropy) :
    (digests blocks acc e).1.length = acc.length + 32 * blocks := by
  induction blocks generalizing acc e with
  | zero => rfl
  | succ blocks ih =>
    rw [digests, ih, List.length_append, Sha256.length_digest]
    omega

theorem length_draw (size : Nat) (e : Entropy) : (e.draw size).1.length = size := by
  change ((digests ((size + 31) / 32) [] e).1.take size).length = size
  rw [List.length_take, length_digests, List.length_nil]
  omega

end Entropy

namespace Journal

theorem drawEndless_eq_ok (count : Nat) (j : Journal) :
    ∃ bs j', drawEndless count j = .ok bs j' ∧ bs.length = count :=
  ⟨_, _, rfl, j.entropy.length_draw count⟩

end Journal

namespace Der

open Element

theorem Element.within_sequence {items : List Element} {k m : Nat} (hSmall : 8 ≤ k)
    (hLimit : k ≤ 1016) (hItems : ∀ e ∈ items, Within k e) (hCount : items.length ≤ 2 ^ m) :
    Within (k + m + 1) (sequence items) := within_ofItems hSmall hLimit hItems hCount

theorem Element.within_algorithm (arcs : List Nat) {parameter : Element} {k : Nat}
    (hArcs : IsIdentifier arcs) (hIdentifier : Within 8 (.identifier arcs)) (hSmall : 8 ≤ k)
    (hLimit : k ≤ 1014) (h : Within k parameter) :
    Within (k + 2) (.algorithm arcs [parameter]) ∧
      (algorithm arcs [parameter]).algorithm? = some (arcs, some parameter) := by
  have hItems : ∀ e ∈ [.identifier arcs, parameter], Within k e :=
    List.forall_mem_cons.mpr ⟨hIdentifier.mono hSmall, List.forall_mem_singleton.mpr h⟩
  exact ⟨within_ofItems (m := 1) hSmall (by omega) hItems le_rfl,
    algorithm?_algorithm hArcs (hIdentifier.fits (by decide))
      (List.forall_mem_singleton.mpr (h.fits (by omega))) le_rfl⟩

namespace Stretcher

/-- How the password is stretched for a key that is written. -/
def writtenElement (salt : Bytes) : Element :=
  .algorithm Identifier.pbkdf2
    [.sequence [.octets salt, .natural PrivateKey.writtenRounds, keyedHash .sha256]]

theorem ofElement?_writtenElement {salt : Bytes} (hSalt : salt.length = 16) :
    Within 13 (writtenElement salt) ∧ ofElement? (writtenElement salt) =
      some (pbkdf2 (some .sha256) salt PrivateKey.writtenRounds) := by
  have hItems : ∀ e ∈ [octets salt, natural PrivateKey.writtenRounds, keyedHash .sha256],
      Within 8 e := by
    have hOctets : Within 8 (octets salt) := by
      rw [Within, octets, hSalt]
      decide
    simp only [List.forall_mem_cons]
    exact ⟨hOctets, by decide, by decide +kernel, List.forall_mem_nil _⟩
  have hLegible := legible_of_within (m := 2) (by decide) hItems (by simp) (by decide)
  have hRead : readPbkdf2? (sequence [octets salt, natural PrivateKey.writtenRounds,
      keyedHash .sha256]) = some (pbkdf2 (some .sha256) salt PrivateKey.writtenRounds) := by
    rw [readPbkdf2?, hLegible.sequence?]
    rfl
  obtain ⟨hWithin, hAlgorithm⟩ := within_algorithm Identifier.pbkdf2
    ⟨by decide, by decide⟩ (by decide +kernel) (by decide) (by decide)
    (within_sequence (m := 2) (by decide) (by decide) hItems (by simp))
  refine ⟨hWithin, ?_⟩
  rw [ofElement?, writtenElement, hAlgorithm]
  exact hRead

end Stretcher

namespace Scheme

/-- How a key is encrypted that is written. -/
def writtenElement (salt iv : Bytes) : Element :=
  .algorithm Identifier.pbes2
    [.sequence [Stretcher.writtenElement salt,
      .algorithm (Identifier.cipher .aes256) [.octets iv]]]

variable {salt iv : Bytes}

theorem readCipher?_aes256 (hIv : iv.length = 16) :
    Within 10 (algorithm (Identifier.cipher .aes256) [octets iv]) ∧
      readCipher? (algorithm (Identifier.cipher .aes256) [octets iv]) =
        some (some (.aes256, iv)) := by
  have hOctets : Within 8 (octets iv) := by
    rw [Within, octets, hIv]
    decide
  obtain ⟨hWithin, hAlgorithm⟩ := within_algorithm (Identifier.cipher .aes256)
    ⟨by decide, by decide⟩ (by decide +kernel) (by decide) (by decide) hOctets
  refine ⟨hWithin, ?_⟩
  rw [readCipher?, hAlgorithm]
  exact if_pos hIv

theorem ofElement?_writtenElement (hSalt : salt.length = 16) (hIv : iv.length = 16) :
    Within 17 (writtenElement salt iv) ∧ ofElement? (writtenElement salt iv) =
      some (chained (.pbkdf2 (some .sha256) salt PrivateKey.writtenRounds) .aes256 iv) := by
  obtain ⟨hStretcher, hReadStretcher⟩ := Stretcher.ofElement?_writtenElement hSalt
  obtain ⟨hCipher, hReadCipher⟩ := readCipher?_aes256 hIv
  have hItems : ∀ e ∈ [Stretcher.writtenElement salt,
      algorithm (Identifier.cipher .aes256) [octets iv]], Within 13 e := by
    simp only [List.forall_mem_cons]
    exact ⟨hStretcher, hCipher.mono (by decide), nofun⟩
  have hLegible := legible_of_within (m := 1) (by decide) hItems le_rfl (by decide)
  have hRead : readChained? (sequence [Stretcher.writtenElement salt,
      algorithm (Identifier.cipher .aes256) [octets iv]]) =
      some (chained (.pbkdf2 (some .sha256) salt PrivateKey.writtenRounds) .aes256 iv) := by
    rw [readChained?, hLegible.sequence?]
    simp only [Option.bind_eq_bind, Option.bind_some, hReadStretcher, hReadCipher]
    rfl
  obtain ⟨hWithin, hAlgorithm⟩ := within_algorithm Identifier.pbes2
    ⟨by decide, by decide⟩ (by decide +kernel) (by decide) (by decide)
    (within_sequence (m := 1) (by decide) (by decide) hItems le_rfl)
  refine ⟨hWithin, ?_⟩
  rw [ofElement?, writtenElement, hAlgorithm]
  simp only [Option.bind_eq_bind, Option.bind_some, if_true]
  exact hRead

theorem within_sealed {e : Element} {cipher : ChainedCipher} {key : Bytes} {k : Nat}
    (hSmall : 8 ≤ k) (hLimit : k ≤ 1016) (hIv : iv.length = cipher.blockSize) (h : Within k e) :
    Within (k + 1) (octets ((cipher.under key).sealText iv e.toBytes)) := by
  have hOctets := length_toBytes_le h hLimit
  have hLength := (cipher.openText?_sealText key hIv e.toBytes).1
  have hBlock : cipher.blockSize ≤ 16 := by
    cases cipher <;> decide
  have hRoom : 2 ^ 8 ≤ 2 ^ k := Nat.pow_le_pow_right (by decide) hSmall
  rw [Padding.length_add] at hLength
  rw [Within, octets, Nat.pow_succ]
  simp only
  omega

theorem decrypt_written (password salt iv text : Bytes) :
    (chained (.pbkdf2 (some .sha256) salt PrivateKey.writtenRounds) .aes256 iv).decrypt password
      text = Reading.expect ((ChainedCipher.aes256.under (Stretch.pbkdf2 .sha256 password salt
        PrivateKey.writtenRounds 32)).openText? iv text) := rfl

end Scheme

namespace PrivateKey

variable {bs : Bytes} {key : PrivateKey}

theorem read_none (h : readPlain bs = .ok key) : read none bs = .ok key := by
  rw [read, h]
  rfl

theorem readPlain_malformed {scheme : Element} (hTag : scheme.tag ≠ 0x02) (text : Bytes)
    (h : Legible [scheme, octets text]) :
    readPlain (sequence [scheme, octets text]).toBytes = .error .malformed := by
  have hNumbers : readNaturals (sequence [scheme, octets text]).toBytes = .error .malformed :=
    readNaturals_malformed h ⟨octets text, by simp, natural?_octets text⟩
  have hElliptic : readElliptic none (sequence [scheme, octets text]).toBytes =
      .error .malformed := by
    have hVersion : (scheme == natural 1) = false := by
      rw [beq_eq_false_iff_ne]
      rintro rfl
      exact hTag rfl
    rw [readElliptic, h.ofBytes?]
    change (Reading.expect (sequence _).sequence? >>= _) = _
    rw [h.sequence?]
    change (Reading.require (scheme == natural 1) >>= _) = _
    rw [hVersion]
    rfl
  have hDsa : readDsa (sequence [scheme, octets text]).toBytes = .error .malformed := by
    rw [readDsa, hNumbers]
    rfl
  rw [readPlain, readAny_malformed h tag_octets_ne, readRsa_malformed (.inl hNumbers), hElliptic,
    hDsa]
  rfl

theorem readEncrypted_sequence {element : Element} {scheme : Scheme} {password text : Bytes}
    (h : Legible [element, octets text]) (hScheme : Scheme.ofElement? element = some scheme) :
    readEncrypted (some password) (sequence [element, octets text]).toBytes =
      scheme.decrypt password text >>= readAny := by
  rw [readEncrypted, h.ofBytes?]
  change (Reading.expect (sequence _).sequence? >>= _) = _
  rw [h.sequence?]
  change (Reading.expect (Scheme.ofElement? element) >>= _) = _
  rw [hScheme]
  rfl

theorem read_encrypted {e : Element} (password : Bytes) (hWithin : Within 1009 e)
    (hRead : readAny e.toBytes = .ok key) (j : Journal) :
    ∃ written j', encrypted password e j = .ok written j' ∧
      read (some password) written.toBytes = .ok key := by
  obtain ⟨salt, j₁, hSalt, hSaltLength⟩ := Journal.drawEndless_eq_ok 16 j
  obtain ⟨iv, j', hIv, hIvLength⟩ := Journal.drawEndless_eq_ok 16 j₁
  let stretched := Stretch.pbkdf2 .sha256 password salt writtenRounds 32
  let text := (ChainedCipher.aes256.under stretched).sealText iv e.toBytes
  obtain ⟨hLength, hOpened⟩ := ChainedCipher.aes256.openText?_sealText stretched hIvLength e.toBytes
  obtain ⟨hScheme, hReadScheme⟩ := Scheme.ofElement?_writtenElement hSaltLength hIvLength
  have hText : Within 1010 (octets text) :=
    Scheme.within_sealed (by decide) (by decide) hIvLength hWithin
  have hLegible : Legible [Scheme.writtenElement salt iv, octets text] := by
    refine legible_of_within (k := 1010) (m := 1) (by decide) ?_ le_rfl (by decide)
    simp only [List.forall_mem_cons]
    exact ⟨hScheme.mono (by decide), hText, nofun⟩
  refine ⟨sequence [Scheme.writtenElement salt iv, octets text], j', ?_, ?_⟩
  · rw [encrypted, Stateful.bind_ok hSalt, Stateful.bind_ok hIv]
    rfl
  · have hTag : (Scheme.writtenElement salt iv).tag ≠ 0x02 :=
      show (0x30 : UInt8) ≠ 0x02 by decide
    -- the password is only turned to when no plain form fits
    rw [read, readPlain_malformed hTag text hLegible]
    refine (readEncrypted_sequence hLegible hReadScheme).trans ?_
    rw [Scheme.decrypt_written, hOpened]
    exact hRead

end PrivateKey
end Der

namespace PemBlock

variable {passphrase : Datum} {cipher : ChainedCipher} {iv : Bytes}

theorem cipherFor_eq_ok (cipher : ChainedCipher) (iv : Bytes) (hSecret : passphrase.IsSecret) :
    ∃ key, cipherFor cipher iv passphrase = .ok (cipher.under key) := by
  obtain ⟨-, password, hPassword⟩ := hSecret
  rw [cipherFor, hPassword]
  exact ⟨_, rfl⟩

theorem renderEncrypted_eq (label : String) (body : Bytes) (cipher : ChainedCipher)
    (hSecret : passphrase.IsSecret) (j : Journal) :
    ∃ iv key j', iv.length = cipher.blockSize ∧
      cipherFor cipher iv passphrase = .ok (cipher.under key) ∧
      renderEncrypted label body passphrase (some cipher.headerName) j =
        .ok (render label (encryptedLines cipher iv) ((cipher.under key).sealText iv body)) j' := by
  obtain ⟨iv, j', hDraw, hLength⟩ := Journal.draw_eq_ok cipher.blockSize j
  obtain ⟨key, hKey⟩ := cipherFor_eq_ok cipher iv hSecret
  refine ⟨iv, key, j', hLength, hKey, ?_⟩
  rw [renderEncrypted, cipher.ofHeaderName_headerName, Action.bind_ofExcept_ok,
    Stateful.bind_ok hDraw, hKey]
  simp only [encryptedLines, cipherValue, String.append_assoc]
  rfl

theorem decrypt_sealed {label : String} {key plain : Bytes} (hIv : iv.length = cipher.blockSize)
    (hKey : cipherFor cipher iv passphrase = .ok (cipher.under key))
    (hSecret : passphrase.IsSecret) :
    (decrypt ⟨label, [("proc-type", encryptedMark), ("dek-info", cipherValue cipher iv)],
      (cipher.under key).sealText iv plain⟩ encryptedMark passphrase).Yields plain := by
  obtain ⟨hLength, hOpened⟩ := cipher.openText?_sealText key hIv plain
  have hPositive : 0 < cipher.blockSize := by
    cases cipher <;> decide
  have hWhole := Padding.length_add_mod hPositive plain
  have hBody : ((cipher.under key).sealText iv plain).isEmpty = false := by
    have hRest := Nat.mod_lt plain.length hPositive
    rw [List.isEmpty_eq_false_iff, ← List.length_pos_iff, hLength, Padding.length_add]
    omega
  have hHeaders : checkHeaders ⟨label, [("proc-type", encryptedMark),
      ("dek-info", cipherValue cipher iv)], (cipher.under key).sealText iv plain⟩ encryptedMark
      passphrase = .ok (cipher, iv) := by
    rw [checkHeaders, if_neg (not_not_intro rfl)]
    beta_reduce
    rw [cipherHeader_encrypted rfl, Fallible.bind_ok]
    simp only [hSecret.1, readIv_encodeUpper hIv, hBody, hLength, hWhole]
    rfl
  rw [decrypt, hHeaders]
  refine Action.Yields.bind (Action.yields_ofExcept _) ((Action.yields_log _ _ _).bind ?_)
  simp only [hKey]
  refine Action.Yields.bind (Action.yields_ofExcept _) ?_
  rw [hOpened]
  exact Action.yields_pure plain

theorem readPrivate_plain {kind : PemKind} {bs : Bytes} {key : Der.PrivateKey}
    (hKind : kind ≠ .encryptedPrivate) (hRead : Der.PrivateKey.readPlain bs = .ok key) :
    (readPrivate ⟨kind.label, [], bs⟩ kind passphrase).Yields key := by
  rw [readPrivate, if_neg hKind]
  change (Action.ofExcept ((Der.PrivateKey.read none bs).mapError _)).Yields key
  rw [Der.PrivateKey.read_none hRead]
  exact Action.yields_ofExcept key

theorem readPrivate_sealed {kind : PemKind} {bs stretched : Bytes} {key : Der.PrivateKey}
    (hKind : kind ≠ .encryptedPrivate) (hRead : Der.PrivateKey.readPlain bs = .ok key)
    (hIv : iv.length = cipher.blockSize)
    (hStretched : cipherFor cipher iv passphrase = .ok (cipher.under stretched))
    (hSecret : passphrase.IsSecret) :
    (readPrivate ⟨kind.label, [("proc-type", encryptedMark), ("dek-info", cipherValue cipher iv)],
      (cipher.under stretched).sealText iv bs⟩ kind passphrase).Yields key := by
  rw [readPrivate, if_neg hKind]
  refine Action.Yields.bind (decrypt_sealed hIv hStretched hSecret) ?_
  rw [Der.PrivateKey.read_none hRead]
  exact Action.yields_ofExcept key

theorem readPrivate_encrypted {bs password : Bytes} {key : Der.PrivateKey}
    (hSome : passphrase.isEmpty = false) (hPassword : passphrase.toBytes = .ok password)
    (hRead : Der.PrivateKey.read (some password) bs = .ok key) :
    (readPrivate ⟨PemKind.encryptedPrivate.label, [], bs⟩ .encryptedPrivate passphrase).Yields
      key := by
  rw [readPrivate, if_pos rfl, if_neg (by simp [hSome])]
  simp only [hPassword, hRead]
  exact Action.yields_ofExcept key

end PemBlock
end SshKeys
