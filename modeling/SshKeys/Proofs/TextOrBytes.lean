import Mathlib.Data.List.TakeWhile
import SshKeys.Proofs.PrivateLoading
/-!
# Key files given as text and as the UTF-8 bytes of that text

The two are read alike, with one exception: a raw key file whose bytes happen to spell a text is
told as one in either form, but the text is then taken for armour and refused, where the bytes are
read.
-/
namespace SshKeys

namespace Action

variable {α β : Type} {x y : Action α} {f g : α → Action β}

/-- Whatever the journals, both actions give the same, or both fail for the same cause. -/
def EndsAlike (x y : Action α) : Prop :=
  (∃ a, x.Yields a ∧ y.Yields a) ∨ ∃ e, x.Fails (· = e) ∧ y.Fails (· = e)

theorem Settled.endsAlike (h : x.Settled) : x.EndsAlike x := by
  rcases h with ⟨a, hYields⟩ | ⟨e, hFails⟩
  · exact .inl ⟨a, hYields, hYields⟩
  · exact .inr ⟨e, hFails, hFails⟩

theorem Settled.bind_congr (h : x.Settled) (hNext : ∀ a, x.Yields a → f a = g a) :
    x >>= f = x >>= g := by
  funext j
  rcases h with ⟨a, hYields⟩ | ⟨e, hFails⟩
  · obtain ⟨i, hFirst⟩ := hYields j
    rw [Stateful.bind_ok hFirst, Stateful.bind_ok hFirst, hNext a hYields]
  · obtain ⟨_, i, hFirst, -⟩ := hFails j
    rw [Stateful.bind_error hFirst, Stateful.bind_error hFirst]

end Action

open SshKeys.Action

namespace Envelope

theorem settled_decrypt (e : Envelope) (passphrase : Datum) : (e.decrypt passphrase).Settled :=
  (settled_ofExcept _).bind fun suite =>
    (suite.settled_decrypt e.stretching passphrase e.payload).bind fun _ => settled_ofExcept _

theorem settled_unlock (raw : Bytes) (passphrase : Datum) : (unlock raw passphrase).Settled :=
  (settled_load raw).bind fun e => (e.settled_decrypt passphrase).bind fun _ => settled_pure _

theorem settled_decodeKeys (data passphrase : Datum) : (decodeKeys data passphrase).Settled := by
  rw [decodeKeys_eq]
  exact (settled_ofExcept _).bind fun raw => settled_unlock raw passphrase

end Envelope

namespace PemBlock

theorem settled_readPrivate (b : PemBlock) (kind : PemKind) (passphrase : Datum) :
    (b.readPrivate kind passphrase).Settled := by
  by_cases hKind : kind = .encryptedPrivate
  · simp only [readPrivate, if_pos hKind]
    split
    · exact settled_throw _
    · cases passphrase.toBytes with
      | error e => exact settled_throw _
      | ok password => exact settled_ofExcept _
  · simp only [readPrivate, if_neg hKind]
    cases b.header "proc-type" with
    | none => exact settled_ofExcept _
    | some procType =>
      exact (b.settled_decrypt procType passphrase).bind fun _ => settled_ofExcept _

theorem settled_loadPrivate (data passphrase : Datum) : (loadPrivate data passphrase).Settled := by
  refine (settled_ofExcept _).bind fun b => ?_
  refine (settled_ofExcept _).bind fun kind => ?_
  refine (settled_log _ _ _).bind fun _ => ?_
  exact (b.settled_readPrivate kind passphrase).bind fun _ => settled_ofExcept _

end PemBlock

namespace KeyFile

theorem settled_keysIn (container : Container) (data passphrase : Datum) :
    (keysIn container data passphrase).Settled := by
  rw [keysIn]
  split
  · exact Envelope.settled_decodeKeys data passphrase
  · exact (PemBlock.settled_loadPrivate data passphrase).map _

theorem settled_loadFrom (container : Container) (data passphrase : Datum) :
    (loadFrom container data passphrase).Settled := by
  cases hPublic : container.isPublic with
  | true =>
    rw [loadFrom, if_pos hPublic]
    exact settled_throw _
  | false =>
    rw [loadFrom_eq hPublic]
    refine (settled_keysIn container data passphrase).bind fun keys => ?_
    exact (settled_log _ _ _).bind fun _ => settled_pure keys

theorem settled_loadPrivateKeys (data passphrase : Datum) :
    (loadPrivateKeys data passphrase).Settled :=
  (Container.settled_identify data).bind fun found => settled_loadFrom found.1 data passphrase

theorem settled_parsePrivateKey (data passphrase : Datum) :
    (parsePrivateKey data passphrase).Settled := by
  refine (settled_loadPrivateKeys data passphrase).bind fun keys => ?_
  match keys with
  | [] => exact settled_throw _
  | [key] => exact settled_pure key
  | key :: _ :: _ => exact (settled_log _ _ _).bind fun _ => settled_pure key

theorem settled_parse (data passphrase : Datum) : (parse data passphrase).Settled := by
  rw [parse_eq]
  refine (Container.settled_identify data).bind fun found => ?_
  cases found.1.isPublic with
  | true => exact settled_ofExcept _
  | false => exact settled_parsePrivateKey data passphrase

end KeyFile

section Encoded

theorem Utf8.encode_ofList (cs : List Char) :
    encode (String.ofList cs) = cs.flatMap String.utf8EncodeChar := by
  simp [encode, String.toUTF8, List.utf8Encode]

variable (s : String) (passphrase : Datum)

theorem Datum.toText_encode : (Datum.bytes (Utf8.encode s)).toText = .ok s :=
  Datum.toBytes_eq_encode_iff.mp rfl

theorem PemBlock.loadPrivate_encode :
    loadPrivate (.bytes (Utf8.encode s)) passphrase = loadPrivate (.text s) passphrase := by
  rw [loadPrivate, loadPrivate, ofDatum_encode]

theorem Container.identify_encode : identify (.bytes (Utf8.encode s)) = identify (.text s) := rfl

theorem KeyFile.parsePublicKey_encode :
    parsePublicKey (.bytes (Utf8.encode s)) = parsePublicKey (.text s) := by
  have hText : (Datum.text s).toText = .ok s := rfl
  rw [parsePublicKey_of_toText (Datum.toText_encode s), parsePublicKey_of_toText hText,
    PemBlock.loadPublic, PemBlock.loadPublic, PemBlock.ofDatum_encode]

end Encoded

namespace Armour

theorem decodeText_unmarked {s : String} (h : ¬mark <:+: Utf8.encode s) :
    decodeText s = .error .notArmoured := by
  have hLines : (PemBlock.trimmedLines s).dropWhile (· ≠ beginMarker) = [] := by
    rw [List.dropWhile_eq_nil_iff]
    intro line hLine
    rw [decide_eq_true_iff]
    rintro rfl
    exact h (Envelope.mark_infix_of_mem hLine)
  have hBody : body? (PemBlock.trimmedLines s) = none := by
    rw [body?, hLines]
  simp only [decodeText, PemBlock.trimmedLines] at hBody ⊢
  rw [hBody]

end Armour

namespace KeyFile

variable {s : String} {container : Container} {keyClass : Option KeyClass}

/-- The bytes of the text are an envelope whose first public key tells its type, and the begin marker
of armour does not occur in them. -/
structure StandsRaw (s : String) : Prop where
  unmarked : ¬Armour.mark <:+: Utf8.encode s
  told : ∃ e name, Envelope.ofBytes (Utf8.encode s) = .ok e ∧
    Packet.parse Packet.readText (e.publicBlobs.headD []) = .ok name

theorem standsRaw_of_identify {j j' : Journal} (hMark : ¬Armour.mark <:+: Utf8.encode s)
    (h : Container.identify (.text s) j = .ok (.openssh, keyClass) j') : StandsRaw s := by
  have hData : (Datum.text s).toBytes = .ok (Utf8.encode s) := rfl
  -- Behind the magic the text is told by its bytes; otherwise it has the label of armour, hence the
  -- mark.
  by_cases hMagic : Envelope.magic <+: Utf8.encode s
  · rw [Container.identify, hData, Action.bind_ofExcept_ok,
      if_pos (List.isPrefixOf_iff_prefix.mpr hMagic)] at h
    simp only [Container.classOfEnvelope, Stateful.bind_eq_ok_iff, Action.ofExcept_eq_ok_iff] at h
    obtain ⟨_, _, ⟨e, _, hLoad, name, _, ⟨hName, -⟩, -⟩, -⟩ := h
    exact ⟨hMark, e, name, Envelope.ofBytes_of_load hLoad, hName⟩
  · obtain ⟨_, hText, hTold⟩ := Container.identify_told (fun raw hRaw => by
      cases hRaw
      exact hMagic) h
    cases hText
    generalize hContainer : Container.openssh = container at hTold
    cases hTold with
    | line => cases hContainer
    | armour hLabel => exact absurd (Envelope.mark_infix_of_label hLabel) hMark
    | @block kind => cases kind <;> cases hContainer

section Alike

variable (passphrase : Datum)

theorem keysIn_encode (hMark : container = .openssh → Armour.mark <:+: Utf8.encode s) :
    keysIn container (.bytes (Utf8.encode s)) passphrase =
      keysIn container (.text s) passphrase := by
  by_cases hContainer : container = .openssh
  · rw [keysIn, keysIn, if_pos hContainer, if_pos hContainer]
    funext j
    rw [Envelope.decodeKeys_marked (hMark hContainer), Utf8.decode?_encode]
  · rw [keysIn, keysIn, if_neg hContainer, if_neg hContainer, PemBlock.loadPrivate_encode]

theorem loadFrom_encode (hMark : container = .openssh → Armour.mark <:+: Utf8.encode s) :
    loadFrom container (.bytes (Utf8.encode s)) passphrase =
      loadFrom container (.text s) passphrase := by
  cases hPublic : container.isPublic with
  | true =>
    rw [loadFrom, loadFrom, if_pos hPublic, if_pos hPublic]
    rfl
  | false => rw [loadFrom_eq hPublic, loadFrom_eq hPublic, keysIn_encode passphrase hMark]

theorem loadPrivateKeys_encode (h : ¬StandsRaw s) :
    loadPrivateKeys (.bytes (Utf8.encode s)) passphrase =
      loadPrivateKeys (.text s) passphrase := by
  refine (Container.settled_identify (.text s)).bind_congr fun ⟨container, keyClass⟩ hFound => ?_
  refine loadFrom_encode passphrase fun hContainer => ?_
  obtain ⟨_, hTold⟩ := hFound ⟨[], ⟨[], 0⟩, []⟩
  subst hContainer
  by_contra hMark
  exact h (standsRaw_of_identify hMark hTold)

theorem parse_encode (h : ¬StandsRaw s) :
    parse (.bytes (Utf8.encode s)) passphrase = parse (.text s) passphrase := by
  rw [parse, parse, Container.identify_encode, parsePublicKey_encode, parsePrivateKey,
    parsePrivateKey, loadPrivateKeys_encode passphrase h]

end Alike

namespace StandsRaw

variable (h : StandsRaw s)
include h

theorem identify_yields (data : Datum) (hData : data.toBytes = .ok (Utf8.encode s)) :
    ∃ keyClass, (Container.identify data).Yields (.openssh, keyClass) := by
  obtain ⟨e, name, hRead, hName⟩ := h.told
  exact ⟨_, Container.identify_raw_yields hData hRead hName⟩

theorem keysIn_text (passphrase : Datum) :
    (keysIn .openssh (.text s) passphrase).Fails (· = .notArmoured) := by
  have hContent : Envelope.content (.text s) = .error .notArmoured :=
    Armour.decodeText_unmarked h.unmarked
  rw [keysIn, if_pos rfl, Envelope.decodeKeys_eq, hContent]
  exact Fails.bind (fails_ofExcept (P := (· = _)) rfl)

theorem bytes_outcome (passphrase : Datum) :
    (∃ key others, (Envelope.unlock (Utf8.encode s) passphrase).Yields (key :: others) ∧
      (loadPrivateKeys (.bytes (Utf8.encode s)) passphrase).Yields (key :: others) ∧
      (parse (.bytes (Utf8.encode s)) passphrase).Yields key) ∨
    ∃ e, (Envelope.unlock (Utf8.encode s) passphrase).Fails (· = e) ∧
      (loadPrivateKeys (.bytes (Utf8.encode s)) passphrase).Fails (· = e) ∧
      (parse (.bytes (Utf8.encode s)) passphrase).Fails (· = e) := by
  obtain ⟨keyClass, hFound⟩ := h.identify_yields (.bytes (Utf8.encode s)) rfl
  have hKeys := keysIn_raw h.unmarked passphrase
  rcases Envelope.settled_unlock (Utf8.encode s) passphrase with ⟨keys, hYields⟩ | ⟨e, hFails⟩
  · left
    match keys with
    | [] =>
      obtain ⟨e, name, hRead, -⟩ := h.told
      obtain ⟨_, hRun⟩ := hYields ⟨[], ⟨[], 0⟩, []⟩
      exact absurd rfl (Envelope.blobs_of_unlock hRead hRun).2
    | key :: others =>
      have hOpened := hYields
      rw [← hKeys] at hOpened
      exact ⟨key, others, hYields, loadPrivateKeys_yields hFound rfl hOpened,
        parse_yields hFound rfl hOpened⟩
  · right
    have hOpened := hFails
    rw [← hKeys] at hOpened
    exact ⟨e, hFails, loadPrivateKeys_fails hFound rfl hOpened, parse_fails hFound rfl hOpened⟩

end StandsRaw

/-- A text and its bytes hold the same public key and are told as the same container, and the same
private keys are read from them, unless the bytes stand for a raw key file: then the text is refused
as one without armour, and the bytes give what the envelope that they are gives. -/
theorem text_or_bytes (s : String) (passphrase : Datum) :
    parsePublicKey (.bytes (Utf8.encode s)) = parsePublicKey (.text s) ∧
    (Container.identify (.bytes (Utf8.encode s))).EndsAlike (Container.identify (.text s)) ∧
    (¬StandsRaw s →
      (loadPrivateKeys (.bytes (Utf8.encode s)) passphrase).EndsAlike
        (loadPrivateKeys (.text s) passphrase) ∧
      (parse (.bytes (Utf8.encode s)) passphrase).EndsAlike (parse (.text s) passphrase)) ∧
    (StandsRaw s →
      (loadPrivateKeys (.text s) passphrase).Fails (· = .notArmoured) ∧
      (parse (.text s) passphrase).Fails (· = .notArmoured) ∧
      ((∃ key others, (Envelope.unlock (Utf8.encode s) passphrase).Yields (key :: others) ∧
          (loadPrivateKeys (.bytes (Utf8.encode s)) passphrase).Yields (key :: others) ∧
          (parse (.bytes (Utf8.encode s)) passphrase).Yields key) ∨
        ∃ e, (Envelope.unlock (Utf8.encode s) passphrase).Fails (· = e) ∧
          (loadPrivateKeys (.bytes (Utf8.encode s)) passphrase).Fails (· = e) ∧
          (parse (.bytes (Utf8.encode s)) passphrase).Fails (· = e))) := by
  refine ⟨parsePublicKey_encode s, (Container.settled_identify (.text s)).endsAlike,
    fun hOther => ⟨?_, ?_⟩, fun hRaw => ?_⟩
  · rw [loadPrivateKeys_encode passphrase hOther]
    exact (settled_loadPrivateKeys (.text s) passphrase).endsAlike
  · rw [parse_encode passphrase hOther]
    exact (settled_parse (.text s) passphrase).endsAlike
  · obtain ⟨keyClass, hFound⟩ := hRaw.identify_yields (.text s) rfl
    have hKeys := hRaw.keysIn_text passphrase
    exact ⟨loadPrivateKeys_fails hFound rfl hKeys, parse_fails hFound rfl hKeys,
      hRaw.bytes_outcome passphrase⟩

/-- A DSA key of numbers that are mostly zero bytes. -/
def zeroPaddedKey : Key :=
  ⟨.dsa ⟨0xC280 * 2 ^ 2032 + 4155, 0xC280 * 2 ^ 144 + 109, 2, 2, some 1⟩, some "work"⟩

theorem accepted_zeroPaddedKey : zeroPaddedKey.body.Accepted :=
  KeyBody.accepted_dsa_iff.mpr ⟨1, rfl, by decide +kernel, by decide +kernel, by decide +kernel,
    by decide +kernel⟩

theorem size_zeroPaddedKey :
    PrivateSection.size [zeroPaddedKey] CipherSuite.none.blockSize ≤ Wire.fieldLimit := by
  decide +kernel

/-- The text that its key file spells: every byte is a character, but the two that open a number. -/
def spelledFile : String :=
  String.ofList (((unsealedFile zeroPaddedKey).filter (· ≠ 0xC2)).map fun b => Char.ofNat b.toNat)

theorem encode_spelledFile : Utf8.encode spelledFile = unsealedFile zeroPaddedKey := by
  rw [spelledFile, Utf8.encode_ofList]
  decide +kernel

theorem standsRaw_spelledFile : StandsRaw spelledFile := by
  have hMark : ¬Armour.mark <:+: Utf8.encode spelledFile := by
    rw [encode_spelledFile, ← Armour.occurs_iff]
    decide +kernel
  have hRead := Envelope.ofBytes_unsealedOf accepted_zeroPaddedKey size_zeroPaddedKey
  rw [← unsealedFile, ← encode_spelledFile] at hRead
  exact ⟨hMark, _, _, hRead, Key.readText_blob zeroPaddedKey⟩

theorem parse_spelledFile :
    (parse (.bytes (Utf8.encode spelledFile)) (.text "")).Yields zeroPaddedKey ∧
      (parse (.text spelledFile) (.text "")).Fails (· = .notArmoured) := by
  have hRaw := standsRaw_spelledFile
  have hMark := hRaw.unmarked
  obtain ⟨keyClass, hFound⟩ := hRaw.identify_yields (.text spelledFile) rfl
  refine ⟨?_, parse_fails hFound rfl (hRaw.keysIn_text _)⟩
  rw [encode_spelledFile] at hMark ⊢
  exact parse_yields (identify_unsealedFile accepted_zeroPaddedKey size_zeroPaddedKey rfl) rfl
    (keysIn_unsealedFile accepted_zeroPaddedKey size_zeroPaddedKey hMark rfl _)

/-- That text stands raw, and a text in armour does not. -/
theorem text_or_bytes_spelledFile :
    (loadPrivateKeys (.text spelledFile) (.text "")).Fails (· = .notArmoured) ∧
      ∀ key : Key,
        (parse (.bytes (Utf8.encode (Armour.encode (unsealedFile key)))) (.text "")).EndsAlike
          (parse (.text (Armour.encode (unsealedFile key))) (.text "")) := by
  constructor
  · obtain ⟨-, -, -, hRefused⟩ := text_or_bytes spelledFile (.text "")
    exact (hRefused standsRaw_spelledFile).1
  · intro key
    obtain ⟨-, -, hAlike, -⟩ := text_or_bytes (Armour.encode (unsealedFile key)) (.text "")
    exact (hAlike fun hRaw => hRaw.unmarked (Armour.mark_infix_encode _)).2

end KeyFile
end SshKeys
