import SshKeys.KeyFile
import SshKeys.Proofs.PemText
import SshKeys.Proofs.RawReading
/-!
# Reading a key from a whole file

The container is told twice, once to choose between public and private keys and once more to load;
both times the same one is found, and only records are left behind. So a text in armour, or one with
a PEM block for private keys, is read as its container is loaded.
-/
namespace SshKeys

namespace Action

variable {α β : Type} {x : Action α} {f : α → Action β} {a : α} {b : β} {e : Error}
  {P : Error → Prop}

/-- Whatever the journal, the action ends with a given result. -/
def Yields (x : Action α) (a : α) : Prop := ∀ j, ∃ j', x j = .ok a j'

/-- Whatever the journal, the action fails for a cause with a given property. -/
def Fails (x : Action α) (P : Error → Prop) : Prop := ∀ j, ∃ e j', x j = .error e j' ∧ P e

theorem ofExcept_eq_ok_iff {r : Except Error α} {j j' : Journal} :
    ofExcept r j = .ok a j' ↔ r = .ok a ∧ j = j' := by
  cases r with
  | error e => exact ⟨nofun, fun h => nomatch h.1⟩
  | ok b => simpa [ofExcept] using Stateful.pure_eq_ok_iff

theorem yields_pure (a : α) : Yields (pure a) a := fun j => ⟨j, rfl⟩

theorem yields_log (level : Level) (source : Source) (message : String) :
    Yields (Journal.log level source message) () := fun _ => ⟨_, rfl⟩

theorem yields_ofExcept (a : α) : Yields (ofExcept (.ok a)) a := fun j => ⟨j, rfl⟩

theorem fails_throw (h : P e) : Fails (throw e : Action α) P := fun j => ⟨e, j, rfl, h⟩

theorem fails_ofExcept (h : P e) : Fails (ofExcept (.error e) : Action α) P := fails_throw h

theorem Yields.bind (hx : x.Yields a) (hf : (f a).Yields b) : (x >>= f).Yields b := by
  intro j
  obtain ⟨j₁, hFirst⟩ := hx j
  rw [Stateful.bind_ok hFirst]
  exact hf j₁

theorem Yields.bind_fails (hx : x.Yields a) (hf : (f a).Fails P) : (x >>= f).Fails P := by
  intro j
  obtain ⟨j₁, hFirst⟩ := hx j
  rw [Stateful.bind_ok hFirst]
  exact hf j₁

theorem Fails.bind (hx : x.Fails P) : (x >>= f).Fails P := by
  intro j
  obtain ⟨e, j₁, hFirst, hCause⟩ := hx j
  exact ⟨e, j₁, Stateful.bind_error hFirst, hCause⟩

theorem Yields.map {g : α → β} (hx : x.Yields a) : (g <$> x).Yields (g a) := by
  intro j
  obtain ⟨j₁, hFirst⟩ := hx j
  refine ⟨j₁, ?_⟩
  change EStateM.map g x j = _
  rw [EStateM.map, hFirst]

theorem Fails.map {g : α → β} (hx : x.Fails P) : (g <$> x).Fails P := by
  intro j
  obtain ⟨e, j₁, hFirst, hCause⟩ := hx j
  refine ⟨e, j₁, ?_, hCause⟩
  change EStateM.map g x j = _
  rw [EStateM.map, hFirst]

end Action

namespace Container

variable {s : String} {data : Bytes} {e : Envelope}

theorem not_magic_of_head (h : s.toList.head? ≠ some 'o') : ¬Envelope.magic <+: Utf8.encode s := by
  have hMagic : Envelope.magic = Utf8.encode "openssh-key-v1\x00" := by decide
  rw [hMagic]
  intro hPrefix
  obtain ⟨rest, hText⟩ := Utf8.prefix_of_encode hPrefix
  rw [← hText] at h
  exact h rfl

theorem magic_of_hyphen (h : s.toList.head? = some '-') :
    Envelope.magic.isPrefixOf (Utf8.encode s) = false := by
  rw [Bool.eq_false_iff, ne_eq, List.isPrefixOf_iff_prefix]
  exact not_magic_of_head (by simp [h])

theorem identify_text (h : s.toList.head? = some '-') : identify (.text s) = ofText s := by
  have hBytes : (Datum.text s).toBytes = .ok (Utf8.encode s) := rfl
  funext j
  rw [identify, hBytes, Action.bind_ofExcept_ok, magic_of_hyphen h, if_neg Bool.false_ne_true,
    Utf8.decode?_encode]

theorem identify_pem {kind : PemKind} (hHead : s.toList.head? = some '-')
    (hLabel : PemBlock.labelOfText? s = some kind.label) :
    identify (.text s) = pure (ofKind kind, kind.keyClass?) := by
  have hOther : kind.label ≠ Armour.label := by
    cases kind <;> decide
  have hKind : PemKind.ofLabel? kind.label = some kind := by
    cases kind <;> rfl
  rw [identify_text hHead, ofText, hLabel]
  simp only [if_neg hOther, hKind]

theorem classOfEnvelope_yields (hRead : Envelope.ofBytes data = .ok e) {name : String}
    (hName : Packet.parse Packet.readText (e.publicBlobs.headD []) = .ok name) :
    (classOfEnvelope data).Yields (KeyClass.ofIdentifier? name) := by
  refine Action.Yields.bind (Envelope.load_ok hRead) ?_
  simp only [hName]
  exact Action.yields_pure _

theorem head?_armour (data : Bytes) : (Armour.encode data).toList.head? = some '-' := by
  rw [Armour.encode, Armour.unlines, String.toList_ofList]
  rfl

theorem trimmedLines_armour (data : Bytes) : PemBlock.trimmedLines (Armour.encode data) =
    Armour.beginMarker :: Bytes.chunks Armour.lineWidth (Base64.encode data) ++
      [Armour.endMarker] := by
  rw [PemBlock.trimmedLines, Armour.encode, Armour.unlines, String.toList_ofList,
    Text.map_trim_lines]
  rw [List.cons_append, List.forall_mem_cons, List.forall_mem_append, List.forall_mem_singleton]
  have hLabel : PemBlock.IsLabel Armour.label := by decide
  exact ⟨PemBlock.isTidy_marker "BEGIN" (by decide) hLabel,
    fun _ hLine => Text.isTidy_of_plain (Armour.isPlain_of_mem_line hLine),
    PemBlock.isTidy_marker "END" (by decide) hLabel⟩

theorem identify_armour (data : Bytes) : identify (.text (Armour.encode data)) =
    (do return (openssh, ← classOfEnvelope data)) := by
  have hLabel : PemBlock.labelOfText? (Armour.encode data) = some Armour.label := by
    rw [PemBlock.labelOfText?, trimmedLines_armour, List.cons_append, List.findSome?_cons]
    rfl
  rw [identify_text (head?_armour data), ofText, hLabel]
  simp only [if_true, Armour.decodeText_encode]
  rfl

end Container

namespace PemBlock

theorem head?_render (label : String) (headerLines : List String) (body : Bytes) :
    (render label headerLines body).toList.head? = some '-' := by
  rw [render_eq, String.toList_ofList]
  rfl

theorem ofDatum_text (s : String) : ofDatum (.text s) = ofText s := rfl

theorem kindOf_label (kind : PemKind) (headers : List (String × String)) (body : Bytes) :
    kindOf ⟨kind.label, headers, body⟩ kind.isPublic = .ok kind := by
  cases kind <;> rfl

theorem loadPrivate_render {kind : PemKind} {headerLines : List String}
    {headers : List (String × String)} {body : Bytes} {passphrase : Datum}
    (hHeads : Heads headerLines headers) (hPrivate : kind.isPublic = false) :
    loadPrivate (.text (render kind.label headerLines body)) passphrase = (do
      Journal.log .debug .pem s!"Reading {kind.label} PEM block"
      let key ← readPrivate ⟨kind.label, headers, body⟩ kind passphrase
      Action.ofExcept (do checkKind kind { body := ← key.toBody })) := by
  have hBlock : ofDatum (.text (render kind.label headerLines body)) =
      .ok ⟨kind.label, headers, body⟩ := by
    rw [ofDatum_text, ofText_render (isLabel_of_kind kind) hHeads]
  have hKind := kindOf_label kind headers body
  rw [hPrivate] at hKind
  funext j
  rw [loadPrivate, hBlock, Action.bind_ofExcept_ok]
  rw [hKind, Action.bind_ofExcept_ok]

end PemBlock

namespace Key

theorem readText_blob (k : Key) : Packet.parse Packet.readText k.blob = .ok k.name :=
  Packet.parse_eq_ok_iff.mpr ⟨_, Packet.readText_eq_ok_iff.mpr
    ⟨KeyBody.takes_name k.body, Packet.advance_past rfl⟩⟩

end Key

namespace KeyFile

variable {data passphrase : Datum} {container : Container} {keyClass : Option KeyClass} {key : Key}
  {keys others : List Key} {P : Error → Prop}

theorem serialize_eq (format : Format) (key : Key) (passphrase : Datum) (cipherName : Option String)
    (rounds : Option Int) : serialize key (some format.name) passphrase cipherName rounds =
      serializeAs format key passphrase cipherName rounds := by
  cases format <;> rfl

def keysIn (container : Container) (data passphrase : Datum) : Action (List Key) :=
  if container = .openssh then Envelope.decodeKeys data passphrase
  else (fun key => [key]) <$> PemBlock.loadPrivate data passphrase

theorem loadFrom_eq (hPrivate : container.isPublic = false) :
    loadFrom container data passphrase = (do
      let keys ← keysIn container data passphrase
      Journal.log .debug .file
        s!"Loaded {keys.length} private key(s) from {container.name} data"
      return keys) := by
  rw [loadFrom, if_neg (by simp [hPrivate]), keysIn]
  by_cases hContainer : container = .openssh
  · simp only [if_pos hContainer]
  · simp only [if_neg hContainer]

theorem loadFrom_yields (hPrivate : container.isPublic = false)
    (hKeys : (keysIn container data passphrase).Yields keys) :
    (loadFrom container data passphrase).Yields keys := by
  rw [loadFrom_eq hPrivate]
  exact hKeys.bind ((Action.yields_log _ _ _).bind (Action.yields_pure keys))

theorem loadFrom_fails (hPrivate : container.isPublic = false)
    (hKeys : (keysIn container data passphrase).Fails P) :
    (loadFrom container data passphrase).Fails P := by
  rw [loadFrom_eq hPrivate]
  exact hKeys.bind

theorem parse_eq (data passphrase : Datum) : parse data passphrase = (do
    let found ← Container.identify data
    if found.1.isPublic then Action.ofExcept (parsePublicKey data)
    else parsePrivateKey data passphrase) := rfl

theorem parse_eq_parsePrivateKey (passphrase : Datum)
    (hIdentify : (Container.identify data).Yields (container, keyClass))
    (hPrivate : container.isPublic = false) (j : Journal) :
    ∃ j', parse data passphrase j = parsePrivateKey data passphrase j' := by
  obtain ⟨j', hFound⟩ := hIdentify j
  refine ⟨j', ?_⟩
  rw [parse_eq, Stateful.bind_ok hFound, hPrivate, if_neg Bool.false_ne_true]

theorem loadPrivateKeys_yields (hIdentify : (Container.identify data).Yields (container, keyClass))
    (hPrivate : container.isPublic = false)
    (hKeys : (keysIn container data passphrase).Yields keys) :
    (loadPrivateKeys data passphrase).Yields keys :=
  hIdentify.bind (loadFrom_yields hPrivate hKeys)

theorem loadPrivateKeys_fails (hIdentify : (Container.identify data).Yields (container, keyClass))
    (hPrivate : container.isPublic = false) (hKeys : (keysIn container data passphrase).Fails P) :
    (loadPrivateKeys data passphrase).Fails P :=
  hIdentify.bind_fails (loadFrom_fails hPrivate hKeys)

theorem parse_yields (hIdentify : (Container.identify data).Yields (container, keyClass))
    (hPrivate : container.isPublic = false)
    (hKeys : (keysIn container data passphrase).Yields (key :: others)) :
    (parse data passphrase).Yields key := by
  intro j
  obtain ⟨j₁, hParse⟩ := parse_eq_parsePrivateKey passphrase hIdentify hPrivate j
  rw [hParse]
  refine (loadPrivateKeys_yields hIdentify hPrivate hKeys).bind ?_ j₁
  cases others with
  | nil => exact Action.yields_pure key
  | cons other others => exact (Action.yields_log _ _ _).bind (Action.yields_pure key)

theorem parse_fails (hIdentify : (Container.identify data).Yields (container, keyClass))
    (hPrivate : container.isPublic = false) (hKeys : (keysIn container data passphrase).Fails P) :
    (parse data passphrase).Fails P := by
  intro j
  obtain ⟨j₁, hParse⟩ := parse_eq_parsePrivateKey passphrase hIdentify hPrivate j
  rw [hParse]
  exact (loadPrivateKeys_fails hIdentify hPrivate hKeys).bind j₁

section Pem

variable {kind : PemKind} {headerLines : List String} {headers : List (String × String)}
  {body : Bytes}

theorem isPublic_ofKind (kind : PemKind) : (Container.ofKind kind).isPublic = kind.isPublic := by
  cases kind <;> rfl

theorem keysIn_ofKind (kind : PemKind) :
    keysIn (Container.ofKind kind) data passphrase =
      (fun key => [key]) <$> PemBlock.loadPrivate data passphrase := by
  cases kind <;> rfl

theorem identify_render (hHeads : PemBlock.Heads headerLines headers) (body : Bytes) :
    (Container.identify (.text (PemBlock.render kind.label headerLines body))).Yields
      (Container.ofKind kind, kind.keyClass?) := by
  rw [Container.identify_pem (PemBlock.head?_render _ _ _)
    (PemBlock.labelOfText?_render (PemBlock.isLabel_of_kind kind) hHeads body)]
  exact Action.yields_pure _

theorem parse_render_yields {secret : Der.PrivateKey} {keyBody : KeyBody}
    (hHeads : PemBlock.Heads headerLines headers) (hPrivate : kind.isPublic = false)
    (hRead : (PemBlock.readPrivate ⟨kind.label, headers, body⟩ kind passphrase).Yields secret)
    (hBody : secret.toBody = .ok keyBody) (hKind : kind.admits keyBody.keyClass = true) :
    (parse (.text (PemBlock.render kind.label headerLines body)) passphrase).Yields
      { body := keyBody } := by
  have hChecked : PemBlock.checkKind kind { body := keyBody } = .ok { body := keyBody } :=
    if_pos hKind
  have hKeys : (keysIn (Container.ofKind kind) (.text (PemBlock.render kind.label headerLines body))
      passphrase).Yields [{ body := keyBody }] := by
    rw [keysIn_ofKind, PemBlock.loadPrivate_render hHeads hPrivate]
    refine Action.Yields.map ((Action.yields_log _ _ _).bind (hRead.bind ?_))
    rw [hBody, Fallible.bind_ok, hChecked]
    exact Action.yields_ofExcept _
  exact parse_yields (identify_render hHeads body) ((isPublic_ofKind kind).trans hPrivate) hKeys

theorem parse_render_fails (hHeads : PemBlock.Heads headerLines headers)
    (hPrivate : kind.isPublic = false)
    (hRead : (PemBlock.readPrivate ⟨kind.label, headers, body⟩ kind passphrase).Fails P) :
    (parse (.text (PemBlock.render kind.label headerLines body)) passphrase).Fails P := by
  refine parse_fails (identify_render hHeads body) ((isPublic_ofKind kind).trans hPrivate) ?_
  rw [keysIn_ofKind, PemBlock.loadPrivate_render hHeads hPrivate]
  exact Action.Fails.map ((Action.yields_log _ _ _).bind_fails hRead.bind)

end Pem

section Armour

variable {data : Bytes} {e : Envelope} {name : String}

theorem identify_armour_yields (hRead : Envelope.ofBytes data = .ok e)
    (hName : Packet.parse Packet.readText (e.publicBlobs.headD []) = .ok name) :
    (Container.identify (.text (Armour.encode data))).Yields
      (.openssh, KeyClass.ofIdentifier? name) := by
  rw [Container.identify_armour]
  exact Action.Yields.bind (Container.classOfEnvelope_yields hRead hName) (Action.yields_pure _)

theorem keysIn_armour (data : Bytes) (passphrase : Datum) :
    keysIn .openssh (.text (Armour.encode data)) passphrase = Envelope.unlock data passphrase :=
  funext (Envelope.decodeKeys_armour data passphrase)

theorem parse_armour_yields (hRead : Envelope.ofBytes data = .ok e)
    (hName : Packet.parse Packet.readText (e.publicBlobs.headD []) = .ok name)
    (hKeys : (Envelope.unlock data passphrase).Yields (key :: others)) :
    (parse (.text (Armour.encode data)) passphrase).Yields key := by
  rw [← keysIn_armour] at hKeys
  exact parse_yields (identify_armour_yields hRead hName) rfl hKeys

theorem parse_armour_fails (hRead : Envelope.ofBytes data = .ok e)
    (hName : Packet.parse Packet.readText (e.publicBlobs.headD []) = .ok name)
    (hKeys : (Envelope.unlock data passphrase).Fails P) :
    (parse (.text (Armour.encode data)) passphrase).Fails P := by
  rw [← keysIn_armour] at hKeys
  exact parse_fails (identify_armour_yields hRead hName) rfl hKeys

theorem parse_armour_unread {err : Error} (hRead : Envelope.ofBytes data = .error err)
    (hCause : P err) : (parse (.text (Armour.encode data)) passphrase).Fails P := by
  have hIdentify : (Container.identify (.text (Armour.encode data))).Fails P := by
    rw [Container.identify_armour]
    exact Action.Fails.bind (Action.Fails.bind fun j =>
      ⟨err, j, Envelope.load_error hRead j, hCause⟩)
  exact hIdentify.bind

end Armour

section Unsealed

/-- The bytes of a key file with one key which is not encrypted. -/
def unsealedFile (key : Key) : Bytes := Envelope.magic ++ (Envelope.unsealedOf key).fieldBytes []

variable (hAccepted : key.body.Accepted)
  (hSize : PrivateSection.size [key] CipherSuite.none.blockSize ≤ Wire.fieldLimit)
include hAccepted hSize

theorem unlock_unsealedFile (hComment : key.comment.isSome) (passphrase : Datum) :
    (Envelope.unlock (unsealedFile key) passphrase).Yields [key] := by
  intro j
  obtain ⟨j', hLoad⟩ := Envelope.load_ok (Envelope.ofBytes_unsealedOf hAccepted hSize) j
  refine ⟨j', (Envelope.unlock_eq hLoad).trans ?_⟩
  exact Envelope.decrypt_unsealedOf hAccepted hSize hComment passphrase j'

end Unsealed

section Wrapped

open PrivateSection (size)

variable {suite : CipherSuite} {e : Envelope} {bytes : Bytes}

theorem isSome_privateFields?_of_canSign (hSigns : key.canSign = true) :
    ∀ k ∈ [key], k.body.privateFields?.isSome :=
  List.forall_mem_singleton.mpr ((KeyBody.isSome_privateFields? _).trans hSigns)

theorem name_of_wraps (hWraps : Envelope.Wraps [key] passphrase suite e) :
    Packet.parse Packet.readText (e.publicBlobs.headD []) = .ok key.name := by
  rw [hWraps.blobs]
  exact Key.readText_blob key

theorem ofBytes_of_wraps (hWraps : Envelope.Wraps [key] passphrase suite e)
    (hData : e.toBytes = .ok bytes) (hSigns : key.canSign = true)
    (hRoom : size [key] suite.blockSize ≤ Wire.fieldLimit) : Envelope.ofBytes bytes = .ok e :=
  Envelope.ofBytes_eq_ok_iff.mpr ⟨hWraps.wellFormed,
    (hWraps.within_iff (isSome_privateFields?_of_canSign hSigns)).mpr hRoom, hData⟩

theorem parse_wraps_overflows (hWraps : Envelope.Wraps [key] passphrase suite e)
    (hData : e.toBytes = .ok bytes) (hSigns : key.canSign = true)
    (hLong : Wire.fieldLimit < size [key] suite.blockSize) (given : Datum) :
    (parse (.text (Armour.encode bytes)) given).Fails (·.kind = .reported .lengthOverflow) := by
  obtain ⟨err, hError, hKind⟩ := Envelope.ofBytes_overflows hWraps.wellFormed hData fun hWithin =>
    Nat.not_le.mpr hLong
      ((hWraps.within_iff (isSome_privateFields?_of_canSign hSigns)).mp hWithin)
  exact parse_armour_unread hError hKind

end Wrapped

end KeyFile
end SshKeys
