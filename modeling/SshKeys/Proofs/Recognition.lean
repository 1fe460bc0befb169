import SshKeys.Proofs.LoadedKey
/-!
# Telling the container of a file, and reading the file

The container is told from the first begin line of a text, or from its first key line where it has
no begin line; the readers look for their block or their line themselves. On data without the magic
text they come to the same block and the same line, so a key is of the class that was told, and it
can sign exactly if the container was not told to be public. Telling is the first step of reading,
hence its failures are failures of reading.
-/
namespace SshKeys

namespace Action

variable {α β : Type} {x : Action α} {f : α → Action β} {a : α} {e : Error} {j j' : Journal}

/-- The action ends in one way, whatever the journal. -/
def Settled (x : Action α) : Prop := (∃ a, x.Yields a) ∨ ∃ e, x.Fails (· = e)

theorem settled_pure (a : α) : Settled (pure a) := .inl ⟨a, yields_pure a⟩

theorem settled_throw (e : Error) : Settled (throw e : Action α) := .inr ⟨e, fails_throw rfl⟩

theorem settled_ofExcept (r : Except Error α) : Settled (ofExcept r) := by
  cases r with
  | error e => exact settled_throw e
  | ok a => exact settled_pure a

theorem settled_log (level : Level) (source : Source) (message : String) :
    Settled (Journal.log level source message) :=
  .inl ⟨(), yields_log level source message⟩

theorem Settled.bind (hx : x.Settled) (hf : ∀ a, (f a).Settled) : (x >>= f).Settled := by
  rcases hx with ⟨a, hYields⟩ | ⟨e, hFails⟩
  · rcases hf a with ⟨b, hNext⟩ | ⟨e, hNext⟩
    · exact .inl ⟨b, hYields.bind hNext⟩
    · exact .inr ⟨e, hYields.bind_fails hNext⟩
  · exact .inr ⟨e, hFails.bind⟩

theorem Settled.map (hx : x.Settled) (g : α → β) : (g <$> x).Settled := by
  rcases hx with ⟨a, hYields⟩ | ⟨e, hFails⟩
  · exact .inl ⟨g a, hYields.map⟩
  · exact .inr ⟨e, hFails.map⟩

theorem Settled.yields (hx : x.Settled) (h : x j = .ok a j') : x.Yields a := by
  rcases hx with ⟨b, hYields⟩ | ⟨e, hFails⟩
  · obtain ⟨_, hEnd⟩ := hYields j
    rw [hEnd] at h
    cases h
    exact hYields
  · obtain ⟨_, _, hEnd, -⟩ := hFails j
    rw [hEnd] at h
    cases h

theorem Settled.fails (hx : x.Settled) (h : x j = .error e j') : x.Fails (· = e) := by
  rcases hx with ⟨b, hYields⟩ | ⟨e', hFails⟩
  · obtain ⟨_, hEnd⟩ := hYields j
    rw [hEnd] at h
    cases h
  · obtain ⟨_, _, hEnd, rfl⟩ := hFails j
    rw [hEnd] at h
    cases h
    exact hFails

end Action

namespace Text

/-- Every line is a piece of the text, or one of those finished before. -/
theorem infix_of_mem_linesFrom {line cs l : List Char} {finished : List (List Char)}
    (h : l ∈ linesFrom line finished cs) : l ∈ finished ∨ l <:+: line.reverse ++ cs := by
  -- the end of the text, a line end of two characters, one of one, and any other character
  induction line, finished, cs using linesFrom.induct with
  | case1 line finished =>
    rw [linesFrom, List.mem_reverse] at h
    split at h
    · exact .inl h
    · rw [List.append_nil]
      rcases List.mem_cons.mp h with rfl | h
      · exact .inr List.infix_rfl
      · exact .inl h
  | case2 line finished rest ih =>
    rw [linesFrom] at h
    rcases ih h with h | h
    · rcases List.mem_cons.mp h with rfl | h
      · exact .inr (List.prefix_append _ _).isInfix
      · exact .inl h
    · exact .inr (h.trans (List.suffix_append_of_suffix
        ((List.suffix_cons _ _).trans (List.suffix_cons _ _))).isInfix)
  | case3 line finished c rest hOther hEnd ih =>
    rw [linesFrom, if_pos hEnd] at h
    · rcases ih h with h | h
      · rcases List.mem_cons.mp h with rfl | h
        · exact .inr (List.prefix_append _ _).isInfix
        · exact .inl h
      · exact .inr (h.trans (List.suffix_append_of_suffix (List.suffix_cons _ _)).isInfix)
    · exact hOther
  | case4 line finished c rest hOther hEnd ih =>
    rw [linesFrom, if_neg hEnd] at h
    · rcases ih h with h | h
      · exact .inl h
      · rw [List.reverse_cons, List.append_assoc] at h
        exact .inr h
    · exact hOther

theorem infix_of_mem_lines {cs l : List Char} (h : l ∈ lines cs) : l <:+: cs := by
  rcases infix_of_mem_linesFrom h with h | h
  · cases h
  · exact h

theorem trim_infix (cs : List Char) : trim cs <:+: cs := by
  have hEnd : ∀ ds : List Char, trimEnd ds <+: ds := by
    intro ds
    rw [trimEnd, ← List.reverse_suffix, List.reverse_reverse]
    exact List.dropWhile_suffix _
  exact (hEnd _).isInfix.trans (List.dropWhile_suffix _).isInfix

end Text

theorem Utf8.encode_infix {cs ds : List Char} (h : cs <:+: ds) :
    encode (String.ofList cs) <:+: encode (String.ofList ds) := by
  obtain ⟨before, after, rfl⟩ := h
  rw [String.ofList_append, String.ofList_append, encode_append, encode_append]
  exact ⟨_, _, rfl⟩

theorem Datum.toTextOr_eq_ok_iff {data : Datum} {cause : Error} {s : String} :
    data.toTextOr cause = .ok s ↔ data.toText = .ok s := by
  cases data with
  | text t => exact Iff.rfl
  | bytes bs =>
    rw [toTextOr, toText]
    cases Utf8.decode? bs with
    | none =>
      constructor
      · intro h
        cases h
      · intro h
        cases h
    | some t => exact Iff.rfl
  | foreign value => exact Iff.rfl

theorem Datum.toBytes_eq_encode_iff {data : Datum} {s : String} :
    data.toBytes = .ok (Utf8.encode s) ↔ data.toText = .ok s := by
  cases data with
  | text t =>
    rw [toBytes, toText, Except.ok.injEq, Except.ok.injEq]
    refine ⟨fun h => ?_, congrArg Utf8.encode⟩
    have hRead := Utf8.decode?_encode t
    rw [h, Utf8.decode?_encode] at hRead
    exact (Option.some.inj hRead).symm
  | bytes bs =>
    rw [toBytes, toText, Except.ok.injEq]
    constructor
    · rintro rfl
      rw [Utf8.decode?_encode]
    · intro h
      split at h
      · rename_i t hDecoded
        cases h
        exact Utf8.eq_encode_of_decode? hDecoded
      · cases h
  | foreign value => exact ⟨nofun, nofun⟩

namespace PemKind

theorem ofLabel?_eq_some_iff {label : String} {kind : PemKind} :
    ofLabel? label = some kind ↔ kind.label = label := by
  constructor
  · intro h
    simpa using List.find?_some h
  · rintro rfl
    cases kind <;> rfl

theorem label_inj {kind other : PemKind} (h : kind.label = other.label) : kind = other :=
  Option.some.inj ((ofLabel?_eq_some_iff.mpr rfl).symm.trans (ofLabel?_eq_some_iff.mpr h.symm))

theorem admits_iff {kind : PemKind} {keyClass : KeyClass} :
    kind.admits keyClass = true ↔ ∀ c, kind.keyClass? = some c → keyClass = c := by
  rw [admits]
  cases kind.keyClass? with
  | none => simp
  | some told =>
    simp only [Option.all_some, beq_iff_eq, Option.some.injEq, forall_eq']
    exact eq_comm

end PemKind

namespace PemBlock

variable {word label : String} {line : List Char} {lines : List (List Char)} {s : String}
  {b : PemBlock} {data passphrase : Datum} {key : Key}

theorem kind_of_kindOf {wantPublic : Bool} {kind : PemKind} (h : b.kindOf wantPublic = .ok kind) :
    kind.label = b.label := by
  rw [kindOf] at h
  split at h
  · rename_i found hFound
    cases h
    exact PemKind.ofLabel?_eq_some_iff.mp (Option.filter_eq_some_iff.mp hFound).1
  · cases h

theorem isPublic_of_kindOf {wantPublic : Bool} {kind : PemKind}
    (h : b.kindOf wantPublic = .ok kind) : kind.isPublic = wantPublic := by
  rw [kindOf] at h
  split at h
  · rename_i found hFound
    cases h
    exact beq_iff_eq.mp (Option.filter_eq_some_iff.mp hFound).2
  · cases h

theorem keyClass_of_checkKind {kind : PemKind} {given : Key} (h : checkKind kind given = .ok key) :
    kind.admits key.keyClass = true := by
  rw [checkKind] at h
  split at h
  · rename_i hAdmits
    cases h
    exact hAdmits
  · cases h

theorem kind_of_loadPrivate {j j' : Journal} (hText : data.toText = .ok s)
    (h : loadPrivate data passphrase j = .ok key j') :
    ∃ kind : PemKind, labelOfText? s = some kind.label ∧ kind.admits key.keyClass = true := by
  simp only [loadPrivate, ofDatum, Stateful.bind_eq_ok_iff, Action.ofExcept_eq_ok_iff,
    Fallible.bind_eq_ok_iff, Datum.toTextOr_eq_ok_iff] at h
  obtain ⟨b, _, ⟨⟨t, hGiven, hBlock⟩, -⟩, kind, _, ⟨hKind, -⟩, _, _, -, _, _, -, ⟨_, -, hChecked⟩,
    -⟩ := h
  cases hText.symm.trans hGiven
  refine ⟨kind, ?_, keyClass_of_checkKind hChecked⟩
  rw [labelOfText?_of_ofText hBlock, kind_of_kindOf hKind]

theorem kind_of_loadPublic {comment : Option String} (hText : data.toText = .ok s)
    (h : loadPublic data comment = .ok key) :
    ∃ kind : PemKind, labelOfText? s = some kind.label ∧ kind.admits key.keyClass = true := by
  simp only [loadPublic, ofDatum, Fallible.bind_eq_ok_iff, Datum.toTextOr_eq_ok_iff] at h
  obtain ⟨b, ⟨t, hGiven, hBlock⟩, kind, hKind, _, -, _, -, hChecked⟩ := h
  cases hText.symm.trans hGiven
  refine ⟨kind, ?_, keyClass_of_checkKind hChecked⟩
  rw [labelOfText?_of_ofText hBlock, kind_of_kindOf hKind]

theorem labelOf_of_toText (h : data.toText = .ok s) : labelOf data = .ok (labelOfText? s) := by
  rw [labelOf, h]

end PemBlock

namespace Key

variable {k : Key}

theorem Loaded.canSign (h : k.Loaded) : k.canSign = true := by
  rcases h.body with hAccepted | hHeld
  · exact hAccepted.consistent.canSign
  · exact KeyBody.canSign_of_heldOnlyInDer hHeld

theorem keyClass_of_ofTypedBlob {keyType : String} {blob : Bytes}
    (h : ofTypedBlob keyType blob = .ok k) : KeyClass.ofIdentifier? keyType = some k.keyClass := by
  rw [ofTypedBlob] at h
  split at h
  · rename_i keyClass hClass
    simp only [Fallible.bind_eq_ok_iff, Fallible.pure_eq_ok_iff, Packet.parse_eq_ok_iff,
      KeyBody.readWholePublic_eq_ok_iff] at h
    obtain ⟨body, ⟨_, hRead, -⟩, rfl⟩ := h
    rw [hClass]
    exact congrArg some (KeyBody.readPublic_sound hRead).1.symm
  · cases h

theorem keyClass_of_ofLine {line : String} {first second : List Char} {rest : List (List Char)}
    (hFields : Text.fields 2 line.toList = first :: second :: rest)
    (h : ofLine (.text line) = .ok k) :
    KeyClass.ofIdentifier? (String.ofList first) = some k.keyClass := by
  simp only [ofLine, PublicLine.ofDatum, Datum.toTextOr, Datum.toText, Fallible.bind_ok,
    PublicLine.ofText, hFields, Fallible.bind_eq_ok_iff] at h
  obtain ⟨l, hLine, h⟩ := h
  cases hBlob : Base64.decode? second with
  | none =>
    rw [hBlob] at hLine
    cases hLine
  | some blob =>
    simp only [hBlob, Fallible.bind_eq_ok_iff, Fallible.throwIf_eq_ok_iff,
      Fallible.pure_eq_ok_iff] at hLine
    obtain ⟨_, -, -, rfl⟩ := hLine
    simp only [ofPublicLine, Fallible.bind_eq_ok_iff, Fallible.pure_eq_ok_iff] at h
    obtain ⟨found, hFound, rfl⟩ := h
    have hClass := keyClass_of_ofTypedBlob hFound
    exact hClass

end Key

namespace Envelope

variable {s : String} {data passphrase : Datum} {raw : Bytes} {e : Envelope} {keys : List Key}
  {j j' : Journal}

theorem mark_infix_of_mem (h : Armour.beginMarker ∈ PemBlock.trimmedLines s) :
    Armour.mark <:+: Utf8.encode s := by
  obtain ⟨l, hMember, hMarker⟩ := List.mem_map.mp h
  have hInfix : Armour.beginMarker <:+: s.toList := by
    have hTrim := Text.trim_infix l
    rw [hMarker] at hTrim
    exact List.IsInfix.trans hTrim (Text.infix_of_mem_lines hMember)
  have hBytes := Utf8.encode_infix hInfix
  rwa [String.ofList_toList] at hBytes

theorem mark_infix_of_label (h : PemBlock.labelOfText? s = some Armour.label) :
    Armour.mark <:+: Utf8.encode s := by
  obtain ⟨line, hLine, hLabel⟩ := List.exists_of_findSome?_eq_some h
  obtain ⟨-, rfl⟩ := PemBlock.markerLabel?_eq_some_iff.mp hLabel
  exact mark_infix_of_mem hLine

theorem decodeKeys_of_label (hText : data.toText = .ok s)
    (hLabel : PemBlock.labelOfText? s = some Armour.label) (hRaw : Armour.decodeText s = .ok raw)
    (j : Journal) : decodeKeys data passphrase j = unlock raw passphrase j := by
  have hArmour : decodeKeys (.text s) passphrase j = unlock raw passphrase j := by
    rw [decodeKeys, hRaw]
    rfl
  cases data with
  | text t =>
    cases hText
    exact hArmour
  | bytes bs =>
    have hBytes : bs = Utf8.encode s := Except.ok.inj (Datum.toBytes_eq_encode_iff.mpr hText)
    subst hBytes
    rw [decodeKeys_marked (mark_infix_of_label hLabel), Utf8.decode?_encode]
    exact hArmour
  | foreign value => cases hText

theorem blobs_of_unlock (hRead : ofBytes raw = .ok e) (h : unlock raw passphrase j = .ok keys j') :
    e.publicBlobs = keys.map Key.blob ∧ keys ≠ [] := by
  simp only [unlock, load, decrypt, Stateful.bind_eq_ok_iff, Action.ofExcept_eq_ok_iff,
    Stateful.pure_eq_ok_iff] at h
  obtain ⟨_, _, ⟨e', _, ⟨hRead', -⟩, -, -, -, rfl, -⟩, s, _, ⟨suite, _, -, plain, _, -, hSection,
    -⟩, rfl, -⟩ := h
  cases hRead.symm.trans hRead'
  obtain ⟨-, -, -, hEntries, -⟩ := PrivateSection.ofBytes_eq_ok_iff.mp hSection
  have hBlobs : e.publicBlobs = s.entries.map Key.blob := by
    have hSame := List.forall₂_map_left_iff.mpr ((List.forall₂_and_left _ _).mp hEntries).2
    rw [List.forall₂_eq_eq_eq] at hSame
    exact hSame.symm
  refine ⟨hBlobs, ?_⟩
  have hForm := (ofBytes_eq_ok_iff.mp hRead).1
  intro hNone
  rw [hNone] at hBlobs
  exact hForm.keys hBlobs

theorem settled_load (raw : Bytes) : (load raw).Settled :=
  (Action.settled_ofExcept _).bind fun _ =>
    (Action.settled_log _ _ _).bind fun _ => Action.settled_pure _

end Envelope

namespace Container

variable {s : String} {data : Datum} {container : Container} {keyClass : Option KeyClass}
  {j j' : Journal}

theorem not_magic_of_hyphen (h : s.toList.head? = some '-') :
    ∀ raw, (Datum.text s).toBytes = .ok raw → ¬Envelope.magic <+: raw := by
  rintro _ ⟨⟩
  exact not_magic_of_head (by simp [h])

theorem isPublic_eq_false_iff :
    container.isPublic = false ↔ container ≠ publicLine ∧ container ≠ pemPublic := by
  cases container <;> decide

/-- What the container of a text, and the class of its key, are told from. -/
inductive Told (s : String) : Container → Option KeyClass → Prop
  | line {line : String} {first second : List Char} {rest : List (List Char)}
      (hLabel : PemBlock.labelOfText? s = none) (hLine : firstKeyLineOfText s = some line)
      (hFields : Text.fields 2 line.toList = first :: second :: rest) :
      Told s publicLine (KeyClass.ofIdentifier? (String.ofList first))
  | armour {raw : Bytes} {e : Envelope} {name : String}
      (hLabel : PemBlock.labelOfText? s = some Armour.label)
      (hRaw : Armour.decodeText s = .ok raw) (hRead : Envelope.ofBytes raw = .ok e)
      (hName : Packet.parse Packet.readText (e.publicBlobs.headD []) = .ok name) :
      Told s openssh (KeyClass.ofIdentifier? name)
  | block {kind : PemKind} (hLabel : PemBlock.labelOfText? s = some kind.label) :
      Told s (ofKind kind) kind.keyClass?

theorem ofLine_told (hLabel : PemBlock.labelOfText? s = none)
    (h : ofLine s = .ok (container, keyClass)) : Told s container keyClass := by
  rw [ofLine] at h
  split at h
  · rename_i first second rest hFound
    obtain ⟨line, hLine, hFields⟩ := Option.map_eq_some_iff.mp hFound
    split at h
    · cases h
      exact .line hLabel hLine hFields
    · cases h
  · cases h

theorem ofText_told (h : ofText s j = .ok (container, keyClass) j') :
    Told s container keyClass := by
  rw [ofText] at h
  cases hLabel : PemBlock.labelOfText? s with
  | none =>
    rw [hLabel] at h
    exact ofLine_told hLabel (Action.ofExcept_eq_ok_iff.mp h).1
  | some label =>
    simp only [hLabel] at h
    by_cases hArmour : label = Armour.label
    · subst hArmour
      simp only [if_true, classOfEnvelope, Envelope.load, Stateful.bind_eq_ok_iff,
        Stateful.pure_eq_ok_iff, Action.ofExcept_eq_ok_iff, Prod.mk.injEq] at h
      obtain ⟨raw, _, ⟨hRaw, -⟩, _, _, ⟨_, _, ⟨e, _, ⟨hRead, -⟩, -, -, -, rfl, -⟩, name, _,
        ⟨hName, -⟩, rfl, -⟩, ⟨rfl, rfl⟩, -⟩ := h
      exact .armour hLabel hRaw hRead hName
    · rw [if_neg hArmour] at h
      cases hKind : PemKind.ofLabel? label with
      | none =>
        rw [hKind] at h
        cases h
      | some kind =>
        rw [hKind] at h
        rw [← PemKind.ofLabel?_eq_some_iff.mp hKind] at hLabel
        cases (Stateful.pure_eq_ok_iff.mp h).1
        exact .block hLabel

theorem not_magic_iff {raw : Bytes} :
    ¬Envelope.magic.isPrefixOf raw = true ↔ ¬Envelope.magic <+: raw := by
  rw [List.isPrefixOf_iff_prefix]

theorem identify_of_toText (hMagic : ∀ raw, data.toBytes = .ok raw → ¬Envelope.magic <+: raw)
    (hText : data.toText = .ok s) : identify data = ofText s := by
  have hRaw := Datum.toBytes_eq_encode_iff.mpr hText
  funext j
  rw [identify, hRaw, Action.bind_ofExcept_ok, if_neg (not_magic_iff.mpr (hMagic _ hRaw)),
    Utf8.decode?_encode]

theorem identify_told (hMagic : ∀ raw, data.toBytes = .ok raw → ¬Envelope.magic <+: raw)
    (h : identify data j = .ok (container, keyClass) j') :
    ∃ s, data.toText = .ok s ∧ Told s container keyClass := by
  simp only [identify, Stateful.bind_eq_ok_iff, Action.ofExcept_eq_ok_iff] at h
  obtain ⟨raw, _, ⟨hRaw, -⟩, h⟩ := h
  rw [if_neg (not_magic_iff.mpr (hMagic raw hRaw))] at h
  cases hText : Utf8.decode? raw with
  | none =>
    rw [hText] at h
    cases h
  | some s =>
    rw [hText] at h
    rw [Utf8.eq_encode_of_decode? hText] at hRaw
    exact ⟨s, Datum.toBytes_eq_encode_iff.mp hRaw, ofText_told h⟩

theorem settled_classOfEnvelope (raw : Bytes) : (classOfEnvelope raw).Settled :=
  (Envelope.settled_load raw).bind fun _ =>
    (Action.settled_ofExcept _).bind fun _ => Action.settled_pure _

theorem settled_identify (data : Datum) : (identify data).Settled := by
  have hText : ∀ s, (ofText s).Settled := by
    intro s
    rw [ofText]
    split
    · exact Action.settled_ofExcept _
    · split
      · exact (Action.settled_ofExcept _).bind fun raw =>
          (settled_classOfEnvelope raw).bind fun _ => Action.settled_pure _
      · split
        · exact Action.settled_pure _
        · exact Action.settled_throw _
  rw [identify]
  refine (Action.settled_ofExcept _).bind fun raw => ?_
  by_cases hMagic : Envelope.magic.isPrefixOf raw
  · rw [if_pos hMagic]
    exact (settled_classOfEnvelope raw).bind fun _ => Action.settled_pure _
  · rw [if_neg hMagic]
    cases Utf8.decode? raw with
    | none => exact Action.settled_throw _
    | some s => exact hText s

end Container

namespace KeyFile

variable {s : String} {data passphrase : Datum} {container : Container}
  {keyClass : Option KeyClass} {key : Key} {j j' : Journal}

theorem keysIn_of_parsePrivateKey
    (hIdentify : (Container.identify data).Yields (container, keyClass))
    (h : parsePrivateKey data passphrase j = .ok key j') :
    ∃ others i i', keysIn container data passphrase i = .ok (key :: others) i' := by
  obtain ⟨others, _, hLoad⟩ := loadPrivateKeys_of_parsePrivateKey h
  obtain ⟨⟨found, _⟩, i, hFound, hKeys⟩ := Stateful.bind_eq_ok_iff.mp hLoad
  obtain ⟨_, hSame⟩ := hIdentify j
  cases hFound.symm.trans hSame
  obtain ⟨-, i', hKeys⟩ := keysIn_of_loadFrom hKeys
  exact ⟨others, i, i', hKeys⟩

/-- Whether the text is read as a PEM block for public keys. -/
def hasPublicLabel (s : String) : Bool :=
  ((PemBlock.labelOfText? s).bind PemKind.ofLabel?).any PemKind.isPublic

theorem parsePublicKey_of_toText (hText : data.toText = .ok s) :
    parsePublicKey data =
      if hasPublicLabel s then PemBlock.loadPublic data (some "")
      else match Container.firstKeyLineOfText s with
        | some line => Key.ofLine (.text line)
        | none => .error .noPublicLine := by
  rw [parsePublicKey, PemBlock.labelOf_of_toText hText, Fallible.bind_ok, Container.firstKeyLine,
    hText]
  rfl

theorem keyClass_of_parsePublicKey (hText : data.toText = .ok s)
    (hTold : Container.Told s container keyClass) (hPublic : container.isPublic = true)
    (h : parsePublicKey data = .ok key) : ∀ c, keyClass = some c → key.keyClass = c := by
  rw [parsePublicKey_of_toText hText, hasPublicLabel] at h
  cases hTold with
  | @line line first second rest hLabel hLine hFields =>
    simp only [hLabel, Option.bind_none, Option.any_none, Bool.false_eq_true, if_false, hLine] at h
    intro c hClass
    exact Option.some.inj ((Key.keyClass_of_ofLine hFields h).symm.trans hClass)
  | armour => cases hPublic
  | @block kind hLabel =>
    rw [isPublic_ofKind] at hPublic
    have hKind : PemKind.ofLabel? kind.label = some kind := PemKind.ofLabel?_eq_some_iff.mpr rfl
    rw [hLabel, Option.bind_some, hKind, Option.any_some, if_pos hPublic] at h
    obtain ⟨found, hFound, hAdmits⟩ := PemBlock.kind_of_loadPublic hText h
    obtain rfl := PemKind.label_inj (Option.some.inj (hFound.symm.trans hLabel))
    exact PemKind.admits_iff.mp hAdmits

theorem keyClass_of_keysIn {others : List Key} (hText : data.toText = .ok s)
    (hTold : Container.Told s container keyClass) (hPrivate : container.isPublic = false)
    (h : keysIn container data passphrase j = .ok (key :: others) j') :
    ∀ c, keyClass = some c → key.keyClass = c := by
  cases hTold with
  | line => cases hPrivate
  | @armour raw e name hLabel hRaw hRead hName =>
    have hKeys : Envelope.unlock raw passphrase j = .ok (key :: others) j' :=
      (Envelope.decodeKeys_of_label hText hLabel hRaw j).symm.trans h
    obtain ⟨hBlobs, -⟩ := Envelope.blobs_of_unlock hRead hKeys
    rw [hBlobs, List.map_cons, List.headD_cons, Key.readText_blob] at hName
    cases hName
    intro c hClass
    rw [Key.name, KeyBody.ofIdentifier?_name] at hClass
    exact Option.some.inj hClass
  | @block kind hLabel =>
    rw [keysIn_ofKind, Stateful.map_eq_ok_iff] at h
    obtain ⟨_, hLoad, hKey⟩ := h
    cases hKey
    obtain ⟨found, hFound, hAdmits⟩ := PemBlock.kind_of_loadPrivate hText hLoad
    obtain rfl := PemKind.label_inj (Option.some.inj (hFound.symm.trans hLabel))
    exact PemKind.admits_iff.mp hAdmits

/-- On data that does not open with the magic text, a key that is read is of the class that was
told, if any was, and can sign exactly if the container was not told to be public; and what cannot
be told cannot be read, for the same reason. -/
theorem parse_agrees_with_identify
    (hMagic : ∀ raw, data.toBytes = .ok raw → ¬Envelope.magic <+: raw) (passphrase : Datum)
    (i j : Journal) :
    (∀ container keyClass i' key j',
      Container.identify data i = .ok (container, keyClass) i' →
      parse data passphrase j = .ok key j' →
        (∀ c, keyClass = some c → key.keyClass = c) ∧
        (key.canSign = true ↔ container ≠ .publicLine ∧ container ≠ .pemPublic)) ∧
    ∀ e i', Container.identify data i = .error e i' →
      ∃ j', parse data passphrase j = .error e j' := by
  constructor
  · intro container keyClass i' key j' hIdentify hParse
    obtain ⟨s, hText, hTold⟩ := Container.identify_told hMagic hIdentify
    have hYields := (Container.settled_identify data).yields hIdentify
    obtain ⟨_, hSame⟩ := hYields j
    rw [parse_eq, Stateful.bind_ok hSame] at hParse
    rw [← Container.isPublic_eq_false_iff]
    cases hPublic : container.isPublic with
    | true =>
      simp only [hPublic, if_true] at hParse
      have hKey := (Action.ofExcept_eq_ok_iff.mp hParse).1
      refine ⟨keyClass_of_parsePublicKey hText hTold hPublic hKey, ?_⟩
      rw [Key.canSign, (publicAccepted_of_parsePublicKey hKey).canSign]
      decide
    | false =>
      simp only [hPublic, Bool.false_eq_true, if_false] at hParse
      obtain ⟨_, _, _, hKeys⟩ := keysIn_of_parsePrivateKey hYields hParse
      refine ⟨keyClass_of_keysIn hText hTold hPublic hKeys, ?_⟩
      exact ⟨fun _ => rfl, fun _ => (parsePrivateKey_loaded hParse).canSign⟩
  · intro e i' hIdentify
    obtain ⟨_, j', hSame, rfl⟩ := (Container.settled_identify data).fails hIdentify j
    exact ⟨j', Stateful.bind_error hSame⟩

theorem parse_agrees_with_identify_p256 :
    (∃ s, ∀ j, ∃ i' j' key, Container.identify (.text s) j = .ok (.openssh, some .ecdsa) i' ∧
      parse (.text s) (.text "") j = .ok key j' ∧ key.keyClass = .ecdsa ∧ key.canSign = true) ∧
      ∀ j, ∃ j', parse (.text "-") (.text "") j = .error .formatUndetermined j' := by
  have hSize : PrivateSection.size [Envelope.plainKey "work"] CipherSuite.none.blockSize ≤
      Wire.fieldLimit := by
    decide +kernel
  have hRead := Envelope.ofBytes_plainOf hSize
  have hName : Packet.parse Packet.readText ((Envelope.plainOf "work").publicBlobs.headD []) =
      .ok "ecdsa-sha2-nistp256" := Key.readText_blob (Envelope.plainKey "work")
  have hIdentify := identify_armour_yields hRead hName
  have hKeys : (Envelope.unlock (Envelope.magic ++ (Envelope.plainOf "work").fieldBytes [])
      (.text "")).Yields [Envelope.plainKey "work"] := by
    intro j
    obtain ⟨j', hLoad⟩ := Envelope.load_ok hRead j
    exact ⟨j', (Envelope.unlock_eq hLoad).trans (Envelope.decrypt_plainOf hSize _ j')⟩
  have hParse := parse_armour_yields hRead hName hKeys
  have hMagic := Container.not_magic_of_hyphen (Container.head?_armour
    (Envelope.magic ++ (Envelope.plainOf "work").fieldBytes []))
  constructor
  · refine ⟨Armour.encode (Envelope.magic ++ (Envelope.plainOf "work").fieldBytes []), fun j => ?_⟩
    obtain ⟨i', hTold⟩ := hIdentify j
    obtain ⟨j', hFound⟩ := hParse j
    obtain ⟨hClass, hSigns⟩ :=
      (parse_agrees_with_identify hMagic (.text "") j j).1 _ _ _ _ _ hTold hFound
    exact ⟨i', j', _, hTold, hFound, hClass .ecdsa rfl, hSigns.mpr (by decide)⟩
  · intro j
    have hError : Container.identify (.text "-") j = .error .formatUndetermined j := by
      rw [Container.identify_text (by decide)]
      rfl
    exact (parse_agrees_with_identify (Container.not_magic_of_hyphen (by decide)) _ j j).2 _ _ hError

end KeyFile
end SshKeys
