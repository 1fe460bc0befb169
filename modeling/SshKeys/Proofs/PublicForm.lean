import SshKeys.Proofs.LineRoundTrip
/-!
# The public form of a key and its lines

A key from a PEM block has no comment, and one from a line has a piece of that line, so their public
form is one line. The comment in a key file may be any text: each of its lines behind the first is a
line of its own in the public form.
-/
namespace SshKeys

namespace Text

variable {cs front : List Char}

theorem isLineEnd_of_mem_linesFrom {line : List Char} {finished : List (List Char)}
    (hLine : ∀ c ∈ line, isLineEnd c = false)
    (hFinished : ∀ l ∈ finished, ∀ c ∈ l, isLineEnd c = false) :
    ∀ l ∈ linesFrom line finished cs, ∀ c ∈ l, isLineEnd c = false := by
  have hEnded {line : List Char} {finished : List (List Char)}
      (hLine : ∀ c ∈ line, isLineEnd c = false)
      (hFinished : ∀ l ∈ finished, ∀ c ∈ l, isLineEnd c = false) :
      ∀ l ∈ line.reverse :: finished, ∀ c ∈ l, isLineEnd c = false :=
    List.forall_mem_cons.mpr ⟨fun c hc => hLine c (List.mem_reverse.mp hc), hFinished⟩
  induction line, finished, cs using linesFrom.induct with
  | case1 line finished =>
    intro l hl
    rw [linesFrom, List.mem_reverse] at hl
    split at hl
    · exact hFinished l hl
    · exact hEnded hLine hFinished l hl
  | case2 line finished rest ih =>
    rw [linesFrom]
    exact ih (List.forall_mem_nil _) (hEnded hLine hFinished)
  | case3 line finished c rest hOther hEnd ih =>
    rw [linesFrom, if_pos hEnd]
    · exact ih (List.forall_mem_nil _) (hEnded hLine hFinished)
    · exact hOther
  | case4 line finished c rest hOther hEnd ih =>
    rw [linesFrom, if_neg hEnd]
    · exact ih (List.forall_mem_cons.mpr ⟨Bool.eq_false_iff.mpr hEnd, hLine⟩) hFinished
    · exact hOther

theorem isLineEnd_of_mem_lines : ∀ l ∈ lines cs, ∀ c ∈ l, isLineEnd c = false :=
  isLineEnd_of_mem_linesFrom (List.forall_mem_nil _) (List.forall_mem_nil _)

theorem lines_append {first : List Char} {others : List (List Char)}
    (hFront : ∀ c ∈ front, isLineEnd c = false) (h : lines cs = first :: others) :
    lines (front ++ cs) = (front ++ first) :: others := by
  rw [lines, linesFrom_front hFront, List.append_nil]
  simpa using linesFrom_behind front.reverse h

theorem lines_eq_singleton_iff (hSome : cs ≠ []) :
    lines cs = [cs] ↔ ∀ c ∈ cs, isLineEnd c = false := by
  constructor
  · intro h
    exact isLineEnd_of_mem_lines cs (h ▸ List.mem_singleton_self cs)
  · intro h
    have hRead := linesFrom_front h [] [] []
    rw [List.append_nil, List.append_nil, linesFrom,
      if_neg (by simpa using hSome), List.reverse_reverse] at hRead
    exact hRead

theorem lines_unlines_iff {ls : List (List Char)} :
    lines (ls.flatMap (· ++ ['\n'])) = ls ↔ ∀ l ∈ ls, ∀ c ∈ l, isLineEnd c = false :=
  ⟨fun h => h ▸ isLineEnd_of_mem_lines, lines_unlines⟩

theorem infix_of_mem_fields {field : List Char} {count : Nat} (h : field ∈ fields count cs) :
    field <:+: cs := by
  induction count generalizing cs with
  | zero =>
    rw [fields_zero] at h
    split at h
    · cases h
    · rw [List.mem_singleton.mp h]
      exact (List.dropWhile_suffix _).isInfix
  | succ count ih =>
    rw [fields] at h
    split at h
    · cases h
    · have hStart : trimStart cs <:+: cs := (List.dropWhile_suffix _).isInfix
      rcases List.mem_cons.mp h with rfl | h
      · exact (List.takeWhile_prefix _).isInfix.trans hStart
      · exact (ih h).trans ((List.dropWhile_suffix _).isInfix.trans hStart)

end Text

namespace Key

variable {k : Key}

/-- Whether the comment has no line end. -/
def PlainComment (k : Key) : Prop := ∀ c ∈ k.commentText.toList, Text.isLineEnd c = false

/-- The first line of the comment belongs to the line of the key, the others are behind it. -/
def publicLines (k : Key) : List (List Char) :=
  match Text.lines k.commentText.toList with
  | [] => [k.lineChars []]
  | first :: others => (k.lineChars [] ++ ' ' :: first) :: others

theorem lineChars_of_ne_nil {comment : List Char} (h : comment ≠ []) :
    k.lineChars comment = k.lineChars [] ++ [' '] ++ comment := by
  simp [lineChars, lineTail, h]

theorem lineChars_ne_nil (k : Key) (comment : List Char) : k.lineChars comment ≠ [] :=
  List.append_ne_nil_of_left_ne_nil k.name_ne_nil _

theorem isLineEnd_of_mem_bareLine {c : Char} (h : c ∈ k.lineChars []) : Text.isLineEnd c = false :=
  isLineEnd_of_mem_lineChars (List.forall_mem_nil _) h

theorem isLineEnd_publicLine_iff :
    (∀ c ∈ k.publicLine.toList, Text.isLineEnd c = false) ↔ k.PlainComment := by
  rw [toList_publicLine]
  constructor
  · intro h c hc
    rw [lineChars_of_ne_nil (List.ne_nil_of_mem hc)] at h
    exact h c (List.mem_append_right _ hc)
  · exact fun h c hc => isLineEnd_of_mem_lineChars h hc

theorem lines_publicLine (k : Key) : Text.lines k.publicLine.toList = k.publicLines := by
  rw [toList_publicLine, publicLines]
  cases hLines : Text.lines k.commentText.toList with
  | nil =>
    rw [Text.lines_eq_nil_iff.mp hLines]
    exact (Text.lines_eq_singleton_iff (k.lineChars_ne_nil [])).mpr fun _ => isLineEnd_of_mem_bareLine
  | cons first others =>
    have hSome : k.commentText.toList ≠ [] := by
      intro hNone
      rw [Text.lines_eq_nil_iff.mpr hNone] at hLines
      cases hLines
    have hFront : ∀ c ∈ k.lineChars [] ++ [' '], Text.isLineEnd c = false := by
      rw [List.forall_mem_append, List.forall_mem_singleton]
      exact ⟨fun _ => isLineEnd_of_mem_bareLine, rfl⟩
    rw [lineChars_of_ne_nil hSome, Text.lines_append hFront hLines, List.append_assoc]
    rfl

theorem lines_publicLine_eq_singleton_iff :
    Text.lines k.publicLine.toList = [k.publicLine.toList] ↔ k.PlainComment := by
  have hSome : k.publicLine.toList ≠ [] := by
    rw [toList_publicLine]
    exact k.lineChars_ne_nil _
  rw [Text.lines_eq_singleton_iff hSome, isLineEnd_publicLine_iff]

theorem plainComment_of_empty (h : k.comment = some "") : k.PlainComment := by
  rw [PlainComment, commentText, h]
  exact List.forall_mem_nil _

theorem plainComment_of_ofLine {line : String} (h : ofLine (.text line) = .ok k)
    (hLine : ∀ c ∈ line.toList, Text.isLineEnd c = false) : k.PlainComment := by
  have hDatum : PublicLine.ofDatum (.text line) = PublicLine.ofText line := rfl
  rw [ofLine, hDatum, Fallible.bind_eq_ok_iff] at h
  obtain ⟨given, hText, h⟩ := h
  rw [ofPublicLine, Fallible.bind_eq_ok_iff] at h
  obtain ⟨found, -, h⟩ := h
  cases h
  rw [PublicLine.ofText] at hText
  split at hText
  · rename_i first second rest hFields
    split at hText
    · cases hText
    · simp only [Fallible.bind_eq_ok_iff, Fallible.throwIf_eq_ok_iff, Fallible.pure_eq_ok_iff]
        at hText
      obtain ⟨blobType, -, -, rfl⟩ := hText
      cases rest with
      | nil => exact plainComment_of_empty rfl
      | cons comment rest =>
        have hField : comment ∈ Text.fields 2 line.toList := by
          rw [hFields]
          simp
        intro c hc
        have hPiece : c ∈ Text.trim comment := by
          simpa [commentText] using hc
        exact hLine c ((Text.infix_of_mem_fields hField).subset
          ((Text.trim_infix comment).subset hPiece))
  · cases hText

end Key

namespace PemBlock

variable {data passphrase : Datum} {key : Key} {j j' : Journal}

theorem comment_of_checkKind {kind : PemKind} {given : Key}
    (h : checkKind kind given = .ok key) : key.comment = given.comment := by
  rw [checkKind] at h
  split at h
  · cases h
    rfl
  · cases h

theorem comment_of_loadPublic {comment : Option String} (h : loadPublic data comment = .ok key) :
    key.comment = comment := by
  simp only [loadPublic, Fallible.bind_eq_ok_iff] at h
  obtain ⟨_, -, _, -, _, -, _, -, hChecked⟩ := h
  exact comment_of_checkKind hChecked

theorem comment_of_loadPrivate (h : loadPrivate data passphrase j = .ok key j') :
    key.comment = some "" := by
  simp only [loadPrivate, Stateful.bind_eq_ok_iff, Action.ofExcept_eq_ok_iff,
    Fallible.bind_eq_ok_iff] at h
  obtain ⟨_, _, -, _, _, -, _, _, -, _, _, -, ⟨_, -, hChecked⟩, -⟩ := h
  exact comment_of_checkKind hChecked

end PemBlock

namespace KeyFile

variable {data passphrase : Datum} {container : Container} {keyClass : Option KeyClass}
  {k : Key} {keys : List Key} {i j j' : Journal}

theorem plainComment_of_parsePublicKey (h : parsePublicKey data = .ok k) : k.PlainComment := by
  rw [parsePublicKey, Fallible.bind_eq_ok_iff] at h
  obtain ⟨label, -, h⟩ := h
  split at h
  · exact Key.plainComment_of_empty (PemBlock.comment_of_loadPublic h)
  · rw [Fallible.bind_eq_ok_iff] at h
    obtain ⟨found, hFound, h⟩ := h
    rw [Container.firstKeyLine, Fallible.bind_eq_ok_iff] at hFound
    obtain ⟨s, -, hFound⟩ := hFound
    cases found with
    | none => cases h
    | some line =>
      obtain ⟨cs, hLine, rfl⟩ :=
        Option.map_eq_some_iff.mp (Fallible.pure_eq_ok_iff.mp hFound)
      obtain ⟨l, hl, rfl⟩ := List.mem_map.mp (List.mem_of_find?_eq_some hLine)
      refine Key.plainComment_of_ofLine h fun c hc => ?_
      rw [String.toList_ofList] at hc
      exact Text.isLineEnd_of_mem_lines l hl c ((Text.trim_infix l).subset hc)

theorem plainComment_of_keysIn (hOther : container ≠ .openssh)
    (h : keysIn container data passphrase j = .ok keys j') : ∀ k ∈ keys, k.PlainComment := by
  rw [keysIn, if_neg hOther, Stateful.map_eq_ok_iff] at h
  obtain ⟨key, hLoad, rfl⟩ := h
  exact List.forall_mem_singleton.mpr
    (Key.plainComment_of_empty (PemBlock.comment_of_loadPrivate hLoad))

/-- Whether a key is among those that some data gives under a passphrase. -/
inductive Gives (data passphrase : Datum) (k : Key) : Prop
  | parsed {j j' : Journal} (h : parse data passphrase j = .ok k j')
  | loaded {keys : List Key} {j j' : Journal}
      (h : loadPrivateKeys data passphrase j = .ok keys j') (hMember : k ∈ keys)

theorem Gives.origin (h : Gives data passphrase k) : parsePublicKey data = .ok k ∨
    ∃ keys j j', loadPrivateKeys data passphrase j = .ok keys j' ∧ k ∈ keys := by
  cases h with
  | parsed h =>
    rcases reader_of_parse h with hPublic | ⟨i, hPrivate⟩
    · exact .inl hPublic
    · obtain ⟨others, i', hLoad⟩ := loadPrivateKeys_of_parsePrivateKey hPrivate
      exact .inr ⟨_, _, _, hLoad, List.mem_cons_self⟩
  | loaded h hMember => exact .inr ⟨_, _, _, h, hMember⟩

theorem Gives.plainComment (h : Gives data passphrase k)
    (hIdentify : Container.identify data i = .ok (container, keyClass) j)
    (hOther : container ≠ .openssh) : k.PlainComment := by
  rcases h.origin with hPublic | ⟨keys, j₁, j₂, hLoad, hMember⟩
  · exact plainComment_of_parsePublicKey hPublic
  · obtain ⟨⟨found, _⟩, _, hFound, hKeys⟩ := Stateful.bind_eq_ok_iff.mp hLoad
    obtain ⟨_, hSame⟩ := (Container.settled_identify data).yields hIdentify j₁
    cases hFound.symm.trans hSame
    obtain ⟨-, _, hKeys⟩ := keysIn_of_loadFrom hKeys
    exact plainComment_of_keysIn hOther hKeys k hMember

theorem serialize_publicLine (k : Key) (secret : Datum) (cipherName : Option String)
    (rounds : Option Int) (i : Journal) :
    serialize k (some "public") secret cipherName rounds i = .ok k.publicLine i :=
  congrFun (serialize_eq .publicLine k secret cipherName rounds) i

/-- The public form of a key that some data gives is written whatever else is asked for. Its lines
are told by those of the comment: it is one line, and one entry behind others, if and only if no line
ends in the comment. So it is unless the data is a key file in the form of its own. -/
theorem serialize_public_lines (h : Gives data passphrase k) (secret : Datum)
    (cipherName : Option String) (rounds : Option Int) (i : Journal) :
    ∃ line, serialize k (some "public") secret cipherName rounds i = .ok line i ∧
      Text.lines line.toList = k.publicLines ∧
      ((∀ c ∈ line.toList, Text.isLineEnd c = false) ↔ k.PlainComment) ∧
      (Text.lines line.toList = [line.toList] ↔ k.PlainComment) ∧
      (∀ entries : List (List Char), (∀ l ∈ entries, ∀ c ∈ l, Text.isLineEnd c = false) →
        (Text.lines ((entries ++ [line.toList]).flatMap (· ++ ['\n'])) = entries ++ [line.toList] ↔
          k.PlainComment)) ∧
      ∀ container keyClass j j', Container.identify data j = .ok (container, keyClass) j' →
        container ≠ .openssh → k.PlainComment := by
  refine ⟨k.publicLine, serialize_publicLine k secret cipherName rounds i, k.lines_publicLine,
    Key.isLineEnd_publicLine_iff, Key.lines_publicLine_eq_singleton_iff, fun entries hEntries => ?_,
    fun container keyClass j j' hIdentify hOther => h.plainComment hIdentify hOther⟩
  rw [Text.lines_unlines_iff, List.forall_mem_append, List.forall_mem_singleton,
    Key.isLineEnd_publicLine_iff]
  exact and_iff_right hEntries

/-- A key file in armour, not encrypted, with one key of a given comment. -/
def plainFile (comment : String) : Datum :=
  .text (Armour.encode (Envelope.magic ++ (Envelope.plainOf comment).fieldBytes []))

theorem parse_plainFile {comment : String}
    (hSize : PrivateSection.size [Envelope.plainKey comment] CipherSuite.none.blockSize ≤
      Wire.fieldLimit) (passphrase : Datum) :
    (parse (plainFile comment) passphrase).Yields (Envelope.plainKey comment) := by
  have hRead := Envelope.ofBytes_plainOf hSize
  have hName : Packet.parse Packet.readText ((Envelope.plainOf comment).publicBlobs.headD []) =
      .ok (Envelope.plainKey comment).name := Key.readText_blob _
  exact parse_armour_yields hRead hName
    (unlock_unsealedFile KeyBody.accepted_p256_one hSize rfl passphrase)

theorem serialize_public_lines_p256 :
    (parse (plainFile "work") (.text "")).Yields (Envelope.plainKey "work") ∧
      ∀ i, ∃ line, serialize (Envelope.plainKey "work") (some "public") (.text "") none none i =
        .ok line i ∧ Text.lines line.toList = [line.toList] := by
  have hParse : (parse (plainFile "work") (.text "")).Yields (Envelope.plainKey "work") :=
    parse_plainFile (by decide +kernel) _
  have hComment : (Envelope.plainKey "work").PlainComment := by
    simp [Key.PlainComment, Key.commentText, Envelope.plainKey, Text.isLineEnd]
  refine ⟨hParse, fun i => ?_⟩
  obtain ⟨_, hKey⟩ := hParse i
  obtain ⟨line, hWritten, -, -, hLine, -⟩ :=
    serialize_public_lines (Gives.parsed hKey) (.text "") none none i
  exact ⟨line, hWritten, hLine.mpr hComment⟩

/-- A comment of two lines makes a public form of two. -/
theorem serialize_public_lines_broken :
    (parse (plainFile "work\nhome") (.text "")).Yields (Envelope.plainKey "work\nhome") ∧
      ∀ i, ∃ line, serialize (Envelope.plainKey "work\nhome") (some "public") (.text "") none none i =
        .ok line i ∧ Text.lines line.toList =
          [(Envelope.plainKey "work").publicLine.toList, "home".toList] := by
  refine ⟨parse_plainFile (by decide +kernel) (.text ""), fun i => ?_⟩
  refine ⟨_, serialize_publicLine _ _ _ _ i, ?_⟩
  have hComment : Text.lines (Envelope.plainKey "work\nhome").commentText.toList =
      ["work".toList, "home".toList] := by
    decide +kernel
  have hWork : (Envelope.plainKey "work").commentText.toList ≠ [] := by
    decide
  rw [Key.lines_publicLine, Key.publicLines, hComment, Key.toList_publicLine,
    Key.lineChars_of_ne_nil hWork, List.append_assoc]
  rfl

end KeyFile
end SshKeys
