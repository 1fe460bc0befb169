import SshKeys.Proofs.BlobCodec
import SshKeys.Proofs.Recognition
/-!
# Public key lines, there and back

A line is cut into its fields wherever its comment has blanks, so reading gives the comment without
the blanks around it. In a text, the line is found behind blank lines and comment lines, and what
follows it does not matter as long as no PEM block begins.
-/
namespace SshKeys

namespace Text

variable {cs word rest : List Char} {c : Char}

theorem fields_blank (h : isBlank c = true) (count : Nat) (rest : List Char) :
    fields count (c :: rest) = fields count rest := by
  unfold fields
  rw [trimStart_cons, if_pos h]

theorem fields_word (hWord : ∀ c ∈ word, isBlank c = false) (hSome : word ≠ [])
    (hRest : ∀ c ∈ rest.head?, isBlank c = true) (count : Nat) :
    fields (count + 1) (word ++ rest) = word :: fields count rest := by
  have hStart : trimStart (word ++ rest) = word ++ rest := by
    apply dropWhile_isBlank_of_head
    rw [List.head?_append_of_ne_nil _ hSome]
    exact fun c hc => hWord c (List.mem_of_mem_head? hc)
  have hPlain : ∀ c ∈ word, (!isBlank c) = true := fun c hc => by rw [hWord c hc]; rfl
  have hTake : rest.takeWhile (fun c => !isBlank c) = [] ∧
      rest.dropWhile (fun c => !isBlank c) = rest := by
    cases rest with
    | nil => exact ⟨rfl, rfl⟩
    | cons c rest =>
      rw [List.takeWhile_cons, List.dropWhile_cons, hRest c rfl]
      exact ⟨rfl, rfl⟩
  rw [fields, hStart]
  simp only [List.isEmpty_iff, List.append_eq_nil_iff, hSome, false_and, if_false]
  rw [List.takeWhile_append_of_pos hPlain, List.dropWhile_append_of_pos hPlain, hTake.1, hTake.2,
    List.append_nil]

theorem fields_zero (cs : List Char) :
    fields 0 cs = if trimStart cs = [] then [] else [trimStart cs] := by
  unfold fields
  simp only [List.isEmpty_iff]

theorem linesFrom_ne_nil {line : List Char} {finished : List (List Char)}
    (h : line ≠ [] ∨ finished ≠ []) : linesFrom line finished cs ≠ [] := by
  induction line, finished, cs using linesFrom.induct with
  | case1 line finished =>
    rw [linesFrom]
    split
    · rename_i hNone
      have hLine : line = [] := by simpa using hNone
      simpa [hLine] using h
    · simp
  | case2 line finished rest ih =>
    rw [linesFrom]
    exact ih (.inr (List.cons_ne_nil _ _))
  | case3 line finished c rest hOther hEnd ih =>
    rw [linesFrom, if_pos hEnd]
    · exact ih (.inr (List.cons_ne_nil _ _))
    · exact hOther
  | case4 line finished c rest hOther hEnd ih =>
    rw [linesFrom, if_neg hEnd]
    · exact ih (.inl (List.cons_ne_nil _ _))
    · exact hOther

theorem lines_eq_nil_iff : lines cs = [] ↔ cs = [] := by
  constructor
  · intro h
    rw [lines, linesFrom.eq_def] at h
    split at h
    · rfl
    · exact absurd h (linesFrom_ne_nil (.inr (List.cons_ne_nil _ _)))
    · split at h
      · exact absurd h (linesFrom_ne_nil (.inr (List.cons_ne_nil _ _)))
      · exact absurd h (linesFrom_ne_nil (.inl (List.cons_ne_nil _ _)))
  · rintro rfl
    rfl

theorem linesFrom_behind {line first : List Char} {others : List (List Char)} (front : List Char)
    (h : linesFrom line [] cs = first :: others) :
    linesFrom (line ++ front) [] cs = (front.reverse ++ first) :: others := by
  have hEnded {line rest : List Char} (h : linesFrom [] [line.reverse] rest = first :: others) :
      linesFrom [] [(line ++ front).reverse] rest = (front.reverse ++ first) :: others := by
    rw [← List.nil_append [line.reverse], linesFrom_append, List.reverse_singleton,
      List.singleton_append, List.cons.injEq] at h
    rw [← List.nil_append [(line ++ front).reverse], linesFrom_append, List.reverse_singleton,
      List.singleton_append, List.reverse_append, h.1, h.2]
  induction cs generalizing line with
  | nil =>
    rw [linesFrom] at h ⊢
    split at h
    · cases h
    · rename_i hSome
      cases h
      rw [if_neg (by simpa using fun hNone => absurd hNone (by simpa using hSome)),
        List.reverse_append]
      rfl
  | cons c rest ih =>
    rw [linesFrom.eq_def] at h ⊢
    split at h
    · rename_i hNone
      cases hNone
    · exact hEnded h
    · rename_i hText
      cases hText
      split at h
      · rename_i hEnd
        simp only [hEnd, if_true]
        exact hEnded h
      · rename_i hEnd
        simp only [hEnd]
        exact ih h

theorem prefix_of_linesFrom {line first : List Char} {others : List (List Char)}
    (hSome : line ≠ []) (h : linesFrom line [] cs = first :: others) : line.reverse <+: first := by
  cases hLines : lines cs with
  | nil =>
    obtain rfl := lines_eq_nil_iff.mp hLines
    rw [linesFrom, if_neg (by simpa using hSome)] at h
    cases h
    exact List.prefix_rfl
  | cons l ls =>
    have hBehind := linesFrom_behind line hLines
    rw [List.nil_append, h, List.cons.injEq] at hBehind
    rw [hBehind.1]
    exact List.prefix_append _ _

theorem head?_of_lines {first : List Char} {others : List (List Char)}
    (h : lines cs = first :: others) (hc : cs.head? = some c) (hEnd : isLineEnd c = false) :
    first.head? = some c := by
  obtain ⟨rest, rfl⟩ := List.head?_eq_some_iff.mp hc
  have hOther : ∀ tail, c = '\r' → rest = '\n' :: tail → False := by
    rintro _ rfl -
    cases hEnd
  rw [lines, linesFrom, if_neg (Bool.eq_false_iff.mp hEnd)] at h
  · obtain ⟨more, rfl⟩ := prefix_of_linesFrom (List.cons_ne_nil c []) h
    rfl
  · exact hOther

end Text

theorem Base64.encode_ne_nil {bs : Bytes} (h : bs ≠ []) : encode bs ≠ [] := by
  intro hNone
  have hRead := decode?_encode bs
  rw [hNone] at hRead
  cases hRead
  exact h rfl

namespace Key

variable {k found : Key} {cs : List Char}

theorem forall_name {P : String → Prop}
    (h : ∀ c ∈ KeyClass.all, ∀ name ∈ c.publicTypes, P name) (k : Key) : P k.name := by
  have hClass (c : KeyClass) : c ∈ KeyClass.all := by
    cases c <;> decide
  exact h _ (hClass _) _ (KeyBody.name_mem_publicTypes k.body)

theorem name_ne_nil (k : Key) : k.name.toList ≠ [] :=
  forall_name (P := fun name => name.toList ≠ []) (by decide) k

theorem isTypeName_name (k : Key) : Container.isTypeName k.name.toList = true :=
  forall_name (P := fun name => Container.isTypeName name.toList = true) (by decide) k

theorem isPlain_of_mem_name {c : Char} (h : c ∈ k.name.toList) :
    Text.isBlank c = false ∧ Text.isLineEnd c = false := by
  -- checked on the list: `decide` on the characters may go through all there are
  have hAll : (k.name.toList.all fun c => !Text.isBlank c && !Text.isLineEnd c) = true :=
    forall_name (P := fun name =>
      (name.toList.all fun c => !Text.isBlank c && !Text.isLineEnd c) = true) (by decide) k
  simpa using List.all_eq_true.mp hAll c h

/-- What stands behind the blob, for a comment. -/
def lineTail (comment : List Char) : List Char := if comment = [] then [] else ' ' :: comment

/-- The characters of the line for a key, with some comment. -/
def lineChars (k : Key) (comment : List Char) : List Char :=
  k.name.toList ++ ' ' :: (Base64.encode k.blob ++ lineTail comment)

theorem toList_publicLine (k : Key) : k.publicLine.toList = k.lineChars k.commentText.toList := by
  simp only [publicLine, base64, Base64.filter_encodeLines, lineChars, lineTail, String.toList_append, String.toList_ofList,
    List.append_assoc]
  by_cases hEmpty : k.commentText = ""
  · rw [hEmpty]
    rfl
  · have hSome : k.commentText.toList ≠ [] := by simpa using hEmpty
    rw [if_neg (by simpa using hEmpty), if_neg hSome, String.toList_append]
    rfl

theorem head?_lineChars (k : Key) (cs : List Char) :
    (k.lineChars cs).head? ≠ some '#' ∧ (k.lineChars cs).head? ≠ some '-' ∧
      (k.lineChars cs).head? ≠ some 'o' := by
  rw [lineChars, List.head?_append_of_ne_nil _ k.name_ne_nil]
  exact forall_name (P := fun name => name.toList.head? ≠ some '#' ∧
    name.toList.head? ≠ some '-' ∧ name.toList.head? ≠ some 'o') (by decide) k

theorem isLineEnd_of_mem_lineChars (hComment : ∀ c ∈ cs, Text.isLineEnd c = false) {c : Char}
    (h : c ∈ k.lineChars cs) : Text.isLineEnd c = false := by
  simp only [lineChars, List.mem_append, List.mem_cons] at h
  rcases h with hName | rfl | hBlob | hTail
  · exact (isPlain_of_mem_name hName).2
  · rfl
  · exact (Base64.isPlain_of_mem_encode k.blob c hBlob).2.1
  · rw [lineTail] at hTail
    split at hTail
    · cases hTail
    · rcases List.mem_cons.mp hTail with rfl | hTail
      · rfl
      · exact hComment c hTail

theorem blob_ne_nil (k : Key) : k.blob ≠ [] := by
  intro h
  have hBlob := k.body.blob_eq
  rw [show k.body.blob = [] from h, List.flatMap_cons] at hBlob
  have hLength := congrArg List.length hBlob
  rw [List.length_append, Wire.length_string, List.length_nil] at hLength
  omega

theorem isBlank_of_mem_base64 {c : Char} (h : c ∈ Base64.encode k.blob) : Text.isBlank c = false :=
  (Base64.isPlain_of_mem_encode k.blob c h).1

theorem fields_lineChars (k : Key) (cs : List Char) : Text.fields 2 (k.lineChars cs) =
    k.name.toList :: Base64.encode k.blob :: Text.fields 0 cs := by
  have hBlob := Base64.encode_ne_nil k.blob_ne_nil
  rw [lineChars, Text.fields_word (fun c hc => (isPlain_of_mem_name hc).1) k.name_ne_nil
    (by rintro _ ⟨⟩; rfl), Text.fields_blank rfl,
    Text.fields_word (fun c hc => isBlank_of_mem_base64 hc) hBlob, lineTail]
  · split
    · rename_i hNone
      rw [hNone]
    · rw [Text.fields_blank rfl]
  · intro c hc
    rw [lineTail] at hc
    split at hc
    · cases hc
    · cases hc
      rfl

theorem trimEnd_lineTail (cs : List Char) :
    Text.trimEnd (lineTail cs) = lineTail (Text.trimEnd cs) := by
  rw [lineTail]
  split
  · rename_i hNone
    rw [hNone]
    rfl
  · rw [← List.singleton_append, Text.trimEnd_append, Text.trimEnd_singleton]
    rfl

theorem trim_lineChars (k : Key) (cs : List Char) :
    Text.trim (k.lineChars cs) = k.lineChars (Text.trimEnd cs) := by
  have hStart : Text.trimStart (k.lineChars cs) = k.lineChars cs := by
    apply Text.dropWhile_isBlank_of_head
    rw [lineChars, List.head?_append_of_ne_nil _ k.name_ne_nil]
    exact fun c hc => (isPlain_of_mem_name (List.mem_of_mem_head? hc)).1
  have hBlob : Text.trimEnd (Base64.encode k.blob) = Base64.encode k.blob := by
    rw [Text.trimEnd, Text.dropWhile_isBlank, List.reverse_reverse]
    exact fun c hc => isBlank_of_mem_base64 (List.mem_reverse.mp hc)
  have hFront : Text.trimEnd (k.name.toList ++ ' ' :: Base64.encode k.blob) =
      k.name.toList ++ ' ' :: Base64.encode k.blob := by
    rw [List.append_cons, Text.trimEnd_append, hBlob, if_neg (Base64.encode_ne_nil k.blob_ne_nil)]
  have hSplit (comment : List Char) : k.lineChars comment =
      (k.name.toList ++ ' ' :: Base64.encode k.blob) ++ lineTail comment := by
    rw [lineChars, List.append_assoc, List.cons_append]
  rw [Text.trim, hStart, hSplit, hSplit, Text.trimEnd_append, trimEnd_lineTail, hFront]
  split
  · rename_i hNone
    rw [hNone, List.append_nil]
  · rfl

theorem ofText_lineChars (k : Key) (cs : List Char) :
    ∃ comment, PublicLine.ofText (String.ofList (k.lineChars cs)) = .ok ⟨k.name, k.blob, comment⟩ ∧
      comment.getD "" = String.ofList (Text.trim cs) := by
  refine ⟨(Text.fields 0 cs).head?.map fun cs => String.ofList (Text.trim cs), ?_, ?_⟩
  · rw [PublicLine.ofText, String.toList_ofList, fields_lineChars]
    simp only [Base64.decode?_encode, String.ofList_toList, readText_blob, Fallible.bind_ok]
    rw [if_neg (not_not_intro rfl)]
    rfl
  · rw [Text.fields_zero]
    split
    · rename_i hNone
      rw [Text.trim_eq_nil_iff.mpr hNone]
      rfl
    · exact congrArg String.ofList (Text.trim_trimStart cs)

theorem ofLine_lineChars (h : ofBlob k.blob = .ok found) (cs : List Char) :
    ofLine (.text (String.ofList (k.lineChars cs))) =
      .ok { found with comment := some (String.ofList (Text.trim cs)) } := by
  obtain ⟨comment, hLine, hComment⟩ := ofText_lineChars k cs
  rw [ofBlob, readText_blob, Fallible.bind_ok] at h
  have hRead : PublicLine.ofDatum (.text (String.ofList (k.lineChars cs))) =
      .ok ⟨k.name, k.blob, comment⟩ := hLine
  rw [ofLine, hRead, Fallible.bind_ok, ofPublicLine, h, Fallible.bind_ok, ← hComment]
  rfl

end Key

namespace Container

variable {s line : String} {data : Datum} {before after : List (List Char)} {target : List Char}

theorem isKeyLine_eq_false_iff {cs : List Char} :
    isKeyLine cs = false ↔ cs = [] ∨ cs.head? = some '#' := by
  cases cs with
  | nil => exact ⟨fun _ => .inl rfl, fun _ => rfl⟩
  | cons c cs => simp [isKeyLine]

theorem firstKeyLineOfText_eq (hLines : Text.lines s.toList = before ++ target :: after)
    (hBefore : ∀ l ∈ before, Text.trim l = [] ∨ (Text.trim l).head? = some '#')
    (hKey : isKeyLine (Text.trim target) = true) :
    firstKeyLineOfText s = some (String.ofList (Text.trim target)) := by
  have hPassed : (before.map Text.trim).find? isKeyLine = none := by
    rw [List.find?_eq_none, List.forall_mem_map]
    intro l hl
    rw [isKeyLine_eq_false_iff.mpr (hBefore l hl)]
    exact Bool.false_ne_true
  rw [firstKeyLineOfText, hLines, List.map_append, List.find?_append, hPassed, List.map_cons,
    List.find?_cons, hKey]
  rfl

theorem labelOfText?_eq_none_iff : PemBlock.labelOfText? s = none ↔
    ∀ l ∈ Text.lines s.toList, PemBlock.beginLabel? (Text.trim l) = none := by
  rw [PemBlock.labelOfText?, PemBlock.trimmedLines, List.findSome?_eq_none_iff, List.forall_mem_map]

/-- Without a PEM block, a text is told by the first of its lines that may hold a key. -/
theorem identify_line {first second : List Char} {rest : List (List Char)}
    (hText : data.toText = .ok s) (hHead : s.toList.head? ≠ some 'o')
    (hLabel : PemBlock.labelOfText? s = none) (hLine : firstKeyLineOfText s = some line)
    (hFields : Text.fields 2 line.toList = first :: second :: rest)
    (hType : isTypeName first = true) :
    identify data = pure (publicLine, KeyClass.ofIdentifier? (String.ofList first)) := by
  have hMagic : ∀ raw, data.toBytes = .ok raw → ¬Envelope.magic <+: raw := by
    intro raw hRaw
    rw [Datum.toBytes_eq_encode_iff.mpr hText] at hRaw
    cases hRaw
    exact not_magic_of_head hHead
  rw [identify_of_toText hMagic hText, ofText, hLabel]
  simp only [ofLine, hLine, Option.map_some, hFields, hType, if_true]
  rfl

end Container

namespace KeyFile

variable {s line : String} {data : Datum}

theorem parsePublicKey_line (hText : data.toText = .ok s)
    (hLabel : PemBlock.labelOfText? s = none)
    (hLine : Container.firstKeyLineOfText s = some line) :
    parsePublicKey data = Key.ofLine (.text line) := by
  rw [parsePublicKey_of_toText hText, hasPublicLabel, hLabel, hLine]
  rfl

/-- A line for a key, behind blank lines and comment lines, and in front of anything but the begin
line of a PEM block. -/
def HoldsLine (s : String) (line : List Char) : Prop :=
  ∃ before after, Text.lines s.toList = before ++ line :: after ∧
    (∀ l ∈ before, Text.trim l = [] ∨ (Text.trim l).head? = some '#') ∧
    ∀ l ∈ after, PemBlock.beginLabel? (Text.trim l) = none

theorem HoldsLine.labelOfText?_eq_none {line : List Char} (h : HoldsLine s line)
    (hLine : (Text.trim line).head? ≠ some '-') : PemBlock.labelOfText? s = none := by
  obtain ⟨before, after, hLines, hBefore, hAfter⟩ := h
  rw [Container.labelOfText?_eq_none_iff, hLines, List.forall_mem_append, List.forall_mem_cons]
  refine ⟨fun l hl => PemBlock.markerLabel?_eq_none "BEGIN" ?_,
    PemBlock.markerLabel?_eq_none "BEGIN" hLine, hAfter⟩
  rcases hBefore l hl with hNone | hHead
  · rw [hNone]
    decide
  · rw [hHead]
    decide

theorem HoldsLine.head?_ne {line : List Char} (h : HoldsLine s line)
    (hLine : line.head? ≠ some 'o') : s.toList.head? ≠ some 'o' := by
  obtain ⟨before, after, hLines, hBefore, -⟩ := h
  intro hFirst
  cases before with
  | nil => exact hLine (Text.head?_of_lines hLines hFirst (by decide))
  | cons l before =>
    have hOpens := Text.head?_trim (Text.head?_of_lines hLines hFirst (by decide)) (by decide)
    rcases hBefore l List.mem_cons_self with hNone | hHead
    · rw [hNone] at hOpens
      cases hOpens
    · rw [hHead] at hOpens
      cases hOpens

variable {k found : Key} {cs : List Char}

theorem parse_holdsLine (hText : data.toText = .ok s) (hHolds : HoldsLine s (k.lineChars cs))
    (hFound : Key.ofBlob k.blob = .ok found) :
    parsePublicKey data =
      .ok { found with comment := some (String.ofList (Text.trim cs)) } ∧
    ∀ passphrase j, parse data passphrase j =
      .ok { found with comment := some (String.ofList (Text.trim cs)) } j := by
  have hTrimmed := k.trim_lineChars cs
  obtain ⟨hNoComment, hNoMarker, -⟩ := k.head?_lineChars (Text.trimEnd cs)
  have hLabel := hHolds.labelOfText?_eq_none (hTrimmed ▸ hNoMarker)
  have hHead := hHolds.head?_ne (k.head?_lineChars cs).2.2
  have hKey : Container.isKeyLine (Text.trim (k.lineChars cs)) = true := by
    rw [hTrimmed, ← Bool.not_eq_false, Container.isKeyLine_eq_false_iff]
    rintro (hNone | hHead)
    · exact List.append_ne_nil_of_left_ne_nil k.name_ne_nil _ hNone
    · exact hNoComment hHead
  obtain ⟨before, after, hLines, hBefore, -⟩ := hHolds
  have hLine := Container.firstKeyLineOfText_eq hLines hBefore hKey
  rw [hTrimmed] at hLine
  have hPublic : parsePublicKey data =
      .ok { found with comment := some (String.ofList (Text.trim cs)) } := by
    rw [parsePublicKey_line hText hLabel hLine, Key.ofLine_lineChars hFound, Text.trim_trimEnd]
  have hFields : Text.fields 2 (String.ofList (k.lineChars (Text.trimEnd cs))).toList = _ :=
    (congrArg (Text.fields 2) String.toList_ofList).trans (k.fields_lineChars _)
  refine ⟨hPublic, fun passphrase j => ?_⟩
  rw [parse, Container.identify_line hText hHead hLabel hLine hFields k.isTypeName_name]
  change Action.ofExcept (parsePublicKey data) j = _
  rw [hPublic]
  rfl

/-- The line for a key gives back its public half and the trimmed comment, alone and within a
text, of which it is a line whenever the comment has no line end. -/
theorem publicLine_round_trip {k k' : Key} (hKey : k.Obtained) (hRead : Key.ofBlob k.blob = .ok k')
    (c : String) :
    let line := Key.publicLine { k with comment := some c }
    let given : Key := { k' with comment := some (String.ofList (Text.trim c.toList)) }
    given.sameKey k = true ∧ given.canSign = false ∧ Key.ofLine (.text line) = .ok given ∧
      (∀ s, HoldsLine s line.toList → ∀ data, data = .text s ∨ data = .bytes (Utf8.encode s) →
        parsePublicKey data = .ok given ∧ ∀ passphrase j, parse data passphrase j = .ok given j) ∧
      ((∀ char ∈ c.toList, Text.isLineEnd char = false) → ∀ before after : List (List Char),
        (∀ l ∈ before, Text.trim l = [] ∨ (Text.trim l).head? = some '#') →
        (∀ l ∈ after, PemBlock.beginLabel? (Text.trim l) = none) →
        (∀ l ∈ before ++ after, ∀ char ∈ l, Text.isLineEnd char = false) →
        HoldsLine (String.ofList ((before ++ line.toList :: after).flatMap (· ++ ['\n'])))
          line.toList) := by
  intro line given
  have hChars : line.toList = k.lineChars c.toList := Key.toList_publicLine { k with comment := some c }
  have hLine : line = String.ofList (k.lineChars c.toList) := by
    rw [← hChars, String.ofList_toList]
  obtain ⟨hAccepted, rfl⟩ := hKey.eq_of_ofBlob hRead
  refine ⟨k.body.publicHalf_samePublic, hAccepted.canSign, ?_, ?_, ?_⟩
  · rw [hLine]
    exact Key.ofLine_lineChars hRead c.toList
  · intro s hHolds data hData
    rw [hChars] at hHolds
    have hText : data.toText = .ok s := by
      rcases hData with rfl | rfl
      · rfl
      · exact Datum.toBytes_eq_encode_iff.mp rfl
    exact parse_holdsLine hText hHolds hRead
  · intro hComment before after hBefore hAfter hOthers
    refine ⟨before, after, ?_, hBefore, hAfter⟩
    rw [String.toList_ofList, Text.lines_unlines]
    rw [List.forall_mem_append] at hOthers ⊢
    rw [List.forall_mem_cons, hChars]
    exact ⟨hOthers.1, fun char => Key.isLineEnd_of_mem_lineChars hComment, hOthers.2⟩

/-- A private key whose line stands behind a comment line, with blanks around its comment. -/
theorem publicLine_round_trip_p256 :
    ∃ s, HoldsLine s (Key.publicLine (Envelope.plainKey " me ")).toList ∧
      (∃ k', Key.ofBlob (Envelope.plainKey " me ").blob = .ok k' ∧
        parsePublicKey (.text s) = .ok { k' with comment := some "me" } ∧
        ∀ passphrase j, parse (.bytes (Utf8.encode s)) passphrase j =
          .ok { k' with comment := some "me" } j) := by
  have hSound : (Der.PrivateKey.elliptic Curve.secp256r1 Curve.secp256r1.base 1).Sound :=
    ⟨by decide, by decide +kernel⟩
  have hKey : (Envelope.plainKey " me ").Obtained :=
    .commented (.heldPrivate hSound rfl) (some " me ")
  have hTakes : ∀ c ∈ (Envelope.plainKey " me ").body.publicContents,
      Packet.Takes Wire.fieldLimit c := by
    decide +kernel
  have hRead := Key.ofBlob_blob_publicHalf KeyBody.accepted_p256_one.publicHalf hTakes
  obtain ⟨-, -, -, hTexts, hHolds⟩ := publicLine_round_trip hKey hRead " me "
  have hComment : ∀ char ∈ " me ".toList, Text.isLineEnd char = false := by
    simp [Text.isLineEnd]
  have hOthers : ∀ l ∈ [['#']] ++ [[]], ∀ char ∈ l, Text.isLineEnd char = false := by
    simp [Text.isLineEnd]
  have hText := hHolds hComment [['#']] [[]] (by decide) (by decide) hOthers
  exact ⟨_, hText, _, hRead, (hTexts _ hText _ (.inl rfl)).1, (hTexts _ hText _ (.inr rfl)).2⟩

end KeyFile
end SshKeys
