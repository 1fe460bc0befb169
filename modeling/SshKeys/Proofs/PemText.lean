import SshKeys.Pem.Kind
import SshKeys.Pem.Block
import SshKeys.Proofs.ArmourCodec
/-!
# PEM blocks as text

A block that is written with a label of upper case letters, digits and spaces, and with header lines
that are read as some headers, reads back as label, headers and body. No line of a body is taken for
a header, since base 64 has no colon, and none for a marker, since it has no hyphen.
-/
namespace SshKeys

namespace Text

/-- Lines that are the same again when a text of them is cut into lines and these are trimmed. -/
def IsTidy (line : List Char) : Prop := (∀ c ∈ line, isLineEnd c = false) ∧ trim line = line

theorem isTidy_of_plain {line : List Char} (h : ∀ c ∈ line, Base64.IsPlain c) : IsTidy line :=
  ⟨fun c hc => (h c hc).2.1, trim_eq_self fun c hc => (h c hc).1⟩

def IsAscii (cs : List Char) : Prop := ∀ c ∈ cs, c.toNat < 0x80

instance (cs : List Char) : Decidable (IsAscii cs) :=
  decidable_of_iff (cs.all (·.toNat < 0x80)) (by simp [IsAscii])

theorem lower_ascii {cs : List Char} (h : IsAscii cs) :
    lower cs = cs.map Char.toLower := by
  have hFrom (previous : Option Char) : lowerFrom previous cs = cs.map Char.toLower := by
    induction cs generalizing previous with
    | nil => rfl
    | cons c cs ih =>
      rw [IsAscii, List.forall_mem_cons] at h
      have hDotted : c.toNat ≠ 0x130 := by omega
      have hSigma : c.toNat ≠ 0x3A3 := by omega
      rw [lowerFrom, ih h.2, if_neg hDotted, if_neg fun hFinal => hSigma hFinal.1, lowerChar,
        if_pos h.1]
      rfl
  exact hFrom none

theorem map_trim_lines {lines : List (List Char)} (h : ∀ line ∈ lines, IsTidy line) :
    (Text.lines (lines.flatMap (· ++ ['\n']))).map trim = lines := by
  rw [lines_unlines fun line hLine => (h line hLine).1]
  exact (List.map_congr_left fun line hLine => (h line hLine).2).trans (List.map_id lines)

end Text

namespace PemKind

variable {keyClass : KeyClass} {kind : PemKind}

theorem ofClass?_eq_some (h : keyClass ≠ .ed25519) : ∃ kind, ofClass? keyClass = some kind := by
  cases keyClass with
  | ed25519 => exact absurd rfl h
  | _ => exact ⟨_, rfl⟩

theorem admits_of_ofClass? (h : ofClass? keyClass = some kind) :
    kind.isPublic = false ∧ kind ≠ .encryptedPrivate ∧ kind.admits keyClass = true := by
  cases keyClass <;> cases h <;> decide

end PemKind

namespace PemBlock

/-- Labels that marker lines can hold. -/
def IsLabel (label : String) : Prop := label.toList ≠ [] ∧ ∀ c ∈ label.toList, isLabelChar c = true

instance (label : String) : Decidable (IsLabel label) :=
  decidable_of_iff (label.toList ≠ [] ∧ label.toList.all isLabelChar = true)
    (and_congr_right' List.all_eq_true)

theorem isLabel_of_kind (kind : PemKind) : IsLabel kind.label := by
  cases kind <;> decide

/-- The marker line that opens or closes a block. -/
def marker (word label : String) : List Char :=
  dashes ++ ((word ++ " ").toList ++ (label.toList ++ dashes))

theorem isLineEnd_of_isLabelChar {c : Char} (h : isLabelChar c = true) :
    Text.isLineEnd c = false := by
  simp only [isLabelChar, Bool.or_eq_true, beq_iff_eq] at h
  have hRange : 0x20 ≤ c.val ∧ c.val ≤ 0x5A := by
    rcases h with (hUpper | hDigit) | rfl
    · have hBounds : c.val ≥ 'A'.val ∧ c.val ≤ 'Z'.val := of_decide_eq_true hUpper
      exact ⟨UInt32.le_trans (by decide) hBounds.1, hBounds.2⟩
    · simp only [Char.isDigit, Bool.and_eq_true, decide_eq_true_eq] at hDigit
      exact ⟨UInt32.le_trans (by decide) hDigit.1, UInt32.le_trans hDigit.2 (by decide)⟩
    · exact ⟨by decide, by decide⟩
  simp only [UInt32.le_iff_toNat_le, UInt32.reduceToNat] at hRange
  simp only [Text.isLineEnd, UInt32.le_iff_toNat_le, UInt32.reduceToNat, ← UInt32.toNat_inj,
    beq_eq_decide]
  grind

theorem isTidy_marker (word : String) {label : String}
    (hWord : (word ++ " ").toList.all isLabelChar = true) (hLabel : IsLabel label) :
    Text.IsTidy (marker word label) := by
  constructor
  · simp only [marker, List.forall_mem_append]
    exact ⟨Text.isLineEnd_of_all (by decide),
      fun c hc => isLineEnd_of_isLabelChar (List.all_eq_true.mp hWord c hc),
      fun c hc => isLineEnd_of_isLabelChar (hLabel.2 c hc), Text.isLineEnd_of_all (by decide)⟩
  · refine Text.trim_eq_self_of_ends ?_ ?_
    · intro c hc
      cases hc
      decide
    · intro c hc
      simp only [marker, List.getLast?_append] at hc
      cases hc
      decide

theorem markerLabel?_marker (word : String) {label : String} (hLabel : IsLabel label) :
    markerLabel? word (marker word label) = some label := by
  have hOpening : (dashes ++ (word ++ " ").toList).isPrefixOf (marker word label) = true := by
    rw [List.isPrefixOf_iff_prefix, marker, ← List.append_assoc]
    exact List.prefix_append _ _
  have hRest : (marker word label).drop (dashes ++ (word ++ " ").toList).length =
      label.toList ++ dashes := by
    rw [marker, ← List.append_assoc, List.drop_left]
  have hLength : (label.toList ++ dashes).length - dashes.length = label.toList.length := by
    rw [List.length_append, Nat.add_sub_cancel]
  rw [markerLabel?]
  simp only [hOpening, if_true, hRest, hLength, List.drop_left, List.take_left]
  rw [if_pos ⟨trivial, hLabel.1, List.all_eq_true.mpr hLabel.2⟩, String.ofList_toList]

theorem markerLabel?_eq_none (word : String) {line : List Char} (h : line.head? ≠ some '-') :
    markerLabel? word line = none := by
  rw [markerLabel?, if_neg]
  intro hOpening
  obtain ⟨rest, rfl⟩ := List.isPrefixOf_iff_prefix.mp hOpening
  exact h rfl

theorem findMarker_eq_some {label? : List Char → Option String} {label : String}
    {inside rest : List (List Char)} {line : List Char} (hInside : ∀ l ∈ inside, label? l = none)
    (hLine : label? line = some label) (before : List (List Char)) :
    findMarker label? before (inside ++ line :: rest) =
      some (label, before.reverse ++ inside, rest) := by
  induction inside generalizing before with
  | nil => simp [findMarker, hLine]
  | cons l inside ih =>
    rw [List.forall_mem_cons] at hInside
    rw [List.cons_append, findMarker, hInside.1]
    simp only
    rw [ih hInside.2, List.reverse_cons, List.append_assoc]
    rfl

/-- What ends the name in a header line. -/
def separator : List Char := [':', ' ']

theorem not_separator_of_no_colon {cs : List Char} (h : ':' ∉ cs) : ¬separator <:+: cs :=
  fun hInfix => h (hInfix.subset List.mem_cons_self)

theorem cutFrom_whole {cs : List Char} (h : ¬separator <:+: cs) (before : List Char) :
    cutFrom before cs = (before.reverse ++ cs, none) := by
  induction cs generalizing before with
  | nil => simp [cutFrom]
  | cons c cs ih =>
    have hRest : ¬separator <:+: cs := fun hInfix => h (hInfix.trans (List.suffix_cons c cs).isInfix)
    rw [cutFrom, ih hRest]
    · simp
    · rintro rest rfl rfl
      exact h (List.prefix_append separator rest).isInfix

theorem cutFrom_separator {cs : List Char} (h : ¬separator <:+: cs) (before rest : List Char) :
    cutFrom before (cs ++ (separator ++ rest)) = (before.reverse ++ cs, some rest) := by
  induction cs generalizing before with
  | nil => simp [separator, cutFrom]
  | cons c cs ih =>
    have hRest : ¬separator <:+: cs := fun hInfix => h (hInfix.trans (List.suffix_cons c cs).isInfix)
    rw [List.cons_append, cutFrom, ih hRest]
    · simp
    · rintro others rfl hOthers
      cases cs with
      | nil => cases hOthers
      | cons d cs =>
        cases hOthers
        exact h (List.prefix_append separator cs).isInfix

theorem header?_eq_none {line : List Char} (h : ':' ∉ line) : header? line = none := by
  rw [header?, cut, cutFrom_whole (not_separator_of_no_colon h)]

theorem readHeaders_body {body : List (List Char)} (h : ∀ line ∈ body, ':' ∉ line)
    (headers : List (String × String)) : readHeaders headers body = (headers, body) := by
  cases body with
  | nil => rfl
  | cons line body => rw [readHeaders, header?_eq_none (h line List.mem_cons_self)]

/-- What may be the name or the value in a header line. -/
structure IsPart (cs : List Char) : Prop where
  ne_nil : cs ≠ []
  whole : ¬separator <:+: cs
  isOneLine : Text.IsOneLine cs
  first : ∀ c ∈ cs.head?, Text.isBlank c = false
  last : ∀ c ∈ cs.getLast?, Text.isBlank c = false

theorem isPart_iff {cs : List Char} : IsPart cs ↔ cs ≠ [] ∧ ¬separator <:+: cs ∧ Text.IsOneLine cs ∧
    cs.head?.all (!Text.isBlank ·) = true ∧ cs.getLast?.all (!Text.isBlank ·) = true := by
  simp only [Option.all_eq_true, Bool.not_eq_true']
  constructor
  · intro h
    exact ⟨h.ne_nil, h.whole, h.isOneLine, h.first, h.last⟩
  · rintro ⟨hSome, hWhole, hLine, hFirst, hLast⟩
    exact ⟨hSome, hWhole, hLine, hFirst, hLast⟩

instance (cs : List Char) : Decidable (IsPart cs) := decidable_of_iff' _ isPart_iff

/-- A header to be written. -/
structure Header where
  name : String
  value : String
  isAscii : Text.IsAscii name.toList := by decide
  isPart_name : IsPart name.toList := by decide
  isPart_value : IsPart value.toList := by decide

namespace Header

variable (h : Header)

def line : List Char := h.name.toList ++ (separator ++ h.value.toList)

/-- The name that a header is found under. -/
def key : String := h.name.toLower

theorem key_eq : h.key = String.ofList (h.name.toList.map Char.toLower) := by
  change h.name.map Char.toLower = _
  rw [← String.toList_map, String.ofList_toList]

theorem colon_mem_line : ':' ∈ h.line := by simp [line, separator]

theorem line_ne_nil : h.line ≠ [] := List.ne_nil_of_mem h.colon_mem_line

theorem isTidy_line : Text.IsTidy h.line := by
  constructor
  · rw [line, List.forall_mem_append, List.forall_mem_append]
    exact ⟨h.isPart_name.isOneLine, Text.isLineEnd_of_all (by decide), h.isPart_value.isOneLine⟩
  · apply Text.trim_eq_self_of_ends
    · rw [line, List.head?_append_of_ne_nil _ h.isPart_name.ne_nil]
      exact h.isPart_name.first
    · rw [line, ← List.append_assoc, List.getLast?_append_of_ne_nil _ h.isPart_value.ne_nil]
      exact h.isPart_value.last

theorem header?_line : header? h.line = some (h.key, h.value) := by
  rw [header?, cut, line, cutFrom_separator h.isPart_name.whole]
  simp only [List.reverse_nil, List.nil_append]
  rw [cut, cutFrom_whole h.isPart_value.whole, Text.lower_ascii h.isAscii, ← h.key_eq]
  simp only [List.reverse_nil, List.nil_append]
  rw [Text.trim_eq_self_of_ends h.isPart_value.first h.isPart_value.last, String.ofList_toList]

/-- What a reader holds after some header lines. -/
def collect (headers : List Header) : List (String × String) :=
  headers.foldl (fun found h => put h.key h.value found) []

end Header

theorem readHeaders_lines (headers : List Header) {body : List (List Char)}
    (hBody : ∀ line ∈ body, ':' ∉ line) :
    readHeaders [] (headers.map Header.line ++ body) = (Header.collect headers, body) := by
  have hFrom (found : List (String × String)) : readHeaders found (headers.map Header.line ++ body) =
      (headers.foldl (fun found h => put h.key h.value found) found, body) := by
    induction headers generalizing found with
    | nil => exact readHeaders_body hBody found
    | cons h headers ih =>
      rw [List.map_cons, List.cons_append, readHeaders, h.header?_line]
      exact ih _
  exact hFrom []

variable {label word s : String} {line : List Char} {junk pieces : List (List Char)}
  {headers : List Header} {body : Bytes} {b : PemBlock}

/-- A marker line is all that gives a label. -/
theorem markerLabel?_eq_some_iff :
    markerLabel? word line = some label ↔ IsLabel label ∧ line = marker word label := by
  constructor
  · intro h
    rw [markerLabel?] at h
    split at h
    · rename_i hOpening
      obtain ⟨rest, rfl⟩ := List.isPrefixOf_iff_prefix.mp hOpening
      simp only [List.drop_left] at h
      split at h
      · rename_i hMarker
        obtain ⟨hClosing, hSome, hChars⟩ := hMarker
        cases h
        refine ⟨⟨?_, ?_⟩, ?_⟩
        · rwa [String.toList_ofList]
        · rw [String.toList_ofList]
          exact List.all_eq_true.mp hChars
        · rw [marker, String.toList_ofList, ← List.append_assoc, List.append_cancel_left_eq]
          calc rest
            _ = rest.take (rest.length - dashes.length) ++ rest.drop (rest.length - dashes.length) :=
              (List.take_append_drop _ _).symm
            _ = rest.take (rest.length - dashes.length) ++ dashes := by rw [hClosing]
      · cases h
    · cases h
  · rintro ⟨hLabel, rfl⟩
    exact markerLabel?_marker word hLabel

theorem markerLabel?_eq_none_iff :
    markerLabel? word line = none ↔ ∀ label, IsLabel label → line ≠ marker word label := by
  rw [Option.eq_none_iff_forall_ne_some]
  exact forall_congr' fun label => (not_congr markerLabel?_eq_some_iff).trans not_and

theorem colon_not_mem_marker (hWord : ':' ∉ word.toList) (hLabel : IsLabel label) :
    ':' ∉ marker word label := by
  simp only [marker, String.toList_append, List.mem_append, not_or]
  refine ⟨by decide, ⟨hWord, by decide⟩, fun hMember => ?_, by decide⟩
  exact absurd (hLabel.2 ':' hMember) (by decide)

theorem endLabel?_header (h : Header) : endLabel? h.line = none := by
  apply markerLabel?_eq_none_iff.mpr
  intro label hLabel hMarker
  exact colon_not_mem_marker (by decide) hLabel (hMarker ▸ h.colon_mem_line)

theorem endLabel?_piece (hPieces : pieces.flatten = Base64.encode body) :
    ∀ piece ∈ pieces, endLabel? piece = none := by
  intro piece hPiece
  apply markerLabel?_eq_none "END"
  intro hHead
  exact (Base64.isPlain_of_mem_piece hPieces piece hPiece '-' (List.mem_of_mem_head? hHead)).2.2 rfl

/-- A block is read from every text that is laid out with its lines, behind lines that are no begin
marker. -/
theorem ofText_laidOut (hLabel : IsLabel label)
    (h : Text.LaysOut s.toList (junk ++ marker "BEGIN" label ::
      (headers.map Header.line ++ pieces)) (marker "END" label))
    (hJunk : ∀ line ∈ junk, beginLabel? (Text.trim line) = none)
    (hPieces : pieces.flatten = Base64.encode body) :
    ofText s = .ok ⟨label, Header.collect headers, body⟩ := by
  have hBegin := isTidy_marker "BEGIN" (by decide) hLabel
  have hEnd := isTidy_marker "END" (by decide) hLabel
  obtain ⟨kept, others, hKept, hLines⟩ := h.lines_eq hEnd.1 (by rw [hEnd.2]; nofun)
  have hHeaders : (headers.map Header.line).map Text.trim = headers.map Header.line := by
    rw [List.map_map]
    exact List.map_congr_left fun h _ => h.isTidy_line.2
  have hTrim : pieces.map Text.trim = pieces := by
    refine (List.map_congr_left fun piece hPiece => ?_).trans (List.map_id pieces)
    exact (Text.isTidy_of_plain (Base64.isPlain_of_mem_piece hPieces piece hPiece)).2
  rw [List.map_append, List.map_cons, List.map_append, hBegin.2, hHeaders, hTrim] at hKept
  obtain ⟨before, inside, rfl, hBefore, hInside⟩ := hKept.split_at (by nofun)
  obtain ⟨first, rest, rfl, hFirst, hRest⟩ := hInside.split
  obtain rfl := hFirst.eq_of_ne_nil (List.forall_mem_map.mpr fun h _ => h.line_ne_nil)
  have hNoBegin : ∀ line ∈ before, beginLabel? line = none := by
    intro line hLine
    obtain ⟨original, hOriginal, rfl⟩ := List.mem_map.mp (hBefore.subset line hLine)
    exact hJunk original hOriginal
  have hFlat : rest.flatten = Base64.encode body := hRest.flatten_eq.trans hPieces
  have hNoEnd : ∀ line ∈ headers.map Header.line ++ rest, endLabel? line = none := by
    rw [List.forall_mem_append, List.forall_mem_map]
    exact ⟨fun h _ => endLabel?_header h, endLabel?_piece hFlat⟩
  have hColon : ∀ line ∈ rest, ':' ∉ line := fun line hLine hMember =>
    Base64.forall_mem_piece (P := (· ≠ ':')) Base64.symbol_ne_colon (by decide) hFlat line hLine ':'
      hMember rfl
  rw [ofText, trimmedLines, hLines, hEnd.2, ofLines, List.append_assoc, List.cons_append,
    findMarker_eq_some hNoBegin (markerLabel?_marker "BEGIN" hLabel)]
  simp only
  rw [findMarker_eq_some hNoEnd (markerLabel?_marker "END" hLabel)]
  simp only [ne_eq, not_true, if_false, List.reverse_nil, List.nil_append]
  rw [readHeaders_lines headers hColon]
  simp only [hFlat, Base64.decode?_encode]

/-- Header lines that are read as some headers, with empty lines behind them. -/
def Heads (lines : List String) (found : List (String × String)) : Prop :=
  ∃ (headers : List Header) (blanks : Nat),
    lines.map String.toList = headers.map Header.line ++ List.replicate blanks [] ∧
      found = Header.collect headers

theorem Heads.none : Heads [] [] := ⟨[], 0, rfl, rfl⟩

variable {headerLines : List String} {found : List (String × String)}

theorem render_eq (label : String) (headerLines : List String) (body : Bytes) :
    render label headerLines body = String.ofList ((marker "BEGIN" label ::
      (headerLines.map String.toList ++ Bytes.chunks lineWidth (Base64.encode body)) ++
        [marker "END" label]).flatMap (· ++ ['\n'])) := by
  simp [render, marker, dashes]

theorem ofText_render (hLabel : IsLabel label) (hHeads : Heads headerLines found) (body : Bytes) :
    ofText (render label headerLines body) = .ok ⟨label, found, body⟩ := by
  obtain ⟨headers, blanks, hLines, rfl⟩ := hHeads
  have hPieces : (List.replicate blanks [] ++
      Bytes.chunks lineWidth (Base64.encode body)).flatten = Base64.encode body := by
    rw [List.flatten_append, Bytes.flatten_chunks (by decide)]
    simp
  have hNone : ∀ line ∈ [], beginLabel? (Text.trim line) = none := nofun
  apply ofText_laidOut hLabel _ hNone hPieces
  rw [render_eq, String.toList_ofList, hLines, List.append_assoc]
  apply Text.laysOut_unlines
  rw [List.forall_mem_cons, List.forall_mem_append, List.forall_mem_map]
  exact ⟨(isTidy_marker "BEGIN" (by decide) hLabel).1, fun h _ => h.isTidy_line.1,
    fun piece hPiece c hc => (Base64.isPlain_of_mem_piece hPieces piece hPiece c hc).2.1⟩

theorem findSome?_of_findMarker {label? : List Char → Option String}
    {before inside rest lines : List (List Char)}
    (h : findMarker label? before lines = some (label, inside, rest)) :
    lines.findSome? label? = some label := by
  induction lines generalizing before with
  | nil => cases h
  | cons line lines ih =>
    rw [findMarker] at h
    rw [List.findSome?_cons]
    cases hLine : label? line with
    | some found =>
      simp only [hLine] at h
      cases h
      rfl
    | none =>
      simp only [hLine] at h
      exact ih h

theorem labelOfText?_of_ofText (h : ofText s = .ok b) : labelOfText? s = some b.label := by
  rw [ofText, ofLines] at h
  split at h
  · cases h
  · rename_i label _ rest hBegin
    have hLabel : b.label = label := by
      split at h
      · cases h
      · split at h
        · cases h
        · simp only at h
          split at h
          · cases h
            rfl
          · cases h
    rw [hLabel]
    exact findSome?_of_findMarker hBegin

theorem labelOfText?_render (hLabel : IsLabel label) (hHeads : Heads headerLines found)
    (body : Bytes) : labelOfText? (render label headerLines body) = some label :=
  labelOfText?_of_ofText (ofText_render hLabel hHeads body)

end PemBlock
end SshKeys
