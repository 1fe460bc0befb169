import SshKeys.Proofs.Base64Grammar
import SshKeys.Proofs.LineRoundTrip
import SshKeys.Proofs.PublicLoading
/-!
# The lines that are read as public keys

The grammar is given without the reader: a type name, a blob in base 64 that opens with this name,
and perhaps a comment, with blanks around them. Every other line is refused as malformed. The one
thing that is taken beyond this is a blob of whole groups with padding marks behind them that
nothing asks for.
-/
namespace SshKeys

open Error (IsFormat)

namespace Text

variable {cs word first second : List Char} {others : List (List Char)} {count : Nat}

def IsBlanks (cs : List Char) : Prop := ∀ c ∈ cs, isBlank c = true

instance (cs : List Char) : Decidable (IsBlanks cs) :=
  decidable_of_iff (cs.all isBlank) (by simp [IsBlanks])

/-- Characters that a field is made of. -/
def IsWord (cs : List Char) : Prop := cs ≠ [] ∧ ∀ c ∈ cs, isBlank c = false

instance (cs : List Char) : Decidable (IsWord cs) :=
  decidable_of_iff (cs ≠ [] ∧ cs.all (!isBlank ·) = true) (by simp [IsWord])

/-- Two words with blanks before and between them, and perhaps blanks and something more behind. -/
def HasWords (cs first second rest : List Char) : Prop :=
  ∃ lead gap behind, cs = lead ++ (first ++ (gap ++ (second ++ (behind ++ rest)))) ∧
    IsBlanks lead ∧ IsWord first ∧ IsBlanks gap ∧ gap ≠ [] ∧ IsWord second ∧ IsBlanks behind ∧
    (behind = [] → rest = [])

theorem fields_blanks {blanks : List Char} (h : IsBlanks blanks) (count : Nat) (rest : List Char) :
    fields count (blanks ++ rest) = fields count rest := by
  induction blanks with
  | nil => rfl
  | cons c blanks ih =>
    rw [IsBlanks, List.forall_mem_cons] at h
    rw [List.cons_append, fields_blank h.1, ih h.2]

theorem head?_dropWhile_eq_false {p : Char → Bool} {c : Char} (h : (cs.dropWhile p).head? = some c) :
    p c = false := by
  have hFirst := List.head?_dropWhile_not p cs
  rw [h] at hFirst
  exact hFirst

/-- The first field stands behind blanks and goes up to the next ones. -/
theorem fields_succ_iff : fields (count + 1) cs = word :: others ↔
    ∃ lead rest, cs = lead ++ (word ++ rest) ∧ IsBlanks lead ∧ IsWord word ∧
      (∀ c ∈ rest.head?, isBlank c = true) ∧ fields count rest = others := by
  constructor
  · intro h
    rw [fields] at h
    simp only [List.isEmpty_iff] at h
    split at h
    · cases h
    · rename_i hSome
      obtain ⟨rfl, rfl⟩ := List.cons.inj h
      refine ⟨cs.takeWhile isBlank, _, ?_, fun c => List.mem_takeWhile_imp, ⟨?_, ?_⟩, ?_, rfl⟩
      · rw [List.takeWhile_append_dropWhile]
        exact List.takeWhile_append_dropWhile.symm
      · obtain ⟨c, tail, hStart⟩ := List.exists_cons_of_ne_nil hSome
        have hFirst : isBlank c = false := head?_dropWhile_eq_false (congrArg List.head? hStart)
        rw [hStart, List.takeWhile_cons, hFirst]
        exact List.cons_ne_nil _ _
      · intro c hc
        simpa using List.mem_takeWhile_imp hc
      · intro c hc
        simpa using head?_dropWhile_eq_false hc
  · rintro ⟨lead, rest, rfl, hLead, ⟨hSome, hWord⟩, hRest, rfl⟩
    rw [fields_blanks hLead, fields_word hWord hSome hRest]

/-- Two fields, and what is left of the line behind them. -/
theorem fields_two_iff : fields 2 cs = first :: second :: others ↔
    ∃ rest, HasWords cs first second rest ∧
      others = if trimStart rest = [] then [] else [trimStart rest] := by
  constructor
  · intro h
    obtain ⟨lead, tail, rfl, hLead, hFirst, hTail, hFields⟩ := fields_succ_iff.mp h
    obtain ⟨gap, rest, rfl, hGap, hSecond, hRest, rfl⟩ := fields_succ_iff.mp hFields
    refine ⟨rest.dropWhile isBlank, ⟨lead, gap, rest.takeWhile isBlank, ?_, hLead, hFirst, hGap, ?_,
      hSecond, fun c => List.mem_takeWhile_imp, ?_⟩, ?_⟩
    · rw [List.takeWhile_append_dropWhile]
    · rintro rfl
      obtain ⟨c, tail, rfl⟩ := List.exists_cons_of_ne_nil hSecond.1
      have hBlank := hTail c rfl
      rw [hSecond.2 c List.mem_cons_self] at hBlank
      cases hBlank
    · intro hNone
      cases rest with
      | nil => rfl
      | cons c rest =>
        rw [List.takeWhile_cons, hRest c rfl] at hNone
        cases hNone
    · rw [fields_zero, trimStart, trimStart, List.dropWhile_idempotent]
  · rintro ⟨rest, ⟨lead, gap, behind, rfl, hLead, hFirst, hGap, hSome, hSecond, hBehind, hRest⟩, rfl⟩
    have hNext : ∀ c ∈ (gap ++ (second ++ (behind ++ rest))).head?, isBlank c = true := by
      rw [List.head?_append_of_ne_nil _ hSome]
      exact fun c hc => hGap c (List.mem_of_mem_head? hc)
    have hLast : ∀ c ∈ (behind ++ rest).head?, isBlank c = true := by
      by_cases hNone : behind = []
      · rw [hNone, hRest hNone]
        intro c hc
        cases hc
      · rw [List.head?_append_of_ne_nil _ hNone]
        exact fun c hc => hBehind c (List.mem_of_mem_head? hc)
    apply fields_succ_iff.mpr
    refine ⟨lead, _, rfl, hLead, hFirst, hNext, ?_⟩
    apply fields_succ_iff.mpr
    refine ⟨gap, _, rfl, hGap, hSecond, hLast, ?_⟩
    rw [fields_blanks hBehind, fields_zero]

end Text

/-- A text that is read from the front of some bytes is a field there, no longer than the limit. -/
theorem Packet.parse_readText_eq_ok_iff {content : Bytes} {s : String} :
    parse readText content = .ok s ↔
      (Utf8.encode s).length ≤ Wire.fieldLimit ∧ ∃ more, content = Wire.text s ++ more := by
  rw [parse_eq_ok_iff]
  constructor
  · rintro ⟨p', h⟩
    obtain ⟨hTakes, hAt⟩ := readText_eq_ok_iff.mp h
    exact ⟨hTakes.length_le, p'.pending, hAt.pending⟩
  · rintro ⟨hLength, more, hContent⟩
    exact ⟨_, readText_eq_ok_iff.mpr ⟨takes_of_length_le hLength, advance_past hContent⟩⟩

namespace PublicLine

variable {cs : List Char} {l : PublicLine} {line : String} {bs : Bytes}
  {spells spells' : List Char → Bytes → Prop}

/-- Four bytes of length, of at most 2^20, and a name of this length in UTF-8, with anything behind. -/
def OpensWith (blob : Bytes) (name : String) : Prop :=
  ∃ length more : Bytes, blob = length ++ (Utf8.encode name ++ more) ∧ length.length = 4 ∧
    Bytes.toNat length = (Utf8.encode name).length ∧ Bytes.toNat length ≤ 2 ^ 20

/-- A line as the grammar has it, and what it says, where `spells` tells which texts stand for a blob. -/
def Written (spells : List Char → Bytes → Prop) (cs : List Char) (l : PublicLine) : Prop :=
  ∃ word rest : List Char, Text.HasWords cs l.keyType.toList word rest ∧ spells word l.blob ∧
    OpensWith l.blob l.keyType ∧
    l.comment = if Text.trim rest = [] then none else some (String.ofList (Text.trim rest))

theorem opensWith_iff {blob : Bytes} {name : String} :
    OpensWith blob name ↔ Packet.parse Packet.readText blob = .ok name := by
  rw [Packet.parse_readText_eq_ok_iff]
  constructor
  · rintro ⟨length, more, rfl, hFour, hSame, hLimit⟩
    refine ⟨hSame ▸ hLimit, more, ?_⟩
    rw [Wire.text, Wire.string, ← hSame, Packet.uint32_toNat hFour, List.append_assoc]
  · rintro ⟨hLimit, more, rfl⟩
    have hFits : (Utf8.encode name).length < 256 ^ 4 := Nat.lt_of_le_of_lt hLimit (by decide)
    have hSame : Bytes.toNat (Wire.uint32 (Utf8.encode name).length) = (Utf8.encode name).length :=
      Bytes.toNat_ofNat_of_lt hFits
    refine ⟨Wire.uint32 (Utf8.encode name).length, more, ?_, Bytes.length_ofNat 4 _, hSame, ?_⟩
    · rw [Wire.text, Wire.string, List.append_assoc]
    · rw [hSame]
      exact hLimit

theorem comment_eq (rest : List Char) :
    ((if Text.trimStart rest = [] then [] else [Text.trimStart rest]).head?.map fun cs =>
      String.ofList (Text.trim cs)) =
      if Text.trim rest = [] then none else some (String.ofList (Text.trim rest)) := by
  by_cases hNone : Text.trimStart rest = []
  · rw [if_pos hNone, if_pos (Text.trim_eq_nil_iff.mpr hNone)]
    rfl
  · rw [if_neg hNone, if_neg (mt Text.trim_eq_nil_iff.mp hNone), List.head?_cons, Option.map_some,
      Text.trim_trimStart]

/-- The reader takes just the lines that the grammar has, with the blobs that it decodes. -/
theorem ofText_eq_ok_iff :
    ofText line = .ok l ↔ Written (Base64.decode? · = some ·) line.toList l := by
  constructor
  · intro h
    rw [ofText] at h
    split at h
    · rename_i first second others hFields
      split at h
      · cases h
      · rename_i blob hBlob
        simp only [Fallible.bind_eq_ok_iff, Fallible.throwIf_eq_ok_iff, Fallible.pure_eq_ok_iff,
          not_not] at h
        obtain ⟨_, hName, rfl, rfl⟩ := h
        obtain ⟨rest, hWords, rfl⟩ := Text.fields_two_iff.mp hFields
        refine ⟨second, rest, ?_, hBlob, opensWith_iff.mpr hName, comment_eq rest⟩
        rwa [String.toList_ofList]
    · cases h
  · rintro ⟨word, rest, hWords, hBlob, hOpens, hComment⟩
    rw [ofText, Text.fields_two_iff.mpr ⟨rest, hWords, rfl⟩]
    simp only [hBlob, String.ofList_toList, comment_eq]
    rw [opensWith_iff.mp hOpens, Fallible.bind_ok, if_neg (not_not_intro rfl), ← hComment]
    rfl

theorem written_or_iff : Written (fun cs bs => spells cs bs ∨ spells' cs bs) cs l ↔
    Written spells cs l ∨ Written spells' cs l := by
  constructor
  · rintro ⟨word, rest, hWords, hBlob | hBlob, hOthers⟩
    · exact .inl ⟨word, rest, hWords, hBlob, hOthers⟩
    · exact .inr ⟨word, rest, hWords, hBlob, hOthers⟩
  · rintro (⟨word, rest, hWords, hBlob, hOthers⟩ | ⟨word, rest, hWords, hBlob, hOthers⟩)
    · exact ⟨word, rest, hWords, .inl hBlob, hOthers⟩
    · exact ⟨word, rest, hWords, .inr hBlob, hOthers⟩

theorem Written.blob_of_fields {first word : List Char} {others : List (List Char)}
    (h : Written spells cs l) (hFields : Text.fields 2 cs = first :: word :: others) :
    spells word l.blob := by
  obtain ⟨_, rest, hWords, hBlob, -⟩ := h
  rw [Text.fields_two_iff.mpr ⟨rest, hWords, rfl⟩] at hFields
  cases hFields
  exact hBlob

theorem Written.not_surplus (h : Written Base64.StrictlySpells cs l) :
    ¬Written Base64.SurplusSpells cs l := by
  intro hSurplus
  obtain ⟨word, rest, hWords, hBlob, -⟩ := h
  have hFields := Text.fields_two_iff.mpr ⟨rest, hWords, rfl⟩
  exact hBlob.not_surplusSpells (hSurplus.blob_of_fields hFields)

theorem ofDatum_text (s : String) : ofDatum (.text s) = ofText s := rfl

theorem ofDatum_bytes (s : String) : ofDatum (.bytes (Utf8.encode s)) = ofText s := by
  rw [ofDatum, Datum.toTextOr_encode]
  rfl

theorem ofDatum_undecodable (h : ∀ s, bs ≠ Utf8.encode s) :
    ofDatum (.bytes bs) = .error .lineNotUtf8 := by
  have hNone : Utf8.decode? bs = none := by
    rw [Option.eq_none_iff_forall_ne_some]
    intro s hText
    exact h s (Utf8.eq_encode_of_decode? hText)
  rw [ofDatum, Datum.toTextOr_undecodable _ hNone]
  rfl

/-- A line is read just if the grammar has it, where a blob may also have padding marks that nothing asks
for. What is not read is malformed; and bytes are read as the text that they spell, or refused as
malformed. -/
theorem ofDatum_grammar (s : String) (bs : Bytes) (l : PublicLine) :
    (ofDatum (.text s) = .ok l ↔
      Written Base64.StrictlySpells s.toList l ∨ Written Base64.SurplusSpells s.toList l) ∧
    ¬(Written Base64.StrictlySpells s.toList l ∧ Written Base64.SurplusSpells s.toList l) ∧
    (∀ e, ofDatum (.text s) = .error e → e.IsFormat) ∧
    ofDatum (.bytes (Utf8.encode s)) = ofDatum (.text s) ∧
    ((∀ t, bs ≠ Utf8.encode t) →
      ∃ e, ofDatum (.bytes bs) = .error e ∧ e.kind = .reported .format) := by
  refine ⟨?_, ?_, ofText_format s, ofDatum_bytes s, ?_⟩
  · rw [ofDatum_text, ofText_eq_ok_iff, ← written_or_iff]
    simp only [Base64.decode?_eq_some_iff_spells]
  · rintro ⟨hStrict, hSurplus⟩
    exact hStrict.not_surplus hSurplus
  · intro hOther
    exact ⟨.lineNotUtf8, ofDatum_undecodable hOther, rfl⟩

/-- A blob with unused bits that are set, behind and in front of several blanks, and a byte that is no
text. -/
theorem ofDatum_grammar_blanks :
    let s := "\u3000a\t AAAAAWF=\x1f x\ty "
    let l : PublicLine := ⟨"a", [0, 0, 0, 1, 0x61], some "x\ty"⟩
    ofDatum (.text s) = .ok l ∧ ofDatum (.bytes (Utf8.encode s)) = .ok l ∧
      ∃ e, ofDatum (.bytes [0xFF]) = .error e ∧ e.kind = .reported .format := by
  intro s l
  have hOther : ∀ t, ([0xFF] : Bytes) ≠ Utf8.encode t := by
    intro t hSame
    have hRead := Utf8.decode?_encode t
    rw [← hSame] at hRead
    cases hRead
  have hBlob : Base64.StrictlySpells "AAAAAWF=".toList [0, 0, 0, 1, 0x61] :=
    ⟨['A', 'A', 'A', 'A'], ['A', 'W', 'F', '='], [0, 0, 0], [1, 0x61], by decide, rfl,
      .group (w := 0) (x := 0) (y := 0) (z := 0) rfl rfl rfl rfl .nil,
      .two (w := 0) (x := 22) (y := 5) rfl rfl rfl⟩
  have hWritten : Written Base64.StrictlySpells s.toList l := by
    refine ⟨"AAAAAWF=".toList, "x\ty ".toList, ?_, hBlob, ?_, by decide⟩
    · exact ⟨['\u3000'], ['\t', ' '], ['\x1f', ' '], by decide, by decide, by decide, by decide,
        by decide, by decide, by decide, by decide⟩
    · exact ⟨[0, 0, 0, 1], [], by decide, rfl, by decide, by decide⟩
  obtain ⟨hText, -, -, hBytes, hRefused⟩ := ofDatum_grammar s [0xFF] l
  have hRead := hText.mpr (.inl hWritten)
  exact ⟨hRead, hBytes.trans hRead, hRefused hOther⟩

/-- Behind whole groups, a padding mark that nothing asks for does no harm. -/
theorem ofDatum_surplus_padding :
    ofDatum (.text "ab AAAAAmFi=") = .ok ⟨"ab", [0, 0, 0, 2, 0x61, 0x62], none⟩ ∧
      ¬∃ l, Written Base64.StrictlySpells "ab AAAAAmFi=".toList l := by
  constructor
  · decide
  · rintro ⟨l, hWritten⟩
    have hFields : Text.fields 2 "ab AAAAAmFi=".toList = ["ab".toList, "AAAAAmFi=".toList] := by
      decide
    have hShape := (hWritten.blob_of_fields hFields).shape
    exact absurd hShape.1 (by decide)

end PublicLine
end SshKeys
