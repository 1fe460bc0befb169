import SshKeys.Proofs.Failure
import SshKeys.Proofs.PemText
/-!
# PEM blocks in a text with other lines

A block is read from every text that is laid out with its lines; of headers with the same name, in
whatever case, the last one counts. All other data fail in one way.
-/
namespace SshKeys.PemBlock

variable {data : Datum} {b : PemBlock}

theorem lookup_put (name value other : String) (found : List (String × String)) :
    (put name value found).lookup other = if name = other then some value else found.lookup other := by
  induction found with
  | nil => grind [put]
  | cons entry found ih => grind [put]

theorem keys_put (name value : String) (found : List (String × String)) :
    (put name value found).map Prod.fst =
      if name ∈ found.map Prod.fst then found.map Prod.fst else found.map Prod.fst ++ [name] := by
  induction found with
  | nil => rfl
  | cons entry found ih => grind [put]

namespace Header

theorem collect_concat (headers : List Header) (h : Header) :
    collect (headers ++ [h]) = put h.key h.value (collect headers) := by
  rw [collect, List.foldl_append]
  rfl

theorem lookup_collect (headers : List Header) (name : String) :
    (collect headers).lookup name = (headers.reverse.find? (·.key = name)).map value := by
  induction headers using List.reverseRecOn with
  | nil => rfl
  | append_singleton headers h ih =>
    rw [collect_concat, lookup_put, List.reverse_concat, List.find?_cons, ih]
    by_cases hName : h.key = name
    · simp [hName]
    · simp [hName]

theorem nodup_collect (headers : List Header) : ((collect headers).map Prod.fst).Nodup := by
  induction headers using List.reverseRecOn with
  | nil => exact List.nodup_nil
  | append_singleton headers h ih =>
    rw [collect_concat, keys_put]
    split
    · exact ih
    · rename_i hNew
      exact List.concat_eq_append ▸ ih.concat hNew

end Header

theorem ofText_fails (s : String) :
    Fallible.FailsOnly (·.kind = .reported .format) (ofText s) := by
  rw [ofText, ofLines]
  split
  · exact Fallible.failsOnly_error rfl
  · split
    · exact Fallible.failsOnly_error rfl
    · split
      · exact Fallible.failsOnly_error rfl
      · simp only
        split
        · exact Fallible.failsOnly_ok _
        · exact Fallible.failsOnly_error rfl

theorem ofDatum_fails {bs : Bytes} (hData : data.toBytes = .ok bs) :
    Fallible.FailsOnly (·.kind = .reported .format) (ofDatum data) := by
  apply Fallible.FailsOnly.bind
  · refine (Datum.toTextOr_failsOnly .notText hData).mono ?_
    rintro e rfl
    rfl
  · intro s _
    exact ofText_fails s

theorem ofDatum_encode (s : String) : ofDatum (.bytes (Utf8.encode s)) = ofDatum (.text s) := by
  rw [ofDatum, Datum.toTextOr_encode]
  rfl

theorem labelOf_of_ofDatum (h : ofDatum data = .ok b) : labelOf data = .ok (some b.label) := by
  rw [ofDatum, Fallible.bind_eq_ok_iff] at h
  obtain ⟨s, hText, hBlock⟩ := h
  rw [labelOf_of_toText (Datum.toTextOr_eq_ok_iff.mp hText), labelOfText?_of_ofText hBlock]

/-- A block reads back from every text that is laid out with its marker lines, its header lines, empty
lines, and any cutting of its body, behind lines that are no begin marker: it has the label, the
last value for each name in lower case, and the body. Whatever is read has the label that is told
from the data, and all other text and bytes are refused in one way. -/
theorem ofDatum_through_noise :
    (∀ (label : String) (headers : List Header) (body : Bytes) (s : String) (blanks : Nat)
      (junk pieces : List (List Char)), IsLabel label →
      Text.LaysOut s.toList (junk ++ marker "BEGIN" label ::
        (headers.map Header.line ++ (List.replicate blanks [] ++ pieces))) (marker "END" label) →
      (∀ line ∈ junk, ∀ other, IsLabel other → Text.trim line ≠ marker "BEGIN" other) →
      pieces.flatten = Base64.encode body →
      ∃ b, ofDatum (.text s) = .ok b ∧ ofDatum (.bytes (Utf8.encode s)) = .ok b ∧
        b.label = label ∧ (b.headers.map Prod.fst).Nodup ∧
        (∀ name, b.header name = (headers.reverse.find? (·.name.toLower = name)).map Header.value) ∧
        b.body = body) ∧
    (∀ data b, ofDatum data = .ok b → labelOf data = .ok (some b.label)) ∧
    ∀ data bs e, data.toBytes = .ok bs → ofDatum data = .error e → e.kind = .reported .format := by
  refine ⟨?_, fun data b => labelOf_of_ofDatum, fun data bs e hData => ofDatum_fails hData e⟩
  intro label headers body s blanks junk pieces hLabel hText hJunk hPieces
  have hFlat : (List.replicate blanks [] ++ pieces).flatten = Base64.encode body := by
    rw [List.flatten_append, List.flatten_replicate_nil, List.nil_append, hPieces]
  have hNoBegin : ∀ line ∈ junk, beginLabel? (Text.trim line) = none :=
    fun line hLine => markerLabel?_eq_none_iff.mpr (hJunk line hLine)
  have hRead := ofText_laidOut hLabel hText hNoBegin hFlat
  refine ⟨_, hRead, (ofDatum_encode s).trans hRead, rfl, Header.nodup_collect headers, ?_, rfl⟩
  exact Header.lookup_collect headers

/-- Lines that end in five ways, and a name that is given twice, in two cases. -/
theorem ofDatum_through_noise_mixed :
    let s := "note\r\n -----BEGIN A 1-----\x0bName: one\r\nOther: x:y \u0085NAME: three\n\t\n\n" ++
      "AA\u2028 EC\x1c\u3000-----END A 1----- \nrest"
    (∃ b, ofDatum (.text s) = .ok b ∧ ofDatum (.bytes (Utf8.encode s)) = .ok b ∧ b.label = "A 1" ∧
      b.header "name" = some "three" ∧ b.header "other" = some "x:y" ∧ b.body = [0, 1, 2] ∧
      labelOf (.text s) = .ok (some "A 1")) ∧
    Error.kind .notText = .reported .format := by
  intro s
  let headers : List Header :=
    [{ name := "Name", value := "one" }, { name := "Other", value := "x:y" },
      { name := "NAME", value := "three" }]
  let rows : List Text.Row :=
    [{ core := "note".toList, ending := ['\r', '\n'] },
      { lead := [' '], core := marker "BEGIN" "A 1", ending := ['\x0b'] },
      { core := "Name: one".toList, ending := ['\r', '\n'] },
      { core := "Other: x:y".toList, trail := [' '], ending := ['\u0085'] },
      { core := "NAME: three".toList, ending := ['\n'] },
      { lead := ['\t'], core := [], ending := ['\n'] },
      { core := [], ending := ['\n'] },
      { core := ['A', 'A'], ending := ['\u2028'] },
      { lead := [' '], core := ['E', 'C'], ending := ['\x1c'] }]
  have hText : Text.LaysOut s.toList (["note".toList] ++ marker "BEGIN" "A 1" ::
      (headers.map Header.line ++ (List.replicate 2 [] ++ [['A', 'A'], ['E', 'C']])))
      (marker "END" "A 1") :=
    ⟨rows, ['\u3000'], [' '], '\n' :: "rest".toList, by decide, by decide, by decide,
      by rintro _ ⟨⟩; rfl, by decide⟩
  have hJunk : ∀ line ∈ ["note".toList], ∀ other, IsLabel other →
      Text.trim line ≠ marker "BEGIN" other :=
    fun line hLine => markerLabel?_eq_none_iff.mp (by cases List.mem_singleton.mp hLine; decide)
  obtain ⟨hRead, hTold, hRefused⟩ := ofDatum_through_noise
  obtain ⟨b, hGiven, hBytes, hLabel, -, hHeader, hBody⟩ :=
    hRead "A 1" headers [0, 1, 2] s 2 _ _ (by decide) hText hJunk (by decide)
  refine ⟨⟨b, hGiven, hBytes, hLabel, ?_, ?_, hBody, hLabel ▸ hTold _ b hGiven⟩,
    hRefused (.bytes [0xFF]) [0xFF] .notText rfl (by decide)⟩
  · rw [hHeader]
    change (headers.reverse.find? (·.key = "name")).map Header.value = _
    simp only [Header.key_eq]
    decide
  · rw [hHeader]
    change (headers.reverse.find? (·.key = "other")).map Header.value = _
    simp only [Header.key_eq]
    decide

end SshKeys.PemBlock
