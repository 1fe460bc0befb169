import SshKeys.Proofs.NegativeInverse
import SshKeys.Proofs.PrivateLoading
/-!
# What the reading of a public key can end with

Reading ends with a key that cannot sign, a failure that is reported, or one of two mistakes. Bytes
that are no text are decoded all the same when the key line is looked for, and numbers of an RSA key
are taken for natural ones once their size has been checked. Both are met for exactly the data
described here.
-/
namespace SshKeys

open Error (Reported IsFormat)

namespace KeyBody

open Fallible (FailsOnly)

/-- Numbers of a public RSA key that pass the check of the size although one of them is negative. -/
def NegativePublic (e n : Int) : Prop := 2 ^ 1023 ≤ n.natAbs ∧ (e < 0 ∨ n < 0)

theorem ofRsaNumbers_magnitude_iff {e n : Int} :
    ofRsaNumbers e n = .error (.misuse .magnitude) ↔ NegativePublic e n := by
  simp only [ofRsaNumbers, Fallible.bind_eq_error_iff, (checkRsaSize_reports n).ne_misuse,
    Fallible.throwIf_eq_error_iff, Fallible.throwUnless_eq_error_iff, Fallible.pure_eq_error_iff,
    checkRsaSize_eq_ok_iff, reduceCtorEq, and_false, false_or, or_false, and_true, exists_const,
    NegativePublic]

theorem ofRsaNumbers_failsOnly (e n : Int) : FailsOnly ReportedOrMagnitude (ofRsaNumbers e n) := by
  refine ((checkRsaSize_reports n).mono fun _ => .inl).bind fun _ _ => ?_
  refine .throwIf (.inr rfl) fun _ => ?_
  exact .throwUnless (.inl (Error.reported rfl)) fun _ => Fallible.failsOnly_ok _

theorem ofDsaNumbers_reports (p q g y : Int) : FailsOnly Reported (ofDsaNumbers p q g y) :=
  (checkDsa_reports p q g y).bind fun _ _ => Fallible.failsOnly_ok _

variable {c : KeyClass} {P : Error → Prop}

theorem readRsaPublic_failsOnly : Stateful.FailsOnly ReportedOrMagnitude readRsaPublic := by
  have hInteger := Packet.readInteger_reports.mono (Q := ReportedOrMagnitude) fun _ => .inl
  refine hInteger.bind fun e _ _ _ => ?_
  refine hInteger.bind fun n _ _ _ => ?_
  exact Packet.lift_failsOnly (ofRsaNumbers_failsOnly e n)

theorem readWholePublic_failsOnly_of (hReported : ∀ e, e.Reported → P e)
    (hRsa : c = .rsa → Stateful.FailsOnly P readRsaPublic) (keyType : String) :
    Stateful.FailsOnly P (readWholePublic c keyType) := by
  have hInteger := Packet.readInteger_reports.mono hReported
  have hPublic : Stateful.FailsOnly P (readPublic c) := by
    refine (Stateful.failsOnly_modify _).bind fun _ _ _ _ => ?_
    refine (Packet.readText_reports.mono hReported).bind fun tag _ _ _ => ?_
    refine .throwUnless (hReported _ (Error.reported rfl)) fun _ => ?_
    cases c with
    | rsa => exact hRsa rfl
    | dsa =>
      refine hInteger.bind fun p _ _ _ => ?_
      refine hInteger.bind fun q _ _ _ => ?_
      refine hInteger.bind fun g _ _ _ => ?_
      refine hInteger.bind fun y _ _ _ => ?_
      exact Packet.lift_failsOnly ((ofDsaNumbers_reports p q g y).mono hReported)
    | ecdsa =>
      simp only [readEcdsaPublic]
      cases NistCurve.ofKeyType? tag with
      | none => exact Stateful.failsOnly_throw (hReported _ (Error.reported rfl))
      | some curve =>
        refine ((readPoint_reports tag curve).mono hReported).bind fun point _ _ _ => ?_
        exact Stateful.failsOnly_pure _
    | ed25519 =>
      refine (readEd25519Bytes_reports.mono hReported).bind fun bs _ _ _ => ?_
      exact Stateful.failsOnly_pure _
  refine hPublic.bind fun body _ _ _ => ?_
  refine Stateful.failsOnly_get.bind fun p _ _ _ => ?_
  exact .throwIf (hReported _ (Error.reported rfl)) fun _ => Stateful.failsOnly_pure body

theorem readWholePublic_failsOnly (c : KeyClass) (keyType : String) :
    Stateful.FailsOnly ReportedOrMagnitude (readWholePublic c keyType) :=
  readWholePublic_failsOnly_of (fun _ => .inl) (fun _ => readRsaPublic_failsOnly) keyType

variable {here : Packet} {keyType : String}

theorem readRsaPublic_magnitude_iff :
    (∃ behind, readRsaPublic here = .error (.misuse .magnitude) behind) ↔
      ∃ e n behind, here.FieldsAt [e, n] behind ∧
        NegativePublic (TwosComplement.decode e) (TwosComplement.decode n) := by
  simp only [readRsaPublic, Stateful.bind_eq_error_iff, Packet.readInteger_reports.ne_misuse,
    false_or, Packet.readInteger_eq_ok_iff, Packet.lift_eq_error_iff, ofRsaNumbers_magnitude_iff,
    Packet.fieldsAt_cons_iff, Packet.fieldsAt_nil_iff]
  constructor
  · rintro ⟨behind, _, p₁, ⟨e, rfl, he⟩, _, p₂, ⟨n, rfl, hn⟩, hNegative, rfl⟩
    exact ⟨e, n, p₂, ⟨p₁, he, p₂, hn, rfl⟩, hNegative⟩
  · rintro ⟨e, n, _, ⟨p₁, he, p₂, hn, rfl⟩, hNegative⟩
    exact ⟨p₂, _, p₁, ⟨e, rfl, he⟩, _, p₂, ⟨n, rfl, hn⟩, hNegative, rfl⟩

theorem readPublic_magnitude_iff :
    (∃ behind, readPublic .rsa here = .error (.misuse .magnitude) behind) ↔
      ∃ e n behind, here.rewind.FieldsAt [Utf8.encode "ssh-rsa", e, n] behind ∧
        NegativePublic (TwosComplement.decode e) (TwosComplement.decode n) := by
  have hTypes (tag : String) : KeyClass.rsa.publicTypes.contains tag = true ↔ tag = "ssh-rsa" := by
    rw [List.contains_iff_mem]
    exact List.mem_singleton
  simp only [readPublic, Stateful.bind_eq_error_iff, Stateful.modify_eq_error_iff, false_or,
    Stateful.modify_eq_ok_iff, Packet.readText_reports.ne_misuse, Packet.readText_eq_ok_iff,
    Stateful.throwUnless_eq_error_iff, reduceCtorEq, false_and, and_false, hTypes]
  constructor
  · rintro ⟨behind, _, _, rfl, tag, p₁, hTag, rfl, h⟩
    obtain ⟨e, n, behind, hNumbers, hNegative⟩ := readRsaPublic_magnitude_iff.mp ⟨_, h⟩
    exact ⟨e, n, behind, Packet.fieldsAt_cons_iff.mpr ⟨p₁, hTag, hNumbers⟩, hNegative⟩
  · rintro ⟨e, n, behind, hAt, hNegative⟩
    obtain ⟨p₁, hTag, hNumbers⟩ := Packet.fieldsAt_cons_iff.mp hAt
    obtain ⟨stop, h⟩ := readRsaPublic_magnitude_iff.mpr ⟨e, n, behind, hNumbers, hNegative⟩
    exact ⟨stop, (), _, rfl, "ssh-rsa", p₁, hTag, rfl, h⟩

theorem readWholePublic_magnitude_iff :
    (∃ behind, readWholePublic c keyType here = .error (.misuse .magnitude) behind) ↔
      c = .rsa ∧ ∃ behind, readPublic .rsa here = .error (.misuse .magnitude) behind := by
  by_cases hClass : c = .rsa
  · subst hClass
    simp only [readWholePublic, Stateful.bind_eq_error_iff, Stateful.get_eq_error_iff,
      Stateful.throwIf_eq_error_iff, Stateful.pure_eq_error_iff, reduceCtorEq, false_and, and_false,
      or_false, exists_false, true_and]
  · refine iff_of_false ?_ fun h => hClass h.1
    rintro ⟨behind, h⟩
    exact (readWholePublic_failsOnly_of (fun _ => id) (absurd · hClass) keyType).ne_misuse h

end KeyBody

namespace Key

variable {keyType : String} {blob : Bytes}

/-- The bytes open with the fields of a public RSA key that has a negative number. -/
def OpensNegative (blob : Bytes) : Prop :=
  ∃ e n rest, blob = [Utf8.encode "ssh-rsa", e, n].flatMap Wire.string ++ rest ∧
    (∀ c ∈ [e, n], c.length ≤ Wire.fieldLimit) ∧
    KeyBody.NegativePublic (TwosComplement.decode e) (TwosComplement.decode n)

theorem ofTypedBlob_failsOnly (keyType : String) (blob : Bytes) :
    Fallible.FailsOnly KeyBody.ReportedOrMagnitude (ofTypedBlob keyType blob) := by
  rw [ofTypedBlob]
  cases KeyClass.ofIdentifier? keyType with
  | none => exact Fallible.failsOnly_error (.inl (Error.reported rfl))
  | some c =>
    refine (Packet.parse_failsOnly (KeyBody.readWholePublic_failsOnly c keyType) blob).bind
      fun body _ => ?_
    exact Fallible.failsOnly_ok _

theorem opensNegative_iff : OpensNegative blob ↔
    ∃ behind, KeyBody.readPublic .rsa (Packet.ofBytes blob) = .error (.misuse .magnitude) behind := by
  have hStart : (Packet.ofBytes blob).rewind = Packet.ofBytes blob := rfl
  rw [KeyBody.readPublic_magnitude_iff, hStart]
  constructor
  · rintro ⟨e, n, rest, hBlob, hLengths, hNegative⟩
    refine ⟨e, n, _, ⟨?_, Packet.advance_past hBlob⟩, hNegative⟩
    rw [List.forall_mem_cons]
    exact ⟨KeyBody.takes_name (.rsa ⟨0, 0, none⟩),
      fun c hc => Packet.takes_of_length_le (hLengths c hc)⟩
  · rintro ⟨e, n, behind, ⟨hTakes, hAt⟩, hNegative⟩
    exact ⟨e, n, behind.pending, hAt.pending,
      fun c hc => (hTakes c (List.mem_cons_of_mem _ hc)).length_le, hNegative⟩

theorem ofTypedBlob_magnitude_iff : ofTypedBlob keyType blob = .error (.misuse .magnitude) ↔
    keyType ∈ KeyClass.rsa.identifiers ∧ OpensNegative blob := by
  rw [opensNegative_iff, ofTypedBlob, ← KeyClass.ofIdentifier?_eq_some_iff]
  cases KeyClass.ofIdentifier? keyType with
  | none => simp
  | some c =>
    simp only [Fallible.bind_eq_error_iff, Fallible.pure_eq_error_iff, and_false, exists_false,
      or_false, Packet.parse_eq_error_iff, KeyBody.readWholePublic_magnitude_iff, Option.some.injEq]

end Key

namespace PublicLine

theorem ofText_format (line : String) : Fallible.FailsOnly IsFormat (ofText line) := by
  rw [ofText]
  split
  · split
    · exact Fallible.failsOnly_error (Error.isFormat rfl rfl)
    · rename_i blob _
      refine (Packet.parse_failsOnly Packet.readText_format blob).bind fun name _ => ?_
      exact .throwIf (Error.isFormat rfl rfl) fun _ => Fallible.failsOnly_ok _
  · exact Fallible.failsOnly_error (Error.isFormat rfl rfl)

theorem ofText_reports (line : String) : Fallible.FailsOnly Reported (ofText line) :=
  (ofText_format line).mono fun _ => IsFormat.reported

theorem keyType_of_ofText {line : String} {l : PublicLine} (h : ofText line = .ok l) :
    Packet.parse Packet.readText l.blob = .ok l.keyType := by
  rw [ofText] at h
  split at h
  · split at h
    · cases h
    · rename_i blob _
      simp only [Fallible.bind_eq_ok_iff, Fallible.throwIf_eq_ok_iff, Fallible.pure_eq_ok_iff,
        not_not] at h
      obtain ⟨name, hName, hSame, rfl⟩ := h
      exact hSame ▸ hName
  · cases h

end PublicLine

namespace Key

theorem ofLine_text (line : String) :
    ofLine (.text line) = PublicLine.ofText line >>= ofPublicLine := rfl

theorem ofPublicLine_failsOnly (l : PublicLine) :
    Fallible.FailsOnly KeyBody.ReportedOrMagnitude (ofPublicLine l) :=
  (ofTypedBlob_failsOnly l.keyType l.blob).bind fun _ _ => Fallible.failsOnly_ok _

theorem ofLine_failsOnly (line : String) :
    Fallible.FailsOnly KeyBody.ReportedOrMagnitude (ofLine (.text line)) := by
  rw [ofLine_text]
  exact ((PublicLine.ofText_reports line).mono fun _ => .inl).bind fun l _ => ofPublicLine_failsOnly l

variable {raw : Bytes}

theorem OpensNegative.readText (h : OpensNegative raw) :
    Packet.parse Packet.readText raw = .ok "ssh-rsa" := by
  obtain ⟨e, n, rest, hBlob, -⟩ := h
  rw [List.flatMap_cons, List.append_assoc] at hBlob
  exact Packet.parse_eq_ok_iff.mpr ⟨_, Packet.readText_eq_ok_iff.mpr
    ⟨KeyBody.takes_name (.rsa ⟨0, 0, none⟩), Packet.advance_past hBlob⟩⟩

theorem ofLine_magnitude_iff {line : String} : ofLine (.text line) = .error (.misuse .magnitude) ↔
    ∃ l, PublicLine.ofText line = .ok l ∧ OpensNegative l.blob := by
  simp only [ofLine_text, ofPublicLine, Fallible.bind_eq_error_iff,
    (PublicLine.ofText_reports line).ne_misuse, false_or, Fallible.pure_eq_error_iff, and_false,
    exists_false, or_false, ofTypedBlob_magnitude_iff]
  refine exists_congr fun l => and_congr_right fun hRead => and_iff_right_of_imp fun hOpens => ?_
  have hName := PublicLine.keyType_of_ofText hRead
  rw [hOpens.readText] at hName
  rw [← Except.ok.inj hName]
  exact List.mem_cons_self

end Key

namespace PemBlock

variable {data : Datum}

theorem readPublic_refusal (b : PemBlock) : Fallible.FailsOnly Reported
    ((Der.PublicKey.read b.body).mapError (Der.Refusal.inPublic b.label)) := by
  have hAll : Fallible.FailsOnly (fun _ => True) (Der.PublicKey.read b.body) := fun _ _ => trivial
  refine hAll.mapError ?_
  rintro (_ | _ | _ | _) -
  all_goals exact Error.reported rfl

theorem publicBody_reports (key : Der.PublicKey) : Fallible.FailsOnly Reported key.toBody := by
  cases key with
  | rsa n e => exact (KeyBody.checkRsaSize_reports n).bind fun _ _ => Fallible.failsOnly_ok _
  | dsa domain y => exact KeyBody.ofDsaNumbers_reports domain.p domain.q domain.g y
  | elliptic curve point =>
    rw [Der.PublicKey.toBody]
    split
    · exact Fallible.failsOnly_ok _
    · exact Fallible.failsOnly_error (Error.reported rfl)
  | ed25519 key => exact Fallible.failsOnly_ok _
  | foreign kind => exact Fallible.failsOnly_error (Error.reported rfl)

theorem loadPublic_reports {bs : Bytes} (hData : data.toBytes = .ok bs) (comment : Option String) :
    Fallible.FailsOnly Reported (loadPublic data comment) := by
  refine (ofDatum_reports hData).bind fun b _ => ?_
  refine (kindOf_reports b true).bind fun kind _ => ?_
  refine (readPublic_refusal b).bind fun key _ => ?_
  exact (publicBody_reports key).bind fun body _ => checkKind_reports kind _

end PemBlock

namespace KeyFile

variable {data : Datum} {s : String}

/-- The data is text without a PEM block for public keys, and its key line is that of an RSA key with
a negative number. -/
def MeetsNegativeNumber (data : Datum) : Prop :=
  ∃ s line l, data.toText = .ok s ∧ hasPublicLabel s = false ∧
    Container.firstKeyLineOfText s = some line ∧ PublicLine.ofText line = .ok l ∧
    Key.OpensNegative l.blob

theorem parsePublicKey_failsOnly (hText : data.toText = .ok s) :
    Fallible.FailsOnly KeyBody.ReportedOrMagnitude (parsePublicKey data) := by
  have hData := Datum.toBytes_eq_encode_iff.mpr hText
  rw [parsePublicKey_of_toText hText]
  split
  · exact (PemBlock.loadPublic_reports hData (some "")).mono fun _ => .inl
  · split
    · rename_i line _
      exact Key.ofLine_failsOnly line
    · exact Fallible.failsOnly_error (.inl (Error.reported rfl))

theorem parsePublicKey_magnitude_iff (hText : data.toText = .ok s) :
    parsePublicKey data = .error (.misuse .magnitude) ↔ MeetsNegativeNumber data := by
  have hData := Datum.toBytes_eq_encode_iff.mpr hText
  -- A PEM block holds natural numbers only, so the mistake is that of a key line.
  have hMeets : MeetsNegativeNumber data ↔ hasPublicLabel s = false ∧
      ∃ line, Container.firstKeyLineOfText s = some line ∧
        Key.ofLine (.text line) = .error (.misuse .magnitude) := by
    simp only [MeetsNegativeNumber, hText, Except.ok.injEq, Key.ofLine_magnitude_iff]
    constructor
    · rintro ⟨_, line, l, rfl, hLabel, hLine, hOpens⟩
      exact ⟨hLabel, line, hLine, l, hOpens⟩
    · rintro ⟨hLabel, line, hLine, l, hOpens⟩
      exact ⟨s, line, l, rfl, hLabel, hLine, hOpens⟩
  rw [hMeets, parsePublicKey_of_toText hText]
  cases hasPublicLabel s with
  | true => simp [(PemBlock.loadPublic_reports hData (some "")).ne_misuse]
  | false =>
    rw [if_neg Bool.false_ne_true]
    cases Container.firstKeyLineOfText s with
    | none => simp
    | some line => simp

theorem parsePublicKey_undecodable {bs : Bytes} (h : Utf8.decode? bs = none) :
    parsePublicKey (.bytes bs) = .error (.misuse .undecodable) := by
  have hText : (Datum.bytes bs).toText = .error (.misuse .undecodable) := by
    rw [Datum.toText, h]
  rw [parsePublicKey, PemBlock.labelOf, hText, Container.firstKeyLine, hText]
  rfl

/-- Text or bytes give a public key, or end in a failure that is reported, unless one of two mistakes
is made: the bytes are no text, or a number of an RSA key on a line is negative. -/
theorem parsePublicKey_outcome {bs : Bytes} (hData : data.toBytes = .ok bs) :
    ((∃ k, parsePublicKey data = .ok k ∧ k.canSign = false) ∨
      ∃ e, parsePublicKey data = .error e ∧
        (e.Reported ∨ e = .misuse .undecodable ∨ e = .misuse .magnitude)) ∧
    (parsePublicKey data = .error (.misuse .undecodable) ↔ ¬∃ s, data.toText = .ok s) ∧
    (parsePublicKey data = .error (.misuse .magnitude) ↔ MeetsNegativeNumber data) := by
  by_cases hText : ∃ s, data.toText = .ok s
  · obtain ⟨s, hText⟩ := hText
    have hFailsOnly := parsePublicKey_failsOnly hText
    refine ⟨?_, ?_, parsePublicKey_magnitude_iff hText⟩
    · cases hRun : parsePublicKey data with
      | ok k => exact .inl ⟨k, rfl, (publicAccepted_of_parsePublicKey hRun).canSign⟩
      | error e => exact .inr ⟨e, rfl, (hFailsOnly e hRun).imp_right .inr⟩
    · refine iff_of_false (fun hRun => ?_) (not_not_intro ⟨s, hText⟩)
      rcases hFailsOnly _ hRun with hReported | hOther
      · exact Error.not_reported _ hReported
      · cases hOther
  · have hRun : parsePublicKey data = .error (.misuse .undecodable) := by
      cases data with
      | text s => exact absurd ⟨s, rfl⟩ hText
      | bytes bs =>
        refine parsePublicKey_undecodable ?_
        by_contra hSome
        obtain ⟨s, hDecoded⟩ := Option.ne_none_iff_exists'.mp hSome
        exact hText ⟨s, by rw [Datum.toText, hDecoded]⟩
      | foreign value => cases hData
    rw [hRun]
    refine ⟨.inr ⟨_, rfl, .inr (.inl rfl)⟩, iff_of_true rfl hText, iff_of_false (by simp) ?_⟩
    rintro ⟨s, _, _, hFound, -⟩
    exact hText ⟨s, hFound⟩

/-- The blob of a public RSA key whose exponent is minus three. -/
def negativeBlob : Bytes :=
  [Utf8.encode "ssh-rsa", Wire.integerBytes (-3), Wire.integerBytes (2 ^ 1023)].flatMap Wire.string

theorem opensNegative_negativeBlob : Key.OpensNegative negativeBlob :=
  ⟨_, _, [], (List.append_nil _).symm, by decide +kernel, by decide +kernel, .inl (by decide)⟩

def negativeLine : List Char := "ssh-rsa ".toList ++ Base64.encode negativeBlob

theorem ofText_negativeLine : PublicLine.ofText (String.ofList negativeLine) =
    .ok ⟨"ssh-rsa", negativeBlob, none⟩ := by
  have hFields : Text.fields 2 negativeLine = ["ssh-rsa".toList, Base64.encode negativeBlob] := by
    decide +kernel
  rw [PublicLine.ofText, String.toList_ofList, hFields]
  simp only [Base64.decode?_encode, opensNegative_negativeBlob.readText]
  rfl

theorem meetsNegativeNumber_negativeLine :
    MeetsNegativeNumber (.text (String.ofList negativeLine)) := by
  have hLines : PemBlock.trimmedLines (String.ofList negativeLine) = [negativeLine] := by
    rw [PemBlock.trimmedLines, String.toList_ofList]
    decide +kernel
  have hLabel : hasPublicLabel (String.ofList negativeLine) = false := by
    rw [hasPublicLabel, PemBlock.labelOfText?, hLines]
    decide +kernel
  have hLine : Container.firstKeyLineOfText (String.ofList negativeLine) =
      some (String.ofList negativeLine) := by
    change ((PemBlock.trimmedLines (String.ofList negativeLine)).find? Container.isKeyLine).map
      String.ofList = _
    rw [hLines]
    rfl
  exact ⟨_, _, _, rfl, hLabel, hLine, ofText_negativeLine, opensNegative_negativeBlob⟩

/-- Neither a byte that spells no text nor a line with a negative exponent is refused with a failure
that is reported. -/
theorem parsePublicKey_not_reported :
    (∃ e, parsePublicKey (.bytes [0xFF]) = .error e ∧ ¬e.Reported) ∧
      ∃ e, parsePublicKey (.text (String.ofList negativeLine)) = .error e ∧ ¬e.Reported := by
  constructor
  · exact ⟨_, parsePublicKey_undecodable (by decide), Error.not_reported _⟩
  · exact ⟨_, (parsePublicKey_magnitude_iff rfl).mpr meetsNegativeNumber_negativeLine,
      Error.not_reported _⟩

theorem parsePublicKey_outcome_mistakes :
    parsePublicKey (.bytes [0xFF]) = .error (.misuse .undecodable) ∧
      parsePublicKey (.text (String.ofList negativeLine)) = .error (.misuse .magnitude) := by
  have hByte : (Datum.bytes [0xFF]).toBytes = .ok [0xFF] := rfl
  have hLine : (Datum.text (String.ofList negativeLine)).toBytes =
      .ok (Utf8.encode (String.ofList negativeLine)) := rfl
  constructor
  · refine (parsePublicKey_outcome hByte).2.1.mpr ?_
    rintro ⟨s, h⟩
    have hNone : Utf8.decode? [0xFF] = none := by decide
    rw [Datum.toText, hNone] at h
    cases h
  · exact (parsePublicKey_outcome hLine).2.2.mpr meetsNegativeNumber_negativeLine

end KeyFile
end SshKeys
