import SshKeys.Proofs.Acceptance
import SshKeys.Proofs.Failure
/-!
# The one mistake that a private section can lead its reader into

RSA numbers are checked for their ranges first and for everything else afterwards; in between the
inverse is taken for a natural number. So a section breaks off with the error of a mistaken caller
exactly where, behind entries that are read, an RSA entry stands whose numbers are in range and
whose inverse is negative.
-/
namespace SshKeys

open Error (Reported)

namespace KeyBody

variable {n e d iqmp p q : Int}

/-- Numbers of an RSA entry that pass the checks on sizes, signs and ranges, while the inverse is
negative. -/
structure NegativeInverse (n e d iqmp p q : Int) : Prop where
  size : 2 ^ 1023 ≤ n.natAbs
  primes : 1 < p ∧ 1 < q ∧ p * q = n
  exponents : 3 ≤ e ∧ e < n ∧ e % 2 = 1 ∧ 1 < d ∧ d < n
  parts : d.toNat % (p.toNat - 1) % 2 = 1 ∧ d.toNat % (q.toNat - 1) % 2 = 1
  inverse : iqmp < 0

def entryNumbers (n e d iqmp p q : Int) : RsaNumbers :=
  { n := n.toNat, e := e.toNat, d := d.toNat, p := p.toNat, q := q.toNat,
    dmp1 := d.toNat % (p.toNat - 1), dmq1 := d.toNat % (q.toNat - 1), iqmp := iqmp.toNat }

theorem areInRange_entryNumbers (hPrimes : 1 < p ∧ 1 < q ∧ p * q = n) (hd : 0 < d)
    (hInverse : iqmp < 0) :
    (entryNumbers n e d iqmp p q).areInRange = true ↔ (3 ≤ e ∧ e < n ∧ e % 2 = 1 ∧ d < n) ∧
      d.toNat % (p.toNat - 1) % 2 = 1 ∧ d.toNat % (q.toNat - 1) % 2 = 1 := by
  obtain ⟨hp, hq, hProduct⟩ := hPrimes
  have hpBelow : p < n := by
    rw [← hProduct]
    exact lt_mul_of_one_lt_right (by omega) hq
  have hqBelow : q < n := by
    rw [← hProduct]
    exact lt_mul_of_one_lt_left (by omega) hp
  have hpPart : d.toNat % (p.toNat - 1) < p.toNat - 1 := Nat.mod_lt _ (by omega)
  have hqPart : d.toNat % (q.toNat - 1) < q.toNat - 1 := Nat.mod_lt _ (by omega)
  have hNatural : p.toNat * q.toNat = n.toNat := by
    rw [← Int.toNat_mul (by omega) (by omega), hProduct]
  rw [RsaNumbers.areInRange_iff]
  simp only [entryNumbers, hNatural, and_true]
  omega

theorem ofRsaEntry_magnitude_iff :
    ofRsaEntry n e d iqmp p q = .error (.misuse .magnitude) ↔ NegativeInverse n e d iqmp p q := by
  have hRange : ofRsaEntry n e d iqmp p q = .error (.misuse .magnitude) ↔
      2 ^ 1023 ≤ n.natAbs ∧ ¬(p ≤ 1 ∨ q ≤ 1 ∨ d ≤ 0) ∧ p * q = n ∧ ¬d ≤ 1 ∧ ¬e < 0 ∧
        (entryNumbers n e d iqmp p q).areInRange = true ∧ iqmp < 0 := by
    simp only [ofRsaEntry, Fallible.bind_eq_error_iff, (checkRsaSize_reports n).ne_misuse,
      Fallible.throwIf_eq_error_iff, Fallible.throwUnless_eq_error_iff, Fallible.pure_eq_error_iff,
      checkRsaSize_eq_ok_iff, reduceCtorEq, and_false, false_or, or_false, and_true, exists_const,
      not_not, ne_eq, entryNumbers]
  rw [hRange]
  constructor
  · rintro ⟨hSize, hSigns, hProduct, hd, he, hInRange, hInverse⟩
    have hPrimes : 1 < p ∧ 1 < q ∧ p * q = n := by omega
    obtain ⟨hExponents, hParts⟩ :=
      (areInRange_entryNumbers hPrimes (by omega) hInverse).mp hInRange
    exact ⟨hSize, hPrimes, by omega, hParts, hInverse⟩
  · intro h
    obtain ⟨hp, hq, hProduct⟩ := h.primes
    obtain ⟨he, heBelow, heOdd, hd, hdBelow⟩ := h.exponents
    exact ⟨h.size, by omega, hProduct, by omega, by omega,
      (areInRange_entryNumbers h.primes (by omega) h.inverse).mpr
        ⟨⟨he, heBelow, heOdd, hdBelow⟩, h.parts⟩, h.inverse⟩

/-- Failures that are reported, and the mistake of a negative number. -/
def ReportedOrMagnitude (err : Error) : Prop := err.Reported ∨ err = .misuse .magnitude

theorem ofRsaEntry_failsOnly (n e d iqmp p q : Int) :
    Fallible.FailsOnly ReportedOrMagnitude (ofRsaEntry n e d iqmp p q) := by
  have hReported {err : Error} {family : Family} (h : err.kind = .reported family) :
      ReportedOrMagnitude err := .inl (Error.reported h)
  refine ((checkRsaSize_reports n).mono fun _ => .inl).bind fun _ _ => ?_
  refine .throwIf (hReported rfl) fun _ => ?_
  refine .throwIf (hReported rfl) fun _ => ?_
  refine .throwIf (hReported rfl) fun _ => ?_
  refine .throwIf (hReported rfl) fun _ => ?_
  refine .throwUnless (hReported rfl) fun _ => ?_
  refine .throwIf (.inr rfl) fun _ => ?_
  exact .throwUnless (hReported rfl) fun _ => Fallible.failsOnly_ok _

theorem readPrivateFields_reports {keyType : String} {c : KeyClass} (h : c ≠ .rsa) :
    Stateful.FailsOnly Reported (readPrivateFields keyType c) := by
  cases c with
  | rsa => exact absurd rfl h
  | dsa =>
    refine Packet.readInteger_reports.bind fun p _ _ _ => ?_
    refine Packet.readInteger_reports.bind fun q _ _ _ => ?_
    refine Packet.readInteger_reports.bind fun g _ _ _ => ?_
    refine Packet.readInteger_reports.bind fun y _ _ _ => ?_
    refine Packet.readInteger_reports.bind fun x _ _ _ => ?_
    exact Packet.lift_failsOnly (ofDsaEntry_reports p q g y x)
  | ecdsa =>
    rw [readPrivateFields]
    cases NistCurve.ofKeyType? keyType with
    | none => exact Stateful.failsOnly_throw (Error.reported rfl)
    | some curve =>
      refine (readPoint_reports keyType curve).bind fun point _ _ _ => ?_
      refine Packet.readInteger_reports.bind fun scalar _ _ _ => ?_
      exact Packet.lift_failsOnly (ofEcdsaEntry_reports curve point scalar)
  | ed25519 =>
    refine readEd25519Bytes_reports.bind fun publicKey _ _ _ => ?_
    refine Packet.readString_reports.bind fun secret _ _ _ => ?_
    exact Packet.lift_failsOnly (ofEd25519Entry_reports publicKey secret)

theorem readPrivateFields_failsOnly (keyType : String) (c : KeyClass) :
    Stateful.FailsOnly ReportedOrMagnitude (readPrivateFields keyType c) := by
  by_cases hClass : c = .rsa
  · subst hClass
    have hInteger := Packet.readInteger_reports.mono (Q := ReportedOrMagnitude) fun _ => .inl
    refine hInteger.bind fun n _ _ _ => ?_
    refine hInteger.bind fun e _ _ _ => ?_
    refine hInteger.bind fun d _ _ _ => ?_
    refine hInteger.bind fun iqmp _ _ _ => ?_
    refine hInteger.bind fun p _ _ _ => ?_
    refine hInteger.bind fun q _ _ _ => ?_
    exact Packet.lift_failsOnly (ofRsaEntry_failsOnly n e d iqmp p q)
  · exact (readPrivateFields_reports hClass).mono fun _ => .inl

theorem readEntry_failsOnly : Stateful.FailsOnly ReportedOrMagnitude readEntry := by
  refine (Packet.readText_reports.mono fun _ => .inl).bind fun keyType _ _ _ => ?_
  cases KeyClass.ofIdentifier? keyType with
  | none => exact Stateful.failsOnly_throw (.inl (Error.reported rfl))
  | some c => exact readPrivateFields_failsOnly keyType c

variable {here : Packet}

/-- What comes next is the entry of an RSA key with a negative inverse. -/
def NegativeInverseAt (here : Packet) : Prop :=
  ∃ tag ∈ KeyClass.rsa.identifiers, ∃ fields behind,
    here.FieldsAt (Utf8.encode tag :: fields) behind ∧
    ∃ n e d iqmp p q, fields.map TwosComplement.decode = [n, e, d, iqmp, p, q] ∧
      NegativeInverse n e d iqmp p q

theorem readRsaFields_magnitude_iff {tag : String} :
    (∃ behind, readPrivateFields tag .rsa here = .error (.misuse .magnitude) behind) ↔
      ∃ fields behind, here.FieldsAt fields behind ∧
        ∃ n e d iqmp p q, fields.map TwosComplement.decode = [n, e, d, iqmp, p, q] ∧
          NegativeInverse n e d iqmp p q := by
  simp only [readPrivateFields, Stateful.bind_eq_error_iff, Packet.readInteger_reports.ne_misuse,
    false_or, Packet.readInteger_eq_ok_iff, Packet.lift_eq_error_iff, ofRsaEntry_magnitude_iff]
  constructor
  · rintro ⟨behind, _, p₁, ⟨n, rfl, hn⟩, _, p₂, ⟨e, rfl, he⟩, _, p₃, ⟨d, rfl, hd⟩, _, p₄,
      ⟨iqmp, rfl, hIqmp⟩, _, p₅, ⟨p, rfl, hp⟩, _, p₆, ⟨q, rfl, hq⟩, hNegative, rfl⟩
    refine ⟨[n, e, d, iqmp, p, q], p₆, ?_, _, _, _, _, _, _, rfl, hNegative⟩
    simp only [Packet.fieldsAt_cons_iff, Packet.fieldsAt_nil_iff]
    exact ⟨p₁, hn, p₂, he, p₃, hd, p₄, hIqmp, p₅, hp, p₆, hq, rfl⟩
  · rintro ⟨fields, behind, hAt, _, _, _, _, _, _, hFields, hNegative⟩
    simp only [List.map_eq_cons_iff, List.map_eq_nil_iff] at hFields
    obtain ⟨n, _, rfl, rfl, e, _, rfl, rfl, d, _, rfl, rfl, iqmp, _, rfl, rfl, p, _, rfl, rfl, q, _,
      rfl, rfl, rfl⟩ := hFields
    simp only [Packet.fieldsAt_cons_iff, Packet.fieldsAt_nil_iff] at hAt
    obtain ⟨p₁, hn, p₂, he, p₃, hd, p₄, hIqmp, p₅, hp, p₆, hq, rfl⟩ := hAt
    exact ⟨p₆, _, p₁, ⟨n, rfl, hn⟩, _, p₂, ⟨e, rfl, he⟩, _, p₃, ⟨d, rfl, hd⟩, _, p₄,
      ⟨iqmp, rfl, hIqmp⟩, _, p₅, ⟨p, rfl, hp⟩, _, p₆, ⟨q, rfl, hq⟩, hNegative, rfl⟩

theorem readEntry_magnitude_iff :
    (∃ behind, readEntry here = .error (.misuse .magnitude) behind) ↔ NegativeInverseAt here := by
  simp only [readEntry, Stateful.bind_eq_error_iff, Packet.readText_reports.ne_misuse, false_or,
    Packet.readText_eq_ok_iff, NegativeInverseAt, Packet.fieldsAt_cons_iff]
  constructor
  · rintro ⟨behind, tag, p₁, hTag, h⟩
    cases hClass : KeyClass.ofIdentifier? tag with
    | none =>
      rw [hClass] at h
      cases h
    | some c =>
      simp only [hClass] at h
      obtain rfl : c = .rsa := by
        by_contra hOther
        exact (readPrivateFields_reports hOther).ne_misuse h
      obtain ⟨fields, behind, hFields, hNumbers⟩ := readRsaFields_magnitude_iff.mp ⟨_, h⟩
      exact ⟨tag, KeyClass.ofIdentifier?_eq_some_iff.mp hClass, fields, behind, ⟨p₁, hTag, hFields⟩,
        hNumbers⟩
  · rintro ⟨tag, hClass, fields, behind, ⟨p₁, hTag, hFields⟩, hNumbers⟩
    obtain ⟨stop, h⟩ := readRsaFields_magnitude_iff.mpr ⟨fields, behind, hFields, hNumbers⟩
    refine ⟨stop, tag, p₁, hTag, ?_⟩
    rw [KeyClass.ofIdentifier?_eq_some_iff.mpr hClass]
    exact h

end KeyBody

namespace PrivateSection

open KeyBody (ReportedOrMagnitude NegativeInverseAt)

variable {here : Packet} {plain : Bytes} {blobs : List Bytes}

theorem readComment_reports (index : Nat) (blob : Bytes) (key : Key) :
    Stateful.FailsOnly Reported (do
      let key := { key with comment := some (← Packet.readText) }
      unless Datum.agree (key.blob.map UInt8.toNat) (blob.map UInt8.toNat) do
        throw (.entryMismatch index)
      return key : Reader Key) := by
  refine Packet.readText_reports.bind fun comment _ _ _ => ?_
  exact .throwUnless (Error.reported rfl) fun _ => Stateful.failsOnly_pure _

theorem readKey_failsOnly (index : Nat) (blob : Bytes) :
    Stateful.FailsOnly ReportedOrMagnitude (readKey index blob) := by
  have hEntry : Stateful.FailsOnly ReportedOrMagnitude Key.readEntry :=
    KeyBody.readEntry_failsOnly.bind fun _ _ _ _ => Stateful.failsOnly_pure _
  exact hEntry.bind fun key _ _ _ => (readComment_reports index blob key).mono fun _ => .inl

theorem readKeys_failsOnly (done : List Key) (blobs : List Bytes) :
    Stateful.FailsOnly ReportedOrMagnitude (readKeys done blobs) := by
  induction blobs generalizing done with
  | nil => exact Stateful.failsOnly_pure _
  | cons blob blobs ih => exact (readKey_failsOnly _ blob).bind fun key _ _ _ => ih (key :: done)

theorem readPadding_reports (check1 check2 : Nat) (entries : List Key) :
    Stateful.FailsOnly Reported (do
      let padding ← Packet.rest
      KeyBody.lift (checkPadding 0 padding)
      return ⟨check1, check2, entries, padding⟩ : Reader PrivateSection) := by
  refine (Stateful.failsOnly_get.bind fun p _ _ _ => Stateful.failsOnly_pure _).bind
    fun padding _ _ _ => ?_
  exact (Packet.lift_failsOnly (checkPadding_reports 0 padding)).bind
    fun _ _ _ _ => Stateful.failsOnly_pure _

theorem ofBytes_failsOnly (plain : Bytes) (blobs : List Bytes) :
    Fallible.FailsOnly ReportedOrMagnitude (ofBytes plain blobs) := by
  have hNumber := Packet.readUInt32_reports.mono (Q := ReportedOrMagnitude) fun _ => .inl
  refine Packet.parse_failsOnly ?_ plain
  refine hNumber.bind fun check1 _ _ _ => ?_
  refine hNumber.bind fun check2 _ _ _ => ?_
  refine .throwIf (.inl (Error.reported rfl)) fun _ => ?_
  refine (readKeys_failsOnly [] blobs).bind fun entries _ _ _ => ?_
  exact (readPadding_reports check1 check2 entries).mono fun _ => .inl

theorem readKey_magnitude_iff (index : Nat) (blob : Bytes) :
    (∃ behind, readKey index blob here = .error (.misuse .magnitude) behind) ↔
      NegativeInverseAt here := by
  rw [← KeyBody.readEntry_magnitude_iff]
  constructor
  · rintro ⟨behind, h⟩
    rcases Stateful.bind_eq_error_iff.mp h with h | ⟨key, _, -, h⟩
    · rcases Stateful.bind_eq_error_iff.mp h with h | ⟨_, _, -, h⟩
      · exact ⟨behind, h⟩
      · cases h
    · exact absurd h (readComment_reports index blob key).ne_misuse
  · rintro ⟨behind, h⟩
    exact ⟨behind, Stateful.bind_error (Stateful.bind_error h)⟩

/-- Behind entries that are read, and have the first of the public keys, comes the entry of an RSA
key with a negative inverse. -/
def BreaksAt (here : Packet) (blobs : List Bytes) : Prop :=
  ∃ entries pieces there, entries.length < blobs.length ∧
    List.Forall₂ (fun k blob => k.body.Accepted ∧ k.blob = blob) entries
      (blobs.take entries.length) ∧
    List.Forall₂ (EntryBytes here.limit) entries pieces ∧ here.Advance pieces.flatten there ∧
    NegativeInverseAt there

theorem breaksAt_cons_iff {blob : Bytes} : BreaksAt here (blob :: blobs) ↔
    NegativeInverseAt here ∨ ∃ k there, k.body.Accepted ∧ k.blob = blob ∧
      (∃ bytes, EntryBytes here.limit k bytes ∧ here.Advance bytes there) ∧
      BreaksAt there blobs := by
  constructor
  · rintro ⟨entries, pieces, there, hLength, hEntries, hPieces, hAt, hNegative⟩
    cases entries with
    | nil =>
      cases hPieces
      rw [Packet.advance_nil_iff.mp hAt]
      exact .inl hNegative
    | cons k entries =>
      cases hPieces with
      | @cons _ bytes _ pieces hBytes hPieces =>
        rw [List.length_cons, List.take_succ_cons, List.forall₂_cons] at hEntries
        obtain ⟨⟨hAccepted, hBlob⟩, hEntries⟩ := hEntries
        rw [List.flatten_cons] at hAt
        obtain ⟨between, hFirst, hRest⟩ := Packet.advance_append_iff.mp hAt
        rw [← hFirst.limit] at hPieces
        exact .inr ⟨k, between, hAccepted, hBlob, ⟨bytes, hBytes, hFirst⟩, entries, pieces, there,
          Nat.lt_of_succ_lt_succ hLength, hEntries, hPieces, hRest, hNegative⟩
  · rintro (hNegative | ⟨k, between, hAccepted, hBlob, ⟨bytes, hBytes, hFirst⟩, entries, pieces,
      there, hLength, hEntries, hPieces, hRest, hNegative⟩)
    · exact ⟨[], [], here, Nat.succ_pos _, .nil, .nil, .nil here, hNegative⟩
    · rw [hFirst.limit] at hPieces
      refine ⟨k :: entries, bytes :: pieces, there, Nat.succ_lt_succ hLength,
        .cons ⟨hAccepted, hBlob⟩ hEntries, .cons hBytes hPieces, ?_, hNegative⟩
      rw [List.flatten_cons]
      exact hFirst.trans hRest

theorem readKeys_magnitude_iff (done : List Key) :
    (∃ behind, readKeys done blobs here = .error (.misuse .magnitude) behind) ↔
      BreaksAt here blobs := by
  induction blobs generalizing done here with
  | nil =>
    constructor
    · rintro ⟨_, h⟩
      cases h
    · rintro ⟨_, _, _, hLength, -⟩
      cases hLength
  | cons blob blobs ih =>
    rw [breaksAt_cons_iff, ← readKey_magnitude_iff done.length blob]
    constructor
    · rintro ⟨behind, h⟩
      rcases Stateful.bind_eq_error_iff.mp h with h | ⟨k, there, hKey, h⟩
      · exact .inl ⟨behind, h⟩
      · obtain ⟨hAccepted, hBlob, hBytes⟩ := readKey_eq_ok_iff.mp hKey
        exact .inr ⟨k, there, hAccepted, hBlob, hBytes, (ih _).mp ⟨behind, h⟩⟩
    · rintro (⟨behind, h⟩ | ⟨k, there, hAccepted, hBlob, hBytes, hRest⟩)
      · exact ⟨behind, Stateful.bind_error h⟩
      · obtain ⟨behind, h⟩ := (ih _).mpr hRest
        refine ⟨behind, ?_⟩
        rw [readKeys, Stateful.bind_ok (readKey_eq_ok_iff.mpr ⟨hAccepted, hBlob, hBytes⟩)]
        exact h

/-- The check numbers are read first, and neither they nor the padding can be a negative inverse. -/
theorem read_magnitude_iff :
    (∃ behind, read blobs here = .error (.misuse .magnitude) behind) ↔
      ∃ check start, check < 2 ^ 32 ∧ here.Advance (Wire.uint32 check ++ Wire.uint32 check) start ∧
        BreaksAt start blobs := by
  constructor
  · rintro ⟨behind, h⟩
    simp only [read, Stateful.bind_eq_error_iff, Packet.readUInt32_reports.ne_misuse, false_or,
      Packet.readUInt32_eq_ok_iff] at h
    obtain ⟨check, _, ⟨hFits, hFirst⟩, check', start, ⟨-, hSecond⟩, h⟩ := h
    by_cases hSame : check = check'
    · subst hSame
      rw [if_neg (not_not_intro rfl)] at h
      refine ⟨check, start, hFits, hFirst.trans hSecond, ?_⟩
      rcases Stateful.bind_eq_error_iff.mp h with h | ⟨entries, _, -, h⟩
      · exact (readKeys_magnitude_iff []).mp ⟨behind, h⟩
      · exact absurd h (readPadding_reports check check entries).ne_misuse
    · rw [if_pos hSame] at h
      cases h
  · rintro ⟨check, start, hFits, hHead, hBreaks⟩
    obtain ⟨between, hFirst, hSecond⟩ := Packet.advance_append_iff.mp hHead
    obtain ⟨behind, hKeys⟩ := (readKeys_magnitude_iff []).mpr hBreaks
    refine ⟨behind, ?_⟩
    rw [read, Stateful.bind_ok (Packet.readUInt32_eq_ok_iff.mpr ⟨hFits, hFirst⟩),
      Stateful.bind_ok (Packet.readUInt32_eq_ok_iff.mpr ⟨hFits, hSecond⟩),
      if_neg (not_not_intro rfl)]
    exact Stateful.bind_error hKeys

/-- The bytes of a section that is read up to an RSA entry with a negative inverse: check numbers
that agree, entries with the first of the public keys, and the strings of that RSA entry. -/
def Breaks (plain : Bytes) (blobs : List Bytes) : Prop :=
  ∃ check entries pieces tag fields rest, check < 2 ^ 32 ∧
    plain = Wire.uint32 check ++ (Wire.uint32 check ++ (pieces.flatten ++
      ((Utf8.encode tag :: fields).flatMap Wire.string ++ rest))) ∧
    entries.length < blobs.length ∧
    List.Forall₂ (fun k blob => k.body.Accepted ∧ k.blob = blob) entries
      (blobs.take entries.length) ∧
    List.Forall₂ (EntryBytes Wire.fieldLimit) entries pieces ∧
    tag ∈ KeyClass.rsa.identifiers ∧
    (∀ c ∈ Utf8.encode tag :: fields, Packet.Takes Wire.fieldLimit c) ∧
    ∃ n e d iqmp p q, fields.map TwosComplement.decode = [n, e, d, iqmp, p, q] ∧
      KeyBody.NegativeInverse n e d iqmp p q

theorem ofBytes_magnitude_iff :
    ofBytes plain blobs = .error (.misuse .magnitude) ↔ Breaks plain blobs := by
  rw [ofBytes, Packet.parse_eq_error_iff, read_magnitude_iff]
  constructor
  · rintro ⟨check, start, hFits, hHead, entries, pieces, there, hLength, hEntries, hPieces, hAt,
      tag, hTag, fields, behind, ⟨hTakes, hFields⟩, hNumbers⟩
    rw [hAt.limit, hHead.limit] at hTakes
    rw [hHead.limit] at hPieces
    have hPlain := (hHead.trans (hAt.trans hFields)).pending
    simp only [List.append_assoc] at hPlain
    exact ⟨check, entries, pieces, tag, fields, behind.pending, hFits, hPlain, hLength, hEntries,
      hPieces, hTag, hTakes, hNumbers⟩
  · rintro ⟨check, entries, pieces, tag, fields, rest, hFits, rfl, hLength, hEntries, hPieces, hTag,
      hTakes, hNumbers⟩
    rw [← List.append_assoc]
    exact ⟨check, _, hFits, Packet.advance_past rfl, entries, pieces, _, hLength, hEntries, hPieces,
      Packet.advance_past rfl, tag, hTag, fields, _, ⟨hTakes, Packet.advance_past rfl⟩, hNumbers⟩

end PrivateSection
end SshKeys
