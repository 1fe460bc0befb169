import SshKeys.Proofs.NegativeInverse
import SshKeys.Proofs.PemSealing
/-!
# How the unlocking of an envelope fails

Whatever the data and the passphrase are, it is a failure that is reported, apart from two mistakes:
the private section may hold an RSA entry with a negative inverse, and the passphrase may be a text
that no bytes spell.
-/
namespace SshKeys

open Error (Reported)
open Stateful (FailsOnly)

namespace Datum

variable {d : Datum}

/-- A text that no bytes spell. -/
def IsBroken (d : Datum) : Prop := ∃ value, d = .foreign (.brokenText value)

/-- What can be handed over as a passphrase: nothing, bytes, or text of any kind. -/
def IsPassphrase (d : Datum) : Prop :=
  d = .foreign .nothing ∨ (∃ bs, d.toBytes = .ok bs) ∨ d.IsBroken

theorem IsPassphrase.isSecret_or_isBroken (h : d.IsPassphrase) (hSome : d.isEmpty = false) :
    d.IsSecret ∨ d.IsBroken := by
  rcases h with rfl | hBytes | hBroken
  · cases hSome
  · exact .inl ⟨hSome, hBytes⟩
  · exact .inr hBroken

theorem IsBroken.isEmpty_eq_false (h : d.IsBroken) : d.isEmpty = false := by
  obtain ⟨value, rfl⟩ := h
  rfl

theorem IsBroken.toBytes_error (h : d.IsBroken) : d.toBytes = .error .notEncodable := by
  obtain ⟨value, rfl⟩ := h
  rfl

end Datum

theorem Error.not_reported_notEncodable : ¬notEncodable.Reported := by
  rintro ⟨family, -, h⟩
  cases h

theorem Stretching.deriveFor_of_isBroken {s : Stretching} {suite : CipherSuite} {passphrase : Datum}
    (hSuite : suite ∈ CipherSuite.all) (hSealed : suite.isNone = false) (hName : s.name ≠ "none")
    (hBroken : passphrase.IsBroken) : s.deriveFor suite passphrase = .error .notEncodable := by
  obtain ⟨scheme, hScheme⟩ : ∃ scheme, suite.scheme = some scheme := by
    rw [CipherSuite.isNone, Option.isNone_eq_false_iff] at hSealed
    exact Option.isSome_iff_exists.mp hSealed
  obtain ⟨-, -, hSize, -⟩ := CipherSuite.sizes_of_scheme suite hSuite _ hScheme
  have hAsked : ¬(s.name = "none" ∨ suite.keySize + suite.ivSize = 0) := by
    rintro (hPlain | hNothing)
    · exact hName hPlain
    · omega
  rw [deriveFor, derive, if_neg hAsked, hBroken.toBytes_error]
  rfl

namespace CipherSuite

variable {suite : CipherSuite} {s : Stretching} {passphrase : Datum}

/-- The text is decrypted under a key, so that there has to be one. -/
def AsksForKey (suite : CipherSuite) (text : Bytes) : Prop :=
  suite.isNone = false ∧ text.length % suite.blockSize = 0

theorem settled_decrypt (suite : CipherSuite) (s : Stretching) (passphrase : Datum) (text : Bytes) :
    (suite.decrypt s passphrase text).Settled := by
  refine (Action.settled_ofExcept _).bind fun _ => ?_
  split
  · exact Action.settled_pure _
  · split
    · exact .inr ⟨_, Action.Fails.bind (Action.fails_throw rfl)⟩
    · refine (Action.settled_log _ _ _).bind fun _ => ?_
      exact (Action.settled_ofExcept _).bind fun _ => Action.settled_pure _

/-- Parameters that an envelope can hold never fail to give a key for bytes. -/
theorem decrypt_failsOnly (hSuite : suite ∈ all) (hSound : s.Sound)
    (hName : suite.isNone = false → s.name ≠ "none") (hPassphrase : passphrase.IsPassphrase)
    (text : Bytes) :
    FailsOnly
      (fun e => e.Reported ∨ e = .notEncodable ∧ passphrase.IsBroken ∧ suite.AsksForKey text)
      (suite.decrypt s passphrase text) := by
  have hAligned : Fallible.FailsOnly Reported (suite.checkAligned text) := by
    rw [checkAligned]
    split
    · exact Fallible.failsOnly_ok ()
    · exact Fallible.failsOnly_error (Error.reported rfl)
  refine (Action.ofExcept_failsOnly (hAligned.mono fun _ => .inl)).bind fun _ _ _ hWhole => ?_
  replace hWhole := checkAligned_eq_ok_iff.mp (Action.ofExcept_eq_ok_iff.mp hWhole).1
  cases hNone : suite.isNone with
  | true => exact Stateful.failsOnly_pure text
  | false =>
    rw [if_neg Bool.false_ne_true]
    refine .throwIf (.inl (Error.reported rfl)) fun hGiven => ?_
    refine (Action.log_failsOnly _ _ _).bind fun _ _ _ _ => ?_
    rcases hPassphrase.isSecret_or_isBroken (Bool.eq_false_iff.mpr hGiven) with hSecret | hBroken
    · obtain ⟨key, iv, hDerived, -⟩ :=
        s.deriveFor_eq_ok hSuite hNone hSound (hName hNone) hSecret
      rw [hDerived]
      exact (Stateful.failsOnly_pure _).bind fun _ _ _ _ => Stateful.failsOnly_pure _
    · rw [s.deriveFor_of_isBroken hSuite hNone (hName hNone) hBroken]
      exact (Action.ofExcept_failsOnly (Fallible.failsOnly_error
        (.inr ⟨rfl, hBroken, hNone, hWhole⟩))).bind fun _ _ _ _ => Stateful.failsOnly_pure _

theorem decrypt_of_isBroken {text : Bytes} (hSuite : suite ∈ all) (hName : s.name ≠ "none")
    (hBroken : passphrase.IsBroken) (hAsks : suite.AsksForKey text) (j : Journal) :
    ∃ j', suite.decrypt s passphrase text j = .error .notEncodable j' := by
  obtain ⟨hNone, hWhole⟩ := hAsks
  rw [decrypt, checkAligned_ok hWhole, Action.bind_ofExcept_ok, if_neg (by simp [hNone]),
    if_neg (by simp [hBroken.isEmpty_eq_false])]
  beta_reduce
  rw [Action.bind_log, s.deriveFor_of_isBroken hSuite hNone hName hBroken]
  exact ⟨_, rfl⟩

end CipherSuite

namespace Envelope

open KeyBody (ReportedOrMagnitude)

variable {e : Envelope} {data passphrase : Datum} {raw plain : Bytes} {j j' : Journal}

/-- The envelope is encrypted, and its private section is made of whole blocks. -/
def AsksForKey (e : Envelope) : Prop :=
  ∃ suite ∈ CipherSuite.all, suite.name = e.cipherName ∧ suite.AsksForKey e.payload

/-- Under the passphrase, the private section decrypts to some bytes. -/
def Opens (e : Envelope) (passphrase : Datum) (plain : Bytes) : Prop :=
  ∃ suite ∈ CipherSuite.all, suite.name = e.cipherName ∧
    (suite.decrypt e.stretching passphrase e.payload).Yields plain

theorem ofBytes_of_load (h : load raw j = .ok e j') : ofBytes raw = .ok e := by
  simp only [load, Stateful.bind_eq_ok_iff, Action.ofExcept_eq_ok_iff,
    Stateful.pure_eq_ok_iff] at h
  obtain ⟨_, _, ⟨hRead, -⟩, -, -, -, rfl, -⟩ := h
  exact hRead

theorem WellFormed.stretching_ne_none (hForm : e.WellFormed) {suite : CipherSuite}
    (hMember : suite ∈ CipherSuite.all) (hName : suite.name = e.cipherName)
    (hSealed : suite.isNone = false) : e.stretching.name ≠ "none" := by
  intro hPlain
  have hNone := (CipherSuite.isNone_iff suite hMember).mpr (hName.trans (hForm.plain hPlain))
  rw [hSealed] at hNone
  cases hNone

theorem decryptPayload_failsOnly (hForm : e.WellFormed) {suite : CipherSuite}
    (hSuite : CipherSuite.ofName (some e.cipherName) = .ok suite)
    (hPassphrase : passphrase.IsPassphrase) :
    FailsOnly (fun err => err.Reported ∨ err = .notEncodable ∧ passphrase.IsBroken ∧ e.AsksForKey)
      (suite.decrypt e.stretching passphrase e.payload) := by
  obtain ⟨hMember, hName⟩ := CipherSuite.ofName_eq_ok_iff.mp hSuite
  refine (CipherSuite.decrypt_failsOnly hMember hForm.stretching
    (hForm.stretching_ne_none hMember hName) hPassphrase e.payload).mono ?_
  rintro err (hReported | ⟨rfl, hBroken, hAsks⟩)
  · exact .inl hReported
  · exact .inr ⟨rfl, hBroken, suite, hMember, hName, hAsks⟩

theorem unlock_failsOnly (raw : Bytes) (hPassphrase : passphrase.IsPassphrase) :
    FailsOnly (fun err => ReportedOrMagnitude err ∨ err = .notEncodable ∧ passphrase.IsBroken ∧
      ∃ e, ofBytes raw = .ok e ∧ e.AsksForKey) (unlock raw passphrase) := by
  refine ((load_reports raw).mono fun _ h => .inl (.inl h)).bind fun e i i' hLoad => ?_
  have hRead := ofBytes_of_load hLoad
  have hForm := (ofBytes_eq_ok_iff.mp hRead).1
  refine FailsOnly.bind ?_ fun _ _ _ _ => Stateful.failsOnly_pure _
  refine FailsOnly.bind ?_ fun suite _ _ hSuite => ?_
  · exact Action.ofExcept_failsOnly ((CipherSuite.ofName_reports _).mono fun _ h => .inl (.inl h))
  · refine ((decryptPayload_failsOnly hForm (Action.ofExcept_eq_ok_iff.mp hSuite).1
      hPassphrase).mono ?_).bind fun plain _ _ _ => ?_
    · rintro err (hReported | ⟨rfl, hBroken, hAsks⟩)
      · exact .inl (.inl hReported)
      · exact .inr ⟨rfl, hBroken, e, hRead, hAsks⟩
    · exact Action.ofExcept_failsOnly
        ((PrivateSection.ofBytes_failsOnly plain e.publicBlobs).mono fun _ => .inl)

theorem unlock_of_isBroken (hBroken : passphrase.IsBroken) (hRead : ofBytes raw = .ok e)
    (hAsks : e.AsksForKey) (j : Journal) :
    ∃ j', unlock raw passphrase j = .error .notEncodable j' := by
  obtain ⟨suite, hMember, hName, hSuite⟩ := hAsks
  have hForm := (ofBytes_eq_ok_iff.mp hRead).1
  obtain ⟨i, hLoad⟩ := load_ok hRead j
  obtain ⟨j', hDecrypt⟩ := CipherSuite.decrypt_of_isBroken hMember
    (hForm.stretching_ne_none hMember hName hSuite.1) hBroken hSuite i
  refine ⟨j', ?_⟩
  rw [unlock, Stateful.bind_ok hLoad]
  refine Stateful.bind_error ?_
  rw [decrypt, CipherSuite.ofName_eq_ok_iff.mpr ⟨hMember, hName⟩, Action.bind_ofExcept_ok]
  exact Stateful.bind_error hDecrypt

/-- Unlocking meets a negative number exactly on a section that is read up to one. -/
theorem unlock_magnitude_iff (hPassphrase : passphrase.IsPassphrase) :
    (∃ j', unlock raw passphrase j = .error (.misuse .magnitude) j') ↔
      ∃ e plain, ofBytes raw = .ok e ∧ e.Opens passphrase plain ∧
        PrivateSection.Breaks plain e.publicBlobs := by
  constructor
  · rintro ⟨j', h⟩
    rcases Stateful.bind_eq_error_iff.mp h with h | ⟨e, i, hLoad, h⟩
    · exact absurd h (load_reports raw).ne_misuse
    · have hRead := ofBytes_of_load hLoad
      have hForm := (ofBytes_eq_ok_iff.mp hRead).1
      rcases Stateful.bind_eq_error_iff.mp h with h | ⟨_, _, -, h⟩
      · rcases Stateful.bind_eq_error_iff.mp h with h | ⟨suite, _, hSuite, h⟩
        · exact absurd h (Action.ofExcept_failsOnly (CipherSuite.ofName_reports _)).ne_misuse
        · have hFound := (Action.ofExcept_eq_ok_iff.mp hSuite).1
          rcases Stateful.bind_eq_error_iff.mp h with h | ⟨plain, i', hPlain, h⟩
          · rcases decryptPayload_failsOnly hForm hFound hPassphrase _ _ _ h with hReported | ⟨hOther, -⟩
            · exact absurd hReported (Error.not_reported _)
            · cases hOther
          · obtain ⟨hMember, hName⟩ := CipherSuite.ofName_eq_ok_iff.mp hFound
            refine ⟨e, plain, hRead, ⟨suite, hMember, hName,
              (CipherSuite.settled_decrypt _ _ _ _).yields hPlain⟩, ?_⟩
            exact PrivateSection.ofBytes_magnitude_iff.mp (Action.ofExcept_eq_error_iff.mp h).1
      · cases h
  · rintro ⟨e, plain, hRead, ⟨suite, hMember, hName, hOpens⟩, hBreaks⟩
    obtain ⟨i, hLoad⟩ := load_ok hRead j
    obtain ⟨i', hPlain⟩ := hOpens i
    have hSuite := CipherSuite.ofName_eq_ok_iff.mpr ⟨hMember, hName⟩
    refine ⟨i', ?_⟩
    rw [unlock, Stateful.bind_ok hLoad]
    refine Stateful.bind_error ?_
    rw [decrypt, hSuite, Action.bind_ofExcept_ok, Stateful.bind_ok hPlain,
      PrivateSection.ofBytes_magnitude_iff.mpr hBreaks]
    rfl

/-- The bytes that are taken for an envelope: what is in armour, if the data is text or the begin
marker occurs in it, and otherwise the data itself. -/
def content : Datum → Except Error Bytes
  | .text s => Armour.decodeText s
  | other => do if ← Armour.isMarked other then Armour.decode other else other.toBytes

theorem decodeKeys_eq (data passphrase : Datum) : decodeKeys data passphrase =
    (do unlock (← Action.ofExcept (content data)) passphrase : Action (List Key)) := by
  cases data with
  | text s => rfl
  | bytes bs =>
    have hMarked : Armour.isMarked (.bytes bs) = .ok (Armour.occurs Armour.mark bs) := rfl
    simp only [decodeKeys, content, hMarked]
    cases Armour.occurs Armour.mark bs with
    | true => rfl
    | false => rfl
  | foreign value => rfl

theorem content_reports {bs : Bytes} (hData : data.toBytes = .ok bs) :
    Fallible.FailsOnly Reported (content data) := by
  cases data with
  | text s => exact Armour.decodeText_reports s
  | bytes bs =>
    refine (Fallible.failsOnly_ok _).bind fun marked _ => ?_
    cases marked with
    | true =>
      refine Fallible.FailsOnly.bind ?_ fun s _ => Armour.decodeText_reports s
      refine (Datum.toTextOr_failsOnly .notText hData).mono ?_
      rintro e rfl
      exact Error.reported rfl
    | false => exact Fallible.failsOnly_ok bs
  | foreign value => cases hData

/-- The data is taken for an envelope that is encrypted. -/
def HoldsSealed (data : Datum) : Prop :=
  ∃ raw e, content data = .ok raw ∧ ofBytes raw = .ok e ∧ e.AsksForKey

theorem decodeKeys_failsOnly {bs : Bytes} (hData : data.toBytes = .ok bs)
    (hPassphrase : passphrase.IsPassphrase) :
    FailsOnly (fun err => ReportedOrMagnitude err ∨
      err = .notEncodable ∧ passphrase.IsBroken ∧ HoldsSealed data) (decodeKeys data passphrase) := by
  rw [decodeKeys_eq]
  refine (Action.ofExcept_failsOnly
    ((content_reports hData).mono fun _ h => .inl (.inl h))).bind fun raw _ _ hRaw => ?_
  refine (unlock_failsOnly raw hPassphrase).mono ?_
  rintro err (hFailure | ⟨rfl, hBroken, e, hRead⟩)
  · exact .inl hFailure
  · exact .inr ⟨rfl, hBroken, raw, e, (Action.ofExcept_eq_ok_iff.mp hRaw).1, hRead⟩

theorem decodeKeys_of_isBroken (hBroken : passphrase.IsBroken) (hSealed : HoldsSealed data)
    (j : Journal) : ∃ j', decodeKeys data passphrase j = .error .notEncodable j' := by
  obtain ⟨raw, e, hContent, hRead, hAsks⟩ := hSealed
  rw [decodeKeys_eq, hContent, Action.bind_ofExcept_ok]
  exact unlock_of_isBroken hBroken hRead hAsks j

/-- The data is taken for an envelope that opens to a section which is read up to an RSA entry with
a negative inverse. -/
def HoldsNegativeInverse (data passphrase : Datum) : Prop :=
  ∃ raw e plain, content data = .ok raw ∧ ofBytes raw = .ok e ∧ e.Opens passphrase plain ∧
    PrivateSection.Breaks plain e.publicBlobs

theorem decodeKeys_magnitude_iff {bs : Bytes} (hData : data.toBytes = .ok bs)
    (hPassphrase : passphrase.IsPassphrase) :
    (∃ j', decodeKeys data passphrase j = .error (.misuse .magnitude) j') ↔
      HoldsNegativeInverse data passphrase := by
  rw [decodeKeys_eq]
  cases hContent : content data with
  | error e =>
    constructor
    · rintro ⟨j', h⟩
      have hReported := content_reports hData e hContent
      cases h
      exact absurd hReported (Error.not_reported _)
    · rintro ⟨raw, _, _, hRaw, -⟩
      rw [hContent] at hRaw
      cases hRaw
  | ok raw =>
    refine (unlock_magnitude_iff (j := j) hPassphrase).trans ?_
    constructor
    · rintro ⟨e, plain, hRead⟩
      exact ⟨raw, e, plain, hContent, hRead⟩
    · rintro ⟨raw', e, plain, hRaw, hRead⟩
      cases hContent.symm.trans hRaw
      exact ⟨e, plain, hRead⟩

theorem opens_unsealed {blobs : List Bytes} {payload : Bytes}
    (hWhole : payload.length % CipherSuite.none.blockSize = 0) :
    Opens ⟨"none", Stretching.none, blobs, payload⟩ passphrase payload := by
  exact ⟨CipherSuite.none, List.mem_cons_self, rfl,
    fun j => ⟨j, CipherSuite.decrypt_of_isNone hWhole rfl j⟩⟩

theorem content_unmarked {bs : Bytes} (hMark : Armour.occurs Armour.mark bs = false) :
    content (.bytes bs) = .ok bs := by
  have hMarked : Armour.isMarked (.bytes bs) = .ok (Armour.occurs Armour.mark bs) := rfl
  simp only [content, hMarked, hMark]
  rfl

theorem decodeKeys_ne_nil {keys : List Key} (h : decodeKeys data passphrase j = .ok keys j') :
    keys ≠ [] := by
  rw [decodeKeys_eq] at h
  obtain ⟨raw, _, -, h⟩ := Stateful.bind_eq_ok_iff.mp h
  obtain ⟨e, _, hLoad, -⟩ := Stateful.bind_eq_ok_iff.mp h
  exact (blobs_of_unlock (ofBytes_of_load hLoad) h).2

end Envelope
end SshKeys
