import SshKeys.Proofs.Failure
import SshKeys.Proofs.RawReading
/-!
# Cut and overlong input

A reader delimits what it takes if its success depends on those bytes alone and if a part of them
makes it run out. Compositions of such readers are of the same kind, so with a check that nothing is
left at the end, what is read has no proper prefix and no extension that can be read: the cut shows
where the bytes run out, before anything else can be looked at, and the extension at the end.
-/
namespace SshKeys

namespace Error

/-- There are fewer bytes than fields or keys to be read. -/
inductive BrokenOff : Error → Prop
  | truncated (wanted remaining : Nat) : BrokenOff (.truncated wanted remaining)
  | keyCount (count : Nat) : BrokenOff (.keyCount count)

theorem BrokenOff.isFormat {e : Error} (h : e.BrokenOff) : e.IsFormat := by
  cases h with
  | truncated => exact ⟨.truncated, rfl, by decide⟩
  | keyCount => exact ⟨.format, rfl, by decide⟩

end Error

open Error (BrokenOff IsFormat)

/-- A proper prefix of two pieces breaks off in the first or in the second. -/
theorem Bytes.append_cut {a b front more : Bytes} (h : a ++ b = front ++ more) :
    (∃ lost, lost ≠ [] ∧ a = front ++ lost) ∨ ∃ rest, front = a ++ rest ∧ b = rest ++ more := by
  rcases List.append_eq_append_iff.mp h with ⟨rest, hFront, hRest⟩ | ⟨lost, hFirst, hLost⟩
  · exact .inr ⟨rest, hFront, hRest⟩
  · cases lost with
    | nil =>
      rw [List.append_nil] at hFirst
      exact .inr ⟨[], by rw [hFirst, List.append_nil], hLost.symm⟩
    | cons c lost => exact .inl ⟨c :: lost, List.cons_ne_nil _ _, hFirst⟩

namespace Packet

variable {α β : Type} {reader : Reader α} {f : α → Reader β} {limit : Int} {bs cs : Bytes} {a : α}
  {b : β} {p q : Packet} {trailing : Nat → Error}

/-- The reader gives `a` for `bs` whatever follows, and a part of `bs` is too little for it. -/
structure Delimits (reader : Reader α) (limit : Int) (bs : Bytes) (a : α) : Prop where
  takes : ∀ q q' : Packet, q.limit = limit → q.Advance bs q' → reader q = .ok a q'
  breaks : ∀ (q : Packet) (lost : Bytes), q.limit = limit → bs = q.pending ++ lost → lost ≠ [] →
    ∃ wanted left q', reader q = .error (.truncated wanted left) q'

theorem Delimits.bind (h : Delimits reader limit bs a) (hf : Delimits (f a) limit cs b) :
    Delimits (reader >>= f) limit (bs ++ cs) b where
  takes q q'' hLimit hAt := by
    obtain ⟨q', hFirst, hSecond⟩ := advance_append_iff.mp hAt
    rw [Stateful.bind_ok (h.takes q q' hLimit hFirst)]
    exact hf.takes q' q'' (hFirst.limit.trans hLimit) hSecond
  breaks q lost hLimit hCut hLost := by
    rcases Bytes.append_cut hCut with ⟨more, hMore, hFirst⟩ | ⟨rest, hFirst, hSecond⟩
    · obtain ⟨wanted, left, q', hError⟩ := h.breaks q more hLimit hFirst hMore
      exact ⟨wanted, left, q', Stateful.bind_error hError⟩
    · rw [Stateful.bind_ok (h.takes q _ hLimit (advance_past hFirst))]
      exact hf.breaks _ lost hLimit hSecond hLost

/-- Whenever the reader succeeds, it delimits what it takes. -/
def Delimiting (reader : Reader α) : Prop :=
  ∀ p a p', reader p = .ok a p' → ∃ bs, p.Advance bs p' ∧ Delimits reader p.limit bs a

theorem Delimiting.bind (h : Delimiting reader) (hf : ∀ a, Delimiting (f a)) :
    Delimiting (reader >>= f) := by
  intro p b p'' hRead
  obtain ⟨a, p', hFirst, hSecond⟩ := Stateful.bind_eq_ok_iff.mp hRead
  obtain ⟨bs, hAt, hTakes⟩ := h p a p' hFirst
  obtain ⟨cs, hRestAt, hRest⟩ := hf a p' b p'' hSecond
  rw [hAt.limit] at hRest
  exact ⟨bs ++ cs, hAt.trans hRestAt, hTakes.bind hRest⟩

theorem delimiting_pure (a : α) : Delimiting (pure a) := by
  intro p b p' hRead
  obtain ⟨rfl, rfl⟩ := Stateful.pure_eq_ok_iff.mp hRead
  refine ⟨[], .nil p, ⟨fun q q' _ hAt => ?_, fun q lost _ hCut hLost => ?_⟩⟩
  · rw [← advance_nil_iff.mp hAt]
    rfl
  · exact absurd (List.append_eq_nil_iff.mp hCut.symm).2 hLost

theorem delimiting_throw (e : Error) : Delimiting (throw e : Reader α) := nofun

theorem Delimiting.throwIf {c : Prop} [Decidable c] {e : Error} (h : Delimiting reader) :
    Delimiting (if c then (do throw e; reader) else reader) := by
  split
  · exact (delimiting_throw e).bind fun _ => h
  · exact h

theorem Delimiting.throwUnless {c : Prop} [Decidable c] {e : Error} (h : Delimiting reader) :
    Delimiting (if c then reader else (do throw e; reader)) := by
  split
  · exact h
  · exact (delimiting_throw e).bind fun _ => h

theorem delimiting_lift (x : Except Error α) : Delimiting (KeyBody.lift x) := by
  cases x with
  | error e => exact delimiting_throw e
  | ok a => exact delimiting_pure a

/-- The limit of strings stays the same while reading. -/
theorem delimiting_limit {f : Int → Reader α} (h : ∀ limit, Delimiting (f limit)) :
    Delimiting (do f (← get).limit) := by
  intro p a p' hRead
  obtain ⟨bs, hAt, hTakes⟩ := h p.limit p a p' hRead
  refine ⟨bs, hAt, ⟨fun q q' hLimit hNext => ?_, fun q lost hLimit hCut hLost => ?_⟩⟩
  · rw [Stateful.bind_ok (Stateful.get_eq_ok_iff.mpr ⟨rfl, rfl⟩), hLimit]
    exact hTakes.takes q q' hLimit hNext
  · rw [Stateful.bind_ok (Stateful.get_eq_ok_iff.mpr ⟨rfl, rfl⟩), hLimit]
    exact hTakes.breaks q lost hLimit hCut hLost

theorem delimiting_read (count : Nat) : Delimiting (read count) := by
  intro p bs p' hRead
  obtain ⟨hLength, hAt⟩ := read_eq_ok_iff.mp hRead
  refine ⟨bs, hAt, ⟨fun q q' _ hNext => read_eq_ok_iff.mpr ⟨hLength, hNext⟩, ?_⟩⟩
  intro q lost _ hCut hLost
  have hShort : (q.pending.take count).length < count := by
    have hPart := List.length_pos_of_ne_nil hLost
    rw [List.length_take, ← hLength, hCut, List.length_append]
    omega
  exact ⟨count, q.remaining, q, if_pos hShort⟩

theorem delimiting_readUInt32 : Delimiting readUInt32 :=
  (delimiting_read 4).bind fun _ => delimiting_pure _

theorem delimiting_readString : Delimiting readString := by
  have hBody (length : Nat) (limit : Int) : Delimiting (do
      if limit < length then throw (.lengthOverflow length limit)
      read length) := (delimiting_read length).throwIf
  exact delimiting_readUInt32.bind fun length => delimiting_limit (hBody length)

theorem delimiting_readText : Delimiting readText := by
  refine delimiting_readString.bind fun bs => ?_
  cases Utf8.decode? bs with
  | none => exact delimiting_throw _
  | some s => exact delimiting_pure s

theorem delimiting_readInteger : Delimiting readInteger :=
  delimiting_readString.bind fun _ => delimiting_pure _

/-- On what the reader succeeds it comes to the end, it breaks off on less, and on more it tells how
many bytes are left. -/
structure Completes (trailing : Nat → Error) (reader : Reader α) (limit : Int) (bs : Bytes) :
    Prop where
  breaks : ∀ (q : Packet) (lost : Bytes), q.limit = limit → bs = q.pending ++ lost → lost ≠ [] →
    ∃ e q', reader q = .error e q' ∧ e.BrokenOff
  overruns : ∀ (q : Packet) (extra : Bytes), q.limit = limit → q.pending = bs ++ extra → extra ≠ [] →
    ∃ q', reader q = .error (trailing extra.length) q'

def Completing (trailing : Nat → Error) (reader : Reader α) : Prop :=
  ∀ p a p', reader p = .ok a p' → Completes trailing reader p.limit p.pending

theorem Delimiting.completing (h : Delimiting reader) (hf : ∀ a, Completing trailing (f a)) :
    Completing trailing (reader >>= f) := by
  intro p b p'' hRead
  obtain ⟨a, p', hFirst, hSecond⟩ := Stateful.bind_eq_ok_iff.mp hRead
  obtain ⟨bs, hAt, hTakes⟩ := h p a p' hFirst
  have hRest := hf a p' b p'' hSecond
  rw [hAt.limit] at hRest
  rw [hAt.pending]
  refine ⟨fun q lost hLimit hCut hLost => ?_, fun q extra hLimit hMore hExtra => ?_⟩
  · rcases Bytes.append_cut hCut with ⟨more, hMissing, hPart⟩ | ⟨rest, hPassed, hPart⟩
    · obtain ⟨wanted, left, q', hError⟩ := hTakes.breaks q more hLimit hPart hMissing
      exact ⟨_, q', Stateful.bind_error hError, .truncated wanted left⟩
    · rw [Stateful.bind_ok (hTakes.takes q _ hLimit (advance_past hPassed))]
      exact hRest.breaks _ lost hLimit hPart hLost
  · rw [List.append_assoc] at hMore
    rw [Stateful.bind_ok (hTakes.takes q _ hLimit (advance_past hMore))]
    exact hRest.overruns _ extra hLimit rfl hExtra

theorem Completing.throwIf {c : Prop} [Decidable c] {e : Error} (h : Completing trailing reader) :
    Completing trailing (if c then (do throw e; reader) else reader) := by
  split
  · exact (delimiting_throw e).completing fun _ => h
  · exact h

theorem completing_end (reader : Reader α) : Completing trailing (do
    let left := (← get).remaining
    if left ≠ 0 then throw (trailing left)
    reader) := by
  intro p a p' hRead
  have hEnd : p.pending = [] := by
    simp only [Stateful.bind_eq_ok_iff, Stateful.get_eq_ok_iff, Stateful.throwIf_eq_ok_iff] at hRead
    obtain ⟨_, _, ⟨rfl, rfl⟩, hLeft, -⟩ := hRead
    exact List.length_eq_zero_iff.mp (not_not.mp hLeft)
  rw [hEnd]
  refine ⟨fun q lost _ hCut hLost => ?_, fun q extra _ hMore hExtra => ?_⟩
  · exact absurd (List.append_eq_nil_iff.mp hCut.symm).2 hLost
  · have hLeft : q.remaining = extra.length := congrArg List.length hMore
    have hSome : extra.length ≠ 0 := by simpa using hExtra
    refine ⟨q, ?_⟩
    rw [Stateful.bind_ok (Stateful.get_eq_ok_iff.mpr ⟨rfl, rfl⟩), hLeft]
    exact congrFun (if_pos hSome) q

theorem Completing.countGuard {count : Nat} (h : Completing trailing reader) :
    Completing trailing (do
      if (← get).remaining / 4 < count then throw (.keyCount count)
      reader) := by
  intro p a p' hRead
  simp only [Stateful.bind_eq_ok_iff, Stateful.get_eq_ok_iff, Stateful.throwIf_eq_ok_iff] at hRead
  obtain ⟨q, q', ⟨hState, hSame⟩, hRoom, hRead⟩ := hRead
  rw [hState] at hRoom
  have hReader := h p a p' (hSame ▸ hRead)
  refine ⟨fun q lost hLimit hCut hLost => ?_, fun q extra hLimit hMore hExtra => ?_⟩
  · rw [Stateful.bind_ok (Stateful.get_eq_ok_iff.mpr ⟨rfl, rfl⟩)]
    by_cases hFew : q.remaining / 4 < count
    · exact ⟨_, q, congrFun (if_pos hFew) q, .keyCount count⟩
    · obtain ⟨e, q', hError, hBroken⟩ := hReader.breaks q lost hLimit hCut hLost
      exact ⟨e, q', (congrFun (if_neg hFew) q).trans hError, hBroken⟩
  · have hFew : ¬q.remaining / 4 < count := by
      rw [remaining] at hRoom ⊢
      rw [hMore, List.length_append]
      omega
    obtain ⟨q', hError⟩ := hReader.overruns q extra hLimit hMore hExtra
    refine ⟨q', ?_⟩
    rw [Stateful.bind_ok (Stateful.get_eq_ok_iff.mpr ⟨rfl, rfl⟩)]
    exact (congrFun (if_neg hFew) q).trans hError

section Whole

variable {front lost content extra : Bytes}

theorem Delimiting.parse_append (h : Delimiting reader) (hRead : parse reader content = .ok a)
    (extra : Bytes) : parse reader (content ++ extra) = .ok a := by
  obtain ⟨p', hReader⟩ := parse_eq_ok_iff.mp hRead
  obtain ⟨bs, hAt, hTakes⟩ := h _ a p' hReader
  have hMore : (ofBytes (content ++ extra)).pending = bs ++ (p'.pending ++ extra) := by
    rw [← List.append_assoc, ← hAt.pending]
    rfl
  exact parse_eq_ok_iff.mpr ⟨_, hTakes.takes _ _ rfl (advance_past hMore)⟩

theorem Delimiting.parse_front (h : Delimiting reader) (hRead : parse reader (front ++ lost) = .ok a) :
    parse reader front = .ok a ∨
      ∃ wanted left, parse reader front = .error (.truncated wanted left) := by
  obtain ⟨p', hReader⟩ := parse_eq_ok_iff.mp hRead
  obtain ⟨bs, hAt, hTakes⟩ := h _ a p' hReader
  rcases Bytes.append_cut hAt.pending.symm with ⟨missing, hMissing, hPart⟩ | ⟨rest, hPassed, -⟩
  · obtain ⟨wanted, left, q', hError⟩ := hTakes.breaks (ofBytes front) missing rfl hPart hMissing
    exact .inr ⟨wanted, left, parse_error hError⟩
  · exact .inl (parse_eq_ok_iff.mpr ⟨_, hTakes.takes (ofBytes front) _ rfl (advance_past hPassed)⟩)

theorem Completing.parse_append (h : Completing trailing reader)
    (hRead : parse reader content = .ok a) (hExtra : extra ≠ []) :
    parse reader (content ++ extra) = .error (trailing extra.length) := by
  obtain ⟨p', hReader⟩ := parse_eq_ok_iff.mp hRead
  obtain ⟨q', hError⟩ := (h _ a p' hReader).overruns (ofBytes (content ++ extra)) extra rfl rfl hExtra
  exact parse_error hError

theorem Completing.parse_front (h : Completing trailing reader)
    (hRead : parse reader (front ++ lost) = .ok a) (hLost : lost ≠ []) :
    ∃ e, parse reader front = .error e ∧ e.BrokenOff := by
  obtain ⟨p', hReader⟩ := parse_eq_ok_iff.mp hRead
  obtain ⟨e, q', hError, hBroken⟩ := (h _ a p' hReader).breaks (ofBytes front) lost rfl rfl hLost
  exact ⟨e, parse_error hError, hBroken⟩

end Whole

end Packet

namespace Envelope

open Packet

variable {front lost data extra : Bytes} {e : Envelope}

theorem delimiting_readStrings (done : List Bytes) (count : Nat) :
    Delimiting (readStrings done count) := by
  induction count generalizing done with
  | zero => exact delimiting_pure _
  | succ count ih => exact delimiting_readString.bind fun bs => ih (bs :: done)

/-- A cut shows before the next check on what has been read, since that has passed before. -/
theorem completing_readFields : Completing .sectionTrailing readFields := by
  refine delimiting_readText.completing fun cipherName => ?_
  refine delimiting_readText.completing fun stretchingName => ?_
  refine delimiting_readString.completing fun options => ?_
  refine (delimiting_lift _).completing fun suite => ?_
  refine (delimiting_lift _).completing fun stretching => .throwIf ?_
  refine delimiting_readUInt32.completing fun count => .throwIf (.countGuard ?_)
  refine (delimiting_readStrings [] count).completing fun publicBlobs => ?_
  refine delimiting_readString.completing fun payload => ?_
  exact completing_end _

theorem completing_marked : Completing .sectionTrailing (do
    discard (Packet.read magic.length)
    readFields) :=
  ((delimiting_read magic.length).bind fun _ => delimiting_pure ()).completing fun _ =>
    completing_readFields

theorem ofBytes_of_magic (h : magic <+: data) :
    ofBytes data = parse (do discard (Packet.read magic.length); readFields) data :=
  if_pos (List.isPrefixOf_iff_prefix.mpr h)

theorem magic_of_ofBytes (h : ofBytes data = .ok e) : magic <+: data := by
  rw [ofBytes] at h
  split at h
  · rename_i hMagic
    exact List.isPrefixOf_iff_prefix.mp hMagic
  · cases h

theorem ofBytes_front (h : ofBytes (front ++ lost) = .ok e) (hLost : lost ≠ []) :
    ∃ err, ofBytes front = .error err ∧ (err = .magicMissing ∨ err.BrokenOff) := by
  have hRead := (ofBytes_of_magic (magic_of_ofBytes h)).symm.trans h
  by_cases hMagic : magic <+: front
  · obtain ⟨err, hError, hBroken⟩ := completing_marked.parse_front hRead hLost
    exact ⟨err, (ofBytes_of_magic hMagic).trans hError, .inr hBroken⟩
  · refine ⟨.magicMissing, if_neg ?_, .inl rfl⟩
    rwa [List.isPrefixOf_iff_prefix]

theorem ofBytes_append (h : ofBytes data = .ok e) (hExtra : extra ≠ []) :
    ofBytes (data ++ extra) = .error (.sectionTrailing extra.length) := by
  have hMagic := magic_of_ofBytes h
  rw [ofBytes_of_magic (hMagic.trans (List.prefix_append data extra))]
  exact completing_marked.parse_append ((ofBytes_of_magic hMagic).symm.trans h) hExtra

end Envelope

namespace KeyBody

open Packet

/-- The reader of public keys, from the start of a packet. -/
def readTyped (keyClass : KeyClass) : Reader KeyBody := do
  let keyType ← Packet.readText
  unless keyClass.publicTypes.contains keyType do throw (.wrongKeyType keyClass.name keyType)
  match keyClass with
  | .rsa => readRsaPublic
  | .dsa => readDsaPublic
  | .ecdsa => readEcdsaPublic keyType
  | .ed25519 => readEd25519Public

/-- The reader up to the end of the packet. -/
def readTypedWhole (keyClass : KeyClass) (keyType : String) : Reader KeyBody := do
  let body ← readTyped keyClass
  let left := (← get).remaining
  if left ≠ 0 then throw (.keyTrailing left keyType)
  return body

theorem parse_readWholePublic (keyClass : KeyClass) (keyType : String) (content : Bytes) :
    parse (readWholePublic keyClass keyType) content =
      parse (readTypedWhole keyClass keyType) content := rfl

theorem delimiting_readPoint (keyType : String) (curve : NistCurve) :
    Delimiting (readPoint keyType curve) := by
  refine delimiting_readText.bind fun name => .throwIf ?_
  refine delimiting_readString.bind fun bs => .throwIf (.throwIf ?_)
  cases curve.curve.readUncompressed? bs with
  | none => exact delimiting_throw _
  | some q => exact delimiting_pure q

theorem delimiting_readTyped (keyClass : KeyClass) : Delimiting (readTyped keyClass) := by
  refine delimiting_readText.bind fun keyType => .throwUnless ?_
  cases keyClass with
  | rsa =>
    exact delimiting_readInteger.bind fun e => delimiting_readInteger.bind fun n =>
      delimiting_lift _
  | dsa =>
    exact delimiting_readInteger.bind fun p => delimiting_readInteger.bind fun q =>
      delimiting_readInteger.bind fun g => delimiting_readInteger.bind fun y => delimiting_lift _
  | ecdsa =>
    simp only [readEcdsaPublic]
    cases NistCurve.ofKeyType? keyType with
    | none => exact delimiting_throw _
    | some curve => exact (delimiting_readPoint keyType curve).bind fun q => delimiting_pure _
  | ed25519 =>
    have hBytes : Delimiting readEd25519Bytes :=
      delimiting_readString.bind fun bs => (delimiting_pure bs).throwIf
    exact hBytes.bind fun publicKey => delimiting_pure _

theorem completing_readTypedWhole (keyClass : KeyClass) (keyType : String) :
    Completing (.keyTrailing · keyType) (readTypedWhole keyClass keyType) :=
  (delimiting_readTyped keyClass).completing fun body => completing_end (pure body)

end KeyBody

namespace Key

open Packet

variable {front lost blob extra : Bytes} {k : Key} {keyType : String}

theorem readText_of_ofBlob (h : ofBlob blob = .ok k) : parse readText blob = .ok k.name := by
  obtain ⟨-, -, fields, -, hTakes, hBlob⟩ := ofBlob_eq_ok_iff.mp h
  rw [hBlob]
  exact parse_eq_ok_iff.mpr ⟨_, readText_eq_ok_iff.mpr
    ⟨hTakes _ List.mem_cons_self, advance_past rfl⟩⟩

theorem ofBlob_reads (h : ofBlob blob = .ok k) : ∃ keyClass,
    parse readText blob = .ok k.name ∧ KeyClass.ofIdentifier? k.name = some keyClass ∧
      parse (KeyBody.readWholePublic keyClass k.name) blob = .ok k.body := by
  have hName := readText_of_ofBlob h
  rw [ofBlob, hName, Fallible.bind_ok, ofTypedBlob] at h
  split at h
  · rename_i keyClass hClass
    obtain ⟨body, hBody, hKey⟩ := Fallible.bind_eq_ok_iff.mp h
    cases hKey
    exact ⟨keyClass, hName, hClass, hBody⟩
  · cases h

theorem ofBlob_append (h : ofBlob blob = .ok k) (hExtra : extra ≠ []) :
    ofBlob (blob ++ extra) = .error (.keyTrailing extra.length k.name) := by
  obtain ⟨keyClass, hName, hClass, hBody⟩ := ofBlob_reads h
  rw [KeyBody.parse_readWholePublic] at hBody
  have hError := (KeyBody.completing_readTypedWhole keyClass k.name).parse_append hBody hExtra
  rw [ofBlob, delimiting_readText.parse_append hName, Fallible.bind_ok, ofTypedBlob, hClass]
  simp only
  rw [KeyBody.parse_readWholePublic, hError, Fallible.bind_error]

theorem ofBlob_front (h : ofBlob (front ++ lost) = .ok k) (hLost : lost ≠ []) :
    ∃ e, ofBlob front = .error e ∧ e.BrokenOff := by
  obtain ⟨keyClass, hName, hClass, hBody⟩ := ofBlob_reads h
  rcases delimiting_readText.parse_front hName with hFront | ⟨wanted, left, hFront⟩
  · rw [KeyBody.parse_readWholePublic] at hBody
    obtain ⟨e, hError, hBroken⟩ :=
      (KeyBody.completing_readTypedWhole keyClass k.name).parse_front hBody hLost
    refine ⟨e, ?_, hBroken⟩
    rw [ofBlob, hFront, Fallible.bind_ok, ofTypedBlob, hClass]
    simp only
    rw [KeyBody.parse_readWholePublic, hError, Fallible.bind_error]
  · exact ⟨_, by rw [ofBlob, hFront, Fallible.bind_error], .truncated wanted left⟩

end Key

section Extent

variable {α : Type} {read : Bytes → Except Error α} {data : Bytes}

/-- No proper prefix of the data and no extension can be read, for a malformed format each. -/
structure HasExtent (read : Bytes → Except Error α) (data : Bytes) : Prop where
  cut : ∀ front, front <+: data → front ≠ data → ∃ e, read front = .error e ∧ e.IsFormat
  extended : ∀ extra, extra ≠ [] → ∃ e, read (data ++ extra) = .error e ∧ e.IsFormat

theorem cut_of_append (h : ∀ front lost : Bytes, data = front ++ lost → lost ≠ [] →
    ∃ e, read front = .error e ∧ e.IsFormat) :
    ∀ front, front <+: data → front ≠ data → ∃ e, read front = .error e ∧ e.IsFormat := by
  rintro front ⟨lost, rfl⟩ hProper
  exact h front lost rfl fun hNone => hProper (by rw [hNone, List.append_nil])

end Extent

theorem Envelope.hasExtent {data : Bytes} {e : Envelope} (h : ofBytes data = .ok e) :
    HasExtent ofBytes data where
  cut := by
    refine cut_of_append ?_
    rintro front lost rfl hLost
    obtain ⟨err, hError, rfl | hBroken⟩ := ofBytes_front h hLost
    · exact ⟨_, hError, .format, rfl, rfl⟩
    · exact ⟨err, hError, hBroken.isFormat⟩
  extended extra hExtra := ⟨_, ofBytes_append h hExtra, .format, rfl, rfl⟩

theorem Key.hasExtent {blob : Bytes} {k : Key} (h : ofBlob blob = .ok k) : HasExtent ofBlob blob where
  cut := by
    refine cut_of_append ?_
    rintro front lost rfl hLost
    obtain ⟨e, hError, hBroken⟩ := ofBlob_front h hLost
    exact ⟨e, hError, hBroken.isFormat⟩
  extended extra hExtra := ⟨_, ofBlob_append h hExtra, .format, rfl, rfl⟩

/-- Key files and public blobs that are read are refused as malformed once bytes are cut off or
added. -/
theorem refused_unless_whole :
    (∀ data e, Envelope.ofBytes data = .ok e → HasExtent Envelope.ofBytes data) ∧
      ∀ blob k, Key.ofBlob blob = .ok k → HasExtent Key.ofBlob blob :=
  ⟨fun _ _ => Envelope.hasExtent, fun _ _ => Key.hasExtent⟩

theorem refused_unless_whole_p256 :
    (∃ data e, Envelope.ofBytes data = .ok e ∧ HasExtent Envelope.ofBytes data) ∧
      ∃ blob k, Key.ofBlob blob = .ok k ∧ HasExtent Key.ofBlob blob := by
  have hSize : PrivateSection.size [Envelope.plainKey "work"] CipherSuite.none.blockSize ≤
      Wire.fieldLimit := by
    decide +kernel
  have hTakes : ∀ c ∈ (Envelope.plainKey "work").body.publicContents,
      Packet.Takes Wire.fieldLimit c := by
    decide +kernel
  have hData := Envelope.ofBytes_plainOf hSize
  have hBlob := Key.ofBlob_blob_publicHalf KeyBody.accepted_p256_one.publicHalf hTakes
  exact ⟨⟨_, _, hData, refused_unless_whole.1 _ _ hData⟩, _, _, hBlob,
    refused_unless_whole.2 _ _ hBlob⟩

end SshKeys
