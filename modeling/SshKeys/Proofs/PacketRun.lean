import SshKeys.Proofs.Failure
import SshKeys.Proofs.FieldRun
/-!
# Runs of calls on one packet

A failed call does not stop the run. Each call does to contents, position and limit what its role
allows, and a failed one leaves the position at one of a few places. So along every run the position
stays inside the packet, and no byte is lost or changed. One call fails with something written: a
packet as a string field behind itself comes to no more than its length.
-/
namespace SshKeys.Packet

/-- What a call is for. Of those that read, some know beforehand how many bytes they take, some take a
string of any bytes, and some a string that has to spell a text. Of those that write, one writes the
packet behind itself as a string. -/
inductive Role
  | counted
  | string
  | text
  | question
  | rewinding
  | limiting
  | writing
  | doubling
  deriving DecidableEq, Repr

def Call.role : Call → Role
  | .readBytes _ | .readByte | .readBoolean | .readUInt32 | .readUInt64 => .counted
  | .readString | .readInteger => .string
  | .readText | .readNameList => .text
  | .remainder | .soFar | .content | .remaining | .shown => .question
  | .rewind => .rewinding
  | .limitStrings _ => .limiting
  | .writeString .itself => .doubling
  | .writeBytes _ | .writeBoolean _ | .writeUInt32 _ | .writeUInt64 _ | .writeInteger _
  | .writeString (.given _) | .writeNameList _ => .writing

def Role.writes : Role → Bool
  | writing | doubling => true
  | _ => false

variable {α β : Type} {p p' : Packet} {bs : Bytes} {n : Nat} {e : Error} {call : Call} {role : Role}

/-- The next bytes are the length of a string. -/
def Declares (p : Packet) (n : Nat) : Prop := n < 4294967296 ∧ Wire.uint32 n <+: p.pending

/-- How the reading of a string fails: before its length, or behind it. -/
inductive StringFailure (p : Packet) : Error → Packet → Prop
  | short (hShort : p.remaining < 4) : StringFailure p (.truncated 4 p.remaining) p
  | overlong {n : Nat} {p' : Packet} (hFits : n < 4294967296) (hAt : p.Advance (Wire.uint32 n) p')
      (hLong : p.limit < n) : StringFailure p (.lengthOverflow n p.limit) p'
  | cut {n : Nat} {p' : Packet} (hFits : n < 4294967296) (hAt : p.Advance (Wire.uint32 n) p')
      (hLimit : n ≤ p.limit) (hCut : p'.remaining < n) :
      StringFailure p (.truncated n p'.remaining) p'

/-- How the reading of a text fails: as that of a string, or behind a string that spells no text. -/
inductive TextFailure (p : Packet) : Error → Packet → Prop
  | string {e : Error} {p' : Packet} (h : StringFailure p e p') : TextFailure p e p'
  | garbled {bs : Bytes} {p' : Packet} (hTakes : Takes p.limit bs)
      (hAt : p.Advance (Wire.string bs) p') (hGarbled : Utf8.decode? bs = none) :
      TextFailure p .fieldNotUtf8 p'

section Readers

theorem read_eq_error_iff {count : Nat} :
    read count p = .error e p' ↔ p.remaining < count ∧ e = .truncated count p.remaining ∧ p' = p := by
  have hShort : (p.pending.take count).length < count ↔ p.remaining < count := by
    rw [List.length_take, remaining]
    omega
  simp only [read, hShort]
  by_cases h : p.remaining < count
  · rw [if_pos h, EStateM.Result.error.injEq, eq_comm, @eq_comm _ p]
    exact (and_iff_right h).symm
  · rw [if_neg h]
    constructor
    · intro hError
      cases hError
    · rintro ⟨hLess, -⟩
      exact absurd hLess h

theorem readUInt32_eq_error_iff :
    readUInt32 p = .error e p' ↔ p.remaining < 4 ∧ e = .truncated 4 p.remaining ∧ p' = p := by
  rw [readUInt32, Stateful.bind_eq_error_iff, ← read_eq_error_iff]
  refine or_iff_left ?_
  rintro ⟨bs, q, -, hDone⟩
  cases hDone

theorem readString_failure (h : readString p = .error e p') : StringFailure p e p' := by
  rw [readString, Stateful.bind_eq_error_iff] at h
  rcases h with hLength | ⟨n, q, hLength, h⟩
  · obtain ⟨hShort, rfl, rfl⟩ := readUInt32_eq_error_iff.mp hLength
    exact .short hShort
  · -- whatever goes wrong from here on, the position is behind the length
    obtain ⟨hFits, hAt⟩ := readUInt32_eq_ok_iff.mp hLength
    rw [Stateful.bind_ok (Stateful.get_eq_ok_iff.mpr ⟨rfl, rfl⟩), hAt.limit] at h
    by_cases hLong : p.limit < n
    · rw [if_pos hLong] at h
      cases h
      exact .overlong hFits hAt hLong
    · rw [if_neg hLong] at h
      obtain ⟨hCut, rfl, rfl⟩ := read_eq_error_iff.mp h
      exact .cut hFits hAt (Int.not_lt.mp hLong) hCut

theorem readText_failure (h : readText p = .error e p') : TextFailure p e p' := by
  rw [readText, Stateful.bind_eq_error_iff] at h
  rcases h with hString | ⟨bs, q, hString, h⟩
  · exact .string (readString_failure hString)
  · obtain ⟨hTakes, hAt⟩ := readString_eq_ok_iff.mp hString
    cases hText : Utf8.decode? bs with
    | none =>
      rw [hText] at h
      cases h
      exact .garbled hTakes hAt hText
    | some s =>
      rw [hText] at h
      cases h

/-- A reader that moves on over some bytes where it succeeds, and fails in given ways. -/
structure Passes (reader : Reader α) (Stops : Packet → Error → Packet → Prop) : Prop where
  advance : ∀ p a p', reader p = .ok a p' → ∃ bs, p.Advance bs p'
  stop : ∀ p e p', reader p = .error e p' → Stops p e p'

variable {reader : Reader α} {Stops : Packet → Error → Packet → Prop}

theorem Passes.andThen {f : α → Reader β} (h : Passes reader Stops)
    (hf : ∀ a p, ∃ b, f a p = .ok b p) : Passes (reader >>= f) Stops where
  advance := by
    intro p b p' hRead
    obtain ⟨a, q, hFirst, hSecond⟩ := Stateful.bind_eq_ok_iff.mp hRead
    obtain ⟨b', hDone⟩ := hf a q
    rw [hDone] at hSecond
    cases hSecond
    exact h.advance p a p' hFirst
  stop := by
    intro p e p' hRead
    rcases Stateful.bind_eq_error_iff.mp hRead with hFirst | ⟨a, q, _, hSecond⟩
    · exact h.stop p e p' hFirst
    · obtain ⟨b', hDone⟩ := hf a q
      rw [hDone] at hSecond
      cases hSecond

theorem Passes.map (h : Passes reader Stops) (g : α → β) : Passes (g <$> reader) Stops := by
  rw [map_eq_pure_bind]
  exact h.andThen fun a p => ⟨g a, rfl⟩

theorem passes_read (count : Nat) : Passes (read count) fun p _ p' => p' = p where
  advance := fun _ bs _ hRead => ⟨bs, (read_eq_ok_iff.mp hRead).2⟩
  stop := fun _ _ _ hRead => (read_eq_error_iff.mp hRead).2.2

theorem passes_readCount (count : Int) : Passes (readCount count) fun p _ p' => p' = p := by
  cases count with
  | ofNat count => exact passes_read count
  | negSucc n =>
    constructor
    · intro p bs p' hRead
      cases hRead
    · intro p e p' hRead
      cases hRead
      rfl

theorem passes_readString : Passes readString StringFailure where
  advance := fun _ _ _ hRead => ⟨_, (readString_eq_ok_iff.mp hRead).2⟩
  stop := fun _ _ _ hRead => readString_failure hRead

theorem passes_readText : Passes readText TextFailure where
  advance := fun _ _ _ hRead => ⟨_, (readText_eq_ok_iff.mp hRead).2⟩
  stop := fun _ _ _ hRead => readText_failure hRead

theorem passes_readNameList : Passes readNameList TextFailure := by
  refine passes_readText.andThen fun s p => ?_
  by_cases hEmpty : s.isEmpty = true
  · exact ⟨[], by rw [if_pos hEmpty]; rfl⟩
  · exact ⟨_, by rw [if_neg hEmpty]; rfl⟩

end Readers

section Steps

/-- What a call that succeeds may do to the packet. -/
def Role.Moves : Role → Packet → Packet → Prop
  | .counted, p, p' | .string, p, p' | .text, p, p' => ∃ bs, p.Advance bs p'
  | .question, p, p' => p' = p
  | .rewinding, p, p' => p' = p.rewind
  | .limiting, p, p' => ∃ limit, p' = { p with limit }
  | .writing, p, p' => ∃ data, p' = p.append data
  | .doubling, _, _ => False

/-- How a call may fail. -/
def Role.Stops : Role → Packet → Error → Packet → Prop
  | .counted, p, _, p' | .writing, p, _, p' => p' = p
  | .string, p, e, p' => StringFailure p e p'
  | .text, p, e, p' => TextFailure p e p'
  | .question, _, _, _ | .rewinding, _, _, _ | .limiting, _, _, _ => False
  | .doubling, p, e, p' => if Wire.fits p.size then e = .bufferInUse ∧
      p' = p.append (Wire.uint32 p.size) else e = .misuse .width ∧ p' = p

/-- What a call does to the packet, whether or not it succeeds. -/
def Role.Governs (role : Role) (action : Reader Reply) : Prop :=
  ∀ p, (∃ reply p', action p = .ok reply p' ∧ role.Moves p p') ∨
    ∃ e p', action p = .error e p' ∧ role.Stops p e p'

theorem Passes.governs {action : Reader Reply} (h : Passes action role.Stops)
    (hMoves : role.Moves = fun p p' => ∃ bs, p.Advance bs p') : role.Governs action := by
  intro p
  cases hAction : action p with
  | ok reply p' =>
    have hAdvance : role.Moves p p' := by
      rw [hMoves]
      exact h.advance p reply p' hAction
    exact .inl ⟨reply, p', rfl, hAdvance⟩
  | error e p' => exact .inr ⟨e, p', rfl, h.stop p e p' hAction⟩

theorem governs_write (data : Bytes) : Role.writing.Governs (write data) :=
  fun p => .inl ⟨.itself, p.append data, rfl, data, rfl⟩

theorem governs_refuse (e : Error) : Role.writing.Governs (throw e) :=
  fun p => .inr ⟨e, p, rfl, rfl⟩

theorem governs_writeUnsigned (width : Nat) (value : Int) :
    Role.writing.Governs (writeUnsigned width value) := by
  rw [writeUnsigned]
  split
  · exact governs_write _
  · exact governs_refuse _

theorem governs_writeString (data : Bytes) : Role.writing.Governs (writeString (.given data)) := by
  intro p
  rw [writeString_eq]
  split
  · exact governs_write _ p
  · exact governs_refuse _ p

theorem governs_extend (source : Source Bytes) : Role.writing.Governs (extend source) := by
  intro p
  cases source with
  | given data => exact governs_write data p
  | itself =>
    rw [extend, Stateful.bind_ok (Stateful.get_eq_ok_iff.mpr ⟨rfl, rfl⟩)]
    by_cases hSome : p.size ≠ 0
    · rw [if_pos hSome]
      exact governs_refuse _ p
    · rw [if_neg hSome]
      exact .inl ⟨.itself, p, rfl, [], by rw [append, List.append_nil]⟩

theorem governs_writeString_itself : Role.doubling.Governs (writeString .itself) := by
  intro p
  rw [writeString_itself]
  by_cases hFits : Wire.fits p.size = true
  · have hStops : Role.doubling.Stops p .bufferInUse (p.append (Wire.uint32 p.size)) := by
      rw [Role.Stops, if_pos hFits]
      exact ⟨rfl, rfl⟩
    rw [if_pos hFits]
    exact .inr ⟨_, _, rfl, hStops⟩
  · have hStops : Role.doubling.Stops p (.misuse .width) p := by
      rw [Role.Stops, if_neg hFits]
      exact ⟨rfl, rfl⟩
    rw [if_neg hFits]
    exact .inr ⟨_, _, rfl, hStops⟩

theorem governs_perform (call : Call) : call.role.Governs (perform call) := by
  cases call with
  | readBytes count => exact ((passes_readCount count).map _).governs rfl
  | readByte => exact ((passes_read 1).map _).governs rfl
  | readBoolean =>
    exact (((passes_read 1).andThen fun _ _ => ⟨_, rfl⟩).map _).governs rfl
  | readUInt32 =>
    exact (((passes_read 4).andThen fun _ _ => ⟨_, rfl⟩).map _).governs rfl
  | readUInt64 =>
    exact (((passes_read 8).andThen fun _ _ => ⟨_, rfl⟩).map _).governs rfl
  | readString => exact (passes_readString.map _).governs rfl
  | readInteger =>
    exact ((passes_readString.andThen fun _ _ => ⟨_, rfl⟩).map _).governs rfl
  | readText => exact (passes_readText.map _).governs rfl
  | readNameList => exact (passes_readNameList.map _).governs rfl
  | remainder | soFar | content | remaining | shown => exact fun p => .inl ⟨_, p, rfl, rfl⟩
  | rewind => exact fun p => .inl ⟨_, p.rewind, rfl, rfl⟩
  | limitStrings limit => exact fun p => .inl ⟨_, { p with limit }, rfl, limit, rfl⟩
  | writeBytes data =>
    rw [perform]
    cases data.convert Datum.onlyBytes with
    | ok source => exact governs_extend source
    | error e => exact governs_refuse e
  | writeBoolean value => exact governs_write _
  | writeUInt32 value | writeUInt64 value => exact governs_writeUnsigned _ value
  | writeInteger value => exact governs_writeString _
  | writeString data =>
    cases data with
    | given data =>
      rw [perform, Source.convert]
      cases data.toBytes with
      | ok bs => exact governs_writeString bs
      | error e => exact governs_refuse e
    | itself => exact governs_writeString_itself
  | writeNameList names =>
    cases names with
    | some names => exact governs_writeString _
    | none => exact governs_refuse _

end Steps

section Laws

/-- What is told about a packet agrees with its contents and its position. -/
structure Consistent (p : Packet) : Prop where
  position : p.position ≤ p.content.length
  parts : ∃ front back, perform .soFar p = .ok (.bytes front) p ∧
    perform .remainder p = .ok (.bytes back) p ∧ front.length = p.position ∧
    perform .content p = .ok (.bytes (front ++ back)) p ∧ front ++ back = p.content
  remaining : perform .remaining p = .ok (.count (p.content.length - p.position)) p

theorem consistent (p : Packet) : p.Consistent where
  position := by
    rw [position, content, List.length_append, List.length_reverse]
    omega
  parts := ⟨p.consumed.reverse, p.pending, rfl, rfl, List.length_reverse, rfl, rfl⟩
  remaining := by
    have hLeft : p.remaining = p.content.length - p.position := by
      rw [remaining, position, content, List.length_append, List.length_reverse]
      omega
    rw [← hLeft]
    rfl

/-- Fewer than four bytes are left, and the position stays, or it moves on by four. -/
def StopsAtLength (p p' : Packet) : Prop :=
  (p.remaining < 4 ∧ p'.position = p.position) ∨ (4 ≤ p.remaining ∧ p'.position = p.position + 4)

/-- A whole string that spells no text comes next, and the position moves on to its end. -/
def StopsBehindGarbled (p p' : Packet) : Prop :=
  ∃ bs, Wire.string bs <+: p.pending ∧ (bs.length : Int) ≤ p.limit ∧ Utf8.decode? bs = none ∧
    p'.position = p.position + (Wire.string bs).length

/-- What a call may do to a packet, and where it leaves the position if it fails. -/
structure Lawful (call : Call) (p : Packet) (outcome : Except Error Reply) (p' : Packet) : Prop where
  unchanged : call.role.writes = false → p'.content = p.content
  appended : call.role.writes = true → p'.position = p.position ∧ p.content <+: p'.content
  limit : call.role ≠ .limiting → p'.limit = p.limit
  moved : call.role = .question ∨ call.role = .limiting → p'.position = p.position
  rewound : call.role = .rewinding → p'.position = 0
  unwritten : ∀ e, outcome = .error e → call.role = .writing → p' = p
  doubled : call.role = .doubling → if Wire.fits p.size then outcome = .error .bufferInUse ∧
    p' = p.append (Wire.uint32 p.size) else outcome = .error (.misuse .width) ∧ p' = p
  uncounted : ∀ e, outcome = .error e → call.role = .counted → p'.position = p.position
  unread : ∀ e, outcome = .error e → call.role = .string → StopsAtLength p p'
  unspelled : ∀ e, outcome = .error e → call.role = .text →
    StopsAtLength p p' ∨ e = .fieldNotUtf8 ∧ StopsBehindGarbled p p'
  answered : ∀ e, outcome = .error e →
    call.role = .counted ∨ call.role = .string ∨ call.role = .text ∨ call.role.writes = true
  overlong : call.role = .string ∨ call.role = .text → ∀ n, p.Declares n → p.limit < n →
    outcome = .error (.lengthOverflow n p.limit) ∧ p'.position = p.position + 4

theorem Advance.remaining (h : p.Advance bs p') : p.remaining = bs.length + p'.remaining := by
  rw [Packet.remaining, h.pending, List.length_append]
  rfl

theorem StringFailure.stops (h : StringFailure p e p') : StopsAtLength p p' := by
  have behind {n : Nat} (hAt : p.Advance (Wire.uint32 n) p') : StopsAtLength p p' := by
    have hLength : (Wire.uint32 n).length = 4 := Bytes.length_ofNat 4 n
    refine .inr ⟨?_, ?_⟩
    · rw [hAt.remaining, hLength]
      omega
    · rw [hAt.position, hLength]
  cases h with
  | short hShort => exact .inl ⟨hShort, rfl⟩
  | overlong _ hAt _ => exact behind hAt
  | cut _ hAt _ _ => exact behind hAt

theorem TextFailure.stops (h : TextFailure p e p') :
    StopsAtLength p p' ∨ e = .fieldNotUtf8 ∧ StopsBehindGarbled p p' := by
  cases h with
  | string hString => exact .inl hString.stops
  | @garbled bs _ hTakes hAt hGarbled =>
    exact .inr ⟨rfl, bs, ⟨_, hAt.pending.symm⟩, hTakes.2, hGarbled, hAt.position⟩

theorem readString_overlong (h : p.Declares n) (hLong : p.limit < n) :
    ∃ p', readString p = .error (.lengthOverflow n p.limit) p' ∧ p'.position = p.position + 4 := by
  obtain ⟨hFits, rest, hNext⟩ := h
  have hAt : p.Advance (Wire.uint32 n) (p.past (Wire.uint32 n) rest) := advance_past hNext.symm
  refine ⟨_, ?_, hAt.position⟩
  -- the limit is looked at before what follows the length, so the contents may well be missing
  rw [readString, Stateful.bind_ok (readUInt32_eq_ok_iff.mpr ⟨hFits, hAt⟩),
    Stateful.bind_ok (Stateful.get_eq_ok_iff.mpr ⟨rfl, rfl⟩), hAt.limit, if_pos hLong]
  rfl

theorem perform_overlong (hRole : call.role = .string ∨ call.role = .text) (h : p.Declares n)
    (hLong : p.limit < n) : ∃ p', perform call p = .error (.lengthOverflow n p.limit) p' ∧
      p'.position = p.position + 4 := by
  obtain ⟨p', hError, hPosition⟩ := readString_overlong h hLong
  have fails {γ : Type} {reader : Reader γ} (g : γ → Reply)
      (hReader : reader p = .error (.lengthOverflow n p.limit) p') :
      ∃ p', (g <$> reader) p = .error (.lengthOverflow n p.limit) p' ∧
        p'.position = p.position + 4 := by
    rw [map_eq_pure_bind]
    exact ⟨p', Stateful.bind_error hReader, hPosition⟩
  have hText : readText p = .error (.lengthOverflow n p.limit) p' := Stateful.bind_error hError
  cases call with
  | readString => exact fails _ hError
  | readInteger => exact fails _ (Stateful.bind_error hError)
  | readText => exact fails _ hText
  | readNameList => exact fails _ (Stateful.bind_error hText)
  | writeString data => cases data <;> rcases hRole with hRole | hRole <;> cases hRole
  | _ => rcases hRole with hRole | hRole <;> cases hRole

/-- A call and the packet that it leads to, with what its role says of them. -/
inductive Step (call : Call) (p : Packet) : Except Error Reply → Packet → Prop
  | succeeds {reply : Reply} {p' : Packet} (h : perform call p = .ok reply p')
      (hMoves : call.role.Moves p p') : Step call p (.ok reply) p'
  | fails {e : Error} {p' : Packet} (h : perform call p = .error e p')
      (hStops : call.role.Stops p e p') : Step call p (.error e) p'

theorem run_cons (call : Call) (p : Packet) : ∃ outcome p', Step call p outcome p' ∧
    ∀ calls, run (call :: calls) p = (outcome, p') :: run calls p' := by
  rcases governs_perform call p with ⟨reply, p', hCall, hMoves⟩ | ⟨e, p', hCall, hStops⟩
  · refine ⟨.ok reply, p', .succeeds hCall hMoves, fun calls => ?_⟩
    rw [run, hCall]
  · refine ⟨.error e, p', .fails hCall hStops, fun calls => ?_⟩
    rw [run, hCall]

theorem StringFailure.reads (h : StringFailure p e p') :
    p'.content = p.content ∧ p'.limit = p.limit := by
  cases h with
  | short _ => exact ⟨rfl, rfl⟩
  | overlong _ hAt _ | cut _ hAt _ _ => exact ⟨hAt.content, hAt.limit⟩

theorem TextFailure.reads (h : TextFailure p e p') :
    p'.content = p.content ∧ p'.limit = p.limit := by
  cases h with
  | string hString => exact hString.reads
  | garbled _ hAt _ => exact ⟨hAt.content, hAt.limit⟩

theorem content_append (data : Bytes) : (p.append data).content = p.content ++ data :=
  (List.append_assoc p.consumed.reverse p.pending data).symm

/-- What a role allows, where the call may succeed or fail. -/
def Role.Allows (role : Role) (p p' : Packet) : Prop := role.Moves p p' ∨ ∃ e, role.Stops p e p'

theorem Role.Allows.reads (h : role.Allows p p') (hWrites : role.writes = false)
    (hLimiting : role ≠ .limiting) : p'.content = p.content ∧ p'.limit = p.limit := by
  cases role with
  | counted =>
    rcases h with ⟨bs, hAt⟩ | ⟨e, rfl⟩
    · exact ⟨hAt.content, hAt.limit⟩
    · exact ⟨rfl, rfl⟩
  | string =>
    rcases h with ⟨bs, hAt⟩ | ⟨e, hString⟩
    · exact ⟨hAt.content, hAt.limit⟩
    · exact hString.reads
  | text =>
    rcases h with ⟨bs, hAt⟩ | ⟨e, hText⟩
    · exact ⟨hAt.content, hAt.limit⟩
    · exact hText.reads
  | question | rewinding =>
    rcases h with rfl | ⟨e, hNever⟩
    · exact ⟨rfl, rfl⟩
    · exact hNever.elim
  | limiting => exact absurd rfl hLimiting
  | writing | doubling => cases hWrites

theorem Role.Allows.question (h : Role.question.Allows p p') : p' = p := by
  rcases h with hSame | ⟨e, hNever⟩
  · exact hSame
  · exact hNever.elim

theorem Role.Allows.rewinding (h : Role.rewinding.Allows p p') : p' = p.rewind := by
  rcases h with hRewound | ⟨e, hNever⟩
  · exact hRewound
  · exact hNever.elim

theorem Role.Allows.limiting (h : Role.limiting.Allows p p') : ∃ limit, p' = { p with limit } := by
  rcases h with hLimit | ⟨e, hNever⟩
  · exact hLimit
  · exact hNever.elim

theorem Role.Allows.writes (h : role.Allows p p') (hWrites : role.writes = true) :
    ∃ data, p' = p.append data := by
  have hSame : p = p.append [] := by rw [append, List.append_nil]
  cases role with
  | writing =>
    rcases h with hData | ⟨e, rfl⟩
    · exact hData
    · exact ⟨[], hSame⟩
  | doubling =>
    obtain ⟨e, hStops⟩ := h.resolve_left id
    rw [Role.Stops] at hStops
    split at hStops
    · exact ⟨_, hStops.2⟩
    · exact ⟨[], hStops.2.trans hSame⟩
  | _ => cases hWrites

theorem Step.allows {outcome : Except Error Reply} (h : Step call p outcome p')
    (hRole : call.role = role) : role.Allows p p' := by
  rw [← hRole]
  cases h with
  | succeeds _ hMoves => exact .inl hMoves
  | fails _ hStops => exact .inr ⟨_, hStops⟩

theorem Step.stops (h : Step call p (.error e) p') (hRole : call.role = role) :
    role.Stops p e p' := by
  rw [← hRole]
  cases h with
  | fails _ hStops => exact hStops

theorem Step.doubles {outcome : Except Error Reply} (h : Step call p outcome p')
    (hRole : call.role = .doubling) : if Wire.fits p.size then outcome = .error .bufferInUse ∧
      p' = p.append (Wire.uint32 p.size) else outcome = .error (.misuse .width) ∧ p' = p := by
  cases h with
  | succeeds _ hMoves =>
    rw [hRole] at hMoves
    exact hMoves.elim
  | fails _ hStops =>
    rw [hRole, Role.Stops] at hStops
    split at hStops
    · rename_i hFits
      rw [if_pos hFits, hStops.1]
      exact ⟨rfl, hStops.2⟩
    · rename_i hFits
      rw [if_neg hFits, hStops.1]
      exact ⟨rfl, hStops.2⟩

theorem Step.lawful {outcome : Except Error Reply} (h : Step call p outcome p') :
    Lawful call p outcome p' where
  unchanged := by
    intro hReads
    by_cases hLimiting : call.role = .limiting
    · obtain ⟨limit, rfl⟩ := (h.allows hLimiting).limiting
      rfl
    · exact ((h.allows rfl).reads hReads hLimiting).1
  appended := by
    intro hWrites
    obtain ⟨data, rfl⟩ := (h.allows rfl).writes hWrites
    exact ⟨rfl, data, (content_append data).symm⟩
  limit := by
    intro hLimiting
    by_cases hWrites : call.role.writes = true
    · obtain ⟨data, rfl⟩ := (h.allows rfl).writes hWrites
      rfl
    · exact ((h.allows rfl).reads (Bool.eq_false_iff.mpr hWrites) hLimiting).2
  moved := by
    rintro (hRole | hRole)
    · rw [(h.allows hRole).question]
    · obtain ⟨limit, rfl⟩ := (h.allows hRole).limiting
      rfl
  rewound := by
    intro hRole
    rw [(h.allows hRole).rewinding]
    rfl
  unwritten := by
    rintro e rfl hRole
    exact h.stops hRole
  doubled := h.doubles
  uncounted := by
    rintro e rfl hRole
    rw [show p' = p from h.stops hRole]
  unread := by
    rintro e rfl hRole
    exact StringFailure.stops (h.stops hRole)
  unspelled := by
    rintro e rfl hRole
    exact TextFailure.stops (h.stops hRole)
  answered := by
    rintro e rfl
    have hStops := h.stops rfl
    cases hRole : call.role with
    | question | rewinding | limiting =>
      rw [hRole] at hStops
      exact hStops.elim
    | _ => decide
  overlong := by
    intro hRole n hDeclares hLong
    obtain ⟨q, hError, hPosition⟩ := perform_overlong hRole hDeclares hLong
    cases h with
    | succeeds hCall _ =>
      rw [hError] at hCall
      cases hCall
    | fails hCall _ =>
      rw [hError] at hCall
      cases hCall
      exact ⟨rfl, hPosition⟩

theorem Lawful.content_prefix {outcome : Except Error Reply} (h : Lawful call p outcome p') :
    p.content <+: p'.content := by
  by_cases hWrites : call.role.writes = true
  · exact (h.appended hWrites).2
  · rw [h.unchanged (Bool.eq_false_iff.mpr hWrites)]

end Laws

section Runs

/-- The packet behind a run of calls. -/
def after (p : Packet) (calls : List Call) : Packet := ((run calls p).getLast?.map Prod.snd).getD p

theorem after_cons {outcome : Except Error Reply}
    (h : run (call :: calls) p = (outcome, p') :: run calls p') :
    p.after (call :: calls) = p'.after calls := by
  rw [after, after, h, List.getLast?_cons, Option.map_some, Option.getD_some]
  exact (Option.getD_map Prod.snd (outcome, p') _).symm

theorem run_append (done rest : List Call) (p : Packet) :
    run (done ++ rest) p = run done p ++ run rest (p.after done) := by
  induction done generalizing p with
  | nil => rfl
  | cons call done ih =>
    obtain ⟨outcome, p', -, hRun⟩ := run_cons call p
    rw [List.cons_append, hRun, hRun, after_cons (hRun done), ih p', List.cons_append]

theorem content_prefix_after (p : Packet) (calls : List Call) :
    p.content <+: (p.after calls).content := by
  induction calls generalizing p with
  | nil => exact List.prefix_rfl
  | cons call calls ih =>
    obtain ⟨outcome, p', hStep, hRun⟩ := run_cons call p
    rw [after_cons (hRun calls)]
    exact hStep.lawful.content_prefix.trans (ih p')

/-- Wherever a run of calls has come to, failed ones among them, the packet is consistent and begins
with what it held, and the next call is lawful. -/
theorem run_lawful (p : Packet) (done rest : List Call) (call : Call) :
    let q := p.after done
    p.content <+: q.content ∧ q.Consistent ∧
      ∃ outcome q', run (done ++ call :: rest) p = run done p ++ (outcome, q') :: run rest q' ∧
        Lawful call q outcome q' ∧ q'.Consistent := by
  intro q
  obtain ⟨outcome, q', hStep, hRun⟩ := run_cons call q
  refine ⟨content_prefix_after p done, q.consistent, outcome, q', ?_, hStep.lawful, q'.consistent⟩
  rw [run_append, hRun]

/-- A packet of two bytes is left with a length behind them where its contents cannot follow. -/
theorem run_doubled : run [.writeString .itself, .remaining] (ofBytes [0x61, 0x62]) =
    [(.error .bufferInUse, ofBytes [0x61, 0x62, 0, 0, 0, 2]),
      (.ok (.count 6), ofBytes [0x61, 0x62, 0, 0, 0, 2])] := by
  decide +kernel

end Runs
end SshKeys.Packet
