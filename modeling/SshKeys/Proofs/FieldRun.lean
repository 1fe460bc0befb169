import SshKeys.Packet.Call
import SshKeys.Proofs.PemHeaders
import SshKeys.Proofs.Reading
/-!
# Runs of typed fields

What is written for a field is what the call that reads the field takes, wherever it stands and
whatever follows. So a run of writes leaves behind the packet a stretch of bytes from which a run of
the reads of the same types gives back the values, and nothing is left.
-/
namespace SshKeys

namespace Text

variable {separator : Char}

theorem splitOn_intercalate {pieces : List String} (hSome : pieces ≠ [])
    (h : ∀ piece ∈ pieces, separator ∉ piece.toList) :
    splitOn separator ((String.singleton separator).intercalate pieces).toList =
      pieces.map String.toList := by
  have hFrom (finished : List (List Char)) : splitFrom separator [] finished
      ((String.singleton separator).intercalate pieces).toList =
        finished.reverse ++ pieces.map String.toList := by
    induction pieces generalizing finished with
    | nil => exact absurd rfl hSome
    | cons piece pieces ih =>
      rw [List.forall_mem_cons] at h
      cases pieces with
      | nil =>
        rw [String.intercalate_singleton, splitFrom_of_not_mem h.1]
        rfl
      | cons next pieces =>
        rw [String.intercalate_cons_cons, String.toList_append, String.toList_append,
          String.toList_singleton, List.append_assoc, List.singleton_append, splitFrom_append h.1,
          ih (List.cons_ne_nil _ _) h.2]
        simp
  exact hFrom []

end Text

namespace Packet

/-- Names that a name list can hold: a comma ends a name, and no names are written as a single empty
name would be. -/
structure NameList where
  names : List String
  plain : ∀ name ∈ names, ',' ∉ name.toList
  notBlank : names ≠ [""]

namespace NameList

def joined (l : NameList) : String := ",".intercalate l.names

theorem joined_eq_empty_iff (l : NameList) : l.joined = "" ↔ l.names = [] := by
  obtain ⟨names, plain, notBlank⟩ := l
  cases names with
  | nil => exact ⟨fun _ => rfl, fun _ => rfl⟩
  | cons name names =>
    cases names with
    | nil =>
      have hName : name ≠ "" := fun hEmpty => notBlank (by rw [hEmpty])
      simpa [joined] using hName
    | cons next names => simp [joined, String.intercalate_cons_cons]

theorem split_joined (l : NameList) (hSome : l.names ≠ []) :
    (Text.splitOn ',' l.joined.toList).map String.ofList = l.names := by
  have hPieces : Text.splitOn ',' l.joined.toList = l.names.map String.toList :=
    Text.splitOn_intercalate hSome l.plain
  rw [hPieces, List.map_map]
  simp

end NameList

/-- A value of one of the types that can be written and read. -/
inductive Field
  | uint32 (n : UInt32)
  | uint64 (n : UInt64)
  | raw (bs : Bytes)
  | boolean (b : Bool)
  | string (bs : Bytes)
  | text (s : String)
  | integer (z : Int)
  | names (l : NameList)

namespace Field

def write : Field → Call
  | uint32 n => .writeUInt32 n.toNat
  | uint64 n => .writeUInt64 n.toNat
  | raw bs => .writeBytes (.given (.bytes bs))
  | boolean b => .writeBoolean b
  | string bs => .writeString (.given (.bytes bs))
  | text s => .writeString (.given (.text s))
  | integer z => .writeInteger z
  | names l => .writeNameList (some l.names)

def read : Field → Call
  | uint32 _ => .readUInt32
  | uint64 _ => .readUInt64
  | raw bs => .readBytes bs.length
  | boolean _ => .readBoolean
  | string _ => .readString
  | text _ => .readText
  | integer _ => .readInteger
  | names _ => .readNameList

def value : Field → Reply
  | uint32 n => .count n.toNat
  | uint64 n => .integer n.toNat
  | raw bs => .bytes bs
  | boolean b => .boolean b
  | string bs => .bytes bs
  | text s => .text s
  | integer z => .integer z
  | names l => .texts l.names

/-- The string that a field is encoded as, if it is one. -/
def encoded? : Field → Option Bytes
  | string bs => some bs
  | text s => some (Utf8.encode s)
  | integer z => some (Wire.integerBytes z)
  | names l => some (Utf8.encode l.joined)
  | _ => none

def bytes : Field → Bytes
  | uint32 n => Wire.uint32 n.toNat
  | uint64 n => Bytes.ofNat 8 n.toNat
  | raw bs => bs
  | boolean b => Wire.boolean b
  | string bs => Wire.string bs
  | text s => Wire.text s
  | integer z => Wire.integer z
  | names l => Wire.text l.joined

end Field

variable {p p' p'' : Packet} {f : Field} {fields : List Field} {calls calls' : List Call}
  {replies replies' : List Reply}

theorem writeUnsigned_eq_ok {width n : Nat} (h : n < 256 ^ width) (p : Packet) :
    writeUnsigned width n p = .ok .itself (p.append (Bytes.ofNat width n)) := by
  have hRange : 0 ≤ (n : Int) ∧ (n : Int) < Int.ofNat (Nat.pow 256 width) :=
    ⟨Int.natCast_nonneg n, Int.ofNat_lt.mpr h⟩
  rw [writeUnsigned, if_pos hRange]
  rfl

theorem writeLength_eq (n : Nat) (p : Packet) : writeUnsigned 4 n p =
    if Wire.fits n then .ok .itself (p.append (Wire.uint32 n)) else .error (.misuse .width) p := by
  split
  · rename_i hFits
    rw [Wire.fits_iff] at hFits
    exact writeUnsigned_eq_ok (by omega) p
  · rename_i hFits
    rw [Wire.fits_iff] at hFits
    have hRange : ¬(0 ≤ (n : Int) ∧ (n : Int) < Int.ofNat (Nat.pow 256 4)) :=
      fun hRange => hFits (Int.ofNat_lt.mp hRange.2)
    rw [writeUnsigned, if_neg hRange]
    rfl

theorem append_append (p : Packet) (a b : Bytes) : (p.append a).append b = p.append (a ++ b) := by
  simp only [append, List.append_assoc]

theorem writeString_eq {bs : Bytes} (p : Packet) : writeString (.given bs) p =
    if Wire.fits bs.length then .ok .itself (p.append (Wire.string bs))
    else .error (.misuse .width) p := by
  have hLength := writeLength_eq bs.length p
  rw [writeString, Stateful.bind_ok (Stateful.get_eq_ok_iff.mpr ⟨rfl, rfl⟩)]
  simp only [sizeOf, extend]
  by_cases hFits : Wire.fits bs.length = true
  · rw [if_pos hFits] at hLength
    rw [Stateful.bind_ok hLength, if_pos hFits, write, append_append]
    rfl
  · rw [if_neg hFits] at hLength
    rw [Stateful.bind_error hLength, if_neg hFits]

/-- The contents of a packet, written behind it as a string field, come to no more than the length. -/
theorem writeString_itself (p : Packet) : writeString .itself p =
    if Wire.fits p.size then .error .bufferInUse (p.append (Wire.uint32 p.size))
    else .error (.misuse .width) p := by
  have hLength := writeLength_eq p.size p
  rw [writeString, Stateful.bind_ok (Stateful.get_eq_ok_iff.mpr ⟨rfl, rfl⟩)]
  simp only [sizeOf]
  by_cases hFits : Wire.fits p.size = true
  · rw [if_pos hFits] at hLength
    have hSome : (p.append (Wire.uint32 p.size)).size ≠ 0 := by
      simp only [size, remaining, append, List.length_append, Wire.uint32, Bytes.length_ofNat]
      omega
    rw [Stateful.bind_ok hLength, if_pos hFits, extend,
      Stateful.bind_ok (Stateful.get_eq_ok_iff.mpr ⟨rfl, rfl⟩), if_pos hSome]
    rfl
  · rw [if_neg hFits] at hLength
    rw [Stateful.bind_error hLength, if_neg hFits]

theorem perform_write (h : ∀ c ∈ f.encoded?, Wire.fits c.length) (p : Packet) :
    perform f.write p = .ok .itself (p.append f.bytes) := by
  have hString {bs : Bytes} (hFits : Wire.fits bs.length) :
      writeString (.given bs) p = .ok .itself (p.append (Wire.string bs)) := by
    rw [writeString_eq, if_pos hFits]
  cases f with
  | uint32 n => exact writeUnsigned_eq_ok n.toNat_lt p
  | uint64 n => exact writeUnsigned_eq_ok n.toNat_lt p
  | raw bs => rfl
  | boolean b => rfl
  | string bs => exact hString (h _ rfl)
  | text s => exact hString (h _ rfl)
  | integer z => exact hString (h _ rfl)
  | names l => exact hString (h _ rfl)

theorem perform_write_overlong {c : Bytes} (hEncoded : f.encoded? = some c)
    (hLong : ¬Wire.fits c.length) (p : Packet) : perform f.write p = .error (.misuse .width) p := by
  have hString : writeString (.given c) p = .error (.misuse .width) p := by
    rw [writeString_eq, if_neg hLong]
  cases f with
  | uint32 _ | uint64 _ | raw _ | boolean _ => cases hEncoded
  | string _ | text _ | integer _ | names _ =>
    cases hEncoded
    exact hString

theorem readBoolean_eq_ok {b : Bool} (h : p.Advance (Wire.boolean b) p') :
    readBoolean p = .ok b p' := by
  have hByte : read 1 p = .ok (Wire.boolean b) p' := read_eq_ok_iff.mpr ⟨rfl, h⟩
  rw [readBoolean, Stateful.bind_ok hByte]
  cases b <;> rfl

theorem readUInt64_eq_ok {n : Nat} (hRange : n < 256 ^ 8) (h : p.Advance (Bytes.ofNat 8 n) p') :
    readUInt64 p = .ok n p' := by
  have hBytes : Packet.read 8 p = .ok (Bytes.ofNat 8 n) p' :=
    read_eq_ok_iff.mpr ⟨Bytes.length_ofNat 8 n, h⟩
  rw [readUInt64, Stateful.bind_ok hBytes, Bytes.toNat_ofNat_of_lt hRange]
  rfl

theorem readNameList_eq_ok {l : NameList} (hTakes : Takes p.limit (Utf8.encode l.joined))
    (h : p.Advance (Wire.text l.joined) p') : readNameList p = .ok l.names p' := by
  rw [readNameList, Stateful.bind_ok (readText_eq_ok_iff.mpr ⟨hTakes, h⟩)]
  by_cases hNone : l.names = []
  · rw [l.joined_eq_empty_iff.mpr hNone, hNone]
    rfl
  · have hSome : ¬l.joined.isEmpty = true := by
      rw [String.isEmpty_iff, l.joined_eq_empty_iff]
      exact hNone
    rw [if_neg hSome, l.split_joined hNone]
    rfl

theorem perform_read (hTakes : ∀ c ∈ f.encoded?, Takes p.limit c) (h : p.Advance f.bytes p') :
    perform f.read p = .ok f.value p' := by
  have replies {α : Type} {reader : Reader α} {a : α} (g : α → Reply)
      (hRead : reader p = .ok a p') : (g <$> reader) p = .ok (g a) p' :=
    Stateful.map_eq_ok_iff.mpr ⟨a, hRead, rfl⟩
  cases f with
  | uint32 n => exact replies .count (readUInt32_eq_ok_iff.mpr ⟨n.toNat_lt, h⟩)
  | uint64 n => exact replies (fun n => .integer (Int.ofNat n)) (readUInt64_eq_ok n.toNat_lt h)
  | raw bs => exact replies .bytes (read_eq_ok_iff.mpr ⟨rfl, h⟩)
  | boolean b => exact replies .boolean (readBoolean_eq_ok h)
  | string bs => exact replies .bytes (readString_eq_ok_iff.mpr ⟨hTakes _ rfl, h⟩)
  | text s => exact replies .text (readText_eq_ok_iff.mpr ⟨hTakes _ rfl, h⟩)
  | integer z =>
    exact replies .integer
      (readInteger_eq_ok_iff.mpr ⟨_, Wire.decode_integerBytes z, hTakes _ rfl, h⟩)
  | names l => exact replies .texts (readNameList_eq_ok (hTakes _ rfl) h)

/-- The calls succeed one behind the other, with these replies. -/
inductive Answers : Packet → List Call → List Reply → Packet → Prop
  | nil (p : Packet) : Answers p [] [] p
  | cons {p p' p'' : Packet} {call : Call} {calls : List Call} {reply : Reply} {replies : List Reply}
      (h : perform call p = .ok reply p') (hRest : Answers p' calls replies p'') :
      Answers p (call :: calls) (reply :: replies) p''

theorem Answers.append (h : Answers p calls replies p') (h' : Answers p' calls' replies' p'') :
    Answers p (calls ++ calls') (replies ++ replies') p'' := by
  induction h with
  | nil p => exact h'
  | cons hFirst _ ih => exact .cons hFirst (ih h')

theorem Answers.run (h : Answers p calls replies p') :
    (run calls p).map Prod.fst = replies.map .ok := by
  induction h with
  | nil p => rfl
  | cons hFirst _ ih =>
    rw [Packet.run, hFirst]
    simp only [List.map_cons, ih]

theorem answers_writes (h : ∀ f ∈ fields, ∀ c ∈ f.encoded?, Wire.fits c.length) (p : Packet) :
    Answers p (fields.map Field.write) (fields.map fun _ => .itself)
      (p.append (fields.flatMap Field.bytes)) := by
  induction fields generalizing p with
  | nil =>
    have hSame : p.append [] = p := by
      rw [append, List.append_nil]
    rw [List.flatMap_nil, hSame]
    exact .nil p
  | cons f fields ih =>
    rw [List.forall_mem_cons] at h
    rw [List.flatMap_cons, ← append_append]
    exact .cons (perform_write h.1 p) (ih h.2 _)

theorem answers_reads (hTakes : ∀ f ∈ fields, ∀ c ∈ f.encoded?, Takes p.limit c)
    (h : p.Advance (fields.flatMap Field.bytes) p') :
    Answers p (fields.map Field.read) (fields.map Field.value) p' := by
  induction fields generalizing p with
  | nil =>
    rw [advance_nil_iff.mp h]
    exact .nil p'
  | cons f fields ih =>
    obtain ⟨q, hFirst, hRest⟩ := advance_append_iff.mp h
    rw [List.forall_mem_cons] at hTakes
    refine .cons (perform_read hTakes.1 hFirst) (ih ?_ hRest)
    rw [hFirst.limit]
    exact hTakes.2

theorem answers_rewind {front rest : Bytes} (h : p.content = front ++ rest) :
    Answers p [.rewind, .readBytes front.length] [.done, .bytes front] (p.rewind.past front rest) := by
  have hFront : Packet.read front.length p.rewind = .ok front (p.rewind.past front rest) :=
    read_eq_ok_iff.mpr ⟨rfl, advance_past h⟩
  exact .cons rfl (.cons (Stateful.map_eq_ok_iff.mpr ⟨front, hFront, rfl⟩) (.nil _))

theorem answers_from (hTakes : ∀ f ∈ fields, ∀ c ∈ f.encoded?, Takes p.limit c)
    (h : p.pending = fields.flatMap Field.bytes) :
    ∃ p', Answers p (fields.map Field.read ++ [.remainder])
      (fields.map Field.value ++ [.bytes []]) p' := by
  have hAll : p.Advance (fields.flatMap Field.bytes) (p.past (fields.flatMap Field.bytes) []) :=
    advance_past (by rw [h, List.append_nil])
  exact ⟨_, (answers_reads hTakes hAll).append (.cons rfl (.nil _))⟩

/-- Fields that are written behind what a packet holds are read from there as they were written, up to
the end of the packet, be it after rewinding and passing over what was there before, or straight away if
that had been read. Where the limit of strings lets lengths pass that do not fit their four bytes, the
write of such a string is refused. -/
theorem run_fields (p : Packet) (fields : List Field)
    (hLimit : ∀ f ∈ fields, ∀ c ∈ f.encoded?, (c.length : Int) ≤ p.limit) :
    let writes := fields.map Field.write
    let reads := fields.map Field.read ++ [.remainder]
    let written : List (Except Error Reply) := fields.map fun _ => .ok .itself
    let given : List (Except Error Reply) := fields.map (.ok ·.value) ++ [.ok (.bytes [])]
    ((p.limit < 2 ^ 32 ∨ ∀ f ∈ fields, ∀ c ∈ f.encoded?, Wire.fits c.length) →
      (run (writes ++ [.rewind, .readBytes p.content.length] ++ reads) p).map Prod.fst =
        written ++ [.ok .done, .ok (.bytes p.content)] ++ given ∧
      (p.pending = [] → (run (writes ++ reads) p).map Prod.fst = written ++ given)) ∧
    ∀ f ∈ fields, ∀ c ∈ f.encoded?, ¬Wire.fits c.length →
      ∀ q, perform f.write q = .error (.misuse .width) q := by
  refine ⟨fun hWithin => ?_, fun f _ c hc hLong q => perform_write_overlong hc hLong q⟩
  have hFits : ∀ f ∈ fields, ∀ c ∈ f.encoded?, Wire.fits c.length := by
    rcases hWithin with hSmall | hFits
    · intro f hf c hc
      have hLength := hLimit f hf c hc
      exact Wire.fits_iff.mpr (by omega)
    · exact hFits
  have hTakes : ∀ f ∈ fields, ∀ c ∈ f.encoded?, Takes p.limit c := fun f hf c hc =>
    ⟨hFits f hf c hc, hLimit f hf c hc⟩
  have hWrites := answers_writes hFits p
  constructor
  · have hContent : (p.append (fields.flatMap Field.bytes)).content =
        p.content ++ fields.flatMap Field.bytes :=
      (List.append_assoc p.consumed.reverse p.pending _).symm
    have hPassed := hWrites.append (answers_rewind hContent)
    obtain ⟨p', hReads⟩ := answers_from (p := (p.append _).rewind.past p.content _) hTakes rfl
    simpa [Function.comp_def] using (hPassed.append hReads).run
  · intro hEnd
    have hBehind : (p.append (fields.flatMap Field.bytes)).pending =
        fields.flatMap Field.bytes := by
      rw [append, hEnd, List.nil_append]
    obtain ⟨p', hReads⟩ := answers_from (p := p.append _) hTakes hBehind
    simpa [Function.comp_def] using (hWrites.append hReads).run

theorem run_fields_mixed :
    (run [.writeUInt32 23, .writeString (.given (.text "é")), .writeInteger (-5),
      .writeNameList (some ["huey", "dewey"]), .rewind, .readBytes 1, .readUInt32, .readText,
      .readInteger, .readNameList, .remainder] (ofBytes [7])).map Prod.fst =
    [.ok .itself, .ok .itself, .ok .itself, .ok .itself, .ok .done, .ok (.bytes [7]), .ok (.count 23),
      .ok (.text "é"), .ok (.integer (-5)), .ok (.texts ["huey", "dewey"]), .ok (.bytes [])] := by
  let fields : List Field := [.uint32 23, .text "é", .integer (-5),
    .names ⟨["huey", "dewey"], by simp, by simp⟩]
  have hLimit : ∀ f ∈ fields, ∀ c ∈ f.encoded?, (c.length : Int) ≤ (ofBytes [7]).limit := by
    decide +kernel
  exact ((run_fields (ofBytes [7]) fields hLimit).1 (.inl (by decide))).1

end Packet
end SshKeys
