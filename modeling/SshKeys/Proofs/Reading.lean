import SshKeys.Key.Public
import SshKeys.Proofs.BigEndian
import SshKeys.Proofs.Outcome
import Mathlib.Data.List.Forall2
/-!
# What readers read

`Packet.Advance p bs p'` says that reading `bs` leads from `p` to `p'`; the main statements
characterise the success of each reader by the bytes it takes and the values they spell, so that a
longer reader is a chain of advances over adjoining pieces.
-/
namespace SshKeys

theorem Wire.fits_iff {n : Nat} : fits n ↔ n < 4294967296 := by rw [fits, decide_eq_true_eq]

@[simp] theorem Wire.decode_integerBytes (z : Int) : TwosComplement.decode (integerBytes z) = z := by
  rw [integerBytes]
  split
  · rename_i hZero
    exact hZero.symm
  · exact TwosComplement.decode_encode z

namespace Packet

/-- Reading `bs` leads from `p` to `p'`. -/
structure Advance (p : Packet) (bs : Bytes) (p' : Packet) : Prop where
  pending : p.pending = bs ++ p'.pending
  consumed : p'.consumed = bs.reverse ++ p.consumed
  limit : p'.limit = p.limit

/-- The packet behind `bs`, if that is what comes next, with `rest` still to be read. -/
def past (p : Packet) (bs rest : Bytes) : Packet := ⟨bs.reverse ++ p.consumed, rest, p.limit⟩

variable {p p' p'' : Packet} {a b bs : Bytes}

theorem advance_past {rest : Bytes} (h : p.pending = bs ++ rest) : p.Advance bs (p.past bs rest) :=
  ⟨h, rfl, rfl⟩

theorem Advance.eq_past (h : p.Advance bs p') : p' = p.past bs p'.pending := by
  obtain ⟨consumed, pending, limit⟩ := p'
  rw [past, mk.injEq]
  exact ⟨h.consumed, rfl, h.limit⟩

theorem Advance.nil (p : Packet) : p.Advance [] p := ⟨rfl, rfl, rfl⟩

theorem advance_nil_iff : p.Advance [] p' ↔ p = p' := by
  constructor
  · intro h
    rw [h.eq_past, past, ← List.nil_append p'.pending, ← h.pending]
    rfl
  · rintro rfl
    exact .nil p

theorem Advance.trans (h : p.Advance a p') (h' : p'.Advance b p'') : p.Advance (a ++ b) p'' where
  pending := by rw [h.pending, h'.pending, List.append_assoc]
  consumed := by rw [h'.consumed, h.consumed, List.reverse_append, List.append_assoc]
  limit := h'.limit.trans h.limit

/-- Where the packet stands once the first of two pieces has been read. -/
theorem Advance.split (h : p.Advance (a ++ b) p'') :
    p.Advance a (p.past a (b ++ p''.pending)) ∧
      (p.past a (b ++ p''.pending)).Advance b p'' := by
  refine ⟨advance_past (by rw [h.pending, List.append_assoc]), rfl, ?_, h.limit⟩
  rw [h.consumed, List.reverse_append, List.append_assoc]
  rfl

theorem advance_append_iff :
    p.Advance (a ++ b) p'' ↔ ∃ p', p.Advance a p' ∧ p'.Advance b p'' :=
  ⟨fun h => ⟨_, h.split⟩, fun ⟨_, h, h'⟩ => h.trans h'⟩

theorem Advance.content (h : p.Advance bs p') : p'.content = p.content := by
  simp [Packet.content, h.consumed, h.pending]

theorem Advance.position (h : p.Advance bs p') : p'.position = p.position + bs.length := by
  simp [Packet.position, h.consumed, Nat.add_comm]

theorem read_eq_ok_iff {count : Nat} :
    read count p = .ok bs p' ↔ bs.length = count ∧ p.Advance bs p' := by
  simp only [read]
  split
  · rename_i hShort
    constructor
    · nofun
    · rintro ⟨rfl, h⟩
      rw [h.pending] at hShort
      simp at hShort
  · rename_i hEnough
    have hLength : (p.pending.take count).length = count := by
      rw [List.length_take] at hEnough ⊢
      omega
    simp only [EStateM.Result.ok.injEq]
    constructor
    · rintro ⟨rfl, rfl⟩
      exact ⟨hLength, (List.take_append_drop count p.pending).symm, rfl, rfl⟩
    · rintro ⟨rfl, h⟩
      rw [h.eq_past, h.pending]
      simp [past]

/-- Whether a reader takes a string of these contents: the length has to fit its four bytes and the
limit of the packet. -/
def Takes (limit : Int) (bs : Bytes) : Prop := Wire.fits bs.length ∧ (bs.length : Int) ≤ limit

instance {limit : Int} : Decidable (Takes limit bs) := inferInstanceAs (Decidable (_ ∧ _))

theorem Takes.of_le {limit limit' : Int} (h : Takes limit a) (hLength : b.length ≤ a.length)
    (hLimit : limit ≤ limit') : Takes limit' b := by
  obtain ⟨hFits, hTaken⟩ := h
  have hBelow := Wire.fits_iff.mp hFits
  exact ⟨Wire.fits_iff.mpr (by omega), by omega⟩

theorem Takes.length_le {limit : Nat} (h : Takes limit bs) : bs.length ≤ limit := Int.ofNat_le.mp h.2

theorem takes_of_length_le (h : bs.length ≤ Wire.fieldLimit) : Takes Wire.fieldLimit bs := by
  refine ⟨Wire.fits_iff.mpr ?_, Int.ofNat_le.mpr h⟩
  rw [Wire.fieldLimit] at h
  omega

theorem takes_of_forall₂ {limit limit' : Int} {shorter fields : List Bytes}
    (h : List.Forall₂ (·.length ≤ ·.length) shorter fields) (hFields : ∀ c ∈ fields, Takes limit c)
    (hLimit : limit ≤ limit') : ∀ c ∈ shorter, Takes limit' c := by
  induction h with
  | nil => nofun
  | cons hLength _ ih =>
    rw [List.forall_mem_cons] at hFields ⊢
    exact ⟨hFields.1.of_le hLength hLimit, ih hFields.2⟩

theorem uint32_toNat {bs : Bytes} (h : bs.length = 4) : Wire.uint32 (Bytes.toNat bs) = bs := by
  rw [Wire.uint32, ← h, Bytes.ofNat_toNat]

theorem readUInt32_eq_ok_iff {n : Nat} :
    readUInt32 p = .ok n p' ↔ n < 4294967296 ∧ p.Advance (Wire.uint32 n) p' := by
  simp only [readUInt32, Stateful.bind_eq_ok_iff, Stateful.pure_eq_ok_iff, read_eq_ok_iff]
  constructor
  · rintro ⟨bs, p₁, ⟨hLength, h⟩, rfl, rfl⟩
    have hRange := Bytes.toNat_lt bs
    rw [hLength] at hRange
    exact ⟨hRange, (uint32_toNat hLength).symm ▸ h⟩
  · rintro ⟨hRange, h⟩
    exact ⟨_, p', ⟨Bytes.length_ofNat 4 n, h⟩, Bytes.toNat_ofNat_of_lt hRange, rfl⟩

theorem readUInt32_eq_ok {rest : Bytes} (hLength : bs.length = 4) (h : p.pending = bs ++ rest) :
    readUInt32 p = .ok (Bytes.toNat bs) (p.past bs rest) := by
  simp only [readUInt32, Stateful.bind_eq_ok_iff, Stateful.pure_eq_ok_iff, read_eq_ok_iff]
  exact ⟨bs, _, ⟨hLength, advance_past h⟩, rfl, rfl⟩

theorem readString_eq_ok_iff :
    readString p = .ok bs p' ↔ Takes p.limit bs ∧ p.Advance (Wire.string bs) p' := by
  simp only [readString, Stateful.bind_eq_ok_iff, readUInt32_eq_ok_iff, Stateful.get_eq_ok_iff,
    Stateful.throwIf_eq_ok_iff, read_eq_ok_iff]
  constructor
  · rintro ⟨length, p₁, ⟨hFits, hPrefix⟩, _, _, ⟨rfl, rfl⟩, hLimit, rfl, hBody⟩
    rw [hPrefix.limit] at hLimit
    exact ⟨⟨Wire.fits_iff.mpr hFits, by omega⟩, hPrefix.trans hBody⟩
  · rintro ⟨⟨hFits, hLimit⟩, h⟩
    obtain ⟨p₁, hPrefix, hBody⟩ := advance_append_iff.mp h
    refine ⟨bs.length, p₁, ⟨Wire.fits_iff.mp hFits, hPrefix⟩, p₁, p₁, ⟨rfl, rfl⟩, ?_, rfl, hBody⟩
    rw [hPrefix.limit]
    omega

/-- The reader stops at a string that declares more than the limit of the packet. -/
def Overflows {α : Type} (reader : Reader α) (p : Packet) : Prop :=
  ∃ e p', reader p = .error e p' ∧ e.kind = .reported .lengthOverflow

theorem Overflows.bind {α β : Type} {reader : Reader α} {f : α → Reader β} (h : Overflows reader p) :
    Overflows (reader >>= f) p := by
  obtain ⟨e, p', hError, hKind⟩ := h
  exact ⟨e, p', Stateful.bind_error hError, hKind⟩

theorem overflows_of_ok {α β : Type} {reader : Reader α} {f : α → Reader β} {a : α}
    (hRead : reader p = .ok a p') (h : Overflows (f a) p') : Overflows (reader >>= f) p := by
  rwa [Overflows, Stateful.bind_ok hRead]

theorem overflows_throwIf {α : Type} {c : Prop} [Decidable c] {reader : Reader α} {e : Error}
    (hCondition : c) (hKind : e.kind = .reported .lengthOverflow) :
    Overflows (if c then (do throw e; reader) else reader) p := by
  rw [if_pos hCondition]
  exact ⟨e, p, rfl, hKind⟩

theorem readString_overflows {rest : Bytes} (hFits : Wire.fits bs.length)
    (hLong : p.limit < bs.length) (h : p.pending = Wire.string bs ++ rest) :
    Overflows readString p := by
  rw [Wire.string, List.append_assoc] at h
  have hLength := readUInt32_eq_ok_iff.mpr ⟨Wire.fits_iff.mp hFits, advance_past (p := p) h⟩
  exact overflows_of_ok hLength (overflows_of_ok rfl (overflows_throwIf hLong rfl))

theorem readText_eq_ok_iff {s : String} :
    readText p = .ok s p' ↔ Takes p.limit (Utf8.encode s) ∧ p.Advance (Wire.text s) p' := by
  simp only [readText, Stateful.bind_eq_ok_iff, readString_eq_ok_iff]
  constructor
  · rintro ⟨bs, p₁, ⟨hTakes, h⟩, hDecode⟩
    cases hText : Utf8.decode? bs with
    | none => simp only [hText, Stateful.throw_eq_ok_iff] at hDecode
    | some t =>
      simp only [hText, Stateful.pure_eq_ok_iff] at hDecode
      obtain ⟨rfl, rfl⟩ := hDecode
      rw [Utf8.eq_encode_of_decode? hText] at hTakes h
      exact ⟨hTakes, h⟩
  · rintro ⟨hTakes, h⟩
    refine ⟨_, p', ⟨hTakes, h⟩, ?_⟩
    rw [Utf8.decode?_encode]
    rfl

theorem readInteger_eq_ok_iff {z : Int} :
    readInteger p = .ok z p' ↔
      ∃ bs, TwosComplement.decode bs = z ∧ Takes p.limit bs ∧ p.Advance (Wire.string bs) p' := by
  simp only [readInteger, Stateful.bind_eq_ok_iff, readString_eq_ok_iff, Stateful.pure_eq_ok_iff]
  constructor
  · rintro ⟨bs, p₁, h, rfl, rfl⟩
    exact ⟨bs, rfl, h⟩
  · rintro ⟨bs, rfl, h⟩
    exact ⟨bs, p', h, rfl, rfl⟩

theorem readInteger_of_advance {z : Int} (h : Takes p.limit (Wire.integerBytes z) ∧
    p.Advance (Wire.string (Wire.integerBytes z)) p') : readInteger p = .ok z p' :=
  readInteger_eq_ok_iff.mpr ⟨_, Wire.decode_integerBytes z, h⟩

/-- The string fields that come next, each short enough to be read, and where they end. -/
def FieldsAt (p : Packet) (fields : List Bytes) (p' : Packet) : Prop :=
  (∀ c ∈ fields, Takes p.limit c) ∧ p.Advance (fields.flatMap Wire.string) p'

theorem fieldsAt_nil_iff : FieldsAt p [] p' ↔ p = p' := by
  simp [FieldsAt, advance_nil_iff]

theorem fieldsAt_cons_iff {c : Bytes} {fields : List Bytes} :
    FieldsAt p (c :: fields) p' ↔
      ∃ p₁, (Takes p.limit c ∧ p.Advance (Wire.string c) p₁) ∧ FieldsAt p₁ fields p' := by
  simp only [FieldsAt, List.forall_mem_cons, List.flatMap_cons, advance_append_iff]
  constructor
  · rintro ⟨⟨hTakes, hRest⟩, p₁, hAt, hRestAt⟩
    refine ⟨p₁, ⟨hTakes, hAt⟩, ?_, hRestAt⟩
    rwa [hAt.limit]
  · rintro ⟨p₁, ⟨hTakes, hAt⟩, hRest, hRestAt⟩
    rw [hAt.limit] at hRest
    exact ⟨⟨hTakes, hRest⟩, p₁, hAt, hRestAt⟩

theorem lift_eq_ok_iff {α : Type} {x : Except Error α} {a : α} :
    KeyBody.lift x p = .ok a p' ↔ x = .ok a ∧ p = p' := by
  cases x with
  | error e => exact ⟨nofun, nofun⟩
  | ok b =>
    rw [KeyBody.lift, Stateful.pure_eq_ok_iff, Except.ok.injEq]

theorem parse_eq_ok_iff {α : Type} {reader : Reader α} {content : Bytes} {a : α} :
    parse reader content = .ok a ↔ ∃ p', reader (ofBytes content) = .ok a p' := by
  rw [parse]
  constructor
  · intro h
    split at h
    · rename_i b p' hReader
      cases h
      exact ⟨p', hReader⟩
    · cases h
  · rintro ⟨p', h⟩
    rw [h]

theorem parse_error {α : Type} {reader : Reader α} {content : Bytes} {e : Error}
    (h : reader (ofBytes content) = .error e p') : parse reader content = .error e := by
  rw [parse, h]

theorem Overflows.parse {α : Type} {reader : Reader α} {content : Bytes}
    (h : Overflows reader (ofBytes content)) :
    ∃ e, Packet.parse reader content = .error e ∧ e.kind = .reported .lengthOverflow := by
  obtain ⟨e, p', hError, hKind⟩ := h
  exact ⟨e, parse_error hError, hKind⟩

end Packet

namespace Wire

theorem strings_eq_ok_iff {contents : List Bytes} {bs : Bytes} :
    strings contents = .ok bs ↔
      (∀ c ∈ contents, fits c.length) ∧ bs = contents.flatMap string := by
  rw [strings]
  split
  · rename_i hFits
    rw [List.all_eq_true] at hFits
    rw [Except.ok.injEq]
    exact ⟨fun h => ⟨hFits, h.symm⟩, fun h => h.2.symm⟩
  · rename_i hFits
    rw [List.all_eq_true] at hFits
    exact ⟨nofun, fun h => absurd h.1 hFits⟩

theorem strings_error {contents : List Bytes} (h : ¬∀ c ∈ contents, fits c.length) :
    strings contents = .error (.misuse .width) := by
  rw [strings, if_neg]
  rwa [List.all_eq_true]

theorem strings_ok {contents : List Bytes} (h : ∀ c ∈ contents, fits c.length) :
    strings contents = .ok (contents.flatMap string) := strings_eq_ok_iff.mpr ⟨h, rfl⟩

theorem length_string (bs : Bytes) : (string bs).length = bs.length + 4 := by
  rw [string, List.length_append, uint32, Bytes.length_ofNat, Nat.add_comm]

theorem length_integerBytes_le (bs : Bytes) :
    (integerBytes (TwosComplement.decode bs)).length ≤ bs.length := by
  rw [integerBytes]
  split
  · exact Nat.zero_le _
  · rename_i hZero
    exact TwosComplement.length_encode_decode_le hZero

end Wire
end SshKeys
