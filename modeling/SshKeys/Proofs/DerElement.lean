import SshKeys.Der.Value
import SshKeys.Proofs.BigEndian
/-!
# Elements of DER and their octets

Every element whose contents have a length that can be written reads back, in front of anything, and
so does every value that keys are made of.
-/
namespace SshKeys

namespace Bytes

@[simp] theorem length_minimal (n : Nat) : (minimal n).length = byteLength n := length_ofNat _ _

theorem lt_pow_byteLength (n : Nat) : n < 256 ^ byteLength n := by
  have hBits : bitLength n ≤ 8 * byteLength n := by
    rw [byteLength]
    omega
  rw [TwosComplement.pow_256]
  exact bitLength_le.mp hBits

@[simp] theorem toNat_minimal (n : Nat) : toNat (minimal n) = n :=
  toNat_ofNat_of_lt (lt_pow_byteLength n)

theorem two_pow_le {bits count : Nat} (h : bits ≤ 8 * count) : 2 ^ bits ≤ 256 ^ count := by
  rw [TwosComplement.pow_256]
  exact Nat.pow_le_pow_right (by decide) h

theorem byteLength_le {n count : Nat} (h : n < 256 ^ count) : byteLength n ≤ count := by
  rw [TwosComplement.pow_256] at h
  have hBits := bitLength_le.mpr h
  rw [byteLength]
  omega

end Bytes

namespace Der.Element

/-- A length from here on takes more octets than can be counted. -/
def sizeLimit : Nat := 256 ^ 127

/-- Whether the length of the contents can be written. -/
def Fits (e : Element) : Prop := e.contents.length < sizeLimit

theorem lengthOctets_short {n : Nat} (h : n < 128) : lengthOctets n = [UInt8.ofNat n] := if_pos h

theorem lengthOctets_long {n : Nat} (h : ¬n < 128) :
    lengthOctets n = UInt8.ofNat (128 + Bytes.byteLength n) :: Bytes.minimal n := if_neg h

theorem readLength?_lengthOctets {n : Nat} (h : n < sizeLimit) (rest : Bytes) :
    readLength? (lengthOctets n ++ rest) = some (n, rest) := by
  by_cases hShort : n < 128
  · have hByte : (UInt8.ofNat n).toNat = n := by
      rw [UInt8.toNat_ofNat']
      omega
    have hFirst : UInt8.ofNat n < 128 := by
      rw [UInt8.lt_iff_toNat_lt, hByte]
      exact hShort
    rw [lengthOctets_short hShort, List.singleton_append, readLength?, if_pos hFirst, hByte]
  · have hCount := Bytes.byteLength_le h
    have hByte : (UInt8.ofNat (128 + Bytes.byteLength n)).toNat = 128 + Bytes.byteLength n := by
      rw [UInt8.toNat_ofNat']
      omega
    have hFirst : ¬UInt8.ofNat (128 + Bytes.byteLength n) < 128 := by
      rw [UInt8.lt_iff_toNat_lt, hByte]
      exact Nat.not_lt.mpr (Nat.le_add_right _ _)
    rw [lengthOctets_long hShort, List.cons_append, readLength?, if_neg hFirst, hByte]
    simp only [Nat.add_sub_cancel_left]
    rw [List.take_left' (Bytes.length_minimal n), List.drop_left' (Bytes.length_minimal n),
      Bytes.toNat_minimal, if_pos]
    refine ⟨?_, Nat.not_lt.mp hShort, rfl⟩
    rw [List.length_append, Bytes.length_minimal]
    exact Nat.le_add_right _ _

theorem read?_toBytes {e : Element} (h : e.Fits) (rest : Bytes) :
    read? (e.toBytes ++ rest) = some (e, rest) := by
  rw [toBytes, List.cons_append, List.append_assoc, read?, readLength?_lengthOctets h]
  simp only
  rw [if_pos (by simp), List.take_left, List.drop_left]

theorem ofBytes?_toBytes {e : Element} (h : e.Fits) : ofBytes? e.toBytes = some e := by
  have hRead := read?_toBytes h []
  rw [List.append_nil] at hRead
  rw [ofBytes?, hRead]

theorem toBytes_ne_nil (e : Element) : e.toBytes ≠ [] := List.cons_ne_nil _ _

theorem listFrom_flatMap {items : List Element} (h : ∀ e ∈ items, e.Fits) {steps : Nat}
    (hSteps : items.length ≤ steps) (done : List Element) :
    listFrom steps done (items.flatMap toBytes) = some (done.reverse ++ items) := by
  induction items generalizing steps done with
  | nil => simp [listFrom]
  | cons e items ih =>
    rw [List.forall_mem_cons] at h
    cases steps with
    | zero => cases hSteps
    | succ steps =>
      rw [List.flatMap_cons, listFrom, read?_toBytes h.1]
      · simp only
        rw [ih h.2 (Nat.le_of_succ_le_succ hSteps), List.reverse_cons, List.append_assoc]
        rfl
      · intro hEmpty
        exact toBytes_ne_nil e (List.append_eq_nil_iff.mp hEmpty).1

theorem length_le_flatMap (items : List Element) :
    items.length ≤ (items.flatMap toBytes).length := by
  induction items with
  | nil => exact Nat.zero_le _
  | cons e items ih =>
    rw [List.flatMap_cons, List.length_append, List.length_cons, toBytes, List.length_cons]
    omega

theorem listOf?_flatMap {items : List Element} (h : ∀ e ∈ items, e.Fits) :
    listOf? (items.flatMap toBytes) = some items := listFrom_flatMap h (length_le_flatMap items) []

theorem items?_ofItems (tag : UInt8) {items : List Element} (h : ∀ e ∈ items, e.Fits) :
    (ofItems tag items).items? tag = some items := by
  rw [items?, ofItems, if_pos rfl]
  exact listOf?_flatMap h

theorem items?_of_ne {tag : UInt8} {e : Element} (h : e.tag ≠ tag) : e.items? tag = none := if_neg h

theorem sequence?_sequence {items : List Element} (h : ∀ e ∈ items, e.Fits) :
    (sequence items).sequence? = some items := items?_ofItems 0x30 h

theorem sequence?_of_ne {e : Element} (h : e.tag ≠ 0x30) : e.sequence? = none := items?_of_ne h

theorem marked?_marked (place : UInt8) {e : Element} (h : e.Fits) :
    (marked place e).marked? place = some e := by
  rw [marked?, marked, items?_ofItems _ (List.forall_mem_singleton.mpr h)]

theorem isNatural_of_lead {b : UInt8} {bs : Bytes} (hSign : b < 128)
    (hShortest : ∀ next rest, bs = next :: rest → b = 0 → 128 ≤ next) :
    isNatural (b :: bs) = true := by
  cases bs with
  | nil => exact decide_eq_true hSign
  | cons next rest =>
    simp only [isNatural, Bool.and_eq_true, Bool.or_eq_true, bne_iff_ne, decide_eq_true_eq]
    refine ⟨hSign, ?_⟩
    by_cases hZero : b = 0
    · exact .inr (hShortest next rest rfl hZero)
    · exact .inl hZero

theorem toNat_encode (n : Nat) : Bytes.toNat (TwosComplement.encode n) = n := by
  have hBelow := (TwosComplement.width_bounds n).2
  rw [← TwosComplement.pow_256] at hBelow
  have hEncoded : TwosComplement.encode n = Bytes.ofNat (TwosComplement.width n) n := by
    have hMod : (n : Int) % (256 ^ TwosComplement.width n : Nat) = n :=
      Int.emod_eq_of_lt (by omega) (by omega)
    change Bytes.ofNat _ ((n : Int) % (256 ^ TwosComplement.width n : Nat)).toNat = _
    rw [hMod, Int.toNat_natCast]
  rw [hEncoded, Bytes.toNat_ofNat_of_lt (by omega)]

/-- A number at least zero is written with a sign bit that is clear. -/
theorem lead_lt_of_encode {n : Nat} {b : UInt8} {bs : Bytes}
    (h : TwosComplement.encode n = b :: bs) : b < 128 := by
  have hDecoded := TwosComplement.decode_encode n
  have hValue := toNat_encode n
  rw [h] at hDecoded hValue
  by_contra hHigh
  -- with the bit set the bytes would spell a number below zero
  have hBelow := Bytes.toNat_lt (b :: bs)
  simp only [TwosComplement.decode, if_neg hHigh, hValue, Nat.pow_eq,
    Int.ofNat_eq_natCast] at hDecoded
  omega

/-- A leading zero only stands where the byte behind it would be taken for a sign. -/
theorem le_second_of_encode {n : Nat} {next : UInt8} {rest : Bytes}
    (h : TwosComplement.encode n = 0 :: next :: rest) : 128 ≤ next := by
  by_contra hLow
  -- without the leading zero the bytes spell the same number
  have hTail : TwosComplement.decode (next :: rest) = n := by
    have hSame : Bytes.toNat (next :: rest) = n := by
      have hValue := toNat_encode n
      rw [h, ← List.singleton_append, Bytes.toNat_append, Bytes.toNat_singleton] at hValue
      simpa using hValue
    simp only [TwosComplement.decode, if_pos (UInt8.not_le.mp hLow), hSame]
    rfl
  by_cases hZero : n = 0
  · rw [hZero] at h
    cases h
  · have hShorter := @TwosComplement.length_encode_decode_le (next :: rest)
      (by rw [hTail]; omega)
    rw [hTail, h, List.length_cons, List.length_cons] at hShorter
    omega

theorem isNatural_encode (n : Nat) : isNatural (TwosComplement.encode n) = true := by
  cases hBytes : TwosComplement.encode n with
  | nil =>
    have hLength := TwosComplement.length_encode n
    have hPositive := TwosComplement.width_pos n
    rw [hBytes, List.length_nil] at hLength
    omega
  | cons b bs =>
    refine isNatural_of_lead (lead_lt_of_encode hBytes) ?_
    rintro next rest rfl rfl
    exact le_second_of_encode hBytes

theorem natural?_natural (n : Nat) : (natural n).natural? = some n := by
  rw [natural?, natural, if_pos ⟨rfl, isNatural_encode n⟩, toNat_encode]

theorem pushArc_append (steps n : Nat) (acc rest : Bytes) :
    pushArc steps n (acc ++ rest) = pushArc steps n acc ++ rest := by
  induction steps generalizing n acc with
  | zero => rfl
  | succ steps ih =>
    rw [pushArc, pushArc]
    split
    · rfl
    · rw [← List.cons_append, ih]

theorem getD_leading (n : Nat) : (if n = 0 then none else some n).getD 0 = n := by
  split
  · exact Eq.symm ‹_›
  · rfl

theorem readArcs?_pushArc (done : List Nat) {n steps : Nat} (hSteps : n ≤ steps) (rest : Bytes) :
    readArcs? none done (pushArc steps n rest) =
      readArcs? (if n = 0 then none else some n) done rest := by
  induction steps generalizing n rest with
  | zero =>
    rw [Nat.le_zero.mp hSteps]
    rfl
  | succ steps ih =>
    rw [pushArc]
    split
    · rfl
    · rename_i hZero
      have hDigit : (UInt8.ofNat (128 + n % 128)).toNat = 128 + n % 128 := by
        rw [UInt8.toNat_ofNat']
        omega
      have hMore : (128 : UInt8) ≤ UInt8.ofNat (128 + n % 128) := by
        rw [UInt8.le_iff_toNat_le, hDigit]
        exact Nat.le_add_right _ _
      -- the reader refuses a zero digit in the lead, and none is written
      have hLead : ¬((if n / 128 = 0 then none else some (n / 128)).isNone = true ∧
          UInt8.ofNat (128 + n % 128) = 128) := by
        rintro ⟨hFirst, hByte⟩
        rw [← UInt8.toNat_inj, hDigit] at hByte
        split at hFirst
        · change 128 + n % 128 = 128 at hByte
          omega
        · cases hFirst
      rw [ih (by omega), readArcs?]
      simp only [if_pos hMore, if_neg hLead, getD_leading, hDigit]
      rw [show n / 128 * 128 + (128 + n % 128) % 128 = n by omega]

theorem readArcs?_arcOctets (done : List Nat) (n : Nat) (rest : Bytes) :
    readArcs? none done (arcOctets n ++ rest) = readArcs? none (n :: done) rest := by
  have hDigit : (UInt8.ofNat (n % 128)).toNat = n % 128 := by
    rw [UInt8.toNat_ofNat']
    omega
  have hLast : ¬(128 : UInt8) ≤ UInt8.ofNat (n % 128) := by
    rw [UInt8.le_iff_toNat_le, hDigit]
    exact Nat.not_le.mpr (Nat.mod_lt _ (by decide))
  rw [arcOctets, ← pushArc_append, List.singleton_append,
    readArcs?_pushArc done (Nat.div_le_self n 128), readArcs?]
  simp only [if_neg hLast, getD_leading, hDigit]
  rw [show n / 128 * 128 + n % 128 % 128 = n by omega]

theorem readArcs?_flatMap (done ns : List Nat) :
    readArcs? none done (ns.flatMap arcOctets) = some (done.reverse ++ ns) := by
  induction ns generalizing done with
  | nil => simp [readArcs?]
  | cons n ns ih =>
    rw [List.flatMap_cons, readArcs?_arcOctets, ih, List.reverse_cons, List.append_assoc]
    rfl

/-- Identifiers have at least two numbers, and these fit the one place that they share. -/
def IsIdentifier : List Nat → Prop
  | first :: second :: _ => first ≤ 2 ∧ (first < 2 → second < 40)
  | _ => False

theorem unfoldArcs?_foldArcs {arcs : List Nat} (h : IsIdentifier arcs) :
    unfoldArcs? (foldArcs arcs) = some arcs := by
  match arcs, h with
  | first :: second :: rest, ⟨hFirst, hSecond⟩ =>
    rw [foldArcs, unfoldArcs?]
    obtain rfl | rfl | rfl : first = 0 ∨ first = 1 ∨ first = 2 := by omega
    · rw [if_pos (by omega), Nat.mul_zero, Nat.zero_add]
    · rw [if_neg (by omega), if_pos (by omega), Nat.mul_one, Nat.add_sub_cancel_left]
    · rw [if_neg (by omega), if_neg (by omega), Nat.add_sub_cancel_left]

theorem identifier?_identifier {arcs : List Nat} (h : IsIdentifier arcs) :
    (identifier arcs).identifier? = some arcs := by
  rw [identifier?, identifier, if_pos rfl, readArcs?_flatMap]
  exact unfoldArcs?_foldArcs h

theorem algorithm?_algorithm {arcs : List Nat} {parameters : List Element}
    (hArcs : IsIdentifier arcs) (hFits : (identifier arcs).Fits)
    (hParameters : ∀ e ∈ parameters, e.Fits) (hCount : parameters.length ≤ 1) :
    (algorithm arcs parameters).algorithm? = some (arcs, parameters.head?) := by
  have hItems : (algorithm arcs parameters).sequence? = some (identifier arcs :: parameters) :=
    sequence?_sequence (List.forall_mem_cons.mpr ⟨hFits, hParameters⟩)
  rw [algorithm?, hItems]
  match parameters, hCount with
  | [], _ =>
    simp only [Option.bind_eq_bind, Option.bind_some, identifier?_identifier hArcs]
    rfl
  | [e], _ =>
    simp only [Option.bind_eq_bind, Option.bind_some, identifier?_identifier hArcs]
    rfl

end Der.Element
end SshKeys
