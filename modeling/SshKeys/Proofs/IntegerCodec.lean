import SshKeys.Proofs.BlobCodec
import SshKeys.Proofs.DerElement
/-!
# Integers as byte strings

A byte string keeps its number when copies of its sign byte are put in front of it, and an unsigned
one when zeros are; the main statement is that nothing else spells the same number, so that the
writings of a number are its shortest one behind such copies.
-/
namespace SshKeys

namespace Bytes

theorem zeros_succ (count : Nat) : zeros (count + 1) = 0 :: zeros count := List.replicate_succ

@[simp] theorem toNat_zeros_append (count : Nat) (bs : Bytes) :
    toNat (zeros count ++ bs) = toNat bs := by
  induction count with
  | zero => rfl
  | succ count ih =>
    rw [zeros_succ, List.cons_append, ← List.singleton_append, toNat_append, ih]
    simp

theorem toNat_inj {a b : Bytes} (hLength : a.length = b.length) (h : toNat a = toNat b) :
    a = b := by
  rw [← ofNat_toNat a, ← ofNat_toNat b, hLength, h]

/-- The unsigned writings of a number are the shortest one behind zeros. -/
theorem toNat_eq_iff {bs : Bytes} {n : Nat} :
    toNat bs = n ↔ ∃ count, bs = zeros count ++ minimal n := by
  constructor
  · rintro rfl
    have hShortest : byteLength (toNat bs) ≤ bs.length := byteLength_le (toNat_lt bs)
    -- with zeros in front the shortest writing has the same length, and one length has one writing
    refine ⟨bs.length - byteLength (toNat bs), toNat_inj ?_ ?_⟩
    · rw [List.length_append, length_zeros, length_minimal, Nat.sub_add_cancel hShortest]
    · rw [toNat_zeros_append, toNat_minimal]
  · rintro ⟨count, rfl⟩
    rw [toNat_zeros_append, toNat_minimal]

end Bytes

namespace TwosComplement

variable {b : UInt8} {bs rest : Bytes} {z : Int}

/-- The byte that repeats the sign of a number. -/
def signByte (z : Int) : UInt8 := if z < 0 then 255 else 0

theorem decode_neg_iff : decode (b :: rest) < 0 ↔ ¬b < 128 := by
  have hWhole := Bytes.toNat_lt (b :: rest)
  rw [decode]
  split
  · rename_i hSign
    simp only [hSign, not_true, iff_false, Int.ofNat_eq_natCast]
    omega
  · rename_i hSign
    simp only [hSign, not_false_eq_true, iff_true, Int.ofNat_eq_natCast, Nat.pow_eq]
    omega

theorem decode_sign_cons (b : UInt8) (rest : Bytes) :
    decode (signByte (decode (b :: rest)) :: b :: rest) = decode (b :: rest) := by
  by_cases hSign : b < 128
  · have hValue : decode (b :: rest) = Bytes.toNat (b :: rest) := by rw [decode, if_pos hSign]; rfl
    have hByte : signByte (decode (b :: rest)) = 0 :=
      if_neg (decode_neg_iff.not.mpr (not_not.mpr hSign))
    rw [hByte, decode_cons, hValue]
    simp
  · have hValue :
        decode (b :: rest) = Bytes.toNat (b :: rest) - (256 ^ (b :: rest).length : Nat) := by
      rw [decode, if_neg hSign]
      rfl
    have hByte : signByte (decode (b :: rest)) = 255 := if_pos (decode_neg_iff.mpr hSign)
    have hLead : ¬(255 : UInt8) < 128 := by decide
    have hNumber : (255 : UInt8).toNat = 255 := rfl
    -- the new byte counts for `(255 - 256) * 256 ^ size`, just what a set sign bit takes off
    rw [hByte, decode_cons, hValue, if_neg hLead, hNumber]
    omega

theorem decode_signed (count : Nat) (hSome : bs ≠ []) :
    decode (List.replicate count (signByte (decode bs)) ++ bs) = decode bs := by
  induction count with
  | zero => rfl
  | succ count ih =>
    -- what stands behind the next copy is a writing of the same number, so it has the same sign
    obtain ⟨b, rest, hNext⟩ := List.exists_cons_of_ne_nil
      (List.append_ne_nil_of_right_ne_nil (List.replicate count (signByte (decode bs))) hSome)
    have hStep := decode_sign_cons b rest
    rw [← hNext, ih] at hStep
    rw [List.replicate_succ, List.cons_append, hStep]

theorem encode_ne_nil (z : Int) : encode z ≠ [] := by
  have hLength := width_pos z
  rw [← length_encode] at hLength
  exact List.ne_nil_of_length_pos hLength

theorem length_encode_le (hSome : bs ≠ []) : (encode (decode bs)).length ≤ bs.length := by
  by_cases hZero : decode bs = 0
  · rw [hZero]
    exact List.length_pos_of_ne_nil hSome
  · exact length_encode_decode_le hZero

/-- The writings of an integer are the shortest one behind copies of its sign byte. -/
theorem decode_eq_iff (hSome : bs ≠ []) :
    decode bs = z ↔ ∃ count, bs = List.replicate count (signByte z) ++ encode z := by
  have hSigned (count : Nat) (z : Int) :
      decode (List.replicate count (signByte z) ++ encode z) = z := by
    have hSame := decode_signed count (encode_ne_nil z)
    rwa [decode_encode] at hSame
  constructor
  · rintro rfl
    have hShortest := length_encode_le hSome
    refine ⟨bs.length - (encode (decode bs)).length, decode_inj ?_ (hSigned _ _).symm⟩
    rw [List.length_append, List.length_replicate, Nat.sub_add_cancel hShortest]
  · rintro ⟨count, rfl⟩
    exact hSigned count z

theorem encodeUnsigned_natCast {n : Nat} (hSome : 0 < n) :
    encodeUnsigned (n : Int) = Bytes.minimal n := if_pos (Int.natCast_pos.mpr hSome)

theorem toNat_encodeUnsigned (n : Nat) : Bytes.toNat (encodeUnsigned (n : Int)) = n := by
  rcases Nat.eq_zero_or_pos n with rfl | hSome
  · rfl
  · rw [encodeUnsigned_natCast hSome, Bytes.toNat_minimal]

/-- A number reads back from its writing, and any other writing of it is longer: the sign byte, or
for unsigned numbers a zero, stands in front of the shortest one. -/
theorem encode_shortest :
    (∀ z : Int, decode (encode z) = z ∧ encode z ≠ [] ∧
      ∀ bs : Bytes, bs ≠ [] → bs ≠ encode z →
        (decode bs = z ↔ ∃ count, bs = List.replicate count (signByte z) ++ encode z) ∧
        (decode bs = z → (encode z).length < bs.length)) ∧
    ∀ n : Nat, Bytes.toNat (encodeUnsigned n) = n ∧
      (0 < n → ∀ bs : Bytes, bs ≠ encodeUnsigned n →
        (Bytes.toNat bs = n ↔ ∃ count, bs = Bytes.zeros count ++ encodeUnsigned n) ∧
        (Bytes.toNat bs = n → (encodeUnsigned n).length < bs.length)) := by
  have longer {front shortest bs : Bytes} (hOther : bs ≠ shortest) (h : bs = front ++ shortest) :
      shortest.length < bs.length := by
    cases front with
    | nil => exact absurd h hOther
    | cons b front =>
      rw [h, List.length_append, List.length_cons]
      omega
  constructor
  · intro z
    refine ⟨decode_encode z, encode_ne_nil z, fun bs hSome hOther => ⟨decode_eq_iff hSome, ?_⟩⟩
    intro h
    obtain ⟨count, hWriting⟩ := (decode_eq_iff hSome).mp h
    exact longer hOther hWriting
  · intro n
    refine ⟨toNat_encodeUnsigned n, fun hSome bs hOther => ?_⟩
    rw [encodeUnsigned_natCast hSome] at hOther ⊢
    refine ⟨Bytes.toNat_eq_iff, fun h => ?_⟩
    obtain ⟨count, hWriting⟩ := Bytes.toNat_eq_iff.mp h
    exact longer hOther hWriting

/-- The greatest negative number out of reach of one byte, with one sign byte too many, and the
least unsigned number beyond it. -/
theorem encode_shortest_beyond_byte :
    encode (-129) = [0xFF, 0x7F] ∧ decode [0xFF, 0xFF, 0x7F] = -129 ∧
      (encode (-129)).length < [0xFF, 0xFF, 0x7F].length ∧
      encodeUnsigned 256 = [1, 0] ∧ Bytes.toNat [0, 1, 0] = 256 ∧
      (encodeUnsigned 256).length < [0, 1, 0].length := by
  have hSigned := (encode_shortest.1 (-129)).2.2 [0xFF, 0xFF, 0x7F] (by decide) (by decide)
  have hUnsigned := (encode_shortest.2 256).2 (by decide) [0, 1, 0] (by decide)
  have hNegative := hSigned.1.mpr ⟨1, by decide⟩
  have hPositive := hUnsigned.1.mpr ⟨1, by decide⟩
  exact ⟨by decide, hNegative, hSigned.2 hNegative, by decide, hPositive, hUnsigned.2 hPositive⟩

end TwosComplement
end SshKeys
