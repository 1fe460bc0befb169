import SshKeys.TwosComplement
import Mathlib.Data.List.Induction
import Mathlib.Data.Nat.Size
import Mathlib.Tactic.Ring
/-!
# Laws of big-endian numbers

Fixed-width writing and reading are inverse to each other below `256 ^ width`, and the two's
complement reading is the balanced remainder of the unsigned one, so that the shortest writing of an
integer reads back and no other writing is shorter.
-/
namespace SshKeys.Bytes

theorem forall_byte {P : UInt8 → Prop} (h : ∀ n < 256, P (UInt8.ofNat n)) (b : UInt8) : P b := by
  have hByte := h b.toNat b.toNat_lt
  rwa [UInt8.ofNat_toNat] at hByte

theorem toNat_shiftLeft_or {a b : UInt8} {k : Nat} (hk : k < 8) (hb : b.toNat < 2 ^ k) :
    (a <<< UInt8.ofNat k ||| b).toNat = a.toNat % 2 ^ (8 - k) * 2 ^ k + b.toNat := by
  have hShift : (UInt8.ofNat k).toNat % 8 = k := by
    rw [UInt8.toNat_ofNat_of_lt' (by rw [UInt8.size]; omega), Nat.mod_eq_of_lt hk]
  have hWhole : 2 ^ 8 = 2 ^ (8 - k) * 2 ^ k := by
    rw [← Nat.pow_add, Nat.sub_add_cancel hk.le]
  rw [UInt8.toNat_or, UInt8.toNat_shiftLeft, hShift, Nat.shiftLeft_eq, hWhole,
    Nat.mul_mod_mul_right, Nat.mul_comm, ← Nat.two_pow_add_eq_or_of_lt hb]

theorem toNat_shiftRight {a : UInt8} {k : Nat} (hk : k < 8) :
    (a >>> UInt8.ofNat k).toNat = a.toNat / 2 ^ k := by
  rw [UInt8.toNat_shiftRight, UInt8.toNat_ofNat_of_lt' (by rw [UInt8.size]; omega),
    Nat.mod_eq_of_lt hk, Nat.shiftRight_eq_div_pow]

theorem toNat_append (a b : Bytes) : toNat (a ++ b) = toNat a * 256 ^ b.length + toNat b := by
  have from_acc : ∀ (bs : Bytes) (n : Nat),
      bs.foldl (fun n b => n * 256 + b.toNat) n = n * 256 ^ bs.length + toNat bs := by
    intro bs
    induction bs using List.reverseRecOn with
    | nil => simp [toNat]
    | append_singleton bs b ih =>
      intro n
      simp only [toNat, List.foldl_append, List.foldl_cons, List.foldl_nil, List.length_append,
        List.length_singleton, Nat.pow_succ] at ih ⊢
      rw [ih]
      ring
  rw [toNat, List.foldl_append, from_acc]
  rfl

@[simp] theorem toNat_nil : toNat [] = 0 := rfl

@[simp] theorem toNat_singleton (b : UInt8) : toNat [b] = b.toNat := by simp [toNat]

theorem toNat_concat (bs : Bytes) (b : UInt8) : toNat (bs ++ [b]) = toNat bs * 256 + b.toNat := by
  simp [toNat]

theorem toNat_lt (bs : Bytes) : toNat bs < 256 ^ bs.length := by
  induction bs using List.reverseRecOn with
  | nil => decide
  | append_singleton bs b ih =>
    rw [toNat_concat, List.length_append, List.length_singleton, Nat.pow_succ]
    have hByte := b.toNat_lt
    omega

theorem ofNat_succ (width n : Nat) :
    ofNat (width + 1) n = ofNat width (n / 256) ++ [UInt8.ofNat n] := by
  have push_acc : ∀ (width n : Nat) (acc : Bytes), pushNat width n acc = ofNat width n ++ acc := by
    intro width
    induction width with
    | zero => intro n acc; rfl
    | succ width ih =>
      intro n acc
      rw [ofNat, pushNat, pushNat, ih, ih, List.append_assoc]
      rfl
  rw [ofNat, pushNat, push_acc]

@[simp] theorem length_ofNat (width n : Nat) : (ofNat width n).length = width := by
  induction width generalizing n with
  | zero => rfl
  | succ width ih => simp [ofNat_succ, ih]

theorem toNat_ofNat (width n : Nat) : toNat (ofNat width n) = n % 256 ^ width := by
  induction width generalizing n with
  | zero => simp [ofNat, pushNat, Nat.mod_one]
  | succ width ih =>
    rw [ofNat_succ, toNat_concat, ih, Nat.pow_succ, Nat.mul_comm (256 ^ width), Nat.mod_mul]
    simp only [UInt8.toNat_ofNat']
    omega

theorem toNat_ofNat_of_lt {width n : Nat} (h : n < 256 ^ width) : toNat (ofNat width n) = n := by
  rw [toNat_ofNat, Nat.mod_eq_of_lt h]

theorem ofNat_toNat (bs : Bytes) : ofNat bs.length (toNat bs) = bs := by
  induction bs using List.reverseRecOn with
  | nil => rfl
  | append_singleton bs b ih =>
    have hByte := b.toNat_lt
    have hDiv : (toNat bs * 256 + b.toNat) / 256 = toNat bs := by omega
    have hLast : UInt8.ofNat (toNat bs * 256 + b.toNat) = b := by
      apply UInt8.toNat_inj.mp
      rw [UInt8.toNat_ofNat']
      omega
    rw [toNat_concat, List.length_append, List.length_singleton, ofNat_succ, hDiv, hLast, ih]

@[simp] theorem length_zeros (count : Nat) : (zeros count).length = count := List.length_replicate

theorem bitLength_eq_size (n : Nat) : bitLength n = n.size := by
  unfold bitLength
  split
  · rename_i hZero
    simp [hZero]
  · rename_i hZero
    apply Nat.le_antisymm
    · exact Nat.lt_size.mpr (Nat.log2_self_le hZero)
    · exact Nat.size_le.mpr Nat.lt_log2_self

theorem bitLength_le {n bits : Nat} : bitLength n ≤ bits ↔ n < 2 ^ bits := by
  rw [bitLength_eq_size, Nat.size_le]

theorem lt_bitLength {n bits : Nat} : bits < bitLength n ↔ 2 ^ bits ≤ n := by
  rw [bitLength_eq_size, Nat.lt_size]

end SshKeys.Bytes

namespace SshKeys.TwosComplement

/-- Whether the leading byte of a number has its sign bit tells on which side of the half the number
lies. -/
theorem lead_lt_iff (lead : Nat) {rest unit : Nat} (hRest : rest < unit) :
    lead < 128 ↔ 2 * (lead * unit + rest) < unit * 256 := by
  constructor
  · intro hLead
    have hLow : lead * unit ≤ 127 * unit := Nat.mul_le_mul_right _ (Nat.le_of_lt_succ hLead)
    omega
  · intro hWhole
    by_contra hLead
    have hHigh : 128 * unit ≤ lead * unit := Nat.mul_le_mul_right _ (Nat.le_of_not_lt hLead)
    omega

/-- The reading as a remainder that lies as near to zero as it can. -/
theorem decode_eq_bmod (bs : Bytes) :
    decode bs = (Bytes.toNat bs : Int).bmod (256 ^ bs.length) := by
  have hWhole := Bytes.toNat_lt bs
  have hMod : (Bytes.toNat bs : Int) % (256 ^ bs.length : Nat) = Bytes.toNat bs := by
    rw [← Int.natCast_emod, Nat.mod_eq_of_lt hWhole]
  rw [Int.bmod, hMod]
  cases bs with
  | nil => rfl
  | cons b bs =>
    have hSplit : Bytes.toNat (b :: bs) = b.toNat * 256 ^ bs.length + Bytes.toNat bs := by
      rw [← List.singleton_append, Bytes.toNat_append, Bytes.toNat_singleton]
    have hLead := lead_lt_iff b.toNat (Bytes.toNat_lt bs)
    rw [← hSplit, ← Nat.pow_succ] at hLead
    have hSide : b < 128 ↔
        (Bytes.toNat (b :: bs) : Int) < ((256 ^ (b :: bs).length : Nat) + 1) / 2 := by
      rw [UInt8.lt_iff_toNat_lt, List.length_cons]
      change b.toNat < 128 ↔ _
      rw [hLead]
      omega
    simp only [decode, hSide, Int.ofNat_eq_natCast, Nat.pow_eq]

theorem width_le {z : Int} {bytes : Nat} (hZero : z ≠ 0)
    (hLow : -(2 ^ (8 * bytes) : Nat) ≤ 2 * z) (hHigh : 2 * z < (2 ^ (8 * bytes) : Nat)) :
    width z ≤ bytes := by
  have width_of_bits : ∀ n : Nat, 0 < bytes → 2 * n < 2 ^ (8 * bytes) →
      Bytes.bitLength n / 8 + 1 ≤ bytes := by
    intro n hPos hBits
    obtain ⟨bits, hBytes⟩ : ∃ bits, 8 * bytes = bits + 1 := ⟨8 * bytes - 1, by omega⟩
    rw [hBytes, Nat.pow_succ] at hBits
    have hSize : Bytes.bitLength n ≤ bits := Bytes.bitLength_le.mpr (by omega)
    omega
  have hPos : 0 < bytes := by
    rcases Nat.eq_zero_or_pos bytes with rfl | h
    · simp at hLow hHigh
      omega
    · exact h
  cases z with
  | ofNat n => exact width_of_bits n hPos (by simp only [Int.ofNat_eq_natCast] at hHigh; omega)
  | negSucc n => exact width_of_bits n hPos (by omega)

theorem pow_256 (bytes : Nat) : 256 ^ bytes = 2 ^ (8 * bytes) := by
  rw [show 256 = 2 ^ 8 by rfl, ← Nat.pow_mul]

theorem width_bounds (z : Int) :
    -(2 ^ (8 * width z) : Nat) ≤ 2 * z ∧ 2 * z < (2 ^ (8 * width z) : Nat) := by
  have bits_of_width : ∀ n : Nat, 2 * (n + 1) ≤ 2 ^ (8 * (Bytes.bitLength n / 8 + 1)) := by
    intro n
    have hBits : n < 2 ^ Bytes.bitLength n := Bytes.bitLength_le.mp le_rfl
    calc
      2 * (n + 1) ≤ 2 ^ (Bytes.bitLength n + 1) := by rw [Nat.pow_succ]; omega
      _ ≤ 2 ^ (8 * (Bytes.bitLength n / 8 + 1)) := Nat.pow_le_pow_right (by decide) (by omega)
  cases z with
  | ofNat n =>
    have := bits_of_width n
    simp only [width, Int.ofNat_eq_natCast]
    omega
  | negSucc n =>
    have := bits_of_width n
    simp only [width, Int.negSucc_eq]
    omega

theorem width_pos (z : Int) : 0 < width z := by cases z <;> exact Nat.succ_pos _

theorem length_encode (z : Int) : (encode z).length = width z := Bytes.length_ofNat _ _

theorem decode_encode (z : Int) : decode (encode z) = z := by
  have hPos : 0 < 256 ^ width z := Nat.pow_pos (by decide)
  have hEncoded : encode z = Bytes.ofNat (width z) (z % (256 ^ width z : Nat)).toNat := rfl
  have hNonneg : 0 ≤ z % (256 ^ width z : Nat) := Int.emod_nonneg _ (by omega)
  have hRange : (z % (256 ^ width z : Nat)).toNat < 256 ^ width z := by
    have := Int.emod_lt_of_pos z (show 0 < ((256 ^ width z : Nat) : Int) by omega)
    omega
  have hBounds := width_bounds z
  rw [← pow_256] at hBounds
  have hEven : 2 ∣ 256 ^ width z := dvd_pow (by decide) (width_pos z).ne'
  rw [decode_eq_bmod, length_encode, hEncoded, Bytes.toNat_ofNat_of_lt hRange,
    Int.toNat_of_nonneg hNonneg, Int.emod_bmod, Int.bmod_eq_iff hPos]
  exact ⟨by omega, by omega, by simp⟩

theorem length_encode_decode_le {bs : Bytes} (hZero : decode bs ≠ 0) :
    (encode (decode bs)).length ≤ bs.length := by
  have hPos : 0 < 256 ^ bs.length := Nat.pow_pos (by decide)
  have hLength : bs.length ≠ 0 := by
    rintro hNil
    rw [List.length_eq_zero_iff.mp hNil] at hZero
    exact hZero rfl
  have hEven : 2 ∣ 256 ^ bs.length := dvd_pow (by decide) hLength
  have hLow := Int.le_bmod (x := Bytes.toNat bs) hPos
  have hHigh := Int.bmod_lt (x := Bytes.toNat bs) hPos
  rw [← decode_eq_bmod] at hLow hHigh
  rw [length_encode]
  apply width_le hZero <;> rw [← pow_256] <;> omega

end SshKeys.TwosComplement
