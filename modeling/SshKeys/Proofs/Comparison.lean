import SshKeys.Datum
import Mathlib.Data.Nat.Bitwise
/-!
# Comparing in full length

The comparison collects the bits in which two sequences differ and never gives one back, so that it
finds nothing exactly if the sequences are equal.
-/
namespace SshKeys.Datum

theorem testBit_foldl_or (ns : List Nat) (acc bit : Nat) :
    (ns.foldl (· ||| ·) acc).testBit bit = true ↔
      acc.testBit bit = true ∨ ∃ n ∈ ns, n.testBit bit = true := by
  induction ns generalizing acc with
  | nil => simp
  | cons n ns ih =>
    rw [List.foldl_cons, ih, Nat.testBit_or, Bool.or_eq_true, or_assoc]
    simp only [List.mem_cons, exists_eq_or_imp]

theorem testBit_differences (a b : List Nat) (bit : Nat) :
    (differences a b).testBit bit = true ↔
      ∃ i n m : Nat, a[i]? = some n ∧ b[i]? = some m ∧ n.testBit bit ≠ m.testBit bit := by
  have hStart : Nat.testBit 0 bit ≠ true := by simp
  rw [differences, testBit_foldl_or, or_iff_right hStart]
  constructor
  · rintro ⟨difference, hMem, hBit⟩
    obtain ⟨i, hAt⟩ := List.mem_iff_getElem?.mp hMem
    obtain ⟨n, m, hLeft, hRight, rfl⟩ := List.getElem?_zipWith_eq_some.mp hAt
    refine ⟨i, n, m, hLeft, hRight, ?_⟩
    rwa [Nat.testBit_xor, Bool.xor_iff_ne] at hBit
  · rintro ⟨i, n, m, hLeft, hRight, hDiffer⟩
    refine ⟨n ^^^ m, List.mem_of_getElem? (i := i) ?_, ?_⟩
    · exact List.getElem?_zipWith_eq_some.mpr ⟨n, m, hLeft, hRight, rfl⟩
    · rwa [Nat.testBit_xor, Bool.xor_iff_ne]

theorem differences_eq_zero_iff {a b : List Nat} (hLength : a.length = b.length) :
    differences a b = 0 ↔ a = b := by
  have hNone : differences a b = 0 ↔ ∀ bit, (differences a b).testBit bit ≠ true := by
    constructor
    · intro hZero bit
      rw [hZero]
      simp
    · intro hClear
      apply Nat.eq_of_testBit_eq
      intro bit
      rw [Nat.zero_testBit, Bool.eq_false_iff.mpr (hClear bit)]
  rw [hNone]
  constructor
  · intro hClear
    apply List.ext_getElem hLength
    intro i hLeft hRight
    -- at one position every bit is the same, or it would have been collected
    apply Nat.eq_of_testBit_eq
    intro bit
    by_contra hDiffer
    apply hClear bit
    rw [testBit_differences]
    exact ⟨i, _, _, List.getElem?_eq_getElem hLeft, List.getElem?_eq_getElem hRight, hDiffer⟩
  · rintro rfl bit hBit
    obtain ⟨i, n, m, hLeft, hRight, hDiffer⟩ := (testBit_differences ..).mp hBit
    apply hDiffer
    rw [Option.some.inj (hLeft.symm.trans hRight)]

theorem agree_eq_true_iff {a b : List Nat} : agree a b = true ↔ a = b := by
  rw [agree, Bool.and_eq_true, beq_iff_eq, beq_iff_eq]
  constructor
  · rintro ⟨hLength, hZero⟩
    exact (differences_eq_zero_iff hLength).mp hZero
  · rintro rfl
    exact ⟨rfl, (differences_eq_zero_iff rfl).mpr rfl⟩

theorem agree_bytes_iff {a b : Bytes} :
    agree (a.map UInt8.toNat) (b.map UInt8.toNat) = true ↔ a = b :=
  agree_eq_true_iff.trans (List.map_inj_right fun _ _ => UInt8.toNat_inj.mp)

/-- Byte strings of any lengths are found equal exactly if they are. After any number of positions
just those bits have been collected in which the bytes at one of them differ, so what one position
has shown is not taken back by another. -/
theorem equalThroughout_bytes (a b : Bytes) :
    equalThroughout (.bytes a) (.bytes b) = .ok (decide (a = b)) ∧
      ∀ count bit : Nat,
        (differences ((a.take count).map UInt8.toNat)
          ((b.take count).map UInt8.toNat)).testBit bit = true ↔
        ∃ i x y, i < count ∧ a[i]? = some x ∧ b[i]? = some y ∧
          x.toNat.testBit bit ≠ y.toNat.testBit bit := by
  constructor
  · have hAgree : agree (a.map UInt8.toNat) (b.map UInt8.toNat) = decide (a = b) := by
      rw [Bool.eq_iff_iff, agree_bytes_iff, decide_eq_true_iff]
    exact congrArg Except.ok hAgree
  · intro count bit
    rw [testBit_differences]
    simp only [List.getElem?_map, List.getElem?_take, Option.map_eq_some_iff]
    constructor
    · rintro ⟨i, n, m, ⟨x, hx, rfl⟩, ⟨y, hy, rfl⟩, hDiffer⟩
      obtain ⟨hi, hx⟩ := Option.ite_none_right_eq_some.mp hx
      obtain ⟨-, hy⟩ := Option.ite_none_right_eq_some.mp hy
      exact ⟨i, x, y, hi, hx, hy, hDiffer⟩
    · rintro ⟨i, x, y, hi, hx, hy, hDiffer⟩
      refine ⟨i, _, _, ⟨x, ?_, rfl⟩, ⟨y, ?_, rfl⟩, hDiffer⟩
      · rwa [if_pos hi]
      · rwa [if_pos hi]

/-- Two differences by the same bits. -/
example : equalThroughout (.bytes [1, 2]) (.bytes [2, 1]) = .ok false := by decide

end SshKeys.Datum
