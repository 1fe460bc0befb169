import SshKeys.Cipher.Aes
import SshKeys.Proofs.BigEndian
import Mathlib.Data.Fintype.EquivFin
/-!
# AES decryption undoes encryption

They undo each other under any list of round keys. Doubling is additive, and mixing a column four
times gives the column back, so that mixing three times more undoes it.
-/
namespace SshKeys.Aes

theorem substitute_eq (b : UInt8) : substitute b = substitution.toList.getD b.toNat 0 := by
  rw [substitute, Array.getD_eq_getD_getElem?, List.getD_eq_getElem?_getD, Array.getElem?_toList]

theorem unsubstitute_eq (b : UInt8) :
    unsubstitute b = inverseSubstitution.toList.getD b.toNat 0 := by
  rw [unsubstitute, Array.getD_eq_getD_getElem?, List.getD_eq_getElem?_getD, Array.getElem?_toList]

@[simp] theorem unsubstitute_substitute (b : UInt8) : unsubstitute (substitute b) = b := by
  rw [unsubstitute_eq, substitute_eq]
  revert b
  exact Bytes.forall_byte (by decide +kernel)

@[simp] theorem substitute_unsubstitute (b : UInt8) : substitute (unsubstitute b) = b := by
  have hLeft : Function.LeftInverse unsubstitute substitute := unsubstitute_substitute
  have : Finite UInt8 := Finite.of_injective UInt8.toFin fun _ _ => UInt8.toFin_inj.mp
  -- an injective map of a finite type to itself reaches everything
  have hReached : Function.Surjective substitute := Finite.surjective_of_injective hLeft.injective
  exact hLeft.rightInverse_of_surjective hReached b

theorem double_eq (b : UInt8) : double b = b <<< 1 ^^^ (b >>> 7) * 0x1B := by
  revert b
  exact Bytes.forall_byte (by decide +kernel)

theorem shiftRight_seven (b : UInt8) : b >>> 7 = 0 ∨ b >>> 7 = 1 := by
  revert b
  exact Bytes.forall_byte (by decide +kernel)

theorem double_xor (a b : UInt8) : double (a ^^^ b) = double a ^^^ double b := by
  -- the two top bits decide which of the reductions take place
  have hHigh : ((a ^^^ b) >>> 7) * (0x1B : UInt8) =
      ((a >>> 7) * (0x1B : UInt8)) ^^^ ((b >>> 7) * (0x1B : UInt8)) := by
    rw [UInt8.shiftRight_xor]
    rcases shiftRight_seven a with ha | ha <;> rcases shiftRight_seven b with hb | hb <;>
      rw [ha, hb] <;> decide
  rw [double_eq, double_eq, double_eq, UInt8.shiftLeft_xor, hHigh]
  ac_rfl

theorem xor_left_comm (a b c : UInt8) : a ^^^ (b ^^^ c) = b ^^^ (a ^^^ c) := by ac_rfl

theorem xor_cancel_left (a b : UInt8) : a ^^^ (a ^^^ b) = b := by
  rw [← UInt8.xor_assoc, UInt8.xor_self, UInt8.zero_xor]

namespace Column

theorem mix_mix (s : Column) : s.mix.mix = s.premix := by
  simp only [mix, premix, double_xor, mk.injEq]
  refine ⟨?_, ?_, ?_, ?_⟩ <;>
    simp only [UInt8.xor_assoc, UInt8.xor_comm, xor_left_comm, xor_cancel_left, UInt8.xor_self,
      UInt8.zero_xor]

theorem premix_premix (s : Column) : s.premix.premix = s := by
  obtain ⟨a, b, c, d⟩ := s
  simp only [premix, double_xor, mk.injEq]
  refine ⟨?_, ?_, ?_, ?_⟩ <;>
    simp only [UInt8.xor_comm, xor_left_comm, UInt8.xor_self, UInt8.xor_zero, UInt8.zero_xor]

@[simp] theorem unmix_mix (s : Column) : s.mix.unmix = s := by
  rw [unmix, ← mix_mix s.mix, mix_mix s, mix_mix s.premix, premix_premix]

@[simp] theorem mix_unmix (s : Column) : s.unmix.mix = s := by
  rw [unmix, mix_mix, premix_premix]

@[simp] theorem add_add (s t : Column) : (s.add t).add t = s := by
  simp only [add, UInt8.xor_assoc, UInt8.xor_self, UInt8.xor_zero]

@[simp] theorem unsubstitute_substitute (s : Column) : s.substitute.unsubstitute = s := by
  simp [substitute, unsubstitute]

@[simp] theorem substitute_unsubstitute (s : Column) : s.unsubstitute.substitute = s := by
  simp [substitute, unsubstitute]

end Column

namespace Block

@[simp] theorem add_add (s t : Block) : (s.add t).add t = s := by simp [add]

@[simp] theorem unsubstitute_substitute (s : Block) : s.substitute.unsubstitute = s := by
  simp [substitute, unsubstitute]

@[simp] theorem substitute_unsubstitute (s : Block) : s.unsubstitute.substitute = s := by
  simp [substitute, unsubstitute]

@[simp] theorem unshift_shift (s : Block) : s.shift.unshift = s := rfl

@[simp] theorem shift_unshift (s : Block) : s.unshift.shift = s := rfl

@[simp] theorem unmix_mix (s : Block) : s.mix.unmix = s := by simp [mix, unmix]

@[simp] theorem mix_unmix (s : Block) : s.unmix.mix = s := by simp [mix, unmix]

@[simp] theorem ofBytes_toBytes (s : Block) : ofBytes s.toBytes = s := rfl

@[simp] theorem length_toBytes (s : Block) : s.toBytes.length = 16 := rfl

theorem toBytes_ofBytes {bs : Bytes} (h : bs.length = 16) : (ofBytes bs).toBytes = bs := by
  match bs, h with
  | [_, _, _, _, _, _, _, _, _, _, _, _, _, _, _, _], _ => rfl

end Block

theorem decryptRounds_encryptRounds (keys : List Block) (s : Block) :
    decryptRounds keys (encryptRounds keys s) = s := by
  induction keys generalizing s with
  | nil => rfl
  | cons key keys ih =>
    cases keys with
    | nil =>
      change ((s.substitute.shift.add key).add key).unshift.unsubstitute = s
      rw [Block.add_add, Block.unshift_shift, Block.unsubstitute_substitute]
    | cons next keys =>
      change ((decryptRounds (next :: keys) (encryptRounds (next :: keys)
        (s.substitute.shift.mix.add key))).add key).unmix.unshift.unsubstitute = s
      rw [ih, Block.add_add, Block.unmix_mix, Block.unshift_shift, Block.unsubstitute_substitute]

theorem encryptRounds_decryptRounds (keys : List Block) (s : Block) :
    encryptRounds keys (decryptRounds keys s) = s := by
  induction keys generalizing s with
  | nil => rfl
  | cons key keys ih =>
    cases keys with
    | nil =>
      change (s.add key).unshift.unsubstitute.substitute.shift.add key = s
      rw [Block.substitute_unsubstitute, Block.shift_unshift, Block.add_add]
    | cons next keys =>
      change encryptRounds (next :: keys) ((((decryptRounds (next :: keys) s).add
        key).unmix.unshift.unsubstitute).substitute.shift.mix.add key) = s
      rw [Block.substitute_unsubstitute, Block.shift_unshift, Block.mix_unmix, Block.add_add, ih]

theorem decryptBlock_encryptBlock (keys : List Block) (s : Block) :
    decryptBlock keys (encryptBlock keys s) = s := by
  cases keys with
  | nil => rfl
  | cons key keys => rw [encryptBlock, decryptBlock, decryptRounds_encryptRounds, Block.add_add]

theorem encryptBlock_decryptBlock (keys : List Block) (s : Block) :
    encryptBlock keys (decryptBlock keys s) = s := by
  cases keys with
  | nil => rfl
  | cons key keys => rw [decryptBlock, encryptBlock, Block.add_add, encryptRounds_decryptRounds]

end SshKeys.Aes
