import SshKeys.Cipher.Des
import SshKeys.Proofs.BigEndian
/-!
# DES in its threefold form is undone by the reversed schedules

A bit exchange undoes itself, and so do the rounds of a schedule followed by those of its reverse.
-/
namespace SshKeys.Des

theorem shiftRight_shiftLeft {shift mask : UInt32} (hShift : shift.toNat < 32)
    (hMask : mask.toNat * 2 ^ shift.toNat < 2 ^ 32) (x : UInt32) :
    (x &&& mask) <<< shift >>> shift = x &&& mask := by
  apply UInt32.toNat_inj.mp
  have hLow : (x &&& mask).toNat ≤ mask.toNat := by
    rw [UInt32.toNat_and]
    exact Nat.and_le_right
  have hFits : (x &&& mask).toNat * 2 ^ shift.toNat < 2 ^ 32 :=
    (Nat.mul_le_mul_right _ hLow).trans_lt hMask
  rw [UInt32.toNat_shiftRight, UInt32.toNat_shiftLeft, Nat.mod_eq_of_lt hShift, Nat.shiftLeft_eq,
    Nat.mod_eq_of_lt hFits, Nat.shiftRight_eq_div_pow, Nat.mul_div_cancel _ (Nat.two_pow_pos _)]

theorem xor_cancel_right (a b : UInt32) : a ^^^ b ^^^ b = a := by
  rw [UInt32.xor_assoc, UInt32.xor_self, UInt32.xor_zero]

theorem exchange_exchange {shift mask : UInt32} (hShift : shift.toNat < 32)
    (hMask : mask.toNat * 2 ^ shift.toNat < 2 ^ 32) (left right : UInt32) :
    exchange shift mask (exchange shift mask left right).left
      (exchange shift mask left right).right = ⟨left, right⟩ := by
  have hCancel : ∀ x y z : UInt32, x ^^^ z ^^^ (y ^^^ z) = x ^^^ y := by
    intro x y z
    calc
      x ^^^ z ^^^ (y ^^^ z) = x ^^^ y ^^^ z ^^^ z := by ac_rfl
      _ = x ^^^ y := xor_cancel_right _ _
  simp only [exchange, UInt32.shiftRight_xor, shiftRight_shiftLeft hShift hMask, hCancel,
    xor_cancel_right]

theorem exchangeRight_exchangeRight {shift mask : UInt32} (hShift : shift.toNat < 32)
    (hMask : mask.toNat * 2 ^ shift.toNat < 2 ^ 32) (p : Pair) :
    exchangeRight shift mask (exchangeRight shift mask p) = p :=
  exchange_exchange hShift hMask p.left p.right

theorem exchangeLeft_exchangeLeft {shift mask : UInt32} (hShift : shift.toNat < 32)
    (hMask : mask.toNat * 2 ^ shift.toNat < 2 ^ 32) (p : Pair) :
    exchangeLeft shift mask (exchangeLeft shift mask p) = p := by
  simp only [exchangeLeft, exchange_exchange hShift hMask]

@[simp] theorem final_initial (p : Pair) : final (initial p) = p := by
  rw [initial, final, exchangeRight_exchangeRight, exchangeLeft_exchangeLeft,
    exchangeLeft_exchangeLeft, exchangeRight_exchangeRight, exchangeRight_exchangeRight] <;> decide

@[simp] theorem initial_final (p : Pair) : initial (final p) = p := by
  rw [initial, final, exchangeRight_exchangeRight, exchangeRight_exchangeRight,
    exchangeLeft_exchangeLeft, exchangeLeft_exchangeLeft, exchangeRight_exchangeRight] <;> decide

theorem round_swap_round (k : RoundKey) (p : Pair) : round k (swap (round k p)) = swap p := by
  simp only [round, swap, xor_cancel_right]

theorem foldl_round_reverse (keys : List RoundKey) (p : Pair) :
    keys.reverse.foldl (fun p k => round k p) (swap (keys.foldl (fun p k => round k p) p)) =
      swap p := by
  induction keys generalizing p with
  | nil => rfl
  | cons k keys ih =>
    rw [List.foldl_cons, List.reverse_cons, List.foldl_append, ih, List.foldl_cons, List.foldl_nil,
      round_swap_round]

@[simp] theorem rounds_reverse_rounds (keys : List RoundKey) (p : Pair) :
    rounds keys.reverse (rounds keys p) = p := by
  rw [rounds, rounds, foldl_round_reverse]
  rfl

@[simp] theorem rounds_rounds_reverse (keys : List RoundKey) (p : Pair) :
    rounds keys (rounds keys.reverse p) = p := by
  have h := rounds_reverse_rounds keys.reverse p
  rwa [List.reverse_reverse] at h

theorem decryptPair_encryptPair (k : TripleKey) (p : Pair) :
    decryptPair k (encryptPair k p) = p := by
  rw [decryptPair, encryptPair, initial_final, rounds_reverse_rounds, rounds_rounds_reverse,
    rounds_reverse_rounds, final_initial]

theorem encryptPair_decryptPair (k : TripleKey) (p : Pair) :
    encryptPair k (decryptPair k p) = p := by
  rw [decryptPair, encryptPair, initial_final, rounds_rounds_reverse, rounds_reverse_rounds,
    rounds_rounds_reverse, final_initial]

theorem toNat_shiftLeft_byte (b : UInt8) {shift : UInt32} (h : shift.toNat ≤ 24) :
    (b.toUInt32 <<< shift).toNat = b.toNat * 2 ^ shift.toNat := by
  have hRange : b.toNat * 2 ^ shift.toNat < 2 ^ 32 :=
    calc
      b.toNat * 2 ^ shift.toNat < 2 ^ 8 * 2 ^ shift.toNat :=
        Nat.mul_lt_mul_of_pos_right b.toNat_lt (Nat.two_pow_pos _)
      _ = 2 ^ (8 + shift.toNat) := (Nat.pow_add 2 8 _).symm
      _ ≤ 2 ^ 32 := Nat.pow_le_pow_right (by decide) (by omega)
  have hShift : shift.toNat % 32 = shift.toNat := Nat.mod_eq_of_lt (by omega)
  rw [UInt32.toNat_shiftLeft, UInt8.toNat_toUInt32, hShift, Nat.shiftLeft_eq,
    Nat.mod_eq_of_lt hRange]

theorem or_eq_add {high low : Nat} (bits : Nat) (h : low < 2 ^ bits) :
    high * 2 ^ bits ||| low = high * 2 ^ bits + low := by
  rw [Nat.mul_comm, Nat.two_pow_add_eq_or_of_lt h]

theorem toNat_word (a b c d : UInt8) :
    (a.toUInt32 <<< 24 ||| b.toUInt32 <<< 16 ||| c.toUInt32 <<< 8 ||| d.toUInt32).toNat =
      ((a.toNat * 2 ^ 8 + b.toNat) * 2 ^ 8 + c.toNat) * 2 ^ 8 + d.toNat := by
  have hb := b.toNat_lt
  have hc := c.toNat_lt
  have hFirst : a.toNat * 2 ^ 24 ||| b.toNat * 2 ^ 16 = (a.toNat * 2 ^ 8 + b.toNat) * 2 ^ 16 := by
    rw [or_eq_add 24 (by omega)]
    ring
  have hSecond : (a.toNat * 2 ^ 8 + b.toNat) * 2 ^ 16 ||| c.toNat * 2 ^ 8 =
      ((a.toNat * 2 ^ 8 + b.toNat) * 2 ^ 8 + c.toNat) * 2 ^ 8 := by
    rw [or_eq_add 16 (by omega)]
    ring
  rw [UInt32.toNat_or, UInt32.toNat_or, UInt32.toNat_or, toNat_shiftLeft_byte a (by decide),
    toNat_shiftLeft_byte b (by decide), toNat_shiftLeft_byte c (by decide), UInt8.toNat_toUInt32]
  change a.toNat * 2 ^ 24 ||| b.toNat * 2 ^ 16 ||| c.toNat * 2 ^ 8 ||| d.toNat = _
  rw [hFirst, hSecond, or_eq_add 8 d.toNat_lt]

theorem toNat_shiftRight_byte (x : UInt32) {shift : UInt32} (h : shift.toNat < 32) :
    (x >>> shift).toUInt8.toNat = x.toNat / 2 ^ shift.toNat % 256 := by
  rw [UInt32.toNat_toUInt8, UInt32.toNat_shiftRight, Nat.mod_eq_of_lt h, Nat.shiftRight_eq_div_pow]

namespace Pair

@[simp] theorem length_toBytes (p : Pair) : p.toBytes.length = 8 := rfl

theorem word_bytesBig (x : UInt32) :
    (x >>> 24).toUInt8.toUInt32 <<< 24 ||| (x >>> 16).toUInt8.toUInt32 <<< 16 |||
      (x >>> 8).toUInt8.toUInt32 <<< 8 ||| x.toUInt8.toUInt32 = x := by
  apply UInt32.toNat_inj.mp
  rw [toNat_word, toNat_shiftRight_byte x (by decide), toNat_shiftRight_byte x (by decide),
    toNat_shiftRight_byte x (by decide), UInt32.toNat_toUInt8]
  have hWord := x.toNat_lt
  change ((x.toNat / 2 ^ 24 % 256 * 2 ^ 8 + x.toNat / 2 ^ 16 % 256) * 2 ^ 8 +
    x.toNat / 2 ^ 8 % 256) * 2 ^ 8 + x.toNat % 2 ^ 8 = x.toNat
  omega

@[simp] theorem ofBytes_toBytes (p : Pair) : ofBytes p.toBytes = p := by
  change (⟨_, _⟩ : Pair) = p
  rw [word_bytesBig, word_bytesBig]

theorem bytesBig_word (a b c d : UInt8) :
    Block.bytesBig (a.toUInt32 <<< 24 ||| b.toUInt32 <<< 16 ||| c.toUInt32 <<< 8 ||| d.toUInt32) =
      [a, b, c, d] := by
  have ha := a.toNat_lt
  have hb := b.toNat_lt
  have hc := c.toNat_lt
  have hd := d.toNat_lt
  rw [Block.bytesBig]
  simp only [List.cons.injEq, ← UInt8.toNat_inj, and_true]
  rw [toNat_shiftRight_byte _ (by decide), toNat_shiftRight_byte _ (by decide),
    toNat_shiftRight_byte _ (by decide), UInt32.toNat_toUInt8, toNat_word]
  simp only [UInt32.reduceToNat]
  omega

theorem toBytes_ofBytes {bs : Bytes} (h : bs.length = 8) : (ofBytes bs).toBytes = bs := by
  match bs, h with
  | [a, b, c, d, e, f, g, i], _ =>
    rw [ofBytes, toBytes, bytesBig_word, bytesBig_word]
    rfl

end Pair
end SshKeys.Des
