import SshKeys.Curve.Weierstrass
import SshKeys.Proofs.ModularInverse
import Mathlib.Tactic.LinearCombination
/-!
# Multiples of a point stay on the curve

Triples satisfy the equation of the curve with each term raised to the same weight, and doubling and
adding keep this equation in any ring of residues; to pass to coordinates in the field the third
component needs an inverse, and so a prime.
-/
namespace SshKeys

namespace Modular

variable {m : Nat} [NeZero m]

theorem cast_sub_mod (a b : Nat) : ((sub a (b % m) m : Nat) : ZMod m) = a - b := by
  rw [cast_sub (Nat.mod_lt b (NeZero.pos m)).le, cast_mod]

theorem cast_sub_sub (a b d : Nat) :
    ((sub a (sub b d m) m : Nat) : ZMod m) = a - (sub b d m : Nat) :=
  cast_sub (Nat.mod_lt _ (NeZero.pos m)).le

end Modular

section Equations

variable {R : Type} [CommRing R] {a b : R}

theorem doubled_equation {x y z : R} (h : y ^ 2 = x ^ 3 + a * x * z ^ 4 + b * z ^ 6) :
    ((3 * x ^ 2 + a * z ^ 4) * (4 * x * y ^ 2 - ((3 * x ^ 2 + a * z ^ 4) ^ 2 - 8 * x * y ^ 2)) -
      8 * y ^ 4) ^ 2 =
    ((3 * x ^ 2 + a * z ^ 4) ^ 2 - 8 * x * y ^ 2) ^ 3 +
      a * ((3 * x ^ 2 + a * z ^ 4) ^ 2 - 8 * x * y ^ 2) * (2 * y * z) ^ 4 +
      b * (2 * y * z) ^ 6 := by
  linear_combination 64 * y ^ 6 * h

/-- The third point of a chord, where `h` and `r` are the differences of the coordinates. -/
theorem chord_equation {x x' y y' : R} (hFirst : y ^ 2 = x ^ 3 + a * x + b)
    (hSecond : y' ^ 2 = x' ^ 3 + a * x' + b) {h r u : R} (hX : h = x' - x) (hY : r = y' - y)
    (hU : u = r ^ 2 - h ^ 3 - 2 * (x * h ^ 2)) :
    (r * (x * h ^ 2 - u) - y * h ^ 3) ^ 2 = u ^ 3 + a * u * h ^ 4 + b * h ^ 6 := by
  subst hX hY hU
  linear_combination
    (-((x' - x) ^ 3 * ((y' - y) ^ 2 - (x' - x) ^ 3 - 2 * (x * (x' - x) ^ 2) -
      x' * (x' - x) ^ 2))) * hFirst +
    ((x' - x) ^ 3 * ((y' - y) ^ 2 - (x' - x) ^ 3 - 2 * (x * (x' - x) ^ 2) -
      x * (x' - x) ^ 2)) * hSecond

end Equations

namespace Curve

variable {c : Curve} {t u : Triple}

/-- The equation of the curve in weighted coordinates; a triple whose last component is not zero
stands for a point of the curve. -/
structure Holds (c : Curve) (t : Triple) : Prop where
  equation : (t.y : ZMod c.p) ^ 2 = t.x ^ 3 + c.a * t.x * t.z ^ 4 + c.b * t.z ^ 6
  reduced : t.z < c.p

theorem holds_infinity (hPositive : 0 < c.p) : c.Holds infinity :=
  ⟨by simp [infinity], hPositive⟩

theorem contains_iff {q : Point} : c.contains q = true ↔ q.x < c.p ∧ q.y < c.p ∧
    (q.y : ZMod c.p) ^ 2 = q.x ^ 3 + c.a * q.x + c.b := by
  have hSame : (q.y : ZMod c.p) ^ 2 = q.x ^ 3 + c.a * q.x + c.b ↔
      q.y * q.y % c.p = (q.x * q.x * q.x + c.a * q.x + c.b) % c.p := by
    rw [← ZMod.natCast_eq_natCast_iff']
    push_cast
    ring_nf
  rw [hSame, contains]
  simp [and_assoc]

variable [NeZero c.p]

theorem holds_double (h : c.Holds t) : c.Holds (c.double t) := by
  have hPositive := NeZero.pos c.p
  rw [double]
  split
  · exact holds_infinity hPositive
  · refine ⟨?_, Nat.mod_lt _ hPositive⟩
    have hDoubled := doubled_equation h.equation
    simp only [Modular.cast_sub_mod, Modular.cast_sub_sub, Modular.cast_mod, Nat.cast_mul,
      Nat.cast_add, Nat.cast_ofNat]
    linear_combination hDoubled

theorem holds_add (h : c.Holds t) (h' : c.Holds u) : c.Holds (c.add t u) := by
  have hPositive := NeZero.pos c.p
  rw [add]
  split
  · exact h'
  split
  · exact h
  simp only
  split
  · split
    · exact holds_double h
    · exact holds_infinity hPositive
  · refine ⟨?_, Nat.mod_lt _ hPositive⟩
    have hFirst : ((t.y : ZMod c.p) * u.z ^ 3) ^ 2 = (t.x * u.z ^ 2) ^ 3 +
        c.a * t.z ^ 4 * u.z ^ 4 * (t.x * u.z ^ 2) + c.b * t.z ^ 6 * u.z ^ 6 := by
      linear_combination (u.z : ZMod c.p) ^ 6 * h.equation
    have hSecond : ((u.y : ZMod c.p) * t.z ^ 3) ^ 2 = (u.x * t.z ^ 2) ^ 3 +
        c.a * t.z ^ 4 * u.z ^ 4 * (u.x * t.z ^ 2) + c.b * t.z ^ 6 * u.z ^ 6 := by
      linear_combination (t.z : ZMod c.p) ^ 6 * h'.equation
    have hChord := chord_equation hFirst hSecond rfl rfl rfl
    simp only [Modular.cast_sub_mod, Modular.cast_sub_sub, Modular.cast_mod, Nat.cast_mul,
      Nat.cast_ofNat]
    linear_combination hChord

theorem holds_multiplyFrom (bits : Nat) {k : Nat} {acc : Triple} (h : c.Holds t)
    (hAcc : c.Holds acc) : c.Holds (c.multiplyFrom bits t k acc) := by
  -- the point that is doubled satisfies the equation at every bit, and so does the sum so far
  induction bits generalizing t k acc with
  | zero => exact hAcc
  | succ bits ih =>
    rw [multiplyFrom]
    refine ih (holds_double h) ?_
    split
    · exact holds_add hAcc h
    · exact hAcc

/-- Over a prime field the coordinates that a triple stands for are those of a point. -/
theorem contains_affine? {q : Point} (hPrime : c.p.Prime) (h : c.Holds t)
    (hPoint : c.affine? t = some q) : c.contains q = true := by
  rw [affine?] at hPoint
  split at hPoint
  · cases hPoint
  · rename_i hFinite
    cases hPoint
    have hCoprime : Nat.Coprime t.z c.p := by
      refine (Nat.Coprime.symm ?_)
      rw [hPrime.coprime_iff_not_dvd]
      exact fun hDivides => Nat.not_le.mpr h.reduced
        (Nat.le_of_dvd (Nat.pos_of_ne_zero hFinite) hDivides)
    have hInverse := Modular.mul_inverse (NeZero.pos c.p) hCoprime
    have power_inverse (n : Nat) :
        (t.z : ZMod c.p) ^ n * (Modular.inverse t.z c.p : Nat) ^ n = 1 := by
      rw [← mul_pow, hInverse, one_pow]
    refine contains_iff.mpr ⟨Nat.mod_lt _ hPrime.pos, Nat.mod_lt _ hPrime.pos, ?_⟩
    simp only [Modular.cast_mod, Nat.cast_mul]
    -- the equation of the triple, divided by the sixth power of its last component
    linear_combination ((Modular.inverse t.z c.p : Nat) : ZMod c.p) ^ 6 * h.equation +
      c.a * t.x * ((Modular.inverse t.z c.p : Nat) : ZMod c.p) ^ 2 * power_inverse 4 +
      c.b * power_inverse 6

/-- The multiples of the base point lie on the curve, if it does. -/
theorem contains_baseMultiple? {k : Nat} {q : Point} (hPrime : c.p.Prime)
    (hBase : c.contains c.base = true) (h : c.baseMultiple? k = some q) : c.contains q = true := by
  obtain ⟨-, -, hEquation⟩ := contains_iff.mp hBase
  have hStart : c.Holds ⟨c.base.x, c.base.y, 1⟩ := ⟨by simpa using hEquation, hPrime.one_lt⟩
  exact contains_affine? hPrime (holds_multiplyFrom _ hStart (holds_infinity hPrime.pos)) h

end Curve
end SshKeys
