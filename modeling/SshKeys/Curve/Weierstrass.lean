import SshKeys.Arithmetic.SquareRoot
/-!
# Curves over prime fields

Curves `y² = x³ + ax + b`. Sums are formed on triples `(X, Y, Z)` that stand for the point `(X / Z²,
Y / Z³)`, with `Z = 0` for the point at infinity, so that a multiple of a point needs one inversion
only.
-/
namespace SshKeys

structure Curve where
  name : String
  arcs : List Nat
  p : Nat
  a : Nat
  b : Nat
  x : Nat
  y : Nat
  order : Nat
  deriving DecidableEq, Repr

structure Point where
  x : Nat
  y : Nat
  deriving DecidableEq, Repr

structure Triple where
  x : Nat
  y : Nat
  z : Nat
  deriving DecidableEq, Repr

namespace Curve

def base (c : Curve) : Point := ⟨c.x, c.y⟩

def bits (c : Curve) : Nat := Bytes.bitLength c.p

def width (c : Curve) : Nat := Bytes.byteLength c.p

def contains (c : Curve) (q : Point) : Bool :=
  q.x < c.p && q.y < c.p && q.y * q.y % c.p == (q.x * q.x * q.x + c.a * q.x + c.b) % c.p

def scalarWidth (c : Curve) : Nat := Bytes.byteLength c.order

def infinity : Triple := ⟨1, 1, 0⟩

def double (c : Curve) (t : Triple) : Triple :=
  if t.z = 0 || t.y = 0 then infinity
  else
    let p := c.p
    let yy := t.y * t.y % p
    let zz := t.z * t.z % p
    let s := 4 * t.x * yy % p
    let m := (3 * t.x * t.x + c.a * (zz * zz % p)) % p
    let x := Modular.sub (m * m % p) (2 * s % p) p
    let y := Modular.sub (m * Modular.sub s x p % p) (8 * (yy * yy) % p) p
    ⟨x, y, 2 * t.y * t.z % p⟩

def add (c : Curve) (t u : Triple) : Triple :=
  if t.z = 0 then u
  else if u.z = 0 then t
  else
    let p := c.p
    let tz := t.z * t.z % p
    let uz := u.z * u.z % p
    let tx := t.x * uz % p
    let ux := u.x * tz % p
    let ty := t.y * (uz * u.z % p) % p
    let uy := u.y * (tz * t.z % p) % p
    if tx = ux then (if ty = uy then c.double t else infinity)
    else
      let h := Modular.sub ux tx p
      let r := Modular.sub uy ty p
      let hh := h * h % p
      let hhh := hh * h % p
      let v := tx * hh % p
      let x := Modular.sub (Modular.sub (r * r % p) hhh p) (2 * v % p) p
      let y := Modular.sub (r * Modular.sub v x p % p) (ty * hhh % p) p
      ⟨x, y, t.z * u.z % p * h % p⟩

/-- `acc` plus the multiple of `t` by a number of at most `bits` bits. -/
def multiplyFrom (c : Curve) : Nat → Triple → Nat → Triple → Triple
  | 0, _, _, acc => acc
  | bits + 1, t, k, acc =>
    let acc := if k % 2 = 1 then c.add acc t else acc
    multiplyFrom c bits (c.double t) (k / 2) acc

def multiply (c : Curve) (k : Nat) (q : Point) : Triple :=
  multiplyFrom c (Bytes.bitLength k) ⟨q.x, q.y, 1⟩ k infinity

def affine? (c : Curve) (t : Triple) : Option Point :=
  if t.z = 0 then none
  else
    let w := Modular.inverse t.z c.p
    let ww := w * w % c.p
    some ⟨t.x * ww % c.p, t.y * (ww * w % c.p) % c.p⟩

/-- The multiple of the base point by a number, unless it lies at infinity. -/
def baseMultiple? (c : Curve) (k : Nat) : Option Point := c.affine? (c.multiply k c.base)

/-- The public point of a private scalar, for a scalar from 1 up to below the order. -/
def publicPoint? (c : Curve) (scalar : Nat) : Option Point :=
  if 0 < scalar ∧ scalar < c.order then c.baseMultiple? scalar else none

/-- The uncompressed writing of a point: a tag byte and both coordinates at full width. -/
def uncompressed (c : Curve) (q : Point) : Bytes :=
  4 :: (Bytes.ofNat c.width q.x ++ Bytes.ofNat c.width q.y)

def readUncompressed? (c : Curve) (bs : Bytes) : Option Point :=
  match bs with
  | 4 :: rest =>
    if rest.length = 2 * c.width then
      let q : Point := ⟨Bytes.toNat (rest.take c.width), Bytes.toNat (rest.drop c.width)⟩
      if c.contains q then some q else none
    else none
  | _ => none

def readCompressed? (c : Curve) (bs : Bytes) : Option Point :=
  match bs with
  | tag :: rest =>
    let x := Bytes.toNat rest
    if (tag = 2 ∨ tag = 3) ∧ rest.length = c.width ∧ x < c.p then
      match Modular.squareRoot? ((x * x * x + c.a * x + c.b) % c.p) c.p with
      | some r =>
        let y := if r % 2 = tag.toNat % 2 then r else c.p - r
        if c.contains ⟨x, y⟩ ∧ y % 2 = tag.toNat % 2 then some ⟨x, y⟩ else none
      | none => none
    else none
  | [] => none

def readPoint? (c : Curve) (bs : Bytes) : Option Point :=
  match bs with
  | 2 :: _ | 3 :: _ => c.readCompressed? bs
  | 6 :: rest =>
    (c.readUncompressed? (4 :: rest)).filter fun q => q.y % 2 == 0
  | 7 :: rest =>
    (c.readUncompressed? (4 :: rest)).filter fun q => q.y % 2 == 1
  | _ => c.readUncompressed? bs

end Curve
end SshKeys
