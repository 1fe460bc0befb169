import SshKeys.Arithmetic.Modular
import SshKeys.Hash
/-!
# The twisted Edwards curve and Ed25519

The curve is `-x² + y² = 1 + d x² y²` over the field of `2 ^ 255 - 19` elements. Points are kept as
`(X, Y, Z, T)` with `x = X / Z`, `y = Y / Z` and `T = XY / Z`; one formula serves for all sums.
-/
namespace SshKeys.Edwards

def p : Nat := Nat.pow 2 255 - 19

def d : Nat := 0x52036CEE2B6FFE738CC740797779E89800700A4D4141D8AB75EB4DCA135978A3

def rootOfMinusOne : Nat := 0x2B8324804FC1DF0B2B4D00993DFBD7A72F431806AD2FE478C4EE1B274A0EA0B0

def order : Nat := 0x1000000000000000000000000000000014DEF9DEA2F79CD65812631A5CF5D3ED

structure Point where
  x : Nat
  y : Nat
  z : Nat
  t : Nat
  deriving DecidableEq, Repr

def neutral : Point := ⟨0, 1, 1, 0⟩

def Point.ofAffine (x y : Nat) : Point := ⟨x, y, 1, x * y % p⟩

def base : Point :=
  .ofAffine 0x216936D3CD6E53FEC0A4E231FDD6DC5C692CC7609525A7B2C9562D608F25D51A
    0x6666666666666666666666666666666666666666666666666666666666666658

def add (q r : Point) : Point :=
  let a := Modular.sub q.y q.x p * Modular.sub r.y r.x p % p
  let b := (q.y + q.x) * (r.y + r.x) % p
  let c := 2 * q.t * d % p * r.t % p
  let e := 2 * q.z * r.z % p
  let f := Modular.sub b a p
  let g := Modular.sub e c p
  let h := (e + c) % p
  let i := (b + a) % p
  ⟨f * g % p, h * i % p, g * h % p, f * i % p⟩

def negate (q : Point) : Point := ⟨Modular.sub 0 q.x p, q.y, q.z, Modular.sub 0 q.t p⟩

/-- `acc` plus the multiple of `q` by a number of at most `bits` bits. -/
def multiplyFrom : Nat → Point → Nat → Point → Point
  | 0, _, _, acc => acc
  | bits + 1, q, k, acc =>
    let acc := if k % 2 = 1 then add acc q else acc
    multiplyFrom bits (add q q) (k / 2) acc

def multiply (k : Nat) (q : Point) : Point := multiplyFrom (Bytes.bitLength k) q k neutral

/-- The second coordinate in 32 little-endian bytes, whose top bit tells the parity of the first. -/
def encode (q : Point) : Bytes :=
  let w := Modular.inverse q.z p
  let x := q.x * w % p
  let y := q.y * w % p
  Bytes.ofNatLittle 32 (y + x % 2 * Nat.pow 2 255)

/-- The point that 32 bytes spell, if there is one. The second coordinate is taken modulo the field
prime, and zero is its own negative. -/
def decode? (bs : Bytes) : Option Point :=
  let n := Bytes.toNatLittle bs
  let y := n % Nat.pow 2 255 % p
  let yy := y * y % p
  let u := Modular.sub yy 1 p
  let v := (d * yy + 1) % p
  let x := u * Modular.power v 3 p % p * Modular.power (u * Modular.power v 7 p) ((p - 5) / 8) p % p
  let vxx := v * (x * x % p) % p
  let root? :=
    if vxx = u then some x
    else if vxx = Modular.sub 0 u p then some (x * rootOfMinusOne % p)
    else none
  root?.map fun root =>
    Point.ofAffine (if root % 2 = n / Nat.pow 2 255 then root else Modular.sub 0 root p) y

/-- The secret multiplier and the signing key that a seed of 32 bytes hashes to. -/
def expand (seed : Bytes) : Nat × Bytes :=
  let h := Sha512.digest seed
  let low := Bytes.toNatLittle (h.take 32)
  (low % Nat.pow 2 254 / 8 * 8 + Nat.pow 2 254, h.drop 32)

def publicKey (seed : Bytes) : Bytes := encode (multiply (expand seed).1 base)

def hashToScalar (bs : Bytes) : Nat := Bytes.toNatLittle (Sha512.digest bs) % order

def sign (seed message : Bytes) : Bytes :=
  let (a, nonceKey) := expand seed
  let r := hashToScalar (nonceKey ++ message)
  let point := encode (multiply r base)
  let k := hashToScalar (point ++ publicKey seed ++ message)
  point ++ Bytes.ofNatLittle 32 ((r + k * a) % order)

def verify (public_ message signature : Bytes) : Bool :=
  let s := Bytes.toNatLittle (signature.drop 32)
  if signature.length ≠ 64 ∨ order ≤ s then false
  else
    match decode? public_ with
    | none => false
    | some q =>
      let k := hashToScalar (signature.take 32 ++ public_ ++ message)
      encode (add (multiply s base) (multiply k (negate q))) == signature.take 32

end SshKeys.Edwards
