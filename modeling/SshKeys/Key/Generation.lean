import SshKeys.Journal
import SshKeys.Key.Private
import SshKeys.Text.Lowercase
/-!
# Making new keys

Some algorithms take parameters, which are checked by name and by type; all others ignore them.
-/
namespace SshKeys

inductive Generator
  | rsa
  | dsa
  | ecdsa
  | ecdsaOver (curve : NistCurve)
  | ed25519
  deriving DecidableEq, Repr

namespace Generator

def ofName? (name : String) : Option Generator :=
  if name = "ssh-rsa" ∨ name = "rsa" then some rsa
  else if name = "ssh-dss" ∨ name = "dsa" ∨ name = "dss" then some dsa
  else if name = "ecdsa" then some ecdsa
  else if name = "ssh-ed25519" ∨ name = "ed25519" then some ed25519
  else (NistCurve.ofKeyType? name).map ecdsaOver

def parameterNames? : Generator → Option (List String)
  | rsa | dsa => some ["bits"]
  | ecdsa => some ["bits", "curve"]
  | ecdsaOver _ | ed25519 => none

/-- A random number of exactly `bits` bits, the two highest of which are set. -/
def drawHigh (bits : Nat) : Action Nat := do
  let n := Bytes.toNat (← Journal.drawEndless ((bits + 7) / 8))
  return 3 * Nat.pow 2 (bits - 2) + n % Nat.pow 2 (bits - 2)

def drawBelow (bound : Nat) : Action Nat := do
  let n := Bytes.toNat (← Journal.drawEndless (Bytes.byteLength bound + 8))
  return 1 + n % (bound - 1)

/-- The answer to a search, which does not fail but with a chance that can be neglected. -/
def found {α : Type} : Option α → Action α
  | some a => pure a
  | none => throw (.misuse .value)

def rsaExponent : Nat := 65537

/-- A prime of exactly `bits` bits such that one less is prime to the public exponent. -/
def rsaPrime (bits : Nat) : Action Nat := do
  let start := (← drawHigh bits) / 2 * 2 + 1
  let accept (n : Nat) : Bool := n < Nat.pow 2 bits && Nat.gcd (n - 1) rsaExponent == 1
  found (Prime.search accept 2 (20 * bits) start)

def rsaKey (bits : Nat) : Action KeyBody := do
  let p ← rsaPrime ((bits + 1) / 2)
  let q ← rsaPrime (bits / 2)
  let d ← found (Modular.inverse? rsaExponent (Nat.lcm (p - 1) (q - 1)))
  let iqmp ← found (Modular.inverse? q p)
  Action.ofExcept (KeyBody.checkRsaSize (Int.ofNat (p * q)))
  return .rsa ⟨p * q, rsaExponent, some ⟨d, iqmp, p, q⟩⟩

/-- A prime of `bits` bits that is one more than a multiple of `2 * q`. -/
def dsaModulus (bits q : Nat) : Action Nat := do
  let start ← drawHigh bits
  found (Prime.search (· < Nat.pow 2 bits) (2 * q) (20 * bits) (start - start % (2 * q) + 1 + 2 * q))

def dsaKey (bits : Nat) : Action KeyBody := do
  let q ← found (Prime.search (· < Nat.pow 2 160) 2 3200 ((← drawHigh 160) / 2 * 2 + 1))
  let p ← dsaModulus bits q
  let g := Modular.power 2 ((p - 1) / q) p
  let x ← drawBelow q
  let y := Modular.power g x p
  Action.ofExcept (KeyBody.checkDsa p q g y)
  return .dsa ⟨p, q, g, y, some (Int.ofNat x)⟩

def ecdsaKey (curve : NistCurve) : Action KeyBody := do
  let scalar ← drawBelow curve.curve.order
  let point ← found (curve.curve.publicPoint? scalar)
  return .ecdsa ⟨curve, point, some scalar⟩

def ed25519Key : Action KeyBody := do
  let seed ← Journal.drawEndless 32
  return .ed25519 ⟨Edwards.publicKey seed, some seed⟩

/-- Bits of the subgroup order of DSA parameters beyond the smallest size, which no key admits. -/
def wideSubgroupBits : Nat := 256

def integer? : Datum → Option Int
  | .foreign (.integer n) => some n
  | _ => none

def curveFor (bits : Datum) : Except Error NistCurve :=
  match integer? bits with
  | none => .error (.misuse .value)
  | some n =>
    match NistCurve.ofBits? n with
    | some curve => .ok curve
    | none => .error (.curveBitsUnknown n)

def run (parameters : List (String × Datum)) (g : Generator) : Action KeyBody := do
  let bits := parameters.lookup "bits"
  match g with
  | rsa =>
    match integer? (bits.getD (.foreign (.integer 3072))) with
    | none => throw (.misuse .type)
    | some n =>
      if n < KeyBody.minModulusBits then throw (.rsaBitsSmall n)
      rsaKey n.toNat
  | dsa =>
    match integer? (bits.getD (.foreign (.integer 1024))) with
    | none => throw (.misuse .value)
    | some n =>
      unless KeyBody.dsaModulusSizes.contains n.toNat do throw (.misuse .value)
      if n ≠ KeyBody.minModulusBits then throw (.dsaSubgroupSize wideSubgroupBits)
      dsaKey n.toNat
  | ecdsa =>
    match bits with
    | some (.foreign .nothing) | none =>
      if (parameters.lookup "curve").isSome then throw (.misuse .type)
      ecdsaKey .p256
    | some bits => ecdsaKey (← Action.ofExcept (curveFor bits))
  | ecdsaOver curve => ecdsaKey curve
  | ed25519 => ed25519Key

end Generator

namespace Key

def generate (algorithm : Option String) (parameters : List (String × Datum))
    (comment : Option String) : Action Key := do
  let some name := algorithm | throw (.misuse .attribute)
  match Generator.ofName? (String.ofList (Text.lower name.toList)) with
  | none => throw (.unknownKeyType name 0)
  | some generator =>
    let isKnown (entry : String × Datum) : Bool :=
      generator.parameterNames?.all (·.contains entry.1)
    unless parameters.all isKnown do throw (.misuse .type)
    let key : Key := { body := ← generator.run parameters, comment }
    Journal.log .debug .file s!"Generated {key.name} key of {key.bits} bits"
    return key

end Key
end SshKeys
