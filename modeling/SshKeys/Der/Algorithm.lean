import SshKeys.Der.Reading
import SshKeys.Curve.Named
import SshKeys.Signature.Dsa
/-!
# Algorithm identifiers of keys

An object identifier and the parameters that go with it. The curve of an elliptic key is named, or
its domain is spelt out; only domains of named curves are known.
-/
namespace SshKeys.Der

/-- Kinds of keys that can be told apart but not held. -/
inductive ForeignKind
  | x25519
  | x448
  | ed448
  | diffieHellman
  deriving DecidableEq, Repr

namespace ForeignKind

def name : ForeignKind → String
  | x25519 => "X25519"
  | x448 => "X448"
  | ed448 => "Ed448"
  | diffieHellman => "DH"

def size? : ForeignKind → Option Nat
  | x25519 => some 32
  | x448 => some 56
  | ed448 => some 57
  | diffieHellman => none

def admits (kind : ForeignKind) (bs : Bytes) : Bool := kind.size?.all (· == bs.length)

end ForeignKind

namespace Identifier

def rsa : List Nat := [1, 2, 840, 113549, 1, 1, 1]

def rsaPss : List Nat := [1, 2, 840, 113549, 1, 1, 10]

def dsa : List Nat := [1, 2, 840, 10040, 4, 1]

def ellipticCurve : List Nat := [1, 2, 840, 10045, 2, 1]

def primeField : List Nat := [1, 2, 840, 10045, 1, 1]

def keyAgreement : List Nat := [1, 2, 840, 113549, 1, 3, 1]

def dhPublicNumber : List Nat := [1, 2, 840, 10046, 2, 1]

def x25519 : List Nat := [1, 3, 101, 110]

def x448 : List Nat := [1, 3, 101, 111]

def ed25519 : List Nat := [1, 3, 101, 112]

def ed448 : List Nat := [1, 3, 101, 113]

end Identifier

inductive KeyAlgorithm
  | rsa
  | dsa (domain : Dsa.Domain)
  | elliptic (parameters : Element)
  | ed25519
  | foreign (kind : ForeignKind)
  | unknown
  deriving DecidableEq, Repr

namespace KeyAlgorithm

def domainElement (d : Dsa.Domain) : Element :=
  .sequence [.natural d.p, .natural d.q, .natural d.g]

def readDomain? (e : Element) : Option Dsa.Domain := do
  let [p, q, g] ← e.sequence? | none
  return ⟨← p.natural?, ← q.natural?, ← g.natural?⟩

def listsNaturals (e : Element) : Bool :=
  e.sequence?.any fun items => items.length ≥ 2 && items.all fun item => item.natural?.isSome

def isCurveForm (e : Element) : Bool := e.identifier?.isSome || e.isNull || e.sequence?.isSome

/-- The algorithm of an identifier with its parameters, if the parameters have the right form. -/
def ofParts? (arcs : List Nat) (parameters : Option Element) : Option KeyAlgorithm :=
  if arcs = Identifier.rsa then
    if parameters.all Element.isNull then some rsa else none
  else if arcs = Identifier.rsaPss then
    if parameters.all fun e => e.sequence?.isSome then some rsa else none
  else if arcs = Identifier.dsa then (parameters.bind readDomain?).map dsa
  else if arcs = Identifier.ellipticCurve then (parameters.filter isCurveForm).map elliptic
  else if arcs = Identifier.ed25519 then if parameters.isNone then some ed25519 else none
  else if arcs = Identifier.x25519 then if parameters.isNone then some (foreign .x25519) else none
  else if arcs = Identifier.x448 then if parameters.isNone then some (foreign .x448) else none
  else if arcs = Identifier.ed448 then if parameters.isNone then some (foreign .ed448) else none
  else if arcs = Identifier.keyAgreement ∨ arcs = Identifier.dhPublicNumber then
    if parameters.any listsNaturals then some (foreign .diffieHellman) else none
  else some unknown

def ofElement? (e : Element) : Option KeyAlgorithm := do
  let (arcs, parameters) ← e.algorithm?
  ofParts? arcs parameters

end KeyAlgorithm

namespace Domain

def isCoordinate (c : Curve) (n : Nat) (bs : Bytes) : Bool := bs == Bytes.ofNat c.width n

def isField (c : Curve) (e : Element) : Bool :=
  e == .sequence [.identifier Identifier.primeField, .natural c.p]

/-- Whether an element gives the coefficients of the curve, perhaps with the seed they came from. -/
def isEquation (c : Curve) (e : Element) : Bool :=
  match e.sequence? with
  | some (a :: b :: seed) =>
    a.octets?.any (isCoordinate c c.a) && b.octets?.any (isCoordinate c c.b) &&
      seed.length ≤ 1 && seed.all fun item => item.bits?.isSome
  | _ => false

def describes (c : Curve) (e : Element) : Bool :=
  match e.sequence? with
  | some (version :: field :: equation :: base :: order :: cofactor) =>
    version == .natural 1 && isField c field && isEquation c equation &&
      base == .octets (c.uncompressed c.base) && order == .natural c.order &&
      cofactor.length ≤ 1 && cofactor.all (· == .natural 1)
  | _ => false

def curve (e : Element) : Reading Curve :=
  match e.identifier? with
  | some arcs =>
    match Curve.byArcs? arcs with
    | some c => .ok c
    | none => .error .unsupported
  | none => Reading.expect (Curve.named.find? (describes · e))

end Domain
end SshKeys.Der
