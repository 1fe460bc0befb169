import SshKeys.Der.PublicKey
/-!
# Private keys in DER

The form for keys of any algorithm is tried first, then the forms of their own that RSA, elliptic
and DSA keys have.
-/
namespace SshKeys.Der

inductive PrivateKey
  | rsa (numbers : RsaNumbers)
  | dsa (domain : Dsa.Domain) (y x : Nat)
  | elliptic (curve : Curve) (point : Point) (scalar : Nat)
  | ed25519 (seed : Bytes)
  | foreign (kind : ForeignKind)
  deriving DecidableEq, Repr

namespace PrivateKey

def naturals (ns : List Nat) : Element := .sequence (ns.map Element.natural)

def readNaturals (bs : Bytes) : Reading (List Nat) := do
  let e ← Reading.expect (Element.ofBytes? bs)
  let items ← Reading.expect e.sequence?
  items.mapM fun item => Reading.expect item.natural?

def rsaElement (r : RsaNumbers) : Element :=
  naturals [0, r.n, r.e, r.d, r.p, r.q, r.dmp1, r.dmq1, r.iqmp]

def readRsa (bs : Bytes) : Reading PrivateKey := do
  let [version, n, e, d, p, q, dmp1, dmq1, iqmp] ← readNaturals bs | .error .malformed
  Reading.require (version == 0)
  let numbers : RsaNumbers := ⟨n, e, d, p, q, dmp1, dmq1, iqmp⟩
  Reading.require numbers.areSound
  return rsa numbers

/-- The DSA form: a version number and five numbers, which are not compared with each other. -/
def dsaElement (domain : Dsa.Domain) (y x : Nat) : Element :=
  naturals [0, domain.p, domain.q, domain.g, y, x]

def readDsa (bs : Bytes) : Reading PrivateKey := do
  let [version, p, q, g, y, x] ← readNaturals bs | .error .malformed
  Reading.require (version == 0)
  return dsa ⟨p, q, g⟩ y x

def ofDsaSecret (domain : Dsa.Domain) (x : Nat) : Reading PrivateKey := do
  Reading.require (domain.p != 0)
  return dsa domain (Modular.power domain.g x domain.p) x

/-- The elliptic form: a version number, the scalar at full width, perhaps the curve, and perhaps
the public point. -/
def ellipticElement (curve : Curve) (parameters : List Element) (point : Point) (scalar : Nat) :
    Element :=
  .sequence
    ([.natural 1, .octets (Bytes.ofNat curve.scalarWidth scalar)] ++
      parameters.map (Element.marked 0) ++ [.marked 1 (.bits (curve.uncompressed point))])

def readOptions? : List Element → Option (Option Element × Option Bytes)
  | [] => some (none, none)
  | [e] =>
    match e.marked? 0 with
    | some parameters =>
      if KeyAlgorithm.isCurveForm parameters then some (some parameters, none) else none
    | none => ((e.marked? 1).bind Element.bits?).map fun point => (none, some point)
  | [first, second] => do
    let parameters ← first.marked? 0
    let point ← (← second.marked? 1).bits?
    if KeyAlgorithm.isCurveForm parameters then some (some parameters, some point) else none
  | _ => none

/-- The curve that the wrapper of a key and the key itself agree on. -/
def agreedCurve : Option Element → Option Element → Reading Curve
  | some outer, some inner => if outer = inner then Domain.curve outer else .error .malformed
  | some parameters, none | none, some parameters => Domain.curve parameters
  | none, none => .error .malformed

/-- Reads the elliptic form; `outer` is the curve that the wrapper gives, if there is one. -/
def readElliptic (outer : Option Element) (bs : Bytes) : Reading PrivateKey := do
  let e ← Reading.expect (Element.ofBytes? bs)
  let version :: secret :: options ← Reading.expect e.sequence? | .error .malformed
  let secret ← Reading.expect secret.octets?
  let (inner, pointOctets) ← Reading.expect (readOptions? options)
  Reading.require (version == .natural 1)
  let curve ← agreedCurve outer inner
  Reading.require (secret.length == curve.scalarWidth)
  let scalar := Bytes.toNat secret
  let point ← Reading.expect (curve.publicPoint? scalar)
  match pointOctets with
  | none => return elliptic curve point scalar
  | some octets =>
    Reading.require (curve.readPoint? octets == some point)
    return elliptic curve point scalar

def readOctetString (bs : Bytes) : Reading Bytes :=
  Reading.expect ((Element.ofBytes? bs).bind Element.octets?)

def readOctets (bs : Bytes) : KeyAlgorithm → Reading PrivateKey
  | .rsa => readRsa bs
  | .dsa domain => do ofDsaSecret domain (← PublicKey.readNatural bs)
  | .elliptic parameters => readElliptic (some parameters) bs
  | .ed25519 => do
    let seed ← readOctetString bs
    Reading.require (seed.length == 32)
    return ed25519 seed
  | .foreign .diffieHellman => do
    discard (PublicKey.readNatural bs)
    return foreign .diffieHellman
  | .foreign kind => do
    Reading.require (kind.admits (← readOctetString bs))
    return foreign kind
  | .unknown => .error .unsupported

/-- Whether an element holds attributes: each an identifier with a set of values. -/
def isAttribute (e : Element) : Bool :=
  match e.sequence? with
  | some [kind, values] => kind.identifier?.isSome && (values.items? 0x31).isSome
  | _ => false

/-- What may follow the octets of a key: one list of attributes, which are not looked at. -/
def areAttributes : List Element → Bool
  | [] => true
  | [e] => (e.items? 0xA0).any fun items => items.all isAttribute
  | _ => false

def readAny (bs : Bytes) : Reading PrivateKey := do
  let e ← Reading.expect (Element.ofBytes? bs)
  let version :: algorithm :: key :: attributes ← Reading.expect e.sequence? | .error .malformed
  let algorithm ← Reading.expect (KeyAlgorithm.ofElement? algorithm)
  let key ← Reading.expect key.octets?
  Reading.require (areAttributes attributes && version == .natural 0)
  readOctets key algorithm

def readPlain (bs : Bytes) : Reading PrivateKey :=
  Reading.orTry (readAny bs)
    (Reading.orTry (readRsa bs) (Reading.orTry (readElliptic none bs) (readDsa bs)))

def toBody : PrivateKey → Except Error KeyBody
  | rsa numbers => do
    KeyBody.checkRsaSize numbers.n
    return .rsa numbers.toKey
  | dsa domain y x => do
    KeyBody.checkDsa domain.p domain.q domain.g y
    return .dsa ⟨domain.p, domain.q, domain.g, y, some (Int.ofNat x)⟩
  | elliptic curve point scalar =>
    match NistCurve.ofCurve? curve with
    | some curve => .ok (.ecdsa ⟨curve, point, some scalar⟩)
    | none => .error (.unknownKeyType (some curve.name) 0)
  | ed25519 seed => .ok (.ed25519 ⟨Edwards.publicKey seed, some seed⟩)
  | foreign kind => .error (.unknownKeyType (some (kind.name ++ "PrivateKey")) 0)

def wrap (arcs : List Nat) (parameters : List Element) (key : Element) : Element :=
  .sequence [.natural 0, .algorithm arcs parameters, .octets key.toBytes]

def element : KeyBody → Except Error Element
  | .rsa k =>
    match k.numbers? with
    | some numbers => .ok (wrap Identifier.rsa [.null] (rsaElement numbers))
    | none => .error (.privatePartMissing "RSA")
  | .dsa k =>
    match k.x with
    | some x => do
      let (domain, x) ← k.privateNumber x
      return wrap Identifier.dsa [KeyAlgorithm.domainElement domain] (.natural x)
    | none => .error (.privatePartMissing "DSS")
  | .ecdsa k =>
    let curve := k.curve.curve
    match k.scalar with
    | some scalar =>
      .ok (wrap Identifier.ellipticCurve [.identifier curve.arcs]
        (ellipticElement curve [] k.point scalar))
    | none => .error (.privatePartMissing "ECDSA")
  | .ed25519 k =>
    match k.seed with
    | some seed => .ok (wrap Identifier.ed25519 [] (.octets seed))
    | none => .error (.privatePartMissing "Ed25519")

/-- The form that keys of the class have of their own; there is none for Ed25519. -/
def ownElement : KeyBody → Except Error Element
  | .rsa k =>
    match k.numbers? with
    | some numbers => .ok (rsaElement numbers)
    | none => .error (.privatePartMissing "RSA")
  | .dsa k =>
    match k.x with
    | some x => do
      let (domain, x) ← k.privateNumber x
      return dsaElement domain k.y.toNat x
    | none => .error (.privatePartMissing "DSS")
  | .ecdsa k =>
    let curve := k.curve.curve
    match k.scalar with
    | some scalar => .ok (ellipticElement curve [.identifier curve.arcs] k.point scalar)
    | none => .error (.privatePartMissing "ECDSA")
  | .ed25519 k => .error (.noTraditionalForm (KeyBody.ed25519 k).name)

end PrivateKey
end SshKeys.Der
