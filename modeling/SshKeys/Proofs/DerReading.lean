import SshKeys.Der.PrivateKey
import SshKeys.Proofs.DerElement
import SshKeys.Proofs.Acceptance
/-!
# Keys and their octets in DER

An accepted key reads back from the form for keys of any algorithm and from the form that its class
has of its own: the forms that are tried before refuse it as malformed. All lengths can be written
unless a number has 2 ^ 1000 bits or more.
-/
namespace SshKeys.Der

namespace Element

/-- Elements that take less than `2 ^ k` octets, however their length is written. -/
def Within (k : Nat) (e : Element) : Prop := e.contents.length + 129 ≤ 2 ^ k

instance (k : Nat) (e : Element) : Decidable (Within k e) :=
  inferInstanceAs (Decidable (e.contents.length + 129 ≤ 2 ^ k))

variable {k : Nat} {e : Element}

theorem Within.fits (h : Within k e) (hLimit : k ≤ 1016) : e.Fits := by
  have hPower : 2 ^ k ≤ sizeLimit := Bytes.two_pow_le hLimit
  rw [Within] at h
  rw [Fits]
  omega

theorem length_toBytes_le (h : Within k e) (hLimit : k ≤ 1016) : e.toBytes.length ≤ 2 ^ k := by
  have hCount := Bytes.byteLength_le (h.fits hLimit)
  have hOctets : (lengthOctets e.contents.length).length ≤ 128 := by
    rw [lengthOctets]
    split
    · exact Nat.le_add_left 1 127
    · rw [List.length_cons, Bytes.length_minimal]
      omega
  rw [Within] at h
  rw [toBytes, List.length_cons, List.length_append]
  omega

theorem Within.mono {l : Nat} (h : Within k e) (hLe : k ≤ l) : Within l e :=
  Nat.le_trans h (Nat.pow_le_pow_right (by decide) hLe)

theorem within_ofItems {tag : UInt8} {items : List Element} {m : Nat} (hSmall : 8 ≤ k)
    (hLimit : k ≤ 1016) (hItems : ∀ e ∈ items, Within k e) (hCount : items.length ≤ 2 ^ m) :
    Within (k + m + 1) (ofItems tag items) := by
  have hSum : (items.flatMap toBytes).length ≤ items.length * 2 ^ k := by
    -- the count is a bound for the whole list, which the tails need not meet
    clear hCount
    induction items with
    | nil => simp
    | cons e items ih =>
      rw [List.forall_mem_cons] at hItems
      have hFirst := length_toBytes_le hItems.1 hLimit
      have hRest := ih hItems.2
      rw [List.flatMap_cons, List.length_append, List.length_cons, Nat.succ_mul]
      omega
  have hAll : items.length * 2 ^ k ≤ 2 ^ (k + m) := by
    rw [Nat.pow_add, Nat.mul_comm]
    exact Nat.mul_le_mul_left _ hCount
  have hRoom : 2 ^ 8 ≤ 2 ^ (k + m) := Nat.pow_le_pow_right (by decide) (by omega)
  rw [Within, ofItems, Nat.pow_succ]
  simp only
  omega

theorem within_octets (hSmall : 8 ≤ k) (hLimit : k ≤ 1016) (h : Within k e) :
    Within (k + 1) (octets e.toBytes) := by
  have hOctets := length_toBytes_le h hLimit
  have hRoom : 2 ^ 8 ≤ 2 ^ k := Nat.pow_le_pow_right (by decide) hSmall
  rw [Within, octets, Nat.pow_succ]
  simp only
  omega

theorem within_bits (hSmall : 9 ≤ k) (hLimit : k ≤ 1016) (h : Within k e) :
    Within (k + 1) (bits e.toBytes) := by
  have hOctets := length_toBytes_le h hLimit
  have hRoom : 2 ^ 9 ≤ 2 ^ k := Nat.pow_le_pow_right (by decide) hSmall
  rw [Within, bits, Nat.pow_succ, List.length_cons]
  omega

theorem within_natural {n : Nat} (h : Bytes.bitLength n < 2 ^ 1000) : Within 998 (natural n) := by
  have hLength : (natural n).contents.length = Bytes.bitLength n / 8 + 1 :=
    TwosComplement.length_encode n
  rw [Within, hLength]
  omega

/-- A sequence whose items and whose whole can be written. -/
structure Legible (items : List Element) : Prop where
  each : ∀ e ∈ items, e.Fits
  whole : (sequence items).Fits

theorem legible_of_within {items : List Element} {m : Nat} (hSmall : 8 ≤ k)
    (hItems : ∀ e ∈ items, Within k e) (hCount : items.length ≤ 2 ^ m)
    (hLimit : k + m + 1 ≤ 1016) : Legible items :=
  ⟨fun e he => (hItems e he).fits (by omega),
    (within_ofItems hSmall (by omega) hItems hCount).fits hLimit⟩

theorem Legible.ofBytes? {items : List Element} (h : Legible items) :
    Element.ofBytes? (sequence items).toBytes = some (sequence items) := ofBytes?_toBytes h.whole

theorem Legible.sequence? {items : List Element} (h : Legible items) :
    (sequence items).sequence? = some items := sequence?_sequence h.each

end Element

open Element

namespace Domain

theorem isIdentifier_arcs (c : NistCurve) : IsIdentifier c.curve.arcs := by
  cases c <;> exact ⟨by decide, by decide⟩

theorem curve_identifier (c : NistCurve) : curve (.identifier c.curve.arcs) = .ok c.curve := by
  rw [curve, identifier?_identifier (isIdentifier_arcs c)]
  cases c <;> rfl

end Domain
namespace PrivateKey

variable {items : List Element}

theorem readNaturals_sequence (h : Legible items) :
    readNaturals (sequence items).toBytes =
      items.mapM fun item => Reading.expect item.natural? := by
  rw [readNaturals, h.ofBytes?]
  change (Reading.expect (sequence items).sequence? >>= _) = _
  rw [h.sequence?]
  rfl

theorem mapM_natural (ns : List Nat) :
    ((ns.map natural).mapM fun item => Reading.expect item.natural?) = .ok ns := by
  induction ns with
  | nil => rfl
  | cons n ns ih =>
    rw [List.map_cons, List.mapM_cons, ih, natural?_natural]
    rfl

theorem readNaturals_naturals {ns : List Nat} (h : Legible (ns.map natural)) :
    readNaturals (naturals ns).toBytes = .ok ns :=
  (readNaturals_sequence h).trans (mapM_natural ns)

theorem readNaturals_malformed (h : Legible items) (hOther : ∃ e ∈ items, e.natural? = none) :
    readNaturals (sequence items).toBytes = .error .malformed := by
  rw [readNaturals_sequence h]
  clear h
  induction items with
  | nil => simp at hOther
  | cons item items ih =>
    rw [List.mapM_cons]
    cases hItem : item.natural? with
    | none => rfl
    | some n =>
      have hRest : ∃ e ∈ items, e.natural? = none := by
        obtain ⟨e, he, hNone⟩ := hOther
        rcases List.mem_cons.mp he with rfl | he
        · rw [hItem] at hNone
          cases hNone
        · exact ⟨e, he, hNone⟩
      rw [ih hRest]
      rfl

theorem readAny_malformed {version second : Element} {rest : List Element}
    (h : Legible (version :: second :: rest)) (hSecond : second.tag ≠ 0x30) :
    readAny (sequence (version :: second :: rest)).toBytes = .error .malformed := by
  have hAlgorithm : KeyAlgorithm.ofElement? second = none := by
    rw [KeyAlgorithm.ofElement?, algorithm?, sequence?_of_ne hSecond]
    rfl
  rw [readAny, h.ofBytes?]
  change (Reading.expect (sequence _).sequence? >>= _) = _
  rw [h.sequence?]
  cases rest with
  | nil => rfl
  | cons key attributes =>
    change (Reading.expect (KeyAlgorithm.ofElement? second) >>= _) = _
    rw [hAlgorithm]
    rfl

theorem readElliptic_malformed {version second : Element} {rest : List Element}
    {outer : Option Element} (h : Legible (version :: second :: rest))
    (hSecond : second.octets? = none) :
    readElliptic outer (sequence (version :: second :: rest)).toBytes = .error .malformed := by
  rw [readElliptic, h.ofBytes?]
  change (Reading.expect (sequence _).sequence? >>= _) = _
  rw [h.sequence?]
  change (Reading.expect second.octets? >>= _) = _
  rw [hSecond]
  rfl

theorem readRsa_malformed {bs : Bytes}
    (h : readNaturals bs = .error .malformed ∨ ∃ ns, readNaturals bs = .ok ns ∧ ns.length ≠ 9) :
    readRsa bs = .error .malformed := by
  rw [readRsa]
  rcases h with h | ⟨ns, h, hLength⟩
  · rw [h]
    rfl
  · rw [h]
    rw [Fallible.bind_ok]
    split
    · exact absurd rfl hLength
    · rfl

theorem legible_naturals {ns : List Nat} (hBits : ∀ n ∈ ns, Bytes.bitLength n < 2 ^ 1000)
    (hCount : ns.length ≤ 2 ^ 4) : Legible (ns.map natural) := by
  refine legible_of_within (k := 998) (m := 4) (by decide) ?_ ?_ (by decide)
  · exact List.forall_mem_map.mpr fun n hn => within_natural (hBits n hn)
  · rwa [List.length_map]

theorem within_naturals {ns : List Nat} (hBits : ∀ n ∈ ns, Bytes.bitLength n < 2 ^ 1000)
    (hCount : ns.length ≤ 2 ^ 4) : Within 1003 (naturals ns) := by
  refine within_ofItems (k := 998) (m := 4) (by decide) (by decide) ?_ ?_
  · exact List.forall_mem_map.mpr fun n hn => within_natural (hBits n hn)
  · rwa [List.length_map]

theorem readRsa_rsaElement {r : RsaNumbers}
    (h : Legible ([0, r.n, r.e, r.d, r.p, r.q, r.dmp1, r.dmq1, r.iqmp].map natural))
    (hSound : r.areSound = true) : readRsa (rsaElement r).toBytes = .ok (rsa r) := by
  rw [readRsa, rsaElement, readNaturals_naturals h]
  change (Reading.require r.areSound >>= fun _ => _) = _
  rw [hSound]
  rfl

theorem readDsa_dsaElement {d : Dsa.Domain} {y x : Nat}
    (h : Legible ([0, d.p, d.q, d.g, y, x].map natural)) :
    readDsa (dsaElement d y x).toBytes = .ok (dsa d y x) := by
  rw [readDsa, dsaElement, readNaturals_naturals h]
  rfl

theorem within_identifier_arcs (c : NistCurve) : Within 8 (identifier c.curve.arcs) := by
  cases c <;> decide +kernel

theorem within_scalar (c : NistCurve) (scalar : Nat) :
    Within 8 (octets (Bytes.ofNat c.curve.scalarWidth scalar)) := by
  rw [Within, octets, Bytes.length_ofNat]
  cases c <;> decide +kernel

theorem within_point (c : NistCurve) (point : Point) :
    Within 9 (bits (c.curve.uncompressed point)) := by
  rw [Within, bits, List.length_cons, Curve.length_uncompressed]
  cases c <;> decide +kernel

theorem readOptions?_ellipticElement (inner : Option Element) (point : Bytes)
    (hInner : ∀ e ∈ inner, e.Fits ∧ KeyAlgorithm.isCurveForm e = true)
    (hPoint : (bits point).Fits) :
    readOptions? (inner.toList.map (marked 0) ++ [marked 1 (bits point)]) =
      some (inner, some point) := by
  have hMarked := marked?_marked 1 hPoint
  cases inner with
  | none =>
    have hOther : (marked 1 (bits point)).marked? 0 = none := by
      rw [marked?, items?_of_ne (show (0xA0 + 1 : UInt8) ≠ 0xA0 + 0 by decide)]
    change readOptions? [marked 1 (bits point)] = _
    rw [readOptions?, hOther]
    simp only
    rw [hMarked]
    rfl
  | some e =>
    obtain ⟨hFits, hForm⟩ := hInner e rfl
    have hFirst := marked?_marked 0 hFits
    change readOptions? [marked 0 e, marked 1 (bits point)] = _
    rw [readOptions?, hFirst, hMarked]
    exact if_pos hForm

theorem ellipticElement_eq (c : Curve) (inner : List Element) (point : Point) (scalar : Nat) :
    ellipticElement c inner point scalar =
      sequence (natural 1 :: octets (Bytes.ofNat c.scalarWidth scalar) ::
        (inner.map (marked 0) ++ [marked 1 (bits (c.uncompressed point))])) := rfl

theorem within_ellipticItems {c : NistCurve} {inner : Option Element} (scalar : Nat)
    (point : Point) (hInner : ∀ e ∈ inner, Within 9 e) :
    (∀ e ∈ natural 1 :: octets (Bytes.ofNat c.curve.scalarWidth scalar) ::
      (inner.toList.map (marked 0) ++ [marked 1 (bits (c.curve.uncompressed point))]),
        Within 10 e) ∧
    (natural 1 :: octets (Bytes.ofNat c.curve.scalarWidth scalar) ::
      (inner.toList.map (marked 0) ++ [marked 1 (bits (c.curve.uncompressed point))])).length ≤
        2 ^ 2 := by
  have within_marked : ∀ {place e}, Within 9 e → Within 10 (marked place e) := fun h =>
    within_ofItems (m := 0) (by decide) (by decide) (List.forall_mem_singleton.mpr h) le_rfl
  constructor
  · simp only [List.forall_mem_cons, List.forall_mem_append, List.forall_mem_map,
      Option.mem_toList]
    exact ⟨by decide, (within_scalar c scalar).mono (by decide),
      fun e he => within_marked (hInner e he), within_marked (within_point c point), nofun⟩
  · cases inner <;> simp

theorem within_ellipticElement {c : NistCurve} (inner : Option Element) (scalar : Nat)
    (point : Point) (hInner : ∀ e ∈ inner, Within 9 e) :
    Within 13 (ellipticElement c.curve inner.toList point scalar) := by
  obtain ⟨hItems, hCount⟩ := within_ellipticItems (c := c) scalar point hInner
  exact within_ofItems (by decide) (by decide) hItems hCount

theorem readElliptic_ellipticElement {c : NistCurve} (outer inner : Option Element) {point : Point}
    {scalar : Nat} (hCurve : agreedCurve outer inner = .ok c.curve)
    (hInner : ∀ e ∈ inner, Within 9 e ∧ KeyAlgorithm.isCurveForm e = true)
    (hOn : c.curve.contains point = true) (hDerived : c.curve.publicPoint? scalar = some point) :
    readElliptic outer (ellipticElement c.curve inner.toList point scalar).toBytes =
      .ok (elliptic c.curve point scalar) := by
  have hScalar : Bytes.toNat (Bytes.ofNat c.curve.scalarWidth scalar) = scalar :=
    Bytes.toNat_ofNat_of_lt ((Curve.publicPoint?_eq_some_iff.mp hDerived).1.2.trans
      (Bytes.lt_pow_byteLength _))
  have hPoint : c.curve.readPoint? (c.curve.uncompressed point) = some point :=
    Curve.readUncompressed?_eq_some_iff.mpr ⟨hOn, rfl⟩
  have hOptions := readOptions?_ellipticElement inner (c.curve.uncompressed point)
    (fun e he => ⟨(hInner e he).1.fits (by decide), (hInner e he).2⟩)
    ((within_point c point).fits (by decide))
  obtain ⟨hItems, hCount⟩ :=
    within_ellipticItems (c := c) scalar point fun e he => (hInner e he).1
  have hLegible := legible_of_within (by decide) hItems hCount (by decide)
  rw [readElliptic, ellipticElement_eq, hLegible.ofBytes?]
  change (Reading.expect (sequence _).sequence? >>= _) = _
  rw [hLegible.sequence?]
  change (Reading.expect (readOptions? _) >>= _) = _
  rw [hOptions]
  change (agreedCurve outer inner >>= _) = _
  rw [hCurve]
  change (Reading.require
    ((Bytes.ofNat c.curve.scalarWidth scalar).length == c.curve.scalarWidth) >>= _) = _
  rw [Bytes.length_ofNat, beq_self_eq_true]
  change (Reading.expect
    (c.curve.publicPoint? (Bytes.toNat (Bytes.ofNat c.curve.scalarWidth scalar))) >>= _) = _
  rw [hScalar, hDerived]
  change (Reading.require (c.curve.readPoint? (c.curve.uncompressed point) == some point) >>= _) = _
  rw [hPoint, beq_self_eq_true]
  exact congrArg (fun n => Except.ok (elliptic c.curve point n)) hScalar

end PrivateKey

section Wrapping

variable {arcs : List Nat} {parameters : List Element} {algorithm : KeyAlgorithm}

/-- An algorithm that can be read back, and what is read. -/
structure Names (arcs : List Nat) (parameters : List Element) (algorithm : KeyAlgorithm) :
    Prop where
  isIdentifier : IsIdentifier arcs
  within : Within 8 (.identifier arcs)
  within_parameters : ∀ e ∈ parameters, Within 1004 e
  count : parameters.length ≤ 1
  parts : KeyAlgorithm.ofParts? arcs parameters.head? = some algorithm

theorem Names.within_algorithm (h : Names arcs parameters algorithm) :
    Within 1006 (.algorithm arcs parameters) := by
  refine within_ofItems (k := 1004) (m := 1) (by decide) (by decide) ?_ ?_
  · exact List.forall_mem_cons.mpr ⟨h.within.mono (by decide), h.within_parameters⟩
  · have := h.count
    rw [List.length_cons]
    omega

theorem Names.ofElement? (h : Names arcs parameters algorithm) :
    KeyAlgorithm.ofElement? (.algorithm arcs parameters) = some algorithm := by
  have hAlgorithm := algorithm?_algorithm h.isIdentifier (h.within.fits (by decide))
    (fun e he => (h.within_parameters e he).fits (by decide)) h.count
  rw [KeyAlgorithm.ofElement?, hAlgorithm]
  exact h.parts

namespace PrivateKey

theorem within_wrap (h : Names arcs parameters algorithm) {key : Element} (hKey : Within 1003 key) :
    (∀ e ∈ [natural 0, .algorithm arcs parameters, octets key.toBytes], Within 1006 e) ∧
      Within 1009 (wrap arcs parameters key) := by
  have hItems : ∀ e ∈ [natural 0, .algorithm arcs parameters, octets key.toBytes],
      Within 1006 e := by
    simp only [List.forall_mem_cons]
    exact ⟨(by decide : Within 8 (natural 0)).mono (by decide), h.within_algorithm,
      (within_octets (by decide) (by decide) hKey).mono (by decide), nofun⟩
  exact ⟨hItems, within_ofItems (m := 2) (by decide) (by decide) hItems (by simp)⟩

theorem readAny_wrap (h : Names arcs parameters algorithm) {key : Element}
    (hKey : Within 1003 key) :
    readAny (wrap arcs parameters key).toBytes = readOctets key.toBytes algorithm := by
  have hLegible : Legible [natural 0, .algorithm arcs parameters, octets key.toBytes] :=
    ⟨fun e he => ((within_wrap h hKey).1 e he).fits (by decide),
      (within_wrap h hKey).2.fits (by decide)⟩
  rw [readAny, wrap, hLegible.ofBytes?]
  change (Reading.expect (sequence _).sequence? >>= _) = _
  rw [hLegible.sequence?]
  change (Reading.expect (KeyAlgorithm.ofElement? (.algorithm arcs parameters)) >>= _) = _
  rw [h.ofElement?]
  rfl

end PrivateKey

namespace PublicKey

theorem readAny_wrap (h : Names arcs parameters algorithm) {key : Bytes}
    (hKey : Within 1004 (bits key)) :
    readAny (wrap arcs parameters key).toBytes = readOctets key algorithm := by
  have hItems : ∀ e ∈ [.algorithm arcs parameters, bits key], Within 1006 e := by
    simp only [List.forall_mem_cons]
    exact ⟨h.within_algorithm, hKey.mono (by decide), nofun⟩
  have hLegible : Legible [.algorithm arcs parameters, bits key] :=
    legible_of_within (m := 1) (by decide) hItems (by simp) (by decide)
  rw [readAny, wrap, hLegible.ofBytes?]
  change (Reading.expect (sequence _).sequence? >>= _) = _
  rw [hLegible.sequence?]
  change (Reading.expect (KeyAlgorithm.ofElement? (.algorithm arcs parameters)) >>= _) = _
  rw [h.ofElement?]
  rfl

end PublicKey

theorem names_rsa : Names Identifier.rsa [null] .rsa :=
  ⟨⟨by decide, by decide⟩, by decide +kernel, List.forall_mem_singleton.mpr
    ((by decide : Within 8 null).mono (by decide)), le_rfl, rfl⟩

theorem names_ed25519 : Names Identifier.ed25519 [] .ed25519 :=
  ⟨⟨by decide, by decide⟩, by decide +kernel, nofun, Nat.zero_le _, rfl⟩

theorem isCurveForm_arcs (c : NistCurve) :
    KeyAlgorithm.isCurveForm (.identifier c.curve.arcs) = true := by
  rw [KeyAlgorithm.isCurveForm, identifier?_identifier (Domain.isIdentifier_arcs c)]
  rfl

theorem names_elliptic (c : NistCurve) : Names Identifier.ellipticCurve
    [.identifier c.curve.arcs] (.elliptic (.identifier c.curve.arcs)) := by
  refine ⟨⟨by decide, by decide⟩, by decide +kernel, ?_, le_rfl, ?_⟩
  · exact List.forall_mem_singleton.mpr
      ((PrivateKey.within_identifier_arcs c).mono (by decide))
  · change ((some (Element.identifier c.curve.arcs)).filter KeyAlgorithm.isCurveForm).map
      KeyAlgorithm.elliptic = _
    rw [Option.filter_some_pos (isCurveForm_arcs c)]
    rfl

theorem names_dsa {d : Dsa.Domain} (hBits : ∀ n ∈ [d.p, d.q, d.g], Bytes.bitLength n < 2 ^ 1000) :
    Names Identifier.dsa [KeyAlgorithm.domainElement d] (.dsa d) := by
  have hItems : ∀ e ∈ [d.p, d.q, d.g].map natural, Within 998 e :=
    List.forall_mem_map.mpr fun n hn => within_natural (hBits n hn)
  have hWithin : Within 1001 (KeyAlgorithm.domainElement d) :=
    within_ofItems (m := 2) (by decide) (by decide) hItems (by simp)
  have hDomain : KeyAlgorithm.readDomain? (KeyAlgorithm.domainElement d) = some d := by
    have hSequence : (KeyAlgorithm.domainElement d).sequence? =
        some [natural d.p, natural d.q, natural d.g] :=
      sequence?_sequence fun e he => (hItems e he).fits (by decide)
    rw [KeyAlgorithm.readDomain?, hSequence]
    simp only [Option.bind_eq_bind, Option.bind_some, natural?_natural]
    rfl
  refine ⟨⟨by decide, by decide⟩, by decide +kernel,
    List.forall_mem_singleton.mpr (hWithin.mono (by decide)), le_rfl, ?_⟩
  change ((some (KeyAlgorithm.domainElement d)).bind KeyAlgorithm.readDomain?).map
    KeyAlgorithm.dsa = _
  rw [Option.bind_some, hDomain]
  rfl

end Wrapping

end SshKeys.Der
