import SshKeys.Proofs.DerReading
/-!
# Accepted keys in DER

From the form for keys of any algorithm, and from the form that its class has of its own, a key is
read back with all its numbers; from the forms for public keys its public half.
-/
namespace SshKeys

namespace Bytes

theorem bitLength_lt_of_le {m n bound : Nat} (h : m ≤ n) (hBound : bitLength n < bound) :
    bitLength m < bound :=
  (bitLength_le.mpr (h.trans_lt (bitLength_le.mp le_rfl))).trans_lt hBound

end Bytes

theorem RsaNumbers.bitLength_lt {r : RsaNumbers} {bound : Nat} (hRange : r.areInRange = true)
    (hBits : Bytes.bitLength r.n < bound) :
    ∀ n ∈ [0, r.n, r.e, r.d, r.p, r.q, r.dmp1, r.dmq1, r.iqmp], Bytes.bitLength n < bound := by
  obtain ⟨-, ⟨hp, hq, hdp, hdq, hInverse, hd⟩, ⟨-, he, -⟩, -, -⟩ := areInRange_iff.mp hRange
  have hEach : ∀ n ∈ [0, r.n, r.e, r.d, r.p, r.q, r.dmp1, r.dmq1, r.iqmp], n ≤ r.n := by
    simp only [List.forall_mem_cons]
    exact ⟨Nat.zero_le _, le_rfl, he.le, hd.le, hp.le, hq.le, hdp.le, hdq.le, hInverse.le, nofun⟩
  exact fun n hn => Bytes.bitLength_lt_of_le (hEach n hn) hBits

namespace DsaKey

theorem domain_eq {k : DsaKey} {x : Int} (h : KeyBody.MatchesDsa k x) :
    k.domain = .ok ⟨k.p.toNat, k.q.toNat, k.g.toNat⟩ := by
  obtain ⟨hRange, -, hSizes⟩ := h
  rw [domain, if_pos hSizes, if_neg (show ¬k.q < 0 by omega)]
  rfl

theorem privateNumber_eq {k : DsaKey} {x : Int} (h : KeyBody.MatchesDsa k x) :
    k.privateNumber x = .ok (⟨k.p.toNat, k.q.toNat, k.g.toNat⟩, x.toNat) := by
  have hDomain := domain_eq h
  obtain ⟨hRange, hDerived, hSizes⟩ := h
  rw [privateNumber, if_pos hSizes, if_pos hRange, if_neg (not_not_intro hDerived), hDomain]
  rfl

end DsaKey

namespace KeyBody

/-- The numbers of an accepted DSA key as natural numbers, none of them longer than the modulus. -/
theorem accepted_dsa_naturals {k : DsaKey} {bound : Nat} (h : (dsa k).Accepted)
    (hBits : (dsa k).bits < bound) :
    ∃ (d : Dsa.Domain) (y x : Nat), k = ⟨d.p, d.q, d.g, y, some (x : Int)⟩ ∧
      checkDsa d.p d.q d.g y = .ok () ∧ MatchesDsa k x ∧
        ∀ n ∈ [0, d.p, d.q, d.g, y, x], Bytes.bitLength n < bound := by
  obtain ⟨x, hx, hChecks, hMatches⟩ := accepted_dsa_iff.mp h
  obtain ⟨p, q, g, y, x'⟩ := k
  cases hx
  obtain ⟨⟨-, hq⟩, hp, ⟨hg, hgp⟩, hy, hyp⟩ := checkDsa_eq_ok_iff.mp hChecks
  obtain ⟨⟨hx, hxq⟩, -, -⟩ := id hMatches
  simp only at hq hp hg hgp hy hyp hxq
  lift p to Nat using by omega
  lift q to Nat using by omega
  lift g to Nat using by omega
  lift y to Nat using by omega
  lift x to Nat using by omega
  have hModulus : 2 ^ 160 ≤ p := by
    have := Nat.pow_le_pow_right (show 0 < 2 by decide) (show 160 ≤ 1023 by decide)
    omega
  have hEach : ∀ n ∈ [0, p, q, g, y, x], n ≤ p := by
    simp only [List.forall_mem_cons]
    refine ⟨?_, le_rfl, ?_, ?_, ?_, ?_, nofun⟩ <;> omega
  exact ⟨⟨p, q, g⟩, y, x, rfl, hChecks, hMatches, fun n hn =>
    Bytes.bitLength_lt_of_le (hEach n hn) hBits⟩

end KeyBody

namespace Der

open Element

namespace Element

theorem natural?_octets (bs : Bytes) : (octets bs).natural? = none :=
  if_neg fun hBoth => absurd hBoth.1 (show (0x04 : UInt8) ≠ 0x02 by decide)

theorem octets?_natural (n : Nat) : (natural n).octets? = none :=
  if_neg (show (0x02 : UInt8) ≠ 0x04 by decide)

theorem tag_natural_ne {n : Nat} : (natural n).tag ≠ 0x30 := show (0x02 : UInt8) ≠ 0x30 by decide

theorem tag_octets_ne {bs : Bytes} : (octets bs).tag ≠ 0x30 := show (0x04 : UInt8) ≠ 0x30 by decide

end Element

theorem readNatural_natural {n : Nat} (hBits : Bytes.bitLength n < 2 ^ 1000) :
    PublicKey.readNatural (natural n).toBytes = .ok n := by
  rw [PublicKey.readNatural, ofBytes?_toBytes ((within_natural hBits).fits (by decide)),
    Option.bind_some, natural?_natural]
  rfl

namespace PrivateKey

theorem toBody_rsa {r : RsaNumbers} (hSize : 2 ^ 1023 ≤ r.n) :
    (rsa r).toBody = .ok (.rsa r.toKey) := by
  have hChecks : KeyBody.checkRsaSize r.n = .ok () := KeyBody.checkRsaSize_eq_ok_iff.mpr hSize
  rw [toBody, hChecks]
  rfl

theorem publicPoint?_of_accepted {k : EcdsaKey} (hAccepted : (KeyBody.ecdsa k).Accepted)
    (hReduced : (KeyBody.ecdsa k).IsReduced) :
    ∃ scalar, k.scalar = some scalar ∧ k.curve.curve.contains k.point = true ∧
      k.curve.curve.publicPoint? scalar = some k.point := by
  obtain ⟨scalar, hScalar, hOn, hRange, hDerived⟩ := KeyBody.accepted_ecdsa_iff.mp hAccepted
  exact ⟨scalar, hScalar, hOn,
    Curve.publicPoint?_eq_some_iff.mpr ⟨⟨hRange.1, hReduced scalar hScalar⟩, hDerived⟩⟩

theorem toBody_elliptic (c : NistCurve) (point : Point) (scalar : Nat) :
    (elliptic c.curve point scalar).toBody = .ok (.ecdsa ⟨c, point, some scalar⟩) := by
  cases c <;> rfl

/-- The key is written as one of any algorithm and read back from that. -/
def ReadsBack (body : KeyBody) : Prop :=
  ∃ e key, element body = .ok e ∧ Within 1009 e ∧ readAny e.toBytes = .ok key ∧
    key.toBody = .ok body

theorem readsBack_rsa {k : RsaKey} (hAccepted : (KeyBody.rsa k).Accepted)
    (hBits : (KeyBody.rsa k).bits < 2 ^ 1000) : ReadsBack (.rsa k) := by
  obtain ⟨r, hNumbers, hRange, hSound, -, hSize⟩ := KeyBody.accepted_rsa_iff.mp hAccepted
  obtain rfl := RsaKey.toKey_of_numbers? hNumbers
  have hAll := RsaNumbers.bitLength_lt hRange hBits
  have hElement : Within 1003 (rsaElement r) := within_naturals hAll (by simp)
  refine ⟨wrap Identifier.rsa [null] (rsaElement r), rsa r, ?_,
    (within_wrap names_rsa hElement).2, ?_, toBody_rsa hSize⟩
  · rw [element, hNumbers]
  · rw [readAny_wrap names_rsa hElement]
    exact readRsa_rsaElement (legible_naturals hAll (by simp)) hSound

theorem readsBack_dsa {k : DsaKey} (hAccepted : (KeyBody.dsa k).Accepted)
    (hBits : (KeyBody.dsa k).bits < 2 ^ 1000) : ReadsBack (.dsa k) := by
  obtain ⟨d, y, x, rfl, hChecks, hMatches, hAll⟩ := KeyBody.accepted_dsa_naturals hAccepted hBits
  simp only [List.forall_mem_cons] at hAll
  obtain ⟨-, hp, hq, hg, hy, hx, -⟩ := hAll
  have hNames : Names Identifier.dsa [KeyAlgorithm.domainElement d] (.dsa d) :=
    names_dsa (by simp only [List.forall_mem_cons]; exact ⟨hp, hq, hg, nofun⟩)
  have hElement : Within 1003 (natural x) := (within_natural hx).mono (by decide)
  have hDerived : Modular.power d.g x d.p = y := by
    have hSame := hMatches.2.1
    simpa using hSame
  have hModulus : (d.p != 0) = true := by
    obtain ⟨-, -, hGenerator, -⟩ := KeyBody.checkDsa_eq_ok_iff.mp hChecks
    rw [bne_iff_ne]
    omega
  refine ⟨wrap Identifier.dsa [KeyAlgorithm.domainElement d] (natural x), dsa d y x, ?_,
    (within_wrap hNames hElement).2, ?_, ?_⟩
  · change (DsaKey.privateNumber _ x >>= _) = _
    rw [DsaKey.privateNumber_eq hMatches]
    rfl
  · rw [readAny_wrap hNames hElement, readOctets, readNatural_natural hx]
    change (Reading.require (d.p != 0) >>= fun _ =>
      Except.ok (dsa d (Modular.power d.g x d.p) x)) = _
    rw [hModulus, hDerived]
    rfl
  · rw [toBody, hChecks]
    rfl

theorem readsBack_ecdsa {k : EcdsaKey} (hAccepted : (KeyBody.ecdsa k).Accepted)
    (hReduced : (KeyBody.ecdsa k).IsReduced) : ReadsBack (.ecdsa k) := by
  obtain ⟨scalar, hScalar, hOn, hDerived⟩ := publicPoint?_of_accepted hAccepted hReduced
  obtain ⟨c, point, _⟩ := k
  cases hScalar
  have hNames := names_elliptic c
  have hElement : Within 1003 (ellipticElement c.curve [] point scalar) :=
    (within_ellipticElement none scalar point nofun).mono (by decide)
  refine ⟨_, elliptic c.curve point scalar, rfl, (within_wrap hNames hElement).2, ?_,
    toBody_elliptic c point scalar⟩
  rw [readAny_wrap hNames hElement]
  exact readElliptic_ellipticElement _ none (Domain.curve_identifier c) nofun hOn hDerived

theorem readsBack_ed25519 {k : Ed25519Key} (hAccepted : (KeyBody.ed25519 k).Accepted) :
    ReadsBack (.ed25519 k) := by
  obtain ⟨seed, hSeed, hLength, hDerived⟩ := KeyBody.accepted_ed25519_iff.mp hAccepted
  obtain ⟨publicKey, _⟩ := k
  cases hSeed
  have hElement : Within 8 (octets seed) := by
    rw [Within, octets, hLength]
    decide
  have hWide : Within 1003 (octets seed) := hElement.mono (by decide)
  refine ⟨_, ed25519 seed, rfl, (within_wrap names_ed25519 hWide).2, ?_, ?_⟩
  · rw [readAny_wrap names_ed25519 hWide, readOctets, readOctetString,
      ofBytes?_toBytes (hElement.fits (by decide))]
    change (Reading.require (seed.length == 32) >>= fun _ => Except.ok (ed25519 seed)) = _
    rw [hLength]
    rfl
  · rw [toBody, hDerived]

variable {body : KeyBody}

theorem readAny_element (hAccepted : body.Accepted) (hReduced : body.IsReduced)
    (hBits : body.bits < 2 ^ 1000) : ReadsBack body := by
  cases body with
  | rsa k => exact readsBack_rsa hAccepted hBits
  | dsa k => exact readsBack_dsa hAccepted hBits
  | ecdsa k => exact readsBack_ecdsa hAccepted hReduced
  | ed25519 k => exact readsBack_ed25519 hAccepted

section Forms

variable {bs : Bytes} {key : PrivateKey}

theorem readPlain_of_readRsa (hAny : readAny bs = .error .malformed) (hRsa : readRsa bs = .ok key) :
    readPlain bs = .ok key := by
  rw [readPlain, hAny, hRsa]
  rfl

theorem readPlain_of_readElliptic (hAny : readAny bs = .error .malformed)
    (hRsa : readRsa bs = .error .malformed) (hElliptic : readElliptic none bs = .ok key) :
    readPlain bs = .ok key := by
  rw [readPlain, hAny, hRsa, hElliptic]
  rfl

theorem readPlain_of_readDsa (hAny : readAny bs = .error .malformed)
    (hRsa : readRsa bs = .error .malformed) (hElliptic : readElliptic none bs = .error .malformed)
    (hDsa : readDsa bs = .ok key) : readPlain bs = .ok key := by
  rw [readPlain, hAny, hRsa, hElliptic, hDsa]
  rfl

/-- The DSA form is read as its numbers, whatever these are. -/
theorem readPlain_dsaElement {d : Dsa.Domain} {y x : Nat}
    (hLegible : Legible ([0, d.p, d.q, d.g, y, x].map natural)) :
    readPlain (dsaElement d y x).toBytes = .ok (dsa d y x) := by
  have hNumbers := readNaturals_naturals hLegible
  have hAny : readAny (dsaElement d y x).toBytes = .error .malformed :=
    readAny_malformed hLegible tag_natural_ne
  have hRsa : readRsa (dsaElement d y x).toBytes = .error .malformed :=
    readRsa_malformed (.inr ⟨_, hNumbers, by simp⟩)
  have hElliptic : readElliptic none (dsaElement d y x).toBytes = .error .malformed :=
    readElliptic_malformed hLegible (octets?_natural d.p)
  exact readPlain_of_readDsa hAny hRsa hElliptic (readDsa_dsaElement hLegible)

end Forms

/-- The key is written in the form of its class and read back from that, since the forms that are
tried before are not its own. -/
def OwnReadsBack (body : KeyBody) : Prop :=
  ∃ e key, ownElement body = .ok e ∧ readPlain e.toBytes = .ok key ∧ key.toBody = .ok body

theorem ownReadsBack_rsa {k : RsaKey} (hAccepted : (KeyBody.rsa k).Accepted)
    (hBits : (KeyBody.rsa k).bits < 2 ^ 1000) : OwnReadsBack (.rsa k) := by
  obtain ⟨r, hNumbers, hRange, hSound, -, hSize⟩ := KeyBody.accepted_rsa_iff.mp hAccepted
  obtain rfl := RsaKey.toKey_of_numbers? hNumbers
  have hLegible := legible_naturals (RsaNumbers.bitLength_lt hRange hBits) (by simp)
  refine ⟨rsaElement r, rsa r, ?_, ?_, toBody_rsa hSize⟩
  · rw [ownElement, hNumbers]
  · exact readPlain_of_readRsa (readAny_malformed hLegible tag_natural_ne)
      (readRsa_rsaElement hLegible hSound)

theorem ownReadsBack_dsa {k : DsaKey} (hAccepted : (KeyBody.dsa k).Accepted)
    (hBits : (KeyBody.dsa k).bits < 2 ^ 1000) : OwnReadsBack (.dsa k) := by
  obtain ⟨d, y, x, rfl, hChecks, hMatches, hAll⟩ := KeyBody.accepted_dsa_naturals hAccepted hBits
  refine ⟨dsaElement d y x, dsa d y x, ?_,
    readPlain_dsaElement (legible_naturals hAll (by simp)), ?_⟩
  · change (DsaKey.privateNumber _ x >>= _) = _
    rw [DsaKey.privateNumber_eq hMatches]
    rfl
  · rw [toBody, hChecks]
    rfl

theorem ownReadsBack_ecdsa {k : EcdsaKey} (hAccepted : (KeyBody.ecdsa k).Accepted)
    (hReduced : (KeyBody.ecdsa k).IsReduced) : OwnReadsBack (.ecdsa k) := by
  obtain ⟨scalar, hScalar, hOn, hDerived⟩ := publicPoint?_of_accepted hAccepted hReduced
  obtain ⟨c, point, _⟩ := k
  cases hScalar
  have hInner : ∀ e ∈ some (Element.identifier c.curve.arcs),
      Within 9 e ∧ KeyAlgorithm.isCurveForm e = true := by
    rintro e he
    cases he
    exact ⟨(within_identifier_arcs c).mono (by decide), isCurveForm_arcs c⟩
  refine ⟨_, elliptic c.curve point scalar, rfl, ?_, toBody_elliptic c point scalar⟩
  obtain ⟨hItems, hCount⟩ :=
    within_ellipticItems (c := c) scalar point fun e he => (hInner e he).1
  have hLegible := legible_of_within (by decide) hItems hCount (by decide)
  have hAny : readAny (ellipticElement c.curve [.identifier c.curve.arcs] point scalar).toBytes =
      .error .malformed := readAny_malformed hLegible tag_octets_ne
  have hNumbers : readNaturals (ellipticElement c.curve [.identifier c.curve.arcs] point
      scalar).toBytes = .error .malformed :=
    readNaturals_malformed hLegible ⟨_, List.mem_cons_of_mem _ List.mem_cons_self,
      natural?_octets _⟩
  exact readPlain_of_readElliptic hAny (readRsa_malformed (.inl hNumbers))
    (readElliptic_ellipticElement none (some (.identifier c.curve.arcs))
      (Domain.curve_identifier c) hInner hOn hDerived)

theorem readPlain_ownElement (hAccepted : body.Accepted) (hReduced : body.IsReduced)
    (hBits : body.bits < 2 ^ 1000) (hOwn : body.keyClass ≠ .ed25519) : OwnReadsBack body := by
  cases body with
  | rsa k => exact ownReadsBack_rsa hAccepted hBits
  | dsa k => exact ownReadsBack_dsa hAccepted hBits
  | ecdsa k => exact ownReadsBack_ecdsa hAccepted hReduced
  | ed25519 k => exact absurd rfl hOwn

end PrivateKey

namespace PublicKey

variable {body : KeyBody}

theorem read_of_readAny {bs : Bytes} {key : PublicKey} (h : readAny bs = .ok key) :
    read bs = .ok key := by
  rw [read, h]
  rfl

theorem legible_pair {r : RsaNumbers} (hRange : r.areInRange = true)
    (hBits : Bytes.bitLength r.n < 2 ^ 1000) :
    (∀ e ∈ [natural r.n, natural r.e], Within 998 e) ∧ Legible [natural r.n, natural r.e] := by
  have hAll := RsaNumbers.bitLength_lt hRange hBits
  have hItems : ∀ e ∈ [natural r.n, natural r.e], Within 998 e := by
    simp only [List.forall_mem_cons] at hAll ⊢
    exact ⟨within_natural hAll.2.1, within_natural hAll.2.2.1, nofun⟩
  exact ⟨hItems, legible_of_within (m := 1) (by decide) hItems (by simp) (by decide)⟩

theorem readRsa_rsaElement {r : RsaNumbers} (hRange : r.areInRange = true)
    (hBits : Bytes.bitLength r.n < 2 ^ 1000) :
    readRsa (rsaElement r.n r.e).toBytes = .ok (rsa r.n r.e) := by
  obtain ⟨-, hLegible⟩ := legible_pair hRange hBits
  have hPublic : KeyBody.isRsaPublic r.n r.e = true := by
    obtain ⟨hn, -, ⟨he, hen, hOdd⟩, -, -⟩ := RsaNumbers.areInRange_iff.mp hRange
    simp only [KeyBody.isRsaPublic, Bool.and_eq_true, decide_eq_true_eq, beq_iff_eq]
    exact ⟨⟨⟨hn, he⟩, hen⟩, hOdd⟩
  rw [readRsa, rsaElement, hLegible.ofBytes?]
  change (Reading.expect (sequence _).sequence? >>= _) = _
  rw [hLegible.sequence?]
  change (Reading.expect (natural r.n).natural? >>= _) = _
  rw [natural?_natural]
  change (Reading.expect (natural r.e).natural? >>= _) = _
  rw [natural?_natural]
  change (Reading.require (KeyBody.isRsaPublic r.n r.e) >>= _) = _
  rw [hPublic]
  rfl

/-- The bare pair of RSA numbers is no key of any algorithm, and is read as what it is. -/
theorem read_rsaElement {r : RsaNumbers} (hRange : r.areInRange = true)
    (hBits : Bytes.bitLength r.n < 2 ^ 1000) :
    read (rsaElement r.n r.e).toBytes = .ok (rsa r.n r.e) := by
  obtain ⟨-, hLegible⟩ := legible_pair hRange hBits
  have hAny : readAny (rsaElement r.n r.e).toBytes = .error .malformed := by
    have hAlgorithm : KeyAlgorithm.ofElement? (natural r.n) = none := by
      rw [KeyAlgorithm.ofElement?, algorithm?, sequence?_of_ne tag_natural_ne]
      rfl
    rw [readAny, rsaElement, hLegible.ofBytes?]
    change (Reading.expect (sequence _).sequence? >>= _) = _
    rw [hLegible.sequence?]
    change (Reading.expect (KeyAlgorithm.ofElement? (natural r.n)) >>= fun algorithm =>
      Reading.expect (natural r.e).bits? >>= fun key => readOctets key algorithm) = _
    rw [hAlgorithm]
    rfl
  rw [read, hAny]
  exact readRsa_rsaElement hRange hBits

theorem toBody_rsa {n e : Nat} (hSize : 2 ^ 1023 ≤ n) :
    (rsa n e).toBody = .ok (.rsa ⟨n, e, none⟩) := by
  have hChecks : KeyBody.checkRsaSize n = .ok () := KeyBody.checkRsaSize_eq_ok_iff.mpr hSize
  rw [toBody, hChecks]
  rfl

/-- What is written for a key and for its public half is the same, and is read back as the half. -/
def ReadsBack (body : KeyBody) : Prop :=
  ∃ e key, element body = .ok e ∧ element body.publicHalf = .ok e ∧ read e.toBytes = .ok key ∧
    key.toBody = .ok body.publicHalf

theorem readsBack_rsa {k : RsaKey} (hAccepted : (KeyBody.rsa k).Accepted)
    (hBits : (KeyBody.rsa k).bits < 2 ^ 1000) : ReadsBack (.rsa k) := by
  obtain ⟨r, hNumbers, hRange, hSound, -, hSize⟩ := KeyBody.accepted_rsa_iff.mp hAccepted
  obtain rfl := RsaKey.toKey_of_numbers? hNumbers
  have hPair : Within 1000 (rsaElement r.n r.e) :=
    within_ofItems (m := 1) (by decide) (by decide) (legible_pair hRange hBits).1 (by simp)
  have hKey : Within 1004 (bits (rsaElement r.n r.e).toBytes) :=
    (within_bits (by decide) (by decide) hPair).mono (by decide)
  refine ⟨_, rsa r.n r.e, rfl, rfl, read_of_readAny ?_, toBody_rsa hSize⟩
  exact (readAny_wrap names_rsa hKey).trans (readRsa_rsaElement hRange hBits)

theorem readsBack_dsa {k : DsaKey} (hAccepted : (KeyBody.dsa k).Accepted)
    (hBits : (KeyBody.dsa k).bits < 2 ^ 1000) : ReadsBack (.dsa k) := by
  obtain ⟨d, y, x, rfl, hChecks, hMatches, hAll⟩ := KeyBody.accepted_dsa_naturals hAccepted hBits
  simp only [List.forall_mem_cons] at hAll
  obtain ⟨-, hp, hq, hg, hy, -⟩ := hAll
  have hNames : Names Identifier.dsa [KeyAlgorithm.domainElement d] (.dsa d) :=
    names_dsa (by simp only [List.forall_mem_cons]; exact ⟨hp, hq, hg, nofun⟩)
  have hKey : Within 1004 (bits (natural y).toBytes) :=
    (within_bits (by decide) (by decide) (within_natural hy)).mono (by decide)
  have hDomain : ∀ x', DsaKey.domain ⟨d.p, d.q, d.g, y, x'⟩ = .ok d := fun x' => by
    rw [DsaKey.domain, if_pos hMatches.2.2, if_neg (show ¬(d.q : Int) < 0 by omega)]
    rfl
  refine ⟨wrap Identifier.dsa [KeyAlgorithm.domainElement d] (natural y).toBytes, dsa d y, ?_, ?_,
    read_of_readAny ?_, ?_⟩
  · rw [element, hDomain]
    rfl
  · rw [KeyBody.publicHalf, element, hDomain]
    rfl
  · rw [readAny_wrap hNames hKey, readOctets, readNatural_natural hy]
    rfl
  · rw [toBody, KeyBody.ofDsaNumbers, hChecks]
    rfl

theorem readsBack_ecdsa {k : EcdsaKey} (hAccepted : (KeyBody.ecdsa k).Accepted) :
    ReadsBack (.ecdsa k) := by
  obtain ⟨scalar, -, hOn, -⟩ := KeyBody.accepted_ecdsa_iff.mp hAccepted
  obtain ⟨c, point, _⟩ := k
  have hKey : Within 1004 (bits (c.curve.uncompressed point)) :=
    (PrivateKey.within_point c point).mono (by decide)
  have hPoint : c.curve.readPoint? (c.curve.uncompressed point) = some point :=
    Curve.readUncompressed?_eq_some_iff.mpr ⟨hOn, rfl⟩
  refine ⟨_, elliptic c.curve point, rfl, rfl, read_of_readAny ?_, ?_⟩
  · change readAny (wrap Identifier.ellipticCurve [identifier c.curve.arcs]
      (c.curve.uncompressed point)).toBytes = _
    rw [readAny_wrap (names_elliptic c) hKey, readOctets, Domain.curve_identifier]
    change (Reading.expect (c.curve.readPoint? (c.curve.uncompressed point)) >>= _) = _
    rw [hPoint]
    rfl
  · cases c <;> rfl

theorem readsBack_ed25519 {k : Ed25519Key} (hAccepted : (KeyBody.ed25519 k).Accepted) :
    ReadsBack (.ed25519 k) := by
  obtain ⟨seed, -, -, hDerived⟩ := KeyBody.accepted_ed25519_iff.mp hAccepted
  have hLength : k.publicKey.length = 32 := hDerived ▸ Edwards.length_publicKey seed
  have hKey : Within 8 (bits k.publicKey) := by
    rw [Within, bits, List.length_cons, hLength]
    decide
  refine ⟨_, ed25519 k.publicKey, rfl, rfl, read_of_readAny ?_, rfl⟩
  rw [readAny_wrap names_ed25519 (hKey.mono (by decide)), readOctets, hLength]
  rfl

theorem read_element (hAccepted : body.Accepted) (hBits : body.bits < 2 ^ 1000) :
    ReadsBack body := by
  cases body with
  | rsa k => exact readsBack_rsa hAccepted hBits
  | dsa k => exact readsBack_dsa hAccepted hBits
  | ecdsa k => exact readsBack_ecdsa hAccepted
  | ed25519 k => exact readsBack_ed25519 hAccepted

end PublicKey

end Der
end SshKeys
