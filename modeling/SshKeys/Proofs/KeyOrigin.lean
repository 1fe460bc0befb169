import SshKeys.Key.Construct
import SshKeys.Key.Generation
import SshKeys.Proofs.LoadedKey
/-!
# Where keys come from

Every reader checks the public numbers of the key it gives, alone or together with the private ones,
and so does the making of new keys; the public half of a key is therefore one that the reader of
blobs accepts, whatever the key came from, but for RSA keys from DER with a public exponent that is
not below the modulus.
-/
namespace SshKeys

theorem Fallible.exists_of_mem_mapM {α β ε : Type} {f : α → Except ε β} {items : List α}
    {results : List β} {b : β} (h : items.mapM f = .ok results) (hb : b ∈ results) :
    ∃ a ∈ items, f a = .ok b := by
  induction items generalizing results with
  | nil =>
    cases h
    cases hb
  | cons item items ih =>
    simp only [List.mapM_cons, Fallible.bind_eq_ok_iff, Fallible.pure_eq_ok_iff] at h
    obtain ⟨first, hFirst, others, hOthers, rfl⟩ := h
    rcases List.mem_cons.mp hb with rfl | hb
    · exact ⟨item, List.mem_cons_self, hFirst⟩
    · obtain ⟨a, ha, hResult⟩ := ih hOthers hb
      exact ⟨a, List.mem_cons_of_mem _ ha, hResult⟩

theorem KeyBody.PublicAccepted.publicHalf {body : KeyBody} (h : body.PublicAccepted) :
    body.publicHalf = body := by
  cases body with
  | rsa k =>
    obtain ⟨n, e, secret⟩ := k
    cases h.1
    rfl
  | dsa k =>
    obtain ⟨p, q, g, y, x⟩ := k
    cases h.1
    rfl
  | ecdsa k =>
    obtain ⟨curve, point, scalar⟩ := k
    cases h.1
    rfl
  | ed25519 k =>
    obtain ⟨publicKey, seed⟩ := k
    cases h.1
    rfl

/-- RSA keys whose public exponent is not below the modulus. DER may hold them, blobs may not. -/
def KeyBody.HasWideExponent (body : KeyBody) : Prop :=
  ∃ k : RsaKey, body = .rsa k ∧ 2 ^ 1023 ≤ k.n ∧ k.n ≤ k.e

theorem KeyBody.publicHalf_publicAccepted {body : KeyBody}
    (h : body.Accepted ∨ body.HeldOnlyInDer) :
    body.publicHalf.PublicAccepted ∨ body.HasWideExponent := by
  rcases h with hAccepted | ⟨parts, x, rfl, -, hChecks, -⟩ | ⟨r, rfl, hSound, hSize, -⟩
  · exact .inl hAccepted.publicHalf
  · refine .inl ⟨rfl, ?_⟩
    rw [ofDsaNumbers, Fallible.bind_eq_ok_iff]
    exact ⟨(), hChecks, rfl⟩
  · by_cases hWide : r.n ≤ r.e
    · exact .inr ⟨r.toKey, rfl, hSize, hWide⟩
    · obtain ⟨-, ⟨hOdd, hOne⟩, -⟩ := RsaNumbers.areSound_iff.mp hSound
      have hPower : 2 ^ 2 ≤ r.n := (Nat.pow_le_pow_right (by decide) (by decide)).trans hSize
      have hPublic : isRsaPublic r.n r.e = true := by
        simp only [isRsaPublic, Bool.and_eq_true, decide_eq_true_eq, beq_iff_eq]
        omega
      refine .inl ⟨rfl, ?_⟩
      change ofRsaNumbers r.e r.n = .ok (.rsa ⟨r.n, r.e, none⟩)
      simp only [ofRsaNumbers, Fallible.bind_eq_ok_iff, checkRsaSize_eq_ok_iff,
        Fallible.throwIf_eq_ok_iff, Fallible.throwUnless_eq_ok_iff, Fallible.pure_eq_ok_iff]
      exact ⟨(), hSize, by omega, hPublic, rfl⟩

namespace Generator

variable {body : KeyBody} {j j' : Journal}

theorem rsaKey_publicAccepted {bits : Nat} (h : rsaKey bits j = .ok body j') :
    body.publicHalf.PublicAccepted := by
  simp only [rsaKey, Stateful.bind_eq_ok_iff, Action.ofExcept_eq_ok_iff,
    Stateful.pure_eq_ok_iff] at h
  obtain ⟨p, _, -, q, _, -, _, _, -, _, _, -, u, _, ⟨hSize, -⟩, rfl, -⟩ := h
  have hModulus : 2 ^ 1023 ≤ p * q := KeyBody.checkRsaSize_eq_ok_iff.mp hSize
  have hPower : 2 ^ 17 ≤ p * q := (Nat.pow_le_pow_right (by decide) (by decide)).trans hModulus
  have hExponent : rsaExponent < p * q := lt_of_lt_of_le (by decide) hPower
  have hLeast : 3 ≤ rsaExponent := by decide
  refine ⟨rfl, ?_⟩
  simp only [KeyBody.ofRsaNumbers, Fallible.bind_eq_ok_iff, Fallible.throwIf_eq_ok_iff,
    Fallible.throwUnless_eq_ok_iff, Fallible.pure_eq_ok_iff]
  refine ⟨u, hSize, by omega, ?_, rfl⟩
  simp only [KeyBody.isRsaPublic, Int.toNat_natCast, Bool.and_eq_true, decide_eq_true_eq]
  exact ⟨⟨⟨by omega, hLeast⟩, hExponent⟩, rfl⟩

theorem dsaKey_publicAccepted {bits : Nat} (h : dsaKey bits j = .ok body j') :
    body.publicHalf.PublicAccepted := by
  simp only [dsaKey, Stateful.bind_eq_ok_iff, Action.ofExcept_eq_ok_iff,
    Stateful.pure_eq_ok_iff] at h
  obtain ⟨_, _, -, _, _, -, _, _, -, _, _, -, u, _, ⟨hChecks, -⟩, rfl, -⟩ := h
  refine ⟨rfl, ?_⟩
  rw [KeyBody.ofDsaNumbers, Fallible.bind_eq_ok_iff]
  exact ⟨u, hChecks, rfl⟩

theorem ecdsaKey_publicAccepted {curve : NistCurve} (h : ecdsaKey curve j = .ok body j') :
    body.publicHalf.PublicAccepted := by
  simp only [ecdsaKey, Stateful.bind_eq_ok_iff, Stateful.pure_eq_ok_iff] at h
  obtain ⟨scalar, _, -, point, _, hPoint, rfl, -⟩ := h
  cases hDerived : curve.curve.publicPoint? scalar with
  | none =>
    rw [hDerived] at hPoint
    cases hPoint
  | some derived =>
    rw [hDerived, found, Stateful.pure_eq_ok_iff] at hPoint
    rw [← hPoint.1]
    exact ⟨rfl, curve.contains_baseMultiple? (Curve.publicPoint?_eq_some_iff.mp hDerived).2⟩

theorem ed25519Key_publicAccepted (h : ed25519Key j = .ok body j') :
    body.publicHalf.PublicAccepted := by
  simp only [ed25519Key, Stateful.bind_eq_ok_iff, Stateful.pure_eq_ok_iff] at h
  obtain ⟨seed, _, -, rfl, -⟩ := h
  exact ⟨rfl, Edwards.length_publicKey seed⟩

theorem run_publicAccepted {parameters : List (String × Datum)} {g : Generator}
    (h : g.run parameters j = .ok body j') : body.publicHalf.PublicAccepted := by
  cases g with
  | rsa =>
    cases hBits : integer? ((parameters.lookup "bits").getD (.foreign (.integer 3072))) with
    | none =>
      simp only [run, hBits] at h
      cases h
    | some n =>
      simp only [run, hBits, Stateful.throwIf_eq_ok_iff] at h
      exact rsaKey_publicAccepted h.2
  | dsa =>
    cases hBits : integer? ((parameters.lookup "bits").getD (.foreign (.integer 1024))) with
    | none =>
      simp only [run, hBits] at h
      cases h
    | some n =>
      simp only [run, hBits, Stateful.throwUnless_eq_ok_iff, Stateful.throwIf_eq_ok_iff] at h
      exact dsaKey_publicAccepted h.2.2
  | ecdsa =>
    -- the curve goes by the size alone: without one, a curve that is named is refused
    have ofDefault (hDefault : (do
        if (parameters.lookup "curve").isSome then throw (Error.misuse .type)
        ecdsaKey .p256 : Action KeyBody) j = .ok body j') : body.publicHalf.PublicAccepted := by
      rw [Stateful.throwIf_eq_ok_iff] at hDefault
      exact ecdsaKey_publicAccepted hDefault.2
    have ofBits {bits : Datum} (hGiven : (do
        ecdsaKey (← Action.ofExcept (curveFor bits)) : Action KeyBody) j = .ok body j') :
        body.publicHalf.PublicAccepted := by
      obtain ⟨curve, _, -, h⟩ := Stateful.bind_eq_ok_iff.mp hGiven
      exact ecdsaKey_publicAccepted h
    cases hBits : parameters.lookup "bits" with
    | none =>
      simp only [run, hBits] at h
      exact ofDefault h
    | some bits =>
      simp only [run, hBits] at h
      cases bits with
      | text s => exact ofBits h
      | bytes bs => exact ofBits h
      | foreign value =>
        cases value with
        | nothing => exact ofDefault h
        | _ => exact ofBits h
  | ecdsaOver curve => exact ecdsaKey_publicAccepted h
  | ed25519 => exact ed25519Key_publicAccepted h

end Generator

namespace Key

variable {k : Key} {j j' : Journal}

theorem publicAccepted_of_generate {algorithm comment : Option String}
    {parameters : List (String × Datum)}
    (h : generate algorithm parameters comment j = .ok k j') :
    k.body.publicHalf.PublicAccepted := by
  cases algorithm with
  | none => cases h
  | some name =>
    cases hName : Generator.ofName? (String.ofList (Text.lower name.toList)) with
    | none =>
      simp only [generate, hName] at h
      cases h
    | some generator =>
      simp only [generate, hName, Stateful.throwUnless_eq_ok_iff, Stateful.bind_eq_ok_iff,
        Stateful.pure_eq_ok_iff] at h
      obtain ⟨-, body, _, hBody, _, _, -, rfl, -⟩ := h
      exact Generator.run_publicAccepted hBody

theorem publicAccepted_of_ofTypedData {keyType : Option String} {data : Datum}
    (h : ofTypedData keyType data = .ok k) : k.body.PublicAccepted := by
  have not_unknown {name : Option String}
      (h : (do throw (.unknownKeyType name (← data.size)) : Except Error Key) = .ok k) : False := by
    obtain ⟨_, -, h⟩ := Fallible.bind_eq_ok_iff.mp h
    cases h
  cases keyType with
  | none => exact (not_unknown h).elim
  | some name =>
    simp only [ofTypedData] at h
    split at h
    · obtain ⟨_, -, h⟩ := Fallible.bind_eq_ok_iff.mp h
      exact publicAccepted_of_ofTypedBlob h
    · exact (not_unknown h).elim

theorem publicAccepted_of_construct {c : KeyClass} {data : Option Bytes}
    (h : construct c data = .ok k) : k.body.PublicAccepted := by
  cases data with
  | none => cases h
  | some bs =>
    simp only [construct, Fallible.bind_eq_ok_iff, Fallible.pure_eq_ok_iff,
      Packet.parse_eq_ok_iff] at h
    obtain ⟨body, ⟨_, hRead⟩, rfl⟩ := h
    exact (KeyBody.readPublic_sound hRead).2.1

theorem publicAccepted_of_constructFrom {c : KeyClass} {read : Int} {left : Nat} {p p' : Packet}
    (h : constructFrom c read p = .ok (k, left) p') : k.body.PublicAccepted := by
  simp only [constructFrom, Stateful.bind_eq_ok_iff, Stateful.pure_eq_ok_iff,
    Prod.mk.injEq] at h
  obtain ⟨_, _, -, body, _, hRead, _, _, -, ⟨rfl, -⟩, -⟩ := h
  exact (KeyBody.readPublic_sound hRead).2.1

end Key

theorem Ed25519Key.length_publicKey_of_ofParts {seed publicKey : Option Bytes} {parts : Ed25519Key}
    (hSize : ∀ bs ∈ publicKey, bs.length = 32) (h : ofParts seed publicKey = .ok parts) :
    parts.publicKey.length = 32 := by
  cases publicKey with
  | some publicKey =>
    cases h
    exact hSize publicKey rfl
  | none =>
    cases seed with
    | none => cases h
    | some seed =>
      cases h
      exact Edwards.length_publicKey seed

/-- The keys that can be had: those that a reader gives, those that are put together out of numbers
that have been checked already, new ones, and any of these under another comment. -/
inductive Key.Obtained : Key → Prop
  | blob {blob : Bytes} {k : Key} (h : Key.ofBlob blob = .ok k) : Obtained k
  | typedData {keyType : Option String} {data : Datum} {k : Key}
      (h : Key.ofTypedData keyType data = .ok k) : Obtained k
  | line {line : Datum} {k : Key} (h : Key.ofLine line = .ok k) : Obtained k
  | constructed {c : KeyClass} {data : Option Bytes} {k : Key}
      (h : Key.construct c data = .ok k) : Obtained k
  | constructedFrom {c : KeyClass} {read : Int} {p p' : Packet} {k : Key} {left : Nat}
      (h : Key.constructFrom c read p = .ok (k, left) p') : Obtained k
  | entry {p p' : Packet} {k : Key} (h : Key.readEntry p = .ok k p') : Obtained k
  | fileEntry {data passphrase : Datum} {keys : List Key} {j j' : Journal} {k : Key}
      (h : Envelope.decodeKeys data passphrase j = .ok keys j') (hk : k ∈ keys) : Obtained k
  | filePublic {e : Envelope} {keys : List Key} {k : Key} (h : e.publicKeys = .ok keys)
      (hk : k ∈ keys) : Obtained k
  | privatePem {data passphrase : Datum} {j j' : Journal} {k : Key}
      (h : PemBlock.loadPrivate data passphrase j = .ok k j') : Obtained k
  | publicPem {data : Datum} {comment : Option String} {k : Key}
      (h : PemBlock.loadPublic data comment = .ok k) : Obtained k
  | heldPrivate {secret : Der.PrivateKey} {body : KeyBody} (hSound : secret.Sound)
      (h : secret.toBody = .ok body) : Obtained { body }
  | heldPublic {given : Der.PublicKey} {body : KeyBody} (hSound : given.Sound)
      (h : given.toBody = .ok body) : Obtained { body }
  | ed25519Parts {seed publicKey : Option Bytes} {parts : Ed25519Key}
      (hSize : ∀ bs ∈ publicKey, bs.length = 32)
      (h : Ed25519Key.ofParts seed publicKey = .ok parts) : Obtained { body := .ed25519 parts }
  | loaded {data passphrase : Datum} {keys : List Key} {j j' : Journal} {k : Key}
      (h : KeyFile.loadPrivateKeys data passphrase j = .ok keys j') (hk : k ∈ keys) : Obtained k
  | parsedPrivate {data passphrase : Datum} {j j' : Journal} {k : Key}
      (h : KeyFile.parsePrivateKey data passphrase j = .ok k j') : Obtained k
  | parsedPublic {data : Datum} {k : Key} (h : KeyFile.parsePublicKey data = .ok k) : Obtained k
  | parsed {data passphrase : Datum} {j j' : Journal} {k : Key}
      (h : KeyFile.parse data passphrase j = .ok k j') : Obtained k
  | generated {algorithm comment : Option String} {parameters : List (String × Datum)}
      {j j' : Journal} {k : Key}
      (h : Key.generate algorithm parameters comment j = .ok k j') : Obtained k
  | commented {k : Key} (h : Obtained k) (comment : Option String) : Obtained { k with comment }

theorem Key.Obtained.publicAccepted {k : Key} (h : k.Obtained) :
    k.body.publicHalf.PublicAccepted ∨ k.body.HasWideExponent := by
  have ofPublic {body : KeyBody} (h : body.PublicAccepted) :
      body.publicHalf.PublicAccepted ∨ body.HasWideExponent := by
    rw [h.publicHalf]
    exact .inl h
  have ofLoaded {key : Key} (h : key.Loaded) :
      key.body.publicHalf.PublicAccepted ∨ key.body.HasWideExponent :=
    KeyBody.publicHalf_publicAccepted h.body
  induction h with
  | blob h => exact ofPublic (Key.ofBlob_eq_ok_iff.mp h).2.1
  | typedData h => exact ofPublic (publicAccepted_of_ofTypedData h)
  | line h => exact ofPublic (publicAccepted_of_ofLine h)
  | constructed h => exact ofPublic (publicAccepted_of_construct h)
  | constructedFrom h => exact ofPublic (publicAccepted_of_constructFrom h)
  | entry h =>
    simp only [readEntry, Stateful.bind_eq_ok_iff, Stateful.pure_eq_ok_iff] at h
    obtain ⟨body, _, hRead, rfl, -⟩ := h
    exact .inl (KeyBody.readEntry_eq_ok_iff.mp hRead).1.publicHalf
  | fileEntry h hk => exact .inl (Envelope.decodeKeys_stored h _ hk).body.publicHalf
  | filePublic h hk =>
    obtain ⟨blob, -, hBlob⟩ := Fallible.exists_of_mem_mapM h hk
    exact ofPublic (Key.ofBlob_eq_ok_iff.mp hBlob).2.1
  | privatePem h => exact ofLoaded (PemBlock.loadPrivate_loaded h)
  | publicPem h => exact ofPublic (PemBlock.publicAccepted_of_loadPublic h)
  | heldPrivate hSound h => exact KeyBody.publicHalf_publicAccepted (hSound.accepted h)
  | heldPublic hSound h => exact ofPublic (hSound.publicAccepted h)
  | ed25519Parts hSize h =>
    have hLength := Ed25519Key.length_publicKey_of_ofParts hSize h
    exact .inl ⟨rfl, hLength⟩
  | loaded h hk =>
    obtain ⟨_, _, -, hKeys⟩ := Stateful.bind_eq_ok_iff.mp h
    exact ofLoaded (KeyFile.loadFrom_loaded hKeys _ hk)
  | parsedPrivate h => exact ofLoaded (KeyFile.parsePrivateKey_loaded h)
  | parsedPublic h => exact ofPublic (KeyFile.publicAccepted_of_parsePublicKey h)
  | parsed h =>
    rcases KeyFile.reader_of_parse h with hPublic | ⟨i, hPrivate⟩
    · exact ofPublic (KeyFile.publicAccepted_of_parsePublicKey hPublic)
    · exact ofLoaded (KeyFile.parsePrivateKey_loaded hPrivate)
  | generated h => exact .inl (publicAccepted_of_generate h)
  | commented _ _ ih => exact ih

end SshKeys
