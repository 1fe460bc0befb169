import SshKeys.Proofs.LoadedKey
import SshKeys.Proofs.PemRoundTrip
import SshKeys.Proofs.Protection
/-!
# Keys from any container written as key files

A private key that was loaded is got back from the key file that it is written as, within the limit
of readers. The exception are keys from DER that entries may not hold: DSA keys whose numbers do not
match, and RSA keys with an exponent out of range. Loading lets them pass, but the reader of key
files does not.
-/
namespace SshKeys

namespace KeyBody

variable {k : DsaKey} {x : Int} {p p' : Packet}

theorem ofDsaEntry_error (hChecks : checkDsa k.p k.q k.g k.y = .ok ()) (hOther : ¬MatchesDsa k x) :
    ∃ e, ofDsaEntry k.p k.q k.g k.y x = .error e ∧ e.kind = .reported .format := by
  rw [ofDsaEntry, hChecks, Fallible.bind_ok]
  by_cases hRange : 0 < x ∧ x < k.q
  · rw [if_pos hRange]
    by_cases hDerived : Int.ofNat (Modular.power k.g.toNat x.toNat k.p.toNat) = k.y
    · have hSize : ¬dsaModulusSizes.contains (TwosComplement.bitLength k.p) = true := fun hSize =>
        hOther ⟨hRange, hDerived, hSize⟩
      rw [if_neg (not_not_intro hDerived), if_neg hSize]
      exact ⟨_, rfl, rfl⟩
    · rw [if_pos hDerived]
      exact ⟨_, rfl, rfl⟩
  · rw [if_neg hRange]
    exact ⟨_, rfl, rfl⟩

theorem ofRsaEntry_error {r : RsaNumbers} (hSound : r.areSound = true) (hSize : 2 ^ 1023 ≤ r.n)
    (hExponents : r.d = 1 ∨ r.n ≤ r.d ∨ r.n ≤ r.e) :
    ofRsaEntry r.n r.e r.d r.iqmp r.p r.q = .error .rsaPrivateInvalid := by
  obtain ⟨hp, hq, hProduct⟩ := RsaNumbers.factors_of_areSound hSound
  obtain ⟨-, -, -, ⟨hdmp, hdmq⟩, -⟩ := RsaNumbers.areSound_iff.mp hSound
  obtain ⟨hPositive, -⟩ := RsaNumbers.odd_parts_of_areSound hSound
  have hChecks : checkRsaSize r.n = .ok () := checkRsaSize_eq_ok_iff.mpr hSize
  have hModulus : ¬(r.p : Int) * r.q ≠ r.n := not_not_intro (by exact_mod_cast hProduct)
  rw [ofRsaEntry, hChecks, Fallible.bind_ok, if_neg (by omega), if_neg hModulus]
  by_cases hOne : (r.d : Int) ≤ 1
  · rw [if_pos hOne]
    rfl
  · have hRange : ¬r.areInRange = true := by
      rw [RsaNumbers.areInRange_iff_of_areSound hSound]
      omega
    rw [if_neg hOne, if_neg (by omega)]
    simp only [Int.toNat_natCast, ← hdmp, ← hdmq]
    rw [if_neg hRange]
    rfl

theorem readEntry_mismatched (hChecks : checkDsa k.p k.q k.g k.y = .ok ())
    (hOther : ¬MatchesDsa k x) (hFields : p.FieldsAt (Utf8.encode (dsa k).name ::
      [k.p, k.q, k.g, k.y, x].map Wire.integerBytes) p') :
    ∃ e, readEntry p = .error e p' ∧ e.kind = .reported .format := by
  simp only [List.map_cons, List.map_nil, Packet.fieldsAt_cons_iff, Packet.fieldsAt_nil_iff]
    at hFields
  obtain ⟨p₁, hTag, p₂, hP, p₃, hQ, p₄, hG, p₅, hY, p₆, hX, rfl⟩ := hFields
  obtain ⟨e, hError, hKind⟩ := ofDsaEntry_error hChecks hOther
  refine ⟨e, ?_, hKind⟩
  rw [readEntry_of_name (Packet.readText_eq_ok_iff.mpr hTag), keyClass]
  simp only [readPrivateFields]
  rw [Stateful.bind_ok (Packet.readInteger_of_advance hP),
    Stateful.bind_ok (Packet.readInteger_of_advance hQ),
    Stateful.bind_ok (Packet.readInteger_of_advance hG),
    Stateful.bind_ok (Packet.readInteger_of_advance hY),
    Stateful.bind_ok (Packet.readInteger_of_advance hX), hError]
  rfl

theorem readEntry_outOfRange {r : RsaNumbers} (hSound : r.areSound = true) (hSize : 2 ^ 1023 ≤ r.n)
    (hExponents : r.d = 1 ∨ r.n ≤ r.d ∨ r.n ≤ r.e)
    (hFields : p.FieldsAt (Utf8.encode (rsa r.toKey).name ::
      [(r.n : Int), r.e, r.d, r.iqmp, r.p, r.q].map Wire.integerBytes) p') :
    readEntry p = .error .rsaPrivateInvalid p' := by
  simp only [List.map_cons, List.map_nil, Packet.fieldsAt_cons_iff, Packet.fieldsAt_nil_iff]
    at hFields
  obtain ⟨p₁, hTag, p₂, hN, p₃, hE, p₄, hD, p₅, hI, p₆, hP, p₇, hQ, rfl⟩ := hFields
  rw [readEntry_of_name (Packet.readText_eq_ok_iff.mpr hTag), keyClass]
  simp only [readPrivateFields]
  rw [Stateful.bind_ok (Packet.readInteger_of_advance hN),
    Stateful.bind_ok (Packet.readInteger_of_advance hE),
    Stateful.bind_ok (Packet.readInteger_of_advance hD),
    Stateful.bind_ok (Packet.readInteger_of_advance hI),
    Stateful.bind_ok (Packet.readInteger_of_advance hP),
    Stateful.bind_ok (Packet.readInteger_of_advance hQ),
    ofRsaEntry_error hSound hSize hExponents]
  rfl

/-- The entry of a key that only DER holds is refused. -/
theorem readEntry_heldOnlyInDer {body : KeyBody} (hBody : body.HeldOnlyInDer) {fields : List Bytes}
    (hPrivate : body.privateFields? = some fields)
    (hFields : p.FieldsAt (Utf8.encode body.name :: fields) p') :
    ∃ e, readEntry p = .error e p' ∧ e.kind = .reported .format := by
  rcases hBody with ⟨k, x, rfl, hx, hChecks, hOther⟩ | ⟨r, rfl, hSound, hSize, hExponents⟩
  · rw [privateFields?, hx] at hPrivate
    obtain rfl := Option.some.inj hPrivate
    exact readEntry_mismatched hChecks hOther hFields
  · obtain rfl := Option.some.inj hPrivate
    exact ⟨_, readEntry_outOfRange hSound hSize hExponents hFields, rfl⟩

end KeyBody

namespace PrivateSection

variable {k : Key} {blockSize check : Nat}

theorem readKeys_heldOnlyInDer {p : Packet} {rest : Bytes} (hBody : k.body.HeldOnlyInDer)
    (hTakes : ∀ c ∈ fieldsOf k, Packet.Takes p.limit c)
    (hPending : p.pending = (fieldsOf k).flatMap Wire.string ++ rest) (blob : Bytes) :
    ∃ e p', readKeys [] [blob] p = .error e p' ∧ e.kind = .reported .format := by
  obtain ⟨fields, hPrivate⟩ := Option.isSome_iff_exists.mp
    ((KeyBody.isSome_privateFields? _).trans (KeyBody.canSign_of_heldOnlyInDer hBody))
  have hWritten : fieldsOf k =
      (Utf8.encode k.body.name :: fields) ++ [Utf8.encode k.commentText] := by
    rw [fieldsOf, hPrivate]
    rfl
  rw [hWritten, List.forall_mem_append] at hTakes
  rw [hWritten, List.flatMap_append, List.append_assoc] at hPending
  obtain ⟨e, hEntry, hKind⟩ := KeyBody.readEntry_heldOnlyInDer hBody hPrivate
    ⟨hTakes.1, Packet.advance_past hPending⟩
  have hKey : readKey 0 blob p = .error e _ := Stateful.bind_error (Stateful.bind_error hEntry)
  exact ⟨e, _, Stateful.bind_error hKey, hKind⟩

theorem ofBytes_heldOnlyInDer (hBody : k.body.HeldOnlyInDer)
    (hSize : size [k] blockSize ≤ Wire.fieldLimit) (hCheck : check < 2 ^ 32) (blob : Bytes) :
    ∃ e, ofBytes (bytesOf [k] blockSize check) [blob] = .error e ∧ e.kind = .reported .format := by
  have hTakes : ∀ c ∈ fieldsOf k, Packet.Takes Wire.fieldLimit c := by
    intro c hc
    have hMember : c ∈ [k].flatMap fieldsOf := by
      rwa [List.flatMap_singleton]
    exact Packet.takes_of_length_le ((length_le_size hMember blockSize).trans hSize)
  obtain ⟨padding, hPadding⟩ : ∃ padding, bytesOf [k] blockSize check =
      (Wire.uint32 check ++ Wire.uint32 check) ++
        ((fieldsOf k).flatMap Wire.string ++ padding) := by
    rw [bytesOf, List.flatMap_singleton]
    simp only [List.append_assoc]
    exact ⟨_, rfl⟩
  obtain ⟨p, hAt, hPending⟩ : ∃ p, (Packet.ofBytes (bytesOf [k] blockSize check)).Advance
      (Wire.uint32 check ++ Wire.uint32 check) p ∧
        p.pending = (fieldsOf k).flatMap Wire.string ++ padding :=
    ⟨_, Packet.advance_past hPadding, rfl⟩
  have hLimit : p.limit = Wire.fieldLimit := hAt.limit
  obtain ⟨p₁, hFirst, hSecond⟩ := Packet.advance_append_iff.mp hAt
  obtain ⟨e, p', hKeys, hKind⟩ :=
    readKeys_heldOnlyInDer hBody (hLimit.symm ▸ hTakes) hPending blob
  have hRead : read [blob] (Packet.ofBytes (bytesOf [k] blockSize check)) = .error e p' := by
    rw [read, Stateful.bind_ok (Packet.readUInt32_eq_ok_iff.mpr ⟨hCheck, hFirst⟩),
      Stateful.bind_ok (Packet.readUInt32_eq_ok_iff.mpr ⟨hCheck, hSecond⟩),
      if_neg (not_not_intro rfl)]
    exact Stateful.bind_error hKeys
  exact ⟨e, Packet.parse_error hRead, hKind⟩

end PrivateSection

namespace Envelope

open PrivateSection (bytesOf fieldsOf size)

variable {keys : List Key} {key : Key} {passphrase : Datum} {cipherName : Option String}
  {rounds : Option Int} {suite : CipherSuite} {e : Envelope} {data : Bytes}

namespace Wraps

theorem unlock_yields (h : Wraps keys passphrase suite e) (hRead : ofBytes data = .ok e)
    (hSection : ∀ check < 2 ^ 32, ∃ s, PrivateSection.ofBytes (bytesOf keys suite.blockSize check)
      (keys.map Key.blob) = .ok s ∧ s.entries = keys) :
    (unlock data passphrase).Yields keys := by
  obtain ⟨check, hCheck, hOpens⟩ := h.opens
  obtain ⟨s, hFound, rfl⟩ := hSection check hCheck
  rw [h.blobs, hFound] at hOpens
  exact Action.Yields.bind (load_ok hRead) (Action.Yields.bind hOpens (Action.yields_pure _))

theorem unlock_fails {kind : ErrorKind} (h : Wraps keys passphrase suite e)
    (hRead : ofBytes data = .ok e) (hSection : ∀ check < 2 ^ 32, ∃ err,
      PrivateSection.ofBytes (bytesOf keys suite.blockSize check) (keys.map Key.blob) = .error err ∧
        err.kind = kind) : (unlock data passphrase).Fails (·.kind = kind) := by
  obtain ⟨check, hCheck, hOpens⟩ := h.opens
  obtain ⟨err, hFound, hKind⟩ := hSection check hCheck
  rw [h.blobs, hFound] at hOpens
  have hDecrypt : (e.decrypt passphrase).Fails (·.kind = kind) := fun i => by
    obtain ⟨i', hOpen⟩ := hOpens i
    exact ⟨err, i', hOpen, hKind⟩
  exact Action.Yields.bind_fails (load_ok hRead) hDecrypt.bind

end Wraps
end Envelope

namespace KeyFile

open PrivateSection (fieldsOf size)

variable {data given passphrase : Datum} {key : Key} {cipherName : Option String}
  {rounds : Option Int} {suite : CipherSuite} {i i' : Journal}

theorem serialize_openssh (hSigns : key.canSign = true) (j : Journal) :
    serialize key (some "openssh") passphrase cipherName rounds j =
      Envelope.encodeKeys [key] passphrase cipherName rounds j := by
  have hAllowed : ¬(Format.openssh.isPrivate = true ∧ (!key.canSign) = true) := by simp [hSigns]
  rw [show "openssh" = Format.openssh.name from rfl, serialize_eq, serializeAs, if_neg hAllowed]
  rfl

theorem serialize_wraps (hSigns : key.canSign = true)
    (hSettings : Envelope.Settings passphrase cipherName rounds suite)
    (hSize : size [key] suite.blockSize < 2 ^ 32) (j : Journal) :
    ∃ e data j', serialize key (some "openssh") passphrase cipherName rounds j =
      .ok (Armour.encode data) j' ∧ e.toBytes = .ok data ∧
        Envelope.Wraps [key] passphrase suite e := by
  have hPrivate := isSome_privateFields?_of_canSign hSigns
  have hFits : ∀ c ∈ [key].flatMap fieldsOf, Wire.fits c.length := by
    intro c hc
    have hField := PrivateSection.length_le_size hc suite.blockSize
    exact Wire.fits_iff.mpr (by omega)
  obtain ⟨e, j', hBuild, hWraps⟩ :=
    Envelope.build_ok (List.cons_ne_nil _ _) hPrivate hFits hSettings j
  obtain ⟨data, hData⟩ := hWraps.toBytes_ok hPrivate hSize
  refine ⟨e, data, j', ?_, hData, hWraps⟩
  rw [serialize_openssh hSigns, Envelope.encodeKeys, Stateful.bind_ok hBuild, hData]
  rfl

theorem serialize_refuses (hSigns : key.canSign = true)
    (hSettings : Envelope.Settings passphrase cipherName rounds suite)
    (hSize : ¬size [key] suite.blockSize < 2 ^ 32) (j : Journal) :
    ∃ j', serialize key (some "openssh") passphrase cipherName rounds j =
      .error (.misuse .width) j' := by
  have hPrivate := isSome_privateFields?_of_canSign hSigns
  rw [serialize_openssh hSigns, Envelope.encodeKeys]
  by_cases hFits : ∀ c ∈ [key].flatMap fieldsOf, Wire.fits c.length
  · obtain ⟨e, j', hBuild, hWraps⟩ :=
      Envelope.build_ok (List.cons_ne_nil _ _) hPrivate hFits hSettings j
    rw [Stateful.bind_ok hBuild, hWraps.toBytes_error hSize]
    exact ⟨j', rfl⟩
  · obtain ⟨j', hBuild⟩ := Envelope.build_error (List.cons_ne_nil _ _) hPrivate hFits hSettings j
    rw [Stateful.bind_error hBuild]
    exact ⟨j', rfl⟩

section Wrapped

variable {e : Envelope} {bytes : Bytes}

theorem parse_wraps_yields (hWraps : Envelope.Wraps [key] passphrase suite e)
    (hData : e.toBytes = .ok bytes) (hAccepted : key.body.Accepted ∧ key.comment.isSome = true)
    (hRoom : size [key] suite.blockSize ≤ Wire.fieldLimit) :
    (parse (.text (Armour.encode bytes)) passphrase).Yields key := by
  have hRead := ofBytes_of_wraps hWraps hData hAccepted.1.consistent.canSign hRoom
  refine parse_armour_yields hRead (name_of_wraps hWraps) (hWraps.unlock_yields hRead ?_)
  exact fun check hCheck =>
    PrivateSection.ofBytes_bytesOf (List.forall_mem_singleton.mpr hAccepted) hRoom hCheck

theorem parse_wraps_heldOnlyInDer (hWraps : Envelope.Wraps [key] passphrase suite e)
    (hData : e.toBytes = .ok bytes) (hBody : key.body.HeldOnlyInDer)
    (hRoom : size [key] suite.blockSize ≤ Wire.fieldLimit) :
    (parse (.text (Armour.encode bytes)) passphrase).Fails (·.kind = .reported .format) := by
  have hRead := ofBytes_of_wraps hWraps hData (KeyBody.canSign_of_heldOnlyInDer hBody) hRoom
  refine parse_armour_fails hRead (name_of_wraps hWraps) (hWraps.unlock_fails hRead ?_)
  exact fun check hCheck => PrivateSection.ofBytes_heldOnlyInDer hBody hRoom hCheck _

end Wrapped

/-- A key from a key file is got back from every key file that it is written as. -/
theorem parse_serialize_stored {keys : List Key}
    (hLoad : Envelope.decodeKeys data given i = .ok keys i') (hKey : key ∈ keys)
    (hSettings : Envelope.Settings passphrase cipherName rounds suite) (j : Journal) :
    ∃ text j', serialize key (some "openssh") passphrase cipherName rounds j = .ok text j' ∧
      (parse (.text text) passphrase).Yields key := by
  obtain ⟨hAccepted, hComment, hRooms⟩ := Envelope.decodeKeys_stored hLoad key hKey
  have hRoom := hRooms suite hSettings.mem_all
  obtain ⟨e, bytes, j', hWritten, hData, hWraps⟩ := serialize_wraps hAccepted.consistent.canSign
    hSettings (hRoom.trans_lt (by decide)) j
  exact ⟨_, j', hWritten, parse_wraps_yields hWraps hData ⟨hAccepted, hComment⟩ hRoom⟩

/-- A private key from any container is got back from the key file that it is written as, unless
its section is too long for readers or it is one of the keys that DER may hold and entries may not. -/
theorem parse_serialize_openssh (hLoad : parse data given i = .ok key i')
    (hSigns : key.canSign = true) (hSettings : Envelope.Settings passphrase cipherName rounds suite)
    (j : Journal) :
    if size [key] suite.blockSize < 2 ^ 32 then
      ∃ text j', serialize key (some "openssh") passphrase cipherName rounds j = .ok text j' ∧
        (size [key] suite.blockSize ≤ Wire.fieldLimit → ¬key.body.HeldOnlyInDer →
          (parse (.text text) passphrase).Yields key) ∧
        (size [key] suite.blockSize ≤ Wire.fieldLimit → key.body.HeldOnlyInDer →
          (parse (.text text) passphrase).Fails (·.kind = .reported .format)) ∧
        (Wire.fieldLimit < size [key] suite.blockSize →
          (parse (.text text) passphrase).Fails (·.kind = .reported .lengthOverflow))
    else
      ∃ j', serialize key (some "openssh") passphrase cipherName rounds j =
        .error (.misuse .width) j' := by
  have hLoaded := parse_loaded hLoad hSigns
  split
  · rename_i hSize
    obtain ⟨e, bytes, j', hWritten, hData, hWraps⟩ := serialize_wraps hSigns hSettings hSize j
    refine ⟨_, j', hWritten, fun hRoom hOther => ?_, fun hRoom hHeld => ?_, fun hLong => ?_⟩
    · exact parse_wraps_yields hWraps hData
        ⟨hLoaded.body.resolve_right hOther, hLoaded.comment⟩ hRoom
    · exact parse_wraps_heldOnlyInDer hWraps hData hHeld hRoom
    · exact parse_wraps_overflows hWraps hData hSigns hLong passphrase
  · rename_i hSize
    exact serialize_refuses hSigns hSettings hSize j

/-- The key of the smallest scalar, loaded from the form of its class. -/
theorem parse_serialize_openssh_p256 : ∃ data text i i' j',
    parse (.text data) (.text "") i =
      .ok ⟨.ecdsa ⟨.p256, Curve.secp256r1.base, some 1⟩, some ""⟩ i' ∧
    serialize ⟨.ecdsa ⟨.p256, Curve.secp256r1.base, some 1⟩, some ""⟩ (some "openssh")
      (.text "secret") none (some 7) ⟨[1, 2, 3], ⟨[], 0⟩, []⟩ = .ok text j' ∧
    (parse (.text text) (.text "secret")).Yields
      ⟨.ecdsa ⟨.p256, Curve.secp256r1.base, some 1⟩, some ""⟩ := by
  let key : Key := ⟨.ecdsa ⟨.p256, Curve.secp256r1.base, some 1⟩, some ""⟩
  let suite := CipherSuite.block "aes256-ctr" 32 .aes .ctr
  have hBits : key.bits < 2 ^ 1000 := Nat.lt_of_lt_of_le (show 256 < 2 ^ 9 by decide)
    (pow_le_pow_right₀ (show 1 ≤ 2 by decide) (show 9 ≤ 1000 by decide))
  obtain ⟨data, i, -, hParse⟩ := PemBlock.writeOwn_givesBack KeyBody.accepted_p256_one
    KeyBody.isReduced_p256_one hBits nofun .tripleDes (.inl rfl : (Datum.text "").isEmpty = true ∨ _) ⟨[], ⟨[], 0⟩, []⟩
  obtain ⟨i', hLoad⟩ := hParse i
  have hSettings : Envelope.Settings (.text "secret") none (some 7) suite := by
    refine .secret ⟨rfl, _, rfl⟩ (by decide) rfl rfl ?_
    rintro n ⟨⟩
    decide
  have hRoom : size [key] suite.blockSize ≤ Wire.fieldLimit := by decide +kernel
  have hWritten := parse_serialize_openssh hLoad rfl hSettings ⟨[1, 2, 3], ⟨[], 0⟩, []⟩
  rw [if_pos (hRoom.trans_lt (by decide))] at hWritten
  obtain ⟨text, j', hText, hYields, -⟩ := hWritten
  refine ⟨data, text, i, i', j', hLoad, hText, hYields hRoom ?_⟩
  exact fun hHeld => KeyBody.not_accepted_of_heldOnlyInDer hHeld KeyBody.accepted_p256_one

/-- A DSA key whose private number is not the exponent of its public one is loaded and written, but
what is written is refused. -/
theorem parse_serialize_openssh_mismatched : ∃ data key text j',
    (parse (.text data) (.text "")).Yields key ∧ key.canSign = true ∧
    serialize key (some "openssh") (.text "") none none ⟨[], ⟨[], 0⟩, []⟩ = .ok text j' ∧
    (parse (.text text) (.text "")).Fails (·.kind = .reported .format) := by
  let domain : Dsa.Domain := ⟨2 ^ 1023, 2 ^ 159, 2⟩
  let key : Key := ⟨.dsa ⟨domain.p, domain.q, domain.g, 3, some 5⟩, some ""⟩
  have hChecks : KeyBody.checkDsa domain.p domain.q domain.g (3 : Nat) = .ok () := by
    decide +kernel
  have hMismatched : key.body.IsMismatched := by
    have hDiffer : ¬Int.ofNat (Modular.power 2 5 (2 ^ 1023)) = 3 := by decide +kernel
    exact ⟨_, 5, rfl, rfl, hChecks, fun hMatches => hDiffer hMatches.2.1⟩
  have hLegible : Der.Element.Legible ([0, domain.p, domain.q, domain.g, 3, 5].map
      Der.Element.natural) := by
    have hBits : ∀ n ∈ [0, domain.p, domain.q, domain.g, 3, 5], Bytes.bitLength n < 2 ^ 11 := by
      decide +kernel
    exact Der.PrivateKey.legible_naturals (fun n hn => (hBits n hn).trans_le
      (pow_le_pow_right₀ (show 1 ≤ 2 by decide) (show 11 ≤ 1000 by decide))) (by decide)
  have hBody : (Der.PrivateKey.dsa domain 3 5).toBody = .ok key.body := by
    rw [Der.PrivateKey.toBody, hChecks]
    rfl
  have hRead := Der.PrivateKey.readPlain_dsaElement hLegible
  have hSettings : Envelope.Settings (.text "") none none CipherSuite.none := .plain rfl (.inl rfl)
  have hRoom : size [key] CipherSuite.none.blockSize ≤ Wire.fieldLimit := by decide +kernel
  have hSigns : key.canSign = true := rfl
  obtain ⟨e, bytes, j', hWritten, hData, hWraps⟩ :=
    serialize_wraps hSigns hSettings (hRoom.trans_lt (by decide)) ⟨[], ⟨[], 0⟩, []⟩
  exact ⟨PemBlock.render PemKind.dsaPrivate.label [] _, key, _, j',
    parse_render_yields .none rfl (PemBlock.readPrivate_plain (by decide) hRead) hBody rfl, hSigns,
    hWritten, parse_wraps_heldOnlyInDer hWraps hData (.inl hMismatched) hRoom⟩

end KeyFile
end SshKeys
