import SshKeys.Proofs.KeyOrigin
/-!
# Blobs as a codec for public keys

Writing is canonical: every key reads back from its blob. Reading takes an integer in any writing,
so a blob is the one that its key is written as exactly if its integers are in their shortest form.
-/
namespace SshKeys

namespace TwosComplement

/-- The shortest form of an integer: no leading byte that only repeats the sign. -/
def IsMinimal : Bytes → Prop
  | [] => True
  | [b] => b ≠ 0
  | b :: c :: _ => ¬(b = 0 ∧ c < 128) ∧ ¬(b = 255 ∧ 128 ≤ c)

instance : DecidablePred IsMinimal
  | [] => inferInstanceAs (Decidable True)
  | [b] => inferInstanceAs (Decidable (b ≠ 0))
  | b :: c :: _ => inferInstanceAs (Decidable (¬(b = 0 ∧ c < 128) ∧ ¬(b = 255 ∧ 128 ≤ c)))

/-- Writings of one length are told apart by what they spell. -/
theorem decode_inj {a b : Bytes} (hLength : a.length = b.length) (h : decode a = decode b) :
    a = b := by
  rw [decode_eq_bmod, decode_eq_bmod, hLength] at h
  have hRest : (Bytes.toNat a : Int) % (256 ^ b.length : Nat) =
      (Bytes.toNat b : Int) % (256 ^ b.length : Nat) := by
    rw [← Int.bmod_emod, h, Int.bmod_emod]
  rw [← Int.natCast_emod, ← Int.natCast_emod, Nat.mod_eq_of_lt (Bytes.toNat_lt b),
    Nat.mod_eq_of_lt (hLength ▸ Bytes.toNat_lt a)] at hRest
  rw [← Bytes.ofNat_toNat a, ← Bytes.ofNat_toNat b, hLength, Int.ofNat.inj hRest]

theorem length_integerBytes_le_iff {z : Int} {bytes : Nat} :
    (Wire.integerBytes z).length ≤ bytes ↔
      -(256 ^ bytes : Nat) ≤ 2 * z ∧ 2 * z < (256 ^ bytes : Nat) := by
  have hPos : 0 < 256 ^ bytes := Nat.pow_pos (by decide)
  rw [Wire.integerBytes]
  split
  · rename_i hZero
    rw [hZero]
    exact ⟨fun _ => by omega, fun _ => Nat.zero_le _⟩
  · rename_i hZero
    rw [length_encode]
    constructor
    · intro hWidth
      have hBounds := width_bounds z
      rw [← pow_256] at hBounds
      have hPow : 256 ^ width z ≤ 256 ^ bytes := Nat.pow_le_pow_right (by decide) hWidth
      omega
    · rintro ⟨hLow, hHigh⟩
      rw [pow_256] at hLow hHigh
      exact width_le hZero hLow hHigh

theorem decode_cons (b : UInt8) (rest : Bytes) : decode (b :: rest) =
    (b.toNat - if b < 128 then 0 else 256 : Int) * (256 ^ rest.length : Nat) + Bytes.toNat rest := by
  have hSplit : Bytes.toNat (b :: rest) = b.toNat * 256 ^ rest.length + Bytes.toNat rest := by
    rw [← List.singleton_append, Bytes.toNat_append, Bytes.toNat_singleton]
  simp only [decode, hSplit, Int.ofNat_eq_natCast, Nat.pow_eq, List.length_cons, Nat.pow_succ]
  split
  · push_cast
    ring
  · push_cast
    ring

/-- The leading part of a number tells whether the number needs it. -/
theorem lead_bounds {lead : Int} {rest unit : Nat} (hRest : rest < unit) :
    (-(unit * 256 : Nat) ≤ 2 * (lead * unit + rest) ∧ 2 * (lead * unit + rest) < (unit * 256 : Nat)) ↔
      -128 ≤ lead ∧ lead < 128 := by
  have hUnit : (0 : Int) ≤ unit := Int.natCast_nonneg unit
  constructor
  · rintro ⟨hLow, hHigh⟩
    constructor
    · by_contra hLead
      have hBelow : lead * unit ≤ -129 * unit := Int.mul_le_mul_of_nonneg_right (by omega) hUnit
      omega
    · by_contra hLead
      have hAbove : 128 * unit ≤ lead * unit := Int.mul_le_mul_of_nonneg_right (by omega) hUnit
      omega
  · rintro ⟨hLow, hHigh⟩
    have hAbove : -128 * unit ≤ lead * unit := Int.mul_le_mul_of_nonneg_right hLow hUnit
    have hBelow : lead * unit ≤ 127 * unit := Int.mul_le_mul_of_nonneg_right (by omega) hUnit
    omega

theorem length_integerBytes_cons_cons_le_iff (b c : UInt8) (rest : Bytes) :
    (Wire.integerBytes (decode (b :: c :: rest))).length ≤ rest.length + 1 ↔
      (b = 0 ∧ c < 128) ∨ (b = 255 ∧ 128 ≤ c) := by
  have hValue : decode (b :: c :: rest) =
      ((b.toNat - if b < 128 then 0 else 256 : Int) * 256 + c.toNat) * (256 ^ rest.length : Nat) +
        Bytes.toNat rest := by
    have hSplit : Bytes.toNat (c :: rest) = c.toNat * 256 ^ rest.length + Bytes.toNat rest := by
      rw [← List.singleton_append, Bytes.toNat_append, Bytes.toNat_singleton]
    rw [decode_cons, hSplit, List.length_cons, Nat.pow_succ]
    push_cast
    ring
  have hb := b.toNat_lt
  have hc := c.toNat_lt
  have hZero : b = 0 ↔ b.toNat = 0 := UInt8.toNat_inj.symm
  have hFull : b = 255 ↔ b.toNat = 255 := UInt8.toNat_inj.symm
  have hRest : c < 128 ↔ c.toNat < 128 := UInt8.lt_iff_toNat_lt
  have hRestFull : 128 ≤ c ↔ 128 ≤ c.toNat := UInt8.le_iff_toNat_le
  rw [length_integerBytes_le_iff, Nat.pow_succ, hValue, lead_bounds (Bytes.toNat_lt rest), hZero,
    hFull, hRest, hRestFull]
  by_cases hSign : b < 128
  · have hSmall : b.toNat < 128 := UInt8.lt_iff_toNat_lt.mp hSign
    rw [if_pos hSign]
    omega
  · have hLarge : ¬b.toNat < 128 := fun h => hSign (UInt8.lt_iff_toNat_lt.mpr h)
    rw [if_neg hSign]
    omega

/-- What an integer is written as is the one writing of it in the shortest form. -/
theorem integerBytes_decode_eq_iff (bs : Bytes) :
    Wire.integerBytes (decode bs) = bs ↔ IsMinimal bs := by
  have hShortest := Wire.length_integerBytes_le bs
  have eq_of_length (h : bs.length ≤ (Wire.integerBytes (decode bs)).length) :
      Wire.integerBytes (decode bs) = bs :=
    decode_inj (hShortest.antisymm h) (Wire.decode_integerBytes _)
  match bs with
  | [] => exact ⟨fun _ => trivial, fun _ => rfl⟩
  | [b] =>
    change _ ↔ b ≠ 0
    constructor
    · rintro h rfl
      cases h
    · intro hb
      refine eq_of_length (Nat.not_lt.mp fun hEmpty => hb ?_)
      -- only zero is written as no byte at all
      have hValue := length_integerBytes_le_iff.mp (Nat.le_of_lt_succ hEmpty)
      rw [decode_cons, List.length_nil, Nat.pow_zero, Bytes.toNat_nil] at hValue
      refine UInt8.toNat_inj.mp ?_
      change b.toNat = 0
      have hByte := b.toNat_lt
      by_cases hSign : b < 128
      · rw [if_pos hSign] at hValue
        omega
      · rw [if_neg hSign] at hValue
        omega
  | b :: c :: rest =>
    have hLead := length_integerBytes_cons_cons_le_iff b c rest
    change _ ↔ ¬(b = 0 ∧ c < 128) ∧ ¬(b = 255 ∧ 128 ≤ c)
    rw [← not_or, ← hLead]
    constructor
    · intro h
      rw [h]
      exact Nat.not_succ_le_self _
    · intro hLong
      exact eq_of_length (Nat.not_le.mp hLong)

end TwosComplement

namespace Wire

theorem string_append_inj {a b x y : Bytes} (ha : fits a.length) (hb : fits b.length)
    (h : string a ++ x = string b ++ y) : a = b ∧ x = y := by
  simp only [string, List.append_assoc] at h
  have hSize : (uint32 a.length).length = (uint32 b.length).length := by
    rw [uint32, uint32, Bytes.length_ofNat, Bytes.length_ofNat]
  obtain ⟨hPrefix, hRest⟩ := List.append_inj h hSize
  have hLength : a.length = b.length := by
    have hNumber := congrArg Bytes.toNat hPrefix
    rwa [uint32, uint32, Bytes.toNat_ofNat_of_lt (fits_iff.mp ha),
      Bytes.toNat_ofNat_of_lt (fits_iff.mp hb)] at hNumber
  exact List.append_inj hRest hLength

/-- String fields one behind the other come apart in one way. -/
theorem flatMap_string_inj {a b : List Bytes} (ha : ∀ c ∈ a, fits c.length)
    (hb : ∀ c ∈ b, fits c.length) (h : a.flatMap string = b.flatMap string) : a = b := by
  have not_nil {c : Bytes} {rest : List Bytes} (h : [] = (c :: rest).flatMap string) : False := by
    have hLength := congrArg List.length h
    rw [List.flatMap_cons, List.length_append, length_string, List.length_nil] at hLength
    omega
  induction a generalizing b with
  | nil =>
    cases b with
    | nil => rfl
    | cons c rest => exact (not_nil h).elim
  | cons c rest ih =>
    cases b with
    | nil => exact (not_nil h.symm).elim
    | cons c' rest' =>
      rw [List.forall_mem_cons] at ha hb
      rw [List.flatMap_cons, List.flatMap_cons] at h
      obtain ⟨rfl, hRest⟩ := string_append_inj ha.1 hb.1 h
      rw [ih ha.2 hb.2 hRest]

theorem length_lt_strings {c : Bytes} {fields : List Bytes} (h : c ∈ fields) :
    c.length < (fields.flatMap string).length := by
  have hPiece := (List.sublist_flatten_of_mem (List.mem_map_of_mem h : string c ∈ fields.map string))
  rw [← List.flatMap_def] at hPiece
  have hLength := hPiece.length_le
  rw [length_string] at hLength
  omega

theorem length_strings_le_mul {fields : List Bytes} {limit : Nat}
    (h : ∀ c ∈ fields, c.length ≤ limit) :
    (fields.flatMap string).length ≤ fields.length * (limit + 4) := by
  induction fields with
  | nil => exact Nat.zero_le _
  | cons c rest ih =>
    rw [List.forall_mem_cons] at h
    have hRest := ih h.2
    rw [List.flatMap_cons, List.length_append, length_string, List.length_cons, Nat.succ_mul]
    omega

end Wire

namespace KeyBody

variable {body : KeyBody} {fields : List Bytes}

/-- Those of the public fields that are integers. -/
def integerFields (body : KeyBody) (fields : List Bytes) : List Bytes :=
  match body.keyClass with
  | .rsa | .dsa => fields
  | .ecdsa | .ed25519 => []

theorem length_publicContents_le (body : KeyBody) : body.publicContents.length ≤ 4 := by
  cases body <;> simp [publicContents]

theorem PublicSpelledBy.length_le (h : body.PublicSpelledBy fields) :
    List.Forall₂ (·.length ≤ ·.length) body.publicContents fields := by
  have same (fields : List Bytes) : List.Forall₂ (·.length ≤ ·.length) fields fields :=
    List.forall₂_same.mpr fun _ _ => le_rfl
  cases body with
  | rsa k => exact length_integerBytes_le_of_map_decode h
  | dsa k => exact length_integerBytes_le_of_map_decode h
  | ecdsa k =>
    cases h
    exact same _
  | ed25519 k =>
    cases h
    exact same _

/-- The fields are those that are written exactly if their integers are in the shortest form. -/
theorem PublicSpelledBy.eq_publicContents_iff (h : body.PublicSpelledBy fields) :
    body.publicContents = fields ↔
      ∀ c ∈ body.integerFields fields, TwosComplement.IsMinimal c := by
  have of_numbers {numbers : List Int} (hNumbers : fields.map TwosComplement.decode = numbers) :
      numbers.map Wire.integerBytes = fields ↔ ∀ c ∈ fields, TwosComplement.IsMinimal c := by
    calc
      numbers.map Wire.integerBytes = fields ↔
          fields.map (Wire.integerBytes ∘ TwosComplement.decode) = fields.map id := by
        rw [← hNumbers, List.map_map, List.map_id]
      _ ↔ ∀ c ∈ fields, Wire.integerBytes (TwosComplement.decode c) = c := List.map_inj_left
      _ ↔ ∀ c ∈ fields, TwosComplement.IsMinimal c :=
        forall₂_congr fun c _ => TwosComplement.integerBytes_decode_eq_iff c
  cases body with
  | rsa k => exact of_numbers h
  | dsa k => exact of_numbers h
  | ecdsa k =>
    cases h
    exact ⟨fun _ => List.forall_mem_nil _, fun _ => rfl⟩
  | ed25519 k =>
    cases h
    exact ⟨fun _ => List.forall_mem_nil _, fun _ => rfl⟩

theorem ofRsaNumbers_of_wide {n e : Nat} (hSize : 2 ^ 1023 ≤ n) (hWide : n ≤ e) :
    ofRsaNumbers e n = .error .rsaPublicInvalid := by
  have hOther : ¬isRsaPublic n e = true := by
    simp only [isRsaPublic, Bool.and_eq_true, decide_eq_true_eq]
    omega
  have hChecks : checkRsaSize n = .ok () := checkRsaSize_eq_ok_iff.mpr hSize
  rw [ofRsaNumbers, hChecks, Fallible.bind_ok, if_neg (by omega), Int.toNat_natCast,
    Int.toNat_natCast, if_neg hOther]
  rfl

theorem readPublic_rsa_error {n e : Int} {error : Error} {p p' : Packet}
    (hNumbers : ofRsaNumbers e n = .error error)
    (hFields : p.rewind.FieldsAt (Utf8.encode "ssh-rsa" :: [e, n].map Wire.integerBytes) p') :
    ∃ p'', readPublic .rsa p = .error error p'' := by
  simp only [List.map_cons, List.map_nil, Packet.fieldsAt_cons_iff, Packet.fieldsAt_nil_iff]
    at hFields
  obtain ⟨p₁, hTag, p₂, he, p₃, hn, -⟩ := hFields
  refine ⟨p₃, ?_⟩
  have hRewound : (modify Packet.rewind : Reader PUnit) p = .ok ⟨⟩ p.rewind := rfl
  rw [readPublic, Stateful.bind_ok hRewound,
    Stateful.bind_ok (Packet.readText_eq_ok_iff.mpr hTag)]
  change readRsaPublic p₁ = _
  rw [readRsaPublic, Stateful.bind_ok (Packet.readInteger_of_advance he),
    Stateful.bind_ok (Packet.readInteger_of_advance hn), hNumbers]
  rfl

end KeyBody

namespace Key

variable {k k' : Key}

/-- Fields that are too long for their lengths do not come apart as fields of a key either. -/
theorem publicContents_takes (h : ofBlob k.blob = .ok k') :
    ∀ c ∈ k.body.publicContents, Packet.Takes Wire.fieldLimit c := by
  obtain ⟨-, -, fields, hSpelled, hTakes, hBlob⟩ := ofBlob_eq_ok_iff.mp h
  have hWritten : k.blob = (Utf8.encode k.name :: k.body.publicContents).flatMap Wire.string :=
    k.body.blob_eq
  -- the fields that were read bound the blob, and the blob bounds the fields that were written
  have hCount : fields.length ≤ 4 := by
    rw [← hSpelled.length_le.length_eq]
    exact k'.body.length_publicContents_le
  have hSize : k.blob.length ≤ 5 * (Wire.fieldLimit + 4) := by
    rw [hBlob]
    refine (Wire.length_strings_le_mul fun c hc => (hTakes c hc).length_le).trans ?_
    exact Nat.mul_le_mul_right _ (Nat.succ_le_succ hCount)
  have hFits : ∀ c ∈ Utf8.encode k.name :: k.body.publicContents, Wire.fits c.length := by
    intro c hc
    have hPart := Wire.length_lt_strings hc
    rw [← hWritten] at hPart
    exact Wire.fits_iff.mpr ((hPart.trans_le hSize).trans (by decide))
  have hFields := Wire.flatMap_string_inj hFits (fun c hc => (hTakes c hc).1)
    (hWritten.symm.trans hBlob)
  intro c hc
  exact hTakes c (hFields ▸ List.mem_cons_of_mem _ hc)

/-- The blob of a key with a wide exponent is refused for it. -/
theorem ofBlob_blob_of_hasWideExponent (hWide : k.body.HasWideExponent)
    (hTakes : ∀ c ∈ k.body.publicContents, Packet.Takes Wire.fieldLimit c) :
    ofBlob k.blob = .error .rsaPublicInvalid := by
  obtain ⟨⟨n, e, secret⟩, hBody, hSize, hWide⟩ := hWide
  obtain ⟨body, comment⟩ := k
  obtain rfl : body = .rsa ⟨n, e, secret⟩ := hBody
  let p := Packet.ofBytes (KeyBody.rsa ⟨n, e, secret⟩).blob
  have hFields : p.rewind.FieldsAt (Utf8.encode "ssh-rsa" :: [(e : Int), (n : Int)].map
      Wire.integerBytes) (p.past _ []) :=
    ⟨List.forall_mem_cons.mpr ⟨KeyBody.takes_name (.rsa ⟨n, e, secret⟩), hTakes⟩,
      Packet.advance_past ((KeyBody.blob_eq _).trans (List.append_nil _).symm)⟩
  obtain ⟨p', hRead⟩ := KeyBody.readPublic_rsa_error (KeyBody.ofRsaNumbers_of_wide hSize hWide)
    hFields
  have hWhole : Packet.parse (KeyBody.readWholePublic .rsa "ssh-rsa")
      (KeyBody.rsa ⟨n, e, secret⟩).blob = .error .rsaPublicInvalid :=
    Packet.parse_error (Stateful.bind_error hRead)
  rw [ofBlob, readText_blob, Fallible.bind_ok, ofTypedBlob]
  change (Packet.parse (KeyBody.readWholePublic .rsa "ssh-rsa")
    (KeyBody.rsa ⟨n, e, secret⟩).blob >>= _) = _
  rw [hWhole, Fallible.bind_error]

/-- A key of the library whose blob is read reads as its public half, which is accepted. -/
theorem Obtained.eq_of_ofBlob (hKey : k.Obtained) (h : ofBlob k.blob = .ok k') :
    k.body.publicHalf.PublicAccepted ∧ k' = { body := k.body.publicHalf } := by
  have hTakes := publicContents_takes h
  rcases hKey.publicAccepted with hAccepted | hWide
  · exact ⟨hAccepted, Except.ok.inj (h.symm.trans (ofBlob_blob_publicHalf hAccepted hTakes))⟩
  · cases h.symm.trans (ofBlob_blob_of_hasWideExponent hWide hTakes)

/-- The fields of an RSA blob whose exponent has a zero byte too many. -/
def paddedFields : List Bytes := [Utf8.encode "ssh-rsa", [0, 3], Wire.integerBytes (2 ^ 1024)]

end Key
end SshKeys
