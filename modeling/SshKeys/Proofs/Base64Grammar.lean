import SshKeys.Proofs.ArmourCodec
/-!
# The texts that are read as base 64

The grammar is given without the reader: whole groups that spell three bytes each, then perhaps a
broken group with its padding. The reader takes these texts, with the bytes that they spell. Beyond
them it takes only whole groups with padding marks behind them that nothing asks for.
-/
namespace SshKeys

namespace Base64

/-- The characters, each at the place of its value. -/
def alphabet : List Char :=
  "ABCDEFGHIJKLMNOPQRSTUVWXYZabcdefghijklmnopqrstuvwxyz0123456789+/".toList

/-- Whole groups: each has four characters for three bytes. -/
inductive Groups : List Char → Bytes → Prop
  | nil : Groups [] []
  | group {a b c d : Char} {w x y z : Nat} {cs : List Char} {bs : Bytes} :
    alphabet[w]? = some a → alphabet[x]? = some b → alphabet[y]? = some c →
    alphabet[z]? = some d → Groups cs bs →
    Groups (a :: b :: c :: d :: cs) (Bytes.ofNat 3 (((w * 64 + x) * 64 + y) * 64 + z) ++ bs)

/-- What may stand behind the whole groups. A broken group has one byte or two, then some bits that may
have any value. -/
inductive Ending : List Char → Bytes → Prop
  | whole : Ending [] []
  | one {a b : Char} {w x : Nat} : alphabet[w]? = some a → alphabet[x]? = some b →
    Ending [a, b, '=', '='] (Bytes.ofNat 1 ((w * 64 + x) / 2 ^ 4))
  | two {a b c : Char} {w x y : Nat} : alphabet[w]? = some a → alphabet[x]? = some b →
    alphabet[y]? = some c →
    Ending [a, b, c, '='] (Bytes.ofNat 2 (((w * 64 + x) * 64 + y) / 2 ^ 2))

/-- A strictly padded text, and what it spells. -/
def StrictlySpells (cs : List Char) (bs : Bytes) : Prop :=
  ∃ (front back : List Char) (whole rest : Bytes), cs = front ++ back ∧ bs = whole ++ rest ∧
    Groups front whole ∧ Ending back rest

/-- A text of whole groups, at least one, with padding marks that nothing asks for. -/
def SurplusSpells (cs : List Char) (bs : Bytes) : Prop :=
  ∃ (front : List Char) (marks : Nat), cs = front ++ List.replicate (marks + 1) '=' ∧
    Groups front bs ∧ bs ≠ []

variable {a b c d : Char} {w x y z n : UInt8} {cs : List Char} {bs out : Bytes}

theorem value?_lt (h : value? c = some n) : c.toNat < 128 := by
  have hBound {last : Char} (hLast : last.toNat < 128) (hc : c ≤ last) : c.toNat < 128 :=
    Nat.lt_of_le_of_lt (UInt32.le_iff_toNat_le.mp hc) hLast
  rw [value?] at h
  split at h
  · rename_i hRange
    exact hBound (by decide) hRange.2
  · split at h
    · rename_i hRange
      exact hBound (by decide) hRange.2
    · split at h
      · rename_i hRange
        exact hBound (by decide) hRange.2
      · split at h
        · rename_i hPlus
          exact hPlus ▸ by decide
        · split at h
          · rename_i hSlash
            exact hSlash ▸ by decide
          · cases h

theorem value?_eq_some_iff : value? c = some n ↔ alphabet[n.toNat]? = some c := by
  constructor
  · intro h
    have hAll : ∀ k < 128, (value? (Char.ofNat k)).all
        (fun n => alphabet[n.toNat]? = some (Char.ofNat k)) = true := by
      decide +kernel
    have hPlace := hAll c.toNat (value?_lt h)
    rw [Char.ofNat_toNat, h] at hPlace
    simpa using hPlace
  · intro h
    have hAll : ∀ n : UInt8, alphabet[n.toNat]?.all (value? · = some n) = true :=
      Bytes.forall_byte (by decide +kernel)
    have hValue := hAll n
    rw [h] at hValue
    simpa using hValue

theorem toNat_value_lt (h : value? c = some n) : n.toNat < 64 :=
  (List.getElem?_eq_some_iff.mp (value?_eq_some_iff.mp h)).1

theorem exists_value {place : Nat} (h : alphabet[place]? = some c) :
    ∃ n : UInt8, n.toNat = place ∧ value? c = some n := by
  have hPlace : place < 64 := (List.getElem?_eq_some_iff.mp h).1
  have hSame : (UInt8.ofNat place).toNat = place :=
    UInt8.toNat_ofNat_of_lt' (by rw [UInt8.size]; omega)
  refine ⟨UInt8.ofNat place, hSame, value?_eq_some_iff.mpr ?_⟩
  rw [hSame, h]

theorem ne_pad_of_value (h : value? c = some n) : c ≠ '=' := by
  rintro rfl
  rw [value?_pad] at h
  cases h

theorem group_bytes (w : UInt8) (hx : x.toNat < 64) (hy : y.toNat < 64) (hz : z.toNat < 64) :
    [w <<< 2 ||| x >>> 4, x <<< 4 ||| y >>> 2, y <<< 6 ||| z] =
      Bytes.ofNat 3 (((w.toNat * 64 + x.toNat) * 64 + y.toNat) * 64 + z.toNat) := by
  simp only [Bytes.ofNat, Bytes.pushNat, List.cons.injEq, ← UInt8.toNat_inj, toNat_first w hx,
    toNat_second x hy, toNat_third y hz, UInt8.toNat_ofNat', and_true]
  omega

theorem pair_bytes (w : UInt8) (hx : x.toNat < 64) (hy : y.toNat < 64) :
    [w <<< 2 ||| x >>> 4, x <<< 4 ||| y >>> 2] =
      Bytes.ofNat 2 (((w.toNat * 64 + x.toNat) * 64 + y.toNat) / 2 ^ 2) := by
  simp only [Bytes.ofNat, Bytes.pushNat, List.cons.injEq, ← UInt8.toNat_inj, toNat_first w hx,
    toNat_second x hy, UInt8.toNat_ofNat', and_true]
  omega

theorem single_byte (w : UInt8) (hx : x.toNat < 64) :
    [w <<< 2 ||| x >>> 4] = Bytes.ofNat 1 ((w.toNat * 64 + x.toNat) / 2 ^ 4) := by
  simp only [Bytes.ofNat, Bytes.pushNat, List.cons.injEq, ← UInt8.toNat_inj, toNat_first w hx,
    UInt8.toNat_ofNat', and_true]
  omega

theorem Groups.of_values (ha : value? a = some w) (hb : value? b = some x) (hc : value? c = some y)
    (hd : value? d = some z) (h : Groups cs bs) : Groups (a :: b :: c :: d :: cs)
      ([w <<< 2 ||| x >>> 4, x <<< 4 ||| y >>> 2, y <<< 6 ||| z] ++ bs) := by
  rw [group_bytes w (toNat_value_lt hb) (toNat_value_lt hc) (toNat_value_lt hd)]
  apply Groups.group _ _ _ _ h
  · exact value?_eq_some_iff.mp ha
  · exact value?_eq_some_iff.mp hb
  · exact value?_eq_some_iff.mp hc
  · exact value?_eq_some_iff.mp hd

theorem decodeFrom_whole {front rest : List Char} {whole : Bytes} (h : Groups front whole)
    (acc : Bytes) : decodeFrom acc (front ++ rest) = decodeFrom (whole.reverse ++ acc) rest := by
  induction h generalizing acc with
  | nil => rfl
  | group ha hb hc hd _ ih =>
    obtain ⟨w, rfl, hw⟩ := exists_value ha
    obtain ⟨x, rfl, hx⟩ := exists_value hb
    obtain ⟨y, rfl, hy⟩ := exists_value hc
    obtain ⟨z, rfl, hz⟩ := exists_value hd
    rw [← group_bytes w (toNat_value_lt hx) (toNat_value_lt hy) (toNat_value_lt hz)]
    simp only [List.cons_append]
    rw [decodeFrom]
    · simp only [hw, hx, hy, hz, ih]
      simp
    · exact ne_pad_of_value hw

theorem decodeFrom_ending {back : List Char} {rest : Bytes} (h : Ending back rest) (acc : Bytes) :
    decodeFrom acc back = some (acc.reverse ++ rest) := by
  cases h with
  | whole => rw [decodeFrom, List.append_nil]
  | one ha hb =>
    obtain ⟨w, rfl, hw⟩ := exists_value ha
    obtain ⟨x, rfl, hx⟩ := exists_value hb
    rw [← single_byte w (toNat_value_lt hx), decodeFrom]
    · simp [hw, hx, value?_pad]
    · exact ne_pad_of_value hw
  | two ha hb hc =>
    obtain ⟨w, rfl, hw⟩ := exists_value ha
    obtain ⟨x, rfl, hx⟩ := exists_value hb
    obtain ⟨y, rfl, hy⟩ := exists_value hc
    rw [← pair_bytes w (toNat_value_lt hx) (toNat_value_lt hy), decodeFrom]
    · simp [hw, hx, hy, value?_pad]
    · exact ne_pad_of_value hw

theorem decodeFrom_marks {acc : Bytes} (hSome : acc ≠ []) (marks : Nat) :
    decodeFrom acc (List.replicate (marks + 1) '=') = some acc.reverse := by
  rw [List.replicate_succ, decodeFrom, if_pos ⟨hSome, by simp⟩]

theorem StrictlySpells.group (ha : value? a = some w) (hb : value? b = some x)
    (hc : value? c = some y) (hd : value? d = some z) (h : StrictlySpells cs bs) :
    StrictlySpells (a :: b :: c :: d :: cs)
      ([w <<< 2 ||| x >>> 4, x <<< 4 ||| y >>> 2, y <<< 6 ||| z] ++ bs) := by
  obtain ⟨front, back, whole, rest, rfl, rfl, hFront, hBack⟩ := h
  refine ⟨a :: b :: c :: d :: front, back, _, rest, rfl, (List.append_assoc _ _ _).symm, ?_, hBack⟩
  exact hFront.of_values ha hb hc hd

theorem SurplusSpells.group (ha : value? a = some w) (hb : value? b = some x)
    (hc : value? c = some y) (hd : value? d = some z)
    (h : SurplusSpells cs bs ∨ (bs = [] ∧ ∃ marks : Nat, cs = List.replicate (marks + 1) '=')) :
    SurplusSpells (a :: b :: c :: d :: cs)
      ([w <<< 2 ||| x >>> 4, x <<< 4 ||| y >>> 2, y <<< 6 ||| z] ++ bs) := by
  obtain ⟨front, marks, rfl, hFront⟩ : ∃ (front : List Char) (marks : Nat),
      cs = front ++ List.replicate (marks + 1) '=' ∧ Groups front bs := by
    rcases h with ⟨front, marks, hText, hFront, -⟩ | ⟨rfl, marks, hText⟩
    · exact ⟨front, marks, hText, hFront⟩
    · exact ⟨[], marks, hText, .nil⟩
  exact ⟨a :: b :: c :: d :: front, marks, rfl, hFront.of_values ha hb hc hd, nofun⟩

theorem Ending.strictlySpells (h : Ending cs bs) : StrictlySpells cs bs :=
  ⟨[], cs, [], bs, rfl, rfl, .nil, h⟩

/-- Behind bytes that have been read, there may also be nothing but padding marks. -/
theorem spells_of_decodeFrom {acc : Bytes} (h : decodeFrom acc cs = some out) :
    ∃ bs, out = acc.reverse ++ bs ∧ (StrictlySpells cs bs ∨ SurplusSpells cs bs ∨
      acc ≠ [] ∧ bs = [] ∧ ∃ marks : Nat, cs = List.replicate (marks + 1) '=') := by
  fun_induction decodeFrom acc cs with
  | case1 acc =>
    cases h
    exact ⟨[], (List.append_nil _).symm, .inl Ending.whole.strictlySpells⟩
  | case2 acc rest hRest =>
    cases h
    refine ⟨[], (List.append_nil _).symm, .inr (.inr ⟨hRest.1, rfl, rest.length, ?_⟩)⟩
    rw [List.replicate_succ, List.cons.injEq, List.eq_replicate_iff]
    exact ⟨rfl, rfl, by simpa using hRest.2⟩
  | case4 acc a b c d rest hPad w x y z hd hc hb ha ih =>
    obtain ⟨bs, rfl, hRest⟩ := ih h
    refine ⟨[w <<< 2 ||| x >>> 4, x <<< 4 ||| y >>> 2, y <<< 6 ||| z] ++ bs, by simp, ?_⟩
    rcases hRest with hStrict | hSurplus | ⟨-, hMarks⟩
    · exact .inl (.group ha hb hc hd hStrict)
    · exact .inr (.inl (.group ha hb hc hd (.inl hSurplus)))
    · exact .inr (.inl (.group ha hb hc hd (.inr hMarks)))
  | case5 acc a b c d rest hPad w x y hd hc hb ha hEnd =>
    obtain ⟨rfl, rfl⟩ := hEnd
    cases h
    refine ⟨[w <<< 2 ||| x >>> 4, x <<< 4 ||| y >>> 2], by simp, .inl ?_⟩
    rw [pair_bytes w (toNat_value_lt hb) (toNat_value_lt hc)]
    exact (Ending.two (value?_eq_some_iff.mp ha) (value?_eq_some_iff.mp hb)
      (value?_eq_some_iff.mp hc)).strictlySpells
  | case7 acc a b c d rest hPad w x hd hc hb ha hEnd =>
    obtain ⟨rfl, rfl, rfl⟩ := hEnd
    cases h
    refine ⟨[w <<< 2 ||| x >>> 4], by simp, .inl ?_⟩
    rw [single_byte w (toNat_value_lt hb)]
    exact (Ending.one (value?_eq_some_iff.mp ha) (value?_eq_some_iff.mp hb)).strictlySpells
  | _ => cases h

/-- The reader takes just the texts that are spelled by the grammar. -/
theorem decode?_eq_some_iff_spells :
    decode? cs = some bs ↔ StrictlySpells cs bs ∨ SurplusSpells cs bs := by
  constructor
  · intro h
    obtain ⟨_, rfl, hStrict | hSurplus | ⟨hSome, -⟩⟩ := spells_of_decodeFrom h
    · exact .inl hStrict
    · exact .inr hSurplus
    · exact absurd rfl hSome
  · rintro (⟨front, back, whole, rest, rfl, rfl, hFront, hBack⟩ | ⟨front, marks, rfl, hFront, hSome⟩)
    · rw [decode?, decodeFrom_whole hFront, decodeFrom_ending hBack, List.append_nil,
        List.reverse_reverse]
    · rw [decode?, decodeFrom_whole hFront, List.append_nil,
        decodeFrom_marks (by simpa using hSome), List.reverse_reverse]

theorem ne_pad_of_place {place : Nat} (h : alphabet[place]? = some c) : c ≠ '=' := by
  obtain ⟨n, -, hValue⟩ := exists_value h
  exact ne_pad_of_value hValue

theorem Groups.shape (h : Groups cs bs) : 4 ∣ cs.length ∧ cs.count '=' = 0 := by
  induction h with
  | nil => decide
  | group ha hb hc hd _ ih =>
    simp only [List.length_cons, List.count_cons, beq_iff_eq, ne_pad_of_place ha, ne_pad_of_place hb,
      ne_pad_of_place hc, ne_pad_of_place hd, if_false]
    omega

theorem StrictlySpells.shape (h : StrictlySpells cs bs) : 4 ∣ cs.length ∧ cs.count '=' ≤ 2 := by
  obtain ⟨front, back, whole, rest, rfl, -, hFront, hBack⟩ := h
  obtain ⟨hLength, hCount⟩ := hFront.shape
  have hEnd : 4 ∣ back.length ∧ back.count '=' ≤ 2 := by
    cases hBack with
    | whole => decide
    | one ha hb =>
      simp [ne_pad_of_place ha, ne_pad_of_place hb]
    | two ha hb hc =>
      simp [ne_pad_of_place ha, ne_pad_of_place hb, ne_pad_of_place hc]
  rw [List.length_append, List.count_append, hCount]
  omega

/-- No text is spelled in both ways: there are at most two marks to ask for, and a multiple of four
characters. -/
theorem StrictlySpells.not_surplusSpells {bs' : Bytes} (h : StrictlySpells cs bs) :
    ¬SurplusSpells cs bs' := by
  rintro ⟨front, marks, rfl, hFront, -⟩
  obtain ⟨hLength, hCount⟩ := hFront.shape
  obtain ⟨hWhole, hMarks⟩ := h.shape
  rw [List.length_append, List.length_replicate] at hWhole
  rw [List.count_append, hCount, List.count_replicate_self] at hMarks
  omega

end Base64
end SshKeys
