import SshKeys.Envelope.Armour
import SshKeys.Proofs.CipherModes
import SshKeys.Proofs.TextLayout
/-!
# Armour and base 64 read back

Base 64 text reads back as the bytes it was written from, and its lines put together are the text
without line ends. Its characters are neither blank nor a line end nor a hyphen, so no line of it is
mistaken for a marker and no character of it is lost when lines are cut and trimmed.
-/
namespace SshKeys

namespace Base64

/-- Characters that stay when lines are cut and trimmed, and that no marker line is made of. -/
def IsPlain (c : Char) : Prop := Text.isBlank c = false ∧ Text.isLineEnd c = false ∧ c ≠ '-'

instance : DecidablePred IsPlain := fun c =>
  inferInstanceAs (Decidable (Text.isBlank c = false ∧ Text.isLineEnd c = false ∧ c ≠ '-'))

/-- The alphabet: values are read back, and the other characters of a text are not in it. -/
theorem symbol_spec : ∀ n : UInt8, (n < 64 → value? (symbol n) = some n) ∧ IsPlain (symbol n) ∧
    symbol n ≠ '=' ∧ symbol n ≠ ':' :=
  Bytes.forall_byte (by decide +kernel)

theorem value?_symbol {n : UInt8} (h : n.toNat < 64) : value? (symbol n) = some n :=
  (symbol_spec n).1 (UInt8.lt_iff_toNat_lt.mpr h)

theorem isPlain_symbol (n : UInt8) : IsPlain (symbol n) := (symbol_spec n).2.1

theorem symbol_ne_pad (n : UInt8) : symbol n ≠ '=' := (symbol_spec n).2.2.1

theorem symbol_ne_colon (n : UInt8) : symbol n ≠ ':' := (symbol_spec n).2.2.2

theorem value?_pad : value? '=' = none := by decide

theorem isPlain_pad : IsPlain '=' := by decide

section Sextets

variable {x y z : UInt8}

theorem toNat_first (w : UInt8) (hx : x.toNat < 64) :
    (w <<< 2 ||| x >>> 4).toNat = w.toNat % 64 * 4 + x.toNat / 16 := by
  have hLow : (x >>> 4).toNat = x.toNat / 2 ^ 4 := Bytes.toNat_shiftRight (by decide)
  have hJoin := Bytes.toNat_shiftLeft_or (a := w) (b := x >>> 4) (k := 2) (by decide) (by omega)
  rw [hLow] at hJoin
  exact hJoin

theorem toNat_second (x : UInt8) (hy : y.toNat < 64) :
    (x <<< 4 ||| y >>> 2).toNat = x.toNat % 16 * 16 + y.toNat / 4 := by
  have hLow : (y >>> 2).toNat = y.toNat / 2 ^ 2 := Bytes.toNat_shiftRight (by decide)
  have hJoin := Bytes.toNat_shiftLeft_or (a := x) (b := y >>> 2) (k := 4) (by decide) (by omega)
  rw [hLow] at hJoin
  exact hJoin

theorem toNat_third (y : UInt8) (hz : z.toNat < 64) :
    (y <<< 6 ||| z).toNat = y.toNat % 4 * 64 + z.toNat :=
  Bytes.toNat_shiftLeft_or (k := 6) (by decide) hz

theorem toNat_upper (a : UInt8) : (a >>> 2).toNat = a.toNat / 4 := Bytes.toNat_shiftRight (by decide)

theorem toNat_lower (a : UInt8) : (a &&& 63).toNat = a.toNat % 64 := by
  rw [UInt8.toNat_and]
  exact Nat.and_two_pow_sub_one_eq_mod a.toNat 6

theorem toNat_inner (a b : UInt8) :
    ((a &&& 3) <<< 4 ||| b >>> 4).toNat = a.toNat % 4 * 16 + b.toNat / 16 := by
  have hByte := b.toNat_lt
  have hHigh : (a &&& 3).toNat = a.toNat % 4 := by
    rw [UInt8.toNat_and]
    exact Nat.and_two_pow_sub_one_eq_mod a.toNat 2
  have hLow : (b >>> 4).toNat = b.toNat / 2 ^ 4 := Bytes.toNat_shiftRight (by decide)
  have hJoin := Bytes.toNat_shiftLeft_or (a := a &&& 3) (b := b >>> 4) (k := 4) (by decide) (by omega)
  rw [hHigh, hLow] at hJoin
  refine hJoin.trans ?_
  omega

theorem toNat_outer (b c : UInt8) :
    ((b &&& 15) <<< 2 ||| c >>> 6).toNat = b.toNat % 16 * 4 + c.toNat / 64 := by
  have hByte := c.toNat_lt
  have hHigh : (b &&& 15).toNat = b.toNat % 16 := by
    rw [UInt8.toNat_and]
    exact Nat.and_two_pow_sub_one_eq_mod b.toNat 4
  have hLow : (c >>> 6).toNat = c.toNat / 2 ^ 6 := Bytes.toNat_shiftRight (by decide)
  have hJoin := Bytes.toNat_shiftLeft_or (a := b &&& 15) (b := c >>> 6) (k := 2) (by decide) (by omega)
  rw [hHigh, hLow] at hJoin
  refine hJoin.trans ?_
  omega

theorem upper_lt (a : UInt8) : (a >>> 2).toNat < 64 := by
  have hByte := a.toNat_lt
  rw [toNat_upper]
  omega

theorem lower_lt (a : UInt8) : (a &&& 63).toNat < 64 := by
  rw [toNat_lower]
  omega

theorem second_lt (a b : UInt8) : ((a &&& 3) <<< 4 ||| b >>> 4).toNat < 64 := by
  have hByte := b.toNat_lt
  rw [toNat_inner]
  omega

theorem third_lt (b c : UInt8) : ((b &&& 15) <<< 2 ||| c >>> 6).toNat < 64 := by
  have hByte := c.toNat_lt
  rw [toNat_outer]
  omega

theorem first_byte (a b : UInt8) : (a >>> 2) <<< 2 ||| ((a &&& 3) <<< 4 ||| b >>> 4) >>> 4 = a := by
  have hByte := a.toNat_lt
  have hNext := b.toNat_lt
  apply UInt8.toNat_inj.mp
  rw [toNat_first _ (second_lt a b), toNat_upper, toNat_inner]
  omega

theorem second_byte (a b c : UInt8) :
    ((a &&& 3) <<< 4 ||| b >>> 4) <<< 4 ||| ((b &&& 15) <<< 2 ||| c >>> 6) >>> 2 = b := by
  have hByte := b.toNat_lt
  have hNext := c.toNat_lt
  apply UInt8.toNat_inj.mp
  rw [toNat_second _ (third_lt b c), toNat_inner, toNat_outer]
  omega

theorem third_byte (b c : UInt8) : ((b &&& 15) <<< 2 ||| c >>> 6) <<< 6 ||| (c &&& 63) = c := by
  have hByte := c.toNat_lt
  apply UInt8.toNat_inj.mp
  rw [toNat_third _ (lower_lt c), toNat_outer, toNat_lower]
  omega

end Sextets

theorem encodeFrom_eq (acc : List Char) : ∀ bs, encodeFrom acc bs = acc.reverse ++ encode bs
  | [] => by simp [encode, encodeFrom]
  | [_] => by simp [encode, encodeFrom]
  | [_, _] => by simp [encode, encodeFrom]
  | a :: b :: c :: rest => by
    rw [encode, encodeFrom, encodeFrom, encodeFrom_eq _ rest, encodeFrom_eq _ rest]
    simp

theorem encode_group (a b c : UInt8) (rest : Bytes) :
    encode (a :: b :: c :: rest) = symbol (a >>> 2) :: symbol ((a &&& 3) <<< 4 ||| b >>> 4) ::
      symbol ((b &&& 15) <<< 2 ||| c >>> 6) :: symbol (c &&& 63) :: encode rest := by
  rw [encode, encodeFrom, encodeFrom_eq]
  rfl

theorem decodeFrom_group {w x y z : UInt8} (hw : w.toNat < 64) (hx : x.toNat < 64)
    (hy : y.toNat < 64) (hz : z.toNat < 64) (acc : Bytes) (rest : List Char) :
    decodeFrom acc (symbol w :: symbol x :: symbol y :: symbol z :: rest) =
      decodeFrom ((y <<< 6 ||| z) :: (x <<< 4 ||| y >>> 2) :: (w <<< 2 ||| x >>> 4) :: acc) rest := by
  rw [decodeFrom]
  · simp only [value?_symbol hw, value?_symbol hx, value?_symbol hy, value?_symbol hz]
  · exact fun h => symbol_ne_pad w h

theorem decodeFrom_encode (acc : Bytes) : ∀ bs, decodeFrom acc (encode bs) = some (acc.reverse ++ bs)
  | [] => by simp [encode, encodeFrom, decodeFrom]
  | [a] => by
    have hSecond : ((a &&& 3) <<< 4).toNat < 64 := by
      simpa using second_lt a 0
    have hByte := first_byte a 0
    simp only [encode, encodeFrom, List.reverse_cons, List.reverse_nil, List.nil_append,
      List.cons_append]
    rw [decodeFrom]
    · simp only [value?_symbol (upper_lt a), value?_symbol hSecond, value?_pad]
      simpa using hByte
    · exact fun h => symbol_ne_pad _ h
  | [a, b] => by
    have hThird : ((b &&& 15) <<< 2).toNat < 64 := by
      simpa using third_lt b 0
    have hByte := second_byte a b 0
    simp only [encode, encodeFrom, List.reverse_cons, List.reverse_nil, List.nil_append,
      List.cons_append]
    rw [decodeFrom]
    · simp only [value?_symbol (upper_lt a), value?_symbol (second_lt a b),
        value?_symbol hThird, value?_pad, first_byte]
      simpa using hByte
    · exact fun h => symbol_ne_pad _ h
  | a :: b :: c :: rest => by
    rw [encode_group, decodeFrom_group (upper_lt a) (second_lt a b) (third_lt b c) (lower_lt c),
      first_byte, second_byte, third_byte, decodeFrom_encode _ rest]
    simp

@[simp] theorem decode?_encode (bs : Bytes) : decode? (encode bs) = some bs := decodeFrom_encode [] bs

/-- Every character of an encoding is a symbol or a padding mark. -/
theorem forall_mem_encode {P : Char → Prop} (hSymbol : ∀ n, P (symbol n)) (hPad : P '=') :
    ∀ bs, ∀ c ∈ encode bs, P c
  | [] => nofun
  | [a] => by simp [encode, encodeFrom, hSymbol, hPad]
  | [a, b] => by simp [encode, encodeFrom, hSymbol, hPad]
  | a :: b :: c :: rest => by
    rw [encode_group]
    simp only [List.forall_mem_cons]
    exact ⟨hSymbol _, hSymbol _, hSymbol _, hSymbol _, forall_mem_encode hSymbol hPad rest⟩

theorem isPlain_of_mem_encode (bs : Bytes) : ∀ c ∈ encode bs, IsPlain c :=
  forall_mem_encode isPlain_symbol isPlain_pad bs

theorem encode_append (back : Bytes) : ∀ front : Bytes, 3 ∣ front.length →
    encode (front ++ back) = encode front ++ encode back
  | [], _ => rfl
  | [_], hWhole => absurd hWhole (by decide : ¬3 ∣ 1)
  | [_, _], hWhole => absurd hWhole (by decide : ¬3 ∣ 2)
  | a :: b :: c :: front, hWhole => by
    have hRest : 3 ∣ front.length := (Nat.dvd_add_left (Nat.dvd_refl 3)).mp hWhole
    rw [List.cons_append, List.cons_append, List.cons_append, encode_group, encode_group,
      encode_append back front hRest]
    rfl

/-- Pieces of whole groups, and one last piece, are encoded one behind the other. -/
theorem flatMap_encode {pieces : List Bytes} (hWhole : ∀ piece ∈ pieces, 3 ∣ piece.length)
    (last : Bytes) : pieces.flatMap encode ++ encode last = encode (pieces.flatten ++ last) := by
  induction pieces with
  | nil => rfl
  | cons piece pieces ih =>
    rw [List.forall_mem_cons] at hWhole
    rw [List.flatMap_cons, List.append_assoc, ih hWhole.2, List.flatten_cons, List.append_assoc,
      encode_append _ piece hWhole.1]

theorem filter_encode (bs : Bytes) : (encode bs).filter (· ≠ '\n') = encode bs := by
  rw [List.filter_eq_self]
  intro c hc
  have hNone := (isPlain_of_mem_encode bs c hc).2.1
  exact decide_eq_true fun hEnd => by simp [hEnd, Text.isLineEnd] at hNone

/-- Without its line ends, an encoding in lines is the encoding. -/
theorem filter_encodeLines (bs : Bytes) : (encodeLines bs).filter (· ≠ '\n') = encode bs := by
  obtain ⟨full, last, hCut, hFull, -⟩ := Bytes.chunks_lengths (by decide : 0 < 57) bs
  have hWhole : ∀ piece ∈ full, 3 ∣ piece.length := by
    intro piece hPiece
    rw [hFull piece hPiece]
    decide
  have hLast : last.toList.flatMap encode = encode last.toList.flatten := by
    cases last with
    | none => rfl
    | some piece => simp
  have hLine (piece : Bytes) : (encode piece ++ ['\n']).filter (· ≠ '\n') = encode piece := by
    rw [List.filter_append, filter_encode]
    exact List.append_nil _
  rw [encodeLines, List.filter_flatMap, List.flatMap_congr fun piece _ => hLine piece, hCut,
    List.flatMap_append, hLast, flatMap_encode hWhole, ← List.flatten_append, ← hCut,
    Bytes.flatten_chunks (by decide)]

/-- However an encoding is cut into pieces, they have no other characters. -/
theorem forall_mem_piece {P : Char → Prop} (hSymbol : ∀ n, P (symbol n)) (hPad : P '=')
    {pieces : List (List Char)} {bs : Bytes} (h : pieces.flatten = encode bs) :
    ∀ piece ∈ pieces, ∀ c ∈ piece, P c := by
  intro piece hPiece c hc
  apply forall_mem_encode hSymbol hPad bs
  rw [← h]
  exact List.mem_flatten_of_mem hPiece hc

theorem isPlain_of_mem_piece {pieces : List (List Char)} {bs : Bytes}
    (h : pieces.flatten = encode bs) : ∀ piece ∈ pieces, ∀ c ∈ piece, IsPlain c :=
  forall_mem_piece isPlain_symbol isPlain_pad h

end Base64

namespace Armour

variable {s : String} {junk pieces before inside after : List (List Char)}

theorem isPlain_of_mem_line {bs : Bytes} {line : List Char}
    (hLine : line ∈ Bytes.chunks lineWidth (Base64.encode bs)) : ∀ c ∈ line, Base64.IsPlain c :=
  Base64.isPlain_of_mem_piece (Bytes.flatten_chunks (by decide) _) line hLine

/-- The body stands between the first begin marker and the first end marker behind it. -/
theorem body?_block (hBefore : ∀ line ∈ before, line ≠ beginMarker)
    (hInside : ∀ line ∈ inside, line ≠ endMarker) :
    body? (before ++ beginMarker :: (inside ++ endMarker :: after)) = some inside := by
  have hDrop : (before ++ beginMarker :: (inside ++ endMarker :: after)).dropWhile
      (· ≠ beginMarker) = beginMarker :: (inside ++ endMarker :: after) := by
    rw [List.dropWhile_append_of_pos (by simpa using hBefore), List.dropWhile_cons, if_neg (by simp)]
  have hTake : (inside ++ endMarker :: after).takeWhile (· ≠ endMarker) = inside := by
    rw [List.takeWhile_append_of_pos (by simpa using hInside)]
    simp
  rw [body?, hDrop]
  simp only
  rw [if_pos (by simp), hTake]

/-- Neither the blanks around lines nor the ways that lines end matter, nor what stands before the
begin marker and behind the end marker. -/
theorem decodeText_laidOut {bs : Bytes}
    (h : Text.LaysOut s.toList (junk ++ beginMarker :: pieces) endMarker)
    (hJunk : ∀ line ∈ junk, Text.trim line ≠ beginMarker)
    (hPieces : pieces.flatten = Base64.encode bs) : decodeText s = .ok bs := by
  have hPlain := Base64.isPlain_of_mem_piece hPieces
  have hEnd : Text.trim endMarker = endMarker := by decide
  obtain ⟨kept, others, hKept, hLines⟩ := h.lines_eq (Text.isLineEnd_of_all (by decide)) (by decide)
  have hTrim : pieces.map Text.trim = pieces := by
    refine (List.map_congr_left fun piece hPiece => ?_).trans (List.map_id pieces)
    exact Text.trim_eq_self fun c hc => (hPlain piece hPiece c hc).1
  rw [List.map_append, List.map_cons, hTrim, show Text.trim beginMarker = beginMarker by decide]
    at hKept
  obtain ⟨before, inside, rfl, hBefore, hInside⟩ := hKept.split_at (by decide)
  have hNoBegin : ∀ line ∈ before, line ≠ beginMarker := by
    intro line hLine
    obtain ⟨original, hOriginal, rfl⟩ := List.mem_map.mp (hBefore.subset line hLine)
    exact hJunk original hOriginal
  have hNoEnd : ∀ line ∈ inside, line ≠ endMarker := by
    rintro line hLine rfl
    exact (hPlain endMarker (hInside.subset _ hLine) '-' (by decide)).2.2 rfl
  rw [decodeText, hLines, hEnd, List.append_assoc, List.cons_append, body?_block hNoBegin hNoEnd]
  simp only
  rw [hInside.flatten_eq, hPieces, Base64.decode?_encode]

theorem laysOut_encode (bs : Bytes) : Text.LaysOut (encode bs).toList
    (beginMarker :: Bytes.chunks lineWidth (Base64.encode bs)) endMarker := by
  rw [encode, unlines, String.toList_ofList]
  apply Text.laysOut_unlines
  rw [List.forall_mem_cons]
  exact ⟨Text.isLineEnd_of_all (by decide),
    fun line hLine c hc => (isPlain_of_mem_line hLine c hc).2.1⟩

/-- Armoured bytes read back. -/
theorem decodeText_encode (bs : Bytes) : decodeText (encode bs) = .ok bs := by
  have hNone : ∀ line ∈ [], Text.trim line ≠ beginMarker := nofun
  have hWidth : 0 < lineWidth := by decide
  apply decodeText_laidOut _ hNone (Bytes.flatten_chunks hWidth _)
  exact laysOut_encode bs

end Armour
end SshKeys
