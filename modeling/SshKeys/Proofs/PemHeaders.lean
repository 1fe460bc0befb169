import SshKeys.Pem.Traditional
import SshKeys.Proofs.PemText
/-!
# The header lines of an encrypted block

They are read as two headers, and these give back the cipher and the initial vector that they were
written for.
-/
namespace SshKeys

namespace Hex

def pair (b : UInt8) : List Char := [digit (b >>> 4), digit (b &&& 15)]

theorem toList_encode (bs : Bytes) : (encode bs).toList = bs.flatMap pair := by
  have hFold : ∀ s : String, (bs.foldl (fun (s : String) (b : UInt8) =>
      (s.push (digit (b >>> 4))).push (digit (b &&& 15))) s).toList =
      s.toList ++ bs.flatMap pair := by
    induction bs with
    | nil => simp
    | cons b bs ih =>
      intro s
      rw [List.foldl_cons, ih, String.toList_push, String.toList_push, List.flatMap_cons]
      simp [pair]
  rw [encode, hFold]
  rfl

theorem toList_encodeUpper (bs : Bytes) :
    (encodeUpper bs).toList = bs.flatMap fun b => (pair b).map Char.toUpper := by
  rw [encodeUpper, String.toUpper, String.toList_map, toList_encode, List.map_flatMap]

/-- The digits in capitals: values are read back, and nothing that takes a header apart looks for one. -/
theorem upper_spec : ∀ n : UInt8, n < 16 → value? (digit n).toUpper = some n ∧
    Text.isBlank (digit n).toUpper = false ∧ Text.isLineEnd (digit n).toUpper = false ∧
    (digit n).toUpper ≠ ':' ∧ (digit n).toUpper ≠ ',' :=
  Bytes.forall_byte (by decide +kernel)

theorem halves_spec : ∀ b : UInt8,
    b >>> 4 < 16 ∧ b &&& 15 < 16 ∧ (b >>> 4) <<< 4 ||| (b &&& 15) = b :=
  Bytes.forall_byte (by decide +kernel)

theorem value?_upper {n : UInt8} (h : n < 16) : value? (digit n).toUpper = some n := (upper_spec n h).1

theorem high_lt (b : UInt8) : b >>> 4 < 16 := (halves_spec b).1

theorem low_lt (b : UInt8) : b &&& 15 < 16 := (halves_spec b).2.1

theorem join_halves (b : UInt8) : (b >>> 4) <<< 4 ||| (b &&& 15) = b := (halves_spec b).2.2

theorem decodeFrom_upper (bs acc : Bytes) :
    decodeFrom acc (bs.flatMap fun b => (pair b).map Char.toUpper) = some (acc.reverse ++ bs) := by
  induction bs generalizing acc with
  | nil => simp [decodeFrom]
  | cons b bs ih =>
    rw [List.flatMap_cons, pair, List.map_cons, List.map_cons, List.map_nil, List.cons_append,
      List.cons_append, List.nil_append, decodeFrom, value?_upper (high_lt b),
      value?_upper (low_lt b)]
    simp only [join_halves]
    rw [ih, List.reverse_cons, List.append_assoc]
    rfl

theorem decode?_encodeUpper (bs : Bytes) : decode? (encodeUpper bs).toList = some bs := by
  rw [toList_encodeUpper]
  exact decodeFrom_upper bs []

theorem forall_mem_encodeUpper {P : Char → Prop} (hDigit : ∀ n, n < 16 → P (digit n).toUpper)
    (bs : Bytes) : ∀ c ∈ (encodeUpper bs).toList, P c := by
  rw [toList_encodeUpper]
  intro c hc
  obtain ⟨b, -, hMember⟩ := List.mem_flatMap.mp hc
  simp only [pair, List.map_cons, List.map_nil, List.mem_cons, List.not_mem_nil,
    or_false] at hMember
  rcases hMember with rfl | rfl
  · exact hDigit _ (high_lt b)
  · exact hDigit _ (low_lt b)

end Hex

namespace Text

variable {separator : Char} {cs : List Char}

theorem splitFrom_append (h : separator ∉ cs) (piece rest : List Char)
    (finished : List (List Char)) :
    splitFrom separator piece finished (cs ++ separator :: rest) =
      splitFrom separator [] ((piece.reverse ++ cs) :: finished) rest := by
  induction cs generalizing piece with
  | nil => simp [splitFrom]
  | cons c cs ih =>
    rw [List.mem_cons, not_or] at h
    rw [List.cons_append, splitFrom, if_neg (Ne.symm h.1), ih h.2]
    simp

theorem splitFrom_of_not_mem (h : separator ∉ cs) (piece : List Char)
    (finished : List (List Char)) :
    splitFrom separator piece finished cs = finished.reverse ++ [piece.reverse ++ cs] := by
  induction cs generalizing piece with
  | nil => simp [splitFrom]
  | cons c cs ih =>
    rw [List.mem_cons, not_or] at h
    rw [splitFrom, if_neg (Ne.symm h.1), ih h.2]
    simp

theorem splitOn_pair {rest : List Char} (h : separator ∉ cs) (hRest : separator ∉ rest) :
    splitOn separator (cs ++ separator :: rest) = [cs, rest] := by
  rw [splitOn, splitFrom_append h, splitFrom_of_not_mem hRest]
  rfl

end Text

namespace ChainedCipher

theorem ofHeaderName_headerName (cipher : ChainedCipher) :
    ofHeaderName (some cipher.headerName) = .ok cipher := by
  cases cipher <;> rfl

end ChainedCipher

namespace PemBlock

/-- Characters of a header value that no reader of headers looks for. -/
def IsValueChar (c : Char) : Prop := Text.isBlank c = false ∧ Text.isLineEnd c = false ∧ c ≠ ':'

instance : DecidablePred IsValueChar := fun c =>
  inferInstanceAs (Decidable (Text.isBlank c = false ∧ Text.isLineEnd c = false ∧ c ≠ ':'))

/-- The value of the header that tells the cipher. -/
def cipherValue (cipher : ChainedCipher) (iv : Bytes) : String :=
  cipher.headerName ++ "," ++ Hex.encodeUpper iv

theorem toList_cipherValue (cipher : ChainedCipher) (iv : Bytes) : (cipherValue cipher iv).toList =
    cipher.headerName.toList ++ ',' :: (Hex.encodeUpper iv).toList := by
  simp [cipherValue]

theorem isValueChar_of_mem_headerName (cipher : ChainedCipher) :
    ∀ c ∈ cipher.headerName.toList, IsValueChar c := by
  have hAll : cipher.headerName.toList.all (IsValueChar ·) = true := by
    cases cipher <;> decide
  simpa only [List.all_eq_true, decide_eq_true_eq] using hAll

theorem isValueChar_of_mem (cipher : ChainedCipher) (iv : Bytes) :
    ∀ c ∈ (cipherValue cipher iv).toList, IsValueChar c := by
  rw [toList_cipherValue, List.forall_mem_append, List.forall_mem_cons]
  refine ⟨isValueChar_of_mem_headerName cipher, by decide, Hex.forall_mem_encodeUpper ?_ iv⟩
  intro n hn
  obtain ⟨-, hBlank, hEnd, hColon, -⟩ := Hex.upper_spec n hn
  exact ⟨hBlank, hEnd, hColon⟩

/-- The header lines of an encrypted block. -/
def encryptedLines (cipher : ChainedCipher) (iv : Bytes) : List String :=
  ["Proc-Type: " ++ encryptedMark, "DEK-Info: " ++ cipherValue cipher iv, ""]

theorem isPart_of_chars {cs : List Char} (hSome : cs ≠ []) (hChars : ∀ c ∈ cs, IsValueChar c) :
    IsPart cs where
  ne_nil := hSome
  whole := not_separator_of_no_colon fun hColon => (hChars ':' hColon).2.2 rfl
  isOneLine c hc := (hChars c hc).2.1
  first c hc := (hChars c (List.mem_of_mem_head? hc)).1
  last c hc := (hChars c (List.mem_of_getLast? hc)).1

/-- The header that marks a block as encrypted. -/
def encryptedHeader : Header where
  name := "Proc-Type"
  value := encryptedMark

/-- The header that tells the cipher. -/
def cipherNamed (cipher : ChainedCipher) (iv : Bytes) : Header where
  name := "DEK-Info"
  value := cipherValue cipher iv
  isPart_value := by
    refine isPart_of_chars ?_ (isValueChar_of_mem cipher iv)
    rw [toList_cipherValue]
    simp

theorem heads_encrypted (cipher : ChainedCipher) (iv : Bytes) : Heads (encryptedLines cipher iv)
    [("proc-type", encryptedMark), ("dek-info", cipherValue cipher iv)] := by
  refine ⟨[encryptedHeader, cipherNamed cipher iv], 1, ?_, ?_⟩
  · simp [encryptedLines, encryptedHeader, cipherNamed, Header.line, separator]
  · have hMark : encryptedHeader.key = "proc-type" := by
      rw [Header.key_eq]
      decide
    have hCipher : (cipherNamed cipher iv).key = "dek-info" := by
      rw [Header.key_eq]
      exact (by decide : String.ofList ("DEK-Info".toList.map Char.toLower) = "dek-info")
    simp only [Header.collect, List.foldl_cons, List.foldl_nil, hMark, hCipher]
    rfl

variable {b : PemBlock} {cipher : ChainedCipher} {iv : Bytes}

theorem cipherHeader_encrypted
    (h : b.headers = [("proc-type", encryptedMark), ("dek-info", cipherValue cipher iv)]) :
    b.cipherHeader = .ok (cipher, Hex.encodeUpper iv) := by
  have hHeader : b.header "dek-info" = some (cipherValue cipher iv) := by
    rw [header, h]
    rfl
  have hComma : ',' ∉ cipher.headerName.toList := by
    cases cipher <;> decide
  have hDigits : ',' ∉ (Hex.encodeUpper iv).toList := by
    intro hMember
    exact Hex.forall_mem_encodeUpper (P := (· ≠ ',')) (fun n hn => (Hex.upper_spec n hn).2.2.2.2)
      iv ',' hMember rfl
  rw [cipherHeader, hHeader, Option.map_some, toList_cipherValue, Text.splitOn_pair hComma hDigits]
  simp only [String.ofList_toList, ChainedCipher.ofHeaderName_headerName]
  rfl

theorem readIv_encodeUpper (hLength : iv.length = cipher.blockSize) :
    readIv cipher (Hex.encodeUpper iv) = .ok iv := by
  have hPlain : Text.trim (Hex.encodeUpper iv).toList = (Hex.encodeUpper iv).toList :=
    Text.trim_eq_self (Hex.forall_mem_encodeUpper (fun n hn => (Hex.upper_spec n hn).2.1) iv)
  rw [readIv, hPlain, Hex.decode?_encodeUpper]
  exact if_pos hLength

end PemBlock
end SshKeys
