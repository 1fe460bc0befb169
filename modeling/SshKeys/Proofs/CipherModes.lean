import SshKeys.Cipher.Mode
import SshKeys.Proofs.AesInverse
import SshKeys.Proofs.DesInverse
/-!
# Running block ciphers over whole blocks

For a block cipher that inverts block by block, chaining inverts too, counter mode undoes itself,
and no mode changes the length of a text.
-/
namespace SshKeys

namespace Bytes

variable {α : Type} {size : Nat}

theorem go_flatten (hSize : 0 < size) (fuel : Nat) (xs : List α) (acc : List (List α))
    (hFuel : xs.length ≤ fuel) : (chunks.go size fuel xs acc).flatten = acc.reverse.flatten ++ xs := by
  induction fuel generalizing xs acc with
  | zero =>
    rw [List.length_eq_zero_iff.mp (Nat.le_zero.mp hFuel), chunks.go, List.append_nil]
  | succ fuel ih =>
    rw [chunks.go]
    split
    · rename_i hEmpty
      rw [List.isEmpty_iff.mp hEmpty, List.append_nil]
    · rename_i hSome
      have hLength : (xs.drop size).length ≤ fuel := by
        rw [List.length_drop]
        omega
      rw [ih _ _ hLength, List.reverse_cons, List.flatten_append, List.flatten_singleton,
        List.append_assoc, List.take_append_drop]

theorem flatten_chunks (hSize : 0 < size) (xs : List α) : (chunks size xs).flatten = xs := by
  rw [chunks, go_flatten hSize _ _ _ le_rfl, List.reverse_nil, List.flatten_nil, List.nil_append]

theorem go_lengths (hSize : 0 < size) (fuel : Nat) (xs : List α) (acc : List (List α))
    (hFuel : xs.length ≤ fuel) : ∃ (full : List (List α)) (last : Option (List α)),
      chunks.go size fuel xs acc = acc.reverse ++ (full ++ last.toList) ∧
      (∀ piece ∈ full, piece.length = size) ∧
      ∀ piece ∈ last, 1 ≤ piece.length ∧ piece.length ≤ size := by
  induction fuel generalizing xs acc with
  | zero => exact ⟨[], none, by simp [chunks.go], nofun, nofun⟩
  | succ fuel ih =>
    rw [chunks.go]
    split
    · exact ⟨[], none, by simp, nofun, nofun⟩
    · rename_i hSome
      rw [List.isEmpty_iff, ← List.length_eq_zero_iff] at hSome
      have hDrop : (xs.drop size).length = xs.length - size := List.length_drop
      have hTake : (xs.take size).length = min size xs.length := List.length_take
      by_cases hWhole : size < xs.length
      · obtain ⟨full, last, hCut, hFull, hLast⟩ := ih (xs.drop size) (xs.take size :: acc) (by omega)
        refine ⟨xs.take size :: full, last, ?_, List.forall_mem_cons.mpr ⟨by omega, hFull⟩, hLast⟩
        rw [hCut, List.reverse_cons, List.append_assoc]
        rfl
      · have hEnd : xs.drop size = [] := List.length_eq_zero_iff.mp (by omega)
        refine ⟨[], some (xs.take size), ?_, nofun, ?_⟩
        · rw [hEnd]
          cases fuel <;> simp [chunks.go]
        · rintro piece ⟨⟩
          omega

theorem chunks_lengths (hSize : 0 < size) (xs : List α) :
    ∃ (full : List (List α)) (last : Option (List α)), chunks size xs = full ++ last.toList ∧
      (∀ piece ∈ full, piece.length = size) ∧
      ∀ piece ∈ last, 1 ≤ piece.length ∧ piece.length ≤ size :=
  go_lengths hSize _ xs [] le_rfl

theorem go_flatten_blocks (hSize : 0 < size) {blocks : List (List α)}
    (hBlocks : ∀ b ∈ blocks, b.length = size) (fuel : Nat) (acc : List (List α))
    (hFuel : blocks.flatten.length ≤ fuel) :
    chunks.go size fuel blocks.flatten acc = acc.reverse ++ blocks := by
  induction blocks generalizing fuel acc with
  | nil =>
    cases fuel with
    | zero => simp [chunks.go]
    | succ fuel => simp [chunks.go]
  | cons b blocks ih =>
    rw [List.forall_mem_cons] at hBlocks
    rw [List.flatten_cons, List.length_append] at hFuel
    cases fuel with
    | zero => omega
    | succ fuel =>
      have hSome : ¬(b ++ blocks.flatten).isEmpty := by
        rw [List.isEmpty_iff, List.append_eq_nil_iff, ← List.length_eq_zero_iff]
        omega
      rw [List.flatten_cons, chunks.go, if_neg hSome, List.drop_left' hBlocks.1,
        List.take_left' hBlocks.1, ih hBlocks.2 _ _ (by omega), List.reverse_cons, List.append_assoc]
      rfl

theorem chunks_flatten (hSize : 0 < size) {blocks : List (List α)}
    (hBlocks : ∀ b ∈ blocks, b.length = size) : chunks size blocks.flatten = blocks := by
  rw [chunks, go_flatten_blocks hSize hBlocks _ _ le_rfl, List.reverse_nil, List.nil_append]

theorem exists_blocks (xs : List α) (hWhole : xs.length % size = 0) :
    ∃ blocks : List (List α), xs = blocks.flatten ∧ ∀ b ∈ blocks, b.length = size := by
  obtain ⟨count, hCount⟩ := Nat.dvd_of_mod_eq_zero hWhole
  induction count generalizing xs with
  | zero => exact ⟨[], List.length_eq_zero_iff.mp hCount, nofun⟩
  | succ count ih =>
    rw [Nat.mul_succ] at hCount
    have hRest : (xs.drop size).length = size * count := by
      rw [List.length_drop]
      omega
    obtain ⟨blocks, hBlocks, hLengths⟩ := ih (xs.drop size) (by rw [hRest, Nat.mul_mod_right]) hRest
    refine ⟨xs.take size :: blocks, ?_, List.forall_mem_cons.mpr ⟨?_, hLengths⟩⟩
    · rw [List.flatten_cons, ← hBlocks, List.take_append_drop]
    · rw [List.length_take]
      omega

theorem length_flatten_blocks {blocks : List (List α)} (hBlocks : ∀ b ∈ blocks, b.length = size) :
    blocks.flatten.length = blocks.length * size := by
  rw [List.length_flatten, List.map_congr_left hBlocks, List.map_const', List.sum_replicate_nat]

@[simp] theorem length_xor (a b : Bytes) : (xor a b).length = min a.length b.length :=
  List.length_zipWith

theorem xor_xor {a b : Bytes} (h : a.length ≤ b.length) : xor (xor a b) b = a := by
  induction a generalizing b with
  | nil => rfl
  | cons x a ih =>
    cases b with
    | nil => cases h
    | cons y b =>
      change (x ^^^ y ^^^ y) :: xor (xor a b) b = x :: a
      rw [UInt8.xor_assoc, UInt8.xor_self, UInt8.xor_zero, ih (Nat.le_of_succ_le_succ h)]

end Bytes

namespace BlockCipher

/-- A block cipher whose two directions keep the block size and undo each other. -/
structure Lawful (c : BlockCipher) : Prop where
  positive : 0 < c.blockSize
  length_encrypt : ∀ b, b.length = c.blockSize → (c.encrypt b).length = c.blockSize
  length_decrypt : ∀ b, b.length = c.blockSize → (c.decrypt b).length = c.blockSize
  decrypt_encrypt : ∀ b, b.length = c.blockSize → c.decrypt (c.encrypt b) = b
  encrypt_decrypt : ∀ b, b.length = c.blockSize → c.encrypt (c.decrypt b) = b

theorem lawful_aes (key : Bytes) : (aes key).Lawful where
  positive := (by decide : 0 < 16)
  length_encrypt _ _ := Aes.Block.length_toBytes _
  length_decrypt _ _ := Aes.Block.length_toBytes _
  decrypt_encrypt b h := by
    change (Aes.decryptBlock _ (.ofBytes (Aes.encryptBlock _ _).toBytes)).toBytes = b
    rw [Aes.Block.ofBytes_toBytes, Aes.decryptBlock_encryptBlock, Aes.Block.toBytes_ofBytes h]
  encrypt_decrypt b h := by
    change (Aes.encryptBlock _ (.ofBytes (Aes.decryptBlock _ _).toBytes)).toBytes = b
    rw [Aes.Block.ofBytes_toBytes, Aes.encryptBlock_decryptBlock, Aes.Block.toBytes_ofBytes h]

theorem lawful_tripleDes (key : Bytes) : (tripleDes key).Lawful where
  positive := (by decide : 0 < 8)
  length_encrypt _ _ := Des.Pair.length_toBytes _
  length_decrypt _ _ := Des.Pair.length_toBytes _
  decrypt_encrypt b h := by
    change (Des.decryptPair _ (.ofBytes (Des.encryptPair _ _).toBytes)).toBytes = b
    rw [Des.Pair.ofBytes_toBytes, Des.decryptPair_encryptPair, Des.Pair.toBytes_ofBytes h]
  encrypt_decrypt b h := by
    change (Des.encryptPair _ (.ofBytes (Des.decryptPair _ _).toBytes)).toBytes = b
    rw [Des.Pair.ofBytes_toBytes, Des.encryptPair_decryptPair, Des.Pair.toBytes_ofBytes h]

variable {c : BlockCipher}

/-- What chaining makes of blocks: blocks again, and undoing it gives the first ones back. -/
theorem chainEncrypt_blocks (h : c.Lawful) {blocks : List Bytes} (previous : Bytes)
    (done : List Bytes) (hPrevious : previous.length = c.blockSize)
    (hBlocks : ∀ b ∈ blocks, b.length = c.blockSize) :
    ∃ outs, c.chainEncrypt previous done blocks = (done.reverse ++ outs).flatten ∧
      outs.length = blocks.length ∧ (∀ b ∈ outs, b.length = c.blockSize) ∧
      ∀ done', c.chainDecrypt previous done' outs = (done'.reverse ++ blocks).flatten := by
  induction blocks generalizing previous done with
  | nil => exact ⟨[], by simp [chainEncrypt], rfl, nofun, fun done' => by simp [chainDecrypt]⟩
  | cons block blocks ih =>
    rw [List.forall_mem_cons] at hBlocks
    have hMixed : (Bytes.xor block previous).length = c.blockSize := by
      rw [Bytes.length_xor, hBlocks.1, hPrevious, min_self]
    have hOut : (c.encrypt (Bytes.xor block previous)).length = c.blockSize :=
      h.length_encrypt _ hMixed
    obtain ⟨outs, hOuts, hCount, hLengths, hUndone⟩ := ih _ (c.encrypt (Bytes.xor block previous) :: done)
      hOut hBlocks.2
    refine ⟨c.encrypt (Bytes.xor block previous) :: outs, ?_, congrArg (· + 1) hCount,
      List.forall_mem_cons.mpr ⟨hOut, hLengths⟩, ?_⟩
    · rw [chainEncrypt, hOuts, List.reverse_cons, List.append_assoc]
      rfl
    · intro done'
      rw [chainDecrypt, h.decrypt_encrypt _ hMixed, hUndone, Bytes.xor_xor (by omega),
        List.reverse_cons, List.append_assoc]
      rfl

theorem chainDecrypt_blocks (h : c.Lawful) {blocks : List Bytes} (previous : Bytes)
    (done : List Bytes) (hPrevious : previous.length = c.blockSize)
    (hBlocks : ∀ b ∈ blocks, b.length = c.blockSize) :
    ∃ outs, c.chainDecrypt previous done blocks = (done.reverse ++ outs).flatten ∧
      outs.length = blocks.length ∧ (∀ b ∈ outs, b.length = c.blockSize) ∧
      ∀ done', c.chainEncrypt previous done' outs = (done'.reverse ++ blocks).flatten := by
  induction blocks generalizing previous done with
  | nil => exact ⟨[], by simp [chainDecrypt], rfl, nofun, fun done' => by simp [chainEncrypt]⟩
  | cons block blocks ih =>
    rw [List.forall_mem_cons] at hBlocks
    have hPlain : (c.decrypt block).length = c.blockSize := h.length_decrypt _ hBlocks.1
    have hOut : (Bytes.xor (c.decrypt block) previous).length = c.blockSize := by
      rw [Bytes.length_xor, hPlain, hPrevious, min_self]
    obtain ⟨outs, hOuts, hCount, hLengths, hUndone⟩ :=
      ih block (Bytes.xor (c.decrypt block) previous :: done) hBlocks.1 hBlocks.2
    refine ⟨Bytes.xor (c.decrypt block) previous :: outs, ?_, congrArg (· + 1) hCount,
      List.forall_mem_cons.mpr ⟨hOut, hLengths⟩, ?_⟩
    · rw [chainDecrypt, hOuts, List.reverse_cons, List.append_assoc]
      rfl
    · intro done'
      rw [chainEncrypt, Bytes.xor_xor (by omega), h.encrypt_decrypt _ hBlocks.1, hUndone,
        List.reverse_cons, List.append_assoc]
      rfl

/-- Counter mode adds the same stream whichever way it runs. -/
theorem counterAdd_blocks (h : c.Lawful) {blocks : List Bytes} (counter : Nat) (done : List Bytes)
    (hBlocks : ∀ b ∈ blocks, b.length = c.blockSize) :
    ∃ outs, c.counterAdd counter done blocks = (done.reverse ++ outs).flatten ∧
      outs.length = blocks.length ∧ (∀ b ∈ outs, b.length = c.blockSize) ∧
      ∀ done', c.counterAdd counter done' outs = (done'.reverse ++ blocks).flatten := by
  induction blocks generalizing counter done with
  | nil => exact ⟨[], by simp [counterAdd], rfl, nofun, fun done' => by simp [counterAdd]⟩
  | cons block blocks ih =>
    rw [List.forall_mem_cons] at hBlocks
    have hStream : (c.encrypt (Bytes.ofNat c.blockSize counter)).length = c.blockSize :=
      h.length_encrypt _ (Bytes.length_ofNat _ _)
    have hOut : (Bytes.xor block (c.encrypt (Bytes.ofNat c.blockSize counter))).length =
        c.blockSize := by
      rw [Bytes.length_xor, hBlocks.1, hStream, min_self]
    obtain ⟨outs, hOuts, hCount, hLengths, hUndone⟩ := ih ((counter + 1) % Nat.pow 256 c.blockSize)
      (Bytes.xor block (c.encrypt (Bytes.ofNat c.blockSize counter)) :: done) hBlocks.2
    refine ⟨Bytes.xor block (c.encrypt (Bytes.ofNat c.blockSize counter)) :: outs, ?_,
      congrArg (· + 1) hCount, List.forall_mem_cons.mpr ⟨hOut, hLengths⟩, ?_⟩
    · rw [counterAdd, hOuts, List.reverse_cons, List.append_assoc]
      rfl
    · intro done'
      rw [counterAdd, Bytes.xor_xor (by omega), hUndone, List.reverse_cons, List.append_assoc]
      rfl

end BlockCipher

namespace BlockAlgorithm

theorem lawful_under (a : BlockAlgorithm) (key : Bytes) : (a.under key).Lawful := by
  cases a with
  | aes => exact BlockCipher.lawful_aes key
  | tripleDes => exact BlockCipher.lawful_tripleDes key

theorem blockSize_under (a : BlockAlgorithm) (key : Bytes) : (a.under key).blockSize = a.blockSize := by
  cases a <;> rfl

end BlockAlgorithm

namespace BlockMode

variable {c : BlockCipher} {iv text : Bytes}

/-- What holds of a run over blocks and its undoing holds of whole texts, cut into blocks. -/
theorem undo_run {size : Nat} {run undo : List Bytes → Bytes} (hSize : 0 < size)
    (hText : text.length % size = 0)
    (hRun : ∀ blocks : List Bytes, (∀ b ∈ blocks, b.length = size) → ∃ outs : List Bytes,
      run blocks = outs.flatten ∧ outs.length = blocks.length ∧ (∀ b ∈ outs, b.length = size) ∧
        undo outs = blocks.flatten) :
    (run (Bytes.chunks size text)).length = text.length ∧
      undo (Bytes.chunks size (run (Bytes.chunks size text))) = text := by
  obtain ⟨blocks, rfl, hBlocks⟩ := Bytes.exists_blocks text hText
  obtain ⟨outs, hOuts, hCount, hLengths, hUndone⟩ := hRun blocks hBlocks
  rw [Bytes.chunks_flatten hSize hBlocks, hOuts, Bytes.chunks_flatten hSize hLengths, hUndone,
    Bytes.length_flatten_blocks hLengths, Bytes.length_flatten_blocks hBlocks, hCount]
  exact ⟨rfl, rfl⟩

theorem decrypt_encrypt (m : BlockMode) (h : c.Lawful) (hIv : iv.length = c.blockSize)
    (hText : text.length % c.blockSize = 0) :
    (m.encrypt c iv text).length = text.length ∧ m.decrypt c iv (m.encrypt c iv text) = text := by
  cases m with
  | cbc =>
    refine undo_run h.positive hText fun blocks hBlocks => ?_
    obtain ⟨outs, hOuts, hCount, hLengths, hUndone⟩ := BlockCipher.chainEncrypt_blocks h iv [] hIv hBlocks
    exact ⟨outs, hOuts, hCount, hLengths, hUndone []⟩
  | ctr =>
    refine undo_run h.positive hText fun blocks hBlocks => ?_
    obtain ⟨outs, hOuts, hCount, hLengths, hUndone⟩ :=
      BlockCipher.counterAdd_blocks h (Bytes.toNat iv) [] hBlocks
    exact ⟨outs, hOuts, hCount, hLengths, hUndone []⟩

theorem encrypt_decrypt (m : BlockMode) (h : c.Lawful) (hIv : iv.length = c.blockSize)
    (hText : text.length % c.blockSize = 0) :
    (m.decrypt c iv text).length = text.length ∧ m.encrypt c iv (m.decrypt c iv text) = text := by
  cases m with
  | cbc =>
    refine undo_run h.positive hText fun blocks hBlocks => ?_
    obtain ⟨outs, hOuts, hCount, hLengths, hUndone⟩ := BlockCipher.chainDecrypt_blocks h iv [] hIv hBlocks
    exact ⟨outs, hOuts, hCount, hLengths, hUndone []⟩
  | ctr => exact decrypt_encrypt .ctr h hIv hText

end BlockMode
end SshKeys
