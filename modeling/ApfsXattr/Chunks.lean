import ApfsXattr.Dstream
import Mathlib.Algebra.BigOperators.Group.List

/-!
# The chunk loops over a stream's blocks

`apfs_create_xattr_dstream` and `apfs_xattr_extents_read` walk the blocks of a value of `L`
bytes with the same arithmetic: `blkcnt = (L + bs - 1) >> k` blocks of `bs = 2 ^ k` bytes, and
for block `i` the offset `off = i << k` and the count `tocopy = min(bs, L - off)`.

Everything about these loops follows from one fact, `mem_chunk_iff`: the chunk of block `i`,
the bytes from `off` up to `off + tocopy`, is the set of bytes `j < L` with `j / bs = i`. So a
block is one of the `blkcnt` exactly when its offset is inside the value, the chunks of those
blocks do not overlap and cover `[0, L)`, their sizes add up to `L`, and only the last one can be
short of a block.
-/

namespace Apfs

section Chunk

variable {k L : Nat}

/-- Block `i` is one of the `blkcnt` blocks exactly when its offset is inside the value. -/
theorem lt_blockCount_iff {i : Nat} : i < blockCount k L ↔ i <<< k < L := by
  have hpos := Nat.two_pow_pos k
  rw [blockCount_eq, Nat.shiftLeft_eq, ← Nat.succ_le, Nat.le_div_iff_mul_le hpos, Nat.succ_mul]
  omega

/-- The chunk of block `i` is the bytes of the value that lie in block `i`. -/
theorem mem_chunk_iff {i j : Nat} :
    (i <<< k ≤ j ∧ j < i <<< k + min (2 ^ k) (L - i <<< k)) ↔ (j / 2 ^ k = i ∧ j < L) := by
  have hpos := Nat.two_pow_pos k
  rw [Nat.shiftLeft_eq]
  constructor
  · rintro ⟨hlo, hhi⟩
    exact ⟨Nat.div_eq_of_lt_le hlo (by rw [Nat.succ_mul]; omega), by omega⟩
  · rintro ⟨rfl, hj⟩
    have hdm := Nat.mod_add_div' j (2 ^ k)
    have hml := Nat.mod_lt j hpos
    omega

/-- The chunks of the first `m` blocks hold `min (m * bs) L` bytes between them. -/
theorem sum_chunks (m : Nat) :
    ((List.range m).map fun i => min (2 ^ k) (L - i <<< k)).sum = min (m * 2 ^ k) L := by
  induction m with
  | zero => simp
  | succ m ih =>
    rw [List.sum_range_succ, ih, Nat.shiftLeft_eq, min_mul_add_chunk]

variable (k L)

/-- The offset of each of the `blkcnt` blocks is inside the value, and its chunk holds between
one byte and a block. -/
theorem chunk_bounds {i : Nat} (hi : i < blockCount k L) :
    i <<< k < L ∧ 0 < min (2 ^ k) (L - i <<< k) ∧ min (2 ^ k) (L - i <<< k) ≤ 2 ^ k := by
  have hoff := lt_blockCount_iff.1 hi
  have hpos := Nat.two_pow_pos k
  exact ⟨hoff, by omega, min_le_left _ _⟩

/-- Only the last block's chunk can be short of a block. -/
theorem chunk_short_last {i : Nat} (hi : i < blockCount k L)
    (hshort : min (2 ^ k) (L - i <<< k) < 2 ^ k) : i + 1 = blockCount k L := by
  have hnext : ¬(i + 1) <<< k < L := by
    rw [Nat.shiftLeft_eq, Nat.succ_mul, ← Nat.shiftLeft_eq]
    omega
  have := mt lt_blockCount_iff.1 hnext
  omega

end Chunk

/-! ## Both loops -/

/-- The chunk law of both block loops, for `L ≤ INT_MAX`: the chunks tile `[0, L)` and only the
last is short, so the creator stores the value then zeros and the reader copies `[0, L)`. -/
theorem chunk_loops_tile (k L : Nat) (hL : L ≤ intMax) :
    let blkcnt := blockCount k L
    let off := fun i => i <<< k
    let tocopy := fun i => min (2 ^ k) (L - off i)
    (∀ i < blkcnt, off i ≤ intMax ∧ off i < L ∧ 0 < tocopy i ∧ tocopy i ≤ 2 ^ k) ∧
    (∀ i₁ < blkcnt, ∀ i₂ < blkcnt, ∀ j, off i₁ ≤ j ∧ j < off i₁ + tocopy i₁ →
      off i₂ ≤ j ∧ j < off i₂ + tocopy i₂ → i₁ = i₂) ∧
    (∀ j, j < L ↔ ∃ i < blkcnt, off i ≤ j ∧ j < off i + tocopy i) ∧
    ((List.range blkcnt).map tocopy).sum = L ∧
    (∀ i < blkcnt, tocopy i < 2 ^ k → i + 1 = blkcnt) ∧
    (∀ (s : Fs) (value : List UInt8), s.vol.blocksizeBits = k →
      (apfsCreateXattrDstream s value L).1.dsSize.toNat = L ∧
      ∀ j < blkcnt * 2 ^ k,
        streamData (apfsCreateXattrDstream s value L).2.vol s.vol.nextObjId j =
          if j < L then Mem.ofBytes value j else 0) ∧
    (∀ (v : Volume) (dsId : BitVec 64) (buf : Mem) (j : Nat), v.blocksizeBits = k →
      (List.range blkcnt).foldl (copyBlock v dsId L) buf j =
        if j < L then streamData v dsId j else buf j) := by
  dsimp only
  refine ⟨fun i hi => ?_, fun i₁ _ i₂ _ j h₁ h₂ => ?_, fun j => ⟨fun hj => ?_, ?_⟩, ?_,
    fun i hi => chunk_short_last k L hi,
    fun s value hk => ⟨?_, hk ▸ apfsCreateXattrDstream_blocks s value L⟩, fun v dsId buf j hk => ?_⟩
  · obtain ⟨hoff, hpos, hle⟩ := chunk_bounds k L hi
    exact ⟨by omega, hoff, hpos, hle⟩
  · exact (mem_chunk_iff.1 h₁).1.symm.trans (mem_chunk_iff.1 h₂).1
  · -- byte `j` lies in block `j / bs`, one of the `blkcnt`
    have hlo : (j / 2 ^ k) <<< k ≤ j := by rw [Nat.shiftLeft_eq]; exact Nat.div_mul_le_self j _
    exact ⟨j / 2 ^ k, lt_blockCount_iff.2 (by omega), mem_chunk_iff.2 ⟨rfl, hj⟩⟩
  · rintro ⟨i, -, h⟩
    exact (mem_chunk_iff.1 h).2
  · rw [sum_chunks, Nat.min_eq_right (le_blockCount_mul k L)]
  · have hsize : (BitVec.ofNat 64 L).toNat = L := by
      simp only [intMax] at hL
      rw [BitVec.toNat_ofNat]
      omega
    rw [(apfsCreateXattrDstream_spec s value L).1, hsize]
  · subst hk
    rw [foldl_copyBlock_all, memcpy_apply]
    simp

/-- A value of one block and one byte, in blocks of 4096 bytes, is copied in chunks that add up
to it. -/
theorem chunk_loops_tile_block_and_one :
    4097 ≤ intMax ∧
      ((List.range (blockCount 12 4097)).map fun i => min (2 ^ 12) (4097 - i <<< 12)).sum = 4097 :=
  ⟨by decide, (chunk_loops_tile 12 4097 (by decide)).2.2.2.1⟩

end Apfs
