import ApfsXattr.Read

/-!
# Creating the stream of a large value

`apfs_create_xattr_dstream` takes the volume's next object id for the new stream and then, block
by block, asks for a new physical block, copies the matching chunk of the value into it,
zero-pads the last one and adds the bytes copied to the stream's size.

`CreateRun` is what holds after the first `k` passes of the loop, and `createRun_step` is the
one-pass lemma it rests on. `apfsCreateXattrDstream_spec` reads off the whole run: the stream
holds the value and has its size, its blocks are new, and nothing any other stream or the
catalog sees has changed, in the final volume and in every volume in between.
-/

namespace Apfs

/-- One pass of the loop of `apfs_create_xattr_dstream`, for block `i`. -/
def createXattrDstreamStep (value : List UInt8) (size : Nat) (acc : ApfsDstreamInfo × Fs) (i : Nat) :
    ApfsDstreamInfo × Fs :=
  let dstream := acc.1
  let got := apfsDstreamGetNewBno acc.2 dstream i
  let bno := got.1
  let s := got.2
  let bits := s.vol.blocksizeBits
  let off := i <<< bits
  let tocopy := min (2 ^ bits) (size - off)
  let data := memcpy (s.vol.blocks bno) 0 (Mem.ofBytes value) off tocopy
  let data := if tocopy < 2 ^ bits then memset data tocopy 0 (2 ^ bits - tocopy) else data
  ({ dstream with dsSize := dstream.dsSize + BitVec.ofNat 64 tocopy }, s.writeBlock bno data)

/-- `apfs_create_xattr_dstream`. -/
def apfsCreateXattrDstream (s : Fs) (value : List UInt8) (size : Nat) : ApfsDstreamInfo × Fs :=
  let dstream : ApfsDstreamInfo := ⟨s.vol.nextObjId, 0⟩
  let s := s.mutate (·.bumpNextObjId)
  let blkcnt := blockCount s.vol.blocksizeBits size
  (List.range blkcnt).foldl (createXattrDstreamStep value size) (dstream, s)

/-! ## One pass of the loop -/

/-- What the volume looks like to everything but the new stream `D`: the catalog, the block size
and the blocks every other stream resolves to are those of `v₀`. -/
def OutsideStream (v₀ : Volume) (D : BitVec 64) (v : Volume) : Prop :=
  v.catalog = v₀.catalog ∧ v.blocksizeBits = v₀.blocksizeBits ∧
    ∀ id, id ≠ D → ∀ i, apfsLogicToPhysBno v id i = apfsLogicToPhysBno v₀ id i

/-- The state after the first `k` passes of the loop, started from `v₀` for the stream `D`:
every extent added is a new block of `D`, the first `k` blocks of `D` are mapped to new blocks
holding the value, the size counts the bytes copied, and the rest of the volume is as in `v₀`. -/
structure CreateRun (v₀ : Volume) (D : BitVec 64) (value : List UInt8) (size k : Nat)
    (d : ApfsDstreamInfo) (v : Volume) : Prop where
  ds_id : d.dsId = D
  ds_size : d.dsSize = BitVec.ofNat 64 (min (k * 2 ^ v₀.blocksizeBits) size)
  catalog : v.catalog = v₀.catalog
  next : v.nextObjId = v₀.nextObjId
  bits : v.blocksizeBits = v₀.blocksizeBits
  encrypted : v.encrypted = v₀.encrypted
  extents : ∀ e ∈ v.extents, e ∈ v₀.extents ∨ (e.dsId = D ∧ freshBno v₀ ≤ e.pblk)
  fresh : freshBno v₀ ≤ freshBno v
  phys_other : ∀ id, id ≠ D → ∀ i, apfsLogicToPhysBno v id i = apfsLogicToPhysBno v₀ id i
  phys_new : ∀ i < k, freshBno v₀ ≤ apfsLogicToPhysBno v D i
  blocks : ∀ b < freshBno v₀, v.blocks b = v₀.blocks b
  data : ∀ j < min (k * 2 ^ v₀.blocksizeBits) size, streamData v D j = Mem.ofBytes value j

theorem createRun_zero (v₀ : Volume) (D : BitVec 64) (value : List UInt8) (size : Nat) :
    CreateRun v₀ D value size 0 ⟨D, 0⟩ v₀ where
  ds_id := rfl
  ds_size := by simp
  catalog := rfl
  next := rfl
  bits := rfl
  encrypted := rfl
  extents := fun e he => .inl he
  fresh := le_refl _
  phys_other := fun _ _ _ => rfl
  phys_new := fun _ h => absurd h (Nat.not_lt_zero _)
  blocks := fun _ _ => rfl
  data := fun _ h => absurd h (by simp)

/-- A block of the new stream that the run has mapped is not a hole. -/
theorem CreateRun.phys_ne_zero {v₀ : Volume} {D : BitVec 64} {value : List UInt8} {size k : Nat}
    {d : ApfsDstreamInfo} {v : Volume} (h : CreateRun v₀ D value size k d v) {i : Nat} (hi : i < k) :
    apfsLogicToPhysBno v D i ≠ 0 :=
  (lt_of_lt_of_le (freshBno_pos v₀) (h.phys_new i hi)).ne'

/-- The zero padding of a partial block leaves the bytes copied into it alone. -/
theorem padded_apply (data : Mem) (tocopy n p : Nat) (c : Prop) [Decidable c] (hp : p < tocopy) :
    (if c then memset data tocopy 0 n else data) p = data p := by
  split_ifs
  · rw [memset_apply, if_neg (by omega)]
  · rfl

/-- Past the bytes copied into a partial block, the zero padding gives zeros. -/
theorem padded_apply_zero (data : Mem) (tocopy B p : Nat) (hp₁ : tocopy ≤ p) (hp₂ : p < B) :
    (if tocopy < B then memset data tocopy 0 (B - tocopy) else data) p = 0 := by
  rw [if_pos (by omega), memset_apply, if_pos (by omega)]

/-- The bytes of the stream copied after `k` passes: `min (k * bs) size` grows by the chunk
`min bs (size - k * bs)`. -/
theorem min_mul_add_chunk (k B S : Nat) :
    min (k * B) S + min B (S - k * B) = min ((k + 1) * B) S := by
  rw [Nat.succ_mul]
  omega

/-- Pass `k` writes block `k` of the new stream: the value's bytes from `k * bs` on, then zeros
to the end of the block; the blocks before it are as they were. -/
theorem createRun_step_streamData {v₀ : Volume} {D : BitVec 64} {value : List UInt8}
    {size k : Nat} {d : ApfsDstreamInfo} {s : Fs} (h : CreateRun v₀ D value size k d s.vol)
    {j : Nat} (hj : j < (k + 1) * 2 ^ v₀.blocksizeBits) :
    streamData (createXattrDstreamStep value size (d, s) k).2.vol D j =
      if j < k * 2 ^ v₀.blocksizeBits then streamData s.vol D j
      else if j < size then Mem.ofBytes value j else 0 := by
  set B := 2 ^ v₀.blocksizeBits with hB
  have hpos : 0 < B := Nat.pos_pow_of_pos _ (by decide)
  rw [Nat.succ_mul] at hj
  simp only [createXattrDstreamStep, apfsDstreamGetNewBno, Fs.writeBlock, Fs.mutate_vol,
    streamData, Nat.shiftRight_eq_div_pow, apfsLogicToPhysBno_writeBlock,
    Volume.writeBlock_blocks, Volume.writeBlock_blocksizeBits, Volume.addExtent_blocksizeBits,
    Volume.addExtent_blocks, h.bits, ← hB, h.ds_id, Nat.shiftLeft_eq]
  by_cases hlow : j < k * B
  · -- a byte of an earlier block, which is not the block just written
    have hjk : j / B < k := (Nat.div_lt_iff_lt_mul hpos).2 hlow
    obtain ⟨e, he, -, -, hp⟩ := apfsLogicToPhysBno_ne_zero (h.phys_ne_zero hjk)
    rw [if_pos hlow, apfsLogicToPhysBno_addExtent,
      if_neg (show ¬(D = D ∧ k = j / B) from fun h' => absurd h'.2 (by omega)),
      Function.update_noteq (by rw [← hp]; exact (pblk_lt_freshBno he).ne), Volume.addExtent_blocks]
  have hjk : j / B = k := Nat.div_eq_of_lt_le (by omega) (by rw [Nat.succ_mul]; omega)
  have hdm := Nat.mod_add_div j B
  rw [hjk, Nat.mul_comm] at hdm
  rw [if_neg hlow, apfsLogicToPhysBno_addExtent,
    if_pos (show D = D ∧ k = j / B from ⟨rfl, hjk.symm⟩), Function.update_same]
  by_cases hval : j < size
  · -- a byte of block `k`, copied from the value
    rw [if_pos hval, padded_apply _ _ _ _ _ (by omega), memcpy_apply, if_pos (by omega)]
    congr 1
    omega
  · -- a byte of block `k` past the value: the padding
    rw [if_neg hval]
    exact padded_apply_zero _ _ _ _ (by omega) (Nat.mod_lt _ hpos)

/-- One pass of the loop keeps `CreateRun`, for one more block. -/
theorem createRun_step {v₀ : Volume} {D : BitVec 64} {value : List UInt8} {size k : Nat}
    {d : ApfsDstreamInfo} {s : Fs} (h : CreateRun v₀ D value size k d s.vol) :
    let r := createXattrDstreamStep value size (d, s) k
    CreateRun v₀ D value size (k + 1) r.1 r.2.vol ∧ s.Through (OutsideStream v₀ D) r.2 := by
  have hdata : ∀ j < min ((k + 1) * 2 ^ v₀.blocksizeBits) size,
      streamData (createXattrDstreamStep value size (d, s) k).2.vol D j = Mem.ofBytes value j := by
    intro j hj
    rw [createRun_step_streamData h (lt_of_lt_of_le hj (min_le_left _ _))]
    split_ifs with hlow hval
    · exact h.data j (lt_min hlow (lt_of_lt_of_le hj (min_le_right _ _)))
    · rfl
    · exact absurd (lt_of_lt_of_le hj (min_le_right _ _)) hval
  set B := 2 ^ v₀.blocksizeBits with hB
  set bno := freshBno s.vol
  set v₁ := s.vol.addExtent ⟨D, k, bno⟩
  have hbno : freshBno v₀ ≤ bno := h.fresh
  have hold : ∀ i, i ≠ k → apfsLogicToPhysBno v₁ D i = apfsLogicToPhysBno s.vol D i := fun i hi => by
    rw [apfsLogicToPhysBno_addExtent, if_neg (fun h' => hi h'.2.symm)]
  have hnew : apfsLogicToPhysBno v₁ D k = bno := by
    rw [apfsLogicToPhysBno_addExtent, if_pos ⟨rfl, rfl⟩]
  have hother : ∀ id, id ≠ D → ∀ i, apfsLogicToPhysBno v₁ id i = apfsLogicToPhysBno v₀ id i :=
    fun id hid i => by
      rw [apfsLogicToPhysBno_addExtent, if_neg (fun h' => hid h'.1.symm), h.phys_other id hid i]
  simp only [createXattrDstreamStep, apfsDstreamGetNewBno, Fs.writeBlock, Fs.mutate_vol,
    Volume.addExtent_blocksizeBits, Volume.addExtent_blocks, h.bits, ← hB, h.ds_id,
    Nat.shiftLeft_eq] at hdata ⊢
  refine ⟨⟨rfl, ?_, h.catalog, h.next, h.bits, h.encrypted, ?_, ?_, ?_, ?_, ?_, hdata⟩, ?_⟩
  · rw [h.ds_size, BitVec.ofNat_add_ofNat, min_mul_add_chunk]
  · intro e he
    rcases List.mem_cons.1 he with rfl | he
    · exact .inr ⟨rfl, hbno⟩
    · exact h.extents e he
  · exact le_trans h.fresh (freshBno_le_addExtent _ _)
  · simpa only [apfsLogicToPhysBno_writeBlock] using hother
  · intro i hi
    rw [apfsLogicToPhysBno_writeBlock]
    by_cases hik : i = k
    · rw [hik, hnew]
      exact hbno
    · rw [hold i hik]
      exact h.phys_new i (by omega)
  · intro b hb
    rw [Volume.writeBlock_blocks, Function.update_noteq (by omega), Volume.addExtent_blocks]
    exact h.blocks b hb
  · exact (Fs.Through.mutate _ _ ⟨h.catalog, h.bits, hother⟩).trans
      (Fs.Through.mutate _ _ ⟨h.catalog, h.bits,
        by simpa only [apfsLogicToPhysBno_writeBlock] using hother⟩)

/-! ## The whole run -/

/-- After `k` passes of the loop from `(⟨D, 0⟩, s)`, `CreateRun` holds and every volume in
between looks unchanged from outside the new stream. -/
theorem createRun_foldl (value : List UInt8) (size : Nat) (D : BitVec 64) (s : Fs) (k : Nat) :
    let r := (List.range k).foldl (createXattrDstreamStep value size) (⟨D, 0⟩, s)
    CreateRun s.vol D value size k r.1 r.2.vol ∧ s.Through (OutsideStream s.vol D) r.2 := by
  induction k with
  | zero => exact ⟨createRun_zero s.vol D value size, Fs.Through.refl _ _⟩
  | succ k ih =>
    obtain ⟨hrun, hthr⟩ := ih
    rw [List.range_succ, List.foldl_append, List.foldl_cons, List.foldl_nil]
    obtain ⟨hrun', hthr'⟩ := createRun_step hrun
    exact ⟨hrun', hthr.trans hthr'⟩

/-- After `k` passes of the loop from `(⟨D, 0⟩, s)`, the first `k` blocks of the new stream hold
the value, and zeros past its end. -/
theorem createRun_foldl_blocks (value : List UInt8) (size : Nat) (D : BitVec 64) (s : Fs) (k : Nat) :
    let r := (List.range k).foldl (createXattrDstreamStep value size) (⟨D, 0⟩, s)
    ∀ j < k * 2 ^ s.vol.blocksizeBits,
      streamData r.2.vol D j = if j < size then Mem.ofBytes value j else 0 := by
  dsimp only
  induction k with
  | zero => intro j hj; simp at hj
  | succ k ih =>
    intro j hj
    rw [List.range_succ, List.foldl_append, List.foldl_cons, List.foldl_nil,
      createRun_step_streamData (createRun_foldl value size D s k).1 hj]
    by_cases hlow : j < k * 2 ^ s.vol.blocksizeBits
    · rw [if_pos hlow, ih j hlow]
    · rw [if_neg hlow]

/-- Every byte of `size` is in one of the `blockCount` blocks. -/
theorem le_blockCount_mul (bits size : Nat) : size ≤ blockCount bits size * 2 ^ bits := by
  have hpos : 0 < 2 ^ bits := Nat.pos_pow_of_pos _ (by decide)
  have := Nat.div_add_mod (size + 2 ^ bits - 1) (2 ^ bits)
  have := Nat.mod_lt (size + 2 ^ bits - 1) hpos
  rw [blockCount_eq, Nat.mul_comm]
  omega

/-- `apfs_create_xattr_dstream` makes a stream with the old next object id that holds the value
at new blocks, and nothing else sees a change, at the end or on the way. -/
theorem apfsCreateXattrDstream_spec (s : Fs) (value : List UInt8) (size : Nat) :
    let r := apfsCreateXattrDstream s value size
    let v₀ := s.vol.bumpNextObjId
    r.1 = ⟨s.vol.nextObjId, BitVec.ofNat 64 size⟩ ∧
    r.2.vol.catalog = s.vol.catalog ∧ r.2.vol.nextObjId = s.vol.nextObjId + 1 ∧
    r.2.vol.blocksizeBits = s.vol.blocksizeBits ∧ r.2.vol.encrypted = s.vol.encrypted ∧
    (∀ e ∈ r.2.vol.extents, e ∈ s.vol.extents ∨ (e.dsId = s.vol.nextObjId ∧ freshBno s.vol ≤ e.pblk)) ∧
    (∀ id, id ≠ s.vol.nextObjId → ∀ i, apfsLogicToPhysBno r.2.vol id i = apfsLogicToPhysBno s.vol id i) ∧
    (∀ i < blockCount s.vol.blocksizeBits size, freshBno s.vol ≤ apfsLogicToPhysBno r.2.vol s.vol.nextObjId i) ∧
    (∀ b < freshBno s.vol, r.2.vol.blocks b = s.vol.blocks b) ∧
    (∀ j < size, streamData r.2.vol s.vol.nextObjId j = Mem.ofBytes value j) ∧
    s.Through (OutsideStream v₀ s.vol.nextObjId) r.2 := by
  dsimp only
  obtain ⟨hrun, hthr⟩ := createRun_foldl value size s.vol.nextObjId
    (s.mutate (·.bumpNextObjId)) (blockCount s.vol.blocksizeBits size)
  have hmin : min (blockCount s.vol.blocksizeBits size * 2 ^ s.vol.blocksizeBits) size = size :=
    Nat.min_eq_right (le_blockCount_mul _ _)
  exact ⟨ApfsDstreamInfo.ext hrun.ds_id (hrun.ds_size.trans (congrArg _ hmin)), hrun.catalog,
    hrun.next, hrun.bits, hrun.encrypted, hrun.extents, hrun.phys_other, hrun.phys_new, hrun.blocks,
    fun j hj => hrun.data j (hmin.symm ▸ hj), (Fs.Through.mutate _ _ ⟨rfl, rfl, fun _ _ _ => rfl⟩).trans hthr⟩

/-- The blocks of the stream `apfs_create_xattr_dstream` makes hold the value, and zeros from its
end to the end of the last block. -/
theorem apfsCreateXattrDstream_blocks (s : Fs) (value : List UInt8) (size : Nat) :
    ∀ j < blockCount s.vol.blocksizeBits size * 2 ^ s.vol.blocksizeBits,
      streamData (apfsCreateXattrDstream s value size).2.vol s.vol.nextObjId j =
        if j < size then Mem.ofBytes value j else 0 :=
  createRun_foldl_blocks value size s.vol.nextObjId (s.mutate (·.bumpNextObjId)) _

/-- The stream `apfs_create_xattr_dstream` makes for a whole value has every block mapped and
reads back as the value. -/
theorem apfsCreateXattrDstream_reads (s : Fs) (value : List UInt8) :
    let r := apfsCreateXattrDstream s value value.length
    (∀ i < blockCount s.vol.blocksizeBits value.length,
      apfsLogicToPhysBno r.2.vol s.vol.nextObjId i ≠ 0) ∧
    (streamData r.2.vol s.vol.nextObjId).read 0 value.length = value := by
  obtain ⟨-, -, -, -, -, -, -, hnew, -, hdata, -⟩ := apfsCreateXattrDstream_spec s value value.length
  exact ⟨fun i hi => (lt_of_lt_of_le (freshBno_pos _) (hnew i hi)).ne',
    (Mem.read_ext fun j hj => by rw [Nat.zero_add]; exact hdata j hj).trans (Mem.read_ofBytes value)⟩

end Apfs
