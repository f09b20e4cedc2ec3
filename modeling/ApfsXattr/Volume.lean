import ApfsXattr.Catalog

/-!
# The volume and the collaborators of the xattr code

Besides the catalog, the xattr code touches the extent records of the streams that hold large
values, the blocks those extents point at, and the volume's counter of object ids. The
collaborators that change them (block allocation, truncation, the catalog's insert, replace and
remove) are outside the modelled source and are modelled from the spec, none of them failing.

An extent record maps one logical block of a stream to one physical block. A block that no
extent record holds is free, so the allocator hands out a block past every block in use, and
truncation frees a block by dropping its extent.

`Fs` pairs the volume with the list of every volume a collaborator call left behind. The code
never reads that list; it is what lets a theorem speak of the states inside one call.
-/

namespace Apfs

/-- Modelled from the spec: a file extent record, mapping logical block `lblk` of stream `dsId`
to physical block `pblk`. -/
structure FileExtent where
  dsId : BitVec 64
  lblk : Nat
  pblk : Nat
deriving DecidableEq

/-- What the xattr code reads and changes on the volume; `blocksizeBits` is
`s_blocksize_bits` and `encrypted` is `apfs_vol_is_encrypted`. -/
structure Volume where
  catalog : Catalog
  extents : List FileExtent
  blocks : Nat → Mem
  nextObjId : BitVec 64
  blocksizeBits : Nat
  encrypted : Bool

/-- The number of blocks that hold `size` bytes, `(size + s_blocksize - 1) >> s_blocksize_bits`. -/
def blockCount (bits size : Nat) : Nat := (size + 2 ^ bits - 1) >>> bits

theorem blockCount_eq (bits size : Nat) : blockCount bits size = (size + 2 ^ bits - 1) / 2 ^ bits :=
  Nat.shiftRight_eq_div_pow _ _

theorem blockCount_mono (bits : Nat) {a b : Nat} (h : a ≤ b) : blockCount bits a ≤ blockCount bits b := by
  rw [blockCount_eq, blockCount_eq]
  exact Nat.div_le_div_right (by omega)

@[simp]
theorem blockCount_zero (bits : Nat) : blockCount bits 0 = 0 := by
  rw [blockCount_eq, Nat.zero_add,
    Nat.div_eq_of_lt (Nat.sub_lt (Nat.pos_pow_of_pos _ (by decide)) Nat.one_pos)]

/-- Modelled from the spec: `apfs_logic_to_phys_bno` resolves logical block `i` of a stream
through its newest extent record; a block no extent maps is a hole, physical block 0. -/
def apfsLogicToPhysBno (v : Volume) (dsId : BitVec 64) (i : Nat) : Nat :=
  match v.extents.find? fun e => e.dsId == dsId && e.lblk == i with
  | some e => e.pblk
  | none => 0

/-- The bytes of a stream as the block store holds them: its blocks one after another. -/
def streamData (v : Volume) (dsId : BitVec 64) : Mem :=
  fun j => v.blocks (apfsLogicToPhysBno v dsId (j >>> v.blocksizeBits)) (j % 2 ^ v.blocksizeBits)

theorem streamData_congr {v w : Volume} {dsId : BitVec 64} (hbits : w.blocksizeBits = v.blocksizeBits)
    (hblocks : w.blocks = v.blocks)
    (hphys : ∀ i, apfsLogicToPhysBno w dsId i = apfsLogicToPhysBno v dsId i) :
    streamData w dsId = streamData v dsId := by
  funext j
  simp only [streamData, hbits, hblocks, hphys]

/-- The volume with the ghost record of every volume a collaborator left behind, newest first. -/
structure Fs where
  vol : Volume
  history : List Volume

/-- One collaborator call changing the volume by `f`. -/
def Fs.mutate (s : Fs) (f : Volume → Volume) : Fs := ⟨f s.vol, f s.vol :: s.history⟩

@[simp] theorem Fs.mutate_vol (s : Fs) (f : Volume → Volume) : (s.mutate f).vol = f s.vol := rfl

@[simp] theorem Fs.mutate_history (s : Fs) (f : Volume → Volume) :
    (s.mutate f).history = f s.vol :: s.history := rfl

/-! ## Changes to the volume -/

/-- The volume with one more extent record, the newest. -/
@[simps]
def Volume.addExtent (v : Volume) (e : FileExtent) : Volume := { v with extents := e :: v.extents }

/-- The volume with block `bno` holding `data`. -/
@[simps]
def Volume.writeBlock (v : Volume) (bno : Nat) (data : Mem) : Volume :=
  { v with blocks := Function.update v.blocks bno data }

/-- The volume with only the extent records `p` keeps. -/
@[simps]
def Volume.filterExtents (v : Volume) (p : FileExtent → Bool) : Volume :=
  { v with extents := v.extents.filter p }

/-- The volume with its catalog changed by `f`. -/
@[simps]
def Volume.mapCatalog (v : Volume) (f : Catalog → Catalog) : Volume := { v with catalog := f v.catalog }

/-- The volume with its next object id moved on by one (`le64_add_cpu`). -/
@[simps]
def Volume.bumpNextObjId (v : Volume) : Volume := { v with nextObjId := v.nextObjId + 1 }

/-! ## Collaborators -/

/-- Modelled from the spec: the block allocator hands out a physical block that no extent
record holds, past every block in use. -/
def freshBno (v : Volume) : Nat := (v.extents.map (·.pblk)).foldr max 0 + 1

/-- `apfs_dstream_get_new_bno`: a new block for logical block `i` of the stream. The extent cache
is not modelled: the extent record is written at once, which leaves nothing for
`apfs_flush_extent_cache` to do. -/
def apfsDstreamGetNewBno (s : Fs) (d : ApfsDstreamInfo) (i : Nat) : Nat × Fs :=
  let bno := freshBno s.vol
  (bno, s.mutate (·.addExtent ⟨d.dsId, i, bno⟩))

/-- A block written through its buffer head under the transaction. -/
def Fs.writeBlock (s : Fs) (bno : Nat) (data : Mem) : Fs := s.mutate (·.writeBlock bno data)

/-- The extent records `apfs_truncate` keeps: those of other streams, and those of the stream
below the block that holds byte `newSize`. -/
def truncateKeeps (bits : Nat) (d : ApfsDstreamInfo) (newSize : Nat) (e : FileExtent) : Bool :=
  e.dsId != d.dsId || decide (e.lblk < blockCount bits newSize)

/-- Modelled from the spec: `apfs_truncate` releases every block of the stream from the block
that holds byte `newSize` on. -/
def apfsTruncate (s : Fs) (d : ApfsDstreamInfo) (newSize : Nat) : Int × Fs :=
  (0, s.mutate fun v => v.filterExtents (truncateKeeps v.blocksizeBits d newSize))

/-- `apfs_btree_insert`. -/
def apfsBtreeInsert (s : Fs) (k : XattrKey) (r : RawRecord) : Fs :=
  s.mutate (·.mapCatalog (·.insert k r))

/-- `apfs_btree_replace`. -/
def apfsBtreeReplace (s : Fs) (k : XattrKey) (r : RawRecord) : Fs :=
  s.mutate (·.mapCatalog (·.replace k r))

/-- `apfs_btree_remove`. -/
def apfsBtreeRemove (s : Fs) (k : XattrKey) : Fs :=
  s.mutate (·.mapCatalog (·.erase k))

/-! ## Extents -/

/-- Lookups see only the extent records. -/
theorem apfsLogicToPhysBno_congr {v v' : Volume} (h : v.extents = v'.extents) :
    apfsLogicToPhysBno v = apfsLogicToPhysBno v' := by
  funext dsId i
  simp only [apfsLogicToPhysBno, h]

@[simp]
theorem apfsLogicToPhysBno_writeBlock (v : Volume) (bno : Nat) (data : Mem) :
    apfsLogicToPhysBno (v.writeBlock bno data) = apfsLogicToPhysBno v := rfl

@[simp]
theorem apfsLogicToPhysBno_mapCatalog (v : Volume) (f : Catalog → Catalog) :
    apfsLogicToPhysBno (v.mapCatalog f) = apfsLogicToPhysBno v := rfl

@[simp]
theorem apfsLogicToPhysBno_bumpNextObjId (v : Volume) :
    apfsLogicToPhysBno v.bumpNextObjId = apfsLogicToPhysBno v := rfl

/-- The newest extent record is the one a lookup of its block finds. -/
theorem apfsLogicToPhysBno_addExtent (v : Volume) (e : FileExtent) (dsId : BitVec 64) (i : Nat) :
    apfsLogicToPhysBno (v.addExtent e) dsId i =
      if e.dsId = dsId ∧ e.lblk = i then e.pblk else apfsLogicToPhysBno v dsId i := by
  simp only [apfsLogicToPhysBno, Volume.addExtent_extents, List.find?_cons]
  by_cases h : e.dsId = dsId ∧ e.lblk = i
  · simp [h]
  · have hb : (e.dsId == dsId && e.lblk == i) = false := by
      simpa using fun h₁ h₂ => h ⟨h₁, h₂⟩
    simp only [hb, h, ↓reduceIte]

/-- An extent record whose physical block is not 0 is what a lookup returns for it. -/
theorem apfsLogicToPhysBno_ne_zero {v : Volume} {dsId : BitVec 64} {i : Nat}
    (h : apfsLogicToPhysBno v dsId i ≠ 0) :
    ∃ e ∈ v.extents, e.dsId = dsId ∧ e.lblk = i ∧ e.pblk = apfsLogicToPhysBno v dsId i := by
  unfold apfsLogicToPhysBno at h ⊢
  split at h
  · next e he =>
    have hmem := List.mem_of_find?_eq_some he
    have hp := List.find?_some he
    simp only [Bool.and_eq_true, beq_iff_eq] at hp
    exact ⟨e, hmem, hp.1, hp.2, rfl⟩
  · exact absurd rfl h

theorem apfsLogicToPhysBno_filterExtents (v : Volume) (p : FileExtent → Bool) (dsId : BitVec 64)
    (i : Nat) (hp : ∀ e ∈ v.extents, e.dsId = dsId → e.lblk = i → p e = true) :
    apfsLogicToPhysBno (v.filterExtents p) dsId i = apfsLogicToPhysBno v dsId i := by
  simp only [apfsLogicToPhysBno, Volume.filterExtents_extents]
  generalize v.extents = es at hp
  congr 1
  induction es with
  | nil => rfl
  | cons e es ih =>
    have ih := ih fun e' he' => hp e' (List.mem_cons_of_mem _ he')
    by_cases hpe : p e = true
    · rw [List.filter_cons_of_pos hpe, List.find?_cons, List.find?_cons, ih]
    · have hq : (e.dsId == dsId && e.lblk == i) = false := by
        simpa using fun h₁ h₂ => hpe (hp e (List.mem_cons_self _ _) h₁ h₂)
      rw [List.filter_cons_of_neg hpe, List.find?_cons, hq, ih]

theorem le_foldr_max {l : List Nat} {x : Nat} (h : x ∈ l) : x ≤ l.foldr max 0 := by
  induction l with
  | nil => simp at h
  | cons y ys ih =>
    rcases List.mem_cons.1 h with rfl | h
    · exact le_max_left _ _
    · exact le_trans (ih h) (le_max_right _ _)

/-- The block the allocator returns is held by no extent record. -/
theorem pblk_lt_freshBno {v : Volume} {e : FileExtent} (h : e ∈ v.extents) : e.pblk < freshBno v :=
  Nat.lt_succ_of_le (le_foldr_max (List.mem_map_of_mem _ h))

theorem freshBno_pos (v : Volume) : 0 < freshBno v := Nat.succ_pos _

/-- Recording one more extent never moves the allocator backwards. -/
theorem freshBno_le_addExtent (v : Volume) (e : FileExtent) :
    freshBno v ≤ freshBno (v.addExtent e) := by
  simp only [freshBno, Volume.addExtent_extents, List.map_cons, List.foldr_cons]
  omega

/-- Whatever a lookup resolves to, a hole or a block in use, lies below the allocator's next
block. -/
theorem apfsLogicToPhysBno_lt_freshBno (v : Volume) (dsId : BitVec 64) (i : Nat) :
    apfsLogicToPhysBno v dsId i < freshBno v := by
  by_cases h : apfsLogicToPhysBno v dsId i = 0
  · rw [h]
    exact freshBno_pos v
  · obtain ⟨e, he, -, -, hp⟩ := apfsLogicToPhysBno_ne_zero h
    rw [← hp]
    exact pblk_lt_freshBno he

/-! ## Runs through intermediate volumes -/

/-- Every volume the collaborators left behind between `s` and `s'` satisfies `P`. -/
def Fs.Through (P : Volume → Prop) (s s' : Fs) : Prop :=
  ∃ hs, s'.history = hs ++ s.history ∧ ∀ v ∈ hs, P v

theorem Fs.Through.refl (P : Volume → Prop) (s : Fs) : s.Through P s := ⟨[], rfl, by simp⟩

theorem Fs.Through.trans {P : Volume → Prop} {s₁ s₂ s₃ : Fs} (h₁ : s₁.Through P s₂)
    (h₂ : s₂.Through P s₃) : s₁.Through P s₃ := by
  obtain ⟨hs₁, e₁, p₁⟩ := h₁
  obtain ⟨hs₂, e₂, p₂⟩ := h₂
  exact ⟨hs₂ ++ hs₁, by rw [e₂, e₁, List.append_assoc], fun v hv => by
    rcases List.mem_append.1 hv with hv | hv
    · exact p₂ v hv
    · exact p₁ v hv⟩

theorem Fs.Through.mutate {P : Volume → Prop} (s : Fs) (f : Volume → Volume) (h : P (f s.vol)) :
    s.Through P (s.mutate f) := ⟨[f s.vol], rfl, by simpa using h⟩

theorem Fs.Through.mono {P Q : Volume → Prop} {s s' : Fs} (h : s.Through P s') (hPQ : ∀ v, P v → Q v) :
    s.Through Q s' := by
  obtain ⟨hs, e, p⟩ := h
  exact ⟨hs, e, fun v hv => hPQ v (p v hv)⟩

end Apfs
