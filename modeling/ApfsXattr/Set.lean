import ApfsXattr.Dstream

/-!
# Setting and deleting an xattr

`apfs_xattr_set` first puts a value too large to embed into a new stream, then queries the
catalog for the name. With `XATTR_REPLACE` and no record it fails `-ENODATA`; with
`XATTR_CREATE` and a record it fails `-EEXIST`; with a NULL value and a record it deletes the
record through `apfs_delete_xattr`. Otherwise it builds the new record, inserts it or replaces
the old one, and only then truncates the old record's stream, if it had one.

The branch lemmas (`apfsXattrSet_of_none`, `apfsXattrSet_of_some_value` and the others) say once
which branch a call takes; `xattrSetRecord_spec` and `apfsDeleteXattr_spec` say what the two
branches that change the catalog leave behind.
-/

namespace Apfs

/-- `apfs_xattr_dstream_from_query`: the stream the record refers to, if it has one. -/
def apfsXattrDstreamFromQuery (r : RawRecord) : Except Int (Option ApfsDstreamInfo) :=
  match apfsXattrFromQuery r with
  | .error e => .error e
  | .ok x => .ok (if x.hasDstream then some (apfsDstreamFromXattr x) else none)

/-- `apfs_delete_xattr`, for the record `r` a query found under `k`. -/
def apfsDeleteXattr (s : Fs) (k : XattrKey) (r : RawRecord) : Int × Fs :=
  match apfsXattrFromQuery r with
  | .error e => (e, s)
  | .ok x =>
    if !x.hasDstream then (0, apfsBtreeRemove s k)
    else
      -- Remove the xattr record before truncation, because truncation creates new queries and
      -- makes ours invalid
      apfsTruncate (apfsBtreeRemove s k) (apfsDstreamFromXattr x) 0

/-- The start of `apfs_xattr_set`: a value too large to embed goes to a new stream. -/
def xattrSetStream (s : Fs) (value : List UInt8) (size : Nat) : Option ApfsDstreamInfo × Fs :=
  if size > apfsXattrMaxEmbeddedSize then
    let created := apfsCreateXattrDstream s value size
    (some created.1, created.2)
  else (none, s)

/-- The value `apfs_xattr_set` stores: a reference to the new stream, or the value itself, with
the symlink target marked as owned by the filesystem. -/
def xattrSetVal (v : Volume) (name : CString) (value : List UInt8) (size : Nat)
    (dstream : Option ApfsDstreamInfo) : List UInt8 :=
  let rawVal := match dstream with
    | some d => apfsBuildDstreamXattrVal v.encrypted v.blocksizeBits d
    | none => apfsBuildInlineXattrVal value size
  -- For now this is the only system xattr we support
  markOwned (name.bytes == apfsXattrNameSymlink) rawVal

/-- The end of `apfs_xattr_set`: the new record goes in, by insertion or by replacement, and the
old stream, if there was one, is truncated after. -/
def xattrSetRecord (s : Fs) (ino : Nat) (name : CString) (value : List UInt8) (size : Nat)
    (dstream oldDstream : Option ApfsDstreamInfo) (insert : Bool) : Int × Fs :=
  let key : XattrKey := ⟨ino, name.bytes⟩
  let record : RawRecord := ⟨apfsBuildXattrKey name ino, xattrSetVal s.vol name value size dstream⟩
  let s := if insert then apfsBtreeInsert s key record else apfsBtreeReplace s key record
  match oldDstream with
  | some old => apfsTruncate s old 0
  | none => (0, s)

/-- `apfs_xattr_set`; a NULL value is `none`. -/
def apfsXattrSet (s : Fs) (ino : Nat) (name : CString) (value : Option (List UInt8)) (size : Nat)
    (flags : Nat) : Int × Fs :=
  let created := xattrSetStream s (value.getD []) size
  let dstream := created.1
  let s := created.2
  let key : XattrKey := ⟨ino, name.bytes⟩
  match s.vol.catalog.lookup key with
  | none =>
    if flags &&& xattrReplace ≠ 0 then (-enodata, s)
    else xattrSetRecord s ino name (value.getD []) size dstream none true
  | some r =>
    if flags &&& xattrCreate ≠ 0 then (-eexist, s)
    else match value with
      | none => apfsDeleteXattr s key r
      | some value =>
        -- Remember the old dstream to clean it up later
        match apfsXattrDstreamFromQuery r with
        | .error e => (e, s)
        | .ok oldDstream => xattrSetRecord s ino name value size dstream oldDstream false

/-! ## Decoding stream references -/

theorem apfsXattrDstreamFromQuery_of_valid {r : RawRecord} (h : r.Valid) :
    apfsXattrDstreamFromQuery r =
      .ok (if r.hasDstreamBit then some (apfsDstreamFromXattr r.toXattr) else none) := by
  simp only [apfsXattrDstreamFromQuery, apfsXattrFromQuery_of_valid h]
  rfl

theorem apfsXattrDstreamFromQuery_of_not_valid {r : RawRecord} (h : ¬r.Valid) :
    apfsXattrDstreamFromQuery r = .error (-efscorrupted) := by
  simp only [apfsXattrDstreamFromQuery, apfsXattrFromQuery_of_not_valid h]

/-- A record refers to a stream exactly when it decodes with the stream flag set. -/
theorem apfsXattrDstreamFromQuery_eq_some {r : RawRecord} {d : ApfsDstreamInfo} :
    apfsXattrDstreamFromQuery r = .ok (some d) ↔
      ∃ x, apfsXattrFromQuery r = .ok x ∧ x.hasDstream = true ∧ apfsDstreamFromXattr x = d := by
  cases hq : apfsXattrFromQuery r with
  | error e => simp [apfsXattrDstreamFromQuery, hq]
  | ok x => cases hd : x.hasDstream <;> simp [apfsXattrDstreamFromQuery, hq, hd]

/-- The decoder's only error is corruption, and so is this one's. -/
theorem apfsXattrDstreamFromQuery_error {r : RawRecord} {e : Int}
    (h : apfsXattrDstreamFromQuery r = .error e) : e = -efscorrupted := by
  by_cases hv : r.Valid
  · rw [apfsXattrDstreamFromQuery_of_valid hv] at h
    cases h
  · rw [apfsXattrDstreamFromQuery_of_not_valid hv] at h
    exact (Except.error.inj h).symm

/-- The record `apfs_xattr_set` stores refers to the new stream, if there is one, and to no
stream otherwise. -/
theorem xattrSetVal_dstream (v : Volume) (name : CString) (ino : Nat) (value : List UInt8)
    (size : Nat) (dstream : Option ApfsDstreamInfo) (hname : name.strlen ≤ xattrNameMax)
    (d : ApfsDstreamInfo) :
    apfsXattrDstreamFromQuery ⟨apfsBuildXattrKey name ino, xattrSetVal v name value size dstream⟩ =
      .ok (some d) ↔ dstream = some d := by
  rw [apfsXattrDstreamFromQuery_eq_some]
  cases dstream with
  | some d' =>
    obtain ⟨x, hx, -, -, hxd, hd⟩ := apfsXattrFromQuery_dstream name ino
      (name.bytes == apfsXattrNameSymlink) hname v.encrypted v.blocksizeBits d'
    refine ⟨fun ⟨y, hy, _, hyd⟩ => ?_, fun h => ⟨x, hx, hxd, by rw [hd, Option.some.inj h]⟩⟩
    obtain rfl : x = y := Except.ok.inj (hx.symm.trans hy)
    rw [← hyd, hd]
  | none =>
    refine ⟨fun ⟨x, hx, hxd, _⟩ => ?_, nofun⟩
    obtain ⟨-, rfl⟩ := (apfsXattrFromQuery_eq_ok_iff _ x).1 hx
    have hf := leField_leEncode [] (leEncode 2 size ++ value.take size) 2
      (markedFlags (name.bytes == apfsXattrNameSymlink) apfsXattrDataEmbedded)
    have hemb : ∀ owned, dstreamBit (markedFlags owned apfsXattrDataEmbedded % 256 ^ 2) = false :=
      by decide
    simp only [List.nil_append, List.length_nil] at hf
    simp only [RawRecord.toXattr, RawRecord.hasDstreamBit, RawRecord.flagsField, xattrSetVal,
      apfsBuildInlineXattrVal, List.append_assoc, markOwned_eq, hf] at hxd
    exact absurd ((hemb _).symm.trans hxd) Bool.false_ne_true

/-! ## The start of a set -/

theorem xattrSetStream_of_le {s : Fs} {value : List UInt8} {size : Nat}
    (h : size ≤ apfsXattrMaxEmbeddedSize) : xattrSetStream s value size = (none, s) := by
  simp only [xattrSetStream, gt_iff_lt, if_neg (Nat.not_lt.2 h)]

theorem xattrSetStream_of_lt {s : Fs} {value : List UInt8} {size : Nat}
    (h : apfsXattrMaxEmbeddedSize < size) :
    xattrSetStream s value size =
      (some (apfsCreateXattrDstream s value size).1, (apfsCreateXattrDstream s value size).2) := by
  simp only [xattrSetStream, gt_iff_lt, if_pos h]

theorem xattrSetStream_fst_of_lt {s : Fs} {value : List UInt8} {size : Nat}
    (h : apfsXattrMaxEmbeddedSize < size) :
    (xattrSetStream s value size).1 = some (apfsCreateXattrDstream s value size).1 := by
  rw [xattrSetStream_of_lt h]

theorem xattrSetStream_snd_of_lt {s : Fs} {value : List UInt8} {size : Nat}
    (h : apfsXattrMaxEmbeddedSize < size) :
    (xattrSetStream s value size).2 = (apfsCreateXattrDstream s value size).2 := by
  rw [xattrSetStream_of_lt h]

/-- What the start of a set leaves as it was: the catalog, the block size, the encryption, every
stream but the one it makes, and every block that was in use. -/
theorem xattrSetStream_frame (s : Fs) (value : List UInt8) (size : Nat) :
    let v := (xattrSetStream s value size).2.vol
    v.catalog = s.vol.catalog ∧ v.blocksizeBits = s.vol.blocksizeBits ∧
      v.encrypted = s.vol.encrypted ∧
      (∀ id, id ≠ s.vol.nextObjId → ∀ i, apfsLogicToPhysBno v id i = apfsLogicToPhysBno s.vol id i) ∧
      ∀ b < freshBno s.vol, v.blocks b = s.vol.blocks b := by
  unfold xattrSetStream
  split
  · obtain ⟨-, hcat, -, hbits, henc, -, hphys, -, hblocks, -, -⟩ :=
      apfsCreateXattrDstream_spec s value size
    exact ⟨hcat, hbits, henc, hphys, hblocks⟩
  · exact ⟨rfl, rfl, rfl, fun _ _ _ => rfl, fun _ _ => rfl⟩

@[simp]
theorem xattrSetStream_catalog (s : Fs) (value : List UInt8) (size : Nat) :
    (xattrSetStream s value size).2.vol.catalog = s.vol.catalog :=
  (xattrSetStream_frame s value size).1

@[simp]
theorem xattrSetStream_blocksizeBits (s : Fs) (value : List UInt8) (size : Nat) :
    (xattrSetStream s value size).2.vol.blocksizeBits = s.vol.blocksizeBits :=
  (xattrSetStream_frame s value size).2.1

@[simp]
theorem xattrSetStream_encrypted (s : Fs) (value : List UInt8) (size : Nat) :
    (xattrSetStream s value size).2.vol.encrypted = s.vol.encrypted :=
  (xattrSetStream_frame s value size).2.2.1

theorem xattrSetStream_phys (s : Fs) (value : List UInt8) (size : Nat) (id : BitVec 64)
    (hid : id ≠ s.vol.nextObjId) (i : Nat) :
    apfsLogicToPhysBno (xattrSetStream s value size).2.vol id i = apfsLogicToPhysBno s.vol id i :=
  (xattrSetStream_frame s value size).2.2.2.1 id hid i

theorem xattrSetStream_blocks (s : Fs) (value : List UInt8) (size : Nat) (b : Nat)
    (hb : b < freshBno s.vol) : (xattrSetStream s value size).2.vol.blocks b = s.vol.blocks b :=
  (xattrSetStream_frame s value size).2.2.2.2 b hb

/-! ## Which branch a set takes -/

section Branches

variable {s : Fs} {ino : Nat} {name : CString} {size flags : Nat}

theorem apfsXattrSet_of_none_replace (value : Option (List UInt8))
    (h : s.vol.catalog.lookup ⟨ino, name.bytes⟩ = none) (hf : flags &&& xattrReplace ≠ 0) :
    apfsXattrSet s ino name value size flags =
      (-enodata, (xattrSetStream s (value.getD []) size).2) := by
  simp only [apfsXattrSet, xattrSetStream_catalog, h, if_pos hf]

theorem apfsXattrSet_of_none (value : Option (List UInt8))
    (h : s.vol.catalog.lookup ⟨ino, name.bytes⟩ = none) (hf : ¬flags &&& xattrReplace ≠ 0) :
    apfsXattrSet s ino name value size flags =
      xattrSetRecord (xattrSetStream s (value.getD []) size).2 ino name (value.getD []) size
        (xattrSetStream s (value.getD []) size).1 none true := by
  simp only [apfsXattrSet, xattrSetStream_catalog, h, if_neg hf]

theorem apfsXattrSet_of_some_create (value : Option (List UInt8)) {r : RawRecord}
    (h : s.vol.catalog.lookup ⟨ino, name.bytes⟩ = some r) (hf : flags &&& xattrCreate ≠ 0) :
    apfsXattrSet s ino name value size flags =
      (-eexist, (xattrSetStream s (value.getD []) size).2) := by
  simp only [apfsXattrSet, xattrSetStream_catalog, h, if_pos hf]

theorem apfsXattrSet_of_some_null {r : RawRecord}
    (h : s.vol.catalog.lookup ⟨ino, name.bytes⟩ = some r) (hf : ¬flags &&& xattrCreate ≠ 0) :
    apfsXattrSet s ino name none size flags =
      apfsDeleteXattr (xattrSetStream s [] size).2 ⟨ino, name.bytes⟩ r := by
  simp only [apfsXattrSet, xattrSetStream_catalog, h, if_neg hf, Option.getD_none]

theorem apfsXattrSet_of_some_error {value : List UInt8} {r : RawRecord} {e : Int}
    (h : s.vol.catalog.lookup ⟨ino, name.bytes⟩ = some r) (hf : ¬flags &&& xattrCreate ≠ 0)
    (he : apfsXattrDstreamFromQuery r = .error e) :
    apfsXattrSet s ino name (some value) size flags = (e, (xattrSetStream s value size).2) := by
  simp only [apfsXattrSet, xattrSetStream_catalog, h, if_neg hf, Option.getD_some, he]

theorem apfsXattrSet_of_some_value {value : List UInt8} {r : RawRecord}
    {old : Option ApfsDstreamInfo} (h : s.vol.catalog.lookup ⟨ino, name.bytes⟩ = some r)
    (hf : ¬flags &&& xattrCreate ≠ 0) (hold : apfsXattrDstreamFromQuery r = .ok old) :
    apfsXattrSet s ino name (some value) size flags =
      xattrSetRecord (xattrSetStream s value size).2 ino name value size
        (xattrSetStream s value size).1 old false := by
  simp only [apfsXattrSet, xattrSetStream_catalog, h, if_neg hf, Option.getD_some, hold]

end Branches

/-! ## What the branches that change the catalog leave behind -/

/-- Truncating a stream to nothing drops exactly its extents. -/
theorem truncateKeeps_zero (bits : Nat) (d : ApfsDstreamInfo) :
    truncateKeeps bits d 0 = fun e => e.dsId != d.dsId := by
  funext e
  simp [truncateKeeps]

/-- The end of a set: the record is inserted or replaced, then the old stream's extents go; the
volumes in between are the one with the new record and, with an old stream, the final one. -/
theorem xattrSetRecord_spec (s : Fs) (ino : Nat) (name : CString) (value : List UInt8) (size : Nat)
    (dstream old : Option ApfsDstreamInfo) (insert : Bool) :
    let record : RawRecord := ⟨apfsBuildXattrKey name ino, xattrSetVal s.vol name value size dstream⟩
    let v₁ := s.vol.mapCatalog fun c =>
      if insert then c.insert ⟨ino, name.bytes⟩ record else c.replace ⟨ino, name.bytes⟩ record
    let v₂ := match old with
      | some d => v₁.filterExtents (truncateKeeps v₁.blocksizeBits d 0)
      | none => v₁
    xattrSetRecord s ino name value size dstream old insert =
      (0, ⟨v₂, (match old with | some _ => [v₂, v₁] | none => [v₁]) ++ s.history⟩) := by
  cases insert <;> cases old <;> rfl

/-- The catalog after the end of a set: the new record under its key, when it is inserted or
replaces one that was there, and every other record as it was. -/
theorem xattrSetRecord_lookup (s : Fs) (ino : Nat) (name : CString) (value : List UInt8)
    (size : Nat) (dstream old : Option ApfsDstreamInfo) (insert : Bool)
    (hfound : insert = false → s.vol.catalog.lookup ⟨ino, name.bytes⟩ ≠ none) (k : XattrKey) :
    (xattrSetRecord s ino name value size dstream old insert).2.vol.catalog.lookup k =
      if k = ⟨ino, name.bytes⟩ then
        some ⟨apfsBuildXattrKey name ino, xattrSetVal s.vol name value size dstream⟩
      else s.vol.catalog.lookup k := by
  rw [xattrSetRecord_spec]
  by_cases hk : k = ⟨ino, name.bytes⟩
  · subst hk
    cases insert
    · obtain ⟨r, hr⟩ := Option.ne_none_iff_exists'.1 (hfound rfl)
      cases old <;> simp [hr]
    · cases old <;> simp
  · cases old <;> cases insert <;> simp [hk]

@[simp]
theorem xattrSetRecord_fst (s : Fs) (ino : Nat) (name : CString) (value : List UInt8) (size : Nat)
    (dstream old : Option ApfsDstreamInfo) (insert : Bool) :
    (xattrSetRecord s ino name value size dstream old insert).1 = 0 := by
  rw [xattrSetRecord_spec]

@[simp]
theorem xattrSetRecord_nextObjId (s : Fs) (ino : Nat) (name : CString) (value : List UInt8)
    (size : Nat) (dstream old : Option ApfsDstreamInfo) (insert : Bool) :
    (xattrSetRecord s ino name value size dstream old insert).2.vol.nextObjId =
      s.vol.nextObjId := by
  rw [xattrSetRecord_spec]
  cases old <;> rfl

/-- The end of a set changes no block, and no stream but the old one. -/
theorem xattrSetRecord_phys (s : Fs) (ino : Nat) (name : CString) (value : List UInt8) (size : Nat)
    (dstream old : Option ApfsDstreamInfo) (insert : Bool) (id : BitVec 64)
    (hid : ∀ d ∈ old, d.dsId ≠ id) (i : Nat) :
    apfsLogicToPhysBno (xattrSetRecord s ino name value size dstream old insert).2.vol id i =
      apfsLogicToPhysBno s.vol id i := by
  rw [xattrSetRecord_spec]
  cases old with
  | none => rfl
  | some d =>
    rw [apfsLogicToPhysBno_filterExtents _ _ _ _ fun e _ he _ => ?_, apfsLogicToPhysBno_mapCatalog]
    simp [truncateKeeps_zero, he, Ne.symm (hid d rfl)]

@[simp]
theorem xattrSetRecord_blocks (s : Fs) (ino : Nat) (name : CString) (value : List UInt8)
    (size : Nat) (dstream old : Option ApfsDstreamInfo) (insert : Bool) :
    (xattrSetRecord s ino name value size dstream old insert).2.vol.blocks = s.vol.blocks := by
  rw [xattrSetRecord_spec]
  cases old <;> rfl

@[simp]
theorem xattrSetRecord_blocksizeBits (s : Fs) (ino : Nat) (name : CString) (value : List UInt8)
    (size : Nat) (dstream old : Option ApfsDstreamInfo) (insert : Bool) :
    (xattrSetRecord s ino name value size dstream old insert).2.vol.blocksizeBits =
      s.vol.blocksizeBits := by
  rw [xattrSetRecord_spec]
  cases old <;> rfl

/-- `apfs_delete_xattr` on a record that decodes removes it and then truncates its stream, if it
has one, to nothing. -/
theorem apfsDeleteXattr_spec (s : Fs) (k : XattrKey) {r : RawRecord} (h : r.Valid) :
    let v₁ := s.vol.mapCatalog (·.erase k)
    let v₂ := if r.hasDstreamBit then
        v₁.filterExtents (truncateKeeps v₁.blocksizeBits (apfsDstreamFromXattr r.toXattr) 0)
      else v₁
    apfsDeleteXattr s k r =
      (0, ⟨v₂, (if r.hasDstreamBit then [v₂, v₁] else [v₁]) ++ s.history⟩) := by
  simp only [apfsDeleteXattr, apfsXattrFromQuery_of_valid h]
  cases hb : r.hasDstreamBit <;> simp [RawRecord.toXattr, hb, apfsBtreeRemove, apfsTruncate, Fs.mutate]

theorem apfsDeleteXattr_catalog (s : Fs) (k : XattrKey) {r : RawRecord} (h : r.Valid) :
    (apfsDeleteXattr s k r).2.vol.catalog = s.vol.catalog.erase k := by
  rw [apfsDeleteXattr_spec s k h]
  split <;> rfl

/-- What `apfs_delete_xattr` of a record that decodes leaves as it was: the blocks, the block
size, the next object id, and every stream but the record's own. -/
theorem apfsDeleteXattr_frame (s : Fs) (k : XattrKey) {r : RawRecord} (h : r.Valid) :
    let v := (apfsDeleteXattr s k r).2.vol
    v.blocks = s.vol.blocks ∧ v.blocksizeBits = s.vol.blocksizeBits ∧
      v.nextObjId = s.vol.nextObjId ∧
      ∀ id, (∀ d, apfsXattrDstreamFromQuery r = .ok (some d) → d.dsId ≠ id) →
        ∀ i, apfsLogicToPhysBno v id i = apfsLogicToPhysBno s.vol id i := by
  rw [apfsDeleteXattr_spec s k h]
  cases hb : r.hasDstreamBit
  · exact ⟨rfl, rfl, rfl, fun _ _ _ => rfl⟩
  · refine ⟨rfl, rfl, rfl, fun id hid i => ?_⟩
    have hne := hid _ (by rw [apfsXattrDstreamFromQuery_of_valid h, hb]; rfl)
    simp only [if_true]
    rw [apfsLogicToPhysBno_filterExtents _ _ _ _ fun e _ he _ => ?_, apfsLogicToPhysBno_mapCatalog]
    simp [truncateKeeps_zero, he, Ne.symm hne]

theorem apfsDeleteXattr_of_not_valid (s : Fs) (k : XattrKey) {r : RawRecord} (h : ¬r.Valid) :
    apfsDeleteXattr s k r = (-efscorrupted, s) := by
  simp only [apfsDeleteXattr, apfsXattrFromQuery_of_not_valid h]

/-! ## A NULL value -/

/-- Every xattr record of the catalog decodes. -/
def AllDecode (v : Volume) : Prop := ∀ k r, v.catalog.lookup k = some r → r.Valid

/-- `apfs_xattr_set` with a NULL value of size 0: the flags' table, then removal of the record
and its stream's extents, or insertion of an empty inline record when there is none. -/
theorem apfsXattrSet_null (s : Fs) (ino : Nat) (name : CString) (flags : Nat)
    (hdec : AllDecode s.vol) :
    let k : XattrKey := ⟨ino, name.bytes⟩
    let r := apfsXattrSet s ino name none 0 flags
    (∀ old, s.vol.catalog.lookup k = some old →
      (flags &&& xattrCreate ≠ 0 → r = (-eexist, s)) ∧
      (flags &&& xattrCreate = 0 → r.1 = 0 ∧
        (∀ k', r.2.vol.catalog.lookup k' = if k' = k then none else s.vol.catalog.lookup k') ∧
        (apfsXattrDstreamFromQuery old = .ok none → r.2.vol.extents = s.vol.extents) ∧
        (∀ d, apfsXattrDstreamFromQuery old = .ok (some d) →
          r.2.vol.extents = s.vol.extents.filter fun e => e.dsId != d.dsId) ∧
        r.2.vol.blocks = s.vol.blocks)) ∧
    (s.vol.catalog.lookup k = none →
      (flags &&& xattrReplace ≠ 0 → r = (-enodata, s)) ∧
      (flags &&& xattrReplace = 0 → r.1 = 0 ∧
        (∀ k', r.2.vol.catalog.lookup k' =
          if k' = k then some ⟨apfsBuildXattrKey name ino, xattrSetVal s.vol name [] 0 none⟩
          else s.vol.catalog.lookup k') ∧
        r.2.vol.extents = s.vol.extents ∧ r.2.vol.blocks = s.vol.blocks)) := by
  have hs : xattrSetStream s [] 0 = (none, s) := xattrSetStream_of_le (by decide)
  refine ⟨fun old hold => ⟨fun hf => ?_, fun hf => ?_⟩, fun hnone => ⟨fun hf => ?_, fun hf => ?_⟩⟩
  · rw [apfsXattrSet_of_some_create none hold hf, Option.getD_none, hs]
  · have hv := hdec _ old hold
    rw [apfsXattrSet_of_some_null hold (by rw [hf]; decide), hs, apfsDeleteXattr_spec s _ hv,
      apfsXattrDstreamFromQuery_of_valid hv]
    cases hb : old.hasDstreamBit <;>
      simp [hb, Volume.mapCatalog, Volume.filterExtents, truncateKeeps_zero]
  · rw [apfsXattrSet_of_none_replace none hnone hf, Option.getD_none, hs]
  · rw [apfsXattrSet_of_none none hnone (by rw [hf]; decide), Option.getD_none, hs,
      xattrSetRecord_spec]
    simp [Volume.mapCatalog]

/-- On a new volume, a NULL value with `XATTR_REPLACE` fails `-ENODATA` and changes nothing. -/
theorem apfsXattrSet_null_replace_missing :
    let s : Fs := ⟨⟨⟨[], .nil⟩, [], fun _ _ => 0, 1, 12, false⟩, []⟩
    AllDecode s.vol ∧ apfsXattrSet s 2 ⟨[0x61], by decide⟩ none 0 xattrReplace = (-enodata, s) := by
  intro s
  have hdec : AllDecode s.vol := nofun
  exact ⟨hdec, ((apfsXattrSet_null s 2 _ xattrReplace hdec).2 rfl).1 (by decide)⟩


/-- On an empty catalog, `apfs_xattr_set` with a NULL value and no flags inserts a record. -/
theorem apfsXattrSet_null_inserts :
    let s : Fs := ⟨⟨⟨[], .nil⟩, [], fun _ _ => 0, 1, 12, false⟩, []⟩
    (apfsXattrSet s 2 ⟨[0x61], by decide⟩ none 0 0).1 = 0 ∧
    ((apfsXattrSet s 2 ⟨[0x61], by decide⟩ none 0 0).2.vol.catalog.lookup ⟨2, [0x61]⟩).isSome :=
  ⟨rfl, rfl⟩

end Apfs
