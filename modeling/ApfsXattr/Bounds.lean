import ApfsXattr.Set
import ApfsXattr.Listxattr

/-!
# Reading only inside the record

The records come from the disk, which may be crafted, so what has to be ruled out is a read of
the key or the value past its end. `Checked` is the model of the xattr code with every byte of a
record read by bounds-checked indexing: `Checked.readBytes` gives `none` as soon as one byte is
past the end, and so does every function that reads through it. Each of them is otherwise the
function of the unchecked model, line for line.

`apfs_xattr_from_query` reads `name_len`, the last byte of the name, `flags` and, for an inline
record, `xdata_len`, all after it has checked that the key has room for a name and the value for
its header; so, whatever the bytes, it reads only inside them (`Checked.apfsXattrFromQuery_eq`).
What it accepts has as many bytes of data as `xdata_len` and of name as `name_len + 1`, and a
stream record's data is a whole `struct apfs_xattr_dstream` (`apfsXattrFromQuery_lengths`). So
its consumers stay inside too: the inline read copies at most `xdata_len` bytes of the data,
`apfs_dstream_from_xattr` is only called for a stream record, and the listing copies
`name_len + 1` bytes of the name. Every function that reads a record is then its unchecked
model, on any volume.
-/

namespace Apfs

/-- What the decoder accepts has as many bytes of data as `xdata_len` and of name as
`name_len + 1`, and the data of a stream record is a whole `struct apfs_xattr_dstream`. -/
theorem apfsXattrFromQuery_lengths {r : RawRecord} {x : ApfsXattr}
    (hx : apfsXattrFromQuery r = .ok x) :
    x.xdata.length = x.xdataLen ∧ x.name.length = x.nameLen + 1 ∧
      (x.hasDstream = true → x.xdataLen = sizeofApfsXattrDstream) := by
  obtain ⟨hv, rfl⟩ := (apfsXattrFromQuery_eq_ok_iff r x).1 hx
  refine ⟨by simp [RawRecord.toXattr], hv.name_length, fun hd => ?_⟩
  have := hv.dstream_len hd
  simp only [RawRecord.toXattr]
  omega

/-- A copy of the first `n` bytes of a list reads only those bytes of it. -/
theorem memcpy_ofBytes_take (buf : Mem) (bytes : List UInt8) (n : Nat) :
    memcpy buf 0 (Mem.ofBytes (bytes.take n)) 0 n = memcpy buf 0 (Mem.ofBytes bytes) 0 n := by
  funext j
  simp only [memcpy_apply, Mem.ofBytes, List.getD_eq_getElem?_getD]
  split_ifs with h
  · rw [List.getElem?_take_of_lt (by omega)]
  · rfl

namespace Checked

/-! ## Bounds-checked reads -/

/-- The `n` bytes of `bytes` from `off`, read one by one with bounds-checked indexing: `none`
as soon as one of them is past the end. -/
def readBytes (bytes : List UInt8) (off : Nat) : Nat → Option (List UInt8)
  | 0 => some []
  | n + 1 => bytes[off]?.bind fun b => (readBytes bytes (off + 1) n).map (b :: ·)

/-- A read of some bytes succeeds exactly when it ends inside the bytes, and then gives the bytes
there. -/
theorem readBytes_eq (bytes : List UInt8) (off n : Nat) :
    readBytes bytes off n =
      if off + n ≤ bytes.length ∨ n = 0 then some ((bytes.drop off).take n) else none := by
  induction n generalizing off with
  | zero => simp [readBytes]
  | succ n ih =>
    rw [readBytes, ih]
    by_cases h : off < bytes.length
    · rw [List.getElem?_eq_getElem h, Option.some_bind, List.drop_eq_getElem_cons h,
        List.take_succ_cons]
      simp only [Nat.add_one_ne_zero, or_false]
      split_ifs <;> first | rfl | omega
    · rw [List.getElem?_eq_none (by omega), Option.none_bind, if_neg (by omega)]

theorem readBytes_of_le {bytes : List UInt8} {off n : Nat} (h : off + n ≤ bytes.length) :
    readBytes bytes off n = some ((bytes.drop off).take n) := by
  rw [readBytes_eq, if_pos (.inl h)]

/-- `le16_to_cpu` or `le64_to_cpu` of the `width` bytes at `off`. -/
def leField (bytes : List UInt8) (off width : Nat) : Option Nat :=
  (readBytes bytes off width).map leDecode

theorem leField_of_le {bytes : List UInt8} {off width : Nat} (h : off + width ≤ bytes.length) :
    leField bytes off width = some (Apfs.leField bytes off width) := by
  rw [leField, readBytes_of_le h]
  rfl

/-! ## The decoder -/

/-- `apfs_xattr_from_query`, every read of the key and the value checked. -/
def apfsXattrFromQuery (r : RawRecord) : Option (Except Int ApfsXattr) :=
  let datalen : Int := r.val.length - sizeofApfsXattrVal
  let namelen : Int := r.key.length - sizeofApfsXattrKey
  if namelen < 1 ∨ datalen < 0 then some (.error (-efscorrupted))
  else (leField r.key 8 2).bind fun (nameLen : Nat) =>
  if namelen ≠ nameLen then some (.error (-efscorrupted))
  -- The xattr name must be NULL-terminated
  else r.key[sizeofApfsXattrKey + (namelen - 1).toNat]?.bind fun last =>
  if last ≠ 0 then some (.error (-efscorrupted))
  else (leField r.val 0 2).bind fun flags =>
  let hasDstream := dstreamBit flags
  let xattr : ApfsXattr :=
    { name := r.key.drop sizeofApfsXattrKey, xdata := r.val.drop sizeofApfsXattrVal,
      nameLen := (namelen - 1).toNat, xdataLen := datalen.toNat, hasDstream }
  if hasDstream ∧ datalen ≠ sizeofApfsXattrDstream then some (.error (-efscorrupted))
  -- the `&&` reads `xdata_len` only for an inline record
  else if hasDstream then some (.ok xattr)
  else (leField r.val 2 2).map fun (xdataLen : Nat) =>
    if datalen ≠ xdataLen then .error (-efscorrupted) else .ok xattr

/-- Whatever the key and the value, the decoder reads only inside them, and decides as the
unchecked model. -/
theorem apfsXattrFromQuery_eq (r : RawRecord) :
    apfsXattrFromQuery r = some (Apfs.apfsXattrFromQuery r) := by
  simp only [apfsXattrFromQuery, Apfs.apfsXattrFromQuery]
  by_cases h : (r.key.length : Int) - sizeofApfsXattrKey < 1 ∨
      (r.val.length : Int) - sizeofApfsXattrVal < 0
  · rw [if_pos h, if_pos h]
  rw [if_neg h, if_neg h]
  have hK : sizeofApfsXattrKey = 10 := rfl
  have hV : sizeofApfsXattrVal = 4 := rfl
  have hi : sizeofApfsXattrKey + ((r.key.length : Int) - sizeofApfsXattrKey - 1).toNat <
      r.key.length := by omega
  -- every read is inside, so both sides make the same checks; they differ only in where the
  -- stream bit is tested
  simp only [leField_of_le (show 8 + 2 ≤ r.key.length by omega),
    leField_of_le (show 0 + 2 ≤ r.val.length by omega),
    leField_of_le (show 2 + 2 ≤ r.val.length by omega), List.getElem?_eq_getElem hi,
    Option.some_bind, Option.map_some', RawRecord.nameLenField, RawRecord.hasDstreamBit,
    RawRecord.flagsField, RawRecord.xdataLenField, ne_eq, Option.some.injEq, apply_ite some]
  cases dstreamBit (Apfs.leField r.val 0 2) <;>
    simp only [Bool.not_false, Bool.not_true, true_and, false_and, if_false, if_true,
      Bool.false_eq_true, apply_ite some]

/-! ## What reads a decoded record -/

/-- `apfs_dstream_from_xattr`: `xattr_obj_id` and `dstream.size`, the first two fields of the
`struct apfs_xattr_dstream` in the record's data. -/
def apfsDstreamFromXattr (x : ApfsXattr) : Option ApfsDstreamInfo :=
  (leField x.xdata 0 8).bind fun id => (leField x.xdata 8 8).map fun size =>
    { dsId := BitVec.ofNat 64 id, dsSize := BitVec.ofNat 64 size }

theorem apfsDstreamFromXattr_eq {x : ApfsXattr} (h : 16 ≤ x.xdata.length) :
    apfsDstreamFromXattr x = some (Apfs.apfsDstreamFromXattr x) := by
  rw [apfsDstreamFromXattr, leField_of_le (by omega), leField_of_le (by omega)]
  rfl

/-- The data of an accepted stream record has room for the stream's id and size. -/
theorem dstream_fields_inside {r : RawRecord} {x : ApfsXattr}
    (hx : Apfs.apfsXattrFromQuery r = .ok x) (hd : x.hasDstream = true) : 16 ≤ x.xdata.length := by
  obtain ⟨hdata, -, hds⟩ := apfsXattrFromQuery_lengths hx
  rw [hdata, hds hd]
  decide

/-- `apfs_xattr_inline_read`, whose copy reads the record's data byte by byte. -/
def apfsXattrInlineRead (x : ApfsXattr) (buffer : Option Mem) (size : Nat) (onlyWhole : Bool) :
    Option (Int × Option Mem) :=
  let length := x.xdataLen
  match buffer with
  | none => some (length, none) -- All we want is the length
  | some buf =>
    if onlyWhole ∧ length > size then some (-erange, some buf) -- xattr won't fit in the buffer
    else
      let length := if length > size then size else length
      (readBytes x.xdata 0 length).map fun xdata =>
        (length, some (memcpy buf 0 (Mem.ofBytes xdata) 0 length))

/-- With data of `xdata_len` bytes, the inline read copies only bytes of the data. -/
theorem apfsXattrInlineRead_eq {x : ApfsXattr} (h : x.xdataLen ≤ x.xdata.length)
    (buffer : Option Mem) (size : Nat) (onlyWhole : Bool) :
    apfsXattrInlineRead x buffer size onlyWhole =
      some (Apfs.apfsXattrInlineRead x buffer size onlyWhole) := by
  cases buffer with
  | none => rfl
  | some buf =>
    simp only [apfsXattrInlineRead, Apfs.apfsXattrInlineRead]
    by_cases hw : onlyWhole = true ∧ x.xdataLen > size
    · rw [if_pos hw, if_pos hw]
    -- the copy is of at most `xdata_len` bytes
    have hn : 0 + (if x.xdataLen > size then size else x.xdataLen) ≤ x.xdata.length := by
      split_ifs <;> omega
    rw [if_neg hw, if_neg hw, readBytes_of_le hn]
    simp only [List.drop_zero, Option.map_some', memcpy_ofBytes_take]

/-- `apfs_xattr_extents_read`, whose only read of the record is `apfs_dstream_from_xattr`; the
rest reads the blocks of the stream. -/
def apfsXattrExtentsRead (v : Volume) (x : ApfsXattr) (buffer : Option Mem) (size : Nat)
    (onlyWhole : Bool) : Option (Int × Option Mem) :=
  (apfsDstreamFromXattr x).map fun dstream =>
  let length := cInt dstream.dsSize.toNat
  if length < 0 ∨ length < dstream.dsSize.toNat then (-e2big, buffer)
  else match buffer with
  | none => (length, none) -- All we want is the length
  | some buf =>
    if onlyWhole ∧ length > size then (-erange, some buf) -- xattr won't fit in the buffer
    else
      let length := if length > size then (size : Int) else length
      let blkcnt := blockCount v.blocksizeBits length.toNat
      -- No holes in xattr dstreams
      if (List.range blkcnt).any fun i => apfsLogicToPhysBno v dstream.dsId i == 0 then
        (-efscorrupted, some buf)
      else (length, some ((List.range blkcnt).foldl (copyBlock v dstream.dsId length.toNat) buf))

theorem apfsXattrExtentsRead_eq {x : ApfsXattr} (h : 16 ≤ x.xdata.length) (v : Volume)
    (buffer : Option Mem) (size : Nat) (onlyWhole : Bool) :
    apfsXattrExtentsRead v x buffer size onlyWhole =
      some (Apfs.apfsXattrExtentsRead v x buffer size onlyWhole) := by
  rw [apfsXattrExtentsRead, apfsDstreamFromXattr_eq h]
  rfl

/-! ## The functions that read records -/

/-- `____apfs_xattr_get`. -/
def ____apfsXattrGet (v : Volume) (ino : Nat) (name : CString) (buffer : Option Mem) (size : Nat)
    (onlyWhole : Bool) : Option (Int × Option Mem) :=
  match v.catalog.lookup ⟨ino, name.bytes⟩ with
  | none => some (-enodata, buffer)
  | some r =>
    (apfsXattrFromQuery r).bind fun
    | .error e => some (e, buffer)
    | .ok x =>
      if x.hasDstream then apfsXattrExtentsRead v x buffer size onlyWhole
      else apfsXattrInlineRead x buffer size onlyWhole

/-- `apfs_xattr_dstream_from_query`. -/
def apfsXattrDstreamFromQuery (r : RawRecord) : Option (Except Int (Option ApfsDstreamInfo)) :=
  (apfsXattrFromQuery r).bind fun
  | .error e => some (.error e)
  | .ok x => if x.hasDstream then (apfsDstreamFromXattr x).map fun d => .ok (some d)
    else some (.ok none)

/-- `apfs_delete_xattr`, for the record `r` a query found under `k`. -/
def apfsDeleteXattr (s : Fs) (k : XattrKey) (r : RawRecord) : Option (Int × Fs) :=
  (apfsXattrFromQuery r).bind fun
  | .error e => some (e, s)
  | .ok x =>
    if !x.hasDstream then some (0, apfsBtreeRemove s k)
    else (apfsDstreamFromXattr x).map fun dstream =>
      -- Remove the xattr record before truncation, because truncation creates new queries and
      -- makes ours invalid
      apfsTruncate (apfsBtreeRemove s k) dstream 0

/-- The loop of `apfs_listxattr`, whose copy of each name reads it byte by byte. -/
def listxattrLoop (size : BitVec 64) :
    List RawRecord → Option Mem → Nat → BitVec 64 → Option (Int × Option Mem)
  | [], buffer, _, free => some ((size - free).toInt, buffer) -- Got all the xattrs
  | r :: rs, buffer, pos, free =>
    (apfsXattrFromQuery r).bind fun
    | .error e => some (e, buffer)
    | .ok x =>
      match buffer with
      | none => listxattrLoop size rs none pos (free - BitVec.ofNat 64 (entrySize x))
      | some buf =>
        -- Prepend the fake 'osx' prefix before listing
        if entrySize x > free.toNat then some (-erange, some buf)
        else
          let buf := memcpy buf pos (Mem.ofBytes xattrMacOsxPrefix) 0 xattrMacOsxPrefixLen
          (readBytes x.name 0 (x.nameLen + 1)).bind fun name =>
          let buf := memcpy buf (pos + xattrMacOsxPrefixLen) (Mem.ofBytes name) 0 (x.nameLen + 1)
          listxattrLoop size rs (some buf) (pos + entrySize x) (free - BitVec.ofNat 64 (entrySize x))

/-- `apfs_listxattr`, the lock left out. -/
def apfsListxattr (v : Volume) (ino : Nat) (buffer : Option Mem) (size : BitVec 64) :
    Option (Int × Option Mem) :=
  listxattrLoop size (v.catalog.recordsOf ino) buffer 0 size

/-- The name of an accepted record is `name_len + 1` bytes, which the listing copies whole. -/
theorem readBytes_name {r : RawRecord} {x : ApfsXattr} (hx : Apfs.apfsXattrFromQuery r = .ok x) :
    readBytes x.name 0 (x.nameLen + 1) = some x.name := by
  have hname := (apfsXattrFromQuery_lengths hx).2.1
  rw [readBytes_of_le (by omega), List.drop_zero, ← hname, List.take_length]

theorem ____apfsXattrGet_eq (v : Volume) (ino : Nat) (name : CString) (buffer : Option Mem)
    (size : Nat) (onlyWhole : Bool) :
    ____apfsXattrGet v ino name buffer size onlyWhole =
      some (Apfs.____apfsXattrGet v ino name buffer size onlyWhole) := by
  unfold ____apfsXattrGet Apfs.____apfsXattrGet
  cases v.catalog.lookup ⟨ino, name.bytes⟩ with
  | none => rfl
  | some r =>
    dsimp only
    rw [apfsXattrFromQuery_eq, Option.some_bind]
    cases hx : Apfs.apfsXattrFromQuery r with
    | error e => rfl
    | ok x =>
      dsimp only
      split_ifs with hd
      · exact apfsXattrExtentsRead_eq (dstream_fields_inside hx hd) _ _ _ _
      · exact apfsXattrInlineRead_eq (apfsXattrFromQuery_lengths hx).1.ge _ _ _

theorem apfsXattrDstreamFromQuery_eq (r : RawRecord) :
    apfsXattrDstreamFromQuery r = some (Apfs.apfsXattrDstreamFromQuery r) := by
  unfold apfsXattrDstreamFromQuery Apfs.apfsXattrDstreamFromQuery
  rw [apfsXattrFromQuery_eq, Option.some_bind]
  cases hx : Apfs.apfsXattrFromQuery r with
  | error e => rfl
  | ok x =>
    dsimp only
    split_ifs with hd
    · rw [apfsDstreamFromXattr_eq (dstream_fields_inside hx hd)]
      rfl
    · rfl

theorem apfsDeleteXattr_eq (s : Fs) (k : XattrKey) (r : RawRecord) :
    apfsDeleteXattr s k r = some (Apfs.apfsDeleteXattr s k r) := by
  unfold apfsDeleteXattr Apfs.apfsDeleteXattr
  rw [apfsXattrFromQuery_eq, Option.some_bind]
  cases hx : Apfs.apfsXattrFromQuery r with
  | error e => rfl
  | ok x =>
    dsimp only
    split_ifs with hd
    · rfl
    · rw [apfsDstreamFromXattr_eq (dstream_fields_inside hx (by simpa using hd))]
      rfl

theorem listxattrLoop_eq (size : BitVec 64) (rs : List RawRecord) :
    ∀ buffer pos free,
      listxattrLoop size rs buffer pos free = some (Apfs.listxattrLoop size rs buffer pos free) := by
  induction rs with
  | nil => intros; rfl
  | cons r rs ih =>
    intro buffer pos free
    unfold listxattrLoop Apfs.listxattrLoop
    rw [apfsXattrFromQuery_eq, Option.some_bind]
    cases hx : Apfs.apfsXattrFromQuery r with
    | error e => rfl
    | ok x =>
      cases buffer with
      | none => exact ih _ _ _
      | some buf =>
        dsimp only
        split_ifs
        · rfl
        · rw [readBytes_name hx, Option.some_bind]
          exact ih _ _ _

theorem apfsListxattr_eq (v : Volume) (ino : Nat) (buffer : Option Mem) (size : BitVec 64) :
    apfsListxattr v ino buffer size = some (Apfs.apfsListxattr v ino buffer size) :=
  listxattrLoop_eq size _ buffer 0 size

end Checked

/-! ## Every read of a record -/

/-- Every read of a record stays inside it, whatever its bytes: the checked decoder agrees with
the unchecked one, and what it accepts holds the bytes the later reads take. -/
theorem xattr_reads_in_bounds :
    (∀ r : RawRecord, Checked.apfsXattrFromQuery r = some (apfsXattrFromQuery r)) ∧
    (∀ (r : RawRecord) (x : ApfsXattr), apfsXattrFromQuery r = .ok x →
      x.xdata.length = x.xdataLen ∧ x.name.length = x.nameLen + 1 ∧
      (∀ buffer size onlyWhole, Checked.apfsXattrInlineRead x buffer size onlyWhole =
        some (apfsXattrInlineRead x buffer size onlyWhole)) ∧
      (x.hasDstream = true → x.xdataLen = sizeofApfsXattrDstream ∧
        Checked.apfsDstreamFromXattr x = some (apfsDstreamFromXattr x)) ∧
      Checked.readBytes x.name 0 (x.nameLen + 1) = some x.name) ∧
    (∀ (v : Volume) ino name buffer size onlyWhole,
      Checked.____apfsXattrGet v ino name buffer size onlyWhole =
        some (____apfsXattrGet v ino name buffer size onlyWhole)) ∧
    (∀ (v : Volume) ino buffer size,
      Checked.apfsListxattr v ino buffer size = some (apfsListxattr v ino buffer size)) ∧
    (∀ r, Checked.apfsXattrDstreamFromQuery r = some (apfsXattrDstreamFromQuery r)) ∧
    (∀ s k r, Checked.apfsDeleteXattr s k r = some (apfsDeleteXattr s k r)) := by
  refine ⟨Checked.apfsXattrFromQuery_eq, fun r x hx => ?_, Checked.____apfsXattrGet_eq,
    Checked.apfsListxattr_eq, Checked.apfsXattrDstreamFromQuery_eq, Checked.apfsDeleteXattr_eq⟩
  obtain ⟨hdata, hname, hds⟩ := apfsXattrFromQuery_lengths hx
  exact ⟨hdata, hname, Checked.apfsXattrInlineRead_eq hdata.ge,
    fun hd => ⟨hds hd, Checked.apfsDstreamFromXattr_eq (Checked.dstream_fields_inside hx hd)⟩,
    Checked.readBytes_name hx⟩

end Apfs
