import ApfsXattr.SetGet

/-!
# The abstract store and the volume that holds it

What the xattr code is for: every inode has a finite map from names to values; `getxattr` reads
a value, `setxattr` writes or removes one, `listxattr` enumerates the names. `XattrStore` is that
map, with `XattrStore.get`, `XattrStore.set` and `XattrStore.clear` as its operations, stated in
our own words; only the volume below it is translated from the source.

`Volume.view` is the abstraction function: under a key, the store holds the bytes the record there
stands for, its inline data or its stream's bytes up to the stream's size. `XattrInv` is the
representation invariant: the invariant `I` of the streams, and for every record that it decodes,
that its stored name is the key's name with its terminator, and that its stream fits
`XATTR_SIZE_MAX`. `____apfs_xattr_get` is the abstract read of the view on every volume that
reads soundly (`ReadOk`: records decode, no holes, streams fit an `int`), and the reads determine
the view (`view_eq_of_reads`, `view_eq_of_read_whole`), so what a call does to the store is read
off what it does to the reads. `apfs_xattr_get` adds the cap of `XATTR_SIZE_MAX`, which the
invariant keeps from firing and which past it fails `-E2BIG` (`apfsXattrGet_e2big`).
-/

namespace Apfs

/-! ## The abstract store -/

/-- The xattrs of every inode: the value stored under an owner and a name, if there is one. -/
def XattrStore : Type := XattrKey → Option (List UInt8)

namespace XattrStore

/-- `getxattr` of the store: `-ENODATA` for a name that is not there, and otherwise the read
contract of both read paths over the value. -/
def get (m : XattrStore) (k : XattrKey) (buffer : Option Mem) (size : Nat) (onlyWhole : Bool) :
    Int × Option Mem :=
  match m k with
  | none => (-enodata, buffer)
  | some value => referenceRead value.length (Mem.ofBytes value) buffer size onlyWhole

/-- `setxattr` of the store, with the flags as `apfs_xattr_set` reads them: `XATTR_CREATE` fails
on a name that is there and `XATTR_REPLACE` on one that is not; otherwise the value is stored,
and a NULL value removes the name, or stores an empty value when the name was not there. -/
def set (m : XattrStore) (k : XattrKey) (value : Option (List UInt8)) (flags : Nat) :
    Int × XattrStore :=
  match m k with
  | none =>
    if flags &&& xattrReplace ≠ 0 then (-enodata, m)
    else (0, Function.update m k (some (value.getD [])))
  | some _ =>
    if flags &&& xattrCreate ≠ 0 then (-eexist, m) else (0, Function.update m k value)

theorem set_of_none {m : XattrStore} {k : XattrKey} (h : m k = none) (value : Option (List UInt8))
    (flags : Nat) :
    m.set k value flags = if flags &&& xattrReplace ≠ 0 then (-enodata, m)
      else (0, Function.update m k (some (value.getD []))) := by
  simp only [set, h]

theorem set_of_some {m : XattrStore} {k : XattrKey} {old : List UInt8} (h : m k = some old)
    (value : Option (List UInt8)) (flags : Nat) :
    m.set k value flags =
      if flags &&& xattrCreate ≠ 0 then (-eexist, m) else (0, Function.update m k value) := by
  simp only [set, h]

/-- Every xattr of inode `ino` removed. -/
def clear (m : XattrStore) (ino : Nat) : XattrStore := fun k => if k.owner = ino then none else m k

theorem get_of_none {m : XattrStore} {k : XattrKey} (h : m k = none) (buffer : Option Mem)
    (size : Nat) (onlyWhole : Bool) : m.get k buffer size onlyWhole = (-enodata, buffer) := by
  simp only [get, h]

theorem get_of_some {m : XattrStore} {k : XattrKey} {value : List UInt8} (h : m k = some value)
    (buffer : Option Mem) (size : Nat) (onlyWhole : Bool) :
    m.get k buffer size onlyWhole =
      referenceRead value.length (Mem.ofBytes value) buffer size onlyWhole := by
  simp only [get, h]

/-- Reads tell stored values apart: when every whole read of `k` in `m` agrees with the one of
`k'` in `m'`, the two hold the same value. -/
theorem eq_of_get {m m' : XattrStore} {k k' : XattrKey}
    (h : ∀ buffer size, m.get k buffer size true = m'.get k' buffer size true) : m k = m' k' := by
  have hn := h none 0
  have hw := h (some fun _ => 0)
  simp only [get] at hn hw
  cases hm : m k <;> cases hm' : m' k' <;> simp only [hm, hm', referenceRead] at hn hw
  · rfl
  · simp [enodata] at hn
  · simp [enodata] at hn
  · next value value' =>
    have hlen : value.length = value'.length := by simpa using hn
    have hc := congrArg (fun r => r.2.map fun buf => buf.read 0 value.length) (hw value.length)
    simp only [hlen, lt_irrefl, and_false, if_false, min_self, Option.map_some',
      Option.some.injEq] at hc
    rw [← hlen, Mem.read_memcpy_ofBytes, hlen, Mem.read_memcpy_ofBytes] at hc
    rw [hc]

end XattrStore

/-! ## The store a volume holds -/

/-- The value a decoded record stands for: its inline data, or the bytes of its stream up to the
stream's size. -/
def recordValue (v : Volume) (x : ApfsXattr) : List UInt8 :=
  if x.hasDstream then
    (streamData v (apfsDstreamFromXattr x).dsId).read 0 (apfsDstreamFromXattr x).dsSize.toNat
  else (Mem.ofBytes x.xdata).read 0 x.xdataLen

/-- The abstraction function: the store a volume holds. A record the decoder rejects holds
nothing; the invariant rules such records out. -/
def Volume.view (v : Volume) : XattrStore := fun k =>
  match v.catalog.lookup k with
  | none => none
  | some r =>
    match apfsXattrFromQuery r with
    | .ok x => some (recordValue v x)
    | .error _ => none

theorem Volume.view_of_lookup_none {v : Volume} {k : XattrKey} (h : v.catalog.lookup k = none) :
    v.view k = none := by
  simp only [Volume.view, h]

theorem Volume.view_of_ok {v : Volume} {k : XattrKey} {r : RawRecord} {x : ApfsXattr}
    (hr : v.catalog.lookup k = some r) (hx : apfsXattrFromQuery r = .ok x) :
    v.view k = some (recordValue v x) := by
  simp only [Volume.view, hr, hx]

/-- What the store holds under `k` is what a read of `k` sees: the record there and the blocks
its stream resolves to. -/
theorem Volume.view_of_reads {v w : Volume} {k : XattrKey}
    (hl : w.catalog.lookup k = v.catalog.lookup k) (hbits : w.blocksizeBits = v.blocksizeBits)
    (hs : ∀ d, LiveStream v k d → ∀ i,
      apfsLogicToPhysBno w d.dsId i = apfsLogicToPhysBno v d.dsId i ∧
        w.blocks (apfsLogicToPhysBno v d.dsId i) = v.blocks (apfsLogicToPhysBno v d.dsId i)) :
    w.view k = v.view k := by
  cases hr : v.catalog.lookup k with
  | none => rw [Volume.view_of_lookup_none (hl.trans hr), Volume.view_of_lookup_none hr]
  | some r =>
    cases hx : apfsXattrFromQuery r with
    | error e => simp only [Volume.view, hl, hr, hx]
    | ok x =>
      rw [Volume.view_of_ok (hl.trans hr) hx, Volume.view_of_ok hr hx, recordValue, recordValue]
      split
      · next hd =>
        have h := hs _ ⟨r, hr, apfsXattrDstreamFromQuery_eq_some.2 ⟨x, hx, hd, rfl⟩⟩
        have hdata : streamData w (apfsDstreamFromXattr x).dsId =
            streamData v (apfsDstreamFromXattr x).dsId := by
          funext j
          simp only [streamData, hbits, (h _).1, (h _).2]
        rw [hdata]
      · rfl

/-! ## The representation invariant -/

/-- What the invariant asks of the record stored under `k`: it decodes, its name is the key's
name and the terminator, the key's name has no NUL, and its stream fits `XATTR_SIZE_MAX`. -/
structure RecordOk (k : XattrKey) (r : RawRecord) : Prop where
  valid : r.Valid
  name_eq : r.toXattr.name = k.name ++ [0]
  no_nul : 0 ∉ k.name
  size_le : ∀ d, apfsXattrDstreamFromQuery r = .ok (some d) → d.dsSize.toNat ≤ xattrSizeMax

/-- The representation invariant of the store: the invariant `I` of the streams, and every record
as `RecordOk` asks. -/
structure XattrInv (v : Volume) : Prop where
  streams : StreamInv v
  records : ∀ k r, v.catalog.lookup k = some r → RecordOk k r

/-- What a read of the store needs of the volume: every record decodes, no record points at a
freed block, and every stream fits an `int`. -/
structure ReadOk (v : Volume) : Prop where
  decode : AllDecode v
  no_holes : NoHoles v
  size_le : ∀ k d, LiveStream v k d → d.dsSize.toNat ≤ intMax

theorem XattrInv.readOk {v : Volume} (h : XattrInv v) : ReadOk v where
  decode k r hr := (h.records k r hr).valid
  no_holes := h.streams.no_holes
  size_le k d := fun ⟨r, hr, hq⟩ => ((h.records k r hr).size_le d hq).trans (by decide)

theorem XattrInv.recordsOf_valid {v : Volume} (h : XattrInv v) (ino : Nat) :
    ∀ r ∈ v.catalog.recordsOf ino, r.Valid := fun r hr => by
  obtain ⟨k, -, hk⟩ := Catalog.mem_recordsOf_iff.1 hr
  exact (h.records k r hk).valid

/-- A volume with no xattr records and no extents, as a new volume has, holds the empty store. -/
theorem xattrInv_of_empty {v : Volume} (hc : v.catalog.entries = []) (he : v.extents = []) :
    XattrInv v ∧ ∀ k, v.view k = none := by
  have hl : ∀ k, v.catalog.lookup k = none := fun k => by simp [Catalog.lookup, hc]
  exact ⟨⟨streamInv_of_empty hc he, fun k r h => by rw [hl k] at h; cases h⟩,
    fun k => Volume.view_of_lookup_none (hl k)⟩

/-- Every value the store holds fits `XATTR_SIZE_MAX`: an inline one has a 16-bit length, and a
stream's size is bounded by the invariant. -/
theorem XattrInv.view_length_le {v : Volume} (hinv : XattrInv v) {k : XattrKey}
    {value : List UInt8} (h : v.view k = some value) : value.length ≤ xattrSizeMax := by
  cases hr : v.catalog.lookup k with
  | none => rw [Volume.view_of_lookup_none hr] at h; cases h
  | some r =>
    have hrec := hinv.records k r hr
    have hx := apfsXattrFromQuery_of_valid hrec.valid
    rw [Volume.view_of_ok hr hx, Option.some.injEq] at h
    subst h
    unfold recordValue
    split
    · next hd =>
      simpa using hrec.size_le _ (apfsXattrDstreamFromQuery_eq_some.2 ⟨_, hx, hd, rfl⟩)
    · next hd =>
      have hlen := hrec.valid.inline_len (by simpa [RawRecord.toXattr] using hd)
      have hlt := leDecode_lt ((r.val.drop 2).take 2)
      simp only [List.length_take, List.length_drop] at hlt
      simp only [Mem.read_length, RawRecord.toXattr, RawRecord.xdataLenField, leField] at hlen ⊢
      have : 256 ^ min 2 (r.val.length - 2) ≤ 256 ^ 2 :=
        Nat.pow_le_pow_right (by decide) (min_le_left _ _)
      simp only [xattrSizeMax]
      omega

/-! ## Reads refine the store -/

theorem Mem.ofBytes_read_apply {m : Mem} {off n j : Nat} (h : j < n) :
    Mem.ofBytes (m.read off n) j = m (off + j) := by
  simp [Mem.ofBytes, Mem.read, List.getD_eq_getElem?_getD, h]

/-- The read contract sees a value only below its length. -/
theorem referenceRead_read (n : Nat) (value : Mem) (buffer : Option Mem) (size : Nat)
    (onlyWhole : Bool) :
    referenceRead (value.read 0 n).length (Mem.ofBytes (value.read 0 n)) buffer size onlyWhole =
      referenceRead n value buffer size onlyWhole := by
  rw [Mem.read_length]
  cases buffer with
  | none => rfl
  | some buf =>
    have hcopy : memcpy buf 0 (Mem.ofBytes (value.read 0 n)) 0 (min n size) =
        memcpy buf 0 value 0 (min n size) := by
      funext j
      simp only [memcpy_apply]
      split_ifs with h
      · rw [Mem.ofBytes_read_apply (by omega), Nat.zero_add]
      · rfl
    simp only [referenceRead, hcopy]

/-- On a volume that reads soundly, `____apfs_xattr_get` is the read of the store it holds,
whatever the buffer, its capacity and `only_whole`. -/
theorem ____apfsXattrGet_view {v : Volume} (hread : ReadOk v) (ino : Nat) (name : CString)
    (buffer : Option Mem) (size : Nat) (onlyWhole : Bool) :
    ____apfsXattrGet v ino name buffer size onlyWhole =
      v.view.get ⟨ino, name.bytes⟩ buffer size onlyWhole := by
  cases hl : v.catalog.lookup ⟨ino, name.bytes⟩ with
  | none =>
    rw [____apfsXattrGet_of_lookup_none hl, XattrStore.get_of_none (Volume.view_of_lookup_none hl)]
  | some r =>
    have hx := apfsXattrFromQuery_of_valid (hread.decode _ r hl)
    rw [____apfsXattrGet_of_ok hl hx, XattrStore.get_of_some (Volume.view_of_ok hl hx), recordValue]
    by_cases hd : r.toXattr.hasDstream = true
    · have hlive : LiveStream v _ _ := ⟨r, hl, apfsXattrDstreamFromQuery_eq_some.2 ⟨_, hx, hd, rfl⟩⟩
      rw [if_pos hd, if_pos hd, referenceRead_read, apfsXattrExtentsRead_eq,
        if_neg (not_lt.2 (hread.size_le _ _ hlive)), if_neg]
      rintro ⟨-, -, i, hi, h0⟩
      exact hread.no_holes _ _ hlive i (lt_of_lt_of_le hi (blockCount_mono _ (min_le_left _ _))) h0
    · rw [if_neg hd, if_neg hd, referenceRead_read, apfsXattrInlineRead_eq]

/-- A read never returns more than the value it reads. -/
theorem XattrStore.get_fst_le {m : XattrStore} {n : Nat} (k : XattrKey)
    (h : ∀ value, m k = some value → value.length ≤ n) (buffer : Option Mem) (size : Nat)
    (onlyWhole : Bool) : (m.get k buffer size onlyWhole).1 ≤ n := by
  unfold XattrStore.get
  split
  · simp only [enodata]; omega
  · next value hv =>
    have := h value hv
    unfold referenceRead
    split
    · simp only; omega
    · split <;> simp only [erange] <;> omega

/-- `apfs_xattr_get`, the entry point of the VFS handler, is the whole read of the store: its
`-E2BIG` never fires, since every value the store holds fits `XATTR_SIZE_MAX`. -/
theorem apfsXattrGet_view {v : Volume} (hinv : XattrInv v) (ino : Nat) (name : CString)
    (buffer : Option Mem) (size : Nat) :
    apfsXattrGet v ino name buffer size = v.view.get ⟨ino, name.bytes⟩ buffer size true := by
  have hle := XattrStore.get_fst_le ⟨ino, name.bytes⟩ (fun _ h => hinv.view_length_le h) buffer
    size true
  rw [apfsXattrGet, __apfsXattrGet, ____apfsXattrGet_view hinv.readOk]
  generalize v.view.get ⟨ino, name.bytes⟩ buffer size true = r at hle
  obtain ⟨ret, buf⟩ := r
  exact if_neg (not_lt.2 hle)

/-- Both entry points of a read are the store's read on a volume that satisfies the invariant,
whose streams fit `XATTR_SIZE_MAX`. -/
theorem apfsXattrGet_refines {v : Volume} (hinv : XattrInv v) :
    (∀ ino name buffer size onlyWhole, ____apfsXattrGet v ino name buffer size onlyWhole =
      v.view.get ⟨ino, name.bytes⟩ buffer size onlyWhole) ∧
    ∀ ino name buffer size,
      apfsXattrGet v ino name buffer size = v.view.get ⟨ino, name.bytes⟩ buffer size true :=
  ⟨____apfsXattrGet_view hinv.readOk, apfsXattrGet_view hinv⟩

/-- On a new volume, a read of `a` is the read of the empty store. -/
theorem apfsXattrGet_refines_new_volume :
    let v : Volume := ⟨⟨[], .nil⟩, [], fun _ _ => 0, 1, 12, false⟩
    XattrInv v ∧ apfsXattrGet v 2 ⟨[0x61], by decide⟩ none 0 = v.view.get ⟨2, [0x61]⟩ none 0 true := by
  intro v
  have h : XattrInv v := (xattrInv_of_empty rfl rfl).1
  exact ⟨h, (apfsXattrGet_refines h).2 2 ⟨[0x61], by decide⟩ none 0⟩

/-- Past `XATTR_SIZE_MAX`, `apfs_xattr_get` is not `__apfs_xattr_get` without the lock: the inner
read still returns the whole value, but the entry point fails `-E2BIG`, even after copying it. -/
theorem apfsXattrGet_e2big {v : Volume} (hread : ReadOk v) {ino : Nat} {name : CString}
    {value : List UInt8} (h : v.view ⟨ino, name.bytes⟩ = some value)
    (hbig : xattrSizeMax < value.length) :
    (∀ size, ____apfsXattrGet v ino name none size true = ((value.length : Int), none) ∧
      apfsXattrGet v ino name none size = (-e2big, none)) ∧
    (∀ buf size, size < value.length →
      apfsXattrGet v ino name (some buf) size = (-erange, some buf)) ∧
    ∀ buf size, value.length ≤ size → ∃ buf',
      ____apfsXattrGet v ino name (some buf) size true = ((value.length : Int), some buf') ∧
      apfsXattrGet v ino name (some buf) size = (-e2big, some buf') ∧
      buf'.read 0 value.length = value := by
  have hget : ∀ buffer size, ____apfsXattrGet v ino name buffer size true =
      referenceRead value.length (Mem.ofBytes value) buffer size true := fun buffer size =>
    (____apfsXattrGet_view hread ino name buffer size true).trans
      (XattrStore.get_of_some h buffer size true)
  have hcap : (value.length : Int) > xattrSizeMax := Int.ofNat_lt.2 hbig
  refine ⟨fun size => ⟨hget none size, ?_⟩, fun buf size hs => ?_, fun buf size hs => ?_⟩
  · simp only [apfsXattrGet, __apfsXattrGet, hget, referenceRead, if_pos hcap]
  · simp [apfsXattrGet, __apfsXattrGet, hget, referenceRead, hs, erange, xattrSizeMax]
  · obtain ⟨buf', hr, hb⟩ := referenceRead_whole (Mem.ofBytes value) buf true hs
    refine ⟨buf', (hget _ size).trans hr, ?_, hb.trans (Mem.read_ofBytes value)⟩
    simp only [apfsXattrGet, __apfsXattrGet, hget, hr, if_pos hcap]

/-- One record referring to a fully mapped stream of 65537 bytes: asking `apfs_xattr_get` for
its size fails `-E2BIG`. -/
theorem apfsXattrGet_e2big_stream :
    let name : CString := ⟨[0x61], by decide⟩
    let r : RawRecord :=
      ⟨apfsBuildXattrKey name 2, markOwned false (apfsBuildDstreamXattrVal false 12 ⟨5, 65537⟩)⟩
    let v : Volume := ⟨⟨[(⟨2, [0x61]⟩, r)], List.pairwise_singleton _ _⟩,
      (List.range 17).map fun i => ⟨5, i, i + 1⟩, fun _ _ => 0, 6, 12, false⟩
    ReadOk v ∧ ∃ value, v.view ⟨2, name.bytes⟩ = some value ∧ xattrSizeMax < value.length ∧
      apfsXattrGet v 2 name none 0 = (-e2big, none) := by
  intro name r v
  obtain ⟨x, hx, -, -, hd, hxd⟩ :=
    apfsXattrFromQuery_dstream name 2 false (by decide) false 12 ⟨5, 65537⟩
  have hl : ∀ k r', v.catalog.lookup k = some r' → r' = r := fun _ _ h =>
    (Prod.mk.inj (List.mem_singleton.1 (Catalog.mem_of_lookup h))).2
  have hlive : ∀ k d, LiveStream v k d → d = ⟨5, 65537⟩ := fun k d ⟨r', hr', hq⟩ => by
    obtain ⟨x', hx', -, rfl⟩ := apfsXattrDstreamFromQuery_eq_some.1 (hl k r' hr' ▸ hq)
    rw [hx, Except.ok.injEq] at hx'
    rw [← hx', hxd]
  have hread : ReadOk v := ⟨fun k r' h => hl k r' h ▸ ((apfsXattrFromQuery_eq_ok_iff r x).1 hx).1,
    fun k d hd => by rw [hlive k d hd]; decide, fun k d hd => by rw [hlive k d hd]; decide⟩
  have hr : v.catalog.lookup ⟨2, name.bytes⟩ = some r := rfl
  have hlen : (recordValue v x).length = 65537 := by
    rw [recordValue, if_pos hd, Mem.read_length, hxd]
    rfl
  have hbig : xattrSizeMax < (recordValue v x).length := by rw [hlen]; decide
  exact ⟨hread, _, Volume.view_of_ok hr hx, hbig,
    ((apfsXattrGet_e2big hread (Volume.view_of_ok hr hx) hbig).1 0).2⟩

/-- Two volumes that satisfy the invariant and whose reads of `k` agree hold the same value
under `k`. A name with a NUL has no record, and no read can name it. -/
theorem view_eq_of_reads {v w : Volume} (hv : XattrInv v) (hw : XattrInv w) (k : XattrKey)
    (h : ∀ name : CString, name.bytes = k.name → ∀ buffer size,
      ____apfsXattrGet w k.owner name buffer size true =
        ____apfsXattrGet v k.owner name buffer size true) :
    w.view k = v.view k := by
  by_cases hn : (0 : UInt8) ∈ k.name
  · have hnone : ∀ u : Volume, XattrInv u → u.view k = none := fun u hu =>
      Volume.view_of_lookup_none (Option.eq_none_iff_forall_not_mem.2 fun r hr =>
        (hu.records k r hr).no_nul hn)
    rw [hnone w hw, hnone v hv]
  · refine XattrStore.eq_of_get fun buffer size => ?_
    have := h ⟨k.name, hn⟩ rfl buffer size
    rwa [____apfsXattrGet_view hw.readOk, ____apfsXattrGet_view hv.readOk] at this

/-- A volume that satisfies the invariant and reads back a whole value under a name holds that
value there. -/
theorem view_eq_of_read_whole {w : Volume} (hw : XattrInv w) {ino : Nat} {name : CString}
    {value : List UInt8} {buf' : Mem}
    (h : ____apfsXattrGet w ino name (some fun _ => 0) value.length true =
      ((value.length : Int), some buf'))
    (hread : buf'.read 0 value.length = value) :
    w.view ⟨ino, name.bytes⟩ = some value := by
  rw [____apfsXattrGet_view hw.readOk] at h
  cases hm : w.view ⟨ino, name.bytes⟩ with
  | none => simp [XattrStore.get_of_none hm, enodata] at h
  | some value' =>
    simp only [XattrStore.get_of_some hm, referenceRead, true_and] at h
    split_ifs at h with hfit
    · simp [erange] at h
    · simp only [Prod.mk.injEq, Option.some.injEq, Nat.cast_inj] at h
      obtain ⟨hmin, rfl⟩ := h
      have hlen : value'.length = value.length := by omega
      rw [hmin, ← hlen, Mem.read_memcpy_ofBytes] at hread
      rw [hread]

/-! ## Listing the store -/

/-- The names of the records of `ino` in key order, as the multiple query of `apfs_listxattr`
meets them. -/
def Catalog.namesOf (c : Catalog) (ino : Nat) : List (List UInt8) :=
  (c.entries.filter fun e => e.1.owner == ino).map (·.1.name)

/-- `apfs_listxattr` enumerates the store's names of the inode, each once, in key order, and
lists them as `osx.` entries when its total fits an `ssize_t`. -/
theorem apfsListxattr_view {v : Volume} (hinv : XattrInv v) (ino : Nat) :
    let names := v.catalog.namesOf ino
    let T := (names.map fun n => n.length + xattrMacOsxPrefixLen + 1).sum
    names.Pairwise (fun a b => (⟨ino, a⟩ : XattrKey) < ⟨ino, b⟩) ∧
    (∀ n, n ∈ names ↔ v.view ⟨ino, n⟩ ≠ none) ∧
    (T < 2 ^ 63 → ∀ size, apfsListxattr v ino none size = ((T : Int), none)) ∧
    (T < 2 ^ 63 → ∀ size buf, T ≤ size.toNat → ∃ buf',
      apfsListxattr v ino (some buf) size = ((T : Int), some buf') ∧
        nulEntries (buf'.read 0 T) = names.map (xattrMacOsxPrefix ++ ·)) := by
  intro names T
  have hok : ∀ e ∈ v.catalog.entries.filter (fun e => e.1.owner == ino),
      e.1.owner = ino ∧ RecordOk e.1 e.2 := fun e he => by
    rw [List.mem_filter, beq_iff_eq] at he
    exact ⟨he.2, hinv.records _ _ (Catalog.lookup_of_mem he.1)⟩
  have hv := hinv.recordsOf_valid ino
  -- each decoded name is the key's name and the terminator
  have hname : ∀ e ∈ v.catalog.entries.filter (fun e => e.1.owner == ino),
      e.2.toXattr.name.dropLast = e.1.name ∧ e.2.toXattr.nameLen = e.1.name.length :=
      fun e he => by
    have hrec := (hok e he).2
    have hlen := hrec.valid.name_length
    rw [hrec.name_eq] at hlen ⊢
    simp only [List.length_append, List.length_singleton] at hlen
    exact ⟨List.dropLast_concat, by omega⟩
  have hT : listingSize ((v.catalog.recordsOf ino).map RawRecord.toXattr) = T := by
    simp only [T, names, Catalog.namesOf, Catalog.recordsOf, listingSize, List.map_map]
    congr 1
    exact List.map_congr_left fun e he => by simp [entrySize, (hname e he).2]
  refine ⟨?_, fun n => ?_, fun hT63 size => ?_, fun hT63 size buf hsize => ?_⟩
  · simp only [names, Catalog.namesOf, List.pairwise_map]
    refine (v.catalog.sorted.filter _).imp_of_mem fun {a b} ha hb hab => ?_
    rw [show (⟨ino, a.1.name⟩ : XattrKey) = a.1 by rw [← (hok a ha).1],
      show (⟨ino, b.1.name⟩ : XattrKey) = b.1 by rw [← (hok b hb).1]]
    exact hab
  · simp only [names, Catalog.namesOf, List.mem_map]
    constructor
    · rintro ⟨e, he, rfl⟩
      obtain ⟨ho, hrec⟩ := hok e he
      rw [show (⟨ino, e.1.name⟩ : XattrKey) = e.1 by rw [← ho],
        Volume.view_of_ok (Catalog.lookup_of_mem (List.mem_filter.1 he).1)
          (apfsXattrFromQuery_of_valid hrec.valid)]
      exact Option.some_ne_none _
    · intro h
      obtain ⟨r, hr⟩ := Option.ne_none_iff_exists'.1 fun hl => h (Volume.view_of_lookup_none hl)
      exact ⟨(⟨ino, n⟩, r), List.mem_filter.2 ⟨Catalog.mem_of_lookup hr, by simp⟩, rfl⟩
  · rw [apfsListxattr_none hv, hT, toInt_ofNat_of_lt hT63]
  · refine ⟨_, by
      rw [apfsListxattr_fits hv size buf (hT ▸ hsize), hT, toInt_ofNat_of_lt hT63], ?_⟩
    rw [← hT, ← listing_length hv, Mem.read_memcpy_ofBytes, nulEntries_listing]
    · simp only [names, Catalog.namesOf, Catalog.recordsOf, List.map_map]
      exact List.map_congr_left fun e he => by simp [(hname e he).1]
    · simp only [Catalog.recordsOf, List.map_map, List.mem_map]
      rintro _ ⟨e, he, rfl⟩
      refine ⟨(hok e he).2.valid.name_eq, ?_⟩
      simp only [Function.comp, (hname e he).1]
      exact (hok e he).2.no_nul

/-- On a new volume, the listing of an inode is empty. -/
theorem apfsListxattr_view_new_volume :
    let v : Volume := ⟨⟨[], .nil⟩, [], fun _ _ => 0, 1, 12, false⟩
    XattrInv v ∧ v.catalog.namesOf 2 = [] ∧ apfsListxattr v 2 none 0 = (0, none) := by
  intro v
  have h : XattrInv v := (xattrInv_of_empty rfl rfl).1
  exact ⟨h, rfl, (apfsListxattr_view h 2).2.2.1 (by decide) 0⟩

end Apfs
