import ApfsXattr.Volume

/-!
# Reading an xattr value

`____apfsXattrGet` finds a record with an exact query, decodes it, and reads its value either
from the record itself (`apfsXattrInlineRead`) or from the blocks of its stream
(`apfsXattrExtentsRead`). Both paths share one contract, `referenceRead`: with no buffer the
result is the value's length, with `only_whole` and too small a buffer it is `-ERANGE`, and
otherwise the first `min length size` bytes of the value are copied and nothing past them.

`apfsXattrExtentsRead_eq` says that the stream path is that contract over the concatenated
blocks of the stream, except for the two failures it adds: `-E2BIG` when the 64-bit size does
not fit an `int`, and `-EFSCORRUPTED` when one of the blocks it would read is a hole.
-/

namespace Apfs

/-! ## The shared contract -/

/-- One contract for both read paths: `length` bytes of `value`, into a buffer of capacity
`size` when there is one. -/
def referenceRead (length : Nat) (value : Mem) (buffer : Option Mem) (size : Nat)
    (onlyWhole : Bool) : Int × Option Mem :=
  match buffer with
  | none => ((length : Int), none)
  | some buf =>
    if onlyWhole ∧ size < length then (-erange, some buf)
    else (((min length size : Nat) : Int), some (memcpy buf 0 value 0 (min length size)))

/-- What the contract promises: the length alone without a buffer, `-ERANGE` with nothing
written when a whole value does not fit, and otherwise `k = min length size` bytes of the value
at the start of the buffer and every byte from `k` on untouched. -/
theorem referenceRead_spec (length : Nat) (value buf : Mem) (size : Nat) (onlyWhole : Bool) :
    referenceRead length value none size onlyWhole = ((length : Int), none) ∧
    (onlyWhole = true → size < length →
      referenceRead length value (some buf) size onlyWhole = (-erange, some buf)) ∧
    (¬(onlyWhole = true ∧ size < length) → ∃ buf',
      referenceRead length value (some buf) size onlyWhole =
        (((min length size : Nat) : Int), some buf') ∧
      buf'.read 0 (min length size) = value.read 0 (min length size) ∧
      ∀ j, min length size ≤ j → buf' j = buf j) := by
  refine ⟨rfl, fun h hs => by simp [referenceRead, h, hs], fun h =>
    ⟨memcpy buf 0 value 0 (min length size), by simp [referenceRead, h],
      Mem.read_ext fun j hj => ?_, fun j hj => ?_⟩⟩
  · simp [memcpy_apply, hj]
  · simp only [memcpy_apply]
    rw [if_neg (by omega)]

/-- With room for the whole value, the contract copies all of it and returns its length. -/
theorem referenceRead_whole {length size : Nat} (value buf : Mem) (onlyWhole : Bool)
    (hsize : length ≤ size) :
    ∃ buf', referenceRead length value (some buf) size onlyWhole = ((length : Int), some buf') ∧
      buf'.read 0 length = value.read 0 length := by
  obtain ⟨buf', h, hread, -⟩ :=
    (referenceRead_spec length value buf size onlyWhole).2.2 fun h => absurd h.2 (by omega)
  rw [Nat.min_eq_left hsize] at h hread
  exact ⟨buf', h, hread⟩

/-! ## The inline path -/

/-- `apfs_xattr_inline_read`: the result and the caller's buffer after the call. -/
def apfsXattrInlineRead (x : ApfsXattr) (buffer : Option Mem) (size : Nat) (onlyWhole : Bool) :
    Int × Option Mem :=
  let length := x.xdataLen
  match buffer with
  | none => (length, none) -- All we want is the length
  | some buf =>
    if onlyWhole ∧ length > size then (-erange, some buf) -- xattr won't fit in the buffer
    else
      let length := if length > size then size else length
      (length, some (memcpy buf 0 (Mem.ofBytes x.xdata) 0 length))

theorem apfsXattrInlineRead_eq (x : ApfsXattr) (buffer : Option Mem) (size : Nat)
    (onlyWhole : Bool) :
    apfsXattrInlineRead x buffer size onlyWhole =
      referenceRead x.xdataLen (Mem.ofBytes x.xdata) buffer size onlyWhole := by
  have hmin : (if x.xdataLen > size then size else x.xdataLen) = min x.xdataLen size := by
    split_ifs <;> omega
  cases buffer <;> simp [apfsXattrInlineRead, referenceRead, hmin]

/-! ## The stream path -/

/-- The C `int` a 64-bit value becomes on assignment: its low 32 bits in two's complement. -/
def cInt (x : Nat) : Int := if x % 2 ^ 32 < 2 ^ 31 then x % 2 ^ 32 else (x % 2 ^ 32 : Int) - 2 ^ 32

/-- The guard `length < 0 || length < ds_size` of `apfs_xattr_extents_read` fires exactly when
the size is past `INT_MAX`. -/
theorem cInt_guard_iff (x : Nat) : (cInt x < 0 ∨ cInt x < x) ↔ intMax < x := by
  simp only [cInt, intMax]
  split_ifs <;> omega

theorem cInt_of_le {x : Nat} (h : x ≤ intMax) : cInt x = x := by
  simp only [cInt, intMax] at h ⊢
  split_ifs <;> omega

/-- The second loop of `apfs_xattr_extents_read`, for block `i`: its bytes go to offset
`i << s_blocksize_bits`, cut at `length`. -/
def copyBlock (v : Volume) (dsId : BitVec 64) (length : Nat) (buf : Mem) (i : Nat) : Mem :=
  let off := i <<< v.blocksizeBits
  let tocopy := min (2 ^ v.blocksizeBits) (length - off)
  memcpy buf off (v.blocks (apfsLogicToPhysBno v dsId i)) 0 tocopy

/-- `apfs_xattr_extents_read`. The first loop resolves every block it will read and stops at a
hole; the second copies them. -/
def apfsXattrExtentsRead (v : Volume) (x : ApfsXattr) (buffer : Option Mem) (size : Nat)
    (onlyWhole : Bool) : Int × Option Mem :=
  let dstream := apfsDstreamFromXattr x
  let length := cInt dstream.dsSize.toNat
  if length < 0 ∨ length < dstream.dsSize.toNat then (-e2big, buffer)
  else match buffer with
  | none => (length, none) -- All we want is the length
  | some buf =>
    if onlyWhole ∧ length > size then (-erange, some buf) -- xattr won't fit in the buffer
    else
      let length := if length > size then (size : Int) else length
      let blkcnt := blockCount v.blocksizeBits length.toNat
      -- No holes in xattr dstreams
      if (List.range blkcnt).any fun i => apfsLogicToPhysBno v dstream.dsId i == 0 then
        (-efscorrupted, some buf)
      else (length, some ((List.range blkcnt).foldl (copyBlock v dstream.dsId length.toNat) buf))

/-- Byte `j` of block `i` of a stream is byte `i * bs + j` of the stream. -/
theorem streamData_apply {v : Volume} {dsId : BitVec 64} {i j : Nat} (hj : j < 2 ^ v.blocksizeBits) :
    streamData v dsId (i * 2 ^ v.blocksizeBits + j) = v.blocks (apfsLogicToPhysBno v dsId i) j := by
  have hpos : 0 < 2 ^ v.blocksizeBits := Nat.pos_pow_of_pos _ (by decide)
  have hdiv : (i * 2 ^ v.blocksizeBits + j) / 2 ^ v.blocksizeBits = i := by
    rw [Nat.add_comm, Nat.add_mul_div_right _ _ hpos, Nat.div_eq_of_lt hj, Nat.zero_add]
  have hmod : (i * 2 ^ v.blocksizeBits + j) % 2 ^ v.blocksizeBits = j := by
    rw [Nat.add_comm, Nat.add_mul_mod_self_right, Nat.mod_eq_of_lt hj]
  simp only [streamData, Nat.shiftRight_eq_div_pow, hdiv, hmod]

/-- After the copy loop has run over blocks `0 .. m - 1`, the buffer holds the stream up to
`min (m * bs) length` and is untouched past it. -/
theorem foldl_copyBlock (v : Volume) (dsId : BitVec 64) (length : Nat) (buf : Mem) (m j : Nat) :
    (List.range m).foldl (copyBlock v dsId length) buf j =
      if j < min (m * 2 ^ v.blocksizeBits) length then streamData v dsId j else buf j := by
  set B := 2 ^ v.blocksizeBits with hB
  have hpos : 0 < B := Nat.pos_pow_of_pos _ (by decide)
  induction m with
  | zero => simp
  | succ m ih =>
    rw [List.range_succ, List.foldl_append, List.foldl_cons, List.foldl_nil]
    simp only [copyBlock, Nat.shiftLeft_eq, ← hB, memcpy_apply, ih]
    have hlo : m * B ≤ (m + 1) * B := Nat.mul_le_mul_right _ (Nat.le_succ m)
    have hhi : (m + 1) * B = m * B + B := Nat.succ_mul m B
    by_cases hin : m * B ≤ j ∧ j < m * B + min B (length - m * B)
    · rw [if_pos hin, if_pos (by omega)]
      obtain ⟨k, rfl⟩ : ∃ k, j = m * B + k := ⟨j - m * B, by omega⟩
      rw [Nat.zero_add, Nat.add_sub_cancel_left, streamData_apply (by rw [← hB]; omega)]
    · rw [if_neg hin]
      split_ifs <;> first | rfl | omega

/-- The copy loop over all `blockCount` blocks copies exactly `length` bytes of the stream. -/
theorem foldl_copyBlock_all (v : Volume) (dsId : BitVec 64) (length : Nat) (buf : Mem) :
    (List.range (blockCount v.blocksizeBits length)).foldl (copyBlock v dsId length) buf =
      memcpy buf 0 (streamData v dsId) 0 length := by
  funext j
  have hpos : 0 < 2 ^ v.blocksizeBits := Nat.pos_pow_of_pos _ (by decide)
  have hcover : length ≤ blockCount v.blocksizeBits length * 2 ^ v.blocksizeBits := by
    rw [blockCount_eq]
    have := Nat.div_add_mod (length + 2 ^ v.blocksizeBits - 1) (2 ^ v.blocksizeBits)
    have := Nat.mod_lt (length + 2 ^ v.blocksizeBits - 1) hpos
    rw [Nat.mul_comm]
    omega
  rw [foldl_copyBlock, memcpy_apply, Nat.min_eq_right hcover]
  simp

/-- The stream path is the shared contract over the stream's blocks, with two failures of its
own: `-E2BIG` exactly when the size passes `INT_MAX`, and `-EFSCORRUPTED` when a buffer is
given, the value is to be read and one of its first `⌈k / bs⌉` blocks is a hole. -/
theorem apfsXattrExtentsRead_eq (v : Volume) (x : ApfsXattr) (buffer : Option Mem) (size : Nat)
    (onlyWhole : Bool) :
    let d := apfsDstreamFromXattr x
    apfsXattrExtentsRead v x buffer size onlyWhole =
      if intMax < d.dsSize.toNat then (-e2big, buffer)
      else if buffer.isSome ∧ ¬(onlyWhole = true ∧ size < d.dsSize.toNat) ∧
          ∃ i < blockCount v.blocksizeBits (min d.dsSize.toNat size),
            apfsLogicToPhysBno v d.dsId i = 0 then (-efscorrupted, buffer)
      else referenceRead d.dsSize.toNat (streamData v d.dsId) buffer size onlyWhole := by
  simp only [apfsXattrExtentsRead]
  generalize apfsDstreamFromXattr x = d
  by_cases hbig : intMax < d.dsSize.toNat
  · rw [if_pos ((cInt_guard_iff _).2 hbig), if_pos hbig]
  rw [if_neg (fun h => hbig ((cInt_guard_iff _).1 h)), if_neg hbig, cInt_of_le (by omega)]
  cases buffer with
  | none => simp [referenceRead]
  | some buf =>
    by_cases hr : onlyWhole = true ∧ size < d.dsSize.toNat
    · simp [hr, referenceRead]
    have hk : (if (d.dsSize.toNat : Int) > size then (size : Int) else d.dsSize.toNat) =
        (min d.dsSize.toNat size : Nat) := by split_ifs <;> omega
    have hr' : ¬(onlyWhole = true ∧ (d.dsSize.toNat : Int) > size) :=
      fun h => hr ⟨h.1, by exact_mod_cast h.2⟩
    simp only [if_neg hr', hk, Int.toNat_ofNat, List.any_eq_true, List.mem_range, beq_iff_eq,
      foldl_copyBlock_all]
    simp [hr, referenceRead]

/-! ## Finding and reading a named attribute -/

/-- `____apfs_xattr_get`: an exact query for the name, then the read path the record asks for. -/
def ____apfsXattrGet (v : Volume) (ino : Nat) (name : CString) (buffer : Option Mem) (size : Nat)
    (onlyWhole : Bool) : Int × Option Mem :=
  match v.catalog.lookup ⟨ino, name.bytes⟩ with
  | none => (-enodata, buffer)
  | some r =>
    match apfsXattrFromQuery r with
    | .error e => (e, buffer)
    | .ok x =>
      if x.hasDstream then apfsXattrExtentsRead v x buffer size onlyWhole
      else apfsXattrInlineRead x buffer size onlyWhole

/-- `__apfs_xattr_get`. -/
def __apfsXattrGet (v : Volume) (ino : Nat) (name : CString) (buffer : Option Mem) (size : Nat) :
    Int × Option Mem :=
  ____apfsXattrGet v ino name buffer size true

/-- `apfs_xattr_get`, the lock left out. -/
def apfsXattrGet (v : Volume) (ino : Nat) (name : CString) (buffer : Option Mem) (size : Nat) :
    Int × Option Mem :=
  let (ret, buffer) := __apfsXattrGet v ino name buffer size
  if ret > xattrSizeMax then (-e2big, buffer) else (ret, buffer)

/-- A name with no record reads as `-ENODATA`. -/
theorem ____apfsXattrGet_of_lookup_none {v : Volume} {ino : Nat} {name : CString}
    (h : v.catalog.lookup ⟨ino, name.bytes⟩ = none) (buffer : Option Mem) (size : Nat)
    (onlyWhole : Bool) : ____apfsXattrGet v ino name buffer size onlyWhole = (-enodata, buffer) := by
  simp only [____apfsXattrGet, h]

/-- A record the decoder rejects reads as `-EFSCORRUPTED`, with the buffer untouched. -/
theorem ____apfsXattrGet_of_not_valid {v : Volume} {ino : Nat} {name : CString} {r : RawRecord}
    (hr : v.catalog.lookup ⟨ino, name.bytes⟩ = some r) (h : ¬r.Valid) (buffer : Option Mem)
    (size : Nat) (onlyWhole : Bool) :
    ____apfsXattrGet v ino name buffer size onlyWhole = (-efscorrupted, buffer) := by
  simp only [____apfsXattrGet, hr, apfsXattrFromQuery_of_not_valid h]

/-- A record that decodes is read by the path it asks for. -/
theorem ____apfsXattrGet_of_ok {v : Volume} {ino : Nat} {name : CString} {r : RawRecord}
    {x : ApfsXattr} (hr : v.catalog.lookup ⟨ino, name.bytes⟩ = some r)
    (hx : apfsXattrFromQuery r = .ok x) (buffer : Option Mem) (size : Nat) (onlyWhole : Bool) :
    ____apfsXattrGet v ino name buffer size onlyWhole =
      if x.hasDstream then apfsXattrExtentsRead v x buffer size onlyWhole
      else apfsXattrInlineRead x buffer size onlyWhole := by
  simp only [____apfsXattrGet, hr, hx]

/-- With room for the whole value, a read of an inline record returns its length and its
bytes. -/
theorem ____apfsXattrGet_inline_whole {v : Volume} {ino : Nat} {name : CString} {r : RawRecord}
    {x : ApfsXattr} (hr : v.catalog.lookup ⟨ino, name.bytes⟩ = some r)
    (hx : apfsXattrFromQuery r = .ok x) (hd : x.hasDstream = false) (buf : Mem) (size : Nat)
    (onlyWhole : Bool) (hsize : x.xdataLen ≤ size) :
    ∃ buf' : Mem, ____apfsXattrGet v ino name (some buf) size onlyWhole =
        ((x.xdataLen : Int), some buf') ∧
      buf'.read 0 x.xdataLen = (Mem.ofBytes x.xdata).read 0 x.xdataLen := by
  rw [____apfsXattrGet_of_ok hr hx, if_neg (by rw [hd]; decide), apfsXattrInlineRead_eq]
  exact referenceRead_whole _ buf onlyWhole hsize

/-- With room for the whole value, a read of a stream record whose size fits an `int` and whose
blocks are all mapped returns the size and the stream's bytes. -/
theorem ____apfsXattrGet_stream_whole {v : Volume} {ino : Nat} {name : CString} {r : RawRecord}
    {x : ApfsXattr} (hr : v.catalog.lookup ⟨ino, name.bytes⟩ = some r)
    (hx : apfsXattrFromQuery r = .ok x) (hd : x.hasDstream = true)
    (hint : (apfsDstreamFromXattr x).dsSize.toNat ≤ intMax)
    (hmapped : ∀ i < blockCount v.blocksizeBits (apfsDstreamFromXattr x).dsSize.toNat,
      apfsLogicToPhysBno v (apfsDstreamFromXattr x).dsId i ≠ 0)
    (buf : Mem) (size : Nat) (onlyWhole : Bool) (hsize : (apfsDstreamFromXattr x).dsSize.toNat ≤ size) :
    ∃ buf' : Mem, ____apfsXattrGet v ino name (some buf) size onlyWhole =
        (((apfsDstreamFromXattr x).dsSize.toNat : Int), some buf') ∧
      buf'.read 0 (apfsDstreamFromXattr x).dsSize.toNat =
        (streamData v (apfsDstreamFromXattr x).dsId).read 0 (apfsDstreamFromXattr x).dsSize.toNat := by
  rw [____apfsXattrGet_of_ok hr hx, if_pos hd, apfsXattrExtentsRead_eq]
  generalize apfsDstreamFromXattr x = d at *
  rw [if_neg (by omega), if_neg fun ⟨_, _, i, hi, h0⟩ =>
    hmapped i (lt_of_lt_of_le hi (blockCount_mono _ (min_le_left _ _))) h0]
  exact referenceRead_whole _ buf onlyWhole hsize

/-- What a read of one name sees: its record, and for a stream record the blocks the stream
resolves to. Two volumes that agree on these read the same. -/
theorem ____apfsXattrGet_congr {v v' : Volume} {ino : Nat} {name : CString}
    (hl : v'.catalog.lookup ⟨ino, name.bytes⟩ = v.catalog.lookup ⟨ino, name.bytes⟩)
    (hbits : v'.blocksizeBits = v.blocksizeBits)
    (hs : ∀ r x, v.catalog.lookup ⟨ino, name.bytes⟩ = some r → apfsXattrFromQuery r = .ok x →
      x.hasDstream = true → ∀ i,
        apfsLogicToPhysBno v' (apfsDstreamFromXattr x).dsId i =
          apfsLogicToPhysBno v (apfsDstreamFromXattr x).dsId i ∧
        v'.blocks (apfsLogicToPhysBno v (apfsDstreamFromXattr x).dsId i) =
          v.blocks (apfsLogicToPhysBno v (apfsDstreamFromXattr x).dsId i))
    (buffer : Option Mem) (size : Nat) (onlyWhole : Bool) :
    ____apfsXattrGet v' ino name buffer size onlyWhole =
      ____apfsXattrGet v ino name buffer size onlyWhole := by
  simp only [____apfsXattrGet, hl]
  split
  · rfl
  · next r hr =>
    split
    · rfl
    · next x hx =>
      split
      · next hd =>
        have hphys : ∀ i, apfsLogicToPhysBno v' (apfsDstreamFromXattr x).dsId i =
            apfsLogicToPhysBno v (apfsDstreamFromXattr x).dsId i := fun i => (hs r x hr hx hd i).1
        have hblk : ∀ i, v'.blocks (apfsLogicToPhysBno v (apfsDstreamFromXattr x).dsId i) =
            v.blocks (apfsLogicToPhysBno v (apfsDstreamFromXattr x).dsId i) :=
          fun i => (hs r x hr hx hd i).2
        have hcopy : copyBlock v' (apfsDstreamFromXattr x).dsId =
            copyBlock v (apfsDstreamFromXattr x).dsId := by
          funext length buf i
          simp only [copyBlock, hbits, hphys, hblk]
        simp only [apfsXattrExtentsRead, hcopy, hbits, hphys]
      · rfl

/-- Both read paths of `____apfs_xattr_get` are the shared contract over the record's value;
the stream path adds `-E2BIG` past `INT_MAX` and `-EFSCORRUPTED` on a hole it reads. -/
theorem ____apfsXattrGet_eq_referenceRead (v : Volume) (ino : Nat) (name : CString)
    (r : RawRecord) (x : ApfsXattr) (hr : v.catalog.lookup ⟨ino, name.bytes⟩ = some r)
    (hx : apfsXattrFromQuery r = .ok x) (buffer : Option Mem) (size : Nat) (onlyWhole : Bool) :
    ____apfsXattrGet v ino name buffer size onlyWhole =
      if x.hasDstream then
        let d := apfsDstreamFromXattr x
        if intMax < d.dsSize.toNat then (-e2big, buffer)
        else if buffer.isSome ∧ ¬(onlyWhole = true ∧ size < d.dsSize.toNat) ∧
            ∃ i < blockCount v.blocksizeBits (min d.dsSize.toNat size),
              apfsLogicToPhysBno v d.dsId i = 0 then (-efscorrupted, buffer)
        else referenceRead d.dsSize.toNat (streamData v d.dsId) buffer size onlyWhole
      else referenceRead x.xdataLen (Mem.ofBytes x.xdata) buffer size onlyWhole := by
  rw [____apfsXattrGet_of_ok hr hx]
  by_cases hd : x.hasDstream = true
  · rw [if_pos hd, if_pos hd]
    exact apfsXattrExtentsRead_eq v x buffer size onlyWhole
  · rw [if_neg hd, if_neg hd]
    exact apfsXattrInlineRead_eq x buffer size onlyWhole

/-- The size of a one-byte inline value, asked for with no buffer; and a whole read of a stream
of 3805 bytes whose block no extent maps, which fails `-EFSCORRUPTED`. -/
theorem ____apfsXattrGet_inline_one :
    let name : CString := ⟨[0x61], by decide⟩
    let r : RawRecord := ⟨apfsBuildXattrKey name 2, apfsBuildInlineXattrVal [7] 1⟩
    let v : Volume := ⟨⟨[(⟨2, [0x61]⟩, r)], List.pairwise_singleton _ _⟩, [], fun _ _ => 0, 1, 12, false⟩
    let r₂ : RawRecord :=
      ⟨apfsBuildXattrKey name 2, markOwned false (apfsBuildDstreamXattrVal false 12 ⟨5, 3805⟩)⟩
    let v₂ : Volume := ⟨⟨[(⟨2, [0x61]⟩, r₂)], List.pairwise_singleton _ _⟩, [], fun _ _ => 0, 6, 12,
      false⟩
    v.catalog.lookup ⟨2, [0x61]⟩ = some r ∧
      apfsXattrFromQuery r = .ok ⟨[0x61, 0], [7], 1, 1, false⟩ ∧
      ____apfsXattrGet v 2 name none 0 false = (1, none) ∧
      ∀ buf, ____apfsXattrGet v₂ 2 name (some buf) 3805 true = (-efscorrupted, some buf) := by
  intro name r v r₂ v₂
  have hx : apfsXattrFromQuery r = .ok ⟨[0x61, 0], [7], 1, 1, false⟩ :=
    apfsXattrFromQuery_inline name 2 false (by decide) [7] 1 (by decide) (by decide)
  obtain ⟨x₂, hx₂, -, -, hd, hxd⟩ :=
    apfsXattrFromQuery_dstream name 2 false (by decide) false 12 ⟨5, 3805⟩
  refine ⟨rfl, hx, ?_, fun buf => ?_⟩
  · rw [____apfsXattrGet_eq_referenceRead v 2 name r _ rfl hx]
    rfl
  · -- the stream's only block is a hole
    rw [____apfsXattrGet_eq_referenceRead v₂ 2 name r₂ _ rfl hx₂, if_pos hd, hxd,
      if_neg (by decide), if_pos ⟨rfl, by decide, 0, by decide, rfl⟩]

end Apfs
