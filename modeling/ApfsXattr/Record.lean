import ApfsXattr.Basic

/-!
# The on-disk xattr record and its codec

An xattr record is a catalog entry whose key is `struct apfs_xattr_key` (owner and type
header, 16-bit name length, NUL-terminated name) and whose value is
`struct apfs_xattr_val` (16-bit flags, 16-bit data length, data). The data is either the
inline value or a `struct apfs_xattr_dstream` naming the stream that holds it.

`apfsXattrFromQuery` is the only place the code checks these bytes. Its checks are
collected in `RawRecord.Valid`, and `apfsXattrFromQuery_eq_ok_iff` says that the decoder
accepts exactly the valid records and returns `RawRecord.toXattr` for them. The builders
used by `apfs_xattr_set` produce valid records whose decoding gives back what was encoded.
-/

namespace Apfs

/-- The key and value bytes of the catalog entry a successful query points at. -/
structure RawRecord where
  key : List UInt8
  val : List UInt8
deriving DecidableEq

/-- `le16_to_cpu(xattr_key->name_len)`, after the 64-bit key header. -/
def RawRecord.nameLenField (r : RawRecord) : Nat := leField r.key 8 2

/-- `le16_to_cpu(xattr_val->flags)`. -/
def RawRecord.flagsField (r : RawRecord) : Nat := leField r.val 0 2

/-- `le16_to_cpu(xattr_val->xdata_len)`. -/
def RawRecord.xdataLenField (r : RawRecord) : Nat := leField r.val 2 2

/-- The `APFS_XATTR_DATA_STREAM` bit of a flags field, as `has_dstream` takes it. -/
def dstreamBit (flags : Nat) : Bool := flags &&& apfsXattrDataStream != 0

/-- The `APFS_XATTR_DATA_STREAM` bit of the record's flags. -/
def RawRecord.hasDstreamBit (r : RawRecord) : Bool := dstreamBit r.flagsField

/-- `struct apfs_xattr`: the name and data are the bytes the record holds from their offsets
on, and the lengths are the ones the decoder computed. -/
structure ApfsXattr where
  name : List UInt8
  xdata : List UInt8
  nameLen : Nat
  xdataLen : Nat
  hasDstream : Bool
deriving DecidableEq

/-- `apfs_xattr_from_query`. -/
def apfsXattrFromQuery (r : RawRecord) : Except Int ApfsXattr :=
  let datalen : Int := r.val.length - sizeofApfsXattrVal
  let namelen : Int := r.key.length - sizeofApfsXattrKey
  if namelen < 1 ∨ datalen < 0 then .error (-efscorrupted)
  else if namelen ≠ r.nameLenField then .error (-efscorrupted)
  -- The xattr name must be NULL-terminated
  else if r.key[sizeofApfsXattrKey + (namelen - 1).toNat]? ≠ some 0 then .error (-efscorrupted)
  else
    let hasDstream := r.hasDstreamBit
    if hasDstream ∧ datalen ≠ sizeofApfsXattrDstream then .error (-efscorrupted)
    else if !hasDstream ∧ datalen ≠ r.xdataLenField then .error (-efscorrupted)
    else .ok { name := r.key.drop sizeofApfsXattrKey, xdata := r.val.drop sizeofApfsXattrVal,
               nameLen := (namelen - 1).toNat, xdataLen := datalen.toNat, hasDstream }

/-- The checks of `apfs_xattr_from_query`, stated on lengths and fields. -/
structure RawRecord.Valid (r : RawRecord) : Prop where
  val_room : sizeofApfsXattrVal ≤ r.val.length
  name_room : sizeofApfsXattrKey + 1 ≤ r.key.length
  name_len : r.nameLenField = r.key.length - sizeofApfsXattrKey
  terminated : r.key.getLast? = some 0
  dstream_len : r.hasDstreamBit = true → r.val.length = sizeofApfsXattrVal + sizeofApfsXattrDstream
  inline_len : r.hasDstreamBit = false → r.val.length = sizeofApfsXattrVal + r.xdataLenField

/-- What the decoder returns for a valid record. -/
def RawRecord.toXattr (r : RawRecord) : ApfsXattr where
  name := r.key.drop sizeofApfsXattrKey
  xdata := r.val.drop sizeofApfsXattrVal
  nameLen := r.key.length - sizeofApfsXattrKey - 1
  xdataLen := r.val.length - sizeofApfsXattrVal
  hasDstream := r.hasDstreamBit

theorem getLast?_eq_getElem? (l : List UInt8) : l.getLast? = l[l.length - 1]? := by
  cases l using List.reverseRecOn <;> simp

/-- The decoder accepts exactly the valid records, and returns `toXattr` for them. -/
theorem apfsXattrFromQuery_eq_ok_iff (r : RawRecord) (x : ApfsXattr) :
    apfsXattrFromQuery r = .ok x ↔ r.Valid ∧ x = r.toXattr := by
  have hK : sizeofApfsXattrKey = 10 := rfl
  have hV : sizeofApfsXattrVal = 4 := rfl
  have hD : sizeofApfsXattrDstream = 48 := rfl
  have hidx : 1 ≤ (r.key.length : Int) - sizeofApfsXattrKey →
      sizeofApfsXattrKey + ((r.key.length : Int) - sizeofApfsXattrKey - 1).toNat =
        r.key.length - 1 := by omega
  have hlast := getLast?_eq_getElem? r.key
  simp only [apfsXattrFromQuery]
  constructor
  · intro h
    split_ifs at h with h1 h2 h3 h4 h5
    cases h
    refine ⟨⟨by omega, by omega, by omega, by rw [hlast, ← hidx (by omega)]; simpa using h3,
      fun hd => ?_, fun hd => ?_⟩, ?_⟩
    · simp only [hd, true_and] at h4; omega
    · simp only [hd, Bool.not_false, true_and] at h5; omega
    · simp only [RawRecord.toXattr, ApfsXattr.mk.injEq, true_and, and_true]
      omega
  · rintro ⟨⟨hv, hk, hn, ht, hd, hi⟩, rfl⟩
    rw [if_neg (by omega), if_neg (by omega), if_neg (by rw [hidx (by omega), ← hlast, ht]; simp)]
    cases hb : r.hasDstreamBit
    · rw [if_neg (by simp), if_neg (by have := hi hb; simp; omega)]
      simp only [RawRecord.toXattr, hb, Except.ok.injEq, ApfsXattr.mk.injEq, true_and, and_true]
      omega
    · rw [if_neg (by have := hd hb; simp; omega), if_neg (by simp)]
      simp only [RawRecord.toXattr, hb, Except.ok.injEq, ApfsXattr.mk.injEq, true_and, and_true]
      omega

/-- The only error the decoder reports is corruption. -/
theorem apfsXattrFromQuery_of_not_valid {r : RawRecord} (h : ¬ r.Valid) :
    apfsXattrFromQuery r = .error (-efscorrupted) := by
  match hq : apfsXattrFromQuery r with
  | .ok x => exact absurd ((apfsXattrFromQuery_eq_ok_iff r x).1 hq).1 h
  | .error e =>
    simp only [apfsXattrFromQuery] at hq
    split_ifs at hq <;> cases hq <;> rfl

theorem apfsXattrFromQuery_of_valid {r : RawRecord} (h : r.Valid) :
    apfsXattrFromQuery r = .ok r.toXattr :=
  (apfsXattrFromQuery_eq_ok_iff r _).2 ⟨h, rfl⟩

/-- The decoder's acceptance condition in the source's terms, `namelen` and `datalen` being the
lengths past the headers; the result counts the name without its terminator. -/
theorem apfsXattrFromQuery_accepts_iff (r : RawRecord) :
    let datalen : Int := r.val.length - sizeofApfsXattrVal
    let namelen : Int := r.key.length - sizeofApfsXattrKey
    ((∃ x, apfsXattrFromQuery r = .ok x) ↔
      0 ≤ datalen ∧ 1 ≤ namelen ∧ (r.nameLenField : Int) = namelen ∧
        r.key.getLast? = some 0 ∧
        (r.hasDstreamBit = true → datalen = sizeofApfsXattrDstream) ∧
        (r.hasDstreamBit = false → datalen = r.xdataLenField)) ∧
    ∀ x, apfsXattrFromQuery r = .ok x →
      (x.nameLen : Int) = namelen - 1 ∧ (x.xdataLen : Int) = datalen ∧
        x.hasDstream = r.hasDstreamBit := by
  have hK : sizeofApfsXattrKey = 10 := rfl
  have hV : sizeofApfsXattrVal = 4 := rfl
  have hD : sizeofApfsXattrDstream = 48 := rfl
  refine ⟨⟨fun ⟨x, hx⟩ => ?_, fun ⟨h1, h2, h3, h4, h5, h6⟩ => ?_⟩, fun x hx => ?_⟩
  · obtain ⟨⟨hv, hk, hn, ht, hd, hi⟩, -⟩ := (apfsXattrFromQuery_eq_ok_iff r x).1 hx
    exact ⟨by omega, by omega, by omega, ht, fun h => by have := hd h; omega,
      fun h => by have := hi h; omega⟩
  · exact ⟨_, apfsXattrFromQuery_of_valid ⟨by omega, by omega, by omega, h4,
      fun h => by have := h5 h; omega, fun h => by have := h6 h; omega⟩⟩
  · obtain ⟨⟨hv, hk, -⟩, rfl⟩ := (apfsXattrFromQuery_eq_ok_iff r x).1 hx
    exact ⟨by simp only [RawRecord.toXattr]; omega, by simp only [RawRecord.toXattr]; omega, rfl⟩

/-- A key whose name is the terminator alone passes every check: the decoder asks for
`namelen ≥ 1` with `namelen` counting the terminator, so a name of no bytes before its NUL
decodes with `name_len = 0`. -/
theorem apfsXattrFromQuery_accepts_empty_name :
    let r : RawRecord := ⟨[0, 0, 0, 0, 0, 0, 0, 0, 1, 0, 0], [2, 0, 0, 0]⟩
    (r.key.length : Int) - sizeofApfsXattrKey = 1 ∧
      apfsXattrFromQuery r =
        .ok { name := [0], xdata := [], nameLen := 0, xdataLen := 0, hasDstream := false } :=
  ⟨by decide, rfl⟩

/-! ## Streams -/

/-- The fields of `struct apfs_dstream_info` the xattr code uses: the stream's object id and
its size. -/
@[ext]
structure ApfsDstreamInfo where
  dsId : BitVec 64
  dsSize : BitVec 64
deriving DecidableEq

/-- `apfs_dstream_from_xattr`: `xattr_obj_id` and `dstream.size` of the stream reference. -/
def apfsDstreamFromXattr (x : ApfsXattr) : ApfsDstreamInfo where
  dsId := BitVec.ofNat 64 (leField x.xdata 0 8)
  dsSize := BitVec.ofNat 64 (leField x.xdata 8 8)

/-! ## Building records -/

/-- Modelled from the spec: `apfs_key_set_hdr`, the owner id with the record type in its top
bits. -/
def apfsKeySetHdr (type ino : Nat) : List UInt8 := leEncode 8 (ino ||| type <<< apfsObjTypeShift)

/-- `apfs_build_xattr_key`: the 16-bit `namelen` counts the terminator, and the key is the
`key_len` bytes the catalog receives. -/
def apfsBuildXattrKey (name : CString) (ino : Nat) : List UInt8 :=
  let namelen := (name.strlen + 1) % 2 ^ 16
  let keyLen := sizeofApfsXattrKey + namelen
  (apfsKeySetHdr apfsTypeXattr ino ++ leEncode 2 namelen ++ name.bytes ++ [0]).take keyLen

/-- `apfs_build_inline_xattr_val`. -/
def apfsBuildInlineXattrVal (value : List UInt8) (size : Nat) : List UInt8 :=
  leEncode 2 apfsXattrDataEmbedded ++ leEncode 2 size ++ value.take size

/-- Modelled from the spec: `apfs_alloced_size`, the stream size rounded up to whole blocks. -/
def apfsAllocedSize (blocksizeBits : Nat) (d : ApfsDstreamInfo) : Nat :=
  ((d.dsSize.toNat + 2 ^ blocksizeBits - 1) >>> blocksizeBits) <<< blocksizeBits

/-- `apfs_build_dstream_xattr_val`; `encrypted` is `apfs_vol_is_encrypted`, and the two byte
counters at the end stay zero from `kzalloc`. -/
def apfsBuildDstreamXattrVal (encrypted : Bool) (blocksizeBits : Nat) (d : ApfsDstreamInfo) :
    List UInt8 :=
  leEncode 2 apfsXattrDataStream ++ leEncode 2 sizeofApfsXattrDstream ++
    (leEncode 8 d.dsId.toNat ++ leEncode 8 d.dsSize.toNat ++
      leEncode 8 (apfsAllocedSize blocksizeBits d) ++
      leEncode 8 (if encrypted then d.dsId.toNat else 0) ++ List.replicate 16 0)

/-- `raw_val->flags |= cpu_to_le16(bit)`. -/
def orFlags (val : List UInt8) (bit : Nat) : List UInt8 :=
  leEncode 2 (leField val 0 2 ||| bit) ++ val.drop 2

/-- The value `apfs_xattr_set` stores: the symlink target is marked as owned by the
filesystem. -/
def markOwned (owned : Bool) (val : List UInt8) : List UInt8 :=
  if owned then orFlags val apfsXattrFileSystemOwned else val

/-- The flags field `markOwned` leaves behind a value built with flags `f`. -/
def markedFlags (owned : Bool) (f : Nat) : Nat :=
  if owned then f % 2 ^ 16 ||| apfsXattrFileSystemOwned else f

/-! ## Decoding what was built -/

theorem markOwned_eq (owned : Bool) (f : Nat) (rest : List UInt8) :
    markOwned owned (leEncode 2 f ++ rest) = leEncode 2 (markedFlags owned f) ++ rest := by
  have h := leField_leEncode [] rest 2 f
  cases owned <;> simp_all [markOwned, markedFlags, orFlags, List.drop_left']

/-- The key `apfs_xattr_set` builds for a name of at most `XATTR_NAME_MAX` bytes. -/
theorem apfsBuildXattrKey_eq (name : CString) (ino : Nat) (h : name.strlen ≤ xattrNameMax) :
    apfsBuildXattrKey name ino =
      apfsKeySetHdr apfsTypeXattr ino ++ leEncode 2 (name.strlen + 1) ++ (name.bytes ++ [0]) := by
  have : (name.strlen + 1) % 2 ^ 16 = name.strlen + 1 := Nat.mod_eq_of_lt (by
    simp only [xattrNameMax] at h; omega)
  simp only [apfsBuildXattrKey, this, List.append_assoc]
  apply List.take_of_length_le
  simp [apfsKeySetHdr, sizeofApfsXattrKey, CString.strlen]
  omega

/-- The layout of that key: the name length field counts the terminator, and the name with its
terminator fills the key after the header. -/
theorem apfsBuildXattrKey_layout (name : CString) (ino : Nat) (h : name.strlen ≤ xattrNameMax) :
    let k := apfsBuildXattrKey name ino
    k.length = sizeofApfsXattrKey + (name.strlen + 1) ∧ leField k 8 2 = name.strlen + 1 ∧
      k.getLast? = some 0 ∧ k.drop sizeofApfsXattrKey = name.bytes ++ [0] := by
  have hn : (name.strlen + 1) % 256 ^ 2 = name.strlen + 1 :=
    Nat.mod_eq_of_lt (by simp only [xattrNameMax] at h; omega)
  have hk := leField_leEncode (apfsKeySetHdr apfsTypeXattr ino) (name.bytes ++ [0]) 2
    (name.strlen + 1)
  rw [show (apfsKeySetHdr apfsTypeXattr ino).length = 8 from leEncode_length _ _, hn] at hk
  simp only [apfsBuildXattrKey_eq name ino h]
  refine ⟨?_, hk, by simp, List.drop_left' (by simp [apfsKeySetHdr, sizeofApfsXattrKey])⟩
  simp [apfsKeySetHdr, sizeofApfsXattrKey, CString.strlen]
  omega

/-- The fields of a record whose value is laid out as flags `g`, length field `len` and
`data`. -/
theorem RawRecord.val_layout {r : RawRecord} {g len : Nat} {data : List UInt8}
    (h : r.val = leEncode 2 g ++ leEncode 2 len ++ data) :
    r.flagsField = g % 2 ^ 16 ∧ r.xdataLenField = len % 2 ^ 16 ∧
      r.val.length = sizeofApfsXattrVal + data.length ∧
      r.val.drop sizeofApfsXattrVal = data := by
  have hf := leField_leEncode [] (leEncode 2 len ++ data) 2 g
  have hl := leField_leEncode (leEncode 2 g) data 2 len
  simp only [leEncode_length, List.nil_append, List.length_nil, ← List.append_assoc] at hf hl
  rw [RawRecord.flagsField, RawRecord.xdataLenField, h]
  refine ⟨hf, hl, by simp [sizeofApfsXattrVal]; omega,
    List.drop_left' (by simp [sizeofApfsXattrVal])⟩

/-- A record built from a name of at most `XATTR_NAME_MAX` bytes and a value laid out as flags
`f`, length field `len` and `data` decodes to the name with its terminator and to `data`, as
long as the length field or the stream flag agrees with `data`. -/
theorem apfsXattrFromQuery_build (name : CString) (ino : Nat) (owned : Bool) (f len : Nat)
    (data : List UInt8) (hname : name.strlen ≤ xattrNameMax)
    (hstream : dstreamBit (markedFlags owned f % 2 ^ 16) = true →
      data.length = sizeofApfsXattrDstream)
    (hinline : dstreamBit (markedFlags owned f % 2 ^ 16) = false → len % 2 ^ 16 = data.length) :
    apfsXattrFromQuery ⟨apfsBuildXattrKey name ino,
        markOwned owned (leEncode 2 f ++ leEncode 2 len ++ data)⟩ =
      .ok { name := name.bytes ++ [0], xdata := data, nameLen := name.strlen,
            xdataLen := data.length,
            hasDstream := dstreamBit (markedFlags owned f % 2 ^ 16) } := by
  obtain ⟨r, hr⟩ : ∃ r : RawRecord, r = ⟨apfsBuildXattrKey name ino,
    markOwned owned (leEncode 2 f ++ leEncode 2 len ++ data)⟩ := ⟨_, rfl⟩
  rw [← hr]
  have hrk : r.key = apfsBuildXattrKey name ino := by rw [hr]
  have hrv : r.val = leEncode 2 (markedFlags owned f) ++ leEncode 2 len ++ data := by
    rw [hr, List.append_assoc, markOwned_eq, List.append_assoc]
  obtain ⟨hklen, hkname, hklast, hkdrop⟩ := apfsBuildXattrKey_layout name ino hname
  obtain ⟨hflags, hxlen, hvlen, hvdrop⟩ := RawRecord.val_layout hrv
  have hbit : r.hasDstreamBit = dstreamBit (markedFlags owned f % 2 ^ 16) := by
    rw [RawRecord.hasDstreamBit, hflags]
  have hvalid : r.Valid := by
    refine ⟨by omega, by rw [hrk, hklen]; omega, ?_, hrk ▸ hklast, fun h => ?_, fun h => ?_⟩
    · rw [RawRecord.nameLenField, hrk, hkname, hklen]
      omega
    · rw [hvlen, hstream (hbit ▸ h)]
    · rw [hvlen, hxlen, hinline (hbit ▸ h)]
  rw [apfsXattrFromQuery_of_valid hvalid]
  simp only [RawRecord.toXattr, hbit, hrk, hkdrop, hklen, hvdrop, hvlen, Except.ok.injEq,
    ApfsXattr.mk.injEq, true_and, and_true]
  omega

/-- The inline record `apfs_xattr_set` builds for the first `size` bytes of a value decodes to
the name with its terminator and to those bytes. -/
theorem apfsXattrFromQuery_inline (name : CString) (ino : Nat) (owned : Bool)
    (hname : name.strlen ≤ xattrNameMax) (value : List UInt8) (size : Nat)
    (hsize : size ≤ apfsXattrMaxEmbeddedSize) (hlen : size ≤ value.length) :
    apfsXattrFromQuery ⟨apfsBuildXattrKey name ino,
        markOwned owned (apfsBuildInlineXattrVal value size)⟩ =
      .ok { name := name.bytes ++ [0], xdata := value.take size, nameLen := name.strlen,
            xdataLen := size, hasDstream := false } := by
  have hm : size % 2 ^ 16 = (value.take size).length := by
    rw [List.length_take, Nat.min_eq_left hlen]
    exact Nat.mod_eq_of_lt (by simp only [apfsXattrMaxEmbeddedSize] at hsize; omega)
  have hemb : dstreamBit (markedFlags owned apfsXattrDataEmbedded % 2 ^ 16) = false := by
    cases owned <;> decide
  have h := apfsXattrFromQuery_build name ino owned apfsXattrDataEmbedded size (value.take size)
    hname (fun h => by rw [hemb] at h; contradiction) (fun _ => hm)
  rwa [List.length_take, Nat.min_eq_left hlen, hemb] at h

/-- The stream record `apfs_xattr_set` builds decodes to a reference to the same stream. -/
theorem apfsXattrFromQuery_dstream (name : CString) (ino : Nat) (owned : Bool)
    (hname : name.strlen ≤ xattrNameMax) (encrypted : Bool) (blocksizeBits : Nat)
    (d : ApfsDstreamInfo) :
    ∃ x, apfsXattrFromQuery ⟨apfsBuildXattrKey name ino,
        markOwned owned (apfsBuildDstreamXattrVal encrypted blocksizeBits d)⟩ = .ok x ∧
      x.name = name.bytes ++ [0] ∧ x.nameLen = name.strlen ∧ x.hasDstream = true ∧
      apfsDstreamFromXattr x = d := by
  have hds : dstreamBit (markedFlags owned apfsXattrDataStream % 2 ^ 16) = true := by
    cases owned <;> decide
  have hlen : (leEncode 8 d.dsId.toNat ++ leEncode 8 d.dsSize.toNat ++
      leEncode 8 (apfsAllocedSize blocksizeBits d) ++
      leEncode 8 (if encrypted then d.dsId.toNat else 0) ++ List.replicate 16 0).length =
      sizeofApfsXattrDstream := by simp [sizeofApfsXattrDstream]
  refine ⟨_, apfsXattrFromQuery_build name ino owned apfsXattrDataStream sizeofApfsXattrDstream _
    hname (fun _ => hlen) (fun h => by rw [hds] at h; contradiction), rfl, rfl, hds, ?_⟩
  have hid := leField_leEncode [] (leEncode 8 d.dsSize.toNat ++
    leEncode 8 (apfsAllocedSize blocksizeBits d) ++
    leEncode 8 (if encrypted then d.dsId.toNat else 0) ++ List.replicate 16 0) 8 d.dsId.toNat
  have hsz := leField_leEncode (leEncode 8 d.dsId.toNat) (
    leEncode 8 (apfsAllocedSize blocksizeBits d) ++
    leEncode 8 (if encrypted then d.dsId.toNat else 0) ++ List.replicate 16 0) 8 d.dsSize.toNat
  simp only [List.nil_append, List.length_nil, leEncode_length, List.append_assoc] at hid hsz
  simp only [apfsDstreamFromXattr, List.append_assoc, hid, hsz]
  have h1 := d.dsId.isLt
  have h2 := d.dsSize.isLt
  cases d
  simp only [ApfsDstreamInfo.mk.injEq]
  constructor <;> apply BitVec.eq_of_toNat_eq <;> simp <;> omega

/-- Decoding a built record gives back what was built, inline or stream, whether or not the
record is marked as owned by the filesystem. -/
theorem apfsXattrFromQuery_roundtrip (name : CString) (ino : Nat) (owned : Bool)
    (hname : name.strlen ≤ xattrNameMax) (value : List UInt8)
    (hvalue : value.length ≤ apfsXattrMaxEmbeddedSize) (encrypted : Bool) (blocksizeBits : Nat)
    (d : ApfsDstreamInfo) :
    apfsXattrFromQuery ⟨apfsBuildXattrKey name ino,
        markOwned owned (apfsBuildInlineXattrVal value value.length)⟩ =
      .ok { name := name.bytes ++ [0], xdata := value, nameLen := name.strlen,
            xdataLen := value.length, hasDstream := false } ∧
    ∃ x, apfsXattrFromQuery ⟨apfsBuildXattrKey name ino,
        markOwned owned (apfsBuildDstreamXattrVal encrypted blocksizeBits d)⟩ = .ok x ∧
      x.name = name.bytes ++ [0] ∧ x.nameLen = name.strlen ∧ x.hasDstream = true ∧
      apfsDstreamFromXattr x = d :=
  ⟨by simpa only [List.take_length] using
      apfsXattrFromQuery_inline name ino owned hname value value.length hvalue le_rfl,
    apfsXattrFromQuery_dstream name ino owned hname encrypted blocksizeBits d⟩

/-- The symlink target record, which `apfs_xattr_set` marks as owned, round-trips. -/
theorem apfsXattrFromQuery_roundtrip_symlink :
    let name : CString := ⟨apfsXattrNameSymlink, by decide⟩
    name.strlen ≤ xattrNameMax ∧ [0x2f].length ≤ apfsXattrMaxEmbeddedSize ∧
    (apfsXattrFromQuery ⟨apfsBuildXattrKey name 2,
        markOwned true (apfsBuildInlineXattrVal [0x2f] [0x2f].length)⟩ =
      .ok { name := name.bytes ++ [0], xdata := [0x2f], nameLen := name.strlen,
            xdataLen := [0x2f].length, hasDstream := false } ∧
    ∃ x, apfsXattrFromQuery ⟨apfsBuildXattrKey name 2,
        markOwned true (apfsBuildDstreamXattrVal false 12 ⟨5, 4000⟩)⟩ = .ok x ∧
      x.name = name.bytes ++ [0] ∧ x.nameLen = name.strlen ∧ x.hasDstream = true ∧
      apfsDstreamFromXattr x = ⟨5, 4000⟩) :=
  ⟨by decide, by decide, apfsXattrFromQuery_roundtrip ⟨apfsXattrNameSymlink, by decide⟩ 2 true
    (by decide) [0x2f] (by decide) false 12 ⟨5, 4000⟩⟩

end Apfs
