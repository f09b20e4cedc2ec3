import Mathlib.Data.List.Basic
import Mathlib.Tactic.Ring

/-!
# Machine words, C strings and memory for the xattr code

The xattr code of the APFS driver reads and writes little-endian fields of on-disk
records, copies bytes between records, disk blocks and caller buffers, and reports
failures as negative errno values. This module fixes those three vocabularies: the
constants the source takes from its headers, little-endian fields of byte strings,
and memory regions with `memcpy` and `memset`.

The headers (`apfs.h`, `linux/xattr.h`, `errno.h`) are not part of the modelled
source; their constants are stated here with the values the on-disk format and
the kernel give them.
-/

namespace Apfs

/-! ## Constants -/

/-- `sizeof(struct apfs_xattr_key)` of `apfs.h`: the 64-bit owner id and type followed by the
16-bit name length. -/
def sizeofApfsXattrKey : Nat := 10

/-- `sizeof(struct apfs_xattr_val)` of `apfs.h`: the 16-bit flags and the 16-bit data length. -/
def sizeofApfsXattrVal : Nat := 4

/-- `sizeof(struct apfs_xattr_dstream)` of `apfs.h`: the stream id followed by the five 64-bit
fields of `struct apfs_dstream`. -/
def sizeofApfsXattrDstream : Nat := 48

/-- The inline threshold `APFS_XATTR_MAX_EMBEDDED_SIZE` of `apfs.h`. -/
def apfsXattrMaxEmbeddedSize : Nat := 3804

/-- Flag bits of an xattr value, as `apfs.h` gives them. -/
def apfsXattrDataStream : Nat := 0x1

/-- Flag bits of an xattr value, as `apfs.h` gives them. -/
def apfsXattrDataEmbedded : Nat := 0x2

/-- Flag bits of an xattr value, as `apfs.h` gives them. -/
def apfsXattrFileSystemOwned : Nat := 0x4

/-- Record type of xattr keys and its position in the key header, as `apfs.h` gives them. -/
def apfsTypeXattr : Nat := 4

/-- Record type of xattr keys and its position in the key header, as `apfs.h` gives them. -/
def apfsObjTypeShift : Nat := 60

/-- The `setxattr` flags of `linux/xattr.h`. -/
def xattrCreate : Nat := 0x1

/-- The `setxattr` flags of `linux/xattr.h`. -/
def xattrReplace : Nat := 0x2

/-- Limits of `linux/limits.h` on names and values. -/
def xattrNameMax : Nat := 255

/-- Limits of `linux/limits.h` on names and values. -/
def xattrSizeMax : Nat := 65536

/-- `XATTR_MAC_OSX_PREFIX`, the bytes of `"osx."`. -/
def xattrMacOsxPrefix : List UInt8 := [0x6f, 0x73, 0x78, 0x2e]

/-- `XATTR_MAC_OSX_PREFIX_LEN`. -/
def xattrMacOsxPrefixLen : Nat := 4

/-- `APFS_XATTR_NAME_SYMLINK` of `apfs.h`, the bytes of `"com.apple.fs.symlink"`. -/
def apfsXattrNameSymlink : List UInt8 :=
  [0x63, 0x6f, 0x6d, 0x2e, 0x61, 0x70, 0x70, 0x6c, 0x65, 0x2e,
   0x66, 0x73, 0x2e, 0x73, 0x79, 0x6d, 0x6c, 0x69, 0x6e, 0x6b]

/-- `INT_MAX` for the 32-bit `int` of the kernel. -/
def intMax : Nat := 2 ^ 31 - 1

/-! ## Error numbers -/

def e2big : Int := 7
def eagain : Int := 11
def eexist : Int := 17
def erange : Int := 34
def enodata : Int := 61
/-- `EFSCORRUPTED` is `EUCLEAN` in the kernel. -/
def efscorrupted : Int := 117

/-! ## Little-endian fields -/

/-- The value of a little-endian byte string (`le16_to_cpu`, `le64_to_cpu`). -/
def leDecode : List UInt8 → Nat
  | [] => 0
  | b :: bs => b.toNat + 256 * leDecode bs

/-- The `width` little-endian bytes of `x` (`cpu_to_le16`, `cpu_to_le64`). -/
def leEncode : Nat → Nat → List UInt8
  | 0, _ => []
  | width + 1, x => UInt8.ofNat x :: leEncode width (x / 256)

/-- The little-endian field of `width` bytes at offset `off`. -/
def leField (bytes : List UInt8) (off width : Nat) : Nat :=
  leDecode ((bytes.drop off).take width)

@[simp]
theorem leEncode_length (width x : Nat) : (leEncode width x).length = width := by
  induction width generalizing x with
  | zero => rfl
  | succ width ih => simp [leEncode, ih]

theorem toNat_uInt8_ofNat (x : Nat) : (UInt8.ofNat x).toNat = x % 256 := by
  simp [UInt8.toNat, UInt8.ofNat]

theorem leDecode_leEncode (width x : Nat) : leDecode (leEncode width x) = x % 256 ^ width := by
  induction width generalizing x with
  | zero => simp [leEncode, leDecode, Nat.mod_one]
  | succ width ih =>
    rw [leEncode, leDecode, ih, toNat_uInt8_ofNat, pow_succ, Nat.mul_comm (256 ^ width) 256,
      Nat.mod_mul]

theorem leDecode_lt (bytes : List UInt8) : leDecode bytes < 256 ^ bytes.length := by
  induction bytes with
  | nil => simp [leDecode]
  | cons b bs ih =>
    have hb : b.toNat < 256 := b.toBitVec.isLt
    simp only [leDecode, List.length_cons, pow_succ]
    omega

/-- A field laid out after `pre` reads back what was written there. -/
theorem leField_append (pre mid post : List UInt8) :
    leField (pre ++ mid ++ post) pre.length mid.length = leDecode mid := by
  simp [leField, List.drop_left', List.take_left']

theorem leField_leEncode (pre post : List UInt8) (width x : Nat) :
    leField (pre ++ leEncode width x ++ post) pre.length width = x % 256 ^ width := by
  simpa [leDecode_leEncode] using leField_append pre (leEncode width x) post

/-! ## C strings -/

/-- A C string: the bytes before its terminating NUL, none of which is zero. -/
structure CString where
  bytes : List UInt8
  no_nul : (0 : UInt8) ∉ bytes
deriving DecidableEq

/-- `strlen`. -/
def CString.strlen (s : CString) : Nat := s.bytes.length

/-! ## Memory -/

/-- A byte-addressed region: a caller's buffer, or the contents of a disk block. -/
def Mem : Type := Nat → UInt8

/-- The region holding `bytes` from its start. -/
def Mem.ofBytes (bytes : List UInt8) : Mem := fun j => bytes.getD j 0

/-- The `n` bytes of `m` from offset `off`. -/
def Mem.read (m : Mem) (off n : Nat) : List UInt8 := (List.range n).map fun j => m (off + j)

/-- `memcpy(dst + off, src + srcOff, n)`. -/
def memcpy (dst : Mem) (off : Nat) (src : Mem) (srcOff n : Nat) : Mem :=
  fun j => if off ≤ j ∧ j < off + n then src (srcOff + (j - off)) else dst j

/-- `memset(dst + off, c, n)`. -/
def memset (dst : Mem) (off : Nat) (c : UInt8) (n : Nat) : Mem :=
  fun j => if off ≤ j ∧ j < off + n then c else dst j

theorem memcpy_apply (dst : Mem) (off : Nat) (src : Mem) (srcOff n j : Nat) :
    memcpy dst off src srcOff n j =
      if off ≤ j ∧ j < off + n then src (srcOff + (j - off)) else dst j := rfl

theorem memset_apply (dst : Mem) (off : Nat) (c : UInt8) (n j : Nat) :
    memset dst off c n j = if off ≤ j ∧ j < off + n then c else dst j := rfl

@[simp]
theorem Mem.read_length (m : Mem) (off n : Nat) : (m.read off n).length = n := by
  simp [Mem.read]

theorem Mem.read_ext {m m' : Mem} {off n : Nat} (h : ∀ j, j < n → m (off + j) = m' (off + j)) :
    m.read off n = m'.read off n := by
  simp only [Mem.read, List.map_inj_left, List.mem_range]
  exact h

/-- The first `bytes.length` bytes of `Mem.ofBytes bytes` are `bytes`. -/
theorem Mem.read_ofBytes (bytes : List UInt8) : (Mem.ofBytes bytes).read 0 bytes.length = bytes := by
  apply List.ext_getElem (by simp)
  intro j h _
  simp [Mem.read, Mem.ofBytes, List.getD_eq_getElem?_getD, List.getElem?_eq_getElem (by simpa using h)]

@[simp]
theorem memcpy_zero (dst : Mem) (off : Nat) (src : Mem) (srcOff : Nat) :
    memcpy dst off src srcOff 0 = dst := by
  funext j
  simp only [memcpy_apply]
  rw [if_neg (by omega)]

/-- A copy of a byte list reads back as that list. -/
theorem Mem.read_memcpy_ofBytes (dst : Mem) (off : Nat) (bytes : List UInt8) :
    (memcpy dst off (Mem.ofBytes bytes) 0 bytes.length).read off bytes.length = bytes := by
  conv_rhs => rw [← Mem.read_ofBytes bytes]
  simp only [Mem.read, memcpy_apply]
  refine List.map_congr_left fun j hj => ?_
  rw [List.mem_range] at hj
  rw [if_pos (by omega), Nat.add_sub_cancel_left]

/-- Two copies of byte lists into adjacent regions are one copy of their concatenation. -/
theorem memcpy_ofBytes_append (dst : Mem) (off : Nat) (a b : List UInt8) :
    memcpy (memcpy dst off (Mem.ofBytes a) 0 a.length) (off + a.length) (Mem.ofBytes b) 0 b.length =
      memcpy dst off (Mem.ofBytes (a ++ b)) 0 (a ++ b).length := by
  funext j
  simp only [memcpy_apply, Mem.ofBytes, List.getD_eq_getElem?_getD, List.length_append, Nat.zero_add]
  by_cases hb : off + a.length ≤ j ∧ j < off + a.length + b.length
  · rw [if_pos hb, if_pos (by omega), List.getElem?_append_right (by omega)]
    congr 2
    omega
  · rw [if_neg hb]
    by_cases ha : off ≤ j ∧ j < off + a.length
    · rw [if_pos ha, if_pos (by omega), List.getElem?_append_left (by omega)]
    · rw [if_neg ha, if_neg (by omega)]

end Apfs
