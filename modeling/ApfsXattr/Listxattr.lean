import ApfsXattr.Read
import Mathlib.Data.BitVec

/-!
# Listing the names of an inode's xattrs

`apfs_listxattr` walks the records a multiple query returns for the inode, in key order, and
for each writes the fake `osx.` prefix and the stored name with its terminator. The count of
free bytes is a `size_t`: without a buffer nothing checks it and it wraps below zero, and the
result is `size - free` converted to `ssize_t`.

The loop is `listxattrLoop`, one call per record. Over records that all decode,
`listxattrLoop_none`, `listxattrLoop_fits` and `listxattrLoop_erange` say what a whole run
returns: the listing's size as a two's complement 64-bit value, the listing itself when it
fits, and otherwise `-ERANGE` after the whole entries that fit.
-/

namespace Apfs

/-- The bytes one record takes in the listing, `name_len + XATTR_MAC_OSX_PREFIX_LEN + 1`. -/
def entrySize (x : ApfsXattr) : Nat := x.nameLen + xattrMacOsxPrefixLen + 1

/-- The loop of `apfs_listxattr` over the records the query returns in turn; the buffer has
advanced `pos` bytes and `free` bytes of it are left. -/
def listxattrLoop (size : BitVec 64) : List RawRecord → Option Mem → Nat → BitVec 64 → Int × Option Mem
  | [], buffer, _, free => ((size - free).toInt, buffer) -- Got all the xattrs
  | r :: rs, buffer, pos, free =>
    match apfsXattrFromQuery r with
    | .error e => (e, buffer)
    | .ok x =>
      match buffer with
      | none => listxattrLoop size rs none pos (free - BitVec.ofNat 64 (entrySize x))
      | some buf =>
        -- Prepend the fake 'osx' prefix before listing
        if entrySize x > free.toNat then (-erange, some buf)
        else
          let buf := memcpy buf pos (Mem.ofBytes xattrMacOsxPrefix) 0 xattrMacOsxPrefixLen
          let buf := memcpy buf (pos + xattrMacOsxPrefixLen) (Mem.ofBytes x.name) 0 (x.nameLen + 1)
          listxattrLoop size rs (some buf) (pos + entrySize x) (free - BitVec.ofNat 64 (entrySize x))

/-- `apfs_listxattr`, the lock left out. -/
def apfsListxattr (v : Volume) (ino : Nat) (buffer : Option Mem) (size : BitVec 64) :
    Int × Option Mem :=
  listxattrLoop size (v.catalog.recordsOf ino) buffer 0 size

/-! ## The listing -/

/-- The entry of one record: the prefix, then the stored name with its terminator. -/
def listEntry (x : ApfsXattr) : List UInt8 := xattrMacOsxPrefix ++ x.name

/-- The listing of records in order. -/
def listing (xs : List ApfsXattr) : List UInt8 := xs.flatMap listEntry

/-- The entries of a listing as a reader splits it: the runs of bytes each NUL ends. -/
def nulEntries (bytes : List UInt8) : List (List UInt8) := (bytes.splitOn 0).dropLast

/-- `T`, the sum of `XATTR_MAC_OSX_PREFIX_LEN + name_len + 1` over the records. -/
def listingSize (xs : List ApfsXattr) : Nat := (xs.map entrySize).sum

@[simp]
theorem listing_nil : listing [] = [] := rfl

@[simp]
theorem listing_cons (x : ApfsXattr) (xs : List ApfsXattr) :
    listing (x :: xs) = listEntry x ++ listing xs := rfl

@[simp]
theorem listingSize_nil : listingSize [] = 0 := rfl

@[simp]
theorem listingSize_cons (x : ApfsXattr) (xs : List ApfsXattr) :
    listingSize (x :: xs) = entrySize x + listingSize xs := rfl

/-- A decoded name holds `name_len` bytes and the terminator. -/
theorem RawRecord.Valid.name_length {r : RawRecord} (h : r.Valid) :
    r.toXattr.name.length = r.toXattr.nameLen + 1 := by
  have := h.name_room
  simp only [RawRecord.toXattr, List.length_drop]
  omega

theorem RawRecord.Valid.listEntry_length {r : RawRecord} (h : r.Valid) :
    (listEntry r.toXattr).length = entrySize r.toXattr := by
  have hp : xattrMacOsxPrefix.length = xattrMacOsxPrefixLen := rfl
  simp only [listEntry, entrySize, List.length_append, h.name_length, hp]
  omega

/-- A decoded name ends in its terminator. -/
theorem RawRecord.Valid.name_eq {r : RawRecord} (h : r.Valid) :
    r.toXattr.name = r.toXattr.name.dropLast ++ [0] := by
  have hroom := h.name_room
  refine (List.dropLast_append_getLast? 0 ?_).symm
  simp only [RawRecord.toXattr, List.getLast?_drop,
    if_neg (show ¬r.key.length ≤ sizeofApfsXattrKey by omega),
    h.terminated, Option.mem_def]

/-- Split at its NULs, a listing of names without an inner NUL gives back one entry per
record: the prefix and the name. -/
theorem nulEntries_listing {xs : List ApfsXattr}
    (h : ∀ x ∈ xs, x.name = x.name.dropLast ++ [0] ∧ 0 ∉ x.name.dropLast) :
    nulEntries (listing xs) = xs.map fun x => xattrMacOsxPrefix ++ x.name.dropLast := by
  suffices hs : (listing xs).splitOn 0 = (xs.map fun x => xattrMacOsxPrefix ++ x.name.dropLast) ++ [[]] by
    rw [nulEntries, hs, List.dropLast_concat]
  induction xs with
  | nil => rfl
  | cons x xs ih =>
    obtain ⟨hx, hnul⟩ := h x (List.mem_cons_self _ _)
    have hp : ∀ b ∈ xattrMacOsxPrefix, b ≠ 0 := by decide
    have hpre : ∀ b ∈ xattrMacOsxPrefix ++ x.name.dropLast, ¬(b == 0) = true := by
      intro b hb
      rw [beq_iff_eq]
      rcases List.mem_append.1 hb with hb | hb
      · exact hp b hb
      · exact fun h0 => hnul (h0 ▸ hb)
    rw [listing_cons, listEntry, hx, List.append_assoc, List.append_assoc, List.singleton_append,
      ← List.append_assoc, List.splitOn, List.splitOnP_first _ _ hpre 0 rfl]
    rw [← List.splitOn, ih fun y hy => h y (List.mem_cons_of_mem _ hy), List.map_cons,
      List.cons_append]

/-- Over records that decode, the listing is `T` bytes long. -/
theorem listing_length {rs : List RawRecord} (h : ∀ r ∈ rs, r.Valid) :
    (listing (rs.map RawRecord.toXattr)).length = listingSize (rs.map RawRecord.toXattr) := by
  induction rs with
  | nil => rfl
  | cons r rs ih =>
    simp only [List.map_cons, listing_cons, listingSize_cons, List.length_append,
      (h r (List.mem_cons_self _ _)).listEntry_length, ih fun r' hr' => h r' (List.mem_cons_of_mem _ hr')]

/-! ## Runs of the loop -/

theorem toNat_sub_ofNat_of_le {free : BitVec 64} {e : Nat} (h : e ≤ free.toNat) :
    (free - BitVec.ofNat 64 e).toNat = free.toNat - e := by
  rw [BitVec.toNat_sub_of_le (by rw [BitVec.le_def, BitVec.toNat_ofNat]; omega),
    BitVec.toNat_ofNat, Nat.mod_eq_of_lt (by omega)]

section Loop

variable (size : BitVec 64)

/-- The two copies of one step write the record's entry at `pos`. -/
theorem listxattr_entry_writes {r : RawRecord} (h : r.Valid) (buf : Mem) (pos : Nat) :
    memcpy (memcpy buf pos (Mem.ofBytes xattrMacOsxPrefix) 0 xattrMacOsxPrefixLen)
        (pos + xattrMacOsxPrefixLen) (Mem.ofBytes r.toXattr.name) 0 (r.toXattr.nameLen + 1) =
      memcpy buf pos (Mem.ofBytes (listEntry r.toXattr)) 0 (entrySize r.toXattr) := by
  rw [← h.listEntry_length, ← h.name_length]
  exact memcpy_ofBytes_append buf pos xattrMacOsxPrefix r.toXattr.name

/-- One step of the loop without a buffer, over a record that decodes: count its entry. -/
theorem listxattrLoop_cons_none {r : RawRecord} (h : r.Valid) (rs : List RawRecord) (pos : Nat)
    (free : BitVec 64) :
    listxattrLoop size (r :: rs) none pos free =
      listxattrLoop size rs none pos (free - BitVec.ofNat 64 (entrySize r.toXattr)) := by
  simp only [listxattrLoop, apfsXattrFromQuery_of_valid h]

/-- One step of the loop with a buffer, over a record that decodes: write its entry at `pos`
when it fits. -/
theorem listxattrLoop_cons_some {r : RawRecord} (h : r.Valid) (rs : List RawRecord) (buf : Mem)
    (pos : Nat) (free : BitVec 64) :
    listxattrLoop size (r :: rs) (some buf) pos free =
      if entrySize r.toXattr > free.toNat then (-erange, some buf)
      else listxattrLoop size rs
        (some (memcpy buf pos (Mem.ofBytes (listEntry r.toXattr)) 0 (entrySize r.toXattr)))
        (pos + entrySize r.toXattr) (free - BitVec.ofNat 64 (entrySize r.toXattr)) := by
  simp only [listxattrLoop, apfsXattrFromQuery_of_valid h, listxattr_entry_writes h]

/-- Without a buffer the loop only counts: `size - free` grows by each record's entry size,
modulo `2^64`. -/
theorem listxattrLoop_none {rs : List RawRecord} (h : ∀ r ∈ rs, r.Valid) (pos : Nat)
    (free : BitVec 64) :
    listxattrLoop size rs none pos free =
      ((size - free + BitVec.ofNat 64 (listingSize (rs.map RawRecord.toXattr))).toInt, none) := by
  induction rs generalizing free with
  | nil => simp [listxattrLoop]
  | cons r rs ih =>
    rw [listxattrLoop_cons_none size (h r (List.mem_cons_self _ _)),
      ih (fun r' hr' => h r' (List.mem_cons_of_mem _ hr'))]
    simp only [List.map_cons, listingSize_cons, ← BitVec.ofNat_add_ofNat]
    congr 2
    ring

/-- With a buffer that has room for the whole listing, the loop writes it at `pos`. -/
theorem listxattrLoop_fits {rs : List RawRecord} (h : ∀ r ∈ rs, r.Valid) (buf : Mem)
    (pos : Nat) (free : BitVec 64) (hfree : listingSize (rs.map RawRecord.toXattr) ≤ free.toNat) :
    listxattrLoop size rs (some buf) pos free =
      ((size - free + BitVec.ofNat 64 (listingSize (rs.map RawRecord.toXattr))).toInt,
        some (memcpy buf pos (Mem.ofBytes (listing (rs.map RawRecord.toXattr))) 0
          (listingSize (rs.map RawRecord.toXattr)))) := by
  induction rs generalizing buf pos free with
  | nil => simp [listxattrLoop]
  | cons r rs ih =>
    have hr := h r (List.mem_cons_self _ _)
    have hrs : ∀ r' ∈ rs, r'.Valid := fun r' hr' => h r' (List.mem_cons_of_mem _ hr')
    simp only [List.map_cons, listingSize_cons] at hfree ⊢
    rw [listxattrLoop_cons_some size hr, if_neg (by omega),
      ih hrs _ _ _ (by rw [toNat_sub_ofNat_of_le (by omega)]; omega),
      ← hr.listEntry_length, ← listing_length hrs, memcpy_ofBytes_append, ← BitVec.ofNat_add_ofNat]
    simp only [listing_cons, List.length_append]
    congr 2
    ring

/-- With a buffer too small for the whole listing, the loop stops with `-ERANGE` after the
whole entries of a prefix of the records that fit in `free`. -/
theorem listxattrLoop_erange {rs : List RawRecord} (h : ∀ r ∈ rs, r.Valid) (buf : Mem)
    (pos : Nat) (free : BitVec 64) (hfree : free.toNat < listingSize (rs.map RawRecord.toXattr)) :
    ∃ k, listingSize ((rs.map RawRecord.toXattr).take k) ≤ free.toNat ∧
      listxattrLoop size rs (some buf) pos free =
        (-erange, some (memcpy buf pos (Mem.ofBytes (listing ((rs.map RawRecord.toXattr).take k))) 0
          (listingSize ((rs.map RawRecord.toXattr).take k)))) := by
  induction rs generalizing buf pos free with
  | nil => simp at hfree
  | cons r rs ih =>
    have hr := h r (List.mem_cons_self _ _)
    have hrs : ∀ r' ∈ rs, r'.Valid := fun r' hr' => h r' (List.mem_cons_of_mem _ hr')
    simp only [List.map_cons, listingSize_cons] at hfree
    rw [listxattrLoop_cons_some size hr]
    by_cases hbig : entrySize r.toXattr > free.toNat
    · exact ⟨0, by simp, by simp [hbig]⟩
    obtain ⟨k, hk, hrun⟩ := ih hrs
      (memcpy buf pos (Mem.ofBytes (listEntry r.toXattr)) 0 (entrySize r.toXattr))
      (pos + entrySize r.toXattr) (free - BitVec.ofNat 64 (entrySize r.toXattr))
      (by rw [toNat_sub_ofNat_of_le (by omega)]; omega)
    rw [toNat_sub_ofNat_of_le (by omega)] at hk
    have htake : ∀ r' ∈ rs.take k, r'.Valid := fun r' hr' => hrs r' (List.mem_of_mem_take hr')
    refine ⟨k + 1, by simp only [List.map_cons, List.take_succ_cons, listingSize_cons]; omega, ?_⟩
    have hlen := listing_length htake
    rw [List.map_take] at hlen
    rw [if_neg hbig, hrun, ← hr.listEntry_length, ← hlen, memcpy_ofBytes_append]
    simp only [List.map_cons, List.take_succ_cons, listing_cons, listingSize_cons, List.length_append,
      hlen, hr.listEntry_length]

end Loop

/-! ## The listing of an inode -/

theorem toInt_ofNat_of_lt {n : Nat} (h : n < 2 ^ 63) : (BitVec.ofNat 64 n).toInt = n := by
  rw [BitVec.toInt_eq_toNat_cond, BitVec.toNat_ofNat, Nat.mod_eq_of_lt (by omega), if_pos (by omega)]

section Inode

variable {v : Volume} {ino : Nat} (hv : ∀ r ∈ v.catalog.recordsOf ino, r.Valid)
include hv

/-- Without a buffer the result is `T` as a two's complement 64-bit value, whatever `size`:
the wrap of `free` cancels in `size - free`. -/
theorem apfsListxattr_none (size : BitVec 64) :
    apfsListxattr v ino none size =
      ((BitVec.ofNat 64 (listingSize ((v.catalog.recordsOf ino).map RawRecord.toXattr))).toInt,
        none) := by
  rw [apfsListxattr, listxattrLoop_none size hv, BitVec.sub_self, BitVec.zero_add]

theorem apfsListxattr_fits (size : BitVec 64) (buf : Mem)
    (hsize : listingSize ((v.catalog.recordsOf ino).map RawRecord.toXattr) ≤ size.toNat) :
    apfsListxattr v ino (some buf) size =
      ((BitVec.ofNat 64 (listingSize ((v.catalog.recordsOf ino).map RawRecord.toXattr))).toInt,
        some (memcpy buf 0 (Mem.ofBytes (listing ((v.catalog.recordsOf ino).map RawRecord.toXattr)))
          0 (listingSize ((v.catalog.recordsOf ino).map RawRecord.toXattr)))) := by
  rw [apfsListxattr, listxattrLoop_fits size hv buf 0 size hsize, BitVec.sub_self, BitVec.zero_add]

end Inode

/-- `apfs_listxattr` over records that decode, for a listing size `T < 2^63`: `T` without a
buffer, the listing with room for it, and `-ERANGE` after the whole entries that fit otherwise. -/
theorem apfsListxattr_spec (v : Volume) (ino : Nat) (hv : ∀ r ∈ v.catalog.recordsOf ino, r.Valid) :
    let xs := (v.catalog.recordsOf ino).map RawRecord.toXattr
    (listingSize xs < 2 ^ 63 → ∀ size, apfsListxattr v ino none size = ((listingSize xs : Int), none)) ∧
    (listingSize xs < 2 ^ 63 → ∀ size buf, listingSize xs ≤ size.toNat →
      apfsListxattr v ino (some buf) size =
        ((listingSize xs : Int), some (memcpy buf 0 (Mem.ofBytes (listing xs)) 0 (listingSize xs)))) ∧
    (∀ size buf, size.toNat < listingSize xs → ∃ k, listingSize (xs.take k) ≤ size.toNat ∧
      apfsListxattr v ino (some buf) size =
        (-erange, some (memcpy buf 0 (Mem.ofBytes (listing (xs.take k))) 0 (listingSize (xs.take k))))) :=
  ⟨fun hT size => by rw [apfsListxattr_none hv, toInt_ofNat_of_lt hT],
   fun hT size buf hsize => by rw [apfsListxattr_fits hv size buf hsize, toInt_ofNat_of_lt hT],
   fun size buf hsize => listxattrLoop_erange size hv buf 0 size hsize⟩

/-- One record named `a` lists as `osx.a` and its NUL, six bytes. -/
theorem apfsListxattr_spec_one :
    let name : CString := ⟨[0x61], by decide⟩
    let r : RawRecord := ⟨apfsBuildXattrKey name 2, apfsBuildInlineXattrVal [7] 1⟩
    let v : Volume := ⟨⟨[(⟨2, [0x61]⟩, r)], List.pairwise_singleton _ _⟩, [], fun _ _ => 0, 1, 12, false⟩
    (∀ r ∈ v.catalog.recordsOf 2, r.Valid) ∧ apfsListxattr v 2 none 0 = (6, none) := by
  intro name r v
  have hv : ∀ r ∈ v.catalog.recordsOf 2, r.Valid := List.forall_mem_singleton.2
    ((apfsXattrFromQuery_eq_ok_iff r _).1
      (apfsXattrFromQuery_inline name 2 false (by decide) [7] 1 (by decide) (by decide))).1
  exact ⟨hv, (apfsListxattr_spec v 2 hv).1 (by decide) 0⟩


/-- Split at its NULs, what `apfs_listxattr` writes with room for the whole listing is one
entry per record in key order, the prefix and the record's name, as long as no stored name
holds a NUL before its terminator. -/
theorem apfsListxattr_nulEntries (v : Volume) (ino : Nat)
    (hv : ∀ r ∈ v.catalog.recordsOf ino, r.Valid)
    (hnul : ∀ r ∈ v.catalog.recordsOf ino, 0 ∉ r.toXattr.name.dropLast) (size : BitVec 64) (buf : Mem)
    (hsize : listingSize ((v.catalog.recordsOf ino).map RawRecord.toXattr) ≤ size.toNat) :
    ∃ ret buf', apfsListxattr v ino (some buf) size = (ret, some buf') ∧
      nulEntries (buf'.read 0 (listingSize ((v.catalog.recordsOf ino).map RawRecord.toXattr))) =
        (v.catalog.recordsOf ino).map fun r => xattrMacOsxPrefix ++ r.toXattr.name.dropLast := by
  refine ⟨_, _, apfsListxattr_fits hv size buf hsize, ?_⟩
  rw [← listing_length hv, Mem.read_memcpy_ofBytes, nulEntries_listing, List.map_map]
  · rfl
  · simp only [List.mem_map]
    rintro _ ⟨r, hr, rfl⟩
    exact ⟨(hv r hr).name_eq, hnul r hr⟩

/-- One record named `a` lists as the one entry `osx.a`. -/
theorem apfsListxattr_nulEntries_one :
    let name : CString := ⟨[0x61], by decide⟩
    let r : RawRecord := ⟨apfsBuildXattrKey name 2, apfsBuildInlineXattrVal [7] 1⟩
    let v : Volume := ⟨⟨[(⟨2, [0x61]⟩, r)], List.pairwise_singleton _ _⟩, [], fun _ _ => 0, 1, 12, false⟩
    (∀ r ∈ v.catalog.recordsOf 2, r.Valid) ∧ (∀ r ∈ v.catalog.recordsOf 2, 0 ∉ r.toXattr.name.dropLast) ∧
      ∃ ret buf', apfsListxattr v 2 (some fun _ => 0) 6 = (ret, some buf') ∧
        nulEntries (buf'.read 0 6) = [xattrMacOsxPrefix ++ [0x61]] := by
  intro name r v
  have hv : ∀ r ∈ v.catalog.recordsOf 2, r.Valid := List.forall_mem_singleton.2
    ((apfsXattrFromQuery_eq_ok_iff r _).1
      (apfsXattrFromQuery_inline name 2 false (by decide) [7] 1 (by decide) (by decide))).1
  have hnul : ∀ r ∈ v.catalog.recordsOf 2, 0 ∉ r.toXattr.name.dropLast :=
    List.forall_mem_singleton.2 (by decide)
  exact ⟨hv, hnul, apfsListxattr_nulEntries v 2 hv hnul 6 (fun _ => 0) (by decide)⟩

/-- A volume whose inode holds one record with the name `a`, NUL, `b`: the decoder accepts it,
as the name's last byte is a NUL. -/
theorem apfsListxattr_splits_inner_nul :
    let r : RawRecord := ⟨apfsKeySetHdr apfsTypeXattr 2 ++ [4, 0, 0x61, 0, 0x62, 0], [2, 0, 0, 0]⟩
    let v : Volume := ⟨⟨[(⟨2, [0x61]⟩, r)], List.pairwise_singleton _ _⟩, [], fun _ _ => 0, 0, 12, false⟩
    v.catalog.recordsOf 2 = [r] ∧ (∃ x, apfsXattrFromQuery r = .ok x) ∧
    ((apfsListxattr v 2 (some fun _ => 0) 64).2.map fun buf => nulEntries (buf.read 0 8)) =
      some [xattrMacOsxPrefix ++ [0x61], [0x62]] :=
  ⟨rfl, ⟨_, rfl⟩, by decide⟩

/-! ## A listing of `2^63` bytes or more -/

/-- The `w` base-255 digits of `i`, most significant first, each stored one past NUL. -/
def digitName : Nat → Nat → List UInt8
  | 0, _ => []
  | w + 1, i => UInt8.ofNat (i / 255 ^ w + 1) :: digitName w (i % 255 ^ w)

@[simp]
theorem digitName_length (w i : Nat) : (digitName w i).length = w := by
  induction w generalizing i with
  | zero => rfl
  | succ w ih => simp [digitName, ih]

theorem toNat_digit {q : Nat} (hq : q < 255) : (UInt8.ofNat (q + 1)).toNat = q + 1 := by
  rw [toNat_uInt8_ofNat, Nat.mod_eq_of_lt (by omega)]

theorem div_pow_lt_255 {w i : Nat} (hi : i < 255 ^ (w + 1)) : i / 255 ^ w < 255 :=
  (Nat.div_lt_iff_lt_mul (Nat.pos_pow_of_pos _ (by decide))).2 (by rw [Nat.pow_succ] at hi; omega)

theorem digitName_no_nul {w i : Nat} (hi : i < 255 ^ w) : 0 ∉ digitName w i := by
  induction w generalizing i with
  | zero => simp [digitName]
  | succ w ih =>
    simp only [digitName, List.mem_cons, not_or]
    refine ⟨fun h => ?_, ih (Nat.mod_lt _ (Nat.pos_pow_of_pos _ (by decide)))⟩
    have h' := congrArg UInt8.toNat h
    rw [toNat_digit (div_pow_lt_255 hi)] at h'
    exact absurd h' (by simp)

/-- Names of `w` digits sort as their numbers do. -/
theorem digitName_lex {w i j : Nat} (hij : i < j) (hj : j < 255 ^ w) :
    List.Lex (· < ·) ((digitName w i).map UInt8.toNat) ((digitName w j).map UInt8.toNat) := by
  induction w generalizing i j with
  | zero => simp at hj; omega
  | succ w ih =>
    have hpos : 0 < 255 ^ w := Nat.pos_pow_of_pos _ (by decide)
    have hqj := div_pow_lt_255 hj
    have hqi : i / 255 ^ w ≤ j / 255 ^ w := Nat.div_le_div_right hij.le
    simp only [digitName, List.map_cons]
    rcases Nat.lt_or_eq_of_le hqi with hlt | heq
    · exact List.Lex.rel (by rw [toNat_digit (by omega), toNat_digit hqj]; omega)
    · rw [heq]
      refine List.Lex.cons (ih ?_ (Nat.mod_lt _ hpos))
      have hi := Nat.mod_add_div i (255 ^ w)
      have hj := Nat.mod_add_div j (255 ^ w)
      rw [heq] at hi
      generalize 255 ^ w * (j / 255 ^ w) = t at hi hj
      omega

/-- Enough records that their listing, thirteen bytes each, passes `2^63` bytes. -/
def hugeCount : Nat := 2 ^ 63 / 13 + 1

theorem hugeCount_lt : hugeCount < 255 ^ 8 := by decide

/-- The `i`-th eight-byte name. -/
def hugeName (i : Nat) : CString :=
  ⟨digitName 8 (i % 255 ^ 8), digitName_no_nul (Nat.mod_lt _ (by decide))⟩

/-- The `i`-th record: an empty inline value under the `i`-th name. -/
def hugeEntry (i : Nat) : XattrKey × RawRecord :=
  (⟨2, (hugeName i).bytes⟩, ⟨apfsBuildXattrKey (hugeName i) 2, apfsBuildInlineXattrVal [] 0⟩)

theorem hugeEntry_lt {i j : Nat} (hij : i < j) (hj : j < hugeCount) :
    (hugeEntry i).1 < (hugeEntry j).1 := by
  show XattrKey.rank _ < XattrKey.rank _
  have hj' : j < 255 ^ 8 := lt_trans hj hugeCount_lt
  simp only [XattrKey.rank, hugeEntry, hugeName, Nat.mod_eq_of_lt hj',
    Nat.mod_eq_of_lt (lt_trans hij hj')]
  exact (Prod.Lex.lt_iff _ _).2 (Or.inr ⟨rfl, digitName_lex hij hj'⟩)

/-- A volume whose inode 2 has `hugeCount` xattrs. -/
def hugeVolume : Volume where
  catalog := ⟨(List.range hugeCount).map hugeEntry, by
    rw [List.pairwise_map]
    exact (List.pairwise_lt_range hugeCount).imp_of_mem fun _ hj hij =>
      hugeEntry_lt hij (List.mem_range.1 hj)⟩
  extents := []
  blocks := fun _ _ => 0
  nextObjId := 0
  blocksizeBits := 12
  encrypted := false

/-- Every record of `hugeVolume` decodes, to a name of eight bytes. -/
theorem hugeEntry_valid (i : Nat) :
    (hugeEntry i).2.Valid ∧ entrySize (hugeEntry i).2.toXattr = 13 := by
  have hs : (hugeName i).strlen = 8 := by simp [CString.strlen, hugeName]
  have hbit : dstreamBit (markedFlags false apfsXattrDataEmbedded % 2 ^ 16) = false := by
    simp [dstreamBit, markedFlags, apfsXattrDataEmbedded, apfsXattrDataStream]
  obtain ⟨hv, hx⟩ := (apfsXattrFromQuery_eq_ok_iff _ _).1
    (apfsXattrFromQuery_build (hugeName i) 2 false apfsXattrDataEmbedded 0 [] (by rw [hs]; decide)
      (fun h => absurd h (by rw [hbit]; decide)) (fun _ => rfl))
  exact ⟨hv, (congrArg entrySize hx).symm.trans (by simp only [entrySize, hs]; rfl)⟩

theorem listingSize_of_forall {xs : List ApfsXattr} {e : Nat} (h : ∀ x ∈ xs, entrySize x = e) :
    listingSize xs = xs.length * e := by
  induction xs with
  | nil => simp
  | cons x xs ih =>
    rw [listingSize_cons, h x (List.mem_cons_self _ _),
      ih fun y hy => h y (List.mem_cons_of_mem _ hy), List.length_cons, Nat.succ_mul]
    omega

/-- Every record of `hugeVolume` decodes and their listing takes `2^63` bytes or more; without a
buffer `apfs_listxattr` then returns a negative number, not the listing's size. -/
theorem apfsListxattr_huge_negative :
    (∀ r ∈ hugeVolume.catalog.recordsOf 2, r.Valid) ∧
    2 ^ 63 ≤ listingSize ((hugeVolume.catalog.recordsOf 2).map RawRecord.toXattr) ∧
    (apfsListxattr hugeVolume 2 none 0).1 < 0 := by
  have hrec : hugeVolume.catalog.recordsOf 2 = (List.range hugeCount).map fun i => (hugeEntry i).2 := by
    simp only [Catalog.recordsOf, hugeVolume]
    rw [List.filter_eq_self.2 fun e he => by
      obtain ⟨i, -, rfl⟩ := List.mem_map.1 he
      rfl, List.map_map]
    rfl
  have hvalid : ∀ r ∈ hugeVolume.catalog.recordsOf 2, r.Valid := by
    rw [hrec]
    intro r hr
    obtain ⟨i, -, rfl⟩ := List.mem_map.1 hr
    exact (hugeEntry_valid i).1
  have hentry : ∀ x ∈ (hugeVolume.catalog.recordsOf 2).map RawRecord.toXattr, entrySize x = 13 := by
    intro x hx
    rw [hrec, List.map_map] at hx
    obtain ⟨i, -, rfl⟩ := List.mem_map.1 hx
    exact (hugeEntry_valid i).2
  have hsize : listingSize ((hugeVolume.catalog.recordsOf 2).map RawRecord.toXattr) =
      hugeCount * 13 := by
    rw [listingSize_of_forall hentry, List.length_map, hrec, List.length_map, List.length_range]
  refine ⟨hvalid, by rw [hsize]; decide, ?_⟩
  rw [apfsListxattr_none hvalid, hsize, BitVec.toInt_eq_toNat_cond, BitVec.toNat_ofNat]
  simp [hugeCount]

end Apfs
