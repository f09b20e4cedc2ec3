import ApfsXattr.Store

/-!
# Setting an xattr inside a transaction

`apfs_xattr_osx_set`, the VFS handler, runs `apfs_xattr_set` inside a transaction: it commits
when the set returns 0 and aborts otherwise. The transaction is a collaborator: starting and
committing it never fail in the model, and aborting it discards every change made since it
started.

The abort is not a formality. `apfs_xattr_set` builds the stream of a large value before it
queries the catalog, and a set that then fails leaves that stream behind, its blocks held by
extents no record refers to (`apfsXattrSet_failure_leaks`). Inside the transaction a set is the
abstract `setxattr` of the store it acts on and keeps the invariant, whether it fails or not
(`apfsXattrOsxSet_view`). Its two branches that change the catalog are
`xattrSetRecord_view` and `apfsDeleteXattr_view`.
-/

namespace Apfs

/-! ## The transaction -/

/-- Modelled from the spec: `apfs_transaction_abort` discards every change made since
`apfs_transaction_start`, which leaves the volume the transaction started from. -/
def apfsTransactionAbort (start s : Fs) : Fs := s.mutate fun _ => start.vol

@[simp]
theorem apfsTransactionAbort_vol (start s : Fs) : (apfsTransactionAbort start s).vol = start.vol :=
  rfl

/-- `apfs_xattr_osx_set`: `apfs_xattr_set` inside a transaction, committed when the set returns 0
and aborted otherwise. -/
def apfsXattrOsxSet (s : Fs) (ino : Nat) (name : CString) (value : Option (List UInt8))
    (size flags : Nat) : Int × Fs :=
  let err := apfsXattrSet s ino name value size flags
  if err.1 ≠ 0 then (err.1, apfsTransactionAbort s err.2) else (0, err.2)

theorem apfsXattrOsxSet_of_ne_zero {s s₁ : Fs} {ino : Nat} {name : CString}
    {value : Option (List UInt8)} {size flags : Nat} {e : Int}
    (h : apfsXattrSet s ino name value size flags = (e, s₁)) (he : e ≠ 0) :
    apfsXattrOsxSet s ino name value size flags = (e, apfsTransactionAbort s s₁) := by
  simp only [apfsXattrOsxSet, h, if_pos he]

theorem apfsXattrOsxSet_of_eq_zero {s s₁ : Fs} {ino : Nat} {name : CString}
    {value : Option (List UInt8)} {size flags : Nat}
    (h : apfsXattrSet s ino name value size flags = (0, s₁)) :
    apfsXattrOsxSet s ino name value size flags = (0, s₁) := by
  simp only [apfsXattrOsxSet, h, ne_eq, not_true_eq_false, if_false]

/-! ## A failed set without the transaction -/

/-- A set of a value that fails leaves the volume the start of the set left: the stream of a
large value is built, and nothing else. -/
theorem apfsXattrSet_of_ne_zero {s : Fs} {ino : Nat} {name : CString} {value : List UInt8}
    {size flags : Nat} (h : (apfsXattrSet s ino name (some value) size flags).1 ≠ 0) :
    (apfsXattrSet s ino name (some value) size flags).2 = (xattrSetStream s value size).2 := by
  cases hl : s.vol.catalog.lookup ⟨ino, name.bytes⟩ with
  | none =>
    by_cases hf : flags &&& xattrReplace ≠ 0
    · rw [apfsXattrSet_of_none_replace _ hl hf, Option.getD_some]
    · rw [apfsXattrSet_of_none _ hl hf] at h ⊢
      exact absurd (xattrSetRecord_fst ..) h
  | some r =>
    by_cases hf : flags &&& xattrCreate ≠ 0
    · rw [apfsXattrSet_of_some_create _ hl hf, Option.getD_some]
    cases hq : apfsXattrDstreamFromQuery r with
    | error e => rw [apfsXattrSet_of_some_error hl hf hq]
    | ok old =>
      rw [apfsXattrSet_of_some_value hl hf hq] at h
      exact absurd (xattrSetRecord_fst ..) h

theorem blockCount_pos (bits : Nat) {size : Nat} (h : 0 < size) : 0 < blockCount bits size := by
  rw [blockCount_eq]
  exact Nat.div_pos (by omega) (Nat.two_pow_pos bits)

/-- `apfs_xattr_set` alone is not atomic: a failed set of a large value leaves its stream behind,
held by extents no record refers to, and breaks `I`. -/
theorem apfsXattrSet_failure_leaks {s : Fs} (hinv : StreamInv s.vol) {ino : Nat}
    {name : CString} {value : List UInt8} {flags : Nat}
    (hbig : apfsXattrMaxEmbeddedSize < value.length)
    (hfail : (apfsXattrSet s ino name (some value) value.length flags).1 ≠ 0) :
    let v := (apfsXattrSet s ino name (some value) value.length flags).2.vol
    v.catalog = s.vol.catalog ∧ v.nextObjId = s.vol.nextObjId + 1 ∧
      (∀ i < blockCount s.vol.blocksizeBits value.length,
        ∃ e ∈ v.extents, e.dsId = s.vol.nextObjId ∧ e.lblk = i) ∧
      (∀ k d, LiveStream v k d → d.dsId ≠ s.vol.nextObjId) ∧ ¬StreamInv v := by
  rw [apfsXattrSet_of_ne_zero hfail, xattrSetStream_snd_of_lt hbig]
  obtain ⟨-, hcat, hnext, -, -, -, -, hnew, -, -, -⟩ :=
    apfsCreateXattrDstream_spec s value value.length
  have hmapped : ∀ i < blockCount s.vol.blocksizeBits value.length,
      ∃ e ∈ (apfsCreateXattrDstream s value value.length).2.vol.extents,
        e.dsId = s.vol.nextObjId ∧ e.lblk = i := fun i hi => by
    obtain ⟨e, he, hid, hlblk, -⟩ := apfsLogicToPhysBno_ne_zero
      (lt_of_lt_of_le (freshBno_pos s.vol) (hnew i hi)).ne'
    exact ⟨e, he, hid, hlblk⟩
  -- the records are the old ones, and their streams are older than the new one
  have hold : ∀ k d, LiveStream (apfsCreateXattrDstream s value value.length).2.vol k d →
      d.dsId ≠ s.vol.nextObjId := fun k d hl he =>
    absurd (hinv.ids_lt k d (liveStream_congr hcat ▸ hl)) (by rw [he]; exact lt_irrefl _)
  refine ⟨hcat, hnext, hmapped, hold, fun h => ?_⟩
  obtain ⟨e, he, hid, -⟩ := hmapped 0 (blockCount_pos _ (by omega))
  rcases h.no_orphans e he with ⟨k, d, hl, hde⟩ | ⟨p, hp, -⟩
  · exact hold k d hl (hde.trans hid)
  · cases hp

/-- On a new volume, setting a value of one block and one byte with `XATTR_REPLACE` fails and
leaves its stream behind. -/
theorem apfsXattrSet_failure_leaks_replace :
    let s : Fs := ⟨⟨⟨[], .nil⟩, [], fun _ _ => 0, 1, 12, false⟩, []⟩
    let value := List.replicate 4097 (0 : UInt8)
    StreamInv s.vol ∧ apfsXattrMaxEmbeddedSize < value.length ∧
      (apfsXattrSet s 2 ⟨[0x61], by decide⟩ (some value) value.length xattrReplace).1 ≠ 0 ∧
      ¬StreamInv (apfsXattrSet s 2 ⟨[0x61], by decide⟩ (some value) value.length xattrReplace).2.vol := by
  intro s value
  have hinv : StreamInv s.vol := streamInv_of_empty rfl rfl
  have hbig : apfsXattrMaxEmbeddedSize < value.length := by
    rw [List.length_replicate]; decide
  have hl : s.vol.catalog.lookup ⟨2, (⟨[0x61], by decide⟩ : CString).bytes⟩ = none := rfl
  have hfail :
      (apfsXattrSet s 2 ⟨[0x61], by decide⟩ (some value) value.length xattrReplace).1 ≠ 0 := by
    rw [apfsXattrSet_of_none_replace _ hl (by decide)]
    decide
  exact ⟨hinv, hbig, hfail, (apfsXattrSet_failure_leaks hinv hbig hfail).2.2.2.2⟩

/-! ## The branches of a set and the store -/

/-- What the start of a set hands on: no stream for a value that is embedded, and otherwise a
stream whose size is at most the value's. -/
theorem xattrSetStream_fst_cases (s : Fs) (value : List UInt8) (size : Nat) :
    ((xattrSetStream s value size).1 = none → size ≤ apfsXattrMaxEmbeddedSize) ∧
      ∀ d ∈ (xattrSetStream s value size).1, d.dsSize.toNat ≤ size := by
  by_cases h : apfsXattrMaxEmbeddedSize < size
  · rw [xattrSetStream_fst_of_lt h, (apfsCreateXattrDstream_spec s value size).1]
    refine ⟨nofun, fun d hd => ?_⟩
    cases hd
    exact Nat.mod_le _ _
  · rw [xattrSetStream_of_le (Nat.not_lt.1 h)]
    exact ⟨fun _ => Nat.not_lt.1 h, nofun⟩

/-- The record `apfs_xattr_set` stores is one the invariant allows under its key. -/
theorem xattrSetVal_recordOk (v : Volume) (name : CString) (ino : Nat) (value : List UInt8)
    (size : Nat) (dstream : Option ApfsDstreamInfo) (hname : name.strlen ≤ xattrNameMax)
    (hinline : dstream = none → size ≤ apfsXattrMaxEmbeddedSize ∧ size ≤ value.length)
    (hsize : ∀ d ∈ dstream, d.dsSize.toNat ≤ xattrSizeMax) :
    RecordOk ⟨ino, name.bytes⟩
      ⟨apfsBuildXattrKey name ino, xattrSetVal v name value size dstream⟩ := by
  obtain ⟨x, hx, hxname⟩ : ∃ x, apfsXattrFromQuery
      ⟨apfsBuildXattrKey name ino, xattrSetVal v name value size dstream⟩ = .ok x ∧
      x.name = name.bytes ++ [0] := by
    cases dstream with
    | none =>
      obtain ⟨hemb, hlen⟩ := hinline rfl
      exact ⟨_, apfsXattrFromQuery_inline name ino _ hname value size hemb hlen, rfl⟩
    | some d =>
      obtain ⟨x, hx, hn, -⟩ := apfsXattrFromQuery_dstream name ino _ hname v.encrypted
        v.blocksizeBits d
      exact ⟨x, hx, hn⟩
  obtain ⟨hvalid, rfl⟩ := (apfsXattrFromQuery_eq_ok_iff _ x).1 hx
  exact ⟨hvalid, hxname, name.no_nul, fun d hd =>
    hsize d ((xattrSetVal_dstream v name ino value size dstream hname d).1 hd)⟩

/-- A set that stores its record, on a volume that satisfies the invariant: the store holds the
value under the name and everything else as before, the invariant holds after, and no volume in
between has a record pointing at a freed block. -/
theorem xattrSetRecord_view {s : Fs} (hinv : XattrInv s.vol) {ino : Nat} {name : CString}
    {value : List UInt8} {old : Option ApfsDstreamInfo} {insert : Bool}
    (hname : name.strlen ≤ xattrNameMax) (hsize : value.length ≤ xattrSizeMax)
    (hnext : apfsXattrMaxEmbeddedSize < value.length → s.vol.nextObjId.toNat + 1 < 2 ^ 64)
    (hold : ∀ d, LiveStream s.vol ⟨ino, name.bytes⟩ d ↔ old = some d)
    (hfound : insert = false → s.vol.catalog.lookup ⟨ino, name.bytes⟩ ≠ none) :
    let c := xattrSetStream s value value.length
    let r := xattrSetRecord c.2 ino name value value.length c.1 old insert
    r.2.vol.view = Function.update s.vol.view ⟨ino, name.bytes⟩ (some value) ∧
      XattrInv r.2.vol ∧ s.Through NoHoles r.2 := by
  intro c r
  obtain ⟨hinv₁, hthr₁⟩ := xattrSetStream_streamInv hinv.streams value value.length hnext
  have hcat : c.2.vol.catalog = s.vol.catalog := xattrSetStream_catalog _ _ _
  have hfound' : insert = false → c.2.vol.catalog.lookup ⟨ino, name.bytes⟩ ≠ none := by
    rw [hcat]; exact hfound
  obtain ⟨hsi, hthr⟩ := xattrSetRecord_streamInv hinv₁ hthr₁ hname
    (fun d => (liveStream_of_lookup (by rw [hcat]) d).trans (hold d)) hfound'
  obtain ⟨hemb, hds⟩ := xattrSetStream_fst_cases s value value.length
  have hinv' : XattrInv r.2.vol := ⟨hsi, fun k' r' h => by
    rw [xattrSetRecord_lookup _ _ _ _ _ _ _ _ hfound'] at h
    split_ifs at h with hk
    · cases h
      subst hk
      exact xattrSetVal_recordOk _ name ino value _ _ hname (fun h => ⟨hemb h, le_rfl⟩)
        fun d hd => (hds d hd).trans hsize
    · rw [hcat] at h
      exact hinv.records k' r' h⟩
  obtain ⟨hread, -, hother⟩ := xattrSetRecord_stored hinv.streams hname hsize hold hfound
  refine ⟨funext fun k' => ?_, hinv', hthr⟩
  by_cases hk : k' = ⟨ino, name.bytes⟩
  · subst hk
    obtain ⟨buf', h, hb⟩ := hread (fun _ => 0) value.length true le_rfl
    rw [Function.update_same, view_eq_of_read_whole hinv' h hb]
  · rw [Function.update_noteq hk]
    exact view_eq_of_reads hinv hinv' k' fun name' hn buffer size =>
      hother k'.owner name' (by rw [hn]; exact hk) buffer size true

/-- `apfs_delete_xattr` of the record under `k`, on a volume that satisfies the invariant: it
returns 0, the store loses `k` and nothing else, the invariant holds after, and no volume in
between has a record pointing at a freed block. -/
theorem apfsDeleteXattr_view {s : Fs} (hinv : XattrInv s.vol) {k : XattrKey} {r : RawRecord}
    (hr : s.vol.catalog.lookup k = some r) :
    (apfsDeleteXattr s k r).1 = 0 ∧
      (apfsDeleteXattr s k r).2.vol.view = Function.update s.vol.view k none ∧
      XattrInv (apfsDeleteXattr s k r).2.vol ∧ s.Through NoHoles (apfsDeleteXattr s k r).2 := by
  have hv := (hinv.records k r hr).valid
  have h0 : (apfsDeleteXattr s k r).1 = 0 := by rw [apfsDeleteXattr_spec s k hv]
  obtain ⟨hsi, hthr⟩ := apfsDeleteXattr_streamInv hinv.streams hr h0
  have hcat := apfsDeleteXattr_catalog s k hv
  obtain ⟨hblocks, hbits, -, hphys⟩ := apfsDeleteXattr_frame s k hv
  have hlk : ∀ k', (apfsDeleteXattr s k r).2.vol.catalog.lookup k' =
      if k' = k then none else s.vol.catalog.lookup k' := fun k' => by
    rw [hcat, Catalog.lookup_erase]
  refine ⟨h0, funext fun k' => ?_, ⟨hsi, fun k' r' h => ?_⟩, hthr⟩
  · by_cases hk : k' = k
    · subst hk
      rw [Function.update_same, Volume.view_of_lookup_none (by rw [hlk, if_pos rfl])]
    · rw [Function.update_noteq hk]
      refine Volume.view_of_reads (by rw [hlk, if_neg hk]) hbits fun d hd i =>
        ⟨hphys _ (fun d' hd' he => hk ?_) i, by rw [hblocks]⟩
      exact hinv.streams.ids_unique k' k d d' hd ⟨r, hr, hd'⟩ he.symm
  · rw [hlk] at h
    split_ifs at h
    exact hinv.records k' r' h

/-! ## A set inside its transaction -/

/-- A set that fails inside its transaction changes nothing: the abort brings back the volume it
started from, with its store and its invariant, and no volume in between has a record pointing
at a freed block. -/
theorem apfsXattrOsxSet_aborted {s s₁ : Fs} (hinv : XattrInv s.vol) {ino : Nat} {name : CString}
    {value : Option (List UInt8)} {size flags : Nat} {e : Int}
    (h : apfsXattrSet s ino name value size flags = (e, s₁)) (he : e ≠ 0)
    (hthr : s.Through NoHoles s₁) :
    let r := apfsXattrOsxSet s ino name value size flags
    r.1 = e ∧ r.2.vol.view = s.vol.view ∧ XattrInv r.2.vol ∧ s.Through NoHoles r.2 := by
  rw [apfsXattrOsxSet_of_ne_zero h he]
  exact ⟨rfl, rfl, hinv, hthr.trans (Fs.Through.mutate _ _ hinv.streams.no_holes)⟩

/-- `apfs_xattr_osx_set` is the abstract `setxattr` of the view for the arguments the VFS
passes, and keeps the invariant with no hole on the way. -/
theorem apfsXattrOsxSet_view {s : Fs} (hinv : XattrInv s.vol) (ino : Nat) (name : CString)
    (value : Option (List UInt8)) (size flags : Nat) (hname : name.strlen ≤ xattrNameMax)
    (hvalue : (value.getD []).length = size) (hsize : size ≤ xattrSizeMax)
    (hnext : s.vol.nextObjId.toNat + 1 < 2 ^ 64) :
    let r := apfsXattrOsxSet s ino name value size flags
    let a := s.vol.view.set ⟨ino, name.bytes⟩ value flags
    r.1 = a.1 ∧ r.2.vol.view = a.2 ∧ XattrInv r.2.vol ∧ s.Through NoHoles r.2 := by
  subst hvalue
  obtain ⟨-, hthr₁⟩ := xattrSetStream_streamInv hinv.streams (value.getD []) _ fun _ => hnext
  cases hl : s.vol.catalog.lookup ⟨ino, name.bytes⟩ with
  | none =>
    rw [XattrStore.set_of_none (Volume.view_of_lookup_none hl)]
    by_cases hf : flags &&& xattrReplace ≠ 0
    · rw [if_pos hf]
      exact apfsXattrOsxSet_aborted hinv (apfsXattrSet_of_none_replace value hl hf)
        (by simp [enodata]) hthr₁
    · obtain ⟨hview, hinv', hthr⟩ := xattrSetRecord_view hinv hname hsize (fun _ => hnext)
        (fun d => iff_of_false (not_liveStream hl d) (Option.some_ne_none d).symm)
        fun h : true = false => nomatch h
      rw [if_neg hf, apfsXattrOsxSet_of_eq_zero ((apfsXattrSet_of_none value hl hf).trans
        (Prod.ext (xattrSetRecord_fst ..) rfl))]
      exact ⟨rfl, hview, hinv', hthr⟩
  | some r =>
    have hv := (hinv.records _ r hl).valid
    rw [XattrStore.set_of_some (Volume.view_of_ok hl (apfsXattrFromQuery_of_valid hv))]
    by_cases hf : flags &&& xattrCreate ≠ 0
    · rw [if_pos hf]
      exact apfsXattrOsxSet_aborted hinv (apfsXattrSet_of_some_create value hl hf)
        (by simp [eexist]) hthr₁
    rw [if_neg hf]
    cases value with
    | none =>
      obtain ⟨h0, hview, hinv', hthr⟩ := apfsDeleteXattr_view hinv hl
      have hset : apfsXattrSet s ino name none 0 flags = _ := apfsXattrSet_of_some_null hl hf
      rw [xattrSetStream_of_le (by decide)] at hset
      rw [Option.getD_none, List.length_nil,
        apfsXattrOsxSet_of_eq_zero (hset.trans (Prod.ext h0 rfl))]
      exact ⟨rfl, hview, hinv', hthr⟩
    | some value =>
      have hq := apfsXattrDstreamFromQuery_of_valid hv
      obtain ⟨hview, hinv', hthr⟩ := xattrSetRecord_view hinv hname hsize (fun _ => hnext)
        (fun d => (liveStream_iff hl d).trans (by rw [hq, Except.ok.injEq])) fun _ => by
          rw [hl]; exact Option.some_ne_none r
      rw [apfsXattrOsxSet_of_eq_zero ((apfsXattrSet_of_some_value hl hf hq).trans
        (Prod.ext (xattrSetRecord_fst ..) rfl))]
      exact ⟨rfl, hview, hinv', hthr⟩

/-- A set that fails inside its transaction leaves the volume exactly as it was. -/
theorem apfsXattrOsxSet_fail_vol {s : Fs} {ino : Nat} {name : CString}
    {value : Option (List UInt8)} {size flags : Nat}
    (h : (apfsXattrOsxSet s ino name value size flags).1 ≠ 0) :
    (apfsXattrOsxSet s ino name value size flags).2.vol = s.vol := by
  simp only [apfsXattrOsxSet] at h ⊢
  split
  · rfl
  · next h0 => rw [if_neg h0] at h; exact absurd rfl h

/-- `apfs_xattr_osx_set` refines the abstract `setxattr`, for the arguments the VFS passes; a
failed set leaves the volume exactly as it was. -/
theorem apfsXattrOsxSet_refines {s : Fs} (hinv : XattrInv s.vol) (ino : Nat) (name : CString)
    (value : Option (List UInt8)) (size flags : Nat) (hname : name.strlen ≤ xattrNameMax)
    (hvalue : (value.getD []).length = size) (hsize : size ≤ xattrSizeMax)
    (hnext : s.vol.nextObjId.toNat + 1 < 2 ^ 64) :
    let r := apfsXattrOsxSet s ino name value size flags
    let a := s.vol.view.set ⟨ino, name.bytes⟩ value flags
    r.1 = a.1 ∧ (r.1 ≠ 0 → r.2.vol = s.vol) ∧ XattrInv r.2.vol ∧ s.Through NoHoles r.2 ∧
      ∀ ino' name' buffer size', apfsXattrGet r.2.vol ino' name' buffer size' =
        a.2.get ⟨ino', name'.bytes⟩ buffer size' true := by
  obtain ⟨h1, h2, h3, h4⟩ := apfsXattrOsxSet_view hinv ino name value size flags hname hvalue
    hsize hnext
  exact ⟨h1, apfsXattrOsxSet_fail_vol, h3, h4, fun ino' name' buffer size' => by
    rw [apfsXattrGet_view h3, h2]⟩

/-- On a new volume, setting a one-byte value under `a` is the abstract set. -/
theorem apfsXattrOsxSet_refines_new_volume :
    let s : Fs := ⟨⟨⟨[], .nil⟩, [], fun _ _ => 0, 1, 12, false⟩, []⟩
    XattrInv s.vol ∧ (apfsXattrOsxSet s 2 ⟨[0x61], by decide⟩ (some [7]) 1 0).1 =
      (s.vol.view.set ⟨2, [0x61]⟩ (some [7]) 0).1 := by
  intro s
  have h : XattrInv s.vol := (xattrInv_of_empty rfl rfl).1
  exact ⟨h, (apfsXattrOsxSet_refines h 2 ⟨[0x61], by decide⟩ (some [7]) 1 0 (by decide) rfl
    (by decide) (by decide)).1⟩

end Apfs
