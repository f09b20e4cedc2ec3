import ApfsXattr.Run

/-!
# Accounting for the blocks of the streams

A stream holds each of its blocks through one extent record, for one logical block. `ExtentsOk`
says that the records account for the blocks: no two extents hold the same physical block or
the same block of one stream, and every extent lies below the declared size of the stream it
belongs to. As `StreamInvWith` does, it allows for one pending stream that no record refers to
yet.

Every call keeps it, whether it succeeds or fails: the code only adds extents when it makes a
stream, at slots of a new id and at blocks past every block in use, and otherwise only drops
them. With the invariant `I` it gives the count fsck checks: the extents are exactly the blocks
of the streams the records refer to, `⌈size / bs⌉` of each (`extents_length_eq`), and over
every run of calls the code neither leaks a block nor hands one block to two extents
(`runCalls_extents`).
-/

namespace Apfs

/-- The slot an extent fills: its stream and its logical block. -/
def FileExtent.slot (e : FileExtent) : BitVec 64 × Nat := (e.dsId, e.lblk)

/-- The extents account for the blocks of the streams, allowing for one stream `pending` that no
record refers to: no physical block and no slot is held twice, and every extent lies below the
declared size of its stream. -/
structure ExtentsOk (v : Volume) (pending : Option ApfsDstreamInfo) : Prop where
  pblk_nodup : (v.extents.map (·.pblk)).Nodup
  slot_nodup : (v.extents.map FileExtent.slot).Nodup
  live_lt : ∀ e ∈ v.extents, ∀ k d, LiveStream v k d → d.dsId = e.dsId →
    e.lblk < blockCount v.blocksizeBits d.dsSize.toNat
  pending_lt : ∀ e ∈ v.extents, ∀ p ∈ pending, p.dsId = e.dsId →
    e.lblk < blockCount v.blocksizeBits p.dsSize.toNat

theorem ExtentsOk.of_empty {v : Volume} (he : v.extents = []) (pending : Option ApfsDstreamInfo) :
    ExtentsOk v pending := by
  refine ⟨?_, ?_, ?_, ?_⟩ <;> simp [he]

/-- A pending stream asks nothing of the extents once it is forgotten. -/
theorem ExtentsOk.forget {v : Volume} {p : Option ApfsDstreamInfo} (h : ExtentsOk v p) :
    ExtentsOk v none :=
  ⟨h.pblk_nodup, h.slot_nodup, h.live_lt, fun _ _ _ h => nomatch h⟩

/-- A change that keeps the block size, only drops extents, and whose streams were streams
before or the pending one keeps the accounting. -/
theorem ExtentsOk.of_sublist {v w : Volume} {p : Option ApfsDstreamInfo} (h : ExtentsOk v p)
    (hext : w.extents.Sublist v.extents) (hbits : w.blocksizeBits = v.blocksizeBits)
    (hlive : ∀ k d, LiveStream w k d → LiveStream v k d ∨ p = some d) : ExtentsOk w none := by
  refine ⟨h.pblk_nodup.sublist (hext.map _), h.slot_nodup.sublist (hext.map _),
    fun e he k d hl hid => ?_, fun _ _ _ h => nomatch h⟩
  rw [hbits]
  rcases hlive k d hl with hl | hp
  · exact h.live_lt e (hext.subset he) k d hl hid
  · exact h.pending_lt e (hext.subset he) d hp hid

/-! ## Making a stream -/

theorem freshBno_addExtent_fresh (v : Volume) (id : BitVec 64) (i : Nat) :
    freshBno (v.addExtent ⟨id, i, freshBno v⟩) = freshBno v + 1 := by
  simp only [freshBno, Volume.addExtent_extents, List.map_cons, List.foldr_cons]
  omega

/-- The extents the first `k` passes of the create loop add: one per block, newest first, at the
blocks the allocator hands out one after another. -/
theorem createRun_foldl_extents (value : List UInt8) (size : Nat) (D : BitVec 64) (s : Fs)
    (k : Nat) :
    let r := (List.range k).foldl (createXattrDstreamStep value size) (⟨D, 0⟩, s)
    r.2.vol.extents =
        ((List.range k).map fun i => (⟨D, i, freshBno s.vol + i⟩ : FileExtent)).reverse ++
          s.vol.extents ∧
      freshBno r.2.vol = freshBno s.vol + k := by
  induction k with
  | zero => simp
  | succ k ih =>
    have hid := (createRun_foldl value size D s k).1.ds_id
    rw [List.range_succ, List.foldl_append, List.foldl_cons, List.foldl_nil]
    generalize (List.range k).foldl (createXattrDstreamStep value size) (⟨D, 0⟩, s) = r
      at ih hid ⊢
    obtain ⟨hext, hfresh⟩ := ih
    refine ⟨?_, (freshBno_addExtent_fresh _ _ _).trans ?_⟩
    · simp [createXattrDstreamStep, apfsDstreamGetNewBno, Fs.writeBlock, hid, hext, hfresh]
    · rw [hfresh, Nat.add_assoc]

/-- The extents `apfs_create_xattr_dstream` adds: one for each block of the value, in the new
stream, at new blocks. -/
theorem apfsCreateXattrDstream_extents (s : Fs) (value : List UInt8) (size : Nat) :
    (apfsCreateXattrDstream s value size).2.vol.extents =
      ((List.range (blockCount s.vol.blocksizeBits size)).map fun i =>
        (⟨s.vol.nextObjId, i, freshBno s.vol + i⟩ : FileExtent)).reverse ++ s.vol.extents :=
  (createRun_foldl_extents value size s.vol.nextObjId (s.mutate (·.bumpNextObjId)) _).1

/-- The stream a set makes for a large value, from a volume that satisfies `I` and the
accounting, is accounted for as the pending stream: its extents fill new slots at new blocks,
below its size. -/
theorem ExtentsOk.create {s : Fs} (hinv : StreamInv s.vol) (hext : ExtentsOk s.vol none)
    (value : List UInt8) {size : Nat} (hsize : size < 2 ^ 64) :
    ExtentsOk (apfsCreateXattrDstream s value size).2.vol
      (some (apfsCreateXattrDstream s value size).1) := by
  obtain ⟨hd, hcat, -, hbits, -⟩ := apfsCreateXattrDstream_spec s value size
  have hnew := apfsCreateXattrDstream_extents s value size
  -- the streams there are, and so the extents there are, are older than the new one
  have hne : ∀ k d, LiveStream s.vol k d → d.dsId ≠ s.vol.nextObjId := fun k d hl h =>
    absurd (hinv.ids_lt k d hl) (by rw [h]; exact lt_irrefl _)
  have hold : ∀ e ∈ s.vol.extents, e.dsId ≠ s.vol.nextObjId := fun e he => by
    rcases hinv.no_orphans e he with ⟨k, d, hl, hid⟩ | ⟨p, hp, -⟩
    · exact hid ▸ hne k d hl
    · cases hp
  have hmem : ∀ e ∈ (apfsCreateXattrDstream s value size).2.vol.extents,
      (e.dsId = s.vol.nextObjId ∧ freshBno s.vol ≤ e.pblk ∧
        e.lblk < blockCount s.vol.blocksizeBits size) ∨ e ∈ s.vol.extents := fun e he => by
    rw [hnew, List.mem_append, List.mem_reverse, List.mem_map] at he
    rcases he with ⟨i, hi, rfl⟩ | he
    · exact .inl ⟨rfl, Nat.le_add_right _ _, List.mem_range.1 hi⟩
    · exact .inr he
  refine ⟨?_, ?_, fun e he k d hl hid => ?_, fun e he p hp hid => ?_⟩
  · rw [hnew, List.map_append, List.nodup_append, List.map_reverse, List.nodup_reverse,
      List.map_map]
    refine ⟨(List.nodup_range _).map fun i j h => by simpa using h, hext.pblk_nodup, ?_⟩
    intro _ hb hb'
    obtain ⟨e, he, rfl⟩ := List.mem_map.1 hb'
    obtain ⟨i, -, hi⟩ := List.mem_map.1 (List.mem_reverse.1 hb)
    have hlt := pblk_lt_freshBno he
    simp only [Function.comp_apply] at hi
    omega
  · rw [hnew, List.map_append, List.nodup_append, List.map_reverse, List.nodup_reverse,
      List.map_map]
    refine ⟨(List.nodup_range _).map fun i j h => by simpa [FileExtent.slot] using h,
      hext.slot_nodup, ?_⟩
    intro _ hb hb'
    obtain ⟨e, he, rfl⟩ := List.mem_map.1 hb'
    obtain ⟨i, -, hi⟩ := List.mem_map.1 (List.mem_reverse.1 hb)
    exact hold e he (congrArg Prod.fst hi).symm
  · rw [liveStream_congr hcat] at hl
    rw [hbits]
    rcases hmem e he with ⟨he', -⟩ | he
    · exact absurd (hid.trans he') (hne k d hl)
    · exact hext.live_lt e he k d hl hid
  · cases hp
    rcases hmem e he with ⟨-, -, hlt⟩ | he
    · rwa [hbits, hd, BitVec.toNat_ofNat, Nat.mod_eq_of_lt hsize]
    · exact absurd (by rw [← hid, hd]) (hold e he)

/-! ## Every call -/

/-- The start of a set is accounted for, with the stream it makes pending. -/
theorem xattrSetStream_extentsOk {s : Fs} (hinv : StreamInv s.vol) (hext : ExtentsOk s.vol none)
    (value : List UInt8) {size : Nat} (hsize : size < 2 ^ 64) :
    ExtentsOk (xattrSetStream s value size).2.vol (xattrSetStream s value size).1 := by
  by_cases h : apfsXattrMaxEmbeddedSize < size
  · rw [xattrSetStream_of_lt h]
    exact ExtentsOk.create hinv hext value hsize
  · rw [xattrSetStream_of_le (Nat.not_lt.1 h)]
    exact hext

/-- The end of a set keeps the accounting: the new record refers to the pending stream, and the
old stream's extents only go. -/
theorem xattrSetRecord_extentsOk {s : Fs} {dstream : Option ApfsDstreamInfo}
    (hext : ExtentsOk s.vol dstream) {ino : Nat} {name : CString}
    (hname : name.strlen ≤ xattrNameMax) (value : List UInt8) (size : Nat)
    (old : Option ApfsDstreamInfo) {insert : Bool}
    (hfound : insert = false → s.vol.catalog.lookup ⟨ino, name.bytes⟩ ≠ none) :
    ExtentsOk (xattrSetRecord s ino name value size dstream old insert).2.vol none := by
  refine hext.of_sublist ?_ (xattrSetRecord_blocksizeBits ..) fun k d ⟨r, hr, hq⟩ => ?_
  · rw [xattrSetRecord_spec]
    cases old
    · exact List.Sublist.refl _
    · exact List.filter_sublist _
  · rw [xattrSetRecord_lookup _ _ _ _ _ _ _ _ hfound] at hr
    split_ifs at hr
    · cases hr
      exact .inr ((xattrSetVal_dstream _ name ino value size dstream hname d).1 hq)
    · exact .inl ⟨r, hr, hq⟩

/-- `apfs_delete_xattr` keeps the accounting: it only drops the record and its stream's
extents. -/
theorem apfsDeleteXattr_extentsOk {s : Fs} {p : Option ApfsDstreamInfo} (hext : ExtentsOk s.vol p)
    (k : XattrKey) (r : RawRecord) : ExtentsOk (apfsDeleteXattr s k r).2.vol none := by
  by_cases hv : r.Valid
  · refine hext.of_sublist ?_ (apfsDeleteXattr_frame s k hv).2.1
      fun k' d ⟨r', hr', hq⟩ => .inl ?_
    · rw [apfsDeleteXattr_spec s k hv]
      split
      · exact List.filter_sublist _
      · exact List.Sublist.refl _
    · rw [apfsDeleteXattr_catalog s k hv, Catalog.lookup_erase] at hr'
      split_ifs at hr'
      exact ⟨r', hr', hq⟩
  · rw [apfsDeleteXattr_of_not_valid s k hv]
    exact hext.forget

/-- Every call of `apfs_xattr_set` keeps the accounting, whether it succeeds or fails: even the
stream a failed set leaves behind, which `I` rejects, lies at new blocks below its size. The name
has at most `XATTR_NAME_MAX` bytes and the size fits the 64-bit size of a stream. -/
theorem apfsXattrSet_extentsOk {s : Fs} (hinv : StreamInv s.vol) (hext : ExtentsOk s.vol none)
    (ino : Nat) {name : CString} (hname : name.strlen ≤ xattrNameMax)
    (value : Option (List UInt8)) {size : Nat} (hsize : size < 2 ^ 64) (flags : Nat) :
    ExtentsOk (apfsXattrSet s ino name value size flags).2.vol none := by
  have h₁ := xattrSetStream_extentsOk hinv hext (value.getD []) hsize
  cases hl : s.vol.catalog.lookup ⟨ino, name.bytes⟩ with
  | none =>
    by_cases hf : flags &&& xattrReplace ≠ 0
    · rw [apfsXattrSet_of_none_replace value hl hf]
      exact h₁.forget
    · rw [apfsXattrSet_of_none value hl hf]
      exact xattrSetRecord_extentsOk h₁ hname _ size none nofun
  | some r =>
    by_cases hf : flags &&& xattrCreate ≠ 0
    · rw [apfsXattrSet_of_some_create value hl hf]
      exact h₁.forget
    cases value with
    | none =>
      rw [apfsXattrSet_of_some_null hl hf]
      exact apfsDeleteXattr_extentsOk h₁ _ r
    | some value =>
      cases hq : apfsXattrDstreamFromQuery r with
      | error e =>
        rw [apfsXattrSet_of_some_error hl hf hq]
        exact h₁.forget
      | ok old =>
        rw [apfsXattrSet_of_some_value hl hf hq]
        exact xattrSetRecord_extentsOk h₁ hname value size old fun _ => by
          rw [xattrSetStream_catalog, hl]
          exact Option.some_ne_none r

/-- Deleting every xattr of an inode keeps the accounting: it only drops extents, and the streams
left are those of the other inodes. -/
theorem DeletedAll.extentsOk {s s' : Fs} {ino : Nat} (hdel : DeletedAll s ino s')
    (hext : ExtentsOk s.vol none) : ExtentsOk s'.vol none :=
  hext.of_sublist (hdel.extents ▸ List.filter_sublist _) hdel.bits fun k d ⟨r, hr, hq⟩ => by
    by_cases hk : k.owner = ino
    · rw [Catalog.lookup_eq_none_of_recordsOf (hk ▸ hdel.none_left)] at hr
      cases hr
    · exact .inl ⟨r, (hdel.others k hk) ▸ hr, hq⟩

/-- One valid call on a volume that satisfies the invariant and the accounting keeps the
accounting. -/
theorem XattrCall.exec_extentsOk {s s' : Fs} (hinv : XattrInv s.vol) (hext : ExtentsOk s.vol none)
    {c : XattrCall} (hc : c.Valid) {ret : Int} (h : c.exec s = some (ret, s')) :
    ExtentsOk s'.vol none := by
  cases c with
  | set ino name value size flags =>
    obtain ⟨hname, -, hsize⟩ := hc
    obtain rfl : (apfsXattrOsxSet s ino name value size flags).2 = s' :=
      congrArg Prod.snd (Option.some.inj h)
    simp only [apfsXattrOsxSet]
    split
    · rwa [apfsTransactionAbort_vol]
    · exact apfsXattrSet_extentsOk hinv.streams hext ino hname value
        (lt_of_le_of_lt hsize (by decide)) flags
  | deleteAll ino =>
    obtain ⟨-, s₁, hrun, hdel⟩ :=
      apfsDeleteAllXattrs_run ino _ s rfl (hinv.recordsOf_valid ino)
    rw [XattrCall.exec, hrun] at h
    obtain rfl : s₁ = s' := congrArg Prod.snd (Option.some.inj h)
    exact hdel.extentsOk hext

/-- A run of valid calls from a volume that satisfies the invariant and the accounting, with an
object id to spare for every call, ends on a volume that satisfies both. -/
theorem runCalls_extentsOk {s : Fs} (hinv : XattrInv s.vol) (hext : ExtentsOk s.vol none)
    (cs : List XattrCall) (hcs : ∀ c ∈ cs, c.Valid)
    (hnext : s.vol.nextObjId.toNat + cs.length < 2 ^ 64) :
    ∃ rets s', runCalls s cs = some (rets, s') ∧ XattrInv s'.vol ∧ ExtentsOk s'.vol none := by
  induction cs generalizing s with
  | nil => exact ⟨[], s, rfl, hinv, hext⟩
  | cons c cs ih =>
    simp only [List.length_cons] at hnext
    have hc := hcs c (List.mem_cons_self _ _)
    obtain ⟨s₁, hexec, -, hinv₁, -, hnext₁⟩ := XattrCall.exec_view hinv hc (by omega)
    obtain ⟨rets, s', hrun, hinv', hext'⟩ :=
      ih hinv₁ (XattrCall.exec_extentsOk hinv hext hc hexec)
        (fun c hc => hcs c (List.mem_cons_of_mem _ hc)) (by omega)
    exact ⟨(c.apply s.vol.view).1 :: rets, s',
      by simp only [runCalls, hexec, hrun, Option.map_some'], hinv', hext'⟩

/-! ## The count -/

/-- The streams the records of the catalog refer to, in key order. -/
def Catalog.streams (c : Catalog) : List ApfsDstreamInfo :=
  c.entries.filterMap fun e =>
    match apfsXattrDstreamFromQuery e.2 with
    | .ok d => d
    | .error _ => none

theorem mem_streams_iff {v : Volume} {d : ApfsDstreamInfo} :
    d ∈ v.catalog.streams ↔ ∃ k, LiveStream v k d := by
  simp only [Catalog.streams, List.mem_filterMap, LiveStream]
  constructor
  · rintro ⟨e, he, hd⟩
    refine ⟨e.1, e.2, Catalog.lookup_of_mem he, ?_⟩
    revert hd
    cases apfsXattrDstreamFromQuery e.2 <;> simp
  · rintro ⟨k, r, hr, hq⟩
    exact ⟨(k, r), Catalog.mem_of_lookup hr, by simp only [hq]⟩

/-- Distinct records refer to streams of distinct ids. -/
theorem StreamInv.streams_pairwise {v : Volume} (hinv : StreamInv v) :
    v.catalog.streams.Pairwise fun d d' => d.dsId ≠ d'.dsId := by
  refine List.pairwise_filterMap.2 (v.catalog.sorted.imp_of_mem fun {a b} ha hb hab => ?_)
  have hlive : ∀ e ∈ v.catalog.entries, ∀ d, (match apfsXattrDstreamFromQuery e.2 with
      | .ok d => d | .error _ => none) = some d → LiveStream v e.1 d := fun e he d hd => by
    refine ⟨e.2, Catalog.lookup_of_mem he, ?_⟩
    revert hd
    cases apfsXattrDstreamFromQuery e.2 <;> simp
  intro d hd d' hd' hid
  have hk := hinv.ids_unique a.1 b.1 d d' (hlive a ha d hd) (hlive b hb d' hd') hid
  exact lt_irrefl _ (hk ▸ hab)

/-- On a volume that satisfies `I` and the accounting, the extents are exactly the blocks of the
streams the records refer to: their number is the sum of `⌈size / bs⌉` over the streams. -/
theorem extents_length_eq {v : Volume} (hinv : StreamInv v) (hext : ExtentsOk v none) :
    v.extents.length =
      (v.catalog.streams.map fun d => blockCount v.blocksizeBits d.dsSize.toNat).sum := by
  let blocksOf := fun d : ApfsDstreamInfo =>
    (List.range (blockCount v.blocksizeBits d.dsSize.toNat)).map fun i => (d.dsId, i)
  have hnodup : (v.catalog.streams.flatMap blocksOf).Nodup := by
    refine List.nodup_flatMap.2
      ⟨fun d _ => (List.nodup_range _).map fun i j h => by simpa using h,
        hinv.streams_pairwise.imp fun hne => List.disjoint_left.2 fun _ hx hx' => ?_⟩
    obtain ⟨i, -, rfl⟩ := List.mem_map.1 hx
    obtain ⟨j, -, hj⟩ := List.mem_map.1 hx'
    exact hne (congrArg Prod.fst hj).symm
  -- a slot an extent fills is a block of a stream a record refers to, and the other way round
  have hperm : (v.extents.map FileExtent.slot).Perm (v.catalog.streams.flatMap blocksOf) := by
    refine (List.perm_ext_iff_of_nodup hext.slot_nodup hnodup).2 fun x => ?_
    simp only [List.mem_map, List.mem_flatMap, blocksOf, List.mem_range]
    constructor
    · rintro ⟨e, he, rfl⟩
      rcases hinv.no_orphans e he with ⟨k, d, hl, hid⟩ | ⟨p, hp, -⟩
      · exact ⟨d, mem_streams_iff.2 ⟨k, hl⟩, e.lblk, hext.live_lt e he k d hl hid,
          by rw [hid]; rfl⟩
      · cases hp
    · rintro ⟨d, hd, i, hi, rfl⟩
      obtain ⟨k, hl⟩ := mem_streams_iff.1 hd
      obtain ⟨e, he, hid, hlblk, -⟩ := apfsLogicToPhysBno_ne_zero (hinv.no_holes k d hl i hi)
      exact ⟨e, he, by rw [FileExtent.slot, hid, hlblk]⟩
  calc v.extents.length = (v.extents.map FileExtent.slot).length := (List.length_map _ _).symm
    _ = (v.catalog.streams.flatMap blocksOf).length := hperm.length_eq
    _ = _ := by simp [blocksOf, List.length_flatMap, Function.comp_def]

/-- The xattr code neither leaks nor shares a block over whole runs: the extents stay exactly
the blocks of the live streams, `⌈size / bs⌉` of each, no physical block held twice. -/
theorem runCalls_extents {s : Fs} (hinv : XattrInv s.vol) (hext : ExtentsOk s.vol none)
    (cs : List XattrCall) (hcs : ∀ c ∈ cs, c.Valid)
    (hnext : s.vol.nextObjId.toNat + cs.length < 2 ^ 64) :
    ∃ rets s', runCalls s cs = some (rets, s') ∧ ExtentsOk s'.vol none ∧
      (s'.vol.extents.map (·.pblk)).Nodup ∧
      s'.vol.extents.length =
        (s'.vol.catalog.streams.map fun d => blockCount s'.vol.blocksizeBits d.dsSize.toNat).sum := by
  obtain ⟨rets, s', hrun, hinv', hext'⟩ := runCalls_extentsOk hinv hext cs hcs hnext
  exact ⟨rets, s', hrun, hext', hext'.pblk_nodup, extents_length_eq hinv'.streams hext'⟩

/-- On a new volume, a set of `a` and the deletion of every xattr of the inode keep the
accounting. -/
theorem runCalls_extents_set_remove :
    let s : Fs := ⟨⟨⟨[], .nil⟩, [], fun _ _ => 0, 1, 12, false⟩, []⟩
    let cs := [XattrCall.set 2 ⟨[0x61], by decide⟩ (some [7]) 1 0, .deleteAll 2]
    XattrInv s.vol ∧ ExtentsOk s.vol none ∧ (∀ c ∈ cs, c.Valid) ∧
      s.vol.nextObjId.toNat + cs.length < 2 ^ 64 ∧
      ∃ rets s', runCalls s cs = some (rets, s') ∧ ExtentsOk s'.vol none := by
  intro s cs
  have h : XattrInv s.vol := (xattrInv_of_empty rfl rfl).1
  have hext : ExtentsOk s.vol none := ExtentsOk.of_empty rfl none
  have hcs : ∀ c ∈ cs, c.Valid := by decide
  have hnext : s.vol.nextObjId.toNat + cs.length < 2 ^ 64 := by decide
  obtain ⟨rets, s', hrun, hext', -⟩ := runCalls_extents h hext cs hcs hnext
  exact ⟨h, hext, hcs, hnext, rets, s', hrun, hext'⟩

end Apfs
