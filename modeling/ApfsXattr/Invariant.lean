import ApfsXattr.DeleteAll

/-!
# The invariant of xattr streams

The streams of large xattr values live outside the catalog, so the catalog and the extents must
be kept in step. `StreamInv` says three things of a volume: the streams its records refer to
have distinct ids below the volume's next object id; each of them has every block of its
declared size mapped; and every extent belongs to one of them.

Inside one call of `apfs_xattr_set` the invariant does not hold: a new stream exists before the
record that refers to it, and the old stream outlives the record that referred to it until it
is truncated. `StreamInvWith v p` is the invariant that allows for one such stream `p`. Each
change the call makes moves from one of these to the next (`StreamInvWith.create`,
`StreamInvWith.setAt`, `StreamInvWith.truncate`), and every volume in between has no record
pointing at a freed block (`NoHoles`).
-/

namespace Apfs

/-! ## Streams the records refer to -/

/-- The record under `k` decodes and refers to the stream `d`. -/
def LiveStream (v : Volume) (k : XattrKey) (d : ApfsDstreamInfo) : Prop :=
  ∃ r, v.catalog.lookup k = some r ∧ apfsXattrDstreamFromQuery r = .ok (some d)

/-- Streams are found through the catalog only. -/
theorem liveStream_congr {v v' : Volume} (h : v'.catalog = v.catalog) :
    LiveStream v' = LiveStream v := by
  funext k d
  simp only [LiveStream, h]

theorem liveStream_of_lookup {v v' : Volume} {k : XattrKey}
    (h : v'.catalog.lookup k = v.catalog.lookup k) (d : ApfsDstreamInfo) :
    LiveStream v' k d ↔ LiveStream v k d := by
  simp only [LiveStream, h]

theorem liveStream_iff {v : Volume} {k : XattrKey} {r : RawRecord}
    (h : v.catalog.lookup k = some r) (d : ApfsDstreamInfo) :
    LiveStream v k d ↔ apfsXattrDstreamFromQuery r = .ok (some d) := by
  simp [LiveStream, h]

theorem not_liveStream {v : Volume} {k : XattrKey} (h : v.catalog.lookup k = none)
    (d : ApfsDstreamInfo) : ¬LiveStream v k d := by
  simp [LiveStream, h]

/-- No record refers to a stream with a hole among the blocks of its declared size: no record
points at a freed block. -/
def NoHoles (v : Volume) : Prop :=
  ∀ k d, LiveStream v k d → ∀ i < blockCount v.blocksizeBits d.dsSize.toNat,
    apfsLogicToPhysBno v d.dsId i ≠ 0

/-- A volume that reads like a volume without holes through the catalog and the streams of its
records has no holes either. -/
theorem NoHoles.of_agree {v w : Volume} (h : NoHoles v) (hcat : w.catalog = v.catalog)
    (hbits : w.blocksizeBits = v.blocksizeBits)
    (hphys : ∀ k d, LiveStream v k d → ∀ i, apfsLogicToPhysBno w d.dsId i = apfsLogicToPhysBno v d.dsId i) :
    NoHoles w := by
  intro k d hl i hi
  rw [liveStream_congr hcat] at hl
  rw [hphys k d hl i]
  exact h k d hl i (hbits ▸ hi)

/-- The invariant of the streams, allowing for one stream `pending` that no record refers to:
the streams have distinct ids below the next object id, no holes, and every extent belongs to
one of them. -/
structure StreamInvWith (v : Volume) (pending : Option ApfsDstreamInfo) : Prop where
  ids_unique : ∀ k₁ k₂ d₁ d₂, LiveStream v k₁ d₁ → LiveStream v k₂ d₂ → d₁.dsId = d₂.dsId → k₁ = k₂
  pending_fresh : ∀ p ∈ pending, ∀ k d, LiveStream v k d → d.dsId ≠ p.dsId
  ids_lt : ∀ k d, LiveStream v k d → d.dsId.toNat < v.nextObjId.toNat
  pending_lt : ∀ p ∈ pending, p.dsId.toNat < v.nextObjId.toNat
  no_holes : NoHoles v
  pending_mapped : ∀ p ∈ pending, ∀ i < blockCount v.blocksizeBits p.dsSize.toNat,
    apfsLogicToPhysBno v p.dsId i ≠ 0
  no_orphans : ∀ e ∈ v.extents, (∃ k d, LiveStream v k d ∧ d.dsId = e.dsId) ∨
    ∃ p ∈ pending, p.dsId = e.dsId

/-- `I`: the streams the records refer to have distinct ids below `apfs_next_obj_id` and no
holes, and every extent belongs to one of them. -/
def StreamInv (v : Volume) : Prop := StreamInvWith v none

/-- A volume with no xattr records and no extents, as a new volume has, satisfies the
invariant. -/
theorem streamInv_of_empty {v : Volume} (hc : v.catalog.entries = []) (he : v.extents = []) :
    StreamInv v := by
  have hl : ∀ k d, ¬LiveStream v k d := fun k d =>
    not_liveStream (by simp [Catalog.lookup, hc]) d
  refine ⟨fun k₁ _ d₁ _ h => absurd h (hl k₁ d₁), nofun, fun k d h => absurd h (hl k d), nofun,
    fun k d h => absurd h (hl k d), nofun, ?_⟩
  simp [he]

/-! ## The three kinds of change -/

/-- A new stream, from a volume that satisfies the invariant whose next object id does not wrap:
the stream is pending, and no volume in between has holes. -/
theorem StreamInvWith.create {s : Fs} (hinv : StreamInv s.vol) (value : List UInt8) (size : Nat)
    (hnext : s.vol.nextObjId.toNat + 1 < 2 ^ 64) :
    StreamInvWith (apfsCreateXattrDstream s value size).2.vol
      (some (apfsCreateXattrDstream s value size).1) ∧
    s.Through NoHoles (apfsCreateXattrDstream s value size).2 := by
  obtain ⟨hd, hcat, hnx, hbits, -, hext, hother, hnew, -, -, hthr⟩ :=
    apfsCreateXattrDstream_spec s value size
  have hlive := liveStream_congr hcat
  have hne : ∀ k d, LiveStream s.vol k d → d.dsId ≠ s.vol.nextObjId := fun k d h he =>
    absurd (hinv.ids_lt k d h) (by rw [he]; omega)
  have hnx' : (apfsCreateXattrDstream s value size).2.vol.nextObjId.toNat =
      s.vol.nextObjId.toNat + 1 := by
    rw [hnx, BitVec.toNat_add]
    exact Nat.mod_eq_of_lt hnext
  refine ⟨⟨?_, ?_, ?_, ?_, ?_, ?_, ?_⟩, ?_⟩
  · rw [hlive]
    exact hinv.ids_unique
  · rintro p hp k d hl
    rw [← Option.mem_some_iff.1 hp, hd]
    exact hne k d (hlive ▸ hl)
  · intro k d hl
    rw [hnx']
    exact Nat.lt_succ_of_lt (hinv.ids_lt k d (hlive ▸ hl))
  · rintro p hp
    rw [← Option.mem_some_iff.1 hp, hd, hnx']
    exact Nat.lt_succ_self _
  · exact hinv.no_holes.of_agree hcat hbits fun k d hl i => hother d.dsId (hne k d hl) i
  · rintro p hp i hi
    rw [← Option.mem_some_iff.1 hp, hd, hbits] at hi
    rw [← Option.mem_some_iff.1 hp, hd]
    have hle : blockCount s.vol.blocksizeBits (BitVec.ofNat 64 size).toNat ≤
        blockCount s.vol.blocksizeBits size := blockCount_mono _ (by simp [Nat.mod_le])
    exact (lt_of_lt_of_le (freshBno_pos s.vol) (hnew i (lt_of_lt_of_le hi hle))).ne'
  · intro e he
    rcases hext e he with he | ⟨hid, -⟩
    · rcases hinv.no_orphans e he with ⟨k, d, hl, hid⟩ | ⟨p, hp, -⟩
      · exact .inl ⟨k, d, hlive ▸ hl, hid⟩
      · cases hp
    · exact .inr ⟨_, rfl, by rw [hd, hid]⟩
  · refine hthr.mono fun w ⟨hwc, hwb, hwp⟩ => hinv.no_holes.of_agree hwc hwb fun k d hl i => ?_
    exact hwp d.dsId (hne k d hl) i

/-- Changing the record under `k` from one that refers to `old` to one that refers to `new`
moves the pending stream from `new` to `old`. Insertion, replacement and removal are all of
this kind. -/
theorem StreamInvWith.setAt {v : Volume} {f : Catalog → Catalog} {k : XattrKey}
    {new old : Option ApfsDstreamInfo} (hinv : StreamInvWith v new)
    (hold : ∀ d, LiveStream v k d ↔ old = some d)
    (hnew : ∀ d, LiveStream (v.mapCatalog f) k d ↔ new = some d)
    (hframe : ∀ k', k' ≠ k → (f v.catalog).lookup k' = v.catalog.lookup k') :
    StreamInvWith (v.mapCatalog f) old := by
  have hrest : ∀ k', k' ≠ k → ∀ d, LiveStream (v.mapCatalog f) k' d ↔ LiveStream v k' d :=
    fun k' hk' => liveStream_of_lookup (hframe k' hk')
  -- a stream of the new volume is the new record's, pending before, or one of the old volume
  have hcases : ∀ k' d, LiveStream (v.mapCatalog f) k' d →
      (k' = k ∧ new = some d) ∨ (k' ≠ k ∧ LiveStream v k' d) := fun k' d hl => by
    by_cases hk : k' = k
    · subst hk
      exact .inl ⟨rfl, (hnew d).1 hl⟩
    · exact .inr ⟨hk, (hrest k' hk d).1 hl⟩
  refine ⟨?_, ?_, ?_, ?_, ?_, ?_, ?_⟩
  · intro k₁ k₂ d₁ d₂ h₁ h₂ hid
    rcases hcases k₁ d₁ h₁ with ⟨rfl, hn₁⟩ | ⟨hk₁, hl₁⟩ <;>
      rcases hcases k₂ d₂ h₂ with ⟨rfl, hn₂⟩ | ⟨hk₂, hl₂⟩
    · rfl
    · exact absurd hid.symm (hinv.pending_fresh d₁ hn₁ k₂ d₂ hl₂)
    · exact absurd hid (hinv.pending_fresh d₂ hn₂ k₁ d₁ hl₁)
    · exact hinv.ids_unique k₁ k₂ d₁ d₂ hl₁ hl₂ hid
  · intro p hp k' d hl hid
    have hpk : LiveStream v k p := (hold p).2 hp
    rcases hcases k' d hl with ⟨rfl, hn⟩ | ⟨hk', hl'⟩
    · exact hinv.pending_fresh d hn k' p hpk hid.symm
    · exact hk' (hinv.ids_unique k' k d p hl' hpk hid)
  · intro k' d hl
    rcases hcases k' d hl with ⟨-, hn⟩ | ⟨-, hl'⟩
    · exact hinv.pending_lt d hn
    · exact hinv.ids_lt k' d hl'
  · exact fun p hp => hinv.ids_lt k p ((hold p).2 hp)
  · intro k' d hl
    rcases hcases k' d hl with ⟨-, hn⟩ | ⟨-, hl'⟩
    · exact hinv.pending_mapped d hn
    · exact hinv.no_holes k' d hl'
  · exact fun p hp => hinv.no_holes k p ((hold p).2 hp)
  · intro e he
    rcases hinv.no_orphans e he with ⟨k', d, hl, hid⟩ | ⟨p, hp, hid⟩
    · by_cases hk : k' = k
      · subst hk
        exact .inr ⟨d, (hold d).1 hl, hid⟩
      · exact .inl ⟨k', d, (hrest k' hk d).2 hl, hid⟩
    · exact .inl ⟨k, p, (hnew p).2 hp, hid⟩

/-- Truncating the pending stream to nothing restores the invariant. -/
theorem StreamInvWith.truncate {v : Volume} {p : ApfsDstreamInfo} (hinv : StreamInvWith v (some p)) :
    StreamInv (v.filterExtents (truncateKeeps v.blocksizeBits p 0)) := by
  have hlive : LiveStream (v.filterExtents (truncateKeeps v.blocksizeBits p 0)) = LiveStream v :=
    liveStream_congr rfl
  have hfresh := hinv.pending_fresh p rfl
  refine ⟨?_, (fun _ h => nomatch h), ?_, (fun _ h => nomatch h), ?_, (fun _ h => nomatch h), ?_⟩
  · rw [hlive]
    exact hinv.ids_unique
  · rw [hlive]
    exact hinv.ids_lt
  · refine hinv.no_holes.of_agree rfl rfl fun k d hl i => apfsLogicToPhysBno_filterExtents _ _ _ _ ?_
    intro e _ hid _
    simp [truncateKeeps_zero, hid, hfresh k d hl]
  · intro e he
    simp only [Volume.filterExtents_extents, List.mem_filter, truncateKeeps_zero, bne_iff_ne,
      ne_eq] at he
    rcases hinv.no_orphans e he.1 with ⟨k, d, hl, hid⟩ | ⟨q, hq, hid⟩
    · exact .inl ⟨k, d, hlive ▸ hl, hid⟩
    · cases hq
      exact absurd hid.symm he.2

/-- Truncating the stream that lost its record, if there was one: the invariant is back, and
neither the volume after the catalog change nor the one after the truncation has holes. -/
theorem StreamInvWith.finish {v : Volume} {old : Option ApfsDstreamInfo}
    (hinv : StreamInvWith v old) (s : Fs) :
    let v₂ := old.elim v fun d => v.filterExtents (truncateKeeps v.blocksizeBits d 0)
    StreamInv v₂ ∧ s.Through NoHoles ⟨v₂, old.elim [v] (fun _ => [v₂, v]) ++ s.history⟩ := by
  cases old with
  | none => exact ⟨hinv, [v], rfl, by simpa using hinv.no_holes⟩
  | some d =>
    have h₂ := hinv.truncate
    exact ⟨h₂, _, rfl, by simpa using ⟨h₂.no_holes, hinv.no_holes⟩⟩

/-! ## Deleting -/

/-- `apfs_delete_xattr` that succeeds keeps the invariant: the record goes first, and its stream
is truncated only after. -/
theorem apfsDeleteXattr_streamInv {s : Fs} {k : XattrKey} {r : RawRecord}
    (hinv : StreamInv s.vol) (hr : s.vol.catalog.lookup k = some r)
    (h0 : (apfsDeleteXattr s k r).1 = 0) :
    StreamInv (apfsDeleteXattr s k r).2.vol ∧ s.Through NoHoles (apfsDeleteXattr s k r).2 := by
  by_cases hv : r.Valid
  · have hold : ∀ d, LiveStream s.vol k d ↔
        (if r.hasDstreamBit then some (apfsDstreamFromXattr r.toXattr) else none) = some d :=
      fun d => by rw [liveStream_iff hr, apfsXattrDstreamFromQuery_of_valid hv, Except.ok.injEq]
    have h₁ : StreamInvWith (s.vol.mapCatalog (·.erase k)) _ := hinv.setAt hold
      (fun d => iff_of_false (not_liveStream (by simp) d) nofun) fun k' hk' => by simp [hk']
    rw [apfsDeleteXattr_spec s k hv]
    cases hb : r.hasDstreamBit <;> simpa [hb] using h₁.finish s
  · rw [apfsDeleteXattr_of_not_valid s k hv] at h0
    simp [efscorrupted] at h0

/-- Every run of `apfs_delete_all_xattrs` that returns 0 keeps the invariant. -/
theorem apfsDeleteAllXattrs_streamInv {s s' : Fs} {ino fuel : Nat} (hinv : StreamInv s.vol)
    (h : apfsDeleteAllXattrs s ino fuel = some (0, s')) :
    StreamInv s'.vol ∧ s.Through NoHoles s' := by
  obtain ⟨hrun, -⟩ := apfsDeleteAllXattrs_reaches h
  clear h
  induction hrun with
  | refl => exact ⟨hinv, .refl _ _⟩
  | tail _ hstep ih =>
    obtain ⟨k, r, hfirst, hdel⟩ := hstep
    have h₁ := apfsDeleteXattr_streamInv ih.1 (Catalog.firstOf_eq_some hfirst).2.1 (by rw [hdel])
    rw [hdel] at h₁
    exact ⟨h₁.1, ih.2.trans h₁.2⟩

/-! ## Setting -/

/-- The start of a set: a new stream is pending, when the value is too large to embed. -/
theorem xattrSetStream_streamInv {s : Fs} (hinv : StreamInv s.vol) (value : List UInt8)
    (size : Nat) (hnext : apfsXattrMaxEmbeddedSize < size → s.vol.nextObjId.toNat + 1 < 2 ^ 64) :
    StreamInvWith (xattrSetStream s value size).2.vol (xattrSetStream s value size).1 ∧
      s.Through NoHoles (xattrSetStream s value size).2 := by
  by_cases h : apfsXattrMaxEmbeddedSize < size
  · rw [xattrSetStream_of_lt h]
    exact StreamInvWith.create hinv value size (hnext h)
  · rw [xattrSetStream_of_le (Nat.not_lt.1 h)]
    exact ⟨hinv, .refl _ _⟩

/-- The end of a set: the record refers to the pending stream, and the stream of the record it
replaced is truncated after. -/
theorem xattrSetRecord_streamInv {s₀ s : Fs} {ino : Nat} {name : CString} {value : List UInt8}
    {size : Nat} {dstream old : Option ApfsDstreamInfo} {insert : Bool}
    (hinv : StreamInvWith s.vol dstream) (hthr : s₀.Through NoHoles s)
    (hname : name.strlen ≤ xattrNameMax)
    (hold : ∀ d, LiveStream s.vol ⟨ino, name.bytes⟩ d ↔ old = some d)
    (hfound : insert = false → s.vol.catalog.lookup ⟨ino, name.bytes⟩ ≠ none) :
    StreamInv (xattrSetRecord s ino name value size dstream old insert).2.vol ∧
      s₀.Through NoHoles (xattrSetRecord s ino name value size dstream old insert).2 := by
  have hnew : (s.vol.mapCatalog fun c => if insert then
      c.insert ⟨ino, name.bytes⟩ ⟨apfsBuildXattrKey name ino, xattrSetVal s.vol name value size dstream⟩
      else c.replace ⟨ino, name.bytes⟩ ⟨apfsBuildXattrKey name ino,
        xattrSetVal s.vol name value size dstream⟩).catalog.lookup ⟨ino, name.bytes⟩ =
      some ⟨apfsBuildXattrKey name ino, xattrSetVal s.vol name value size dstream⟩ := by
    cases insert
    · obtain ⟨r, hr⟩ := Option.ne_none_iff_exists'.1 (hfound rfl)
      simp [hr]
    · simp
  have h := (StreamInvWith.setAt hinv hold (fun d => (liveStream_iff hnew d).trans
    (xattrSetVal_dstream _ name ino value size dstream hname d))
    fun k' hk' => by cases insert <;> simp [hk']).finish s
  rw [xattrSetRecord_spec]
  cases old <;> exact ⟨by simpa using h.1, hthr.trans (by simpa using h.2)⟩

/-- `apfs_xattr_set` that returns 0 keeps the invariant, with no volume in between that has
holes, for names of at most `XATTR_NAME_MAX` bytes, a NULL value only of a size that is
embedded, and a next object id that does not wrap when a stream is made. -/
theorem apfsXattrSet_streamInv {s : Fs} {ino : Nat} {name : CString} {value : Option (List UInt8)}
    {size flags : Nat} (hinv : StreamInv s.vol) (hname : name.strlen ≤ xattrNameMax)
    (hnull : value = none → size ≤ apfsXattrMaxEmbeddedSize)
    (hnext : apfsXattrMaxEmbeddedSize < size → s.vol.nextObjId.toNat + 1 < 2 ^ 64)
    (h0 : (apfsXattrSet s ino name value size flags).1 = 0) :
    StreamInv (apfsXattrSet s ino name value size flags).2.vol ∧
      s.Through NoHoles (apfsXattrSet s ino name value size flags).2 := by
  obtain ⟨hinv₁, hthr₁⟩ := xattrSetStream_streamInv hinv (value.getD []) size hnext
  have hcat := xattrSetStream_catalog s (value.getD []) size
  cases hl : s.vol.catalog.lookup ⟨ino, name.bytes⟩ with
  | none =>
    by_cases hf : flags &&& xattrReplace ≠ 0
    · rw [apfsXattrSet_of_none_replace value hl hf] at h0
      simp [enodata] at h0
    · rw [apfsXattrSet_of_none value hl hf]
      exact xattrSetRecord_streamInv hinv₁ hthr₁ hname
        (fun d => iff_of_false (not_liveStream (by rw [hcat, hl]) d) nofun) nofun
  | some r =>
    have hr : (xattrSetStream s (value.getD []) size).2.vol.catalog.lookup ⟨ino, name.bytes⟩ =
        some r := by rw [hcat, hl]
    by_cases hf : flags &&& xattrCreate ≠ 0
    · rw [apfsXattrSet_of_some_create value hl hf] at h0
      simp [eexist] at h0
    cases value with
    | none =>
      rw [apfsXattrSet_of_some_null hl hf] at h0 ⊢
      simp only [Option.getD_none, xattrSetStream_of_le (hnull rfl)] at hr h0 ⊢
      exact apfsDeleteXattr_streamInv hinv hr h0
    | some value =>
      simp only [Option.getD_some] at hinv₁ hthr₁ hr
      cases hq : apfsXattrDstreamFromQuery r with
      | error e =>
        rw [apfsXattrSet_of_some_error hl hf hq, apfsXattrDstreamFromQuery_error hq] at h0
        simp [efscorrupted] at h0
      | ok old =>
        rw [apfsXattrSet_of_some_value hl hf hq]
        exact xattrSetRecord_streamInv hinv₁ hthr₁ hname
          (fun d => (liveStream_iff hr d).trans (by rw [hq, Except.ok.injEq]))
          fun _ => by rw [hr]; exact Option.some_ne_none r

/-! ## Both entry points -/

/-- Every successful set and delete-all keeps `I`, and no volume on the way has a record pointing
at a freed block. The name bound is the VFS's `XATTR_NAME_MAX`. -/
theorem streamInv_preserved (s : Fs) (hinv : StreamInv s.vol) :
    (∀ ino name value size flags, name.strlen ≤ xattrNameMax →
      (value = none → size ≤ apfsXattrMaxEmbeddedSize) →
      (apfsXattrMaxEmbeddedSize < size → s.vol.nextObjId.toNat + 1 < 2 ^ 64) →
      (apfsXattrSet s ino name value size flags).1 = 0 →
      StreamInv (apfsXattrSet s ino name value size flags).2.vol ∧
        s.Through NoHoles (apfsXattrSet s ino name value size flags).2) ∧
    (∀ ino fuel s', apfsDeleteAllXattrs s ino fuel = some (0, s') →
      StreamInv s'.vol ∧ s.Through NoHoles s') :=
  ⟨fun _ _ _ _ _ hname hnull hnext h0 => apfsXattrSet_streamInv hinv hname hnull hnext h0,
    fun _ _ _ h => apfsDeleteAllXattrs_streamInv hinv h⟩

/-- On a new volume, setting a one-byte value keeps the invariant, and so does setting one of
3805 bytes, which goes to a new stream. -/
theorem streamInv_preserved_new_volume :
    let s : Fs := ⟨⟨⟨[], .nil⟩, [], fun _ _ => 0, 1, 12, false⟩, []⟩
    let name : CString := ⟨[0x61], by decide⟩
    StreamInv s.vol ∧ StreamInv (apfsXattrSet s 2 name (some [1]) 1 0).2.vol ∧
      StreamInv (apfsXattrSet s 2 name (some (List.replicate 3805 0)) 3805 0).2.vol := by
  intro s name
  have h : StreamInv s.vol := streamInv_of_empty rfl rfl
  have hl : s.vol.catalog.lookup ⟨2, name.bytes⟩ = none := rfl
  -- the large value goes to a new stream, inserted under the name
  have h0 : (apfsXattrSet s 2 name (some (List.replicate 3805 0)) 3805 0).1 = 0 := by
    rw [apfsXattrSet_of_none _ hl (by decide)]
    exact xattrSetRecord_fst ..
  have hset := (streamInv_preserved s h).1 2 name
  exact ⟨h, (hset (some [1]) 1 0 (by decide) nofun (by decide) rfl).1,
    (hset (some (List.replicate 3805 0)) 3805 0 (by decide) nofun (fun _ => by decide) h0).1⟩

/-- With the next object id at its largest, the stream of a large value takes it and the counter
wraps to 0, so the new record's stream id is no longer below it. -/
theorem apfsXattrSet_wraps_next_obj_id :
    let s : Fs := ⟨⟨⟨[], .nil⟩, [], fun _ _ => 0, BitVec.allOnes 64, 12, false⟩, []⟩
    let name : CString := ⟨[0x61], by decide⟩
    StreamInv s.vol ∧ (apfsXattrSet s 2 name (some (List.replicate 3805 0)) 3805 0).1 = 0 ∧
      ¬StreamInv (apfsXattrSet s 2 name (some (List.replicate 3805 0)) 3805 0).2.vol := by
  intro s name
  have hl : s.vol.catalog.lookup ⟨2, name.bytes⟩ = none := rfl
  have hf : ¬(0 : Nat) &&& xattrReplace ≠ 0 := by decide
  have hbig : apfsXattrMaxEmbeddedSize < 3805 := by decide
  have hnx : (xattrSetStream s (List.replicate 3805 0) 3805).2.vol.nextObjId = 0 := by
    rw [xattrSetStream_snd_of_lt hbig, (apfsCreateXattrDstream_spec s _ 3805).2.2.1]
    decide
  rw [apfsXattrSet_of_none _ hl hf, Option.getD_some]
  have hd : (xattrSetStream s (List.replicate 3805 0) 3805).1 = _ := xattrSetStream_fst_of_lt hbig
  generalize xattrSetStream s (List.replicate 3805 0) 3805 = c at hd hnx ⊢
  refine ⟨streamInv_of_empty rfl rfl, rfl, fun h => ?_⟩
  have hlt := h.ids_lt ⟨2, name.bytes⟩ _ ((liveStream_iff (by
    rw [xattrSetRecord_lookup _ 2 name _ 3805 _ none true nofun, if_pos rfl]) _).2
    ((xattrSetVal_dstream _ name 2 _ 3805 _ (by decide) _).2 hd))
  rw [xattrSetRecord_nextObjId, hnx] at hlt
  exact Nat.not_lt_zero _ hlt

end Apfs
