import ApfsXattr.Transaction

/-!
# Runs of calls

The calls that change the volume are the VFS handler's set, `apfs_xattr_osx_set`, and
`apfs_delete_all_xattrs`, which goes with the deletion of an inode. `runCalls` runs a list of them
on a volume, and `XattrStore.run` runs the same list on the abstract store.

`apfsDeleteAllXattrs_view` and `apfsXattrOsxSet_view` say that one call of each kind, on a volume
that satisfies the invariant, is the call of the abstract store. A set takes at most one object
id, so from a volume whose next object id has room for as many ids as there are calls, a whole
run is the run of the abstract store: every call returns what the abstract one returns, the
invariant holds after each of them, no volume any collaborator leaves behind has a record
pointing at a freed block, and every read after the run reads the abstract store
(`runCalls_view`). On any volume, a run moves the next object id on by exactly the number of
calls that committed a stream (`runCalls_nextObjId`).
-/

namespace Apfs

/-! ## Deleting every xattr of an inode -/

theorem mem_streamIds {rs : List RawRecord} {id : BitVec 64} :
    id ∈ streamIds rs ↔
      ∃ r ∈ rs, r.hasDstreamBit = true ∧ (apfsDstreamFromXattr r.toXattr).dsId = id := by
  simp only [streamIds, List.mem_filterMap]
  refine exists_congr fun r => and_congr_right fun _ => ?_
  split <;> simp [*]

/-- `apfs_delete_all_xattrs`, given enough calls, is the abstract deletion of every xattr of
the inode, and keeps the invariant with no hole on the way. -/
theorem apfsDeleteAllXattrs_view {s : Fs} (hinv : XattrInv s.vol) (ino : Nat) :
    ∃ s', apfsDeleteAllXattrs s ino ((s.vol.catalog.recordsOf ino).length + 1) = some (0, s') ∧
      s'.vol.view = s.vol.view.clear ino ∧ XattrInv s'.vol ∧ s.Through NoHoles s' := by
  obtain ⟨-, s', hrun, hdel⟩ := apfsDeleteAllXattrs_run ino _ s rfl (hinv.recordsOf_valid ino)
  obtain ⟨hsi, hthr⟩ := apfsDeleteAllXattrs_streamInv hinv.streams hrun
  have hlk : ∀ k, s'.vol.catalog.lookup k =
      if k.owner = ino then none else s.vol.catalog.lookup k := fun k => by
    split_ifs with hk
    · exact Catalog.lookup_eq_none_of_recordsOf (hk ▸ hdel.none_left)
    · exact hdel.others k hk
  refine ⟨s', hrun, funext fun k => ?_, ⟨hsi, fun k r h => ?_⟩, hthr⟩
  · simp only [XattrStore.clear]
    split_ifs with hk
    · exact Volume.view_of_lookup_none (by rw [hlk, if_pos hk])
    refine Volume.view_of_reads (by rw [hlk, if_neg hk]) hdel.bits fun d hd i =>
      ⟨?_, by rw [hdel.blocks]⟩
    -- the stream of `k` is none of the deleted ones, so its extents stay
    have hkeep : d.dsId ∉ streamIds (s.vol.catalog.recordsOf ino) := fun hmem => by
      obtain ⟨r, hr, hb, hid⟩ := mem_streamIds.1 hmem
      obtain ⟨k', hk', hl'⟩ := Catalog.mem_recordsOf_iff.1 hr
      have hq : apfsXattrDstreamFromQuery r = .ok (some (apfsDstreamFromXattr r.toXattr)) := by
        rw [apfsXattrDstreamFromQuery_of_valid (hinv.records k' r hl').valid, hb]; rfl
      exact hk (hk' ▸ congrArg XattrKey.owner
        (hinv.streams.ids_unique k k' d _ hd ⟨r, hl', hq⟩ hid.symm))
    have hext : s'.vol.extents = (s.vol.filterExtents fun e =>
        !(streamIds (s.vol.catalog.recordsOf ino)).contains e.dsId).extents := hdel.extents
    rw [apfsLogicToPhysBno_congr hext]
    exact apfsLogicToPhysBno_filterExtents _ _ _ _ fun e _ he _ => by simp [he, hkeep]
  · rw [hlk] at h
    split_ifs at h
    exact hinv.records k r h

/-- `apfs_delete_all_xattrs` returns 0 and keeps the invariant; afterwards the inode reads as
empty and every other inode reads as before. -/
theorem apfsDeleteAllXattrs_refines {s : Fs} (hinv : XattrInv s.vol) (ino : Nat) :
    ∃ s', apfsDeleteAllXattrs s ino ((s.vol.catalog.recordsOf ino).length + 1) = some (0, s') ∧
      XattrInv s'.vol ∧ s.Through NoHoles s' ∧
      (∀ name buffer size, apfsXattrGet s'.vol ino name buffer size = (-enodata, buffer)) ∧
      ∀ ino', ino' ≠ ino → ∀ name buffer size,
        apfsXattrGet s'.vol ino' name buffer size = apfsXattrGet s.vol ino' name buffer size := by
  obtain ⟨s', hrun, hview, hinv', hthr⟩ := apfsDeleteAllXattrs_view hinv ino
  refine ⟨s', hrun, hinv', hthr, fun name buffer size => ?_,
    fun ino' hne name buffer size => ?_⟩
  · rw [apfsXattrGet_view hinv', hview]
    exact XattrStore.get_of_none (if_pos rfl) buffer size true
  · rw [apfsXattrGet_view hinv', apfsXattrGet_view hinv, hview]
    simp only [XattrStore.get, XattrStore.clear, if_neg hne]

/-- On a new volume, deleting every xattr of an inode returns 0 in one call. -/
theorem apfsDeleteAllXattrs_refines_new_volume :
    let s : Fs := ⟨⟨⟨[], .nil⟩, [], fun _ _ => 0, 1, 12, false⟩, []⟩
    XattrInv s.vol ∧ ∃ s', apfsDeleteAllXattrs s 2 1 = some (0, s') ∧ XattrInv s'.vol := by
  intro s
  have h : XattrInv s.vol := (xattrInv_of_empty rfl rfl).1
  obtain ⟨s', hrun, hinv', -⟩ := apfsDeleteAllXattrs_refines h 2
  exact ⟨h, s', hrun, hinv'⟩

/-! ## The next object id -/

theorem apfsDeleteXattr_nextObjId (s : Fs) (k : XattrKey) (r : RawRecord) :
    (apfsDeleteXattr s k r).2.vol.nextObjId = s.vol.nextObjId := by
  by_cases h : r.Valid
  · exact (apfsDeleteXattr_frame s k h).2.2.1
  · rw [apfsDeleteXattr_of_not_valid s k h]

theorem apfsDeleteAnyXattr_nextObjId (s : Fs) (ino : Nat) :
    (apfsDeleteAnyXattr s ino).2.vol.nextObjId = s.vol.nextObjId := by
  unfold apfsDeleteAnyXattr
  split
  · rfl
  · exact apfsDeleteXattr_nextObjId ..

/-- No run of `apfs_delete_all_xattrs` takes an object id. -/
theorem apfsDeleteAllXattrs_nextObjId {s s' : Fs} {ino fuel : Nat} {ret : Int}
    (h : apfsDeleteAllXattrs s ino fuel = some (ret, s')) : s'.vol.nextObjId = s.vol.nextObjId := by
  induction fuel generalizing s with
  | zero => cases h
  | succ fuel ih =>
    simp only [apfsDeleteAllXattrs] at h
    split at h
    · exact (ih h).trans (apfsDeleteAnyXattr_nextObjId s ino)
    · obtain rfl : s' = (apfsDeleteAnyXattr s ino).2 :=
        (congrArg Prod.snd (Option.some.inj h)).symm
      exact apfsDeleteAnyXattr_nextObjId s ino

/-- Every branch of a set leaves the next object id where the start of the set left it. -/
theorem apfsXattrSet_nextObjId (s : Fs) (ino : Nat) (name : CString)
    (value : Option (List UInt8)) (size flags : Nat) :
    (apfsXattrSet s ino name value size flags).2.vol.nextObjId =
      (xattrSetStream s (value.getD []) size).2.vol.nextObjId := by
  cases hl : s.vol.catalog.lookup ⟨ino, name.bytes⟩ with
  | none =>
    by_cases hf : flags &&& xattrReplace ≠ 0
    · rw [apfsXattrSet_of_none_replace value hl hf]
    · rw [apfsXattrSet_of_none value hl hf, xattrSetRecord_nextObjId]
  | some r =>
    by_cases hf : flags &&& xattrCreate ≠ 0
    · rw [apfsXattrSet_of_some_create value hl hf]
    cases value with
    | none => rw [apfsXattrSet_of_some_null hl hf, apfsDeleteXattr_nextObjId, Option.getD_none]
    | some value =>
      cases hq : apfsXattrDstreamFromQuery r with
      | error e => rw [apfsXattrSet_of_some_error hl hf hq, Option.getD_some]
      | ok old =>
        rw [apfsXattrSet_of_some_value hl hf hq, xattrSetRecord_nextObjId, Option.getD_some]

/-- A set inside its transaction takes one object id exactly when it commits a stream: when it
returns 0 for a value too large to embed. A set that fails takes none, since the abort gives its
id back. -/
theorem apfsXattrOsxSet_nextObjId (s : Fs) (ino : Nat) (name : CString)
    (value : Option (List UInt8)) (size flags : Nat) :
    (apfsXattrOsxSet s ino name value size flags).2.vol.nextObjId = s.vol.nextObjId +
      BitVec.ofNat 64 (if (apfsXattrOsxSet s ino name value size flags).1 = 0 ∧
        apfsXattrMaxEmbeddedSize < size then 1 else 0) := by
  simp only [apfsXattrOsxSet]
  split
  · next h => simp [h]
  · rw [apfsXattrSet_nextObjId]
    by_cases h : apfsXattrMaxEmbeddedSize < size
    · rw [if_pos ⟨rfl, h⟩, xattrSetStream_snd_of_lt h, (apfsCreateXattrDstream_spec s _ size).2.2.1]
      rfl
    · rw [if_neg fun h' => h h'.2, xattrSetStream_of_le (Nat.not_lt.1 h)]
      simp

/-- A set takes at most one object id, for the stream of a large value. -/
theorem apfsXattrOsxSet_nextObjId_le (s : Fs) (ino : Nat) (name : CString)
    (value : Option (List UInt8)) (size flags : Nat) :
    (apfsXattrOsxSet s ino name value size flags).2.vol.nextObjId.toNat ≤
      s.vol.nextObjId.toNat + 1 := by
  rw [apfsXattrOsxSet_nextObjId, BitVec.toNat_add]
  refine (Nat.mod_le _ _).trans ?_
  split_ifs <;> simp

/-! ## Calls and runs -/

/-- A call of the xattr code that can change the volume: the VFS handler's set, and the deletion
of every xattr of an inode that goes with the inode's deletion. -/
inductive XattrCall where
  | set (ino : Nat) (name : CString) (value : Option (List UInt8)) (size flags : Nat)
  | deleteAll (ino : Nat)

/-- What the VFS guarantees of a call: a name of at most `XATTR_NAME_MAX` bytes, and a value of
`size` bytes, at most `XATTR_SIZE_MAX`, or a NULL value with size 0. -/
def XattrCall.Valid : XattrCall → Prop
  | .set _ name value size _ =>
    name.strlen ≤ xattrNameMax ∧ (value.getD []).length = size ∧ size ≤ xattrSizeMax
  | .deleteAll _ => True

instance (c : XattrCall) : Decidable c.Valid :=
  match c with
  | .set _ _ _ _ _ => inferInstanceAs (Decidable (_ ∧ _ ∧ _))
  | .deleteAll _ => inferInstanceAs (Decidable True)

/-- One call on the volume: `apfs_xattr_osx_set`, or `apfs_delete_all_xattrs` given one call of
`apfs_delete_any_xattr` per record of the inode and one more. -/
def XattrCall.exec (s : Fs) : XattrCall → Option (Int × Fs)
  | .set ino name value size flags => some (apfsXattrOsxSet s ino name value size flags)
  | .deleteAll ino => apfsDeleteAllXattrs s ino ((s.vol.catalog.recordsOf ino).length + 1)

/-- One call on the abstract store. -/
def XattrCall.apply (m : XattrStore) : XattrCall → Int × XattrStore
  | .set ino name value _ flags => m.set ⟨ino, name.bytes⟩ value flags
  | .deleteAll ino => (0, m.clear ino)

/-- A run of calls on the volume: what each call returns, and the volume at the end; `none` when
a deletion runs out of calls. -/
def runCalls (s : Fs) : List XattrCall → Option (List Int × Fs)
  | [] => some ([], s)
  | c :: cs =>
    match c.exec s with
    | none => none
    | some (ret, s₁) => (runCalls s₁ cs).map fun r => (ret :: r.1, r.2)

/-- A run of calls on the abstract store. -/
def XattrStore.run (m : XattrStore) : List XattrCall → List Int × XattrStore
  | [] => ([], m)
  | c :: cs =>
    let r := c.apply m
    let rest := XattrStore.run r.2 cs
    (r.1 :: rest.1, rest.2)

/-- One valid call on a volume that satisfies the invariant and has an object id to spare is the
call on the abstract store, keeps the invariant, never exposes a hole, and takes at most one
object id. -/
theorem XattrCall.exec_view {s : Fs} (hinv : XattrInv s.vol) {c : XattrCall} (hc : c.Valid)
    (hnext : s.vol.nextObjId.toNat + 1 < 2 ^ 64) :
    ∃ s', c.exec s = some ((c.apply s.vol.view).1, s') ∧
      s'.vol.view = (c.apply s.vol.view).2 ∧
      XattrInv s'.vol ∧ s.Through NoHoles s' ∧
      s'.vol.nextObjId.toNat ≤ s.vol.nextObjId.toNat + 1 := by
  cases c with
  | set ino name value size flags =>
    obtain ⟨hname, hvalue, hsize⟩ := hc
    obtain ⟨h1, h2, h3, h4⟩ :=
      apfsXattrOsxSet_view hinv ino name value size flags hname hvalue hsize hnext
    exact ⟨_, by rw [XattrCall.exec, XattrCall.apply, ← h1], h2, h3, h4,
      apfsXattrOsxSet_nextObjId_le ..⟩
  | deleteAll ino =>
    obtain ⟨s', hrun, hview, hinv', hthr⟩ := apfsDeleteAllXattrs_view hinv ino
    exact ⟨s', hrun, hview, hinv', hthr, by rw [apfsDeleteAllXattrs_nextObjId hrun]; omega⟩

/-- A run of valid calls from a volume that satisfies the invariant, with an object id to spare
for every call, is the run of the abstract store, keeps the invariant and never exposes a hole. -/
theorem runCalls_refines {s : Fs} (hinv : XattrInv s.vol) (cs : List XattrCall)
    (hcs : ∀ c ∈ cs, c.Valid) (hnext : s.vol.nextObjId.toNat + cs.length < 2 ^ 64) :
    ∃ s', runCalls s cs = some ((s.vol.view.run cs).1, s') ∧
      s'.vol.view = (s.vol.view.run cs).2 ∧ XattrInv s'.vol ∧ s.Through NoHoles s' := by
  induction cs generalizing s with
  | nil => exact ⟨s, rfl, rfl, hinv, .refl _ _⟩
  | cons c cs ih =>
    simp only [List.length_cons] at hnext
    obtain ⟨s₁, hexec, hview₁, hinv₁, hthr₁, hnext₁⟩ :=
      XattrCall.exec_view hinv (hcs c (List.mem_cons_self _ _)) (by omega)
    obtain ⟨s', hrun, hview, hinv', hthr⟩ :=
      ih hinv₁ (fun c hc => hcs c (List.mem_cons_of_mem _ hc)) (by omega)
    rw [hview₁] at hrun hview
    exact ⟨s', by simp only [runCalls, hexec, hrun, XattrStore.run, Option.map_some'], hview,
      hinv',
      hthr₁.trans hthr⟩

/-- The xattr code implements the abstract store over whole runs of valid calls, with an object
id to spare for each. -/
theorem runCalls_view {s : Fs} (hinv : XattrInv s.vol) (cs : List XattrCall)
    (hcs : ∀ c ∈ cs, c.Valid) (hnext : s.vol.nextObjId.toNat + cs.length < 2 ^ 64) :
    ∃ s', runCalls s cs = some ((s.vol.view.run cs).1, s') ∧ XattrInv s'.vol ∧
      s.Through NoHoles s' ∧
      ∀ ino name buffer size, apfsXattrGet s'.vol ino name buffer size =
        (s.vol.view.run cs).2.get ⟨ino, name.bytes⟩ buffer size true := by
  obtain ⟨s', hrun, hview, hinv', hthr⟩ := runCalls_refines hinv cs hcs hnext
  exact ⟨s', hrun, hinv', hthr, fun ino name buffer size => by
    rw [apfsXattrGet_view hinv', hview]⟩

/-- On a new volume, a set of `a`, its removal and the deletion of every xattr of the inode run
as on the abstract store. -/
theorem runCalls_view_set_remove :
    let s : Fs := ⟨⟨⟨[], .nil⟩, [], fun _ _ => 0, 1, 12, false⟩, []⟩
    let cs := [XattrCall.set 2 ⟨[0x61], by decide⟩ (some [7]) 1 0,
      .set 2 ⟨[0x61], by decide⟩ none 0 xattrReplace, .deleteAll 2]
    XattrInv s.vol ∧ (∀ c ∈ cs, c.Valid) ∧ s.vol.nextObjId.toNat + cs.length < 2 ^ 64 ∧
      ∃ s', runCalls s cs = some ((s.vol.view.run cs).1, s') ∧ XattrInv s'.vol := by
  intro s cs
  have h : XattrInv s.vol := (xattrInv_of_empty rfl rfl).1
  have hcs : ∀ c ∈ cs, c.Valid := by decide
  have hnext : s.vol.nextObjId.toNat + cs.length < 2 ^ 64 := by decide
  obtain ⟨s', hrun, hinv', -⟩ := runCalls_view h cs hcs hnext
  exact ⟨h, hcs, hnext, s', hrun, hinv'⟩


/-! ## Object ids over a run -/

/-- Whether a call that returned `ret` committed a new stream, and so took an object id: a set
that returned 0 for a value too large to embed. -/
def XattrCall.takesId : XattrCall → Int → Bool
  | .set _ _ _ size _, ret => ret == 0 && decide (apfsXattrMaxEmbeddedSize < size)
  | .deleteAll _, _ => false

/-- One call moves the next object id on by one exactly when it commits a stream. -/
theorem XattrCall.exec_nextObjId {s s₁ : Fs} {c : XattrCall} {ret : Int}
    (h : c.exec s = some (ret, s₁)) :
    s₁.vol.nextObjId = s.vol.nextObjId + BitVec.ofNat 64 (if c.takesId ret then 1 else 0) := by
  cases c with
  | set ino name value size flags =>
    have hset := apfsXattrOsxSet_nextObjId s ino name value size flags
    rw [show apfsXattrOsxSet s ino name value size flags = (ret, s₁) from Option.some.inj h] at hset
    simpa [XattrCall.takesId] using hset
  | deleteAll ino => simp [apfsDeleteAllXattrs_nextObjId h, XattrCall.takesId]

/-- Object ids over a run: on any volume, the next object id moves on by exactly the number of
calls that committed a stream, modulo `2^64`. A set that fails takes none, since its transaction
is aborted, and no deletion takes one. -/
theorem runCalls_nextObjId {s s' : Fs} {cs : List XattrCall} {rets : List Int}
    (h : runCalls s cs = some (rets, s')) :
    s'.vol.nextObjId =
      s.vol.nextObjId + BitVec.ofNat 64 ((cs.zip rets).countP fun p => p.1.takesId p.2) := by
  induction cs generalizing s rets with
  | nil =>
    obtain ⟨rfl, rfl⟩ := Prod.mk.inj (Option.some.inj h).symm
    simp
  | cons c cs ih =>
    simp only [runCalls] at h
    split at h
    · cases h
    · next ret s₁ hexec =>
      obtain ⟨⟨rets', s''⟩, hrun, hr⟩ := Option.map_eq_some'.1 h
      obtain ⟨rfl, rfl⟩ := Prod.mk.inj hr
      rw [ih hrun, XattrCall.exec_nextObjId hexec, List.zip_cons_cons, List.countP_cons,
        BitVec.add_assoc, BitVec.ofNat_add_ofNat, Nat.add_comm]

/-- On a new volume, a set of `a` runs and moves the next object id on by the calls that made a
stream. -/
theorem runCalls_nextObjId_set :
    let s : Fs := ⟨⟨⟨[], .nil⟩, [], fun _ _ => 0, 1, 12, false⟩, []⟩
    let cs := [XattrCall.set 2 ⟨[0x61], by decide⟩ (some [7]) 1 0]
    ∃ rets s', runCalls s cs = some (rets, s') ∧ s'.vol.nextObjId =
      s.vol.nextObjId + BitVec.ofNat 64 ((cs.zip rets).countP fun p => p.1.takesId p.2) := by
  intro s cs
  have h : XattrInv s.vol := (xattrInv_of_empty rfl rfl).1
  obtain ⟨s', hrun, -⟩ := runCalls_refines h cs (by decide) (by decide)
  exact ⟨_, s', hrun, runCalls_nextObjId hrun⟩

end Apfs
