import ApfsXattr.DeleteAll

/-!
# Records the decoder rejects

Every entry point decodes the records it reaches with `apfs_xattr_from_query` and stops at the
first one it rejects, with the decoder's `-EFSCORRUPTED`: a read of the record, a listing of its
inode without a buffer, the deletion of all its inode's xattrs, and a set of its name that does
not ask for `XATTR_CREATE`. None of them changes the record: the listing and the read change
nothing, the deletion removes only the records before it, and the set returns before it queries
the catalog again, leaving behind at most the new stream it made for a large value.
-/

namespace Apfs

/-! ## Listing -/

/-- Without a buffer, the listing loop stops at the first record it cannot decode, and there is
one among the records it has left. -/
theorem listxattrLoop_of_not_valid (size : BitVec 64) {R : RawRecord} (hR : ¬R.Valid) :
    ∀ {rs : List RawRecord}, R ∈ rs → ∀ pos free,
      listxattrLoop size rs none pos free = (-efscorrupted, none)
  | r :: rs, hmem, pos, free => by
    by_cases hr : r.Valid
    · rw [listxattrLoop_cons_none size hr]
      have hne : R ≠ r := fun h => hR (h ▸ hr)
      exact listxattrLoop_of_not_valid size hR ((List.mem_cons.1 hmem).resolve_left hne) _ _
    · simp only [listxattrLoop, apfsXattrFromQuery_of_not_valid hr]

/-! ## Deleting every xattr of the inode -/

/-- The deletion loop removes the records of the inode that decode, in key order, up to the first
one that does not, and there it stops with `-EFSCORRUPTED`; a rejected record stays. With `n`
records left it needs at most `n + 1` calls. -/
theorem apfsDeleteAllXattrs_of_not_valid {k : XattrKey} {R : RawRecord} (hR : ¬R.Valid) :
    ∀ n (s : Fs), (s.vol.catalog.recordsOf k.owner).length ≤ n →
      s.vol.catalog.lookup k = some R →
      ∃ s', apfsDeleteAllXattrs s k.owner (n + 1) = some (-efscorrupted, s') ∧
        s'.vol.catalog.lookup k = some R := by
  intro n
  induction n with
  | zero =>
    intro s hn hk
    exact absurd (List.length_pos_of_mem (Catalog.mem_recordsOf_of_lookup hk)) (by omega)
  | succ n ih =>
    intro s hn hk
    obtain ⟨k', r, hfirst⟩ :=
      Catalog.exists_firstOf (List.ne_nil_of_mem (Catalog.mem_recordsOf_of_lookup hk))
    obtain ⟨-, hk', hrec⟩ := Catalog.firstOf_eq_some hfirst
    by_cases hr : r.Valid
    · -- the first record goes, and the loop goes on over the rest
      obtain ⟨h0, hrec₁, -⟩ := deleteFirst_spec hfirst hr
      have hne : k ≠ k' := fun h => hR (Option.some.inj (hk.symm.trans (h ▸ hk')) ▸ hr)
      have hany : apfsDeleteAnyXattr s k.owner = (-eagain, (apfsDeleteXattr s k' r).2) := by
        simp only [apfsDeleteAnyXattr, hfirst, h0, if_true]
      have hlen : ((apfsDeleteXattr s k' r).2.vol.catalog.recordsOf k.owner).length ≤ n := by
        rw [hrec₁, hrec, List.tail_cons]
        rw [hrec, List.length_cons] at hn
        omega
      obtain ⟨s', hrun, hs'⟩ := ih _ hlen (by
        rw [apfsDeleteXattr_catalog s k' hr, Catalog.lookup_erase, if_neg hne, hk])
      exact ⟨s', by rw [apfsDeleteAllXattrs.eq_2, hany, if_pos rfl, hrun], hs'⟩
    · -- the first record is rejected, and the loop stops there
      have hany : apfsDeleteAnyXattr s k.owner = (-efscorrupted, s) := by
        simp only [apfsDeleteAnyXattr, hfirst, apfsDeleteXattr_of_not_valid s k' hr,
          if_neg (by simp [efscorrupted] : (-efscorrupted : Int) ≠ 0)]
      exact ⟨s, by rw [apfsDeleteAllXattrs.eq_2, hany, if_neg (by simp [efscorrupted, eagain])], hk⟩

/-! ## Setting -/

/-- A set of the rejected record's name without `XATTR_CREATE` fails with the decoder's error,
whether it deletes or replaces, and leaves behind only what the start of the set made. -/
theorem apfsXattrSet_of_not_valid {s : Fs} {ino : Nat} {name : CString} {R : RawRecord}
    (hr : s.vol.catalog.lookup ⟨ino, name.bytes⟩ = some R) (hR : ¬R.Valid)
    (value : Option (List UInt8)) (size flags : Nat) (hf : flags &&& xattrCreate = 0) :
    apfsXattrSet s ino name value size flags =
      (-efscorrupted, (xattrSetStream s (value.getD []) size).2) := by
  have hf' : ¬flags &&& xattrCreate ≠ 0 := not_not.2 hf
  cases value with
  | none =>
    rw [apfsXattrSet_of_some_null hr hf', apfsDeleteXattr_of_not_valid _ _ hR, Option.getD_none]
  | some value =>
    exact apfsXattrSet_of_some_error hr hf' (apfsXattrDstreamFromQuery_of_not_valid hR)

/-! ## Every entry point -/

/-- A record the decoder rejects makes every entry point that meets it fail `-EFSCORRUPTED`,
and the record stays stored under its key. -/
theorem rejected_record_fails_everywhere (s : Fs) (ino : Nat) (name : CString) (R : RawRecord)
    (hr : s.vol.catalog.lookup ⟨ino, name.bytes⟩ = some R) (hR : ¬R.Valid) :
    (∀ buffer size onlyWhole,
      ____apfsXattrGet s.vol ino name buffer size onlyWhole = (-efscorrupted, buffer)) ∧
    (∀ size, apfsListxattr s.vol ino none size = (-efscorrupted, none)) ∧
    (∃ s', apfsDeleteAllXattrs s ino ((s.vol.catalog.recordsOf ino).length + 1) =
        some (-efscorrupted, s') ∧ s'.vol.catalog.lookup ⟨ino, name.bytes⟩ = some R) ∧
    (∀ value size flags, flags &&& xattrCreate = 0 →
      (apfsXattrSet s ino name value size flags).1 = -efscorrupted ∧
      (apfsXattrSet s ino name value size flags).2.vol.catalog = s.vol.catalog ∧
      ∀ id, id ≠ s.vol.nextObjId → ∀ i,
        apfsLogicToPhysBno (apfsXattrSet s ino name value size flags).2.vol id i =
          apfsLogicToPhysBno s.vol id i) :=
  ⟨____apfsXattrGet_of_not_valid hr hR,
    fun size => listxattrLoop_of_not_valid size hR (Catalog.mem_recordsOf_of_lookup hr) _ _,
    apfsDeleteAllXattrs_of_not_valid hR _ s le_rfl hr,
    fun value size flags hf => by
      rw [apfsXattrSet_of_not_valid hr hR value size flags hf]
      exact ⟨rfl, xattrSetStream_catalog _ _ _, xattrSetStream_phys s _ size⟩⟩

/-- A record with no room for its value header, under the name `a` of inode 2. -/
theorem rejected_record_fails_everywhere_short_val :
    let name : CString := ⟨[0x61], by decide⟩
    let s : Fs := ⟨⟨⟨[(⟨2, [0x61]⟩, ⟨[], []⟩)], List.pairwise_singleton _ _⟩, [], fun _ _ => 0, 1,
      12, false⟩, []⟩
    s.vol.catalog.lookup ⟨2, name.bytes⟩ = some ⟨[], []⟩ ∧ ¬RawRecord.Valid ⟨[], []⟩ ∧
      apfsListxattr s.vol 2 none 0 = (-efscorrupted, none) := by
  intro name s
  have hR : ¬RawRecord.Valid ⟨[], []⟩ := fun h => absurd h.val_room (by decide)
  exact ⟨rfl, hR, (rejected_record_fails_everywhere s 2 name _ rfl hR).2.1 0⟩

end Apfs
