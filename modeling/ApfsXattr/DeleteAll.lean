import ApfsXattr.Set
import ApfsXattr.Listxattr
import Mathlib.Logic.Relation

/-!
# Deleting all the xattrs of an inode

`apfs_delete_all_xattrs` calls `apfs_delete_any_xattr` until it stops returning `-EAGAIN`; each
call deletes the first xattr of the inode, if there is one, through `apfs_delete_xattr`. The
loop is modelled with fuel: `apfsDeleteAllXattrs s ino fuel` makes at most `fuel` calls and is
`none` when they do not suffice.

`apfsDeleteAllXattrs_reaches` reads a run that returns 0 as a chain of single deletions, which
is what the invariant of the streams needs. `apfsDeleteAllXattrs_run` counts the calls a run
makes over records that all decode and says what it leaves behind.
-/

namespace Apfs

/-- `apfs_delete_any_xattr`: delete the first xattr of the inode; `-EAGAIN` when one went. -/
def apfsDeleteAnyXattr (s : Fs) (ino : Nat) : Int × Fs :=
  match s.vol.catalog.firstOf ino with
  | none => (0, s) -- No more xattrs, we are done
  | some (k, r) =>
    let deleted := apfsDeleteXattr s k r
    (if deleted.1 = 0 then -eagain else deleted.1, deleted.2)

/-- `apfs_delete_all_xattrs`: the do-while loop, making at most `fuel` calls. -/
def apfsDeleteAllXattrs (s : Fs) (ino : Nat) : Nat → Option (Int × Fs)
  | 0 => none
  | fuel + 1 =>
    let ret := apfsDeleteAnyXattr s ino
    if ret.1 = -eagain then apfsDeleteAllXattrs ret.2 ino fuel else some ret

/-! ## One call -/

/-- One successful deletion of the first xattr of `ino`. -/
def DeleteStep (ino : Nat) (s s' : Fs) : Prop :=
  ∃ k r, s.vol.catalog.firstOf ino = some (k, r) ∧ apfsDeleteXattr s k r = (0, s')

theorem apfsDeleteXattr_result (s : Fs) (k : XattrKey) (r : RawRecord) :
    (apfsDeleteXattr s k r).1 = 0 ∨ (apfsDeleteXattr s k r).1 = -efscorrupted := by
  by_cases h : r.Valid
  · exact .inl (by rw [apfsDeleteXattr_spec s k h])
  · exact .inr (by rw [apfsDeleteXattr_of_not_valid s k h])

/-- A call that returns `-EAGAIN` made one deletion; one that returns 0 found nothing to delete. -/
theorem apfsDeleteAnyXattr_cases (s : Fs) (ino : Nat) :
    ((apfsDeleteAnyXattr s ino).1 = -eagain → DeleteStep ino s (apfsDeleteAnyXattr s ino).2) ∧
    ((apfsDeleteAnyXattr s ino).1 = 0 →
      s.vol.catalog.firstOf ino = none ∧ (apfsDeleteAnyXattr s ino).2 = s) := by
  unfold apfsDeleteAnyXattr
  split
  · next h => exact ⟨fun h' => by simp [eagain] at h', fun _ => ⟨h, rfl⟩⟩
  · next k r h =>
    dsimp only
    rcases apfsDeleteXattr_result s k r with h0 | h0
    · rw [if_pos h0]
      exact ⟨fun _ => ⟨k, r, h, Prod.ext h0 rfl⟩, fun h' => by simp [eagain] at h'⟩
    · rw [if_neg (by rw [h0]; simp [efscorrupted]), h0]
      exact ⟨fun h' => by simp [efscorrupted, eagain] at h', fun h' => by simp [efscorrupted] at h'⟩

/-- A run that returns 0 is a chain of single deletions that ends with no xattr left. -/
theorem apfsDeleteAllXattrs_reaches {s s' : Fs} {ino fuel : Nat}
    (h : apfsDeleteAllXattrs s ino fuel = some (0, s')) :
    Relation.ReflTransGen (DeleteStep ino) s s' ∧ s'.vol.catalog.firstOf ino = none := by
  induction fuel generalizing s with
  | zero => cases h
  | succ fuel ih =>
    have hc := apfsDeleteAnyXattr_cases s ino
    simp only [apfsDeleteAllXattrs] at h
    split at h
    · next hag =>
      obtain ⟨hsteps, hnone⟩ := ih h
      exact ⟨.head (hc.1 hag) hsteps, hnone⟩
    · have h' := Option.some.inj h
      obtain ⟨hnone, hs⟩ := hc.2 (congrArg Prod.fst h')
      obtain rfl : s' = s := (congrArg Prod.snd h').symm.trans hs
      exact ⟨.refl, hnone⟩

/-! ## A whole run over records that decode -/

/-- The streams the records refer to. -/
def streamIds (rs : List RawRecord) : List (BitVec 64) :=
  rs.filterMap fun r => if r.hasDstreamBit then some (apfsDstreamFromXattr r.toXattr).dsId else none

/-- What deleting every xattr of `ino` leaves behind: no record of `ino`, the records of the other
inodes as they were, and every extent but those of the deleted streams. -/
structure DeletedAll (s : Fs) (ino : Nat) (s' : Fs) : Prop where
  none_left : s'.vol.catalog.recordsOf ino = []
  others : ∀ k, k.owner ≠ ino → s'.vol.catalog.lookup k = s.vol.catalog.lookup k
  extents : s'.vol.extents =
    s.vol.extents.filter fun e => !(streamIds (s.vol.catalog.recordsOf ino)).contains e.dsId
  blocks : s'.vol.blocks = s.vol.blocks
  next : s'.vol.nextObjId = s.vol.nextObjId
  bits : s'.vol.blocksizeBits = s.vol.blocksizeBits

/-- Deleting the first xattr of `ino`, a record that decodes. -/
theorem deleteFirst_spec {s : Fs} {ino : Nat} {k : XattrKey} {r : RawRecord}
    (hfirst : s.vol.catalog.firstOf ino = some (k, r)) (hr : r.Valid) :
    let s₁ := (apfsDeleteXattr s k r).2
    (apfsDeleteXattr s k r).1 = 0 ∧
    s₁.vol.catalog.recordsOf ino = (s.vol.catalog.recordsOf ino).tail ∧
    (∀ k', k'.owner ≠ ino → s₁.vol.catalog.lookup k' = s.vol.catalog.lookup k') ∧
    s₁.vol.extents = s.vol.extents.filter (fun e => !(streamIds [r]).contains e.dsId) ∧
    s₁.vol.blocks = s.vol.blocks ∧ s₁.vol.nextObjId = s.vol.nextObjId ∧
    s₁.vol.blocksizeBits = s.vol.blocksizeBits := by
  obtain ⟨hko, -, hrec⟩ := Catalog.firstOf_eq_some hfirst
  have hcat : ∀ k', k'.owner ≠ ino → (s.vol.catalog.erase k).lookup k' = s.vol.catalog.lookup k' :=
    fun k' hk' => by rw [Catalog.lookup_erase, if_neg (fun h => hk' (by rw [h]; exact hko))]
  rw [apfsDeleteXattr_spec s k hr]
  cases hb : r.hasDstreamBit
  · refine ⟨rfl, by simp [hrec], hcat, ?_, rfl, rfl, rfl⟩
    simp [streamIds, hb]
  · refine ⟨rfl, by simp [hrec], hcat, ?_, rfl, rfl, rfl⟩
    simp only [streamIds, hb, truncateKeeps_zero, if_true, List.filterMap_cons, List.filterMap_nil,
      List.contains_cons, List.contains_nil, Bool.or_false]
    rfl

/-- Over records of `ino` that all decode, `n` of them, the loop makes `n` calls that return
`-EAGAIN` and a last one that returns 0, and leaves `DeletedAll` behind. -/
theorem apfsDeleteAllXattrs_run (ino : Nat) (n : Nat) :
    ∀ s : Fs, (s.vol.catalog.recordsOf ino).length = n →
      (∀ r ∈ s.vol.catalog.recordsOf ino, r.Valid) →
      apfsDeleteAllXattrs s ino n = none ∧
      ∃ s', apfsDeleteAllXattrs s ino (n + 1) = some (0, s') ∧ DeletedAll s ino s' := by
  induction n with
  | zero =>
    intro s hn _
    have hnone : s.vol.catalog.firstOf ino = none :=
      Catalog.firstOf_eq_none.2 (List.length_eq_zero.1 hn)
    refine ⟨rfl, s, by simp [apfsDeleteAllXattrs, apfsDeleteAnyXattr, hnone, eagain], ?_⟩
    exact ⟨List.length_eq_zero.1 hn, fun _ _ => rfl, by simp [List.length_eq_zero.1 hn, streamIds],
      rfl, rfl, rfl⟩
  | succ n ih =>
    intro s hn hv
    obtain ⟨r, rs, hrs⟩ := List.exists_cons_of_length_eq_add_one hn
    obtain ⟨k, r', hfirst⟩ := Catalog.exists_firstOf (hrs ▸ List.cons_ne_nil r rs)
    obtain ⟨-, -, hrec⟩ := Catalog.firstOf_eq_some hfirst
    rw [hrs, List.cons.injEq] at hrec
    obtain ⟨rfl, -⟩ := hrec
    have hr : r.Valid := hv r (by rw [hrs]; exact List.mem_cons_self _ _)
    obtain ⟨h0, hrec₁, hoth₁, hext₁, hblk₁, hnext₁, hbits₁⟩ := deleteFirst_spec hfirst hr
    have hany : apfsDeleteAnyXattr s ino = (-eagain, (apfsDeleteXattr s k r).2) := by
      simp only [apfsDeleteAnyXattr, hfirst, h0, if_true]
    have hlen₁ : ((apfsDeleteXattr s k r).2.vol.catalog.recordsOf ino).length = n := by
      rw [hrs, List.length_cons] at hn
      rw [hrec₁, hrs, List.tail_cons]
      omega
    have hv₁ : ∀ r' ∈ (apfsDeleteXattr s k r).2.vol.catalog.recordsOf ino, r'.Valid := by
      rw [hrec₁, hrs]
      exact fun r' hr' => hv r' (by rw [hrs]; exact List.mem_cons_of_mem _ hr')
    obtain ⟨hstop, s', hrun, hdel⟩ := ih _ hlen₁ hv₁
    refine ⟨by rw [apfsDeleteAllXattrs.eq_2, hany, if_pos rfl, hstop], s',
      by rw [apfsDeleteAllXattrs.eq_2, hany, if_pos rfl, hrun], ?_⟩
    refine ⟨hdel.none_left, fun k' hk' => (hdel.others k' hk').trans (hoth₁ k' hk'), ?_,
      hdel.blocks.trans hblk₁, hdel.next.trans hnext₁, hdel.bits.trans hbits₁⟩
    rw [hdel.extents, hext₁, hrec₁, hrs, List.filter_filter]
    congr 1
    funext e
    simp only [List.tail_cons, streamIds, List.filterMap_cons]
    split <;> simp [Bool.and_comm]

/-- `apfs_delete_all_xattrs` over `n` records that decode returns 0 after exactly `n + 1` calls,
leaving no record of the inode and everything else but their streams' extents. -/
theorem apfsDeleteAllXattrs_spec (s : Fs) (ino : Nat)
    (hv : ∀ r ∈ s.vol.catalog.recordsOf ino, r.Valid) :
    let n := (s.vol.catalog.recordsOf ino).length
    apfsDeleteAllXattrs s ino n = none ∧
    ∃ s', apfsDeleteAllXattrs s ino (n + 1) = some (0, s') ∧
      s'.vol.catalog.recordsOf ino = [] ∧
      (∀ size, apfsListxattr s'.vol ino none size = (0, none)) ∧
      (∀ k, k.owner ≠ ino → s'.vol.catalog.lookup k = s.vol.catalog.lookup k) ∧
      s'.vol.extents =
        s.vol.extents.filter (fun e => !(streamIds (s.vol.catalog.recordsOf ino)).contains e.dsId) ∧
      s'.vol.blocks = s.vol.blocks := by
  obtain ⟨hstop, s', hrun, hdel⟩ := apfsDeleteAllXattrs_run ino _ s rfl hv
  refine ⟨hstop, s', hrun, hdel.none_left, fun size => ?_, hdel.others, hdel.extents, hdel.blocks⟩
  simp [apfsListxattr, hdel.none_left, listxattrLoop]

/-- One record is deleted in one pass, with one more pass to find none left. -/
theorem apfsDeleteAllXattrs_spec_one :
    let name : CString := ⟨[0x61], by decide⟩
    let r : RawRecord := ⟨apfsBuildXattrKey name 2, apfsBuildInlineXattrVal [7] 1⟩
    let s : Fs := ⟨⟨⟨[(⟨2, [0x61]⟩, r)], List.pairwise_singleton _ _⟩, [], fun _ _ => 0, 1, 12, false⟩, []⟩
    (∀ r ∈ s.vol.catalog.recordsOf 2, r.Valid) ∧
      ∃ s', apfsDeleteAllXattrs s 2 2 = some (0, s') ∧ s'.vol.catalog.recordsOf 2 = [] := by
  intro name r s
  have hv : ∀ r ∈ s.vol.catalog.recordsOf 2, r.Valid := List.forall_mem_singleton.2
    ((apfsXattrFromQuery_eq_ok_iff r _).1
      (apfsXattrFromQuery_inline name 2 false (by decide) [7] 1 (by decide) (by decide))).1
  obtain ⟨-, s', h, hnone, -⟩ := apfsDeleteAllXattrs_spec s 2 hv
  exact ⟨hv, s', h, hnone⟩


end Apfs
