import ApfsXattr.Invariant

/-!
# Reading what a set stored

`apfs_xattr_set` of a value, then `____apfs_xattr_get` of any name. A set that fails with
`-EEXIST` or `-ENODATA` leaves behind at most a new stream no record refers to, so every read is
as before. A set that succeeds stores a record that reads back as the value, inline when the
value is small enough to embed and otherwise through a stream with the volume's old next object
id, which no extent held before; every other name reads as before, since its record is the same
and its stream is neither the new one nor the one the set truncated.

The reads of other names rest on the invariant of `ApfsXattr.Invariant`: streams the records
refer to have ids below the next object id and distinct from each other.
-/

namespace Apfs

/-! ## What a read depends on -/

/-- Two volumes read the same under a name when they hold the same record there and agree on
the blocks of the stream it refers to. -/
theorem ____apfsXattrGet_of_reads {v w : Volume} {ino : Nat} {name : CString}
    (hl : w.catalog.lookup ⟨ino, name.bytes⟩ = v.catalog.lookup ⟨ino, name.bytes⟩)
    (hbits : w.blocksizeBits = v.blocksizeBits)
    (hs : ∀ d, LiveStream v ⟨ino, name.bytes⟩ d → ∀ i,
      apfsLogicToPhysBno w d.dsId i = apfsLogicToPhysBno v d.dsId i ∧
        w.blocks (apfsLogicToPhysBno v d.dsId i) = v.blocks (apfsLogicToPhysBno v d.dsId i))
    (buffer : Option Mem) (size : Nat) (onlyWhole : Bool) :
    ____apfsXattrGet w ino name buffer size onlyWhole =
      ____apfsXattrGet v ino name buffer size onlyWhole :=
  ____apfsXattrGet_congr hl hbits (fun r x hr hx hd => hs _ ⟨r, hr,
    apfsXattrDstreamFromQuery_eq_some.2 ⟨x, hx, hd, rfl⟩⟩) buffer size onlyWhole

theorem StreamInvWith.dsId_ne_next {v : Volume} {p : Option ApfsDstreamInfo}
    (hinv : StreamInvWith v p) {k : XattrKey} {d : ApfsDstreamInfo} (h : LiveStream v k d) :
    d.dsId ≠ v.nextObjId :=
  fun he => absurd (hinv.ids_lt k d h) (by rw [he]; exact lt_irrefl _)

/-- The start of a set leaves every stream a record refers to as it was. -/
theorem xattrSetStream_reads {s : Fs} (hinv : StreamInv s.vol) (value : List UInt8) (size : Nat)
    {k : XattrKey} {d : ApfsDstreamInfo} (h : LiveStream s.vol k d) (i : Nat) :
    apfsLogicToPhysBno (xattrSetStream s value size).2.vol d.dsId i =
        apfsLogicToPhysBno s.vol d.dsId i ∧
      (xattrSetStream s value size).2.vol.blocks (apfsLogicToPhysBno s.vol d.dsId i) =
        s.vol.blocks (apfsLogicToPhysBno s.vol d.dsId i) :=
  ⟨xattrSetStream_phys s value size _ (hinv.dsId_ne_next h) i,
    xattrSetStream_blocks s value size _ (apfsLogicToPhysBno_lt_freshBno _ _ _)⟩

/-- The start of a set changes no read. -/
theorem ____apfsXattrGet_xattrSetStream {s : Fs} (hinv : StreamInv s.vol) (value : List UInt8)
    (size : Nat) (ino : Nat) (name : CString) (buffer : Option Mem) (bufSize : Nat)
    (onlyWhole : Bool) :
    ____apfsXattrGet (xattrSetStream s value size).2.vol ino name buffer bufSize onlyWhole =
      ____apfsXattrGet s.vol ino name buffer bufSize onlyWhole :=
  ____apfsXattrGet_of_reads (by rw [xattrSetStream_catalog]) (xattrSetStream_blocksizeBits _ _ _)
    (fun _ h => xattrSetStream_reads hinv value size h) buffer bufSize onlyWhole

/-! ## The end of a set -/

section Stored

variable {s : Fs} {ino : Nat} {name : CString} {value : List UInt8} {size : Nat}
  {old : Option ApfsDstreamInfo} {insert : Bool}

/-- After a set, every other name reads as before: its record is the same, and its stream is
neither the new one nor the one the set truncated. -/
theorem xattrSetRecord_get_ne (hinv : StreamInv s.vol)
    (hold : ∀ d, LiveStream s.vol ⟨ino, name.bytes⟩ d ↔ old = some d)
    (hfound : insert = false → s.vol.catalog.lookup ⟨ino, name.bytes⟩ ≠ none)
    {ino' : Nat} {name' : CString} (hk : (⟨ino', name'.bytes⟩ : XattrKey) ≠ ⟨ino, name.bytes⟩)
    (buffer : Option Mem) (bufSize : Nat) (onlyWhole : Bool) :
    ____apfsXattrGet (xattrSetRecord (xattrSetStream s value size).2 ino name value size
        (xattrSetStream s value size).1 old insert).2.vol ino' name' buffer bufSize onlyWhole =
      ____apfsXattrGet s.vol ino' name' buffer bufSize onlyWhole := by
  have hcat := xattrSetStream_catalog s value size
  refine ____apfsXattrGet_of_reads ?_ (by simp) (fun d hd i => ?_) buffer bufSize onlyWhole
  · rw [xattrSetRecord_lookup _ _ _ _ _ _ _ _ (fun h => hcat ▸ hfound h), if_neg hk, hcat]
  · have hne : ∀ d₀ ∈ old, d₀.dsId ≠ d.dsId := fun d₀ h₀ he =>
      hk (hinv.ids_unique _ _ _ _ hd ((hold d₀).2 h₀) he.symm)
    rw [xattrSetRecord_phys _ _ _ _ _ _ _ _ _ hne, xattrSetRecord_blocks]
    exact xattrSetStream_reads hinv value size hd i

/-- A value small enough to embed reads back whole, from a record that decodes as inline. -/
theorem xattrSetRecord_get_inline (old : Option ApfsDstreamInfo) (hname : name.strlen ≤ xattrNameMax)
    (hemb : value.length ≤ apfsXattrMaxEmbeddedSize)
    (hfound : insert = false → s.vol.catalog.lookup ⟨ino, name.bytes⟩ ≠ none) :
    let c := xattrSetStream s value value.length
    let r := xattrSetRecord c.2 ino name value value.length c.1 old insert
    (∀ buf bufSize onlyWhole, value.length ≤ bufSize → ∃ buf' : Mem,
      ____apfsXattrGet r.2.vol ino name (some buf) bufSize onlyWhole =
        ((value.length : Int), some buf') ∧ buf'.read 0 value.length = value) ∧
    ∃ rec, r.2.vol.catalog.lookup ⟨ino, name.bytes⟩ = some rec ∧
      apfsXattrFromQuery rec = .ok ⟨name.bytes ++ [0], value, name.strlen, value.length, false⟩ := by
  simp only [xattrSetStream_of_le hemb]
  have hx := apfsXattrFromQuery_inline name ino (name.bytes == apfsXattrNameSymlink) hname value
    value.length hemb le_rfl
  rw [List.take_length] at hx
  have hl : (xattrSetRecord s ino name value value.length none old insert).2.vol.catalog.lookup
      ⟨ino, name.bytes⟩ =
      some ⟨apfsBuildXattrKey name ino, xattrSetVal s.vol name value value.length none⟩ := by
    rw [xattrSetRecord_lookup _ _ _ _ _ _ _ _ hfound, if_pos rfl]
  refine ⟨fun buf bufSize onlyWhole hcap => ?_, _, hl, hx⟩
  obtain ⟨buf', h, hread⟩ := ____apfsXattrGet_inline_whole hl hx rfl buf bufSize onlyWhole hcap
  exact ⟨buf', h, hread.trans (Mem.read_ofBytes value)⟩

/-- A value too large to embed reads back whole through the new stream, which has the volume's
old next object id, held no extent before, and is the stream of no other record. -/
theorem xattrSetRecord_get_stream (hinv : StreamInv s.vol) (hname : name.strlen ≤ xattrNameMax)
    (hbig : apfsXattrMaxEmbeddedSize < value.length) (hsize : value.length ≤ xattrSizeMax)
    (hold : ∀ d, LiveStream s.vol ⟨ino, name.bytes⟩ d ↔ old = some d)
    (hfound : insert = false → s.vol.catalog.lookup ⟨ino, name.bytes⟩ ≠ none) :
    let c := xattrSetStream s value value.length
    let r := xattrSetRecord c.2 ino name value value.length c.1 old insert
    (∀ buf bufSize onlyWhole, value.length ≤ bufSize → ∃ buf' : Mem,
      ____apfsXattrGet r.2.vol ino name (some buf) bufSize onlyWhole =
        ((value.length : Int), some buf') ∧ buf'.read 0 value.length = value) ∧
    ∃ rec, r.2.vol.catalog.lookup ⟨ino, name.bytes⟩ = some rec ∧
      ∃ d, apfsXattrDstreamFromQuery rec = .ok (some d) ∧ d.dsId = s.vol.nextObjId ∧
        (∀ e ∈ s.vol.extents, e.dsId ≠ d.dsId) ∧
        ∀ k' d', k' ≠ ⟨ino, name.bytes⟩ → LiveStream r.2.vol k' d' → d'.dsId ≠ d.dsId := by
  intro c r
  obtain ⟨hd, -, -, hbits₀, -⟩ := apfsCreateXattrDstream_spec s value value.length
  obtain ⟨hmapped, hvalue⟩ := apfsCreateXattrDstream_reads s value
  have hc1 : c.1 = some ⟨s.vol.nextObjId, BitVec.ofNat 64 value.length⟩ :=
    (xattrSetStream_fst_of_lt hbig).trans (congrArg some hd)
  have hc2 : c.2 = (apfsCreateXattrDstream s value value.length).2 := xattrSetStream_snd_of_lt hbig
  have hcat : c.2.vol.catalog = s.vol.catalog := xattrSetStream_catalog _ _ _
  have hlk : ∀ k', k' ≠ ⟨ino, name.bytes⟩ → r.2.vol.catalog.lookup k' = s.vol.catalog.lookup k' :=
    fun k' hk' => by
      rw [xattrSetRecord_lookup _ _ _ _ _ _ _ _ (fun h => hcat ▸ hfound h), if_neg hk', hcat]
  have hl : r.2.vol.catalog.lookup ⟨ino, name.bytes⟩ =
      some ⟨apfsBuildXattrKey name ino, xattrSetVal c.2.vol name value value.length c.1⟩ := by
    rw [xattrSetRecord_lookup _ _ _ _ _ _ _ _ (fun h => hcat ▸ hfound h), if_pos rfl]
  have hq := (xattrSetVal_dstream c.2.vol name ino value value.length c.1 hname _).2 hc1
  -- the stream the set truncates is an old one, so the new one reads as it did when made
  have hphys : ∀ i, apfsLogicToPhysBno r.2.vol s.vol.nextObjId i =
      apfsLogicToPhysBno (apfsCreateXattrDstream s value value.length).2.vol s.vol.nextObjId i :=
    fun i => by
      rw [xattrSetRecord_phys _ _ _ _ _ _ _ _ _ fun d₀ h₀ => hinv.dsId_ne_next ((hold d₀).2 h₀), hc2]
  have hbits : r.2.vol.blocksizeBits = s.vol.blocksizeBits := by simp [r, c]
  obtain ⟨x, hx, hxd, hdx⟩ := apfsXattrDstreamFromQuery_eq_some.1 hq
  have hdsz : (apfsDstreamFromXattr x).dsSize.toNat = value.length := by
    simp only [xattrSizeMax] at hsize
    simp only [hdx, BitVec.toNat_ofNat]
    omega
  have hdid : (apfsDstreamFromXattr x).dsId = s.vol.nextObjId := by rw [hdx]
  refine ⟨fun buf bufSize onlyWhole hcap => ?_, _, hl, _, hq, rfl, fun e he => ?_,
    fun k' d' hk' hl' => ?_⟩
  · obtain ⟨buf', h, hread⟩ := ____apfsXattrGet_stream_whole hl hx hxd
      (by rw [hdsz]; simp only [intMax, xattrSizeMax] at hsize ⊢; omega)
      (fun i hi => by rw [hdid, hphys]; exact hmapped i (by rwa [hdsz, hbits] at hi))
      buf bufSize onlyWhole (hdsz ▸ hcap)
    rw [hdsz] at h
    rw [hdsz, hdid, streamData_congr (hbits.trans hbits₀.symm) (by simp [r, hc2]) hphys] at hread
    exact ⟨buf', h, hread.trans hvalue⟩
  · rcases hinv.no_orphans e he with ⟨k, d, hl', hid⟩ | ⟨p, hp, -⟩
    · exact hid ▸ hinv.dsId_ne_next hl'
    · cases hp
  · rw [liveStream_of_lookup (hlk k' hk')] at hl'
    exact hinv.dsId_ne_next hl'

/-- A set that stores its record: the name reads back as the value; the record is inline
exactly when the value is small enough to embed, and otherwise refers to a fresh stream; and
every other name reads as before. -/
theorem xattrSetRecord_stored (hinv : StreamInv s.vol) (hname : name.strlen ≤ xattrNameMax)
    (hsize : value.length ≤ xattrSizeMax)
    (hold : ∀ d, LiveStream s.vol ⟨ino, name.bytes⟩ d ↔ old = some d)
    (hfound : insert = false → s.vol.catalog.lookup ⟨ino, name.bytes⟩ ≠ none) :
    let c := xattrSetStream s value value.length
    let r := xattrSetRecord c.2 ino name value value.length c.1 old insert
    (∀ buf bufSize onlyWhole, value.length ≤ bufSize → ∃ buf' : Mem,
      ____apfsXattrGet r.2.vol ino name (some buf) bufSize onlyWhole =
        ((value.length : Int), some buf') ∧ buf'.read 0 value.length = value) ∧
    (∃ rec, r.2.vol.catalog.lookup ⟨ino, name.bytes⟩ = some rec ∧
      (value.length ≤ apfsXattrMaxEmbeddedSize →
        apfsXattrFromQuery rec = .ok ⟨name.bytes ++ [0], value, name.strlen, value.length, false⟩) ∧
      (apfsXattrMaxEmbeddedSize < value.length → ∃ d,
        apfsXattrDstreamFromQuery rec = .ok (some d) ∧ d.dsId = s.vol.nextObjId ∧
        (∀ e ∈ s.vol.extents, e.dsId ≠ d.dsId) ∧
        ∀ k' d', k' ≠ ⟨ino, name.bytes⟩ → LiveStream r.2.vol k' d' → d'.dsId ≠ d.dsId)) ∧
    ∀ ino' name', (⟨ino', name'.bytes⟩ : XattrKey) ≠ ⟨ino, name.bytes⟩ →
      ∀ buffer bufSize onlyWhole,
        ____apfsXattrGet r.2.vol ino' name' buffer bufSize onlyWhole =
          ____apfsXattrGet s.vol ino' name' buffer bufSize onlyWhole := by
  by_cases hemb : value.length ≤ apfsXattrMaxEmbeddedSize
  · obtain ⟨hread, rec, hl, hx⟩ := xattrSetRecord_get_inline old hname hemb hfound
    exact ⟨hread, ⟨rec, hl, fun _ => hx, fun h => absurd h (Nat.not_lt.2 hemb)⟩,
      fun _ _ hk => xattrSetRecord_get_ne hinv hold hfound hk⟩
  · obtain ⟨hread, rec, hl, hd⟩ :=
      xattrSetRecord_get_stream hinv hname (Nat.lt_of_not_le hemb) hsize hold hfound
    exact ⟨hread, ⟨rec, hl, fun h => absurd h hemb, fun _ => hd⟩,
      fun _ _ hk => xattrSetRecord_get_ne hinv hold hfound hk⟩

end Stored

/-! ## A set, then a read -/

/-- A set of a value follows the flags' table; a failed set changes no read, and a successful one
reads back, embeds exactly the small values, gives a large one a fresh stream, and changes no
other name. -/
theorem apfsXattrSet_get (s : Fs) (ino : Nat) (name : CString) (value : List UInt8) (flags : Nat)
    (hinv : StreamInv s.vol) (hdec : AllDecode s.vol) (hname : name.strlen ≤ xattrNameMax)
    (hsize : value.length ≤ xattrSizeMax) :
    let r := apfsXattrSet s ino name (some value) value.length flags
    r.1 = (if (s.vol.catalog.lookup ⟨ino, name.bytes⟩).isSome then
        (if flags &&& xattrCreate ≠ 0 then -eexist else 0)
      else if flags &&& xattrReplace ≠ 0 then -enodata else 0) ∧
    (r.1 ≠ 0 → ∀ ino' name' buffer bufSize onlyWhole,
      ____apfsXattrGet r.2.vol ino' name' buffer bufSize onlyWhole =
        ____apfsXattrGet s.vol ino' name' buffer bufSize onlyWhole) ∧
    (r.1 = 0 →
      (∀ buf bufSize onlyWhole, value.length ≤ bufSize → ∃ buf' : Mem,
        ____apfsXattrGet r.2.vol ino name (some buf) bufSize onlyWhole =
          ((value.length : Int), some buf') ∧ buf'.read 0 value.length = value) ∧
      (∃ rec, r.2.vol.catalog.lookup ⟨ino, name.bytes⟩ = some rec ∧
        (value.length ≤ apfsXattrMaxEmbeddedSize →
          apfsXattrFromQuery rec = .ok ⟨name.bytes ++ [0], value, name.strlen, value.length, false⟩) ∧
        (apfsXattrMaxEmbeddedSize < value.length → ∃ d,
          apfsXattrDstreamFromQuery rec = .ok (some d) ∧ d.dsId = s.vol.nextObjId ∧
          (∀ e ∈ s.vol.extents, e.dsId ≠ d.dsId) ∧
          ∀ k' d', k' ≠ ⟨ino, name.bytes⟩ → LiveStream r.2.vol k' d' → d'.dsId ≠ d.dsId)) ∧
      ∀ ino' name', (⟨ino', name'.bytes⟩ : XattrKey) ≠ ⟨ino, name.bytes⟩ →
        ∀ buffer bufSize onlyWhole,
          ____apfsXattrGet r.2.vol ino' name' buffer bufSize onlyWhole =
            ____apfsXattrGet s.vol ino' name' buffer bufSize onlyWhole) := by
  cases hl : s.vol.catalog.lookup ⟨ino, name.bytes⟩ with
  | none =>
    by_cases hf : flags &&& xattrReplace ≠ 0
    · rw [apfsXattrSet_of_none_replace _ hl hf]
      exact ⟨by simp [hf], fun _ => ____apfsXattrGet_xattrSetStream hinv _ _,
        fun h => absurd h (by simp [enodata])⟩
    · rw [apfsXattrSet_of_none _ hl hf]
      exact ⟨by simp [hf], fun h => absurd (xattrSetRecord_fst ..) h, fun _ =>
        xattrSetRecord_stored hinv hname hsize (fun d => iff_of_false (not_liveStream hl d) nofun)
          nofun⟩
  | some R =>
    by_cases hf : flags &&& xattrCreate ≠ 0
    · rw [apfsXattrSet_of_some_create _ hl hf]
      exact ⟨by simp [hf], fun _ => ____apfsXattrGet_xattrSetStream hinv _ _,
        fun h => absurd h (by simp [eexist])⟩
    · have hq := apfsXattrDstreamFromQuery_of_valid (hdec _ _ hl)
      rw [apfsXattrSet_of_some_value hl hf hq]
      exact ⟨by simp [hf], fun h => absurd (xattrSetRecord_fst ..) h, fun _ =>
        xattrSetRecord_stored hinv hname hsize
          (fun d => (liveStream_iff hl d).trans (by rw [hq, Except.ok.injEq]))
          fun _ => by rw [hl]; exact Option.some_ne_none R⟩

/-- On a new volume, a one-byte value set under `a` reads back, and a value of 3805 bytes set
under it goes to a stream with the volume's next object id. -/
theorem apfsXattrSet_get_new_volume :
    let s : Fs := ⟨⟨⟨[], .nil⟩, [], fun _ _ => 0, 1, 12, false⟩, []⟩
    let name : CString := ⟨[0x61], by decide⟩
    let big := List.replicate 3805 (0 : UInt8)
    StreamInv s.vol ∧ AllDecode s.vol ∧ (apfsXattrSet s 2 name (some [7]) 1 0).1 = 0 ∧
      (∃ buf' : Mem, ____apfsXattrGet (apfsXattrSet s 2 name (some [7]) 1 0).2.vol 2 name
        (some fun _ => 0) 1 false = (1, some buf') ∧ buf'.read 0 1 = [7]) ∧
      (apfsXattrSet s 2 name (some big) big.length 0).1 = 0 ∧
      ∃ rec d, (apfsXattrSet s 2 name (some big) big.length 0).2.vol.catalog.lookup
        ⟨2, name.bytes⟩ = some rec ∧ apfsXattrDstreamFromQuery rec = .ok (some d) ∧
        d.dsId = s.vol.nextObjId := by
  intro s name big
  have hinv : StreamInv s.vol := streamInv_of_empty rfl rfl
  have hdec : AllDecode s.vol := nofun
  have h := apfsXattrSet_get s 2 name [7] 0 hinv hdec (by decide) (by decide)
  have h0 : (apfsXattrSet s 2 name (some [7]) 1 0).1 = 0 := h.1.trans rfl
  have hlen : big.length = 3805 := List.length_replicate _ _
  have hb := apfsXattrSet_get s 2 name big 0 hinv hdec (by decide) (by rw [hlen]; decide)
  have hb0 : (apfsXattrSet s 2 name (some big) big.length 0).1 = 0 := hb.1.trans rfl
  obtain ⟨rec, hrec, -, hstream⟩ := (hb.2.2 hb0).2.1
  obtain ⟨d, hd, hid, -⟩ := hstream (by rw [hlen]; decide)
  exact ⟨hinv, hdec, h0, (h.2.2 h0).1 (fun _ => 0) 1 false le_rfl, hb0, rec, d, hrec, hd, hid⟩

end Apfs
