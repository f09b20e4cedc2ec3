import ApfsXattr.Record
import Mathlib.Data.List.Lex
import Mathlib.Data.Prod.Lex

/-!
# The catalog as an ordered map of xattr records

The catalog B-tree is outside the modelled source; the xattr code only queries it and asks it
to insert, replace or remove the record a query found. It is modelled here as the list of its
xattr records in key order, a structure that carries the strict order of its keys, so that a
catalog with two records under one key cannot be built.

Keys are ordered as `apfs_keycmp` orders xattr keys: by owner, then by name bytes as `strcmp`
compares them. The three kinds of query the code makes are `lookup` (an exact query),
`firstOf` (a query for any name of an owner) and `recordsOf` (a multiple query).
-/

namespace Apfs

/-- The key of an xattr record: owner inode number and name, as `apfs_init_xattr_key` fills
a query key. -/
structure XattrKey where
  owner : Nat
  name : List UInt8
deriving DecidableEq

/-- Modelled from the spec: `apfs_keycmp` compares the owner first and then the names
bytewise. -/
def XattrKey.rank (k : XattrKey) : Lex (Nat × List Nat) := toLex (k.owner, k.name.map UInt8.toNat)

theorem XattrKey.rank_injective : Function.Injective XattrKey.rank := by
  rintro ⟨o₁, n₁⟩ ⟨o₂, n₂⟩ h
  simp only [XattrKey.rank, toLex_inj, Prod.mk.injEq] at h
  obtain ⟨rfl, h⟩ := h
  rw [List.map_injective_iff.mpr (fun _ _ => UInt8.toNat.inj) h]

instance : LinearOrder XattrKey := LinearOrder.lift' XattrKey.rank XattrKey.rank_injective

/-- Modelled from the spec: the xattr records of the catalog B-tree, in key order. -/
structure Catalog where
  entries : List (XattrKey × RawRecord)
  sorted : entries.Pairwise fun a b => a.1 < b.1

namespace Catalog

/-- An exact query (`APFS_QUERY_EXACT`): the record stored under `k`. -/
def lookup (c : Catalog) (k : XattrKey) : Option RawRecord := c.entries.lookup k

/-- A query for any name of `owner` (`APFS_QUERY_ANY_NAME`): its first record in key order. -/
def firstOf (c : Catalog) (owner : Nat) : Option (XattrKey × RawRecord) :=
  c.entries.find? fun e => e.1.owner == owner

/-- A multiple query (`APFS_QUERY_MULTIPLE`): the records of `owner` in key order. -/
def recordsOf (c : Catalog) (owner : Nat) : List RawRecord :=
  (c.entries.filter fun e => e.1.owner == owner).map (·.2)

/-- Insertion at the place of `k` in key order; a record already under `k` is overwritten. -/
def insertEntry (k : XattrKey) (r : RawRecord) :
    List (XattrKey × RawRecord) → List (XattrKey × RawRecord)
  | [] => [(k, r)]
  | e :: es =>
    if k < e.1 then (k, r) :: e :: es
    else if k = e.1 then (k, r) :: es
    else e :: insertEntry k r es

theorem mem_insertEntry {k : XattrKey} {r : RawRecord} {es : List (XattrKey × RawRecord)}
    {x : XattrKey × RawRecord} (h : x ∈ insertEntry k r es) : x = (k, r) ∨ x ∈ es := by
  induction es with
  | nil => simpa [insertEntry] using h
  | cons e es ih =>
    simp only [insertEntry] at h
    split_ifs at h
    · simpa using h
    · rcases List.mem_cons.1 h with h | h
      · exact .inl h
      · exact .inr (List.mem_cons_of_mem _ h)
    · rcases List.mem_cons.1 h with h | h
      · exact .inr (h ▸ List.mem_cons_self _ _)
      · rcases ih h with h | h
        · exact .inl h
        · exact .inr (List.mem_cons_of_mem _ h)

theorem sorted_insertEntry (k : XattrKey) (r : RawRecord) {es : List (XattrKey × RawRecord)}
    (h : es.Pairwise fun a b => a.1 < b.1) : (insertEntry k r es).Pairwise fun a b => a.1 < b.1 := by
  induction es with
  | nil => simp [insertEntry]
  | cons e es ih =>
    rw [List.pairwise_cons] at h
    simp only [insertEntry]
    split_ifs with hlt heq
    · exact List.Pairwise.cons (fun y hy => by
        rcases List.mem_cons.1 hy with rfl | hy
        · exact hlt
        · exact lt_trans hlt (h.1 y hy)) (List.Pairwise.cons h.1 h.2)
    · exact List.Pairwise.cons (fun y hy => heq ▸ h.1 y hy) h.2
    · have hgt : e.1 < k := lt_of_le_of_ne (not_lt.1 hlt) (Ne.symm heq)
      exact List.Pairwise.cons (fun y hy => by
        rcases mem_insertEntry hy with rfl | hy
        · exact hgt
        · exact h.1 y hy) (ih h.2)

/-- `apfs_btree_insert` at the place a failed exact query for `k` left the cursor. -/
def insert (c : Catalog) (k : XattrKey) (r : RawRecord) : Catalog :=
  ⟨insertEntry k r c.entries, sorted_insertEntry k r c.sorted⟩

/-- `apfs_btree_replace` of the record an exact query for `k` found. -/
def replace (c : Catalog) (k : XattrKey) (r : RawRecord) : Catalog :=
  ⟨c.entries.map fun e => if e.1 = k then (e.1, r) else e, by
    rw [List.pairwise_map]
    exact c.sorted.imp fun {a b} h => by split_ifs <;> exact h⟩

/-- `apfs_btree_remove` of the record found under `k`. -/
def erase (c : Catalog) (k : XattrKey) : Catalog :=
  ⟨c.entries.filter fun e => e.1 != k, c.sorted.filter _⟩

theorem lookup_cons (e : XattrKey × RawRecord) (es : List (XattrKey × RawRecord)) (k : XattrKey) :
    (e :: es).lookup k = if k = e.1 then some e.2 else es.lookup k := by
  obtain ⟨k', r'⟩ := e
  by_cases h : k = k'
  · subst h; simp
  · have hb : (k == k') = false := by simpa using h
    simp only [List.lookup_cons, hb, h, ↓reduceIte]

theorem lookup_insertEntry (k : XattrKey) (r : RawRecord) (es : List (XattrKey × RawRecord))
    (k' : XattrKey) : (insertEntry k r es).lookup k' = if k' = k then some r else es.lookup k' := by
  induction es with
  | nil => simp [insertEntry, lookup_cons]
  | cons e es ih =>
    simp only [insertEntry]
    split_ifs with h1 h2 h3 h4 h5 <;> simp_all [lookup_cons]

@[simp]
theorem lookup_insert (c : Catalog) (k : XattrKey) (r : RawRecord) (k' : XattrKey) :
    (c.insert k r).lookup k' = if k' = k then some r else c.lookup k' :=
  lookup_insertEntry k r c.entries k'

@[simp]
theorem lookup_replace (c : Catalog) (k : XattrKey) (r : RawRecord) (k' : XattrKey) :
    (c.replace k r).lookup k' = if k' = k then (c.lookup k).map fun _ => r else c.lookup k' := by
  simp only [replace, lookup]
  induction c.entries with
  | nil => simp
  | cons e es ih =>
    simp only [List.map_cons, lookup_cons]
    split_ifs at ih ⊢ <;> simp_all

theorem lookup_filter_ne (es : List (XattrKey × RawRecord)) (k k' : XattrKey) :
    (es.filter fun e => e.1 != k).lookup k' = if k' = k then none else es.lookup k' := by
  induction es with
  | nil => simp
  | cons e es ih =>
    by_cases he : e.1 = k
    · rw [List.filter_cons_of_neg (by simp [he]), ih, lookup_cons]
      by_cases hk : k' = k <;> simp [hk, he]
    · rw [List.filter_cons_of_pos (by simpa using he), lookup_cons, lookup_cons, ih]
      by_cases hk : k' = k
      · subst hk; simp [Ne.symm he]
      · simp [hk]

@[simp]
theorem lookup_erase (c : Catalog) (k k' : XattrKey) :
    (c.erase k).lookup k' = if k' = k then none else c.lookup k' :=
  lookup_filter_ne c.entries k k'

/-! ## Records of one owner -/

theorem firstOf_eq_none {c : Catalog} {owner : Nat} :
    c.firstOf owner = none ↔ c.recordsOf owner = [] := by
  simp [firstOf, recordsOf, List.find?_eq_none, List.filter_eq_nil_iff]

/-- A record stored under `k` is among the records of `k`'s owner. -/
theorem mem_recordsOf_of_lookup {c : Catalog} {k : XattrKey} {r : RawRecord}
    (h : c.lookup k = some r) : r ∈ c.recordsOf k.owner := by
  simp only [lookup, recordsOf] at h ⊢
  generalize c.entries = es at h ⊢
  induction es with
  | nil => cases h
  | cons e es ih =>
    rw [lookup_cons] at h
    by_cases hk : k = e.1
    · rw [if_pos hk] at h
      cases h
      simp [hk]
    · rw [if_neg hk] at h
      by_cases ho : e.1.owner = k.owner <;> simp [List.filter_cons, ho, ih h]

/-- The record a query for any name of `owner` finds is the first of the owner's records, and
it is stored under its key. -/
theorem firstOf_eq_some {c : Catalog} {owner : Nat} {k : XattrKey} {r : RawRecord}
    (h : c.firstOf owner = some (k, r)) :
    k.owner = owner ∧ c.lookup k = some r ∧ c.recordsOf owner = r :: (c.erase k).recordsOf owner := by
  obtain ⟨es, hs⟩ := c
  simp only [firstOf, recordsOf, lookup, erase] at h ⊢
  induction es with
  | nil => simp at h
  | cons e es ih =>
    obtain ⟨k', r'⟩ := e
    rw [List.pairwise_cons] at hs
    by_cases ho : k'.owner = owner
    · simp only [List.find?_cons, ho, beq_self_eq_true, Option.some.injEq, Prod.mk.injEq] at h
      obtain ⟨rfl, rfl⟩ := h
      have hrest : (es.filter fun e => e.1 != k') = es :=
        List.filter_eq_self.2 fun y hy => by simpa using (hs.1 y hy).ne'
      simp [List.filter_cons, ho, lookup_cons, hrest]
    · have hb : (k'.owner == owner) = false := by simpa using ho
      simp only [List.find?_cons, hb] at h
      obtain ⟨hko, hl, hr⟩ := ih hs.2 h
      have hne : k' ≠ k := fun h' => ho (h' ▸ hko)
      refine ⟨hko, by simp [lookup_cons, Ne.symm hne, hl], ?_⟩
      simpa [List.filter_cons, ho, hne] using hr

/-- An owner with records has a first one. -/
theorem exists_firstOf {c : Catalog} {owner : Nat} (h : c.recordsOf owner ≠ []) :
    ∃ k r, c.firstOf owner = some (k, r) := by
  cases hf : c.firstOf owner with
  | none => exact absurd (firstOf_eq_none.1 hf) h
  | some e => exact ⟨e.1, e.2, rfl⟩

/-- Keys are unique, so every entry is what a lookup of its key finds. -/
theorem lookup_of_mem {c : Catalog} {e : XattrKey × RawRecord} (h : e ∈ c.entries) :
    c.lookup e.1 = some e.2 := by
  obtain ⟨es, hs⟩ := c
  simp only [lookup] at h ⊢
  induction es with
  | nil => cases h
  | cons e' es ih =>
    rw [List.pairwise_cons] at hs
    rw [lookup_cons]
    rcases List.mem_cons.1 h with rfl | h
    · simp
    · rw [if_neg (hs.1 e h).ne', ih hs.2 h]

theorem mem_of_lookup {c : Catalog} {k : XattrKey} {r : RawRecord} (h : c.lookup k = some r) :
    (k, r) ∈ c.entries := by
  obtain ⟨l₁, l₂, hl, -⟩ := List.lookup_eq_some_iff.1 h
  rw [hl]
  exact List.mem_append_right _ (List.mem_cons_self _ _)

/-- The records of an owner are the ones stored under its keys. -/
theorem mem_recordsOf_iff {c : Catalog} {owner : Nat} {r : RawRecord} :
    r ∈ c.recordsOf owner ↔ ∃ k : XattrKey, k.owner = owner ∧ c.lookup k = some r := by
  constructor
  · intro h
    simp only [recordsOf, List.mem_map, List.mem_filter, beq_iff_eq] at h
    obtain ⟨e, ⟨he, ho⟩, rfl⟩ := h
    exact ⟨e.1, ho, lookup_of_mem he⟩
  · rintro ⟨k, rfl, hk⟩
    exact mem_recordsOf_of_lookup hk

/-- An owner without records has nothing under any of its keys. -/
theorem lookup_eq_none_of_recordsOf {c : Catalog} {k : XattrKey} (h : c.recordsOf k.owner = []) :
    c.lookup k = none :=
  Option.eq_none_iff_forall_not_mem.2 fun r hr => by
    simpa [h] using mem_recordsOf_of_lookup hr

end Catalog

end Apfs
