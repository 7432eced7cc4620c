import FortranLayout.Proofs.Toml.Paths
import FortranLayout.Settings.Load

/-!
# Documents have no key twice

A key of a table is written once: each way of defining one first looks whether it is there. Hence no
table of a document that was read has a key twice, and neither has one in which dates have taken the
place of tables (`Settings.distinctKeys_fieldsToMerge?`).
-/

namespace FortranLayout

namespace Toml

variable {entries changed : Entries} {key : String} {item : Item} {d : Data} {origin : Origin}

/-! ## Changes to the entries of a table -/

/-- No table of the entries has a key twice. -/
def Distinct (entries : Entries) : Prop := (Data.table (entriesToData entries)).DistinctKeys

theorem entriesToData_eq (entries : Entries) :
    entriesToData entries = entries.map fun entry => (entry.1, entry.2.toData) := by
  induction entries with
  | nil => rfl
  | cons entry entries ih =>
    rw [entriesToData, ih]
    rfl

theorem distinct_iff :
    Distinct entries ↔
      (entries.map Prod.fst).Nodup ∧ ∀ entry ∈ entries, entry.2.toData.DistinctKeys := by
  rw [Distinct, Data.distinctKeys_table_iff, entriesToData_eq, List.map_map, List.forall_mem_map]
  rfl

theorem distinct_nil : Distinct [] := .table List.nodup_nil fun _ h => nomatch h

/-- An array holds no table that a path leads through. -/
theorem distinctKeys_tables (items : List Entries) : (Item.tables items).toData.DistinctKeys := by
  rw [Item.toData]
  exact .other rfl

theorem distinctKeys_table (h : Distinct entries) :
    (Item.table origin entries).toData.DistinctKeys := by
  rw [Item.toData]
  exact h

theorem distinctKeys_of_lookup (h : Distinct entries) (hlookup : entries.lookup key = some item) :
    item.toData.DistinctKeys :=
  (distinct_iff.mp h).2 _ (mem_of_lookup hlookup)

theorem distinct_of_lookup (h : Distinct entries) {below : Entries}
    (hlookup : entries.lookup key = some (.table origin below)) : Distinct below := by
  have hbelow := distinctKeys_of_lookup h hlookup
  rwa [Item.toData] at hbelow

theorem Distinct.append (h : Distinct entries) (hkey : key ∉ entries.map Prod.fst)
    (hitem : item.toData.DistinctKeys) : Distinct (entries ++ [(key, item)]) := by
  obtain ⟨hkeys, hitems⟩ := distinct_iff.mp h
  refine distinct_iff.mpr
    ⟨?_, List.forall_mem_append.mpr ⟨hitems, List.forall_mem_singleton.mpr hitem⟩⟩
  rw [List.map_append, List.map_singleton, List.nodup_append]
  refine ⟨hkeys, List.nodup_cons.mpr ⟨List.not_mem_nil, List.nodup_nil⟩,
    fun k hk k' hk' he => hkey ?_⟩
  obtain rfl := List.mem_singleton.mp hk'
  exact he ▸ hk

theorem Distinct.append_new (h : Distinct entries) (hkey : entries.lookup key = none)
    (hitem : item.toData.DistinctKeys) : Distinct (entries ++ [(key, item)]) := by
  refine h.append (fun hmem => ?_) hitem
  obtain ⟨entry, hentry, rfl⟩ := List.mem_map.mp hmem
  exact bne_iff_ne.mp (List.lookup_eq_none_iff.mp hkey entry hentry) rfl

theorem Distinct.replace (h : Distinct entries) (hitem : item.toData.DistinctKeys) :
    Distinct (replace entries key item) := by
  obtain ⟨hkeys, hitems⟩ := distinct_iff.mp h
  have hfst : (Toml.replace entries key item).map Prod.fst = entries.map Prod.fst := by
    rw [Toml.replace, List.map_map]
    refine List.map_congr_left fun (k, i) _ => ?_
    rw [Function.comp_apply]
    by_cases hk : k == key <;> simp only [hk, if_true, Bool.false_eq_true, if_false]
  refine distinct_iff.mpr ⟨hfst ▸ hkeys, List.forall_mem_map.mpr fun (k, i) hentry => ?_⟩
  by_cases hk : k == key <;> simp only [hk, if_true, Bool.false_eq_true, if_false]
  · exact hitem
  · exact hitems _ hentry

theorem Distinct.replaceLast (h : Distinct entries) (hitem : item.toData.DistinctKeys) :
    Distinct (replaceLast entries key item) := by
  obtain ⟨hkeys, hitems⟩ := distinct_iff.mp h
  refine Distinct.append (distinct_iff.mpr ⟨?_, fun entry hentry => ?_⟩) (fun hmem => ?_) hitem
  · exact hkeys.sublist (List.filter_sublist.map Prod.fst)
  · exact hitems entry (List.mem_filter.mp hentry).1
  · obtain ⟨entry, hentry, rfl⟩ := List.mem_map.mp hmem
    exact bne_iff_ne.mp (List.mem_filter.mp hentry).2 rfl

/-- A change keeps the keys distinct where they were. -/
def KeepsDistinct (change : Origin → Entries → Option Entries) : Prop :=
  ∀ origin entries changed, Distinct entries → change origin entries = some changed →
    Distinct changed

theorem KeepsDistinct.changeAt {change : Origin → Entries → Option Entries}
    (hchange : KeepsDistinct change)
    (via : Origin) (path : List String) : KeepsDistinct (changeAt via change path) := by
  induction path with
  | nil => exact hchange
  | cons key path ih =>
    intro origin entries changed h happly
    rw [Toml.changeAt] at happly
    split at happly
    · rename_i hlookup
      obtain ⟨below, hbelow, rfl⟩ := Option.map_eq_some_iff.mp happly
      exact h.append_new hlookup (distinctKeys_table (ih _ _ _ distinct_nil hbelow))
    · cases happly
    · rename_i hlookup
      split at happly
      · cases happly
      · obtain ⟨below, hbelow, rfl⟩ := Option.map_eq_some_iff.mp happly
        exact h.replace (distinctKeys_table (ih _ _ _ (distinct_of_lookup h hlookup) hbelow))
    · split at happly
      · cases happly
      · obtain ⟨last, -, rfl⟩ := Option.map_eq_some_iff.mp happly
        exact h.replace (distinctKeys_tables _)

/-! ## Definitions and headers -/

theorem keepsDistinct_define (isDotted : Bool) (key : String) (hd : d.DistinctKeys) :
    KeepsDistinct (define isDotted key d) := by
  intro origin entries changed h happly
  rw [define] at happly
  split at happly
  · cases happly
  · rename_i hnew
    rw [Bool.or_eq_true, not_or, Bool.not_eq_true, Bool.not_eq_true, Option.isSome_eq_false_iff,
      Option.isNone_iff_eq_none] at hnew
    obtain rfl := Option.some.inj happly
    exact h.append_new hnew.2 (by rwa [Item.toData])

theorem keepsDistinct_defineKey (key : List String) (hd : d.DistinctKeys) :
    KeepsDistinct (defineKey key d) := by
  intro origin entries changed h happly
  rw [defineKey] at happly
  split at happly
  · cases happly
  · exact (keepsDistinct_define _ _ hd).changeAt _ _ _ _ _ h happly

theorem distinct_openTable {path : List String} {root opened : Entries} (h : Distinct root)
    (happly : openTable path root = some opened) : Distinct opened := by
  rw [openTable] at happly
  split at happly
  · cases happly
  · refine KeepsDistinct.changeAt (fun origin entries changed h happly => ?_) _ _ _ _ _ h happly
    split at happly
    · obtain rfl := Option.some.inj happly
      exact h.append_new ‹_› (distinctKeys_table distinct_nil)
    · obtain rfl := Option.some.inj happly
      exact h.replaceLast (distinctKeys_table (distinct_of_lookup h ‹_›))
    · cases happly

theorem distinct_openArrayTable {path : List String} {root opened : Entries} (h : Distinct root)
    (happly : openArrayTable path root = some opened) : Distinct opened := by
  rw [openArrayTable] at happly
  split at happly
  · cases happly
  · refine KeepsDistinct.changeAt (fun origin entries changed h happly => ?_) _ _ _ _ _ h happly
    split at happly
    · obtain rfl := Option.some.inj happly
      exact h.append_new ‹_› (distinctKeys_tables _)
    · obtain rfl := Option.some.inj happly
      exact h.replace (distinctKeys_tables _)
    · cases happly

/-! ## Values -/

section Scalars

variable {s rest : List Char}

theorem isTable_integerOf? {negative : Bool} {magnitude : Nat}
    (h : integerOf? negative magnitude = some d) :
    d.isTable = false := by
  obtain ⟨-, h⟩ := Option.ite_none_right_eq_some.mp h
  obtain rfl := Option.some.inj h
  rfl

theorem isTable_decimal? {negative : Bool} (h : decimal? negative s = some d) :
    d.isTable = false := by
  unfold decimal? at h
  split at h
  · obtain rfl := Option.some.inj h
    rfl
  · obtain ⟨whole, -, h⟩ := Option.bind_eq_some_iff.mp h
    dsimp only at h
    split at h
    · exact isTable_integerOf? h
    · obtain ⟨fraction, -, h⟩ := Option.bind_eq_some_iff.mp h
      split at h
      · cases h
      · obtain rfl := Option.some.inj h
        rfl

theorem isTable_basedInteger? {base : Nat} (h : basedInteger? base s = some d) :
    d.isTable = false := by
  obtain ⟨digits, -, h⟩ := Option.bind_eq_some_iff.mp h
  exact isTable_integerOf? h

theorem isTable_number? (h : number? s = some d) : d.isTable = false := by
  unfold number? at h
  split at h
  · exact isTable_basedInteger? h
  · exact isTable_basedInteger? h
  · exact isTable_basedInteger? h
  · exact isTable_decimal? h
  · exact isTable_decimal? h
  · exact isTable_decimal? h

theorem isTable_dateTime? (h : dateTime? s = some d) : d.isTable = false := by
  unfold dateTime? at h
  split at h
  · obtain rfl := Option.some.inj h
    rfl
  · dsimp only at h
    split at h
    · cases h
    · obtain ⟨time, -, h⟩ := Option.bind_eq_some_iff.mp h
      obtain ⟨offset, -, h⟩ := Option.bind_eq_some_iff.mp h
      obtain rfl := Option.some.inj h
      rfl
  · split at h
    · obtain rfl := Option.some.inj h
      rfl
    · cases h

theorem isTable_scalarOf? (h : scalarOf? s = some d) : d.isTable = false := by
  unfold scalarOf? at h
  split at h
  · obtain rfl := Option.some.inj h
    rfl
  · split at h
    · obtain rfl := Option.some.inj h
      rfl
    · split at h
      · obtain rfl := Option.some.inj h
        exact isTable_dateTime? ‹_›
      · exact isTable_number? h

theorem isTable_scalar? (h : scalar? s = some (d, rest)) : d.isTable = false := by
  obtain ⟨scalar, hscalar, he⟩ := Option.map_eq_some_iff.mp h
  obtain ⟨rfl, -⟩ := Prod.mk.inj he
  exact isTable_scalarOf? hscalar

end Scalars

theorem isTable_itemsWithin {levels fuel : Nat} {read : List Data} {s rest : List Char}
    (h : itemsWithin levels fuel read s = some (d, rest)) : d.isTable = false := by
  induction fuel generalizing read s with
  | zero => cases h
  | succ fuel ih =>
    rw [itemsWithin] at h
    split at h
    · cases h
    · cases h
      rfl
    · split at h
      · cases h
      · split at h
        · exact ih h
        · cases h
          rfl
        · cases h

/-- Both readings use only fuel that is left, so they are followed together. -/
theorem distinctKeys_valueWithin_fieldsWithin (fuel : Nat) :
    (∀ levels s d rest, valueWithin levels fuel s = some (d, rest) → d.DistinctKeys) ∧
      ∀ levels read s d rest, Distinct read → fieldsWithin levels fuel read s = some (d, rest) →
        d.DistinctKeys := by
  induction fuel with
  | zero => exact ⟨(fun _ _ _ _ h => nomatch h), fun _ _ _ _ _ _ h => nomatch h⟩
  | succ fuel ih =>
    obtain ⟨ihvalue, ihfields⟩ := ih
    constructor
    · intro levels s d rest h
      rw [valueWithin.eq_def] at h
      dsimp only at h
      split at h
      · split at h
        · cases h
        · exact .other (isTable_itemsWithin h)
      · split at h
        · cases h
        · split at h
          · cases h
            exact distinct_nil
          · exact ihfields _ _ _ _ _ distinct_nil h
      · split at h
        · cases h
          exact .other rfl
        · exact .other (isTable_scalar? h)
    · intro levels read s d rest hread h
      rw [fieldsWithin] at h
      split at h
      · split at h
        · cases h
        · rename_i hvalue
          split at h
          · cases h
          · rename_i hdefine
            have hread := keepsDistinct_defineKey _ (ihvalue _ _ _ _ hvalue) _ _ _ hread hdefine
            split at h
            · exact ihfields _ _ _ _ _ hread h
            · cases h
              exact hread
            · cases h
      · cases h

theorem distinctKeys_value? {s rest : List Char} (h : value? s = some (d, rest)) : d.DistinctKeys :=
  (distinctKeys_valueWithin_fieldsWithin _).1 _ _ _ _ h

/-! ## Documents -/

section Documents

variable {r read : Reader} {s rest : List Char}

theorem Reader.distinct_define {key : List String} (h : Distinct r.root) (hd : d.DistinctKeys)
    (hread : r.define key d = some read) : Distinct read.root := by
  obtain ⟨root, hroot, rfl⟩ := Option.map_eq_some_iff.mp hread
  exact (keepsDistinct_defineKey key hd).changeAt _ _ _ _ _ h hroot

theorem distinct_header? (h : Distinct r.root) (hread : header? r s = some (read, rest)) :
    Distinct read.root := by
  unfold header? at hread
  split at hread
  · split at hread
    · obtain ⟨root, hroot, hread⟩ := Option.bind_eq_some_iff.mp hread
      cases hread
      exact distinct_openArrayTable h hroot
    · cases hread
  · split at hread
    · obtain ⟨root, hroot, hread⟩ := Option.bind_eq_some_iff.mp hread
      cases hread
      exact distinct_openTable h hroot
    · cases hread

theorem distinct_line? (h : Distinct r.root) (hread : line? r s = some (read, rest)) :
    Distinct read.root := by
  unfold line? at hread
  split at hread
  · cases hread
    exact h
  · cases hread
    exact h
  · exact distinct_header? h hread
  · split at hread
    · cases hread
      exact h
    · split at hread
      · obtain ⟨⟨d, rest⟩, hvalue, hread⟩ := Option.bind_eq_some_iff.mp hread
        obtain ⟨r, hdefine, hread⟩ := Option.bind_eq_some_iff.mp hread
        cases hread
        exact Reader.distinct_define h (distinctKeys_value? hvalue) hdefine
      · cases hread

theorem distinct_linesWithin {fuel : Nat} (h : Distinct r.root)
    (hread : linesWithin fuel r s = some read) :
    Distinct read.root := by
  induction fuel generalizing r s with
  | zero =>
    cases hread
    exact h
  | succ fuel ih =>
    rw [linesWithin] at hread
    split at hread
    · cases hread
      exact h
    · split at hread
      · cases hread
      · rename_i hline
        split at hread
        · cases hread
        · exact ih (distinct_line? h hline) hread

theorem distinctKeys_parse {text : String} {fields : List (String × Data)}
    (h : parse text = some fields) :
    (Data.table fields).DistinctKeys := by
  obtain ⟨r, hread, rfl⟩ := Option.map_eq_some_iff.mp h
  exact distinct_linesWithin distinct_nil hread

end Documents

/-! ## Dates in place of tables -/

section Dates

variable {fields resolved : List (String × Data)}

theorem isTable_dateOf? (h : dateOf? fields = some d) : d.isTable = false := by
  unfold dateOf? at h
  split at h
  · exact isTable_dateTime? h
  · cases h

theorem resolveFields?_cons {key : String}
    (h : resolveFields? ((key, d) :: fields) = some resolved) :
    ∃ v values, resolveDates? d = some v ∧ resolveFields? fields = some values ∧
      resolved = (key, v) :: values := by
  rw [resolveFields?] at h
  split at h
  · cases h
    exact ⟨_, _, ‹_›, ‹_›, rfl⟩
  · cases h

/-- The keys stay, and below each of them dates take the place of tables. -/
theorem keys_resolveFields? (h : resolveFields? fields = some resolved) :
    resolved.map Prod.fst = fields.map Prod.fst ∧
      ∀ field ∈ resolved, ∃ below ∈ fields, resolveDates? below.2 = some field.2 := by
  induction fields generalizing resolved with
  | nil =>
    cases h
    exact ⟨rfl, fun _ hmem => nomatch hmem⟩
  | cons field fields ih =>
    obtain ⟨v, values, hv, hvalues, rfl⟩ := resolveFields?_cons h
    obtain ⟨hkeys, hbelow⟩ := ih hvalues
    refine ⟨congrArg (field.1 :: ·) hkeys,
      List.forall_mem_cons.mpr ⟨⟨field, List.mem_cons_self, hv⟩, ?_⟩⟩
    intro value hvalue
    obtain ⟨below, hmem, hresolve⟩ := hbelow value hvalue
    exact ⟨below, List.mem_cons_of_mem field hmem, hresolve⟩

theorem isTable_resolveDates? {v : Data} (hd : d.isTable = false) (h : resolveDates? d = some v) :
    v.isTable = false := by
  cases d with
  | table fields => cases hd
  | array items =>
    rw [resolveDates?] at h
    obtain ⟨items, -, rfl⟩ := Option.map_eq_some_iff.mp h
    rfl
  | _ =>
    cases h
    rfl

theorem distinctKeys_of_resolveFields? (keys : (fields.map Prod.fst).Nodup)
    (values : ∀ field ∈ fields, ∀ v, resolveDates? field.2 = some v → v.DistinctKeys)
    (h : resolveFields? fields = some resolved) : (Data.table resolved).DistinctKeys := by
  obtain ⟨hkeys, hbelow⟩ := keys_resolveFields? h
  refine .table (hkeys ▸ keys) fun field hfield => ?_
  obtain ⟨below, hmem, hresolve⟩ := hbelow field hfield
  exact values below hmem _ hresolve

theorem distinctKeys_resolveDates? {v : Data} (hd : d.DistinctKeys) (h : resolveDates? d = some v) :
    v.DistinctKeys := by
  induction hd generalizing v with
  | other hd => exact .other (isTable_resolveDates? hd h)
  | @table fields keys values ih =>
    rw [resolveDates?] at h
    split at h
    · exact .other (isTable_dateOf? h)
    · obtain ⟨resolved, hresolved, rfl⟩ := Option.map_eq_some_iff.mp h
      exact distinctKeys_of_resolveFields? keys (fun field hfield _ => ih field hfield) hresolved

end Dates

end Toml

/-- A document that is merged with others has no key twice. -/
theorem Settings.distinctKeys_fieldsToMerge? {text : String} {fields : List (String × Data)}
    (h : Settings.fieldsToMerge? text = some fields) : (Data.table fields).DistinctKeys := by
  obtain ⟨parsed, hparse, hresolve⟩ := Option.bind_eq_some_iff.mp h
  obtain ⟨keys, values⟩ := Data.distinctKeys_table_iff.mp (Toml.distinctKeys_parse hparse)
  exact Toml.distinctKeys_of_resolveFields? keys
    (fun field hfield _ => Toml.distinctKeys_resolveDates? (values field hfield)) hresolve

end FortranLayout
