import FortranLayout.Toml.Merge

/-!
# Merged tables along key paths

What a document says is read along key paths: `Data.at?` is what stands at the end of a path, and
`Data.valueAt?` is that unless it is a table. A document is *silent* about a path if it has nothing
there and no value on the way.

Laying one table over another keeps the values below at the paths about which the overlay is silent,
and everywhere else the values are those of the overlay (`Toml.at?_mergeValue`,
`Toml.valueAt?_mergeValue`).
-/

namespace FortranLayout

namespace Data

/-- Whether the value is a table. -/
def isTable : Data → Bool
  | table _ => true
  | _ => false

/-- What stands at the end of a path of keys. -/
def at? : List String → Data → Option Data
  | [], d => some d
  | key :: path, table fields => (fields.lookup key).bind (at? path)
  | _ :: _, _ => none

/-- The value at the end of a path of keys, unless it is a table. -/
def valueAt? (path : List String) (d : Data) : Option Data := (d.at? path).filter (!·.isTable)

/-- The document has nothing at the path, and on the way to it tables only. -/
def Silent (d : Data) (path : List String) : Prop :=
  d.at? path = none ∧ ∀ front, front <+: path → front ≠ path → d.valueAt? front = none

/-- No table that a path leads through has a key twice. -/
inductive DistinctKeys : Data → Prop
  | table {fields : List (String × Data)} (keys : (fields.map Prod.fst).Nodup)
      (values : ∀ field ∈ fields, DistinctKeys field.2) : DistinctKeys (.table fields)
  | other {d : Data} (h : d.isTable = false) : DistinctKeys d

theorem distinctKeys_table_iff {fields : List (String × Data)} :
    (table fields).DistinctKeys ↔
      (fields.map Prod.fst).Nodup ∧ ∀ field ∈ fields, field.2.DistinctKeys := by
  refine ⟨fun h => ?_, fun h => .table h.1 h.2⟩
  cases h with
  | table keys values => exact ⟨keys, values⟩
  | other h => cases h

variable {d v : Data} {fields : List (String × Data)} {key : String} {path front : List String}

theorem eq_table_of_isTable (h : d.isTable = true) : ∃ fields, d = .table fields := by
  cases d with
  | table fields => exact ⟨fields, rfl⟩
  | _ => cases h

@[simp] theorem at?_nil (d : Data) : d.at? [] = some d := by
  cases d <;> rfl

theorem at?_cons_table (fields : List (String × Data)) (key : String) (path : List String) :
    (table fields).at? (key :: path) = (fields.lookup key).bind (at? path) := rfl

theorem at?_cons_of_not_table (h : d.isTable = false) (key : String) (path : List String) :
    d.at? (key :: path) = none := by
  cases d with
  | table fields => cases h
  | _ => rfl

theorem valueAt?_nil_of_not_table (h : d.isTable = false) : d.valueAt? [] = some d := by
  rw [valueAt?, at?_nil, Option.filter_some, h]
  rfl

theorem valueAt?_cons_table (fields : List (String × Data)) (key : String) (path : List String) :
    (table fields).valueAt? (key :: path) = (fields.lookup key).bind (valueAt? path) := by
  rw [valueAt?, at?_cons_table]
  cases fields.lookup key <;> rfl

theorem valueAt?_eq_some : d.valueAt? path = some v ↔ d.at? path = some v ∧ v.isTable = false := by
  rw [valueAt?, Option.filter_eq_some_iff, Bool.not_eq_true']

/-- On the way to anything there are tables only. -/
theorem isTable_of_at? (h : d.at? path = some v) (hfront : front <+: path) (hne : front ≠ path) :
    ∃ u, d.at? front = some u ∧ u.isTable = true := by
  induction front generalizing d path with
  | nil =>
    refine ⟨d, at?_nil d, ?_⟩
    cases path with
    | nil => exact absurd rfl hne
    | cons key path =>
      refine (Bool.not_eq_false _).mp fun hd => ?_
      rw [at?_cons_of_not_table hd] at h
      cases h
  | cons key front ih =>
    obtain ⟨rest, rfl⟩ := hfront
    cases hd : d.isTable with
    | false =>
      rw [List.cons_append, at?_cons_of_not_table hd] at h
      cases h
    | true =>
      obtain ⟨fields, rfl⟩ := eq_table_of_isTable hd
      rw [List.cons_append, at?_cons_table] at h
      obtain ⟨below, hbelow, h⟩ := Option.bind_eq_some_iff.mp h
      obtain ⟨u, hu, htable⟩ :=
        ih h (List.prefix_append front rest) fun he => hne (by rw [List.cons_append, ← he])
      exact ⟨u, by rw [at?_cons_table, hbelow]; exact hu, htable⟩

/-! ## Silence -/

theorem not_silent_nil (d : Data) : ¬ d.Silent [] := by
  rintro ⟨hnone, -⟩
  rw [at?_nil] at hnone
  cases hnone

/-- A value that is no table decides all paths that begin with its own. -/
theorem not_silent_of_not_table (h : d.isTable = false) (path : List String) : ¬ d.Silent path := by
  cases path with
  | nil => exact not_silent_nil d
  | cons key path =>
    rintro ⟨-, hfront⟩
    have hnone := hfront [] List.nil_prefix (List.cons_ne_nil key path).symm
    rw [valueAt?_nil_of_not_table h] at hnone
    cases hnone

theorem silent_cons_table :
    (table fields).Silent (key :: path) ↔ ∀ d, fields.lookup key = some d → d.Silent path := by
  constructor
  · rintro ⟨hnone, hfront⟩ d hd
    rw [at?_cons_table, hd] at hnone
    refine ⟨hnone, fun front hprefix hne => ?_⟩
    have hvalue := hfront (key :: front) ((List.prefix_cons_inj key).mpr hprefix) fun he =>
      hne (List.cons.inj he).2
    rwa [valueAt?_cons_table, hd] at hvalue
  · intro h
    refine ⟨?_, fun front hprefix hne => ?_⟩
    · rw [at?_cons_table]
      cases hd : fields.lookup key with
      | none => rfl
      | some d => exact (h d hd).1
    · rcases List.prefix_cons_iff.mp hprefix with rfl | ⟨front, rfl, hprefix⟩
      · rfl
      · rw [valueAt?_cons_table]
        cases hd : fields.lookup key with
        | none => rfl
        | some d =>
          exact (h d hd).2 front ((List.prefix_cons_inj key).mp hprefix) fun he => hne (by rw [he])

end Data

namespace Toml

variable {base overlay : List (String × Data)} {key : String} {d : Data}

/-! ## Looking up a key -/

theorem lookup_cons_eq (k key : String) (d : Data) (fields : List (String × Data)) :
    ((key, d) :: fields).lookup k = if k = key then some d else fields.lookup k := by
  rw [List.lookup_cons]
  by_cases hk : k = key
  · rw [beq_iff_eq.mpr hk, if_pos hk]
  · rw [beq_eq_false_iff_ne.mpr hk, if_neg hk]

theorem lookup_setKey (key : String) (d : Data) (fields : List (String × Data)) (k : String) :
    (setKey key d fields).lookup k = if k = key then some d else fields.lookup k := by
  induction fields with
  | nil => rw [setKey, lookup_cons_eq]
  | cons field fields ih =>
    obtain ⟨k', v⟩ := field
    rw [setKey]
    by_cases hk' : k' = key
    · subst hk'
      rw [if_pos rfl, lookup_cons_eq, lookup_cons_eq]
      by_cases hk : k = k' <;> simp only [hk, if_true, if_false]
    · rw [if_neg hk', lookup_cons_eq, lookup_cons_eq, ih]
      by_cases hk : k = k'
      · subst hk
        rw [if_pos rfl, if_neg hk', if_pos rfl]
      · rw [if_neg hk, if_neg hk]

theorem mem_of_lookup {α : Type} {pairs : List (String × α)} {a : α}
    (h : pairs.lookup key = some a) :
    (key, a) ∈ pairs := by
  obtain ⟨front, back, rfl, -⟩ := List.lookup_eq_some_iff.mp h
  exact List.mem_append_right front List.mem_cons_self

theorem lookup_eq_none_of_not_mem {fields : List (String × Data)} (h : key ∉ fields.map Prod.fst) :
    fields.lookup key = none := by
  cases hlookup : fields.lookup key with
  | none => rfl
  | some d => exact absurd (List.mem_map_of_mem (mem_of_lookup hlookup)) h

/-- Under each key the overlay is laid over what was there. -/
theorem lookup_mergeTables (hkeys : (overlay.map Prod.fst).Nodup) (key : String) :
    (mergeTables base overlay).lookup key =
      match overlay.lookup key with
      | some d => some (mergeValue (base.lookup key) d)
      | none => base.lookup key := by
  induction overlay generalizing base with
  | nil => rw [mergeTables, List.lookup_nil]
  | cons field overlay ih =>
    obtain ⟨k, d⟩ := field
    rw [List.map_cons, List.nodup_cons] at hkeys
    rw [mergeTables, ih hkeys.2, lookup_cons_eq, lookup_setKey]
    by_cases hk : key = k
    · subst hk
      rw [lookup_eq_none_of_not_mem hkeys.1, if_pos rfl, if_pos rfl]
    · rw [if_neg hk, if_neg hk]

/-! ## Looking along a path -/

theorem mergeValue_of_not_table (b : Option Data) (h : d.isTable = false) : mergeValue b d = d := by
  cases d with
  | table overlay => cases h
  | _ => rfl

/-- Over anything else than a table, an overlay stands as it is. -/
theorem mergeValue_of_ne_table {b : Option Data} (h : ∀ base, b ≠ some (.table base)) :
    mergeValue b d = d := by
  cases hd : d.isTable with
  | false => exact mergeValue_of_not_table b hd
  | true =>
    obtain ⟨overlay, rfl⟩ := Data.eq_table_of_isTable hd
    cases b with
    | none => rfl
    | some b =>
      cases b with
      | table base => exact absurd rfl (h base)
      | _ => rfl

theorem mergeValue_tables (base overlay : List (String × Data)) :
    mergeValue (some (.table base)) (.table overlay) = .table (mergeTables base overlay) := rfl

theorem bind_at?_of_ne_table {b : Option Data} (h : ∀ base, b ≠ some (.table base)) (key : String)
    (path : List String) : b.bind (Data.at? (key :: path)) = none := by
  cases b with
  | none => rfl
  | some b =>
    cases hb : b.isTable with
    | false => exact Data.at?_cons_of_not_table hb key path
    | true =>
      obtain ⟨base, rfl⟩ := Data.eq_table_of_isTable hb
      exact absurd rfl (h base)

/-- Where the overlay is silent, everything stays as it was below it. -/
theorem at?_mergeValue {b : Option Data} {path : List String} (hd : d.DistinctKeys)
    (h : d.Silent path) :
    (mergeValue b d).at? path = b.bind (Data.at? path) := by
  induction path generalizing b d with
  | nil => exact absurd h (Data.not_silent_nil d)
  | cons key path ih =>
    cases hd with
    | other hother => exact absurd h (Data.not_silent_of_not_table hother _)
    | @table overlay hkeys hvalues =>
      by_cases hb : ∃ base, b = some (.table base)
      · obtain ⟨base, rfl⟩ := hb
        rw [mergeValue_tables, Data.at?_cons_table, lookup_mergeTables hkeys, Option.bind_some,
          Data.at?_cons_table]
        cases hlookup : overlay.lookup key with
        | none => rfl
        | some d =>
          exact ih (hvalues _ (mem_of_lookup hlookup)) (Data.silent_cons_table.mp h d hlookup)
      · rw [not_exists] at hb
        rw [mergeValue_of_ne_table hb, bind_at?_of_ne_table hb]
        exact h.1

/-- Where the overlay is not silent, it wins: its values are those of the whole, and there is
something at the same paths. -/
theorem valueAt?_mergeValue {b : Option Data} {path : List String} (hd : d.DistinctKeys)
    (h : ¬ d.Silent path) :
    (mergeValue b d).valueAt? path = d.valueAt? path ∧
      ((mergeValue b d).at? path).isSome = (d.at? path).isSome := by
  induction path generalizing b d with
  | nil =>
    cases hd with
    | other hother =>
      rw [mergeValue_of_not_table b hother]
      exact ⟨rfl, rfl⟩
    | @table overlay hkeys hvalues =>
      by_cases hb : ∃ base, b = some (.table base)
      · obtain ⟨base, rfl⟩ := hb
        exact ⟨rfl, rfl⟩
      · rw [mergeValue_of_ne_table (not_exists.mp hb)]
        exact ⟨rfl, rfl⟩
  | cons key path ih =>
    cases hd with
    | other hother =>
      rw [mergeValue_of_not_table b hother]
      exact ⟨rfl, rfl⟩
    | @table overlay hkeys hvalues =>
      by_cases hb : ∃ base, b = some (.table base)
      · obtain ⟨base, rfl⟩ := hb
        rw [Data.silent_cons_table, Classical.not_forall] at h
        obtain ⟨d, h⟩ := h
        obtain ⟨hlookup, hsilent⟩ := Classical.not_imp.mp h
        rw [mergeValue_tables, Data.valueAt?_cons_table, Data.valueAt?_cons_table,
          Data.at?_cons_table, Data.at?_cons_table, lookup_mergeTables hkeys, hlookup]
        exact ih (hvalues _ (mem_of_lookup hlookup)) hsilent
      · rw [mergeValue_of_ne_table (not_exists.mp hb)]
        exact ⟨rfl, rfl⟩

end Toml

end FortranLayout
