import FortranLayout.Proofs.Toml.DistinctKeys
import Mathlib.Data.List.Induction

/-!
# The last document wins

Several documents are merged by laying each over those before it. Where no path leads to a table in
one of them and to another value in a second, the order matters for each path by itself: the merged
table has there what the last document has that sets it, and nothing stands in it that is in none of
the documents.
-/

namespace FortranLayout

namespace Toml

variable {tables : List (List (String × Data))} {overlay : List (String × Data)}
  {path : List String}

/-- No path leads to a table in one of the tables and to another value in one of them. -/
def Compatible (tables : List (List (String × Data))) : Prop :=
  ∀ t ∈ tables, ∀ u ∈ tables, ∀ path d, (Data.table t).at? path = some d → d.isTable = true →
    (Data.table u).valueAt? path = none

/-- Two tables laid over one another, at any path. -/
theorem valueAt?_mergeTables (base : List (String × Data)) (hd : (Data.table overlay).DistinctKeys)
    (path : List String) :
    (∀ v, (Data.table overlay).valueAt? path = some v →
        (Data.table (mergeTables base overlay)).valueAt? path = some v) ∧
      ((Data.table overlay).Silent path →
        (Data.table (mergeTables base overlay)).valueAt? path = (Data.table base).valueAt? path) ∧
      ((Data.table overlay).valueAt? path = none → ¬ (Data.table overlay).Silent path →
        (Data.table (mergeTables base overlay)).valueAt? path = none) := by
  rw [← mergeValue_tables]
  refine ⟨fun v hv => ?_, fun hsilent => ?_, fun hv hsilent => ?_⟩
  · have hsilent : ¬ (Data.table overlay).Silent path := by
      rintro ⟨hnone, -⟩
      rw [Data.valueAt?, hnone] at hv
      cases hv
    rw [(valueAt?_mergeValue hd hsilent).1, hv]
  · rw [Data.valueAt?, at?_mergeValue hd hsilent]
    rfl
  · rw [(valueAt?_mergeValue hd hsilent).1, hv]

theorem Compatible.sublist {first : List (List (String × Data))} (h : Compatible tables)
    (hsub : first.Sublist tables) : Compatible first :=
  fun t ht u hu => h t (hsub.mem ht) u (hsub.mem hu)

/-- Where a table is not silent, no other of them leads further. -/
theorem Compatible.isSome_at? (h : Compatible tables) {t u : List (String × Data)} (ht : t ∈ tables)
    (hu : u ∈ tables)
    (hsilent : ¬ (Data.table t).Silent path) (hsome : ((Data.table u).at? path).isSome = true) :
    ((Data.table t).at? path).isSome = true := by
  rw [Option.isSome_iff_ne_none]
  refine fun hnone => hsilent ⟨hnone, fun front hfront hne => ?_⟩
  obtain ⟨d, hd⟩ := Option.isSome_iff_exists.mp hsome
  obtain ⟨v, hv, htable⟩ := Data.isTable_of_at? hd hfront hne
  exact h u hu t ht front v hv htable

/-- Where a table is not silent and has no value, none of them has one. -/
theorem Compatible.valueAt?_eq_none (h : Compatible tables) {t u : List (String × Data)}
    (ht : t ∈ tables) (hu : u ∈ tables) (hsilent : ¬ (Data.table t).Silent path)
    (hnone : (Data.table t).valueAt? path = none) :
    (Data.table u).valueAt? path = none := by
  rw [Option.eq_none_iff_forall_ne_some]
  intro v hv
  have hsome := Option.isSome_iff_exists.mpr ⟨v, (Data.valueAt?_eq_some.mp hv).1⟩
  obtain ⟨d, hd⟩ := Option.isSome_iff_exists.mp (h.isSome_at? ht hu hsilent hsome)
  cases htable : d.isTable with
  | true =>
    rw [h t ht u hu path d hd htable] at hv
    cases hv
  | false =>
    rw [Data.valueAt?_eq_some.mpr ⟨hd, htable⟩] at hnone
    cases hnone

theorem mergeAll_concat (tables : List (List (String × Data))) (t : List (String × Data)) :
    mergeAll (tables ++ [t]) = mergeTables (mergeAll tables) t := by
  rw [mergeAll, List.foldl_append]
  rfl

/-- The induction is on the documents, the last of them first: it is silent about a path, or it
decides. -/
theorem valueAt?_mergeAll (hd : ∀ t ∈ tables, (Data.table t).DistinctKeys) (h : Compatible tables)
    (path : List String) :
    (Data.table (mergeAll tables)).valueAt? path =
      tables.reverse.findSome? (fun t => (Data.table t).valueAt? path) := by
  induction tables using List.reverseRecOn with
  | nil => cases path <;> rfl
  | append_singleton tables t ih =>
    have ht : t ∈ tables ++ [t] := List.mem_append_right tables List.mem_cons_self
    have hbefore := ih (fun u hu => hd u (List.mem_append_left [t] hu))
      (h.sublist (List.sublist_append_left tables [t]))
    obtain ⟨hvalue, hkept, hnone⟩ := valueAt?_mergeTables (mergeAll tables) (hd t ht) path
    rw [List.reverse_concat, List.findSome?_cons, mergeAll_concat]
    cases hv : (Data.table t).valueAt? path with
    | some v => exact hvalue v hv
    | none =>
      by_cases hsilent : (Data.table t).Silent path
      · exact (hkept hsilent).trans hbefore
      · refine (hnone hv hsilent).trans (List.findSome?_eq_none_iff.mpr fun u hu => ?_).symm
        exact h.valueAt?_eq_none ht (List.mem_append_left [t] (List.mem_reverse.mp hu)) hsilent hv

theorem isSome_at?_mergeAll (hd : ∀ t ∈ tables, (Data.table t).DistinctKeys) (h : Compatible tables)
    (path : List String) :
    ((Data.table (mergeAll tables)).at? path).isSome = true ↔
      path = [] ∨ ∃ t ∈ tables, ((Data.table t).at? path).isSome = true := by
  induction tables using List.reverseRecOn with
  | nil =>
    cases path with
    | nil => exact iff_of_true rfl (.inl rfl)
    | cons key path => exact iff_of_false nofun nofun
  | append_singleton tables t ih =>
    have ht : t ∈ tables ++ [t] := List.mem_append_right tables List.mem_cons_self
    have hbefore := ih (fun u hu => hd u (List.mem_append_left [t] hu))
      (h.sublist (List.sublist_append_left tables [t]))
    rw [mergeAll_concat, ← mergeValue_tables]
    simp only [List.mem_append, List.mem_singleton, or_and_right, exists_or, exists_eq_left]
    by_cases hsilent : (Data.table t).Silent path
    · rw [at?_mergeValue (hd t ht) hsilent, Option.bind_some, hbefore, hsilent.1]
      simp
    · rw [(valueAt?_mergeValue (hd t ht) hsilent).2]
      refine ⟨fun hsome => .inr (.inr hsome), ?_⟩
      rintro (rfl | ⟨u, hu, hsome⟩ | hsome)
      · rfl
      · exact h.isSome_at? ht (List.mem_append_left [t] hu) hsilent hsome
      · exact hsome

/-- Tables are merged key by key, and of several documents the last one that sets a path wins there.
-/
theorem valueAt?_merged :
    (∀ base overlay path, (Data.table overlay).DistinctKeys →
      (∀ v, (Data.table overlay).valueAt? path = some v →
          (Data.table (mergeTables base overlay)).valueAt? path = some v) ∧
        ((Data.table overlay).Silent path →
          (Data.table (mergeTables base overlay)).valueAt? path = (Data.table base).valueAt? path) ∧
        ((Data.table overlay).valueAt? path = none → ¬ (Data.table overlay).Silent path →
          (Data.table (mergeTables base overlay)).valueAt? path = none)) ∧
    ∀ texts : List String, Compatible (texts.filterMap Settings.fieldsToMerge?) → ∀ path,
      (Data.table (mergeAll (texts.filterMap Settings.fieldsToMerge?))).valueAt? path =
          (texts.filterMap Settings.fieldsToMerge?).reverse.findSome?
            (fun t => (Data.table t).valueAt? path) ∧
        (((Data.table (mergeAll (texts.filterMap Settings.fieldsToMerge?))).at? path).isSome
            = true ↔
          path = [] ∨ ∃ t ∈ texts.filterMap Settings.fieldsToMerge?,
            ((Data.table t).at? path).isSome = true) := by
  refine ⟨fun base overlay path hd => valueAt?_mergeTables base hd path, fun texts h path => ?_⟩
  have hd : ∀ t ∈ texts.filterMap Settings.fieldsToMerge?, (Data.table t).DistinctKeys := by
    intro t ht
    obtain ⟨text, -, hfields⟩ := List.mem_filterMap.mp ht
    exact Settings.distinctKeys_fieldsToMerge? hfields
  exact ⟨valueAt?_mergeAll hd h path, isSome_at?_mergeAll hd h path⟩

/-- Three documents and a text that is none. -/
def dottedTexts : List String := ["a.b=1", "a.c=2", "a.", "a.b=3"]

theorem filterMap_dottedTexts :
    dottedTexts.filterMap Settings.fieldsToMerge? =
      [[("a", .table [("b", .integer 1)])], [("a", .table [("c", .integer 2)])],
        [("a", .table [("b", .integer 3)])]] :=
  rfl

theorem compatible_dottedTexts : Compatible (dottedTexts.filterMap Settings.fieldsToMerge?) := by
  have hshape : ∀ t ∈ dottedTexts.filterMap Settings.fieldsToMerge?, ∃ key n,
      t = [("a", .table [(key, .integer n)])] := by
    rw [filterMap_dottedTexts]
    simp
  intro t ht u hu path d hd htable
  obtain ⟨key, n, rfl⟩ := hshape t ht
  obtain ⟨key', n', rfl⟩ := hshape u hu
  match path with
  | [] => rfl
  | [k] =>
    rw [Data.valueAt?_cons_table, lookup_cons_eq]
    split <;> rfl
  | k :: l :: path =>
    rw [Data.at?_cons_table, lookup_cons_eq] at hd
    split at hd
    · rw [Option.bind_some, Data.at?_cons_table, lookup_cons_eq] at hd
      split at hd
      · cases path with
        | nil =>
          cases hd
          cases htable
        | cons => cases hd
      · cases hd
    · cases hd

/-- A table within a table. -/
def nested : List (String × Data) := [("a", .table [("b", .integer 1)]), ("c", .integer 7)]

/-- A value where `nested` has a table. -/
def flagged : List (String × Data) := [("a", .bool true)]

theorem valueAt?_merged_dottedTexts :
    (Data.table (mergeTables nested flagged)).valueAt? ["a"] = some (.bool true) ∧
      (Data.table (mergeTables nested flagged)).valueAt? ["c"] = some (.integer 7) ∧
      (Data.table (mergeTables nested flagged)).valueAt? ["a", "b"] = none ∧
      (Data.table (mergeAll (dottedTexts.filterMap Settings.fieldsToMerge?))).valueAt? ["a", "b"] =
        some (.integer 3) ∧
      (Data.table (mergeAll (dottedTexts.filterMap Settings.fieldsToMerge?))).valueAt? ["a", "c"] =
        some (.integer 2) := by
  obtain ⟨htwo, hall⟩ := valueAt?_merged
  have hd : (Data.table flagged).DistinctKeys := .table (by decide) fun field hfield => by
    obtain rfl := List.mem_singleton.mp hfield
    exact .other rfl
  refine ⟨(htwo nested flagged _ hd).1 _ rfl, ?_, ?_, ?_, ?_⟩
  · exact (htwo nested flagged _ hd).2.1
      (Data.silent_cons_table.mpr fun d hlookup => by cases hlookup)
  · refine (htwo nested flagged _ hd).2.2 rfl fun hsilent => ?_
    have hvalue := hsilent.2 ["a"] (List.prefix_append ["a"] ["b"]) (by decide)
    cases hvalue
  · rw [(hall dottedTexts compatible_dottedTexts _).1, filterMap_dottedTexts]
    rfl
  · rw [(hall dottedTexts compatible_dottedTexts _).1, filterMap_dottedTexts]
    rfl

end Toml

end FortranLayout
