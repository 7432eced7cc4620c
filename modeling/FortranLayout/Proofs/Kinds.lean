import FortranLayout.Kind

/-!
# Kinds and the endings of tags

Some tags are looked up in a table, all others are classified by their ending. Both ways keep to one
scheme of names: a tag is that of a statement exactly if it ends in `-stmt`
(`Kind.isStatement_ofTag`), and that of a container exactly if it ends in `-construct` or is one of
a few tags that do not (`Kind.isContainer_ofTag`).
-/

namespace FortranLayout

theorem Text.dropEnding?_isSome_iff {ending s : String} :
    (dropEnding? ending s).isSome = true ↔ ∃ stem, s = stem ++ ending := by
  rw [dropEnding?_isSome, List.isSuffixOf_iff_suffix]
  constructor
  · rintro ⟨stem, hstem⟩
    exact ⟨String.ofList stem, by rw [← String.toList_inj]; simp [hstem]⟩
  · rintro ⟨stem, rfl⟩
    simp

namespace Kind

open Text (dropEnding?)

/-- The tags of containers that are no `-construct`. -/
def containerTags : List String :=
  ["file", "program-unit", "if-block", "where-block", "selectcase-block"]

/-! ## The table -/

/-- The table keeps to the endings. -/
theorem endings_exactTags : ∀ entry ∈ exactTags,
    entry.2.isStatement = (dropEnding? "-stmt" entry.1).isSome ∧
      entry.2.isContainer =
        ((dropEnding? "-construct" entry.1).isSome || containerTags.contains entry.1) := by
  decide +kernel

theorem endings_of_lookup {tag : String} {kind : Kind} (h : exactTags.lookup tag = some kind) :
    kind.isStatement = (dropEnding? "-stmt" tag).isSome ∧
      kind.isContainer = ((dropEnding? "-construct" tag).isSome || containerTags.contains tag) := by
  obtain ⟨front, back, htable, -⟩ := List.lookup_eq_some_iff.mp h
  exact endings_exactTags (tag, kind) (by rw [htable]; simp)

/-- The container tags without the ending are all in the table. -/
theorem not_mem_containerTags_of_lookup {tag : String} (h : exactTags.lookup tag = none) :
    tag ∉ containerTags := by
  have htable : ∀ known ∈ containerTags, (exactTags.lookup known).isSome = true := by decide +kernel
  intro hmem
  have hsome := htable tag hmem
  rw [h] at hsome
  cases hsome

/-! ## Tags outside the table -/

/-- No tag has both endings. -/
theorem dropEnding?_stmt_of_construct {tag stem : String}
    (h : dropEnding? "-construct" tag = some stem) :
    dropEnding? "-stmt" tag = none := by
  rw [← Option.not_isSome_iff_eq_none, Text.dropEnding?_isSome]
  intro hstmt
  have hconstruct : "-construct".toList.isSuffixOf tag.toList = true := by
    rw [← Text.dropEnding?_isSome, h, Option.isSome_some]
  have hboth := List.suffix_of_suffix_length_le (List.isSuffixOf_iff_suffix.mp hstmt)
    (List.isSuffixOf_iff_suffix.mp hconstruct) (by decide)
  exact absurd (List.isSuffixOf_iff_suffix.mpr hboth) (by decide)

/-- Whatever stands before `-stmt`, the kind is that of a statement. -/
theorem statement_ofStatementStem (stem : String) :
    (ofStatementStem stem).isStatement = true ∧ (ofStatementStem stem).isContainer = false := by
  unfold ofStatementStem
  split
  · exact ⟨rfl, rfl⟩
  · split
    · rename_i closer hcloser
      obtain ⟨word, _, hword⟩ := Option.bind_eq_some_iff.mp hcloser
      unfold ofCloser? at hword
      split at hword
      · cases hword
        exact ⟨rfl, rfl⟩
      · obtain ⟨c, _, rfl⟩ := Option.map_eq_some_iff.mp hword
        exact ⟨rfl, rfl⟩
    · split <;> exact ⟨rfl, rfl⟩

theorem isStatement_ofEnding (tag : String) :
    (ofEnding tag).isStatement = (dropEnding? "-stmt" tag).isSome := by
  unfold ofEnding
  split
  · rename_i stem hstem
    rw [dropEnding?_stmt_of_construct hstem]
    rfl
  · split
    · rename_i stem hstem
      rw [hstem]
      exact (statement_ofStatementStem stem).1
    · rename_i hnone
      rw [hnone]
      rfl

theorem isContainer_ofEnding (tag : String) :
    (ofEnding tag).isContainer = (dropEnding? "-construct" tag).isSome := by
  unfold ofEnding
  split
  · rename_i stem hstem
    rw [hstem]
    rfl
  · rename_i hnone
    rw [hnone]
    split
    · exact (statement_ofStatementStem _).2
    · rfl

/-! ## All tags -/

/-- However a tag is classified, its kind is that of a statement if and only if it ends in `-stmt`.
-/
theorem isStatement_ofTag (tag : String) :
    (ofTag tag).isStatement = true ↔ ∃ stem, tag = stem ++ "-stmt" := by
  rw [← Text.dropEnding?_isSome_iff, ofTag]
  cases hlookup : exactTags.lookup tag with
  | none => rw [Option.getD_none, isStatement_ofEnding]
  | some kind => rw [Option.getD_some, (endings_of_lookup hlookup).1]

/-- However a tag is classified, its kind is that of a container if and only if it ends in
`-construct` or is one of the container tags that do not. -/
theorem isContainer_ofTag (tag : String) :
    (ofTag tag).isContainer = true ↔ (∃ stem, tag = stem ++ "-construct") ∨
      tag ∈ containerTags := by
  rw [← Text.dropEnding?_isSome_iff, ofTag]
  cases hlookup : exactTags.lookup tag with
  | none =>
    rw [Option.getD_none, isContainer_ofEnding]
    exact ⟨Or.inl, fun h => h.resolve_right (not_mem_containerTags_of_lookup hlookup)⟩
  | some kind =>
    rw [Option.getD_some, (endings_of_lookup hlookup).2, Bool.or_eq_true, List.contains_iff_mem]

end Kind

end FortranLayout
