import FortranLayout.Json.Parser
import FortranLayout.Proofs.Json.Lexing

/-!
# Parsing what is written

The parser reads a value back from its tokens, whatever stands behind them, with two nested readings
for each token (`Json.parseValue_tokens`). So the document of an element is parsed to the data of
the element (`Json.parse_document`).
-/

namespace FortranLayout

/-- Induction over data: arrays and tables after what is in them. -/
theorem Data.induct {P : Data → Prop} (array : ∀ items, (∀ d ∈ items, P d) → P (.array items))
    (table : ∀ fields : List (String × Data), (∀ field ∈ fields, P field.2) → P (.table fields))
    (other : ∀ d, (∀ items, d ≠ .array items) → (∀ fields, d ≠ .table fields) → P d) : ∀ d, P d
  | .array items => array items fun d _ => induct array table other d
  | .table fields => table fields fun field hfield =>
    have : sizeOf field.2 < sizeOf fields := by
      have hmem := List.sizeOf_lt_of_mem hfield
      obtain ⟨key, d⟩ := field
      simp only [Prod.mk.sizeOf_spec] at hmem ⊢
      omega
    induct array table other field.2
  | .null | .bool _ | .integer _ | .real | .string _ | .date _ | .unreadable =>
    other _ (by simp) (by simp)

namespace Json

/-- The value is read from its tokens, whatever stands behind them. -/
def ReadsBack (d : Data) : Prop :=
  ∀ fuel rest, 2 * (tokens d).length ≤ fuel → parseValue fuel (tokens d ++ rest) = some (d, rest)

/-! ## Items and fields -/

theorem parseItems_joined {items : List Data} (hne : items ≠ [])
    (h : ∀ d ∈ items, ReadsBack d) (fuel : Nat)
    (rest : List Token) (hfuel : 2 * (joined (itemTokens items)).length < fuel) :
    parseItems fuel (joined (itemTokens items) ++ .closeArray :: rest) = some (items, rest) := by
  induction items generalizing fuel with
  | nil => contradiction
  | cons d items ih =>
    obtain ⟨n, rfl⟩ := Nat.exists_eq_succ_of_ne_zero (Nat.ne_zero_of_lt hfuel)
    have hd := h d List.mem_cons_self
    cases items with
    | nil =>
      simp only [itemTokens, joined] at hfuel ⊢
      rw [parseItems, hd n _ (by omega)]
    | cons d' items =>
      simp only [itemTokens, joined, List.length_append, List.length_cons] at hfuel ih ⊢
      have hrest := ih (by simp) (fun x hx => h x (List.mem_cons_of_mem _ hx)) n (by omega)
      rw [List.append_assoc, parseItems, hd n _ (by omega), List.cons_append]
      simp only [hrest, Option.map_some]

theorem parseFields_joined {fields : List (String × Data)} (hne : fields ≠ [])
    (h : ∀ field ∈ fields, ReadsBack field.2) (fuel : Nat) (rest : List Token)
    (hfuel : 2 * (joined (fieldTokens fields)).length < fuel) :
    parseFields fuel (joined (fieldTokens fields) ++ .closeObject :: rest) =
      some (fields.map fun field => (some field.1, field.2), rest) := by
  induction fields generalizing fuel with
  | nil => contradiction
  | cons field fields ih =>
    obtain ⟨key, d⟩ := field
    obtain ⟨n, rfl⟩ := Nat.exists_eq_succ_of_ne_zero (Nat.ne_zero_of_lt hfuel)
    have hd : ReadsBack d := h (key, d) List.mem_cons_self
    cases fields with
    | nil =>
      simp only [fieldTokens, joined, List.length_cons] at hfuel ⊢
      rw [List.cons_append, List.cons_append, parseFields, hd n _ (by omega)]
      rfl
    | cons field' fields =>
      obtain ⟨key', d'⟩ := field'
      simp only [fieldTokens, joined, List.length_append, List.length_cons] at hfuel ih ⊢
      have hrest := ih (by simp) (fun x hx => h x (List.mem_cons_of_mem _ hx)) n (by omega)
      rw [List.append_assoc, List.cons_append, List.cons_append, parseFields, hd n _ (by omega),
        List.cons_append]
      simp only [hrest, Option.map_some, List.map_cons]

theorem tableOf_map (fields : List (String × Data)) :
    tableOf (fields.map fun field => (some field.1, field.2)) = .table fields := by
  have hreadable : readableFields? (fields.map fun field => (some field.1, field.2)) =
      some fields := by
    induction fields with
    | nil => rfl
    | cons field fields ih => rw [List.map_cons, readableFields?, ih, Option.map_some]
  rw [tableOf, hreadable]

/-! ## Values -/

/-- No value begins with the end of an array. -/
theorem exists_tokens_cons (d : Data) : ∃ t ts, tokens d = t :: ts ∧ t ≠ .closeArray := by
  cases d <;> simp [tokens]

theorem readsBack_array {items : List Data} (h : ∀ d ∈ items, ReadsBack d) :
    ReadsBack (.array items) := by
  intro fuel rest hfuel
  rw [tokens, List.length_append, List.length_cons, List.length_singleton] at hfuel
  obtain ⟨n, rfl⟩ : ∃ n, fuel = n + 1 := ⟨fuel - 1, by omega⟩
  rw [tokens, List.append_assoc, List.cons_append, List.singleton_append]
  cases items with
  | nil => rfl
  | cons d items =>
    have hitems := parseItems_joined (by simp) h n rest (by omega)
    obtain ⟨t, ts, hts, ht⟩ : ∃ t ts,
        joined (itemTokens (d :: items)) = t :: ts ∧ t ≠ .closeArray := by
      obtain ⟨t, ts, hd, ht⟩ := exists_tokens_cons d
      cases items <;> simp [itemTokens, joined, hd, ht]
    rw [hts, List.cons_append] at hitems ⊢
    rw [parseValue]
    · rw [hitems]
      rfl
    · intro rest' heq
      exact ht (List.head_eq_of_cons_eq heq)

theorem readsBack_table {fields : List (String × Data)} (h : ∀ field ∈ fields, ReadsBack field.2) :
    ReadsBack (.table fields) := by
  intro fuel rest hfuel
  rw [tokens, List.length_append, List.length_cons, List.length_singleton] at hfuel
  obtain ⟨n, rfl⟩ : ∃ n, fuel = n + 1 := ⟨fuel - 1, by omega⟩
  rw [tokens, List.append_assoc, List.cons_append, List.singleton_append]
  cases fields with
  | nil => rfl
  | cons field fields =>
    have hfields := parseFields_joined (by simp) h n rest (by omega)
    obtain ⟨ts, hts⟩ : ∃ ts,
        joined (fieldTokens (field :: fields)) = .string (some field.1) :: ts := by
      cases fields <;> simp [fieldTokens, joined]
    rw [hts, List.cons_append] at hfields ⊢
    rw [parseValue]
    · simp only [hfields, Option.map_some, tableOf_map]
    · intro rest' heq
      cases heq

theorem parseValue_tokens (d : Data) : ReadsBack d := by
  induction d using Data.induct with
  | array items ih => exact readsBack_array ih
  | table fields ih => exact readsBack_table ih
  | other d harray htable =>
    intro fuel rest hfuel
    cases d with
    | array items => exact absurd rfl (harray items)
    | table fields => exact absurd rfl (htable fields)
    | null | bool | integer | real | string | date | unreadable =>
      cases fuel with
      | zero => simp [tokens] at hfuel
      | succ n => rfl

/-! ## Documents -/

theorem parse_document (e : Element) : parse (document e).toList = some e.toData := by
  have hline : Reads .between ['\n'] [] .between := .char rfl
  have hreads := (reads_element 0 e).append hline
  rw [List.append_nil] at hreads
  have hvalue := parseValue_tokens e.toData (2 * (tokens e.toData).length + 1) [] (by omega)
  rw [List.append_nil] at hvalue
  rw [document, String.toList_ofList, parse, hreads.lex_eq, Option.bind_eq_bind,
    Option.bind_some, hvalue]

end Json

end FortranLayout
