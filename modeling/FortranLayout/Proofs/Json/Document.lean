import FortranLayout.Document
import FortranLayout.Proofs.Json.Parsing

/-!
# Documents read back

An element takes two levels of nesting, one for its table and one for the array of its children,
which an element without children leaves out. So the limit admits elements of at most 64 on the way
down, and those are read from their data (`Element.ofData?_toData`, `Element.height_le_of_ofData?`).
With every pass off, what is written is a document of the tree that was read
(`formatDocument_readsBack`).
-/

namespace FortranLayout

/-! ## Fields and items -/

namespace Data

theorem valuesAt_cons (key k : String) (d : Data) (fields : List (String × Data)) :
    valuesAt key ((k, d) :: fields) = (if k = key then [d] else []) ++ valuesAt key fields := by
  by_cases hk : k = key <;> simp [valuesAt, hk]

theorem valuesAt_optional (key k : String) (d : Data) (omitted : Bool) :
    valuesAt key (if omitted then [] else [(k, d)]) =
      if omitted then [] else if k = key then [d] else [] := by
  cases omitted
  · rw [if_neg Bool.false_ne_true, if_neg Bool.false_ne_true, valuesAt_cons]
    exact List.append_nil _
  · rfl

theorem valuesAt_append (key : String) (xs ys : List (String × Data)) :
    valuesAt key (xs ++ ys) = valuesAt key xs ++ valuesAt key ys := by
  simp [valuesAt]

end Data

namespace Element

section Parts

variable {α : Type} {read : Data → Option α} {standard : Option α} {key : String} {a : α}

/-- A field that is left out where it has its standard value is read back. -/
theorem fieldOf?_of_valuesAt {fields : List (String × Data)} {omitted : Prop}
    [Decidable omitted] {d : Data} (h : Data.valuesAt key fields = if omitted then [] else [d])
    (hstandard : omitted → standard = some a)
    (hread : ¬ omitted → read d = some a) : fieldOf? read standard fields key = some a := by
  rw [fieldOf?, h]
  by_cases homitted : omitted
  · rw [if_pos homitted]
    exact hstandard homitted
  · rw [if_neg homitted]
    exact hread homitted

/-- What is read is the standard value or that of a field. -/
theorem of_fieldOf? {fields : List (String × Data)}
    (h : fieldOf? read standard fields key = some a) :
    standard = some a ∨ ∃ d, read d = some a := by
  rw [fieldOf?] at h
  split at h
  · exact .inl h
  · exact .inr ⟨_, h⟩
  · cases h

theorem of_itemOf? {items : List Data} {index : Nat}
    (h : itemOf? read standard items index = some a) :
    standard = some a ∨ ∃ d, read d = some a := by
  rw [itemOf?] at h
  split at h
  · exact .inr ⟨_, h⟩
  · exact .inl h

end Parts

/-! ## Elements and their data -/

variable {levels n : Nat} {d : Data} {e : Element} {cs : List Element}

theorem two_mul_heights_le_iff : 2 * heights cs ≤ n ↔ ∀ c ∈ cs, 2 * c.height ≤ n := by
  induction cs with
  | nil => simp [heights]
  | cons c cs ih =>
    rw [heights, List.forall_mem_cons, ← ih]
    omega

theorem exists_of_mapM {items : List Data} {read : Data → Option Element}
    (h : items.mapM read = some cs) :
    ∀ c ∈ cs, ∃ d, read d = some c := by
  induction items generalizing cs with
  | nil =>
    rw [List.mapM_nil] at h
    cases h
    simp
  | cons d items ih =>
    simp only [List.mapM_cons, Option.bind_eq_bind, Option.bind_eq_some_iff, Option.pure_def,
      Option.some.injEq] at h
    obtain ⟨c, hc, cs, hcs, rfl⟩ := h
    exact List.forall_mem_cons.mpr ⟨⟨d, hc⟩, ih hcs⟩

theorem heights_le_of_childrenOf?
    (ih : ∀ below < levels, ∀ {d : Data} {c : Element}, ofData? below d = some c →
      2 * c.height ≤ below + 1)
    (h : childrenOf? levels d = some cs) : 2 * heights cs ≤ levels := by
  rw [childrenOf?.eq_def] at h
  split at h
  · refine two_mul_heights_le_iff.mpr fun c hc => ?_
    obtain ⟨d, hd⟩ := exists_of_mapM h c hc
    exact ih _ (Nat.lt_succ_self _) hd
  · cases h

/-- Nothing is read that is deeper than the limit. -/
theorem height_le_of_ofData? (h : ofData? levels d = some e) : 2 * e.height ≤ levels + 1 := by
  induction levels using Nat.strongRecOn generalizing d e with
  | ind levels ih =>
    cases levels with
    | zero => simp [ofData?] at h
    | succ levels =>
      -- The children are none or those of an array, in either form of an element.
      have hchildren : ∀ cs, (some [] = some cs ∨ ∃ d, childrenOf? levels d = some cs) →
          2 * heights cs ≤ levels := by
        rintro cs (hnone | ⟨d, hd⟩)
        · cases hnone
          simp [heights]
        · exact heights_le_of_childrenOf? (fun below hbelow => ih below (by omega)) hd
      cases d with
      | table fields =>
        simp only [ofData?, Option.bind_eq_bind, Option.bind_eq_some_iff, Option.pure_def,
          Option.some.injEq] at h
        obtain ⟨tag, -, text, -, tail, -, cs, hcs, rfl⟩ := h
        have hbelow := hchildren cs (of_fieldOf? hcs)
        rw [height]
        omega
      | array items =>
        rw [ofData?] at h
        split at h
        · cases h
        · simp only [Option.bind_eq_bind, Option.bind_eq_some_iff, Option.pure_def,
            Option.some.injEq] at h
          obtain ⟨tag, -, text, -, tail, -, cs, hcs, rfl⟩ := h
          have hbelow := hchildren cs (of_itemOf? hcs)
          rw [height]
          omega
      | null | bool | integer | real | string | date | unreadable => simp [ofData?] at h

theorem mapM_toDataList {read : Data → Option Element} (h : ∀ c ∈ cs, read c.toData = some c) :
    (toDataList cs).mapM read = some cs := by
  induction cs with
  | nil => rfl
  | cons c cs ih =>
    rw [toDataList, List.mapM_cons, h c List.mem_cons_self,
      ih fun d hd => h d (List.mem_cons_of_mem _ hd)]
    rfl

/-- Children have a height, so that there is a level for their array. -/
theorem childrenOf?_toDataList
    (ih : ∀ c ∈ cs, ∀ {levels : Nat}, 2 * c.height ≤ levels + 1 → ofData? levels c.toData = some c)
    (hn : 2 * heights cs ≤ n) (hne : cs ≠ []) :
    childrenOf? n (.array (toDataList cs)) = some cs := by
  have hbelow := two_mul_heights_le_iff.mp hn
  obtain ⟨c, hc⟩ := List.exists_mem_of_ne_nil cs hne
  have hpos : 0 < c.height := by
    cases c
    exact Nat.succ_pos _
  obtain ⟨m, rfl⟩ : ∃ m, n = m + 1 := ⟨n - 1, by have := hbelow c hc; omega⟩
  rw [childrenOf?]
  exact mapM_toDataList fun c hc => ih c hc (hbelow c hc)

/-- An element that is not too deep is read from its data. -/
theorem ofData?_toData (h : 2 * e.height ≤ levels + 1) : ofData? levels e.toData = some e := by
  induction e using Element.induct generalizing levels with
  | h tag text tail cs ih =>
    rw [height] at h
    obtain ⟨n, rfl⟩ : ∃ n, levels = n + 1 := ⟨levels - 1, by omega⟩
    rw [toData, ofData?]
    generalize hfields : ("tag", Data.string tag) ::
        (if text.isEmpty then [] else [("text", .string text)]) ++
        (if tail.isEmpty then [] else [("tail", .string tail)]) ++
        (if cs.isEmpty then [] else [("children", .array (toDataList cs))]) = fields
    have hvalues : ∀ key, Data.valuesAt key fields =
        (if "tag" = key then [.string tag] else []) ++
          (if text.isEmpty then [] else if "text" = key then [.string text] else []) ++
          (if tail.isEmpty then [] else if "tail" = key then [.string tail] else []) ++
          (if cs.isEmpty then [] else if "children" = key then [.array (toDataList cs)]
            else []) := by
      intro key
      rw [← hfields]
      simp only [Data.valuesAt_append, Data.valuesAt_cons, Data.valuesAt_optional]
    have hempty : ∀ {t : String}, t.isEmpty → some "" = some t := fun ht =>
      congrArg some (String.isEmpty_iff.mp ht).symm
    have htag : fieldOf? textOf? none fields "tag" = some tag := by
      rw [fieldOf?, hvalues]
      simp [textOf?]
    have htext : fieldOf? textOf? (some "") fields "text" = some text :=
      fieldOf?_of_valuesAt (d := .string text) (by simp [hvalues]) hempty fun _ => rfl
    have htail : fieldOf? textOf? (some "") fields "tail" = some tail :=
      fieldOf?_of_valuesAt (d := .string tail) (by simp [hvalues]) hempty fun _ => rfl
    have hchildren : fieldOf? (childrenOf? n) (some []) fields "children" = some cs :=
      fieldOf?_of_valuesAt (d := .array (toDataList cs)) (by simp [hvalues])
        (fun hnil => congrArg some (List.isEmpty_iff.mp hnil).symm)
        fun hne => childrenOf?_toDataList ih (by omega) fun hnil => hne (List.isEmpty_iff.mpr hnil)
    rw [htag, htext, htail, hchildren]
    rfl

theorem ofDocument?_document (h : e.height ≤ 64) : ofDocument? (Json.document e) = some e := by
  rw [ofDocument?, Json.parse_document, Option.bind_some, levelLimit]
  exact ofData?_toData (by omega)

/-- The trees of documents are those that are at most 64 elements deep. -/
theorem exists_document_iff : (∃ text, ofDocument? text = some e) ↔ e.height ≤ 64 := by
  refine ⟨fun ⟨text, h⟩ => ?_, fun h => ⟨_, ofDocument?_document h⟩⟩
  rw [ofDocument?, Option.bind_eq_some_iff] at h
  obtain ⟨d, -, hd⟩ := h
  have hlimit : 2 * e.height ≤ 127 + 1 := height_le_of_ofData? hd
  omega

end Element

/-! ## Formatting with every pass off -/

/-- No pass runs. -/
def Passes.off : Passes where
  removeComments := false
  convertIfStatements := false
  removeEmptyContains := false
  removeEmptyLines := false
  spacing := false
  indent := false
  continuation := false
  case := .keep

theorem Settings.run_of_off {s : Settings} (hs : s.passes = .off) (f : Forest) :
    s.run f = (f, {}) := by
  rw [run, hs]
  rfl

/-- With every pass off, only the settings can be refused. -/
theorem formatDocument_of_off {s : Settings} (hs : s.passes = .off) {text : String} {r : Element}
    (h : Element.ofDocument? text = some r) (emit : Emit) :
    formatDocument s emit text =
      match s.validate with
      | .error fault => .error (.refused fault)
      | .ok () => .ok ((Forest.ofElement r).emit emit, {}) := by
  simp only [formatDocument, h, normalize, Settings.run_of_off hs]
  cases s.validate <;> rfl

/-- With every pass off, the tree of a document is written as a document of the same tree, unless
the settings are refused. -/
theorem formatDocument_readsBack {s : Settings} (hs : s.passes = .off) (r : Element) :
    (r.height ≤ 64 ↔ ∃ text, Element.ofDocument? text = some r) ∧
      ∀ text, Element.ofDocument? text = some r →
        (s.validate = .ok () →
          ∃ out, formatDocument s .json text = .ok (out, {}) ∧ Element.ofDocument? out = some r) ∧
        ∀ fault, s.validate = .error fault →
          formatDocument s .json text = .error (.refused fault) := by
  refine ⟨Element.exists_document_iff.symm,
    fun text htext => ⟨fun hvalid => ?_, fun fault hfault => ?_⟩⟩
  · have hheight : r.height ≤ 64 := Element.exists_document_iff.mp ⟨text, htext⟩
    refine ⟨Json.document r, ?_, Element.ofDocument?_document hheight⟩
    rw [formatDocument_of_off hs htext, hvalid, Forest.emit, Forest.toElement_ofElement]
  · rw [formatDocument_of_off hs htext, hfault]

/-- A document in which the root is an array, with a pair of surrogates and an escaped slash in its
text, and its child a table with a field that is passed over. It is not written like this again. -/
def escapedDocument : String :=
  "[\x22file\x22, \x22\\ud83d\\ude00\\u0001\\/\x22, \x22\x22, [\x7b\x22line\x22: null, \x22tag\x22: \x22C\x22\x7d]]"

/-- The tree of `escapedDocument`. -/
def escapedTree : Element where
  tag := "file"
  text := "😀\x01/"
  children := [{ tag := "C" }]

theorem formatDocument_readsBack_escapedDocument :
    ({ passes := .off } : Settings).passes = .off ∧
      Element.ofDocument? escapedDocument = some escapedTree ∧
        ∃ out, formatDocument { passes := .off } .json escapedDocument = .ok (out, {}) ∧
          Element.ofDocument? out = some escapedTree := by
  have hlex : Json.lex escapedDocument.toList = some
      [.openArray, .string (some "file"), .comma, .string (some "😀\x01/"), .comma,
        .string (some ""), .comma, .openArray, .openObject, .string (some "line"), .colon,
        .scalar .null, .comma, .string (some "tag"), .colon, .string (some "C"), .closeObject,
        .closeArray, .closeArray] := by
    simp [escapedDocument, Json.lex, Json.lexFrom, Json.step, Json.stepBetween,
      Json.stringToken, Json.escaped?, Json.hexDigit?, Json.decodeUnits, Json.wordToken,
      Json.word?, Json.finish]
  have htree : Element.ofDocument? escapedDocument = some escapedTree := by
    rw [Element.ofDocument?, Json.parse, hlex]
    rfl
  exact ⟨rfl, htree,
    ((formatDocument_readsBack rfl escapedTree).2 escapedDocument htree).1 (by decide)⟩

end FortranLayout
