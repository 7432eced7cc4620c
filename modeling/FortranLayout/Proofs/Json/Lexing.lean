import FortranLayout.Json.Element
import FortranLayout.Json.Printer
import FortranLayout.Json.Token
import FortranLayout.Proofs.Forest.OfElement
import Mathlib.Data.List.Forall2

/-!
# Lexing what is written

The printer writes strings with escapes, and elements over several lines. The lexer takes the
escapes back character by character and skips the layout. `Reads` relates a text to the tokens that
the machine emits on it, wherever it stands; it composes along `++`.
-/

namespace FortranLayout

namespace Json

/-- Reading `s`, the machine emits `tokens` and goes from one state to another, whatever follows. -/
def Reads (state : LexState) (s : List Char) (tokens : List Token) (next : LexState) : Prop :=
  ∀ rest, lexFrom state (s ++ rest) = (lexFrom next rest).map (tokens ++ ·)

namespace Reads

variable {p q r : LexState} {s s' : List Char} {ts ts' : List Token} {c : Char}

theorem nil (p : LexState) : Reads p [] [] p := by
  intro rest
  simp

theorem append (h : Reads p s ts q) (h' : Reads q s' ts' r) : Reads p (s ++ s') (ts ++ ts') r := by
  intro rest
  rw [List.append_assoc, h, h', Option.map_map]
  congr 1
  funext us
  exact (List.append_assoc ts ts' us).symm

theorem char (h : step p c = some (q, ts)) : Reads p [c] ts q := by
  intro rest
  rw [List.singleton_append, lexFrom, h]

/-- A character that completes no token. -/
theorem skip (h : step p c = some (q, [])) (h' : Reads q s ts r) : Reads p (c :: s) ts r :=
  (char h).append h'

/-- A character that completes a token. -/
theorem emit {t : Token} (h : step p c = some (q, [t])) (h' : Reads q s ts r) :
    Reads p (c :: s) (t :: ts) r :=
  (char h).append h'

/-- The whole text is read. -/
theorem lex_eq (h : Reads .between s ts .between) : lex s = some ts := by
  have hend := h []
  rw [List.append_nil] at hend
  rw [lex, hend]
  simp [lexFrom, finish]

end Reads

/-! ## Strings -/

theorem reads_backslash (units : List Nat) : Reads (.inString units) ['\\'] [] (.inEscape units) :=
  .char rfl

theorem reads_shortEscape (units : List Nat) {x : Char} {n : Nat} (hx : escaped? x = some n)
    (hu : x ≠ 'u') :
    Reads (.inString units) ['\\', x] [] (.inString (n :: units)) := by
  have hstep : step (.inEscape units) x = some (.inString (n :: units), []) := by
    simp [step, hu, hx]
  exact (reads_backslash units).append (.char hstep)

theorem hexDigit?_hexDigit : ∀ n < 16, hexDigit? (hexDigit n) = some n := by decide

theorem reads_hexEscape (units : List Nat) {n : Nat} (hn : n < 256) :
    Reads (.inString units) ['\\', 'u', '0', '0', hexDigit (n / 16), hexDigit (n % 16)] []
      (.inString (n :: units)) := by
  have hhigh : step (.inHex units 0 2) (hexDigit (n / 16)) =
      some (.inHex units (n / 16) 3, []) := by
    simp [step, hexDigit?_hexDigit (n / 16) (by omega)]
  have hlow : step (.inHex units (n / 16) 3) (hexDigit (n % 16)) =
      some (.inString (n :: units), []) := by
    have hvalue : n / 16 * 16 + n % 16 = n := Nat.div_add_mod' n 16
    simp [step, hexDigit?_hexDigit (n % 16) (by omega), hvalue]
  have hzeros : Reads (.inEscape units) ['u', '0', '0'] [] (.inHex units 0 2) :=
    .skip (q := .inHex units 0 0) rfl (.skip (q := .inHex units 0 1) rfl (.char rfl))
  exact (reads_backslash units).append (hzeros.append (.skip hhigh (.char hlow)))

/-- A character of a string is read back as its code, however it is written. -/
theorem reads_escapeChar (units : List Nat) (c : Char) :
    Reads (.inString units) (escapeChar c) [] (.inString (c.toNat :: units)) := by
  rw [escapeChar]
  split_ifs with hquote hslash hback htab hline hfeed hreturn hcontrol
  · subst hquote
    exact reads_shortEscape units rfl (by decide)
  · subst hslash
    exact reads_shortEscape units rfl (by decide)
  · subst hback
    exact reads_shortEscape units rfl (by decide)
  · subst htab
    exact reads_shortEscape units rfl (by decide)
  · subst hline
    exact reads_shortEscape units rfl (by decide)
  · subst hfeed
    exact reads_shortEscape units rfl (by decide)
  · subst hreturn
    exact reads_shortEscape units rfl (by decide)
  · exact reads_hexEscape units (by omega)
  · refine .char ?_
    rw [step, if_neg hquote, if_neg hslash, if_neg hcontrol]

theorem reads_escaped (units : List Nat) (s : List Char) :
    Reads (.inString units) (s.flatMap escapeChar) []
      (.inString ((s.map Char.toNat).reverse ++ units)) := by
  induction s generalizing units with
  | nil => exact .nil _
  | cons c s ih =>
    have hrest := (reads_escapeChar units c).append (ih (c.toNat :: units))
    rw [List.flatMap_cons, List.map_cons, List.reverse_cons, List.append_assoc]
    exact hrest

/-- The codes of characters are no surrogates, so that each is a character by itself. -/
theorem decodeUnits_map_toNat (s : List Char) : decodeUnits (s.map Char.toNat) = some s := by
  induction s with
  | nil => rfl
  | cons c s ih =>
    have hvalid : c.toNat < 0xD800 ∨ 0xDFFF < c.toNat := c.valid.imp id fun h => h.1
    have hhigh : ¬ (0xD800 ≤ c.toNat && c.toNat < 0xDC00) = true := by
      simp only [Bool.and_eq_true, decide_eq_true_eq]
      omega
    have hlow : ¬ (0xDC00 ≤ c.toNat && c.toNat < 0xE000) = true := by
      simp only [Bool.and_eq_true, decide_eq_true_eq]
      omega
    rw [List.map_cons]
    unfold decodeUnits
    rw [if_neg hhigh, if_neg hlow, ih, Option.map_some, Char.ofNat_toNat]

theorem reads_quote (s : String) : Reads .between (quote s) [.string (some s)] .between := by
  have htoken : stringToken (s.toList.map Char.toNat).reverse = .string (some s) := by
    rw [stringToken, List.reverse_reverse, decodeUnits_map_toNat, Option.map_some,
      String.ofList_toList]
  have hbody := reads_escaped [] s.toList
  rw [List.append_nil] at hbody
  have hclose : step (.inString (s.toList.map Char.toNat).reverse) '\x22' =
      some (.between, [.string (some s)]) := by
    rw [step, if_pos rfl, htoken]
  exact .skip (q := .inString []) rfl (hbody.append (.char hclose))

/-! ## Values -/

/-- Token lists with a comma between them. -/
def joined : List (List Token) → List Token
  | [] => []
  | [ts] => ts
  | ts :: tss => ts ++ .comma :: joined tss

mutual

/-- The tokens of a value. -/
def tokens : Data → List Token
  | .string s => [.string (some s)]
  | .array items => .openArray :: joined (itemTokens items) ++ [.closeArray]
  | .table fields => .openObject :: joined (fieldTokens fields) ++ [.closeObject]
  | d => [.scalar d]

/-- The tokens of several values. -/
def itemTokens : List Data → List (List Token)
  | [] => []
  | d :: ds => tokens d :: itemTokens ds

/-- The tokens of fields. -/
def fieldTokens : List (String × Data) → List (List Token)
  | [] => []
  | (key, d) :: fields => (.string (some key) :: .colon :: tokens d) :: fieldTokens fields

end

theorem fieldTokens_append (xs ys : List (String × Data)) :
    fieldTokens (xs ++ ys) = fieldTokens xs ++ fieldTokens ys := by
  induction xs with
  | nil => rfl
  | cons x xs ih => rw [List.cons_append, fieldTokens, fieldTokens, ih, List.cons_append]

/-! ## Layout -/

theorem reads_newline (level : Nat) : Reads .between (newline level) [] .between := by
  have hblanks : ∀ n, Reads .between (Text.blanks n) [] .between := by
    intro n
    induction n with
    | zero => exact .nil _
    | succ n ih => exact .skip rfl ih
  exact .skip rfl (hblanks _)

/-- Texts and the tokens that are read from them. -/
abbrev ReadsEach : List (List Char) → List (List Token) → Prop :=
  List.Forall₂ fun s ts => Reads .between s ts .between

theorem ReadsEach.append {texts texts' : List (List Char)} {tss tss' : List (List Token)}
    (h : ReadsEach texts tss) (h' : ReadsEach texts' tss') :
    ReadsEach (texts ++ texts') (tss ++ tss') :=
  List.rel_append h h'

theorem reads_separated (level : Nat) {texts : List (List Char)} {tss : List (List Token)}
    (h : ReadsEach texts tss) : Reads .between (separated level texts) (joined tss) .between := by
  induction h with
  | nil => exact .nil _
  | @cons s ts texts tss hs hrest ih =>
    have hfirst := (reads_newline level).append hs
    cases hrest with
    | nil => exact hfirst
    | cons => exact hfirst.append (.emit rfl ih)

/-- Texts between an opening and a closing character. -/
theorem reads_enclosed {o c : Char} {opening closing : Token}
    (ho : step .between o = some (.between, [opening]))
    (hc : step .between c = some (.between, [closing])) (inner outer : Nat)
    {texts : List (List Char)} {tss : List (List Token)} (h : ReadsEach texts tss) :
    Reads .between (o :: separated inner texts ++ newline outer ++ [c])
      (opening :: joined tss ++ [closing]) .between := by
  have hopen : Reads .between (o :: separated inner texts) (opening :: joined tss) .between :=
    .emit ho (reads_separated inner h)
  have hlines := hopen.append (reads_newline outer)
  rw [List.append_nil] at hlines
  exact hlines.append (.char hc)

theorem reads_field (key : String) {s : List Char} {ts : List Token}
    (h : Reads .between s ts .between) :
    Reads .between (field key s) (.string (some key) :: .colon :: ts) .between :=
  (reads_quote key).append (.emit (q := .between) rfl (.skip rfl h))

/-! ## Elements -/

theorem reads_stringField (key s : String) :
    ReadsEach (stringField key s) (fieldTokens (if s.isEmpty then [] else [(key, .string s)])) := by
  rw [stringField]
  split
  · exact .nil
  · exact .cons (reads_field key (reads_quote s)) .nil

theorem reads_element (level : Nat) (e : Element) :
    Reads .between (element level e) (tokens e.toData) .between := by
  induction e using Element.induct generalizing level with
  | h tag text tail cs ih =>
    have helements : ∀ level,
        ReadsEach (elements level cs) (itemTokens (Element.toDataList cs)) := by
      intro level
      induction cs with
      | nil => exact .nil
      | cons c cs ihcs =>
        exact .cons (ih c List.mem_cons_self level)
          (ihcs fun d hd => ih d (List.mem_cons_of_mem _ hd))
    have hchildren : ReadsEach
        (if cs.isEmpty then []
          else [field "children" ('[' :: separated (level + 2) (elements (level + 2) cs) ++
            newline (level + 1) ++ [']'])])
        (fieldTokens
          (if cs.isEmpty then [] else [("children", .array (Element.toDataList cs))])) := by
      split
      · exact .nil
      · exact .cons (reads_field "children"
          (reads_enclosed rfl rfl (level + 2) (level + 1) (helements (level + 2)))) .nil
    have htag : ReadsEach [field "tag" (quote tag)] (fieldTokens [("tag", .string tag)]) :=
      .cons (reads_field "tag" (reads_quote tag)) .nil
    have hfields := ((htag.append (reads_stringField "text" text)).append
      (reads_stringField "tail" tail)).append hchildren
    rw [← fieldTokens_append, ← fieldTokens_append, ← fieldTokens_append] at hfields
    rw [element, Element.toData, tokens]
    exact reads_enclosed rfl rfl (level + 1) level hfields

end Json

end FortranLayout
