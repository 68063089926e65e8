-- Scanning canonical text. Every piece of it is one token, whatever the pieces around it are:
-- no two neighbours run together into another token.
import ScriptLang.Proofs.Canonical
import ScriptLang.Proofs.Counters

namespace ScriptLang

/-! ## Pieces of text -/

/-- A text that is read as tokens of the given shapes where `rest` stands behind it. -/
def Lexes (text : List Char) (shapes : List Shape) (rest : List Char) : Prop :=
  ∀ position, ∃ ts : List Token, ts.map Token.shape = shapes ∧
    (scanFrom position (text ++ rest)).1 = ts ++ (scanFrom (position.advance text) rest).1

namespace Lexes

variable {a b rest : List Char} {s t : List Shape}

theorem append (h : Lexes a s (b ++ rest)) (h' : Lexes b t rest) :
    Lexes (a ++ b) (s ++ t) rest := by
  intro position
  obtain ⟨ts, hts, hscan⟩ := h position
  obtain ⟨ts', hts', hscan'⟩ := h' (position.advance a)
  refine ⟨ts ++ ts', by rw [List.map_append, hts, hts'], ?_⟩
  rw [List.append_assoc, hscan, hscan', Position.advance_append, List.append_assoc]

theorem nil : Lexes [] [] rest := fun _ => ⟨[], rfl, rfl⟩

theorem token {c : Char} {cs : List Char} {kind : TokenKind} {literal : String}
    (h : Lexeme.first c (cs ++ rest) = .token kind (c :: cs))
    (hl : Lexeme.literal kind (c :: cs) = literal) : Lexes (c :: cs) [(kind, literal)] rest := by
  intro position
  refine ⟨[⟨kind, literal, position⟩], rfl, ?_⟩
  rw [List.cons_append, scanFrom]
  simp only [h, hl, Lexeme.raw, List.length_cons, Nat.add_sub_cancel, List.drop_left]
  rfl

theorem gap {c : Char} {cs : List Char} (h : Lexeme.first c (cs ++ rest) = .gap (c :: cs)) :
    Lexes (c :: cs) [] rest := by
  intro position
  refine ⟨[], rfl, ?_⟩
  rw [List.cons_append, scanFrom]
  simp only [h, Lexeme.raw, List.length_cons, Nat.add_sub_cancel, List.drop_left]
  rfl

end Lexes

/-! ## What may stand behind a name or a number -/

/-- Text that goes on no name and no number before it. -/
def Apart (rest : List Char) : Prop :=
  ∀ c cs, rest = c :: cs → isNameRest c = false ∧
    (c = '.' → ∀ d ds, cs = d :: ds → d.isDigit = false)

theorem apart_nil : Apart [] := by
  intro c cs h
  cases h

theorem apart_cons {c : Char} (hc : isNameRest c = false) (hdot : c ≠ '.') (cs : List Char) :
    Apart (c :: cs) := by
  rintro _ _ ⟨⟩
  exact ⟨hc, fun h => absurd h hdot⟩

theorem isDigit_of_not_isNameRest {c : Char} (h : isNameRest c = false) : c.isDigit = false := by
  simp only [isNameRest, Bool.or_eq_false_iff] at h
  exact h.1.2

theorem isDigit_of_isNameStart {c : Char} (h : isNameStart c = true) : c.isDigit = false := by
  rw [Bool.eq_false_iff, ne_eq, Char.isDigit_iff_toNat]
  rintro ⟨-, hnine⟩
  change (decide ('A'.val ≤ c.val ∧ c.val ≤ 'Z'.val) ||
    (decide ('a'.val ≤ c.val) && decide (c.val ≤ 'z'.val)) || c == '_') = true at h
  simp only [Bool.or_eq_true, Bool.and_eq_true, decide_eq_true_eq, beq_iff_eq,
    UInt32.le_iff_toNat_le] at h
  -- Every letter, and the underscore, comes after the digits.
  have hletter : 'A'.toNat ≤ c.toNat := by
    rcases h with (⟨hupper, -⟩ | ⟨hlower, -⟩) | rfl
    · exact hupper
    · exact Nat.le_trans (by decide) hlower
    · decide
  exact absurd (Nat.le_trans hletter hnine) (by decide)

/-- A character of a class that line feeds and blanks are not in. -/
theorem not_blank_of_class {p : Char → Bool} (hline : p '\n' = false) (hspace : p ' ' = false)
    (htab : p '\t' = false) (hreturn : p '\r' = false) (hfeed : p '\x0c' = false) {c : Char}
    (hc : p c = true) : c ≠ '\n' ∧ isBlank c = false := by
  have hne (d : Char) (hd : p d = false) : c ≠ d := by
    rintro rfl
    rw [hc] at hd
    cases hd
  refine ⟨hne _ hline, ?_⟩
  simp [isBlank, hne _ hspace, hne _ htab, hne _ hreturn, hne _ hfeed]

theorem takeWhile_apart {p : Char → Bool} {word rest : List Char} (hw : ∀ c ∈ word, p c = true)
    (hr : ∀ c cs, rest = c :: cs → p c = false) : (word ++ rest).takeWhile p = word := by
  rw [List.takeWhile_append_of_pos hw]
  cases rest with
  | nil => simp
  | cons c cs => simp [hr c cs rfl]

theorem ofWord_mem (word : String) :
    TokenKind.ofWord word ∈ TokenKind.name :: TokenKind.keywords := by
  unfold TokenKind.ofWord
  cases hk : TokenKind.keyword? word with
  | none => exact List.mem_cons_self
  | some kind => exact List.mem_cons_of_mem _ (List.mem_of_find?_eq_some hk)

theorem ofWord_ne_string (word : String) : TokenKind.ofWord word ≠ .string :=
  fun h => absurd (h ▸ ofWord_mem word) (by decide)

theorem literal_of_ne_string {kind : TokenKind} (h : kind ≠ .string) (raw : List Char) :
    Lexeme.literal kind raw = String.ofList raw := if_neg h

/-- A word that starts like a name is a token up to the end of the word. -/
theorem lexes_word {c : Char} {cs rest : List Char} (hc : isNameStart c = true)
    (hcs : ∀ d ∈ cs, isNameRest d = true) (hr : Apart rest) :
    Lexes (c :: cs) [(.ofWord (String.ofList (c :: cs)), String.ofList (c :: cs))] rest := by
  obtain ⟨hline, hblank⟩ := not_blank_of_class rfl rfl rfl rfl rfl hc
  have hword : (cs ++ rest).takeWhile isNameRest = cs :=
    takeWhile_apart hcs fun d ds hd => (hr d ds hd).1
  have hfirst : Lexeme.first c (cs ++ rest) =
      .token (.ofWord (String.ofList (c :: cs))) (c :: cs) := by
    unfold Lexeme.first
    rw [if_neg hline, if_neg (by simp [hblank]), if_neg (by simp [isDigit_of_isNameStart hc]),
      if_pos hc, hword]
  exact .token hfirst (literal_of_ne_string (ofWord_ne_string _) (c :: cs))

theorem lexes_name {name : String} (h : IsName name) {rest : List Char} (hr : Apart rest) :
    Lexes name.toList [(.name, name)] rest := by
  obtain ⟨hword, c, cs, hname, hc, hcs⟩ := h
  have hback : String.ofList (c :: cs) = name := by rw [← hname, String.ofList_toList]
  have hlex := lexes_word hc hcs hr
  rw [hback, TokenKind.ofWord, hword] at hlex
  rw [hname]
  exact hlex

theorem hexTail_apart {cs rest : List Char} (hcs : ∀ d ∈ cs, d.isDigit = true)
    (hr : Apart rest) : Lexeme.hexTail (cs ++ rest) = [] := by
  cases cs with
  | cons d ds =>
    have hd := hcs d (by simp)
    have hne : ¬(d = 'x' ∨ d = 'X') := by
      rintro (rfl | rfl) <;> cases hd
    exact if_neg hne
  | nil =>
    cases rest with
    | nil => rfl
    | cons d ds =>
      have hd := (hr d ds rfl).1
      have hne : ¬(d = 'x' ∨ d = 'X') := by
        rintro (rfl | rfl) <;> cases hd
      exact if_neg hne

theorem fraction_apart {rest : List Char} (hr : Apart rest) : Lexeme.fraction rest = [] := by
  unfold Lexeme.fraction
  split
  · rename_i ds
    cases ds with
    | nil => rfl
    | cons d ds => simp [(hr _ _ rfl).2 rfl d ds rfl]
  · rfl

theorem exponent_apart {rest : List Char} (hr : Apart rest) : Lexeme.exponent rest = [] := by
  cases rest with
  | nil => rfl
  | cons d ds =>
    have hd := (hr d ds rfl).1
    have hne : ¬(d = 'e' ∨ d = 'E') := by
      rintro (rfl | rfl) <;> cases hd
    exact if_neg hne

/-- Digits are a number up to the last digit. -/
theorem lexes_digits {c : Char} {cs rest : List Char} (hc : c.isDigit = true)
    (hcs : ∀ d ∈ cs, d.isDigit = true) (hr : Apart rest) :
    Lexes (c :: cs) [(.int, String.ofList (c :: cs))] rest := by
  obtain ⟨hline, hblank⟩ := not_blank_of_class rfl rfl rfl rfl rfl hc
  have hrest : ∀ d ds, rest = d :: ds → d.isDigit = false := fun d ds hd =>
    isDigit_of_not_isNameRest (hr d ds hd).1
  have hwhole : (cs ++ rest).takeWhile Char.isDigit = cs := takeWhile_apart hcs hrest
  have hdrop : (cs ++ rest).dropWhile Char.isDigit = rest := by
    rw [List.dropWhile_append_of_pos hcs]
    cases rest with
    | nil => rfl
    | cons d ds => simp [hrest d ds rfl]
  have hfirst : Lexeme.first c (cs ++ rest) = .token .int (c :: cs) := by
    unfold Lexeme.first
    rw [if_neg hline, if_neg (by simp [hblank]), if_pos hc]
    unfold Lexeme.number
    simp [hexTail_apart hcs hr, hwhole, hdrop, fraction_apart hr, exponent_apart hr]
  exact .token hfirst (literal_of_ne_string (by decide) (c :: cs))

/-- The text of a number that is not negative is made of digits. -/
theorem integerText_digits {value : Int64} (h : 0 ≤ value.toInt) :
    ∃ n : Nat, value.toInt = n ∧ (toString value.toInt).toList = Nat.toDigits 10 n := by
  obtain ⟨n, hn⟩ := Int.eq_ofNat_of_zero_le h
  refine ⟨n, hn, ?_⟩
  rw [hn]
  exact Nat.toList_repr

theorem digits_cons (n : Nat) :
    ∃ c cs, Nat.toDigits 10 n = c :: cs ∧ c.isDigit = true ∧ ∀ d ∈ cs, d.isDigit = true := by
  have hdigits : ∀ d ∈ Nat.toDigits 10 n, d.isDigit = true := fun d hd =>
    Nat.isDigit_of_mem_toDigits (by decide) (by decide) hd
  cases hd : Nat.toDigits 10 n with
  | nil => exact absurd hd Nat.toDigits_ne_nil
  | cons c cs =>
    rw [hd] at hdigits
    exact ⟨c, cs, rfl, hdigits c (by simp), fun d h => hdigits d (by simp [h])⟩

theorem lexes_integer {value : Int64} (h : 0 ≤ value.toInt) {rest : List Char} (hr : Apart rest) :
    Lexes (toString value.toInt).toList [(.int, toString value.toInt)] rest := by
  obtain ⟨n, -, htext⟩ := integerText_digits h
  obtain ⟨c, cs, hdigits, hc, hcs⟩ := digits_cons n
  have hback : String.ofList (c :: cs) = toString value.toInt := by
    rw [← hdigits, ← htext, String.ofList_toList]
  rw [htext, hdigits, ← hback]
  exact lexes_digits hc hcs hr

theorem lexes_string {value : String} (h : '"' ∉ value.toList) (rest : List Char) :
    Lexes (quoted value).toList [(.string, value)] rest := by
  have htext : (quoted value).toList = '"' :: (value.toList ++ ['"']) := by
    simp [quoted]
  have hbody : (value.toList ++ ['"'] ++ rest).takeWhile (· ≠ '"') = value.toList := by
    rw [List.append_assoc]
    refine takeWhile_apart ?_ ?_
    · intro c hc
      have hne : c ≠ '"' := fun heq => h (heq ▸ hc)
      simpa using hne
    · rintro _ _ ⟨⟩
      rfl
  have hfirst : Lexeme.first '"' (value.toList ++ ['"'] ++ rest) =
      .token .string ('"' :: (value.toList ++ ['"'])) := by
    change (if (value.toList ++ ['"'] ++ rest).contains '"' then _ else _) = _
    rw [if_pos (by simp), hbody]
  have hliteral : Lexeme.literal .string ('"' :: (value.toList ++ ['"'])) = value := by
    simp [Lexeme.literal]
  rw [htext]
  exact .token hfirst hliteral

/-! ## Signs -/

/-- The characters that the text of an expression starts with. -/
def startsOperand (c : Char) : Bool :=
  c.isDigit || isNameStart c || c == '"' || c == '(' || c == '[' || c == '\x7b'

/-- The signs that stand between blanks. -/
def spacedSigns : List TokenKind :=
  [.plus, .minus, .star, .slash, .percent, .starStar, .less, .greater, .lessEqual, .greaterEqual,
   .equal, .notEqual, .and, .or, .assign, .plusAssign, .minusAssign, .starAssign, .slashAssign,
   .question, .colon, .elvis]

/-- A blank before an expression. -/
theorem lexes_blank {c : Char} (hc : isBlank c = false) (cs : List Char) :
    Lexes [' '] [] (c :: cs) := by
  refine .gap ?_
  change Lexeme.gap (' ' :: (c :: cs).takeWhile isBlank) = _
  simp [hc]

theorem lexes_spaced {kind : TokenKind} (h : kind ∈ spacedSigns) {c : Char}
    (hc : isBlank c = false) (cs : List Char) :
    Lexes (' ' :: (kind.text.toList ++ [' '])) [kind.shape] (c :: cs) := by
  have hblank := lexes_blank hc cs
  have hsign : Lexes [' '] [] (kind.text.toList ++ [' '] ++ c :: cs) ∧
      Lexes kind.text.toList [kind.shape] ([' '] ++ c :: cs) := by
    simp only [spacedSigns, List.mem_cons, List.not_mem_nil, or_false] at h
    rcases h with rfl | rfl | rfl | rfl | rfl | rfl | rfl | rfl | rfl | rfl | rfl | rfl | rfl |
      rfl | rfl | rfl | rfl | rfl | rfl | rfl | rfl | rfl <;> exact ⟨.gap rfl, .token rfl rfl⟩
  exact hsign.1.append (hsign.2.append hblank)

/-- An operator before its operand does not run into it. -/
theorem lexes_unary (op : UnaryOp) {c : Char} (hc : startsOperand c = true) (cs : List Char) :
    Lexes op.text.toList [op.kind.shape] (c :: cs) := by
  have hne (d : Char) (hd : startsOperand d = false) : c ≠ d := by
    rintro rfl
    rw [hc] at hd
    cases hd
  have hequal := hne '=' rfl
  have hminus := hne '-' rfl
  cases op with
  | negate =>
    have hfirst : Lexeme.first '-' (c :: cs) = .token .minus ['-'] := by
      have hsign : Lexeme.sign? ('-' :: c :: cs) = some .minus := by
        simp [Lexeme.sign?, TokenKind.signs, TokenKind.text, hequal.symm, hminus.symm]
      unfold Lexeme.first
      rw [hsign]
      rfl
    exact .token hfirst rfl
  | not =>
    have hfirst : Lexeme.first '!' (c :: cs) = .token .bang ['!'] := by
      have hsign : Lexeme.sign? ('!' :: c :: cs) = some .bang := by
        simp [Lexeme.sign?, TokenKind.signs, TokenKind.text, hequal.symm]
      unfold Lexeme.first
      rw [hsign]
      rfl
    exact .token hfirst rfl

/-- A comma or a colon with a blank behind it. -/
theorem lexes_punctuation {kind : TokenKind} (h : kind ∈ [.comma, .colon]) {c : Char}
    (hc : isBlank c = false) (cs : List Char) :
    Lexes (kind.text.toList ++ [' ']) [kind.shape] (c :: cs) := by
  have hsign : Lexes kind.text.toList [kind.shape] ([' '] ++ c :: cs) := by
    simp only [List.mem_cons, List.not_mem_nil, or_false] at h
    rcases h with rfl | rfl <;> exact .token rfl rfl
  exact hsign.append (lexes_blank hc cs)

/-! ## Expressions -/

theorem isBlank_of_startsOperand {c : Char} (h : startsOperand c = true) : isBlank c = false :=
  (not_blank_of_class rfl rfl rfl rfl rfl h).2

/-- Text that starts like an expression. -/
def StartsOperand (text : List Char) : Prop := ∃ c cs, text = c :: cs ∧ startsOperand c = true

theorem StartsOperand.append {a : List Char} (h : StartsOperand a) (b : List Char) :
    StartsOperand (a ++ b) := by
  obtain ⟨c, cs, rfl, hc⟩ := h
  exact ⟨c, cs ++ b, rfl, hc⟩

theorem IsName.startsOperand {name : String} (h : IsName name) : StartsOperand name.toList := by
  obtain ⟨-, c, cs, hname, hc, -⟩ := h
  exact ⟨c, cs, hname, by simp [ScriptLang.startsOperand, hc]⟩

/-- Text between parentheses. -/
def inParens (inner : List Char) : List Char := '(' :: (inner ++ [')'])

theorem startsOperand_inParens (inner : List Char) : StartsOperand (inParens inner) :=
  ⟨'(', inner ++ [')'], rfl, rfl⟩

/-- A sign with blanks around it. -/
def spaced (sign : String) : List Char := ' ' :: (sign.toList ++ [' '])

section Text

variable (p : Position)

theorem toList_unary (op : UnaryOp) (e : Expr) :
    (Expr.unary op e p).text.toList = inParens (op.text.toList ++ e.text.toList) := by
  change ("(" ++ op.text ++ e.text ++ ")").toList = _
  simp [inParens]

theorem toList_binary (op : BinaryOp) (l r : Expr) :
    (Expr.binary op l r p).text.toList =
      inParens (l.text.toList ++ (spaced op.text ++ r.text.toList)) := by
  change ("(" ++ l.text ++ " " ++ op.text ++ " " ++ r.text ++ ")").toList = _
  simp [inParens, spaced]

theorem toList_step (op : StepOp) (name : String) :
    (Expr.step op name p).text.toList = inParens (name.toList ++ op.text.toList) := by
  change ("(" ++ name ++ op.text ++ ")").toList = _
  simp [inParens]

theorem toList_assign (target : Expr) (op : Option BinaryOp) (value : Expr) :
    (Expr.assign target op value p).text.toList =
      inParens (target.text.toList ++ (spaced (assignSign op) ++ value.text.toList)) := by
  change ("(" ++ target.text ++ " " ++ assignSign op ++ " " ++ value.text ++ ")").toList = _
  simp [inParens, spaced]

theorem toList_call (f : Expr) (args : List Expr) :
    (Expr.call f args p).text.toList =
      f.text.toList ++ inParens (commaSeparated (exprTexts args)).toList := by
  change (f.text ++ "(" ++ commaSeparated (exprTexts args) ++ ")").toList = _
  simp [inParens]

theorem toList_index (c k : Expr) :
    (Expr.index c k p).text.toList =
      inParens (c.text.toList ++ ('[' :: (k.text.toList ++ [']']))) := by
  change ("(" ++ c.text ++ "[" ++ k.text ++ "])").toList = _
  simp [inParens]

theorem toList_array (es : List Expr) :
    (Expr.array es p).text.toList =
      '[' :: ((commaSeparated (exprTexts es)).toList ++ [']']) := by
  change ("[" ++ commaSeparated (exprTexts es) ++ "]").toList = _
  simp

theorem toList_hash (pairs : List (Expr × Expr)) :
    (Expr.hash pairs p).text.toList =
      '\x7b' :: ((commaSeparated (pairTexts pairs)).toList ++ ['\x7d']) := by
  change (openBrace ++ commaSeparated (pairTexts pairs) ++ closeBrace).toList = _
  simp [openBrace, closeBrace]

theorem toList_ternary (c t e : Expr) :
    (Expr.ternary c t e p).text.toList =
      inParens (c.text.toList ++ (spaced "?" ++ (t.text.toList ++ (spaced ":" ++
        e.text.toList)))) := by
  change ("(" ++ c.text ++ " ? " ++ t.text ++ " : " ++ e.text ++ ")").toList = _
  simp [inParens, spaced]

theorem toList_elvis (l r : Expr) :
    (Expr.elvis l r p).text.toList =
      inParens (l.text.toList ++ (spaced "?:" ++ r.text.toList)) := by
  change ("(" ++ l.text ++ " ?: " ++ r.text ++ ")").toList = _
  simp [inParens, spaced]

theorem toList_methodCall (r : Expr) (method : String) (args : List Expr) :
    (Expr.methodCall r method args p).text.toList =
      r.text.toList ++ ('.' :: (method.toList ++
        inParens (commaSeparated (exprTexts args)).toList)) := by
  change (r.text ++ "." ++ method ++ "(" ++ commaSeparated (exprTexts args) ++ ")").toList = _
  simp [inParens]

theorem toList_scopeAccess (name branch : String) :
    (Expr.scopeAccess name branch p).text.toList =
      name.toList ++ (':' :: ':' :: branch.toList) := by
  change (name ++ "::" ++ branch).toList = _
  simp

end Text

/-- The text of an expression starts with a character that goes on no sign before it. -/
theorem Canonical.startsOperand {e : Expr} (h : Canonical e) : StartsOperand e.text.toList := by
  induction h with
  | @integer value hv p =>
    change StartsOperand (toString value.toInt).toList
    obtain ⟨n, -, htext⟩ := integerText_digits hv
    obtain ⟨c, cs, hdigits, hc, -⟩ := digits_cons n
    exact ⟨c, cs, htext.trans hdigits, by simp [ScriptLang.startsOperand, hc]⟩
  | @string value hv p =>
    refine ⟨'"', value.toList ++ ['"'], ?_, rfl⟩
    change (quoted value).toList = _
    simp [quoted]
  | boolean value p =>
    change StartsOperand (boolText value).toList
    cases value with
    | true => exact ⟨'t', ['r', 'u', 'e'], rfl, rfl⟩
    | false => exact ⟨'f', ['a', 'l', 's', 'e'], rfl, rfl⟩
  | null p =>
    change StartsOperand "null".toList
    exact ⟨'n', ['u', 'l', 'l'], rfl, rfl⟩
  | identifier hn p => exact hn.startsOperand
  | unary op _ p => rw [toList_unary]; exact startsOperand_inParens _
  | binary op _ _ p => rw [toList_binary]; exact startsOperand_inParens _
  | step op hn p => rw [toList_step]; exact startsOperand_inParens _
  | assign _ _ _ _ p => rw [toList_assign]; exact startsOperand_inParens _
  | call _ _ p ihf _ => rw [toList_call]; exact ihf.append _
  | index _ _ p => rw [toList_index]; exact startsOperand_inParens _
  | array _ p => rw [toList_array]; exact ⟨_, _, rfl, rfl⟩
  | hash _ _ p => rw [toList_hash]; exact ⟨_, _, rfl, rfl⟩
  | ternary _ _ _ p => rw [toList_ternary]; exact startsOperand_inParens _
  | elvis _ _ p => rw [toList_elvis]; exact startsOperand_inParens _
  | methodCall _ _ _ p ihr _ => rw [toList_methodCall]; exact ihr.append _
  | scopeAccess hn _ p => rw [toList_scopeAccess]; exact hn.startsOperand.append _

/-- A text that is read as tokens of the given shapes, if nothing behind it goes on with it. -/
structure Piece (text : String) (shapes : List Shape) : Prop where
  starts : StartsOperand text.toList
  lexes : ∀ rest, Apart rest → Lexes text.toList shapes rest

/-- Texts that are read as tokens, one after the other. -/
inductive Pieces : List String → List (List Shape) → Prop where
  | nil : Pieces [] []
  | cons {text : String} {shapes : List Shape} {texts : List String} {others : List (List Shape)}
      (h : Piece text shapes) (ht : Pieces texts others) : Pieces (text :: texts) (shapes :: others)

/-- An operator between two texts. -/
theorem lexes_between (kind : TokenKind) (hk : kind ∈ spacedSigns) {l : String} {r : List Char}
    {sl sr : List Shape} {rest : List Char} (hl : Piece l sl) (hs : StartsOperand r)
    (hr : Lexes r sr rest) :
    Lexes (l.toList ++ (spaced kind.text ++ r)) (sl ++ kind.shape :: sr) rest := by
  have hsign : Lexes (spaced kind.text) [kind.shape] (r ++ rest) := by
    obtain ⟨c, cs, hstart, hc⟩ := hs.append rest
    rw [hstart]
    exact lexes_spaced hk (isBlank_of_startsOperand hc) cs
  exact (hl.lexes _ (apart_cons rfl (by decide) _)).append (hsign.append hr)

/-- A comma or a colon between two texts. -/
theorem lexes_punctuated (kind : TokenKind) (hk : kind ∈ [.comma, .colon]) {l : String}
    {r : List Char} {sl sr : List Shape} {rest : List Char} (hl : Piece l sl)
    (hs : StartsOperand r) (hr : Lexes r sr rest) :
    Lexes (l.toList ++ (kind.text.toList ++ [' '] ++ r)) (sl ++ kind.shape :: sr) rest := by
  have hsign : Lexes (kind.text.toList ++ [' ']) [kind.shape] (r ++ rest) := by
    obtain ⟨c, cs, hstart, hc⟩ := hs.append rest
    rw [hstart]
    exact lexes_punctuation hk (isBlank_of_startsOperand hc) cs
  have hapart : Apart (kind.text.toList ++ [' '] ++ r ++ rest) := by
    simp only [List.mem_cons, List.not_mem_nil, or_false] at hk
    rcases hk with rfl | rfl <;> exact apart_cons rfl (by decide) _
  exact (hl.lexes _ hapart).append (hsign.append hr)

/-- Text between parentheses. -/
theorem lexes_inParens {inner : List Char} {shapes : List Shape} {rest : List Char}
    (h : Lexes inner shapes (')' :: rest)) : Lexes (inParens inner) (enclosed shapes) rest := by
  have hopen : Lexes ['('] [TokenKind.leftParen.shape] (inner ++ [')'] ++ rest) := .token rfl rfl
  have hclose : Lexes [')'] [TokenKind.rightParen.shape] rest := .token rfl rfl
  exact hopen.append (h.append hclose)

theorem apart_rightParen (rest : List Char) : Apart (')' :: rest) :=
  apart_cons rfl (by decide) rest

theorem commaSeparated_cons_cons (a b : String) (rest : List String) :
    (commaSeparated (a :: b :: rest)).toList =
      a.toList ++ (TokenKind.comma.text.toList ++ [' '] ++
        (commaSeparated (b :: rest)).toList) := by
  unfold commaSeparated
  rw [String.intercalate_cons_cons]
  simp [TokenKind.text]

theorem Pieces.starts {texts : List String} {shapes : List (List Shape)} (h : Pieces texts shapes)
    (hne : texts ≠ []) : StartsOperand (commaSeparated texts).toList := by
  cases h with
  | nil => exact absurd rfl hne
  | cons hpiece htail =>
    cases htail with
    | nil =>
      unfold commaSeparated
      rw [String.intercalate_singleton]
      exact hpiece.starts
    | cons hnext hrest =>
      rw [commaSeparated_cons_cons]
      exact hpiece.starts.append _

/-- Texts with commas between them. -/
theorem Pieces.lexes {texts : List String} {shapes : List (List Shape)} (h : Pieces texts shapes)
    {rest : List Char} (hr : Apart rest) :
    Lexes (commaSeparated texts).toList (separated shapes) rest := by
  induction h with
  | nil => exact .nil
  | cons hpiece htail ih =>
    cases htail with
    | nil =>
      unfold commaSeparated
      rw [String.intercalate_singleton]
      exact hpiece.lexes rest hr
    | cons hnext hrest =>
      rw [commaSeparated_cons_cons]
      have hstarts := (Pieces.cons hnext hrest).starts (by simp)
      exact lexes_punctuated .comma (by decide) hpiece hstarts ih

theorem pieces_exprs {es : List Expr} (h : ∀ e ∈ es, Piece e.text e.shapes) :
    Pieces (exprTexts es) (exprShapes es) := by
  induction es with
  | nil => exact .nil
  | cons e es ih => exact .cons (h e (by simp)) (ih fun e' he => h e' (by simp [he]))

theorem pieces_pairs {pairs : List (Expr × Expr)}
    (hk : ∀ pair ∈ pairs, Piece pair.1.text pair.1.shapes)
    (hv : ∀ pair ∈ pairs, Piece pair.2.text pair.2.shapes) :
    Pieces (pairTexts pairs) (pairShapes pairs) := by
  induction pairs with
  | nil => exact .nil
  | cons pair pairs ih =>
    have hkey := hk pair (by simp)
    have hvalue := hv pair (by simp)
    have htext : (pair.1.text ++ ": " ++ pair.2.text).toList =
        pair.1.text.toList ++ (TokenKind.colon.text.toList ++ [' '] ++ pair.2.text.toList) := by
      simp [TokenKind.text]
    have hpiece : Piece (pair.1.text ++ ": " ++ pair.2.text)
        (pair.1.shapes ++ TokenKind.colon.shape :: pair.2.shapes) := by
      refine ⟨?_, fun rest hr => ?_⟩
      · rw [htext]
        exact hkey.starts.append _
      · rw [htext]
        exact lexes_punctuated .colon (by decide) hkey hvalue.starts (hvalue.lexes rest hr)
    exact .cons hpiece (ih (fun q hq => hk q (by simp [hq])) fun q hq => hv q (by simp [hq]))

theorem BinaryOp.kind_mem_spacedSigns (op : BinaryOp) : op.kind ∈ spacedSigns := by
  cases op <;> decide

theorem assignKind_mem_spacedSigns (op : Option BinaryOp) : assignKind op ∈ spacedSigns := by
  rcases op with _ | op
  · decide
  · cases op <;> decide

theorem lexes_boolText (value : Bool) {rest : List Char} (hr : Apart rest) :
    Lexes (boolText value).toList
      [(if value then TokenKind.trueWord else .falseWord, boolText value)] rest := by
  cases value with
  | true =>
    have hrest : ∀ d ∈ ['r', 'u', 'e'], isNameRest d = true := List.all_eq_true.mp rfl
    exact lexes_word (c := 't') rfl hrest hr
  | false =>
    have hrest : ∀ d ∈ ['a', 'l', 's', 'e'], isNameRest d = true := List.all_eq_true.mp rfl
    exact lexes_word (c := 'f') rfl hrest hr

theorem lexes_null {rest : List Char} (hr : Apart rest) :
    Lexes "null".toList [TokenKind.nullWord.shape] rest := by
  have hrest : ∀ d ∈ ['u', 'l', 'l'], isNameRest d = true := List.all_eq_true.mp rfl
  exact lexes_word (c := 'n') rfl hrest hr

/-- Arguments between parentheses. -/
theorem lexes_arguments {args : List Expr} (h : ∀ a ∈ args, Piece a.text a.shapes)
    (rest : List Char) :
    Lexes (inParens (commaSeparated (exprTexts args)).toList)
      (enclosed (separated (exprShapes args))) rest :=
  lexes_inParens ((pieces_exprs h).lexes (apart_rightParen rest))

/-- A dot before a name is no fraction. -/
theorem apart_method {method : String} (h : IsName method) (args rest : List Char) :
    Apart ('.' :: (method.toList ++ args) ++ rest) := by
  rintro _ _ ⟨⟩
  refine ⟨rfl, fun _ d ds hd => ?_⟩
  obtain ⟨-, c, cs, hname, hc, -⟩ := h
  rw [hname] at hd
  cases hd
  exact isDigit_of_isNameStart hc

/-- The text of an expression is read as the tokens of the expression. -/
theorem Canonical.lexes {e : Expr} (h : Canonical e) :
    ∀ rest, Apart rest → Lexes e.text.toList e.shapes rest := by
  have piece {e : Expr} (h : Canonical e)
      (ih : ∀ rest, Apart rest → Lexes e.text.toList e.shapes rest) : Piece e.text e.shapes :=
    ⟨h.startsOperand, ih⟩
  induction h with
  | integer hv p => exact fun rest hr => lexes_integer hv hr
  | string hv p => exact fun rest _ => lexes_string hv rest
  | boolean value p => exact fun rest hr => lexes_boolText value hr
  | null p => exact fun rest hr => lexes_null hr
  | identifier hn p => exact fun rest hr => lexes_name hn hr
  | @unary op operand ho p ih =>
    intro rest _
    rw [toList_unary]
    have hop : Lexes op.text.toList [op.kind.shape] (operand.text.toList ++ ')' :: rest) := by
      obtain ⟨c, cs, hstart, hc⟩ := ho.startsOperand.append (')' :: rest)
      rw [hstart]
      exact lexes_unary op hc cs
    exact lexes_inParens (hop.append (ih _ (apart_rightParen rest)))
  | binary op hl hr p ihl ihr =>
    intro rest _
    rw [toList_binary, ← op.text_kind]
    exact lexes_inParens (lexes_between op.kind op.kind_mem_spacedSigns (piece hl ihl)
      hr.startsOperand (ihr _ (apart_rightParen rest)))
  | @step op name hn p =>
    intro rest _
    rw [toList_step]
    have hop : Lexes op.text.toList [op.kind.shape] (')' :: rest) := by
      cases op <;> exact .token rfl rfl
    have hname : Lexes name.toList [(.name, name)] (op.text.toList ++ ')' :: rest) := by
      refine lexes_name hn ?_
      cases op <;> exact apart_cons rfl (by decide) _
    exact lexes_inParens (hname.append hop)
  | @assign target value op ht htarget hop hv p iht ihv =>
    intro rest _
    rw [toList_assign, ← text_assignKind hop]
    have hkind := assignKind_mem_spacedSigns op
    exact lexes_inParens (lexes_between (assignKind op) hkind (piece ht iht) hv.startsOperand
      (ihv _ (apart_rightParen rest)))
  | call hf ha p ihf iha =>
    intro rest _
    rw [toList_call]
    have hargs := lexes_arguments (fun a h => piece (ha a h) (iha a h)) rest
    exact (ihf _ (apart_cons rfl (by decide) _)).append hargs
  | index hc hk p ihc ihk =>
    intro rest _
    rw [toList_index]
    have hopen (next : List Char) : Lexes ['['] [TokenKind.leftBracket.shape] next := .token rfl rfl
    have hclose : Lexes [']'] [TokenKind.rightBracket.shape] (')' :: rest) := .token rfl rfl
    have hkey := (ihk _ (apart_cons rfl (by decide) _)).append hclose
    exact lexes_inParens ((ihc _ (apart_cons rfl (by decide) _)).append ((hopen _).append hkey))
  | array he p ihe =>
    intro rest _
    rw [toList_array]
    have hitems := (pieces_exprs fun e h => piece (he e h) (ihe e h)).lexes
      (apart_cons (c := ']') rfl (by decide) rest)
    have hopen (next : List Char) : Lexes ['['] [TokenKind.leftBracket.shape] next := .token rfl rfl
    have hclose : Lexes [']'] [TokenKind.rightBracket.shape] rest := .token rfl rfl
    exact (hopen _).append (hitems.append hclose)
  | hash hk hv p ihk ihv =>
    intro rest _
    rw [toList_hash]
    have hitems := (pieces_pairs (fun q h => piece (hk q h) (ihk q h))
      fun q h => piece (hv q h) (ihv q h)).lexes (apart_cons (c := '\x7d') rfl (by decide) rest)
    have hopen (next : List Char) : Lexes ['\x7b'] [TokenKind.leftBrace.shape] next :=
      .token rfl rfl
    have hclose : Lexes ['\x7d'] [TokenKind.rightBrace.shape] rest := .token rfl rfl
    exact (hopen _).append (hitems.append hclose)
  | ternary hc ht he p ihc iht ihe =>
    intro rest _
    rw [toList_ternary]
    have helse := lexes_between .colon (by decide) (piece ht iht) he.startsOperand
      (ihe _ (apart_rightParen rest))
    exact lexes_inParens (lexes_between .question (by decide) (piece hc ihc)
      (ht.startsOperand.append _) helse)
  | elvis hl hr p ihl ihr =>
    intro rest _
    rw [toList_elvis]
    exact lexes_inParens (lexes_between .elvis (by decide) (piece hl ihl) hr.startsOperand
      (ihr _ (apart_rightParen rest)))
  | methodCall hr hm ha p ihr iha =>
    intro rest _
    rw [toList_methodCall]
    have hargs := lexes_arguments (fun a h => piece (ha a h) (iha a h)) rest
    have hmethod := (lexes_name hm (apart_cons rfl (by decide) _)).append hargs
    have hdot (next : List Char) : Lexes ['.'] [TokenKind.dot.shape] next := .token rfl rfl
    exact (ihr _ (apart_method hm _ rest)).append ((hdot _).append hmethod)
  | scopeAccess hn hb p =>
    intro rest hrest
    rw [toList_scopeAccess]
    have hcolons (next : List Char) : Lexes [':', ':'] [TokenKind.doubleColon.shape] next :=
      .token rfl rfl
    exact (lexes_name hn (apart_cons rfl (by decide) _)).append
      ((hcolons _).append (lexes_name hb hrest))

/-- The tokens of canonical text are those of the expression, and the end of the text. -/
theorem Canonical.tokenize {e : Expr} (h : Canonical e) :
    ∃ ts finish, ts.map Token.shape = e.shapes ∧
      tokenize e.text = ts ++ [⟨.endOfText, "", finish⟩] := by
  obtain ⟨ts, hts, hscan⟩ := h.lexes [] apart_nil .start
  rw [List.append_nil, scanFrom, List.append_nil] at hscan
  refine ⟨ts, (scanFrom .start e.text.toList).2, hts, ?_⟩
  rw [tokenize_eq, hscan]

end ScriptLang
