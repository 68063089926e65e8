-- Splitting and replacing find the same occurrences. The parts of a text with a replacement
-- between them are the text with its occurrences replaced, and no part has an occurrence left.
import Mathlib.Data.List.Infix
import ScriptLang.Value.Method
import ScriptLang.Proofs.Collections

namespace ScriptLang

namespace Text

variable {p : Char} {ps cs : List Char}

/-! ## Occurrences -/

/-- A text occurs in another one if it is a stretch of it. -/
theorem occurs_iff_infix (needle cs : List Char) : occurs needle cs = true ↔ needle <:+: cs := by
  induction cs with
  | nil => simp [occurs]
  | cons c cs ih =>
    rw [occurs, Bool.or_eq_true, List.isPrefixOf_iff_prefix, ih, List.infix_cons_iff]

/-! ## Parts -/

theorem parts_of_starts {c : Char} (h : p :: ps <+: c :: cs) :
    parts p ps (c :: cs) = [] :: parts p ps (cs.drop ps.length) := by
  rw [parts, if_pos (List.isPrefixOf_iff_prefix.mpr h)]

/-- A text has a first part, and the text starts with it. -/
theorem exists_parts (p : Char) (ps cs : List Char) :
    ∃ first rest, parts p ps cs = first :: rest ∧ first <+: cs := by
  fun_induction parts p ps cs with
  | case1 => exact ⟨[], [], rfl, List.nil_prefix⟩
  | case2 c cs h ih => exact ⟨[], _, rfl, List.nil_prefix⟩
  | case3 c cs h hnone ih =>
    obtain ⟨first, rest, heq, -⟩ := ih
    rw [hnone] at heq
    cases heq
  | case4 c cs h first rest hparts ih =>
    obtain ⟨first', rest', heq, hstarts⟩ := ih
    rw [hparts] at heq
    obtain ⟨rfl, rfl⟩ := List.cons.inj heq
    exact ⟨c :: first, rest, rfl, List.cons_prefix_cons.mpr ⟨rfl, hstarts⟩⟩

/-- A character that no occurrence starts with goes into the first part. -/
theorem parts_of_not_starts {c : Char} (h : ¬p :: ps <+: c :: cs) :
    ∃ first rest, parts p ps cs = first :: rest ∧ first <+: cs ∧
      parts p ps (c :: cs) = (c :: first) :: rest := by
  obtain ⟨first, rest, hparts, hstarts⟩ := exists_parts p ps cs
  refine ⟨first, rest, hparts, hstarts, ?_⟩
  rw [parts, if_neg (by simpa [List.isPrefixOf_iff_prefix] using h), hparts]

theorem substitute_of_starts {c : Char} (h : p :: ps <+: c :: cs) (replacement : List Char) :
    substitute p ps replacement (c :: cs) =
      replacement ++ substitute p ps replacement (cs.drop ps.length) := by
  rw [substitute, if_pos (List.isPrefixOf_iff_prefix.mpr h)]

theorem substitute_of_not_starts {c : Char} (h : ¬p :: ps <+: c :: cs)
    (replacement : List Char) :
    substitute p ps replacement (c :: cs) = c :: substitute p ps replacement cs := by
  rw [substitute, if_neg (by simpa [List.isPrefixOf_iff_prefix] using h)]

/-- A law of texts that are cut at the occurrences of `p :: ps`, one character or one occurrence
after the other. -/
theorem cut_induct (p : Char) (ps : List Char) {P : List Char → Prop} (nil : P [])
    (occurrence : ∀ c cs, p :: ps <+: c :: cs → P (cs.drop ps.length) → P (c :: cs))
    (character : ∀ c cs, ¬p :: ps <+: c :: cs → P cs → P (c :: cs)) (cs : List Char) : P cs := by
  induction hn : cs.length using Nat.strongRecOn generalizing cs with
  | ind n ih =>
    cases cs with
    | nil => exact nil
    | cons c cs =>
      have hlength : cs.length < n := by simp [← hn]
      have hdrop : (cs.drop ps.length).length < n := by
        rw [List.length_drop]
        omega
      by_cases h : p :: ps <+: c :: cs
      · exact occurrence c cs h (ih _ hdrop _ rfl)
      · exact character c cs h (ih _ hlength _ rfl)

/-- The parts with a replacement between them are the text with its occurrences replaced. -/
theorem intercalate_parts (p : Char) (ps cs replacement : List Char) :
    replacement.intercalate (parts p ps cs) = substitute p ps replacement cs := by
  induction cs using cut_induct p ps with
  | nil => simp [parts, substitute]
  | occurrence c cs h ih =>
    obtain ⟨first, rest, hparts, -⟩ := exists_parts p ps (cs.drop ps.length)
    rw [parts_of_starts h, substitute_of_starts h, ← ih, hparts]
    simp
  | character c cs h ih =>
    obtain ⟨first, rest, hparts, -, hcons⟩ := parts_of_not_starts h
    rw [hcons, substitute_of_not_starts h, ← ih, hparts]
    cases rest <;> simp

/-- Replacing a text by itself changes nothing. -/
theorem substitute_self (p : Char) (ps cs : List Char) : substitute p ps (p :: ps) cs = cs := by
  induction cs using cut_induct p ps with
  | nil => simp [substitute]
  | occurrence c cs h ih =>
    rw [substitute_of_starts h, ih]
    obtain ⟨rest, hrest⟩ := h
    obtain ⟨rfl, rfl⟩ := List.cons.inj hrest
    simp
  | character c cs h ih => rw [substitute_of_not_starts h, ih]

/-- No part has an occurrence in it. -/
theorem not_infix_of_mem_parts (cs : List Char) :
    ∀ part ∈ parts p ps cs, ¬p :: ps <:+: part := by
  induction cs using cut_induct p ps with
  | nil => simp [parts]
  | occurrence c cs h ih =>
    rw [parts_of_starts h]
    exact List.forall_mem_cons.mpr ⟨by simp, ih⟩
  | character c cs h ih =>
    obtain ⟨first, rest, hparts, hstarts, hcons⟩ := parts_of_not_starts h
    rw [hparts] at ih
    obtain ⟨hfirst, hrest⟩ := List.forall_mem_cons.mp ih
    rw [hcons]
    refine List.forall_mem_cons.mpr ⟨?_, hrest⟩
    rw [List.infix_cons_iff]
    rintro (hstart | hinner)
    · -- The part starts the text, so an occurrence at its start is one at the start of the text.
      exact h (hstart.trans (List.cons_prefix_cons.mpr ⟨rfl, hstarts⟩))
    · exact hfirst hinner

/-- There is more than one part exactly if there is an occurrence. -/
theorem one_lt_length_parts (cs : List Char) :
    1 < (parts p ps cs).length ↔ p :: ps <:+: cs := by
  induction cs using cut_induct p ps with
  | nil => simp [parts]
  | occurrence c cs h ih =>
    obtain ⟨first, rest, hparts, -⟩ := exists_parts p ps (cs.drop ps.length)
    rw [parts_of_starts h, hparts]
    simp [h.isInfix]
  | character c cs h ih =>
    obtain ⟨first, rest, hparts, -, hcons⟩ := parts_of_not_starts h
    rw [hparts] at ih
    rw [hcons, List.infix_cons_iff, ← ih]
    simp [h]

/-! ## Texts -/

variable {s separator : String}

theorem exists_cons_of_ne_empty (h : separator ≠ "") :
    ∃ p ps, separator.toList = p :: ps := by
  refine List.exists_cons_of_ne_nil fun hnil => h ?_
  rw [← String.ofList_toList (s := separator), hnil]

/-- Joining the parts of a text replaces its separators. -/
theorem intercalate_split (h : separator ≠ "") (s replacement : String) :
    replacement.intercalate (split s separator) = replace s separator replacement := by
  obtain ⟨p, ps, hp⟩ := exists_cons_of_ne_empty h
  apply String.toList_injective
  unfold split replace
  simp only [hp, String.toList_intercalate, String.toList_ofList, List.map_map]
  rw [← intercalate_parts]
  congr 1
  simp [Function.comp_def]

theorem replace_self (h : separator ≠ "") (s : String) : replace s separator separator = s := by
  obtain ⟨p, ps, hp⟩ := exists_cons_of_ne_empty h
  unfold replace
  simp only [hp, substitute_self, String.ofList_toList]

theorem not_infix_of_mem_split (h : separator ≠ "") (s : String) :
    ∀ part ∈ split s separator, ¬separator.toList <:+: part.toList := by
  obtain ⟨p, ps, hp⟩ := exists_cons_of_ne_empty h
  unfold split
  simp only [hp, List.mem_map]
  rintro _ ⟨part, hpart, rfl⟩
  rw [String.toList_ofList]
  exact not_infix_of_mem_parts _ part hpart

theorem one_lt_length_split (h : separator ≠ "") (s : String) :
    1 < (split s separator).length ↔ separator.toList <:+: s.toList := by
  obtain ⟨p, ps, hp⟩ := exists_cons_of_ne_empty h
  unfold split
  simp only [hp, List.length_map]
  exact one_lt_length_parts s.toList

theorem intercalate_characters (cs : List Char) :
    [].intercalate (cs.map fun c => [c]) = cs := by
  induction cs with
  | nil => rfl
  | cons c cs ih =>
    cases cs with
    | nil => rfl
    | cons d cs => simpa [List.intercalate_cons_cons] using ih

/-- The characters of a text, one after the other, are the text. -/
theorem intercalate_split_empty (s : String) : "".intercalate (split s "") = s := by
  have hsplit : split s "" = s.toList.map (fun c => String.ofList [c]) := rfl
  apply String.toList_injective
  rw [String.toList_intercalate, hsplit, List.map_map]
  simp only [Function.comp_def, String.toList_ofList, String.toList_empty]
  exact intercalate_characters s.toList

end Text

/-! ## The methods -/

namespace Store

theorem callMethod_split (store : Store) (s separator : String) :
    ∃ id after, store.callMethod (.string s) "split" [.string separator] = (.array id, after) ∧
      after.heap.array id = ((Text.split s separator).map Value.string).toArray := by
  refine ⟨_, _, rfl, ?_⟩
  exact Heap.array_newArray _ _

theorem callMethod_join {store : Store} {id : ArrayId} {parts : List String}
    (h : store.heap.array id = (parts.map Value.string).toArray) (glue : String) :
    store.callMethod (.array id) "join" [.string glue] =
      (.string (glue.intercalate parts), store) := by
  let texts := (store.heap.array id).toList.map (store.definitions.render store.heap)
  have htexts : texts = parts := by
    simp only [texts, h, List.map_map]
    exact List.map_id'' (fun part => rfl) _
  change (Value.string (glue.intercalate texts), store) = _
  rw [htexts]

/-- `contains` tells whether a text is a stretch of another one. -/
theorem callMethod_contains (store : Store) (s needle : String) :
    store.callMethod (.string s) "contains" [.string needle] =
      (.boolean (decide (needle.toList <:+: s.toList)), store) := by
  have hinside : Text.contains s needle = decide (needle.toList <:+: s.toList) := by
    unfold Text.contains
    rw [Bool.eq_iff_iff, Text.occurs_iff_infix, decide_eq_true_iff]
  change (Value.boolean (Text.contains s needle), store) = _
  rw [hinside]

end Store

/-- Splitting a text and replacing in it agree on where the separator stands. Split by a text that
is not empty, the parts joined by any text are what `replace` gives for it, which is the text itself
if they are joined by the separator; no part contains the separator, and there is more than one part
exactly if the text contains it, which means that the separator is a stretch of it. Split by the
empty text, the parts make up the text. -/
theorem split_and_replace_agree (store : Store) (s separator : String) :
    ∃ id after, store.callMethod (.string s) "split" [.string separator] = (.array id, after) ∧
      (separator ≠ "" →
        (∀ glue, ∃ result,
          after.callMethod (.array id) "join" [.string glue] = (.string result, after) ∧
          (∀ other : Store, other.callMethod (.string s) "replace"
            [.string separator, .string glue] = (.string result, other)) ∧
          (glue = separator → result = s)) ∧
        (∀ part ∈ after.heap.array id, ∃ text, part = .string text ∧
          ∀ other : Store, other.callMethod part "contains" [.string separator] =
            (.boolean false, other)) ∧
        (1 < (after.heap.array id).size ↔ ∀ other : Store,
          other.callMethod (.string s) "contains" [.string separator] =
            (.boolean true, other))) ∧
      (separator = "" →
        after.callMethod (.array id) "join" [.string ""] = (.string s, after)) ∧
      ∀ (other : Store) (text : String),
        other.callMethod (.string text) "contains" [.string separator] =
          (.boolean (decide (separator.toList <:+: text.toList)), other) := by
  obtain ⟨id, after, hsplit, hparts⟩ := store.callMethod_split s separator
  refine ⟨id, after, hsplit, fun hne => ⟨fun glue => ?_, ?_, ?_⟩, ?_, ?_⟩
  · refine ⟨Text.replace s separator glue, ?_, fun other => rfl, ?_⟩
    · rw [Store.callMethod_join hparts, Text.intercalate_split hne]
    · rintro rfl
      exact Text.replace_self hne s
  · intro part hpart
    rw [hparts, List.mem_toArray, List.mem_map] at hpart
    obtain ⟨text, htext, rfl⟩ := hpart
    refine ⟨text, rfl, fun other => ?_⟩
    rw [other.callMethod_contains, decide_eq_false (Text.not_infix_of_mem_split hne s text htext)]
  · rw [hparts, List.size_toArray, List.length_map, Text.one_lt_length_split hne]
    constructor
    · intro hinside other
      rw [other.callMethod_contains, decide_eq_true hinside]
    · intro hcalls
      have hcall := congrArg Prod.fst ((store.callMethod_contains s separator).symm.trans
        (hcalls store))
      exact of_decide_eq_true (Value.boolean.inj hcall)
  · rintro rfl
    rw [Store.callMethod_join hparts, Text.intercalate_split_empty]
  · exact fun other text => other.callMethod_contains text separator

/-- Of two occurrences that overlap, the first one counts. -/
theorem overlapping_separators_split_once :
    "aa" ≠ "" ∧ ∃ id after,
      Store.empty.callMethod (.string "aaab") "split" [.string "aa"] = (.array id, after) ∧
      after.callMethod (.array id) "join" [.string "-"] = (.string "-ab", after) ∧
      1 < (after.heap.array id).size := by
  have hne : "aa" ≠ "" := by decide
  obtain ⟨id, after, hsplit, hlaws, -⟩ := split_and_replace_agree Store.empty "aaab" "aa"
  obtain ⟨hjoin, -, hmore⟩ := hlaws hne
  obtain ⟨result, hresult, hreplace, -⟩ := hjoin "-"
  have htext : Text.replace "aaab" "aa" "-" = "-ab" := by cbv
  have heq : Text.replace "aaab" "aa" "-" = result :=
    Value.string.inj (congrArg Prod.fst (hreplace Store.empty))
  rw [← heq, htext] at hresult
  refine ⟨hne, id, after, hsplit, hresult, hmore.mpr fun other => ?_⟩
  rw [other.callMethod_contains, decide_eq_true (by decide)]

end ScriptLang
