-- Texts of values in every heap, also where collections contain themselves. The writer keeps a
-- list of the collections that it is writing. Each one that it opens was not open, so there is an
-- end to it; it writes a mark for a collection that is around the place it has come to, and
-- everything else in full.
import Mathlib.Data.Set.Card
import ScriptLang.Proofs.Copies

namespace ScriptLang

open Relation

/-! ## The writer -/

/-- A text that is being written, with the collections that are open, the innermost first. -/
structure Page where
  opened : List Collection
  text : String

namespace Page

def put (text : String) (p : Page) : Page := { p with text := p.text ++ text }

def enter (c : Collection) (p : Page) : Page := { p with opened := c :: p.opened }

def leave (p : Page) : Page := { p with opened := p.opened.tail }

end Page

namespace Definitions

/-- Writes a value inside a collection, given how values are written. -/
def writeElement (write : Value → Page → Option Page) : Value → Page → Option Page
  | .string s, p => some (p.put (quoted s))
  | other, p => write other p

/-- Writes the elements of an array, each behind a separator. -/
def writeItems (write : Value → Page → Option Page) (separator : String) :
    List Value → Page → Option Page
  | [], p => some p
  | v :: rest, p => do
    let p ← writeElement write v (p.put separator)
    writeItems write ", " rest p

/-- Writes the pairs of a hash, each behind a separator. -/
def writePairs (write : Value → Page → Option Page) (separator : String) :
    List HashEntry → Page → Option Page
  | [], p => some p
  | e :: rest, p => do
    let p ← writeElement write e.key (p.put separator)
    let p ← writeElement write e.value (p.put ": ")
    writePairs write ", " rest p

/-- Writes a value behind a text. The writer calls itself for what is inside a collection; there
is no page if these calls are more than so many levels deep. -/
def write (d : Definitions) (h : Heap) : Nat → Value → Page → Option Page
  | 0, _, _ => none
  | depth + 1, v, p =>
    match v.payload with
    | .array id =>
      if p.opened.contains (.array id) then some (p.put "[...]")
      else do
        let p ← writeItems (d.write h depth) "" (h.array id).toList
          ((p.enter (.array id)).put "[")
        some (p.leave.put "]")
    | .hash id =>
      if p.opened.contains (.hash id) then some (p.put (openBrace ++ "..." ++ closeBrace))
      else do
        let p ← writePairs (d.write h depth) "" (h.hash id).entries
          ((p.enter (.hash id)).put openBrace)
        some (p.leave.put closeBrace)
    | scalar => some (p.put (d.scalarText scalar))

def plainElement (text : Value → Option String) : Value → Option String
  | .string s => some (quoted s)
  | other => text other

/-- The text of a value by plain recursion, which goes deeper than any number of levels where a
collection contains itself. -/
def plainText (d : Definitions) (h : Heap) : Nat → Value → Option String
  | 0, _ => none
  | depth + 1, v =>
    match v.payload with
    | .array id => do
      let items ← (h.array id).toList.mapM (plainElement (d.plainText h depth))
      some ("[" ++ commaSeparated items ++ "]")
    | .hash id => do
      let pairs ← (h.hash id).entries.mapM fun e => do
        let key ← plainElement (d.plainText h depth) e.key
        let value ← plainElement (d.plainText h depth) e.value
        some (key ++ ": " ++ value)
      some (openBrace ++ commaSeparated pairs ++ closeBrace)
    | scalar => some (d.scalarText scalar)

end Definitions

/-! ## What is open -/

/-- The collection that is written for a value. -/
def Value.named? (v : Value) : Option Collection := v.payload.collection?

namespace Heap

variable {h : Heap} {v w : Value} {c d : Collection} {above : List Collection}

/-- The collections that are not open. -/
def closed (h : Heap) (opened : List Collection) : Set Collection := {c | h.Has c ∧ c ∉ opened}

theorem finite_closed (h : Heap) (opened : List Collection) : (h.closed opened).Finite :=
  h.finite_has.1.subset fun _ hc => hc.1

theorem ncard_closed_le (h : Heap) (opened : List Collection) :
    (h.closed opened).ncard ≤ h.size := by
  have hsub : h.closed opened ⊆ {c | h.Has c} := fun _ hc => hc.1
  exact (Set.ncard_le_ncard hsub h.finite_has.1).trans h.finite_has.2

/-- A collection that is not there is empty. -/
theorem has_of_mem_inside (hw : w ∈ h.inside c) : h.Has c := by
  cases c with
  | array id =>
    by_cases hid : id.index < h.arrays.size
    · exact hid
    · simp [array, Array.getD, hid] at hw
  | hash id =>
    by_cases hid : id.index < h.hashes.size
    · exact hid
    · simp [hash, Array.getD, hid, HashObject.empty] at hw

theorem inside_array (h : Heap) (id : ArrayId) : h.inside (.array id) = (h.array id).toList := rfl

theorem inside_hash (h : Heap) (id : HashId) :
    h.inside (.hash id) = (h.hash id).entries.flatMap fun e => [e.key, e.value] := rfl

/-- Whoever goes into a collection that is not open leaves less that is not open. -/
theorem ncard_closed_lt (hw : w ∈ h.inside c) (hc : c ∉ above) :
    (h.closed (c :: above)).ncard < (h.closed above).ncard := by
  refine Set.ncard_lt_ncard ⟨?_, ?_⟩ (h.finite_closed above)
  · rintro d ⟨hd, hopen⟩
    exact ⟨hd, fun hmem => hopen (List.mem_cons_of_mem c hmem)⟩
  · intro hsub
    exact (hsub ⟨has_of_mem_inside hw, hc⟩).2 List.mem_cons_self

end Heap

/-! ## What is written -/

/-- What is written of a value: the value if it is no collection, a mark, or a collection with
everything inside. -/
inductive Rendering where
  | leaf (value : Value)
  | mark (c : Collection)
  | full (c : Collection) (inside : List Rendering)

/-- What is written of a value inside the collections `above`. -/
def Heap.rendering (h : Heap) (above : List Collection) (v : Value) : Rendering :=
  match v.named? with
  | none => .leaf v
  | some c =>
    if c ∈ above then .mark c
    else .full c ((h.inside c).attach.map fun w => h.rendering (c :: above) w.1)
termination_by (h.closed above).ncard
decreasing_by exact ncard_closed_lt w.2 ‹_›

/-- The mark of a collection. -/
def OpenCollection.mark : Collection → String
  | .array _ => "[...]"
  | .hash _ => openBrace ++ "..." ++ closeBrace

/-- Keys and values in turn, each value with its key. -/
def keyed : List String → List String
  | key :: value :: rest => (key ++ ": " ++ value) :: keyed rest
  | _ => []

/-- The text of a collection with these texts inside. -/
def OpenCollection.text : Collection → List String → String
  | .array _, inside => "[" ++ commaSeparated inside ++ "]"
  | .hash _, inside => openBrace ++ commaSeparated (keyed inside) ++ closeBrace

namespace Rendering

/-- The text inside a collection. -/
def piece (d : Definitions) : Rendering → String
  | leaf v => Definitions.elementText (fun v => d.scalarText v.payload) v
  | mark c => c.mark
  | full c inside => c.text (inside.map (piece d))

def text (d : Definitions) : Rendering → String
  | leaf v => d.scalarText v.payload
  | other => other.piece d

/-- What stands directly inside. -/
def inside : Rendering → List Rendering
  | full _ inside => inside
  | _ => []

/-- What stands at a place: `i :: path` is the place `path` of the part with the number `i`. -/
def at? : Rendering → List Nat → Option Rendering
  | t, [] => some t
  | t, i :: path => t.inside[i]?.bind fun part => part.at? path

end Rendering

namespace Heap

variable {h : Heap} {v w : Value} {c : Collection} {above : List Collection}

theorem rendering_of_none (hv : v.named? = none) : h.rendering above v = .leaf v := by
  rw [rendering]
  simp only [hv]

theorem rendering_of_open (hv : v.named? = some c) (hc : c ∈ above) :
    h.rendering above v = .mark c := by
  rw [rendering]
  simp only [hv, if_pos hc]

theorem rendering_of_closed (hv : v.named? = some c) (hc : c ∉ above) :
    h.rendering above v = .full c ((h.inside c).map (h.rendering (c :: above))) := by
  rw [rendering]
  simp only [hv, if_neg hc, Rendering.full.injEq, true_and]
  exact List.attach_map_val

/-- A value is written once the values inside its collection are, if that is not open. -/
theorem rendering_induct {P : List Collection → Value → Prop}
    (leaf : ∀ above v, v.named? = none → P above v)
    (mark : ∀ above v c, v.named? = some c → c ∈ above → P above v)
    (full : ∀ above v c, v.named? = some c → c ∉ above →
      (∀ w ∈ h.inside c, P (c :: above) w) → P above v)
    (above : List Collection) (v : Value) : P above v := by
  induction hn : (h.closed above).ncard using Nat.strongRecOn generalizing above v with
  | ind n ih =>
    cases hv : v.named? with
    | none => exact leaf above v hv
    | some c =>
      by_cases hc : c ∈ above
      · exact mark above v c hv hc
      · refine full above v c hv hc fun w hw => ?_
        exact ih _ (hn ▸ ncard_closed_lt hw hc) (c :: above) w rfl

end Heap

/-! ## The text is that of what is written -/

/-- Texts in a row, the first behind a separator and the others behind commas. -/
def joinedBy (separator : String) : List String → String
  | [] => ""
  | first :: rest => separator ++ first ++ joinedBy ", " rest

theorem joinedBy_eq (items : List String) : joinedBy "" items = commaSeparated items := by
  have hrest : ∀ items first,
      first ++ joinedBy ", " items = commaSeparated (first :: items) := by
    intro items
    induction items with
    | nil => simp [joinedBy, commaSeparated]
    | cons item items ih =>
      intro first
      rw [joinedBy, String.append_assoc, ih item]
      simp [commaSeparated, String.intercalate_cons_cons, String.append_assoc]
  cases items with
  | nil => rfl
  | cons first rest =>
    rw [joinedBy, String.empty_append, hrest]

theorem keyed_flatMap (text : Value → String) (es : List HashEntry) :
    keyed ((es.flatMap fun e => [e.key, e.value]).map text) =
      es.map fun e => text e.key ++ ": " ++ text e.value := by
  induction es with
  | nil => rfl
  | cons e es ih => simp [keyed, ih]

/-- The value that names a collection. -/
def OpenCollection.value : Collection → Value
  | .array id => .array id
  | .hash id => .hash id

theorem Value.payload_of_named {v : Value} {c : Collection} (hv : v.named? = some c) :
    v.payload = c.value := by
  unfold named? at hv
  cases hp : v.payload with
  | array id | hash id =>
    rw [hp] at hv
    cases hv
    rfl
  | _ =>
    rw [hp] at hv
    cases hv

namespace Definitions

variable (d : Definitions) {h : Heap} {v : Value} {c : Collection} {above : List Collection}

theorem elementText_congr {f g : Value → String} {v : Value} (hv : f v = g v) :
    elementText f v = elementText g v := by
  cases v with
  | string s => rfl
  | _ => exact hv

/-- Inside a collection a value has the text that it has alone, but for the quotes. -/
theorem piece_rendering (h : Heap) (above : List Collection) (v : Value) :
    (h.rendering above v).piece d = elementText (fun v => (h.rendering above v).text d) v := by
  cases hv : v.named? with
  | none =>
    cases v with
    | string s => simp [Heap.rendering_of_none hv, Rendering.piece, elementText]
    | _ => simp [Heap.rendering_of_none hv, Rendering.piece, Rendering.text, elementText]
  | some c =>
    have hitem : elementText (fun v => (h.rendering above v).text d) v =
        (h.rendering above v).text d := by
      cases v with
      | string s => cases hv
      | _ => rfl
    rw [hitem]
    by_cases hc : c ∈ above
    · rw [Heap.rendering_of_open hv hc, Rendering.text]
      intro v hleaf
      cases hleaf
    · rw [Heap.rendering_of_closed hv hc, Rendering.text]
      intro v hleaf
      cases hleaf

/-- The text of a collection that is written in full, from the texts inside. -/
theorem text_of_closed (hv : v.named? = some c) (hc : c ∉ above) :
    (h.rendering above v).text d = c.text ((h.inside c).map
      (elementText fun w => (h.rendering (c :: above) w).text d)) := by
  rw [Heap.rendering_of_closed hv hc]
  simp only [Rendering.text, Rendering.piece, List.map_map]
  congr 1
  refine List.map_congr_left fun w _ => ?_
  exact d.piece_rendering h (c :: above) w

theorem renderWithin_of_none (hv : v.named? = none) (n : Nat) :
    d.renderWithin h (n + 1) above v = d.scalarText v.payload := by
  unfold Value.named? at hv
  unfold renderWithin
  split
  · rename_i hid
    simp [hid, Value.collection?] at hv
  · rename_i hid
    simp [hid, Value.collection?] at hv
  · rfl

theorem renderWithin_of_open (hv : v.named? = some c) (hc : c ∈ above) (n : Nat) :
    d.renderWithin h (n + 1) above v = c.mark := by
  unfold renderWithin
  rw [Value.payload_of_named hv]
  cases c <;> simp [OpenCollection.value, OpenCollection.mark, hc]

theorem renderWithin_of_closed (hv : v.named? = some c) (hc : c ∉ above) (n : Nat) :
    d.renderWithin h (n + 1) above v = c.text ((h.inside c).map
      (elementText (d.renderWithin h n (c :: above)))) := by
  rw [renderWithin, Value.payload_of_named hv]
  cases c with
  | array id => simp [OpenCollection.value, OpenCollection.text, Heap.inside_array, hc]
  | hash id => simp [OpenCollection.value, OpenCollection.text, Heap.inside_hash, keyed_flatMap, hc]

/-- With a level for every collection that is not open, and one for what is inside the last, the
text is that of what is written. -/
theorem renderWithin_eq {n : Nat} (hn : (h.closed above).ncard ≤ n) :
    d.renderWithin h (n + 1) above v = (h.rendering above v).text d := by
  induction above, v using Heap.rendering_induct (h := h) generalizing n with
  | leaf above v hv =>
    rw [d.renderWithin_of_none hv, Heap.rendering_of_none hv, Rendering.text]
  | mark above v c hv hc =>
    rw [d.renderWithin_of_open hv hc, Heap.rendering_of_open hv hc]
    simp [Rendering.text, Rendering.piece]
  | full above v c hv hc ih =>
    rw [d.renderWithin_of_closed hv hc, d.text_of_closed hv hc]
    congr 1
    refine List.map_congr_left fun w hw => ?_
    have hless := Heap.ncard_closed_lt hw hc
    obtain ⟨m, rfl⟩ : ∃ m, n = m + 1 := ⟨n - 1, by omega⟩
    exact elementText_congr (ih w hw (by omega))

theorem render_eq (h : Heap) (v : Value) : d.render h v = (h.rendering [] v).text d :=
  d.renderWithin_eq (h.ncard_closed_le [])

/-! ## The writer writes it -/

theorem write_of_none (hv : v.named? = none) (n : Nat) (p : Page) :
    d.write h (n + 1) v p = some (p.put (d.scalarText v.payload)) := by
  unfold Value.named? at hv
  unfold write
  cases hp : v.payload with
  | array id | hash id => simp [hp, Value.collection?] at hv
  | _ => rfl

theorem write_of_open (hv : v.named? = some c) (n : Nat) {p : Page} (hc : c ∈ p.opened) :
    d.write h (n + 1) v p = some (p.put c.mark) := by
  rw [write, Value.payload_of_named hv]
  cases c <;> simp [OpenCollection.value, OpenCollection.mark, hc]

section Rows

variable {write : Value → Page → Option Page} {opened : List Collection} {text : Value → String}

/-- A way of writing gives a value this text, and closes all that it opens. -/
def WritesAs (write : Value → Page → Option Page) (opened : List Collection)
    (text : Value → String) (v : Value) : Prop :=
  ∀ before, write v ⟨opened, before⟩ = some ⟨opened, before ++ text v⟩

theorem WritesAs.element (hv : WritesAs write opened text v) (before : String) :
    writeElement write v ⟨opened, before⟩ = some ⟨opened, before ++ elementText text v⟩ := by
  cases v with
  | string s => simp [writeElement, elementText, Page.put]
  | _ => simpa only [writeElement, elementText] using hv before

theorem writeItems_eq {vs : List Value} (hvs : ∀ v ∈ vs, WritesAs write opened text v)
    (separator before : String) :
    writeItems write separator vs ⟨opened, before⟩ =
      some ⟨opened, before ++ joinedBy separator (vs.map (elementText text))⟩ := by
  induction vs generalizing separator before with
  | nil => simp [writeItems, joinedBy]
  | cons v vs ih =>
    rw [writeItems, Page.put, (hvs v List.mem_cons_self).element]
    simp [ih fun w hw => hvs w (List.mem_cons_of_mem v hw), joinedBy, String.append_assoc]

theorem writePairs_eq {es : List HashEntry}
    (hes : ∀ e ∈ es, WritesAs write opened text e.key ∧ WritesAs write opened text e.value)
    (separator before : String) :
    writePairs write separator es ⟨opened, before⟩ =
      some ⟨opened, before ++ joinedBy separator
        (es.map fun e => elementText text e.key ++ ": " ++ elementText text e.value)⟩ := by
  induction es generalizing separator before with
  | nil => simp [writePairs, joinedBy]
  | cons e es ih =>
    obtain ⟨hkey, hvalue⟩ := hes e List.mem_cons_self
    rw [writePairs, Page.put, hkey.element]
    simp only [Option.bind_eq_bind, Option.bind_some, Page.put, hvalue.element]
    simp [ih fun e' he => hes e' (List.mem_cons_of_mem e he), joinedBy, String.append_assoc]

/-- A collection that is not open is opened, written and closed. -/
theorem write_of_closed (hv : v.named? = some c) (hc : c ∉ opened) {n : Nat}
    (hin : ∀ w ∈ h.inside c, WritesAs (d.write h n) (c :: opened) text w) (before : String) :
    d.write h (n + 1) v ⟨opened, before⟩ =
      some ⟨opened, before ++ c.text ((h.inside c).map (elementText text))⟩ := by
  rw [Definitions.write, Value.payload_of_named hv]
  cases c with
  | array id =>
    have hitems : ∀ w ∈ (h.array id).toList,
        WritesAs (d.write h n) (.array id :: opened) text w := hin
    simp [OpenCollection.value, OpenCollection.text, hc, Page.enter, Page.put, Page.leave,
      writeItems_eq hitems, joinedBy_eq, Heap.inside_array, String.append_assoc]
  | hash id =>
    have hpairs : ∀ e ∈ (h.hash id).entries,
        WritesAs (d.write h n) (.hash id :: opened) text e.key ∧
          WritesAs (d.write h n) (.hash id :: opened) text e.value := fun e he =>
      ⟨hin _ (Heap.mem_inside_hash.mpr ⟨e, he, Or.inl rfl⟩),
        hin _ (Heap.mem_inside_hash.mpr ⟨e, he, Or.inr rfl⟩)⟩
    simp [OpenCollection.value, OpenCollection.text, hc, Page.enter, Page.put, Page.leave,
      writePairs_eq hpairs, joinedBy_eq, Heap.inside_hash, keyed_flatMap, String.append_assoc]

end Rows

/-- The writer comes to an end wherever it starts, no deeper than there are collections that are
not open, and then the same collections are open as before. -/
theorem write_eq {n : Nat} {p : Page} (hn : (h.closed p.opened).ncard ≤ n) :
    d.write h (n + 1) v p = some ⟨p.opened, p.text ++ (h.rendering p.opened v).text d⟩ := by
  obtain ⟨opened, before⟩ := p
  induction opened, v using Heap.rendering_induct (h := h) generalizing n before with
  | leaf opened v hv =>
    rw [d.write_of_none hv, Heap.rendering_of_none hv]
    rfl
  | mark opened v c hv hc =>
    rw [d.write_of_open hv n hc, Heap.rendering_of_open hv hc]
    simp [Rendering.text, Rendering.piece, Page.put]
  | full opened v c hv hc ih =>
    have hin : ∀ w ∈ h.inside c, WritesAs (d.write h n) (c :: opened)
        (fun w => (h.rendering (c :: opened) w).text d) w := by
      intro w hw before
      have hless := Heap.ncard_closed_lt hw hc
      simp only at hn
      obtain ⟨m, rfl⟩ : ∃ m, n = m + 1 := ⟨n - 1, by omega⟩
      exact ih w hw before (by simp only; omega)
    rw [d.write_of_closed hv hc hin, d.text_of_closed hv hc]

end Definitions

/-! ## Places -/

/-- The value at a place of a value, with the collections around it, the outermost first. The
place `i :: path` is the place `path` of what the collection holds with the number `i`. -/
def Heap.place? (h : Heap) : Value → List Nat → Option (List Collection × Value)
  | v, [] => some ([], v)
  | v, i :: path => do
    let c ← v.named?
    let w ← (h.inside c)[i]?
    let (around, last) ← h.place? w path
    return (c :: around, last)

/-- A rendering is right for a value with these collections around it: it is a mark exactly if
one of them is the collection of the value, and a collection has as many parts as it holds
values. -/
def Rendering.Fits (h : Heap) (around : List Collection) (v : Value) : Rendering → Prop
  | leaf value => value = v ∧ v.named? = none
  | mark c => v.named? = some c ∧ c ∈ around
  | full c inside => v.named? = some c ∧ c ∉ around ∧ inside.length = (h.inside c).length

theorem Rendering.Fits.congr {h : Heap} {around around' : List Collection} {v : Value}
    {t : Rendering} (ht : t.Fits h around v) (hsame : ∀ c, c ∈ around ↔ c ∈ around') :
    t.Fits h around' v := by
  cases t with
  | leaf value => exact ht
  | mark c => exact ⟨ht.1, (hsame c).mp ht.2⟩
  | full c inside => exact ⟨ht.1, fun hc => ht.2.1 ((hsame c).mpr hc), ht.2.2⟩

namespace Heap

variable {h : Heap} {v w : Value} {c d : Collection} {above around : List Collection}
variable {path : List Nat} {t : Rendering}

theorem fits_rendering (h : Heap) (above : List Collection) (v : Value) :
    (h.rendering above v).Fits h above v := by
  cases hv : v.named? with
  | none =>
    rw [rendering_of_none hv]
    exact ⟨rfl, hv⟩
  | some c =>
    by_cases hc : c ∈ above
    · rw [rendering_of_open hv hc]
      exact ⟨hv, hc⟩
    · rw [rendering_of_closed hv hc]
      exact ⟨hv, hc, List.length_map _⟩

/-- What stands at a place of a rendering is right for the value at that place. -/
theorem fits_at (ht : (h.rendering above v).at? path = some t) :
    ∃ around w, h.place? v path = some (around, w) ∧ t.Fits h (around ++ above) w := by
  induction path generalizing above v with
  | nil =>
    cases ht
    exact ⟨[], v, rfl, h.fits_rendering above v⟩
  | cons i path ih =>
    obtain ⟨part, hpart, ht⟩ := Option.bind_eq_some_iff.mp ht
    -- Only a collection that is written in full has parts.
    obtain ⟨c, hv, hc⟩ : ∃ c, v.named? = some c ∧ c ∉ above := by
      cases hv : v.named? with
      | none => simp [rendering_of_none hv, Rendering.inside] at hpart
      | some c =>
        by_cases hc : c ∈ above
        · simp [rendering_of_open hv hc, Rendering.inside] at hpart
        · exact ⟨c, rfl, hc⟩
    rw [rendering_of_closed hv hc, Rendering.inside, List.getElem?_map] at hpart
    obtain ⟨w, hw, rfl⟩ := Option.map_eq_some_iff.mp hpart
    obtain ⟨around, last, hplace, hfits⟩ := ih ht
    refine ⟨c :: around, last, by simp [place?, hv, hw, hplace], hfits.congr fun d => ?_⟩
    simp only [List.mem_append, List.mem_cons]
    tauto

/-! ## Values without cycles -/

/-- One collection holds a value that another one is written for. -/
def Shows (h : Heap) (c d : Collection) : Prop := ∃ w ∈ h.inside c, w.named? = some d

/-- A value comes to a collection when it is written in full. -/
def ComesTo (h : Heap) (v : Value) (d : Collection) : Prop :=
  ∃ c, v.named? = some c ∧ ReflTransGen h.Shows c d

/-- No collection that a value comes to holds itself. -/
def CycleFree (h : Heap) (v : Value) : Prop := ∀ c, h.ComesTo v c → ¬TransGen h.Shows c c

theorem ComesTo.self (hv : v.named? = some c) : h.ComesTo v c := ⟨c, hv, .refl⟩

theorem ComesTo.head (hv : v.named? = some c) (hw : w ∈ h.inside c) (hd : h.ComesTo w d) :
    h.ComesTo v d := by
  obtain ⟨first, hfirst, hpath⟩ := hd
  exact ⟨c, hv, .head ⟨w, hw, hfirst⟩ hpath⟩

theorem CycleFree.inside (hf : h.CycleFree v) (hv : v.named? = some c) (hw : w ∈ h.inside c) :
    h.CycleFree w := fun d hd => hf d (hd.head hv hw)

theorem ComesTo.shows (hd : h.ComesTo w d) (hw : w ∈ h.inside c) : TransGen h.Shows c d := by
  obtain ⟨first, hfirst, hpath⟩ := hd
  exact .head' ⟨w, hw, hfirst⟩ hpath

/-- A collection that does not hold itself is not come to from inside. -/
theorem CycleFree.not_comesTo (hf : h.CycleFree v) (hv : v.named? = some c)
    (hw : w ∈ h.inside c) : ¬h.ComesTo w c := fun hc => hf c (.self hv) (hc.shows hw)

/-- Where a rank goes down from each collection to those that it shows, none holds itself. -/
theorem cycleFree_of_rank (rank : Collection → Nat)
    (hrank : ∀ c d, h.Shows c d → rank d < rank c) (v : Value) : h.CycleFree v := by
  intro c _ hc
  have hless : TransGen (· > ·) (rank c) (rank c) := hc.lift rank hrank
  rw [transGen_eq_self] at hless
  exact Nat.lt_irrefl _ hless

/-- A value comes to what the value at one of its places comes to, and so do all collections
around the place. -/
theorem ComesTo.of_place (hd : h.ComesTo w d) (hp : h.place? v path = some (around, w)) :
    h.ComesTo v d ∧ ∀ c ∈ around, h.ComesTo v c ∧ TransGen h.Shows c d := by
  induction path generalizing v around with
  | nil =>
    cases hp
    exact ⟨hd, by simp⟩
  | cons i path ih =>
    simp only [place?, Option.bind_eq_bind, Option.bind_eq_some_iff] at hp
    obtain ⟨first, hv, next, hnext, ⟨rest, last⟩, hrest, heq⟩ := hp
    cases heq
    have hmem : next ∈ h.inside first := List.mem_of_getElem? hnext
    obtain ⟨hcome, haround⟩ := ih hrest
    refine ⟨hcome.head hv hmem, ?_⟩
    intro c hc
    rcases List.mem_cons.mp hc with rfl | hc
    · exact ⟨.self hv, hcome.shows hmem⟩
    · exact ⟨(haround c hc).1.head hv hmem, (haround c hc).2⟩

/-- Where nothing holds itself, there is nothing to mark. -/
theorem CycleFree.at?_ne_mark (hf : h.CycleFree v) (path : List Nat) (c : Collection) :
    (h.rendering [] v).at? path ≠ some (.mark c) := by
  intro ht
  obtain ⟨around, w, hplace, hw, hc⟩ := fits_at ht
  rw [List.append_nil] at hc
  obtain ⟨hcome, hcycle⟩ := ((ComesTo.self hw).of_place hplace).2 c hc
  exact hf c hcome hcycle

end Heap

/-! ## Plain texts -/

namespace Definitions

variable {d : Definitions} {h : Heap} {v : Value} {c : Collection} {text : Value → String}

theorem plainElement_eq {plain : Value → Option String} (hv : plain v = some (text v)) :
    plainElement plain v = some (elementText text v) := by
  cases v with
  | string s => simp [plainElement, elementText]
  | _ => simpa only [plainElement, elementText] using hv

theorem mapM_eq_some {α : Type} {f : α → Option String} {g : α → String} {items : List α}
    (hf : ∀ item ∈ items, f item = some (g item)) : items.mapM f = some (items.map g) := by
  induction items with
  | nil => rfl
  | cons item items ih =>
    rw [List.mapM_cons, hf item List.mem_cons_self,
      ih fun other hmem => hf other (List.mem_cons_of_mem item hmem)]
    rfl

theorem plainText_of_none (hv : v.named? = none) (n : Nat) :
    d.plainText h (n + 1) v = some (d.scalarText v.payload) := by
  unfold Value.named? at hv
  unfold plainText
  cases hp : v.payload with
  | array id | hash id => simp [hp, Value.collection?] at hv
  | _ => rfl

theorem plainText_of_named (hv : v.named? = some c) {n : Nat}
    (hin : ∀ w ∈ h.inside c, d.plainText h n w = some (text w)) :
    d.plainText h (n + 1) v = some (c.text ((h.inside c).map (elementText text))) := by
  rw [plainText, Value.payload_of_named hv]
  cases c with
  | array id =>
    have hitems : (h.array id).toList.mapM (plainElement (d.plainText h n)) =
        some ((h.array id).toList.map (elementText text)) :=
      mapM_eq_some fun w hw => plainElement_eq (hin w hw)
    simp [OpenCollection.value, OpenCollection.text, Heap.inside_array, hitems]
  | hash id =>
    have hpairs : (h.hash id).entries.mapM (fun e => do
          let key ← plainElement (d.plainText h n) e.key
          let value ← plainElement (d.plainText h n) e.value
          some (key ++ ": " ++ value)) =
        some ((h.hash id).entries.map fun e =>
          elementText text e.key ++ ": " ++ elementText text e.value) := by
      refine mapM_eq_some fun e he => ?_
      have hkey := hin _ (Heap.mem_inside_hash.mpr ⟨e, he, Or.inl rfl⟩)
      have hvalue := hin _ (Heap.mem_inside_hash.mpr ⟨e, he, Or.inr rfl⟩)
      simp [plainElement_eq hkey, plainElement_eq hvalue]
    simp only [OpenCollection.value, hpairs]
    simp [OpenCollection.text, Heap.inside_hash, keyed_flatMap]

/-- Plain recursion gives the same text where nothing holds itself. The induction is that of the
writer; none of the collections that are open comes up again. -/
theorem plainText_eq {above : List Collection} (hf : h.CycleFree v)
    (hopen : ∀ c ∈ above, ¬h.ComesTo v c) {n : Nat} (hn : (h.closed above).ncard ≤ n) :
    d.plainText h (n + 1) v = some ((h.rendering above v).text d) := by
  induction above, v using Heap.rendering_induct (h := h) generalizing n with
  | leaf above v hv => rw [plainText_of_none hv, Heap.rendering_of_none hv, Rendering.text]
  | mark above v c hv hc => exact absurd (.self hv) (hopen c hc)
  | full above v c hv hc ih =>
    rw [d.text_of_closed hv hc]
    refine plainText_of_named hv fun w hw => ?_
    have hless := Heap.ncard_closed_lt hw hc
    obtain ⟨m, rfl⟩ : ∃ m, n = m + 1 := ⟨n - 1, by omega⟩
    refine ih w hw (hf.inside hv hw) ?_ (by omega)
    intro e he hcome
    rcases List.mem_cons.mp he with rfl | he
    · exact hf.not_comesTo hv hw hcome
    · exact hopen e he (hcome.head hv hw)

end Definitions

/-! ## The law -/

/-- The text of a value in any heap. The writer comes to an end whatever is open, never deeper than
there are collections, and leaves open what was. What it writes can be told place by place: a mark
where a collection is met that is around the place, and every other collection with all that it
holds, however often it was written before. Where no collection holds itself there is no mark, and
plain recursion gives the text. -/
theorem marks_stand_for_enclosing_collections (d : Definitions) (h : Heap) (v : Value) :
    (∀ (p : Page) (n : Nat), h.size < n → d.write h n v p =
      some ⟨p.opened, p.text ++ d.renderWithin h (h.size + 1) p.opened v⟩) ∧
    ∃ t : Rendering, d.render h v = t.text d ∧
      (∀ path part, t.at? path = some part →
        ∃ around w, h.place? v path = some (around, w) ∧ part.Fits h around w) ∧
      (h.CycleFree v →
        (∀ path c, t.at? path ≠ some (.mark c)) ∧
        ∀ n, h.size < n → d.plainText h n v = some (d.render h v)) := by
  refine ⟨?_, h.rendering [] v, d.render_eq h v, ?_, ?_⟩
  · intro p n hn
    have hclosed := h.ncard_closed_le p.opened
    obtain ⟨m, rfl⟩ : ∃ m, n = m + 1 := ⟨n - 1, by omega⟩
    rw [d.renderWithin_eq hclosed]
    exact d.write_eq (by omega)
  · intro path part hpart
    obtain ⟨around, w, hplace, hfits⟩ := Heap.fits_at hpart
    exact ⟨around, w, hplace, by simpa using hfits⟩
  · intro hf
    refine ⟨hf.at?_ne_mark, fun n hn => ?_⟩
    have hclosed := h.ncard_closed_le []
    obtain ⟨m, rfl⟩ : ∃ m, n = m + 1 := ⟨n - 1, by omega⟩
    rw [d.render_eq]
    exact Definitions.plainText_eq hf (by simp) (by omega)

example :
    Definitions.empty.render ⟨#[#[.integer 0, .array ⟨0⟩]], #[]⟩ (.array ⟨0⟩) = "[0, [...]]" := by
  decide

/-- An array that is held twice is written twice. -/
theorem shared_array_written_twice :
    let h : Heap := ⟨#[#[.array ⟨1⟩, .array ⟨1⟩], #[.integer 1]], #[]⟩
    h.CycleFree (.array ⟨0⟩) ∧ h.size < 3 ∧
      Definitions.empty.plainText h 3 (.array ⟨0⟩) = some "[[1], [1]]" ∧
      Definitions.empty.write h 3 (.array ⟨0⟩) ⟨[], "a: "⟩ = some ⟨[], "a: [[1], [1]]"⟩ := by
  intro h
  have hfree : h.CycleFree (.array ⟨0⟩) := by
    refine Heap.cycleFree_of_rank (fun c => if c = .array ⟨0⟩ then 1 else 0) ?_ _
    rintro c d ⟨w, hw, hd⟩
    rcases c with ⟨_ | _ | i⟩ | ⟨i⟩
    · have hmem : w ∈ [Value.array ⟨1⟩, .array ⟨1⟩] := hw
      obtain rfl : w = .array ⟨1⟩ := by simpa using hmem
      cases hd
      decide
    · have hmem : w ∈ [Value.integer 1] := hw
      rw [List.mem_singleton.mp hmem] at hd
      cases hd
    · cases hw
    · cases hw
  have hrender : Definitions.empty.render h (.array ⟨0⟩) = "[[1], [1]]" := by decide
  obtain ⟨hwrite, t, -, -, hplain⟩ :=
    marks_stand_for_enclosing_collections Definitions.empty h (.array ⟨0⟩)
  have hsize : h.size < 3 := by decide
  refine ⟨hfree, hsize, hrender ▸ (hplain hfree).2 3 hsize, ?_⟩
  rw [hwrite _ 3 hsize]
  change some (Page.mk [] ("a: " ++ Definitions.empty.render h (.array ⟨0⟩))) = _
  rw [hrender]
  rfl

end ScriptLang
