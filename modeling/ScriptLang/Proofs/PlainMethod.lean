-- Methods and builtin functions that get ordinary values keep a plain store plain, and give
-- ordinary values or errors.
import ScriptLang.Eval.Builtins
import ScriptLang.Host.Plugins
import ScriptLang.Proofs.PlainStore

namespace ScriptLang

/-! ## Plugins -/

/-- A function of a plugin that gives an ordinary value or an error and stores no signal. -/
def PluginFunction.Plain (f : PluginFunction) : Prop :=
  ∀ args heap, (∀ a ∈ args, Value.Plain a) → Heap.Plain heap →
    (f args heap).1.isSettled = true ∧ (f args heap).2.Plain

def Plugin.Plain (plugin : Plugin) : Prop := ∀ f ∈ plugin.functions, PluginFunction.Plain f.2

namespace Plugin

theorem plain_square : PluginFunction.Plain square := by
  intro args heap _ hh
  unfold square
  split
  · split
    · exact ⟨rfl, hh⟩
    · exact ⟨rfl, hh⟩
  · exact ⟨rfl, hh⟩

theorem plain_shout : PluginFunction.Plain shout := by
  intro args heap _ hh
  unfold shout
  split
  · exact ⟨rfl, hh⟩
  · exact ⟨rfl, hh⟩

theorem plain_echo : PluginFunction.Plain echo := by
  intro args heap ha hh
  exact ⟨rfl, hh.newArray fun v hv => ha v (by simpa using hv)⟩

theorem plain_count : PluginFunction.Plain count := fun _ _ _ hh => ⟨rfl, hh⟩

/-- The plugins that have a name are plain. -/
theorem plain_named : ∀ plugin ∈ [math, text, empty], plugin.Plain := by
  intro plugin hmem
  simp only [List.mem_cons, List.not_mem_nil, or_false] at hmem
  rcases hmem with rfl | rfl | rfl
  · simpa [Plain, math] using plain_square
  · simpa [Plain, text] using ⟨plain_shout, plain_echo, plain_count⟩
  · simp [Plain, empty]

end Plugin

/-! ## Methods -/

namespace Method

open Heap

/-- A method that keeps the collections plain and gives an ordinary value or an error. -/
def Keeps (op : HeapOp Value) : Prop := Heap.Keeps op fun v => v.isSettled = true

variable {kind : Kind} {method : String} {args : List Value}

theorem keeps_pure {v : Value} (h : v.isSettled = true) : Keeps (pure v) := Heap.Keeps.pure h

theorem keeps_noArguments {result : HeapOp Value} (h : Keeps result) :
    Keeps (noArguments kind method args result) := by
  cases args with
  | nil => exact h
  | cons _ _ => exact .throw _

theorem keeps_oneArgument {result : Value → HeapOp Value} (ha : ∀ a ∈ args, a.Plain)
    (h : ∀ a, a.Plain → Keeps (result a)) : Keeps (oneArgument kind method args result) := by
  unfold oneArgument
  split
  · exact h _ (ha _ (by simp))
  · exact .throw _

theorem keeps_textArgument {a : Value} {next : String → HeapOp Value}
    (h : ∀ s, Keeps (next s)) : Keeps (textArgument kind method a >>= next) := by
  cases a with
  | string s => exact h s
  | _ => exact .throw _

theorem keeps_oneText {result : String → HeapOp Value} (ha : ∀ a ∈ args, a.Plain)
    (h : ∀ s, Keeps (result s)) : Keeps (oneText kind method args result) :=
  keeps_oneArgument ha fun _ _ => keeps_textArgument h

theorem keeps_oneKey {result : HashKey → HeapOp Value} (ha : ∀ a ∈ args, a.Plain)
    (h : ∀ k, Keeps (result k)) : Keeps (oneKey kind method args result) := by
  refine keeps_oneArgument ha fun a _ => ?_
  split
  · exact h _
  · exact .throw _

theorem keeps_newArray {items : List Value} (h : ∀ v ∈ items, v.Plain) : Keeps (newArray items) :=
  fun _ hh => ⟨rfl, hh.newArray fun v hv => h v (by simpa using hv)⟩

theorem plain_strings (ss : List String) : ∀ v ∈ ss.map Value.string, v.Plain := by
  intro v hv
  obtain ⟨s, -, rfl⟩ := List.mem_map.mp hv
  rfl

theorem keeps_ofString (s : String) (ha : ∀ a ∈ args, a.Plain) :
    Keeps (ofString s method args) := by
  unfold ofString
  split
  · exact keeps_noArguments (keeps_pure rfl)
  · exact keeps_noArguments (keeps_pure rfl)
  · exact keeps_noArguments (keeps_pure rfl)
  · exact keeps_noArguments (keeps_pure rfl)
  · exact keeps_oneText ha fun _ => keeps_newArray (plain_strings _)
  · exact keeps_oneText ha fun _ => keeps_pure rfl
  · exact keeps_oneText ha fun _ => keeps_pure rfl
  · exact keeps_oneText ha fun _ => keeps_pure rfl
  · split
    · exact keeps_textArgument fun _ => keeps_textArgument fun _ => keeps_pure rfl
    · exact .throw _
  · exact .throw _

theorem keeps_ofInteger (n : Int64) : Keeps (ofInteger n method args) := by
  unfold ofInteger
  split
  · refine keeps_noArguments ?_
    unfold absolute
    split
    · exact keeps_pure rfl
    · exact .throw _
  · exact keeps_noArguments (keeps_pure rfl)
  · exact keeps_noArguments (keeps_pure rfl)
  · exact .throw _

theorem keeps_ofFloat (x : Float) : Keeps (ofFloat x method args) := by
  unfold ofFloat
  split
  · exact keeps_noArguments (keeps_pure rfl)
  · exact keeps_noArguments (keeps_pure rfl)
  · exact keeps_noArguments (keeps_pure rfl)
  · exact keeps_noArguments (keeps_pure rfl)
  · refine keeps_noArguments ?_
    split
    · exact keeps_pure rfl
    · exact .throw _
  · exact keeps_noArguments (keeps_pure rfl)
  · exact .throw _

theorem keeps_ofBoolean (b : Bool) : Keeps (ofBoolean b method args) := by
  unfold ofBoolean
  split
  · exact keeps_noArguments (keeps_pure rfl)
  · exact .throw _

theorem plain_back {h : Heap} (hh : h.Plain) (id : ArrayId) :
    ((h.array id).back?.getD .null).Plain := by
  cases hb : (h.array id).back? with
  | none => rfl
  | some v => exact hh.array id v (Array.mem_of_back? hb)

theorem keeps_ofArray (d : Definitions) (id : ArrayId) (ha : ∀ a ∈ args, a.Plain) :
    Keeps (ofArray d id method args) := by
  unfold ofArray
  split
  · exact keeps_noArguments (.bind .get fun _ _ => keeps_pure rfl)
  · refine keeps_oneArgument ha fun a hv => .bind (.modify fun h hh => ?_) fun _ _ => keeps_pure rfl
    refine hh.modifyArray id fun items hi v hmem => ?_
    rcases Array.mem_push.mp hmem with h1 | rfl
    · exact hi v h1
    · exact hv
  · refine keeps_noArguments (.bind .get fun heap hh => ?_)
    refine .bind (.modify fun h hh => ?_) fun _ _ => ?_
    · refine hh.modifyArray id fun items hi v hmem => ?_
      rw [Array.mem_def, Array.toList_pop] at hmem
      exact hi v (Array.mem_def.mpr ((List.dropLast_sublist _).subset hmem))
    · exact keeps_pure (plain_back hh id).isSettled
  · exact keeps_oneArgument ha fun _ _ => .bind .get fun _ _ => keeps_pure rfl
  · exact keeps_oneText ha fun _ => .bind .get fun _ _ => keeps_pure rfl
  · refine keeps_noArguments (.bind .get fun heap hh => keeps_newArray fun v hv => ?_)
    exact hh.array id v (by simpa using hv)
  · exact .throw _

theorem keeps_ofHash (id : HashId) (ha : ∀ a ∈ args, a.Plain) : Keeps (ofHash id method args) := by
  unfold ofHash
  split
  · refine keeps_noArguments (.bind .get fun heap hh => keeps_newArray fun v hv => ?_)
    obtain ⟨e, he, rfl⟩ := List.mem_map.mp hv
    exact (hh.hash id e he).1
  · refine keeps_noArguments (.bind .get fun heap hh => keeps_newArray fun v hv => ?_)
    obtain ⟨e, he, rfl⟩ := List.mem_map.mp hv
    exact (hh.hash id e he).2
  · exact keeps_noArguments (.bind .get fun _ _ => keeps_pure rfl)
  · exact keeps_oneKey ha fun _ => .bind .get fun _ _ => keeps_pure rfl
  · refine keeps_oneKey ha fun k => .bind .get fun heap hh => ?_
    cases he : (heap.hash id).get? k with
    | none => exact keeps_pure rfl
    | some entry =>
      refine .bind (.modify fun h hh => hh.modifyHash id fun o ho => ho.erase k) fun _ _ => ?_
      exact keeps_pure (Value.Plain.isSettled ((hh.hash id).get? he))
  · exact .throw _

theorem keeps_ofEnum {type : EnumType} (ht : ∀ b ∈ type.branches, b.2.Plain)
    (ha : ∀ a ∈ args, a.Plain) : Keeps (ofEnum type method args) := by
  unfold ofEnum
  split
  · refine keeps_noArguments (keeps_newArray fun v hv => ?_)
    obtain ⟨b, -, rfl⟩ := List.mem_map.mp hv
    rfl
  · refine keeps_noArguments (keeps_newArray fun v hv => ?_)
    obtain ⟨b, hb, rfl⟩ := List.mem_map.mp hv
    exact ht b hb
  · exact keeps_oneText ha fun _ => keeps_pure rfl
  · exact .throw _

theorem keeps_ofPlugin {plugin : Plugin} (hp : plugin.Plain) (ha : ∀ a ∈ args, a.Plain) :
    Keeps (ofPlugin plugin method args) := by
  unfold ofPlugin
  cases hf : plugin.functions.lookup method with
  | none => exact .throw _
  | some f => exact fun heap hh => hp (method, f) (mem_of_lookup hf) args heap ha hh

theorem keeps_call {d : Definitions} (hd : d.Plain) (hp : ∀ plugin ∈ d.plugins, plugin.Plain)
    (receiver : Value) (ha : ∀ a ∈ args, a.Plain) : Keeps (call d receiver method args) := by
  cases receiver with
  | string s => exact keeps_ofString s ha
  | integer n => exact keeps_ofInteger n
  | float x => exact keeps_ofFloat x
  | boolean b => exact keeps_ofBoolean b
  | array id => exact keeps_ofArray d id ha
  | hash id => exact keeps_ofHash id ha
  | enum id =>
    unfold call
    dsimp only
    cases ht : d.enum? id with
    | none => exact .throw _
    | some type => exact keeps_ofEnum (hd.enum? ht) ha
  | plugin id =>
    unfold call
    dsimp only
    cases ht : d.plugin? id with
    | none => exact .throw _
    | some plugin => exact keeps_ofPlugin (hp plugin (Array.mem_of_getElem? ht)) ha
  | _ => exact .throw _

end Method

end ScriptLang
