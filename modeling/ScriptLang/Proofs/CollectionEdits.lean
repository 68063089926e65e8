-- What a run can do to its collections. Whatever a program does, it makes new arrays and hashes,
-- changes arrays, and inserts and removes entries of hashes; the rest is up to plugins. So what
-- these edits keep holds of the collections in every state of every run.
import Mathlib.Logic.Relation
import ScriptLang.Host.Plugins
import ScriptLang.Proofs.Quiet

namespace ScriptLang

open Relation

namespace Heap

/-! ## Edits -/

/-- One edit of the collections, on a host with these plugins. -/
inductive Edit (plugins : Array Plugin) : Heap → Heap → Prop
  | newArray (h : Heap) (items : Array Value) : Edit plugins h (h.newArray items).2
  | newHash (h : Heap) {object : HashObject} (hb : object.Built) :
      Edit plugins h (h.newHash object).2
  | changeArray (h : Heap) (id : ArrayId) (f : Array Value → Array Value) :
      Edit plugins h (h.modifyArray id f)
  | changeHash (h : Heap) (id : HashId) (change : HashChange) :
      Edit plugins h (h.modifyHash id change.apply)
  | plugin (h : Heap) {plugin : Plugin} {name : String} {f : PluginFunction}
      (hp : plugin ∈ plugins) (hf : (name, f) ∈ plugin.functions) (args : List Value) :
      Edit plugins h (f args h).2

/-- Edits one after the other. -/
abbrev Edits (plugins : Array Plugin) : Heap → Heap → Prop := ReflTransGen (Edit plugins)

/-- The collections that a change leaves behind. -/
def left {α : Type} : EStateM.Result Fault Heap α → Heap
  | .ok _ h => h
  | .error _ h => h

/-- A change of the collections that is made of steps of one kind. -/
def Moves {α : Type} (Step : Heap → Heap → Prop) (op : HeapOp α) : Prop :=
  ∀ h, ReflTransGen Step h (left (op h))

namespace Moves

variable {α β : Type} {Step : Heap → Heap → Prop}

theorem pure (a : α) : Moves Step (pure a) := fun _ => .refl

theorem throw (fault : Fault) : Moves Step (throw fault : HeapOp α) := fun _ => .refl

theorem get : Moves Step (get : HeapOp Heap) := fun _ => .refl

theorem modify {f : Heap → Heap} (hf : ∀ h, Step h (f h)) : Moves Step (modify f) :=
  fun h => .single (hf h)

theorem bind {op : HeapOp α} {next : α → HeapOp β} (h1 : Moves Step op)
    (h2 : ∀ a, Moves Step (next a)) : Moves Step (op >>= next) := by
  intro h
  have hop := h1 h
  change ReflTransGen Step h (left (EStateM.bind op next h))
  unfold EStateM.bind
  cases hr : op h with
  | ok a between =>
    rw [hr] at hop
    exact hop.trans (h2 a between)
  | error fault between =>
    rw [hr] at hop
    exact hop

end Moves

/-- A change of the collections that is made of edits. -/
abbrev MadeOfEdits {α : Type} (plugins : Array Plugin) (op : HeapOp α) : Prop :=
  Moves (Edit plugins) op

namespace MadeOfEdits

variable {plugins : Array Plugin}

/-! ## Elements -/

theorem write (container key value : Value) :
    MadeOfEdits plugins (Heap.write container key value) := by
  unfold Heap.write
  cases container with
  | array id =>
    cases key with
    | integer i =>
      refine .bind .get fun heap => ?_
      dsimp only
      split
      · split
        · exact .modify fun h => .changeArray h id _
        · split
          · exact .modify fun h => .changeArray h id _
          · exact .throw _
      · exact .throw _
    | _ => exact .throw _
  | hash id =>
    dsimp only
    split
    · exact .modify fun h => .changeHash h id (.insert key value)
    · exact .throw _
  | _ => exact .throw _

theorem delete (container key : Value) : MadeOfEdits plugins (Heap.delete container key) := by
  unfold Heap.delete
  cases container with
  | array id =>
    cases key with
    | integer i =>
      refine .bind .get fun heap => ?_
      dsimp only
      split
      · split
        · exact .modify fun h => .changeArray h id _
        · exact .throw _
      · exact .throw _
    | _ => exact .throw _
  | hash id =>
    dsimp only
    split
    · exact .modify fun h => .changeHash h id (.remove _)
    · exact .throw _
  | _ => exact .throw _

/-! ## Copies -/

theorem copyList {copy : Heap → Value → Value × Heap}
    (hc : ∀ h v, Edits plugins h (copy h v).2) (h : Heap) (vs : List Value) :
    Edits plugins h (Heap.copyList copy h vs).2 := by
  induction vs generalizing h with
  | nil => exact .refl
  | cons v vs ih => exact (hc h v).trans (ih (copy h v).2)

theorem copyEntries {copy : Heap → Value → Value × Heap}
    (hc : ∀ h v, Edits plugins h (copy h v).2) (h : Heap) {object : HashObject}
    (hb : object.Built) (es : List HashEntry) :
    Edits plugins h (Heap.copyEntries copy h object es).2 ∧
      (Heap.copyEntries copy h object es).1.Built := by
  induction es generalizing h object with
  | nil => exact ⟨.refl, hb⟩
  | cons e es ih =>
    obtain ⟨hedits, hbuilt⟩ := ih (copy (copy h e.key).2 e.value).2
      (hb.insert (copy h e.key).1 (copy (copy h e.key).2 e.value).1)
    exact ⟨((hc h e.key).trans (hc (copy h e.key).2 e.value)).trans hedits, hbuilt⟩

theorem copyWithin (depth : Nat) (h : Heap) (v : Value) :
    Edits plugins h (Heap.copyWithin depth h v).2 := by
  induction depth generalizing h v with
  | zero => exact .refl
  | succ depth ih =>
    cases v with
    | array id => exact (copyList ih h _).tail (.newArray _ _)
    | hash id =>
      have he := copyEntries ih h HashObject.built_empty (h.hash id).entries
      exact he.1.tail (.newHash _ he.2)
    | _ => exact .refl

end MadeOfEdits

end Heap

/-! ## Methods -/

namespace Method

open Heap

variable {plugins : Array Plugin} {kind : Kind} {method : String} {args : List Value}

theorem edits_noArguments {result : HeapOp Value} (h : MadeOfEdits plugins result) :
    MadeOfEdits plugins (noArguments kind method args result) := by
  unfold noArguments
  split
  · exact h
  · exact .throw _

theorem edits_oneArgument {result : Value → HeapOp Value}
    (h : ∀ a, MadeOfEdits plugins (result a)) :
    MadeOfEdits plugins (oneArgument kind method args result) := by
  unfold oneArgument
  split
  · exact h _
  · exact .throw _

theorem edits_textArgument {a : Value} {next : String → HeapOp Value}
    (h : ∀ s, MadeOfEdits plugins (next s)) :
    MadeOfEdits plugins (textArgument kind method a >>= next) := by
  cases a with
  | string s => exact h s
  | _ => exact .throw _

theorem edits_oneText {result : String → HeapOp Value}
    (h : ∀ s, MadeOfEdits plugins (result s)) :
    MadeOfEdits plugins (oneText kind method args result) :=
  edits_oneArgument fun _ => edits_textArgument h

theorem edits_oneKey {result : HashKey → HeapOp Value}
    (h : ∀ k, MadeOfEdits plugins (result k)) :
    MadeOfEdits plugins (oneKey kind method args result) := by
  refine edits_oneArgument fun a => ?_
  split
  · exact h _
  · exact .throw _

theorem edits_newArray (items : List Value) : MadeOfEdits plugins (newArray items) :=
  fun h => .single (.newArray h items.toArray)

theorem edits_ofString (s : String) : MadeOfEdits plugins (ofString s method args) := by
  unfold ofString
  split
  · exact edits_noArguments (.pure _)
  · exact edits_noArguments (.pure _)
  · exact edits_noArguments (.pure _)
  · exact edits_noArguments (.pure _)
  · exact edits_oneText fun _ => edits_newArray _
  · exact edits_oneText fun _ => .pure _
  · exact edits_oneText fun _ => .pure _
  · exact edits_oneText fun _ => .pure _
  · split
    · exact edits_textArgument fun _ => edits_textArgument fun _ => .pure _
    · exact .throw _
  · exact .throw _

theorem edits_ofInteger (n : Int64) : MadeOfEdits plugins (ofInteger n method args) := by
  unfold ofInteger
  split
  · refine edits_noArguments ?_
    unfold absolute
    split
    · exact .pure _
    · exact .throw _
  · exact edits_noArguments (.pure _)
  · exact edits_noArguments (.pure _)
  · exact .throw _

theorem edits_ofFloat (x : Float) : MadeOfEdits plugins (ofFloat x method args) := by
  unfold ofFloat
  split
  · exact edits_noArguments (.pure _)
  · exact edits_noArguments (.pure _)
  · exact edits_noArguments (.pure _)
  · exact edits_noArguments (.pure _)
  · refine edits_noArguments ?_
    split
    · exact .pure _
    · exact .throw _
  · exact edits_noArguments (.pure _)
  · exact .throw _

theorem edits_ofBoolean (b : Bool) : MadeOfEdits plugins (ofBoolean b method args) := by
  unfold ofBoolean
  split
  · exact edits_noArguments (.pure _)
  · exact .throw _

theorem edits_ofArray (d : Definitions) (id : ArrayId) :
    MadeOfEdits plugins (ofArray d id method args) := by
  unfold ofArray
  split
  · exact edits_noArguments (.bind .get fun _ => .pure _)
  · exact edits_oneArgument fun a =>
      .bind (.modify fun h => .changeArray h id _) fun _ => .pure _
  · exact edits_noArguments (.bind .get fun _ =>
      .bind (.modify fun h => .changeArray h id _) fun _ => .pure _)
  · exact edits_oneArgument fun _ => .bind .get fun _ => .pure _
  · exact edits_oneText fun _ => .bind .get fun _ => .pure _
  · exact edits_noArguments (.bind .get fun _ => edits_newArray _)
  · exact .throw _

theorem edits_ofHash (id : HashId) : MadeOfEdits plugins (ofHash id method args) := by
  unfold ofHash
  split
  · exact edits_noArguments (.bind .get fun _ => edits_newArray _)
  · exact edits_noArguments (.bind .get fun _ => edits_newArray _)
  · exact edits_noArguments (.bind .get fun _ => .pure _)
  · exact edits_oneKey fun _ => .bind .get fun _ => .pure _
  · refine edits_oneKey fun k => .bind .get fun heap => ?_
    split
    · exact .bind (.modify fun h => .changeHash h id (.remove k)) fun _ => .pure _
    · exact .pure _
  · exact .throw _

theorem edits_ofEnum (type : EnumType) : MadeOfEdits plugins (ofEnum type method args) := by
  unfold ofEnum
  split
  · exact edits_noArguments (edits_newArray _)
  · exact edits_noArguments (edits_newArray _)
  · exact edits_oneText fun _ => .pure _
  · exact .throw _

theorem edits_ofPlugin {plugin : Plugin} (hp : plugin ∈ plugins) :
    MadeOfEdits plugins (ofPlugin plugin method args) := by
  unfold ofPlugin
  split
  · rename_i f hf
    exact fun h => .single (.plugin h hp (mem_of_lookup hf) args)
  · exact .throw _

theorem edits_call (d : Definitions) (receiver : Value) :
    MadeOfEdits d.plugins (call d receiver method args) := by
  cases receiver with
  | string s => exact edits_ofString s
  | integer n => exact edits_ofInteger n
  | float x => exact edits_ofFloat x
  | boolean b => exact edits_ofBoolean b
  | array id => exact edits_ofArray d id
  | hash id => exact edits_ofHash id
  | enum id =>
    simp only [call]
    split
    · exact edits_ofEnum _
    · exact .throw _
  | plugin id =>
    simp only [call]
    split
    · rename_i plugin hplugin
      exact edits_ofPlugin (Array.mem_of_getElem? hplugin)
    · exact .throw _
  | _ => exact .throw _

end Method

/-! ## Steps -/

/-- The state with other collections. -/
def Machine.withHeap (m : Machine) (h : Heap) : Machine :=
  { m with store := { m.store with heap := h } }

namespace Eval

variable {α β : Type}

/-- A step that edits the collections, and leaves the plugins alone. -/
def Edits (step : Eval α) : Prop :=
  ∀ m, (left (step m)).store.definitions.plugins = m.store.definitions.plugins ∧
    Heap.Edits m.store.definitions.plugins m.store.heap (left (step m)).store.heap

namespace Edits

theorem pure (a : α) : Edits (pure a) := fun _ => ⟨rfl, .refl⟩

theorem bind {step : Eval α} {next : α → Eval β} (h1 : Edits step) (h2 : ∀ a, Edits (next a)) :
    Edits (step >>= next) := by
  intro m
  have hm := h1 m
  rw [bind_run]
  cases hr : step m with
  | ok a between =>
    rw [hr] at hm
    obtain ⟨hplugins, hedits⟩ := h2 a between
    simp only [left] at hm
    rw [hm.1] at hplugins hedits
    exact ⟨hplugins, hm.2.trans hedits⟩
  | error stop between =>
    rw [hr] at hm
    exact hm

theorem fail (reason : Fatal) : Edits (fail reason : Eval α) := fun _ => ⟨rfl, .refl⟩

/-! ### Steps on names and definitions -/

theorem lookup? (name : String) : Edits (lookup? name) := fun _ => ⟨rfl, .refl⟩

theorem define (name : String) (value : Value) : Edits (define name value) :=
  fun _ => ⟨rfl, .refl⟩

theorem assign (name : String) (value : Value) : Edits (assign name value) := by
  intro m
  simp only [Eval.assign]
  split
  · exact ⟨rfl, .refl⟩
  · exact ⟨rfl, .refl⟩

theorem onDefinitions {f : Definitions → α × Definitions}
    (hf : ∀ d, (f d).2.plugins = d.plugins) : Edits (onDefinitions f) :=
  fun m => ⟨hf m.store.definitions, .refl⟩

theorem lookup (name : String) : Edits (lookup name) := by
  refine .bind (.lookup? name) fun o => ?_
  cases o with
  | some v => exact .pure v
  | none =>
    dsimp only
    split
    · exact .pure _
    · exact .pure _

theorem scopeAccess (name branch : String) : Edits (scopeAccess name branch) := by
  refine .bind (.lookup name) fun v => ?_
  cases v with
  | enum id =>
    refine .bind (.onDefinitions fun _ => rfl) fun o => ?_
    split
    · split
      · exact .pure _
      · exact .pure _
    · exact .pure _
  | _ => exact .pure _

theorem step (op : StepOp) (name : String) : Edits (step op name) := by
  refine .bind (.lookup? name) fun o => ?_
  cases o with
  | none => exact .pure _
  | some current =>
    dsimp only
    split
    · exact .pure _
    · exact .bind (.assign name _) fun _ => .pure _

theorem makeFunction (literal : FunctionLiteral) : Edits (makeFunction literal) := by
  refine .bind (fun _ => ⟨rfl, .refl⟩) fun scope => .bind (.onDefinitions fun _ => rfl) fun id => ?_
  split
  · exact .bind (.define _ _) fun _ => .pure _
  · exact .pure _

/-! ### Steps on collections -/

theorem heap : Edits heap := fun _ => ⟨rfl, .refl⟩

theorem onHeap {op : HeapOp Value} (h : ∀ ps, Heap.MadeOfEdits ps op) : Edits (onHeap op) := by
  intro m
  have hop := h m.store.definitions.plugins m.store.heap
  refine ⟨congrArg _ (m.store.onHeap_definitions op), ?_⟩
  simp only [Eval.onHeap, Store.onHeap]
  cases hr : op m.store.heap with
  | ok v after =>
    rw [hr] at hop
    exact hop
  | error fault after =>
    rw [hr] at hop
    exact hop

theorem copied (value : Value) : Edits (copied value) :=
  .onHeap fun _ h => Heap.MadeOfEdits.copyWithin (h.size + 1) h value

theorem copiedArray (values : List Value) : Edits (copiedArray values) :=
  .onHeap fun _ h =>
    (Heap.MadeOfEdits.copyList (Heap.MadeOfEdits.copyWithin (h.size + 1)) h values).tail
      (.newArray _ _)

theorem callMethod (receiver : Value) (method : String) (args : List Value) :
    Edits (callMethod receiver method args) := by
  intro m
  have hcall : Heap.MadeOfEdits m.store.definitions.plugins
      (Method.call m.store.definitions receiver method args) :=
    Method.edits_call m.store.definitions receiver
  have hop := hcall m.store.heap
  refine ⟨congrArg _ (m.store.onHeap_definitions _), ?_⟩
  simp only [Eval.callMethod, Store.callMethod, Store.onHeap]
  cases hr : Method.call m.store.definitions receiver method args m.store.heap with
  | ok v after =>
    rw [hr] at hop
    exact hop
  | error fault after =>
    rw [hr] at hop
    exact hop

theorem newArray (items : List Value) : Edits (newArray items) :=
  .onHeap fun _ => Method.edits_newArray items

theorem newHash {object : HashObject} (hb : object.Built) : Edits (newHash object) :=
  .onHeap fun _ h => .single (.newHash h hb)

theorem readElement (container key : Value) : Edits (readElement container key) :=
  .bind .heap fun _ => .pure _

theorem writeElement (container key value : Value) : Edits (writeElement container key value) :=
  .onHeap fun _ => .bind (Heap.MadeOfEdits.write container key value) fun _ => .pure _

theorem eraseElement (container key : Value) : Edits (eraseElement container key) :=
  .onHeap fun _ => .bind (Heap.MadeOfEdits.delete container key) fun _ => .pure _

theorem bindEnum (name : String) (branches : List (String × Value)) :
    Edits (bindEnum name branches) :=
  .bind (.onDefinitions fun _ => rfl) fun _ => .define _ _

/-! ### Builtin functions -/

theorem render (value : Value) : Edits (render value) := fun _ => ⟨rfl, .refl⟩

theorem onSink (op : EStateM SinkError Sink Unit) : Edits (onSink op) := by
  intro m
  simp only [Eval.onSink]
  split
  · exact ⟨rfl, .refl⟩
  · exact ⟨rfl, .refl⟩

theorem draw (f : Inputs → α × Inputs) : Edits (draw f) := fun _ => ⟨rfl, .refl⟩

theorem putLines (values : List Value) : Edits (putLines values) := by
  induction values with
  | nil => exact .pure ()
  | cons value rest ih => exact .bind (.render value) fun _ => .bind (.onSink _) fun _ => ih

theorem lengthOf (value : Value) : Edits (lengthOf value) := by
  cases value with
  | array id | hash id => exact .bind .heap fun _ => .pure _
  | _ => exact .pure _

theorem firstOf (value : Value) : Edits (firstOf value) := by
  cases value with
  | array id => exact .bind .heap fun _ => .copied _
  | _ => exact .pure _

theorem lastOf (value : Value) : Edits (lastOf value) := by
  cases value with
  | array id => exact .bind .heap fun _ => .copied _
  | _ => exact .pure _

theorem restOf (value : Value) : Edits (restOf value) := by
  cases value with
  | array id =>
    refine .bind .heap fun h => ?_
    split
    · exact .pure _
    · exact .copiedArray _
  | _ => exact .pure _

theorem pushOnto (value item : Value) : Edits (pushOnto value item) := by
  cases value with
  | array id => exact .bind .heap fun _ => .copiedArray _
  | _ => exact .pure _

theorem time (host : Host) : Edits (time host) := .bind (.draw _) fun _ => .pure _

theorem random (host : Host) (args : List Value) : Edits (random host args) := by
  unfold Eval.random
  split
  · exact .bind (.draw _) fun _ => .pure _
  · split
    · exact .bind (.draw _) fun _ => .pure _
    · exact .pure _
  · exact .pure _

theorem exitWith (args : List Value) : Edits (exitWith args) := by
  unfold Eval.exitWith
  split
  · exact .fail _
  · split
    · exact .fail _
    · exact .pure _
  · exact .pure _

theorem findPlugin (host : Host) (value : Value) : Edits (findPlugin host value) := by
  unfold Eval.findPlugin
  split
  · split
    · exact .pure _
    · exact .pure _
  · exact .pure _

theorem applyBuiltin (host : Host) (b : Builtin) (args : List Value) :
    Edits (applyBuiltin host b args) := by
  unfold Eval.applyBuiltin
  split
  · cases b with
    | len => exact .lengthOf _
    | first => exact .firstOf _
    | last => exact .lastOf _
    | rest => exact .restOf _
    | push => exact .pushOnto _ _
    | puts => exact .bind (.putLines args) fun _ => .bind (.onSink _) fun _ => .pure _
    | time => exact .time host
    | rand => exact .random host args
    | args => exact .newArray _
    | exit => exact .exitWith args
    | plugin => exact .findPlugin host _
    | type => exact .pure _
  · exact .pure _

/-- Every step of an evaluation edits the collections and does nothing else to them. -/
theorem taken {host : Host} {step : Eval α} {Kept Given : Value → Prop} {P : α → Prop}
    (h : Taken host Kept Given step P) : Edits step := by
  cases h with
  | exhausted => exact fun _ => ⟨rfl, .refl⟩
  | heap => exact .heap
  | lookup? name => exact .lookup? name
  | closure? id => exact .onDefinitions fun _ => rfl
  | lookup name => exact .lookup name
  | scopeAccess name branch => exact .scopeAccess name branch
  | readElement container key => exact .readElement container key
  | step op name => exact .step op name
  | makeFunction literal => exact .makeFunction literal
  | eraseElement container key => exact .eraseElement container key
  | writeElement container key _ => exact .writeElement container key _
  | define name _ => exact .define name _
  | assign name _ => exact .assign name _
  | bindEnum name _ => exact .bindEnum name _
  | newArray _ => exact .newArray _
  | newHash _ hb => exact .newHash hb
  | callMethod method _ _ => exact .callMethod _ method _
  | applyBuiltin b _ => exact .applyBuiltin host b _

end Edits

end Eval

/-! ## Runs -/

/-- A state whose collections come from others by edits, on a host with these plugins. -/
structure Machine.EditedFrom (plugins : Array Plugin) (start : Heap) (m : Machine) : Prop where
  same : m.store.definitions.plugins = plugins
  edits : Heap.Edits plugins start m.store.heap

theorem Eval.Edits.left_editedFrom {α : Type} {step : Eval α} (h : Edits step)
    {plugins : Array Plugin} {start : Heap} {m : Machine} (hm : m.EditedFrom plugins start) :
    (left (step m)).EditedFrom plugins start := by
  obtain ⟨hplugins, hedits⟩ := h m
  rw [hm.same] at hplugins hedits
  exact ⟨hplugins, hm.edits.trans hedits⟩

/-- Whatever a run does, its collections come by edits from those that it started with. -/
def StoreInvariant.edited (host : Host) (plugins : Array Plugin) (start : Heap) :
    StoreInvariant host :=
  { StoreInvariant.trivial host with
    Holds := Machine.EditedFrom plugins start
    enter := fun _ _ hm => ⟨hm.same, hm.edits⟩
    newScope := fun _ _ hm => ⟨True.intro, hm.same, hm.edits⟩
    taken := by
      intro α step P h m hm
      have hleft := (Eval.Edits.taken h).left_editedFrom hm
      cases hr : step m with
      | ok a after =>
        rw [hr] at hleft
        exact ⟨h.result_of_true hr, hleft⟩
      | error stop after =>
        rw [hr] at hleft
        exact hleft }

namespace Eval

variable (host : Host) (fuel : Nat) (p : Program) (m : Machine)

theorem moments_edited :
    ∀ k ∈ moments host fuel p m,
      k.machine.EditedFrom m.store.definitions.plugins m.store.heap :=
  (StoreInvariant.edited host _ _).moments ⟨rfl, .refl⟩

theorem left_edited :
    (left ((program host fuel p : Eval Value) m)).EditedFrom m.store.definitions.plugins
      m.store.heap :=
  (StoreInvariant.edited host _ _).left
    ((StoreInvariant.edited host _ _).rules.program fuel p) ⟨rfl, .refl⟩

end Eval

end ScriptLang
