-- Everything that a running program has made: collections, scopes, functions and enums, and
-- the plugins of the host.
import ScriptLang.Heap
import ScriptLang.Scope
import ScriptLang.Tree

namespace ScriptLang

/-- A function with the scope it was made in. -/
structure Closure where
  literal : FunctionLiteral
  scope : ScopeId

/-- An enum: its name and the values of its branches, in the order of the declaration. -/
structure EnumType where
  name : String
  branches : List (String × Value)

/-- A function of a plugin. It sees its arguments and the collections they name, and what it gives
follows from these alone. The type is an assumption about the host: no plugin binds a name in a
scope, makes a function or an enum, writes output, or remembers one call in the next. -/
abbrev PluginFunction := List Value → Heap → Value × Heap

/-- A table of functions that the host provides. -/
structure Plugin where
  name : String
  functions : List (String × PluginFunction)

/-- The plugin in a listing for the host. -/
def Plugin.listing (plugin : Plugin) : String :=
  let names := (plugin.functions.map Prod.fst).mergeSort (fun a b => decide (a ≤ b))
  "Plugin \x7b name: " ++ Text.escaped plugin.name ++ ", functions: " ++
    Text.bracketed (names.map Text.escaped) ++ " \x7d"

/-- The functions, enums and plugins that values name. None of them ever changes. -/
structure Definitions where
  functions : Array Closure
  enums : Array EnumType
  plugins : Array Plugin

namespace Definitions

def empty : Definitions := ⟨#[], #[], #[]⟩

def newFunction (d : Definitions) (closure : Closure) : FunctionId × Definitions :=
  (⟨d.functions.size⟩, { d with functions := d.functions.push closure })

def newEnum (d : Definitions) (type : EnumType) : EnumId × Definitions :=
  (⟨d.enums.size⟩, { d with enums := d.enums.push type })

def newPlugin (d : Definitions) (plugin : Plugin) : PluginId × Definitions :=
  (⟨d.plugins.size⟩, { d with plugins := d.plugins.push plugin })

def function? (d : Definitions) (id : FunctionId) : Option Closure := d.functions[id.index]?

def enum? (d : Definitions) (id : EnumId) : Option EnumType := d.enums[id.index]?

def plugin? (d : Definitions) (id : PluginId) : Option Plugin := d.plugins[id.index]?

end Definitions

/-- The store of a running program. -/
structure Store where
  heap : Heap
  scopes : Scopes
  definitions : Definitions

def Store.empty : Store := ⟨.empty, .empty, .empty⟩

end ScriptLang
