-- Plugins that a host can register.
import ScriptLang.Store
import ScriptLang.Number.Integer
import ScriptLang.Text.Case

namespace ScriptLang

namespace Plugin

/-- The square of an integer. -/
def square : PluginFunction
  | [.integer n], heap =>
    match Integer.ofExact? (n.toInt * n.toInt) with
    | some result => (.integer result, heap)
    | none => (.error (.custom "square overflow"), heap)
  | _, heap => (.error (.custom "square expects one integer"), heap)

/-- A string in upper case. -/
def shout : PluginFunction
  | [.string s], heap => (.string (Text.upper s), heap)
  | _, heap => (.error (.custom "shout expects one string"), heap)

/-- A new array of the arguments. -/
def echo : PluginFunction
  | args, heap =>
    let made := heap.newArray args.toArray
    (.array made.1, made.2)

/-- The number of the arguments. -/
def count : PluginFunction
  | args, heap => (.integer (Integer.ofLength args.length), heap)

def math : Plugin := ⟨"math", [("square", square)]⟩

def text : Plugin := ⟨"text", [("shout", shout), ("echo", echo), ("len", count)]⟩

def empty : Plugin := ⟨"empty", []⟩

/-- The plugin with a name. -/
def ofName? (name : String) : Option Plugin :=
  [math, text, empty].find? (fun plugin => plugin.name = name)

end Plugin

end ScriptLang
