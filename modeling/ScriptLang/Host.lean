-- What a program gets from outside: arguments, files, plugins, limits, random numbers and the time.
import ScriptLang.Store
import ScriptLang.Host.Generator
import ScriptLang.Host.Path

namespace ScriptLang

/-- The settings of a host. -/
structure Host where
  /-- What `args` gives. -/
  args : List String
  /-- The directory that imports start from. -/
  importRoot : String
  /-- How many calls may be open at once. -/
  maxCallDepth : Nat
  /-- The plugins that `plugin` finds. -/
  plugins : List Plugin
  /-- Reads a file as text. Files are assumed not to change while a program runs. -/
  fileText : String → Except FileError String
  /-- What `rand` draws from. -/
  generator : Generator
  /-- What the readings of the clock give, one after the other: seconds since 1970, negative
  before that. Nothing keeps the clock from standing still or from going back. -/
  clock : Nat → Int

namespace Host

/-- A host without arguments, files and plugins, on which time stands still. -/
def plain : Host :=
  { args := [], importRoot := ".", maxCallDepth := 10000, plugins := [],
    fileText := fun _ => .error .notFound, generator := .mixing, clock := fun _ => 1700000000 }

/-- The plugin with a name. A program's store holds the plugins of its host first. -/
def pluginId? (host : Host) (name : String) : Option PluginId :=
  (host.plugins.findIdx? (fun plugin => plugin.name = name)).map PluginId.mk

end Host

end ScriptLang
