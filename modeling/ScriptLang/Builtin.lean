-- The functions that every program finds without defining them: their names and how many
-- arguments they take.
import ScriptLang.Text.Escape

namespace ScriptLang

/-- How many arguments a function takes. -/
inductive Arity where
  | exact (count : Nat)
  | oneOf (counts : List Nat)
  | any
  deriving DecidableEq, Repr

namespace Arity

def accepts : Arity → Nat → Bool
  | exact count, n => n == count
  | oneOf counts, n => counts.contains n
  | any, _ => true

def text : Arity → String
  | exact count => Nat.repr count
  | oneOf counts => " or ".intercalate (counts.map Nat.repr)
  | any => "any number"

/-- The arity in a listing for the host. -/
def listing : Arity → String
  | exact count => "Exact(" ++ Nat.repr count ++ ")"
  | oneOf counts => "OneOf(" ++ Text.bracketed (counts.map Nat.repr) ++ ")"
  | any => "Any"

end Arity

/-- The functions of every program. -/
inductive Builtin where
  | len
  | first
  | last
  | rest
  | push
  | puts
  | time
  | rand
  | args
  | exit
  | plugin
  | type
  deriving DecidableEq, Repr

namespace Builtin

def name : Builtin → String
  | len => "len"
  | first => "first"
  | last => "last"
  | rest => "rest"
  | push => "push"
  | puts => "puts"
  | time => "time"
  | rand => "rand"
  | args => "args"
  | exit => "exit"
  | plugin => "plugin"
  | type => "type"

def arity : Builtin → Arity
  | len | first | last | rest | plugin | type => .exact 1
  | push => .exact 2
  | time | args => .exact 0
  | rand | exit => .oneOf [0, 1]
  | puts => .any

def all : List Builtin :=
  [len, first, last, rest, push, puts, time, rand, args, exit, plugin, type]

/-- The function with a name, if there is one. -/
def ofName? (name : String) : Option Builtin :=
  all.find? (fun b => b.name = name)

/-- The function in a listing for the host. -/
def listing (b : Builtin) : String :=
  "Builtin \x7b name: " ++ Text.escaped b.name ++ ", arity: " ++ b.arity.listing ++ ", .. \x7d"

end Builtin

end ScriptLang
