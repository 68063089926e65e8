-- Sources of random numbers. A run only asks for the next number; which number that is, and how
-- the source moves on, is up to the host.

namespace ScriptLang

/-- A source of random numbers. Its state is written as a number, and every draw may move it on
in a way of its own. -/
structure Generator where
  /-- The state that a seed leads to. -/
  seeded : UInt64 → Nat
  /-- Draws a float from zero up to, but not including, one. -/
  unit : Nat → Float × Nat
  /-- Draws an integer below a positive bound. -/
  below : Nat → Int64 → Int64 × Nat
  /-- What is drawn below a positive bound is not negative and less than the bound. -/
  below_range : ∀ (state : Nat) (bound : Int64), 0 < bound.toInt →
    0 ≤ (below state bound).1.toInt ∧ (below state bound).1.toInt < bound.toInt

namespace Generator

/-- The state behind `state` in a generator that counts and mixes the bits of the count, and the
64 bits that are drawn. -/
def mixed (state : Nat) : UInt64 × Nat :=
  let state := UInt64.ofNat state + 0x9E3779B97F4A7C15
  let a := (state ^^^ (state >>> 30)) * 0xBF58476D1CE4E5B9
  let b := (a ^^^ (a >>> 27)) * 0x94D049BB133111EB
  (b ^^^ (b >>> 31), state.toNat)

/-- The remainder of a drawn number by a positive bound is an integer below the bound. -/
theorem remainder_range (drawn : Nat) (bound : Int64) (h : 0 < bound.toInt) :
    0 ≤ (Int64.ofInt (drawn % bound.toInt.toNat : Nat)).toInt ∧
      (Int64.ofInt (drawn % bound.toInt.toNat : Nat)).toInt < bound.toInt := by
  have hmax := bound.toInt_lt
  have hless : drawn % bound.toInt.toNat < bound.toInt.toNat := Nat.mod_lt _ (by omega)
  rw [Int64.toInt_ofInt_of_le (by omega) (by omega)]
  omega

/-- The generator of a host that brings none. -/
def mixing : Generator where
  seeded := UInt64.toNat
  unit state :=
    let drawn := mixed state
    ((drawn.1 >>> 11).toFloat / 9007199254740992.0, drawn.2)
  below state bound :=
    let drawn := mixed state
    (Int64.ofInt (drawn.1.toNat % bound.toInt.toNat : Nat), drawn.2)
  below_range state := remainder_range (mixed state).1.toNat

end Generator

/-- What a program has taken from outside so far. -/
structure Inputs where
  /-- The state of the generator. -/
  random : Nat
  /-- How often the clock was read. -/
  readings : Nat

namespace Inputs

/-- Draws a random number. -/
def drawn {α : Type} (draw : Nat → α × Nat) (inputs : Inputs) : α × Inputs :=
  let drawn := draw inputs.random
  (drawn.1, { inputs with random := drawn.2 })

/-- Reads the clock. -/
def reading (clock : Nat → Int) (inputs : Inputs) : Int × Inputs :=
  (clock inputs.readings, { inputs with readings := inputs.readings + 1 })

end Inputs

end ScriptLang
