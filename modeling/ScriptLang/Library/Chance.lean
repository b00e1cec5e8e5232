import ScriptLang.Library.Arguments

/-!
# The modules `time` and `random`

The clock is part of the state: sleeping moves it on, and so does, a little, every look at it. Each
time `random` is imported it gets a source of numbers of its own; a source is a counter whose values
are mixed, so a source with the same seed gives the same numbers.
-/

namespace ScriptLang

open Eval

namespace Library

/-! ### Time -/

/-- The time in nanoseconds; a look at the clock takes a microsecond. -/
def readClock : Eval Nat := modifyGet fun st => (st.clock, { st with clock := st.clock + 1000 })

/-- The time in seconds. -/
def now : Eval Value := return .number (Number.ofNat (← readClock) / 1e9)

/-- The time in whole milliseconds. -/
def millis : Eval Value := return .number (Number.ofNat ((← readClock) / 1000000))

/-- Wait for a number of milliseconds. -/
def sleep (a : Arguments) : Eval Value := do
  let ms ← a.number 0
  if ms < 0 then fail .outOfRange "time.sleep: duration must not be negative"
  else if ← isCancelled then throw (.cancelled "time.sleep")
  else
    modify fun st => { st with clock := st.clock + (Number.toInteger (ms * 1e6)).toNat }
    return .nil

/-! ### Random numbers -/

/-- What a source is moved on by. -/
def stride : UInt64 := 0x9e3779b97f4a7c15

/-- The bits of a counter mixed. -/
def mix (z : UInt64) : UInt64 :=
  let z := (z ^^^ (z >>> 30)) * 0xbf58476d1ce4e5b9
  let z := (z ^^^ (z >>> 27)) * 0x94d049bb133111eb
  z ^^^ (z >>> 31)

/-- The next number of a source. -/
def draw (source : Nat) : Eval UInt64 :=
  modifyGet fun st =>
    let counter := st.randomness.getD source 0 + stride
    (mix counter, { st with randomness := st.randomness.setIfInBounds source counter })

/-- A new source. -/
def newSource : Eval Nat :=
  modifyGet fun st =>
    (st.randomness.size,
      { st with randomness := st.randomness.push (mix (UInt64.ofNat (st.clock + st.randomness.size))) })

/-- A natural number below `n`. -/
def drawBelow (source n : Nat) : Eval Nat := return (← draw source).toNat % n

/-- An integer from the first argument up to, not including, the second. The width of the range is an
integer of 64 bits. -/
def randomInt (source : Nat) (a : Arguments) : Eval Value := do
  let lo ← a.integer 0
  let hi ← a.integer 1
  if hi ≤ lo then
    fail .invalidRange ("random.int: empty range [" ++ Text.ofInt lo ++ ", " ++ Text.ofInt hi ++ ")")
  else
    let width := Int.bmod (hi - lo) Number.wordCount
    if width ≤ 0 then throw .crash
    else
      let k ← drawBelow source width.toNat
      return .number (Number.ofInt (Int.bmod (lo + k) Number.wordCount))

/-- A number from zero up to, not including, one. -/
def randomFloat (source : Nat) : Eval Value := do
  let n ← drawBelow source Binary.mantissaCount
  return .number (Number.ofNat n / Number.ofNat Binary.mantissaCount)

/-- An element of an array. -/
def randomChoice (source : Nat) (a : Arguments) : Eval Value := do
  let w := (← store).window (← a.array 0)
  if w.length = 0 then fail .indexOutOfBounds "random.choice: array is empty"
  else
    let i ← drawBelow source w.length
    return (← store).slot w.block i

/-- Set a source back to a seed. -/
def randomSeed (source : Nat) (a : Arguments) : Eval Value := do
  let n ← a.integer 0
  modify fun st =>
    { st with randomness := st.randomness.setIfInBounds source (UInt64.ofInt n) }
  return .nil

end Library

end ScriptLang
