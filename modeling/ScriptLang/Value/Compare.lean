import ScriptLang.Store.Basic

/-!
# Equality, order and truth of values

These questions are about what values hold: annotations and references count for nothing. Arrays
and objects are equal when their elements and fields are, and an instance equals only instances of
the same struct. A question about values that go round in a circle has no answer; the bound `n` on
the depth of the look into them stands for that.
-/

namespace ScriptLang.Store

/-- A bound on the depth of values that is never reached by a value without circles. -/
def depthLimit : Nat := 1000000000000

/-- Whether two values are equal. -/
def equalWithin (s : Store) : Nat → Value → Value → Option Bool
  | 0, _, _ => none
  | n + 1, a, b => do
    match ← s.raw? a, ← s.raw? b with
    | .array x, .array y =>
      let xs := s.elements x
      let ys := s.elements y
      if xs.length ≠ ys.length then return false
      else (xs.zip ys).allM fun (v, w) => s.equalWithin n v w
    | .object x tx, .object y ty =>
      let fx := s.fields x
      let fy := s.fields y
      if tx.map (·.id) ≠ ty.map (·.id) || fx.length ≠ fy.length then return false
      else fx.entries.allM fun (k, v) =>
        match fy.get? k with
        | some w => s.equalWithin n v w
        | none => some false
    | .pair v w, .pair v' w' =>
      if ← s.equalWithin n v v' then s.equalWithin n w w' else return false
    | v, w => return v.same w

/-- Whether two values are equal. -/
def equal? (s : Store) (a b : Value) : Option Bool := s.equalWithin depthLimit a b

/-- The order of two values. -/
def order? (s : Store) (a b : Value) : Option Ordering := do
  return (← s.raw? a).order (← s.raw? b)

/-- Whether a value counts as true when no method is asked: numbers above zero, texts and arrays
that are not empty, pairs of two true values, and all things that have no size. -/
def truthWithin (s : Store) : Nat → Value → Option Bool
  | 0, _ => none
  | n + 1, v => do
    match ← s.raw? v with
    | .boolean b => return b
    | .number x => return x > 0
    | .text t => return !t.isEmpty
    | .array a => return s.length a > 0
    | .nil | .breakSignal | .returnSignal _ | .struct _ => return false
    | .pair a b => if ← s.truthWithin n a then s.truthWithin n b else return false
    | _ => return true

/-- Whether a value counts as true when no method is asked. -/
def truth? (s : Store) (v : Value) : Option Bool := s.truthWithin depthLimit v

/-- The type of a value as a program sees it: a broad class and the name of the type. -/
def typeOf (s : Store) (v : Value) : Value :=
  match v with
  | .typed _ t => .pair (.text "typed_val") (.text t.text)
  | .collection k _ => .pair (.text "std_instance") (.text k.name)
  | .reference .. => .pair (.text "ambiguous") (.text (s.deref v).typeName)
  | _ => .pair (.text "any") (.text v.typeName)

end ScriptLang.Store
