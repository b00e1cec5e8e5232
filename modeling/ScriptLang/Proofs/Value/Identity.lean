import ScriptLang.Proofs.Decimal.Bits
import ScriptLang.Value.Basic

/-!
# Values that are the same

Whether two values are the same without a look into the store is a matter of their *keys*: scalars are told
apart by what they are, pairs part by part, and everything else by which thing it is. Two values are the same
just when they have the same key and none of them is or contains not-a-number (`Value.same_iff`), which is
never the same as anything. So being the same is symmetric and transitive.
-/

namespace ScriptLang

/-- What a value is told apart by. -/
inductive Key where
  /-- The absent value. -/
  | nil
  /-- A truth value. -/
  | boolean (b : Bool)
  /-- A number, by its place. -/
  | number (place : List ℤ)
  /-- A string. -/
  | text (t : Text)
  /-- Two values. -/
  | pair (first second : Key)
  /-- An array. -/
  | array (id : ArrayId)
  /-- An object. -/
  | object (id : ObjectId)
  /-- A function. -/
  | function (id : Nat)
  /-- A struct. -/
  | struct (id : Nat)
  /-- A reference. -/
  | reference (id : Nat)
  /-- A bound method. -/
  | method (id : Nat)
  /-- A function of the library. -/
  | native (id : Nat)
  /-- A collection. -/
  | collection (id : CollectionId)
  /-- A method of a collection. -/
  | collectionMethod (id : Nat)
  /-- A value with an annotation. -/
  | typed (key : Key) (type : TypeExpr)
  /-- Leave the loop. -/
  | breakSignal
  /-- Go on with the next iteration. -/
  | continueSignal
  /-- Leave the function with a value. -/
  | returnSignal (key : Key)
deriving DecidableEq

namespace Value

/-- The key of a value. -/
def key : Value → Key
  | nil => .nil
  | boolean b => .boolean b
  | number x => .number (Number.place x)
  | text t => .text t
  | pair a b => .pair a.key b.key
  | array a => .array a
  | object o _ => .object o
  | function id _ _ => .function id
  | struct t => .struct t.id
  | reference id _ => .reference id
  | method id _ _ _ => .method id
  | native id _ => .native id
  | collection _ c => .collection c
  | collectionMethod id _ _ _ => .collectionMethod id
  | typed v t => .typed v.key t
  | breakSignal => .breakSignal
  | continueSignal => .continueSignal
  | returnSignal v => .returnSignal v.key

/-- Whether a value neither is not-a-number nor contains it, without a look into the store. -/
def isNanFree : Value → Bool
  | number x => !x.isNaN
  | pair a b => a.isNanFree && b.isNanFree
  | typed v _ => v.isNanFree
  | returnSignal v => v.isNanFree
  | _ => true

variable {u v w : Value}

theorem same_number {x y : Float} :
    (x == y) = true ↔ (x.isNaN = false ∧ y.isNaN = false) ∧ Number.place x = Number.place y := by
  refine ⟨fun h => ?_, fun ⟨⟨hx, hy⟩, h⟩ => (Number.beq_iff hx hy).2 h⟩
  obtain ⟨hx, hy⟩ := Number.isNaN_of_beq h
  exact ⟨⟨hx, hy⟩, (Number.beq_iff hx hy).1 h⟩

/-- Two values are the same just when they have the same key and contain no not-a-number. -/
theorem same_iff : v.same w = true ↔
    (v.isNanFree = true ∧ w.isNanFree = true) ∧ v.key = w.key := by
  induction v generalizing w with
  | number x => cases w <;> simp [same, key, isNanFree, same_number]
  | pair a b iha ihb =>
    cases w with
    | pair c d =>
      simp only [same, key, isNanFree, Bool.and_eq_true, iha, ihb, Key.pair.injEq]
      tauto
    | _ => simp [same, key]
  | typed v t ih =>
    cases w with
    | typed w t' => simp [same, key, isNanFree, ih, and_assoc]
    | _ => simp [same, key]
  | returnSignal v ih =>
    cases w with
    | returnSignal w => simp [same, key, isNanFree, ih]
    | _ => simp [same, key]
  | _ => cases w <;> simp [same, key, isNanFree]

theorem same_self (h : v.isNanFree = true) : v.same v = true := same_iff.2 ⟨⟨h, h⟩, rfl⟩

theorem same_symm (h : v.same w = true) : w.same v = true := by
  obtain ⟨⟨hv, hw⟩, hkey⟩ := same_iff.1 h
  exact same_iff.2 ⟨⟨hw, hv⟩, hkey.symm⟩

theorem same_trans (huv : u.same v = true) (hvw : v.same w = true) : u.same w = true := by
  obtain ⟨⟨hu, -⟩, hkey⟩ := same_iff.1 huv
  obtain ⟨⟨-, hw⟩, hkey'⟩ := same_iff.1 hvw
  exact same_iff.2 ⟨⟨hu, hw⟩, hkey.trans hkey'⟩

end Value

end ScriptLang
