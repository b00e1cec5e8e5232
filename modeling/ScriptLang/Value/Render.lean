import ScriptLang.Decimal.Layout
import ScriptLang.Store.Basic
import ScriptLang.Text.Quoted

/-!
# The text of a value

How values are shown. A string inside of another value is quoted. The function `hook` is asked
first for every value and may give its text itself; it may also change the store, and every part is
read when its turn comes.
-/

namespace ScriptLang

/-- What showing a value needs from its surroundings. -/
structure Renderer (m : Type → Type) where
  /-- The store as it is now. -/
  store : m Store
  /-- The answer when the bound on the depth is reached. -/
  tooDeep : m Text
  /-- A text that a value gives for itself. -/
  hook : Value → m (Option Text)

namespace Renderer

variable {m : Type → Type} [Monad m]

/-- The shown form of a function's name. -/
def functionName (name : Text) : Text := if name.isEmpty then "anonymous" else name

/-- The text of a value; `nested` says whether it stands inside of another value. -/
def render (r : Renderer m) : Nat → Bool → Value → m Text
  | 0, _, _ => r.tooDeep
  | n + 1, nested, v => do
    match ← r.hook v with
    | some t => return t
    | none =>
      match v with
      | .number x => return Number.print x
      | .text t => return if nested then Text.quoted t else t
      | .boolean b => return if b then "true" else "false"
      | .nil => return "nil"
      | .array a =>
        let w := (← r.store).window a
        let parts ← (List.range w.length).mapM fun i => do
          r.render n true ((← r.store).slot w.block i)
        return "[" ++ Text.join ", " parts ++ "]"
      | .object o type =>
        let names := ((← r.store).fields o).names
        let parts ← names.mapM fun name => do
          match ((← r.store).fields o).get? name with
          | some v =>
            let t ← r.render n true v
            return name ++ ": " ++ t
          | none => return name ++ ": <unknown>"
        let body : Text := "\x7b" ++ Text.join ", " parts ++ "\x7d"
        match type with
        | some t => return t.name ++ " " ++ body
        | none => return body
      | .function _ f _ =>
        return "<fn " ++ functionName f.name ++ "(" ++ Text.ofNat f.params.length ++ " params), " ++
          Text.ofNat f.body.body.length ++ " stmts>"
      | .struct t =>
        return "<struct " ++ t.name ++ "(" ++ Text.ofNat t.fields.length ++ " fields, " ++
          Text.ofNat t.methods.length ++ " methods)>"
      | .reference .. =>
        let t ← r.render n true ((← r.store).deref v)
        return "References Val: " ++ t
      | .typed w type =>
        let t ← r.render n nested w
        return t ++ ", type " ++ type.text
      | .pair a b =>
        let s ← r.render n true a
        let t ← r.render n true b
        return "(" ++ s ++ ", " ++ t ++ ")"
      | .method _ _ type f => return "<method " ++ type.name ++ "." ++ f.name ++ ">"
      | .native _ f => return "<builtin " ++ f.name ++ ">"
      | .collection k _ => return "<" ++ k.name ++ ">"
      | .collectionMethod _ k _ f => return "<method " ++ k.name ++ "." ++ f.name ++ ">"
      | .breakSignal => return "<break>"
      | .continueSignal => return "<continue>"
      | .returnSignal w =>
        let t ← r.render n true w
        return "<return " ++ t ++ ">"

end Renderer

/-- The text of a value when no method is asked. There is none for a value that goes round in a
circle. -/
def Store.render? (s : Store) (v : Value) : Option Text :=
  let r : Renderer Option := { store := some s, tooDeep := none, hook := fun _ => some none }
  r.render 1000000000000 false v

end ScriptLang
