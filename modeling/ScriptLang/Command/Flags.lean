import ScriptLang.Text.Quoted

/-!
# Flags

The flags of a command line. A flag starts with one or two dashes; its value follows after an equals
sign or as the next argument. A flag without a value switches something on, and off again with the
value `false`. Two dashes end the flags.
-/

namespace ScriptLang

/-- A flag. -/
structure Flag where
  /-- Its names, the main one first. -/
  names : List Text
  /-- Whether it has a value. -/
  hasValue : Bool := false
deriving DecidableEq, Repr

/-- What is wrong with the flags of a command line. -/
inductive FlagError where
  /-- An argument of the wrong form. -/
  | badForm (arg : Text)
  /-- A flag that does not exist. -/
  | undefined (name : Text)
  /-- A flag without its value. -/
  | needsValue (name : Text)
  /-- A switch with a value that is no truth value. -/
  | invalidSwitch (name value : Text)
  /-- A flag under two of its names. -/
  | twoNames (names : List Text)
deriving DecidableEq, Repr

namespace FlagError

/-- The message of an error. -/
def message : FlagError → Text
  | badForm arg => "bad flag syntax: " ++ arg
  | undefined name => "flag provided but not defined: -" ++ name
  | needsValue name => "flag needs an argument: -" ++ name
  | invalidSwitch name value =>
    "invalid boolean value " ++ Text.quoted value ++ " for -" ++ name ++ ": parse error"
  | twoNames names => "Cannot use two forms of the same flag: " ++ Text.join " " names

end FlagError

/-- The flags that were given, under the names they were given by, and the other arguments. -/
structure Parsed where
  /-- The flags with their values, in order. -/
  given : List (Text × Text) := []
  /-- The other arguments. -/
  args : List Text := []
deriving DecidableEq, Repr

namespace Flag

/-- The flag with a name. -/
def find? (flags : List Flag) (name : Text) : Option Flag :=
  flags.find? fun f => f.names.contains name

/-- The truth value that a text stands for. -/
def readSwitch? (t : Text) : Option Bool :=
  if (["1", "t", "T", "TRUE", "true", "True"] : List Text).contains t then some true
  else if (["0", "f", "F", "FALSE", "false", "False"] : List Text).contains t then some false
  else none

/-- The name of a flag and the value after the equals sign, without the dashes. -/
def cut (t : Text) : Text × Option Text :=
  let name := t.take 1 ++ (t.drop 1).takeWhile (· != 0x3d)
  let rest := t.drop name.length
  (name, if rest.isEmpty then none else some (rest.drop 1))

/-- The part of an argument after the dashes; there is none if it is no flag. -/
def body? (arg : Text) : Option Text :=
  match arg with
  | 0x2d :: 0x2d :: r => some r
  | 0x2d :: b :: r => some (b :: r)
  | _ => none

/-- The value to note for a switch. -/
def switchValue (name : Text) (value : Option Text) : Except FlagError Text :=
  match value with
  | none => .ok "true"
  | some t =>
    match readSwitch? t with
    | some b => .ok (if b then "true" else "false")
    | none => .error (.invalidSwitch name t)

/-- Read flags up to the first argument that is none. -/
def parse (flags : List Flag) : List Text → Except FlagError Parsed
  | [] => .ok {}
  | arg :: rest =>
    match body? arg with
    | none => .ok { args := arg :: rest }
    | some [] => .ok { args := rest }
    | some body =>
      if body.head? == some 0x2d || body.head? == some 0x3d then .error (.badForm arg)
      else
        let (name, value) := cut body
        match find? flags name with
        | none => .error (.undefined name)
        | some f =>
          if !f.hasValue then do
            let v ← switchValue name value
            let p ← parse flags rest
            return { p with given := (name, v) :: p.given }
          else
            match value with
            | some v => do
              let p ← parse flags rest
              return { p with given := (name, v) :: p.given }
            | none =>
              match rest with
              | v :: rest => do
                let p ← parse flags rest
                return { p with given := (name, v) :: p.given }
              | [] => .error (.needsValue name)

/-- The flag that was given under two names. -/
def doubled? (flags : List Flag) (p : Parsed) : Option Flag :=
  flags.find? fun f => (f.names.filter fun n => p.given.any fun g => g.1 == n).length > 1

/-- Read flags; a flag may be given under one of its names only. -/
def read (flags : List Flag) (args : List Text) : Except FlagError Parsed := do
  let p ← parse flags args
  match doubled? flags p with
  | some f => .error (.twoNames f.names)
  | none => .ok p

/-- The arguments of a command with those before the first flag moved behind the flags. -/
def reorder (args : List Text) : List Text :=
  let isEnd (a : Text) : Bool := a == "--"
  let isFlag (a : Text) : Bool := a.head? == some 0x2d && a != "-"
  let front := args.takeWhile fun a => !isEnd a
  let plain := front.takeWhile fun a => !isFlag a
  if plain.length = front.length then args
  else front.drop plain.length ++ plain ++ args.drop front.length

/-- The values that were given to a flag, in order. -/
def values (f : Flag) (p : Parsed) : List Text :=
  (p.given.filter fun g => f.names.contains g.1).map Prod.snd

/-- Whether a flag was given. -/
def isGiven (f : Flag) (p : Parsed) : Bool := !(f.values p).isEmpty

/-- The last value that was given to a flag, or nothing. -/
def value (f : Flag) (p : Parsed) : Text := (f.values p).getLast?.getD []

/-- Whether a switch is on. -/
def isOn (f : Flag) (p : Parsed) : Bool := f.value p == "true"

end Flag

end ScriptLang
