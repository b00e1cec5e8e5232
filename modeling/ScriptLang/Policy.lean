import ScriptLang.Text.Basic

/-!
# Module policies

A policy says which modules of the library a program may import. An empty list of admitted modules,
or one with `*` in it, admits every module; a denied module is never admitted.
-/

namespace ScriptLang

/-- Which modules may be imported. -/
structure Policy where
  /-- Whether every module is admitted that is not denied. -/
  allowsAll : Bool
  /-- The admitted modules. -/
  allowed : List Text := []
  /-- The denied modules. -/
  denied : List Text := []
deriving DecidableEq, Repr

namespace Policy

/-- The entry that admits every module. -/
def wildcard : Text := "*"

/-- The policy of two lists. -/
def ofLists (allow deny : List Text) : Policy :=
  { allowsAll := allow.isEmpty || allow.contains wildcard
    allowed := allow.filter (· ≠ wildcard)
    denied := deny }

/-- Whether a module may be imported. -/
def allows (p : Policy) (module : Text) : Bool :=
  !p.denied.contains module && (p.allowsAll || p.allowed.contains module)

/-- The modules that may be imported, in ascending order. -/
def filter (p : Policy) (modules : List Text) : List Text := Text.sort (modules.filter p.allows)

/-- The policy that admits every module. -/
def allowAll : Policy := ofLists [] []

/-- The policy that admits no module. -/
def denyAll : Policy := { allowsAll := false }

end Policy

end ScriptLang
