import ScriptLang.Files.Basic
import ScriptLang.Log
import ScriptLang.Toml.Reader

/-!
# Configuration

The settings that a file gives, in sections. A key stands for a setting if it is the same without
underscores and in lower case. A file is read over the defaults and has to pass a check of the
settings that allow only certain values.
-/

namespace ScriptLang

/-- The settings. -/
structure Config where
  /-- From which level on records are logged. -/
  level : Text := "warn"
  /-- How records are written: `text` or `json`. -/
  format : Text := "text"
  /-- The modules that may be imported, if the file says so. -/
  allow : Option (List Text) := none
  /-- The modules that may not be imported, if the file says so. -/
  deny : Option (List Text) := none
  /-- How many imported files are kept. -/
  cacheSize : Int := 64
  /-- The directory for relative imports. -/
  baseDir : Text := []
  /-- The file that keeps the history of sessions. -/
  historyFile : Text := []
  /-- The prompt of sessions. -/
  prompt : Text := "ember> "
  /-- When colours are used: `auto`, `always` or `never`. -/
  color : Text := "auto"
deriving DecidableEq, Repr

/-- Why a configuration cannot be used. -/
inductive ConfigError where
  /-- The file cannot be read. -/
  | unreadable (e : FileError)
  /-- The file is no document, or a value has the wrong type. -/
  | malformed (path : Text)
  /-- A key that stands for no setting of its section. -/
  | unknownKey (path : Text) (line : Nat) (key section_ : Text)
  /-- A value that a setting does not allow. -/
  | refused (path : Option Text) (reason : Text)
deriving DecidableEq, Repr

namespace ConfigError

/-- The message of an error. -/
def message : ConfigError → Text
  | unreadable e => e.message
  | malformed path => path ++ ", line 1: toml: syntax error"
  | unknownKey path line key section_ =>
    path ++ ", line " ++ Text.ofNat line ++ ": field '" ++ key ++ "' is not defined in config." ++
      section_
  | refused (some path) reason => path ++ ": " ++ reason
  | refused none reason => reason

end ConfigError

namespace Config

/-! ### Settings and their keys -/

/-- What a setting holds. -/
inductive Content where
  /-- A text. -/
  | text (t : Text)
  /-- An integer. -/
  | integer (i : Int)
  /-- A list of texts. -/
  | list (ts : List Text)

/-- A setting: its key, how it is read from a configuration and how it is changed. -/
structure Setting where
  /-- The key. -/
  key : Text
  /-- What a configuration holds. -/
  get : Config → Content
  /-- The configuration with another content; a content of the wrong type is refused. -/
  set : Content → Config → Option Config

/-- A setting that holds a text. -/
def textSetting (key : Text) (get : Config → Text) (set : Text → Config → Config) : Setting :=
  { key := key
    get := fun c => .text (get c)
    set := fun v c => match v with
      | .text t => some (set t c)
      | _ => none }

/-- A setting that holds a list. -/
def listSetting (key : Text) (get : Config → Option (List Text))
    (set : List Text → Config → Config) : Setting :=
  { key := key
    get := fun c => .list ((get c).getD [])
    set := fun v c => match v with
      | .list ts => some (set ts c)
      | _ => none }

/-- The setting for the number of imported files that are kept. -/
def cacheSetting : Setting :=
  { key := "cache_size"
    get := fun c => .integer c.cacheSize
    set := fun v c => match v with
      | .integer i => some { c with cacheSize := i }
      | _ => none }

/-- A section of a configuration file. -/
structure Section where
  /-- The key. -/
  key : Text
  /-- The name in messages. -/
  name : Text
  /-- The settings in order. -/
  settings : List Setting

/-- The sections in order. -/
def sections : List Section :=
  [ ⟨"log", "LogConfig",
      [ textSetting "level" level fun t c => { c with level := t },
        textSetting "format" format fun t c => { c with format := t } ]⟩,
    ⟨"modules", "ModulesConfig",
      [ listSetting "allow" allow fun ts c => { c with allow := some ts },
        listSetting "deny" deny fun ts c => { c with deny := some ts } ]⟩,
    ⟨"imports", "ImportsConfig",
      [ cacheSetting,
        textSetting "base_dir" baseDir fun t c => { c with baseDir := t } ]⟩,
    ⟨"repl", "ReplConfig",
      [ textSetting "history_file" historyFile fun t c => { c with historyFile := t },
        textSetting "prompt" prompt fun t c => { c with prompt := t } ]⟩,
    ⟨"output", "OutputConfig",
      [ textSetting "color" color fun t c => { c with color := t } ]⟩ ]

/-- The form of a key in which keys are compared. -/
def normalKey (key : Text) : Text := Text.toLower (key.filter (· != 0x5f))

/-! ### Reading -/

/-- An integer of 64 bits. -/
def readInteger? (digits : Text) : Option Int :=
  let unsigned := if digits.head? == some 0x2b || digits.head? == some 0x2d then digits.drop 1 else digits
  let n : Nat := unsigned.foldl (fun n b => 10 * n + (b.toNat - 0x30)) 0
  let i : Int := if digits.head? == some 0x2d then -n else n
  if Number.isWord i then some i else none

/-- The texts of a sequence of strings. -/
def readTexts? (items : List TomlValue) : Option (List Text) :=
  items.mapM fun v => match v with
    | .text t => some t
    | _ => none

/-- The content that a value of a document gives. -/
def content? : TomlValue → Option Content
  | .text t => some (.text t)
  | .integer digits => (readInteger? digits).map .integer
  | .array items => (readTexts? items).map .list
  | _ => none

/-- The configuration after an entry of a section. -/
def readSetting (path : Text) (s : Section) (c : Config) (key : Text) (n : TomlNode) :
    Except ConfigError Config :=
  match s.settings.find? fun f => normalKey f.key == normalKey key with
  | none => .error (.unknownKey path n.line key s.name)
  | some f =>
    match n with
    | .value v _ =>
      match content? v with
      | some content =>
        match f.set content c with
        | some c => .ok c
        | none => .error (.malformed path)
      | none => .error (.malformed path)
    | _ => .error (.malformed path)

/-- The configuration after a section. -/
def readSection (path : Text) (c : Config) (key : Text) (n : TomlNode) :
    Except ConfigError Config :=
  match sections.find? fun s => normalKey s.key == normalKey key with
  | none => .error (.unknownKey path n.line key "Config")
  | some s =>
    match n with
    | .table _ _ entries => entries.foldlM (fun c (k, n) => readSetting path s c k n) c
    | _ => .error (.malformed path)

/-- The configuration that a document gives over the defaults. -/
def decode (path source : Text) : Except ConfigError Config :=
  match Toml.parse? source with
  | none => .error (.malformed path)
  | some t => t.foldlM (fun c (k, n) => readSection path c k n) {}

/-! ### Checking -/

/-- What is wrong with the values of a configuration. -/
def fault? (c : Config) : Option Text :=
  if (LogLevel.read? c.level).isNone then
    some ("log.level: unknown level " ++ Text.quoted c.level)
  else if c.format ≠ "text" ∧ c.format ≠ "json" then
    some ("log.format must be \"text\" or \"json\", got " ++ Text.quoted c.format)
  else if c.color ≠ "auto" ∧ c.color ≠ "always" ∧ c.color ≠ "never" then
    some ("output.color must be \"auto\", \"always\" or \"never\", got " ++ Text.quoted c.color)
  else if c.cacheSize < 0 then
    some ("imports.cache_size must not be negative, got " ++ Text.ofInt c.cacheSize)
  else none

/-- The configuration that a file gives. -/
def loadFile (files : Files) (path : Text) : Except ConfigError Config := do
  match files.read path with
  | .error e => .error (.unreadable e)
  | .ok source =>
    let c ← decode path source
    match c.fault? with
    | some reason => .error (.refused (some path) reason)
    | none => .ok c

/-- Whether an error says that there is no such file. -/
def isMissing : ConfigError → Bool
  | .unreadable e => e.fault == .missing
  | _ => false

/-- The configuration that the first of several files gives, and its path. -/
def firstOf (files : Files) : List Text → Except ConfigError (Config × Text)
  | [] => .ok ({}, [])
  | path :: rest =>
    match loadFile files path with
    | .ok c => .ok (c, path)
    | .error e => if isMissing e then firstOf files rest else .error e

/-- The name of the file of a project. -/
def projectFile : Text := "ember.toml"

/-- The configuration and the file it came from: a file that is asked for, the file of the project,
the file of the user, or the defaults. -/
def load (files : Files) (explicit project : Text) : Except ConfigError (Config × Text) :=
  if !explicit.isEmpty then (loadFile files explicit).map fun c => (c, explicit)
  else
    firstOf files
      [Path.join project projectFile, Path.join (Path.join files.home ".ember") "config.toml"]

/-! ### Writing -/

/-- The text of a content. -/
def Content.write : Content → Text
  | text t => Text.quoted t
  | integer i => Text.ofInt i
  | list ts => "[" ++ Text.join ", " (ts.map Text.quoted) ++ "]"

/-- The line of a setting. -/
def writeSetting (c : Config) (f : Setting) : Text := f.key ++ " = " ++ (f.get c).write ++ "\n"

/-- The text of a section. -/
def writeSection (c : Config) (s : Section) : Text :=
  "[" ++ s.key ++ "]\n" ++ s.settings.flatMap c.writeSetting

/-- A configuration as the text of a file. -/
def encode (c : Config) : Text := Text.join "\n" (sections.map c.writeSection)

/-! ### Consequences -/

/-- Whether records of a level are logged. -/
def logs (c : Config) (l : LogLevel) : Bool := (LogLevel.read? c.level).getD 4 ≤ l.number

/-- The line that a record becomes. -/
def logLine (c : Config) (r : LogRecord) : Text :=
  if c.format = "json" then r.jsonLine else r.textLine

/-- A path in which `~/` stands for the home directory. -/
def expandHome (files : Files) (path : Text) : Text :=
  if ("~/" : Text).isPrefixOf path then Path.join files.home (path.drop 2) else path

/-- The file that keeps the history of sessions. -/
def historyPath (files : Files) (c : Config) : Text :=
  if c.historyFile.isEmpty then Path.join (Path.join files.home ".ember") "history"
  else expandHome files c.historyFile

end Config

end ScriptLang
