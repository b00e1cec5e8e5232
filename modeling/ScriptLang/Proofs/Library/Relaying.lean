import ScriptLang.Library.Call
import ScriptLang.Library.Modules
import ScriptLang.Proofs.Eval.Relaying

/-!
# The library passes failures on

No function of the library knows where it is called. So the faults that it makes have no place yet, and when
a function or method of the program that it calls fails, it fails with that. All that is said here is
`Eval.Relays`, of each function and method and of the parts they have in common, up to a whole call
(`Eval.Relays.callLibrary`, `Eval.Relays.callMethod`).
-/

namespace ScriptLang

open Eval

namespace Eval.Relays

variable {host : Host} {P : Failure → Prop} {run : Runner} (a : Arguments)

theorem newTexts (ts : List Text) : Relays host P (Eval.newTexts ts) := newArray _

/-! ### Conversion and ranges -/

theorem num : Relays host P (Library.num a) := by
  unfold Library.num
  refine bind (ask (a.asks_value 0)) fun w => ?_
  split
  · exact pure _
  · exact pure _
  · split
    · exact pure _
    · exact fail _ _
  · exact ask (a.asks_mismatch 0 _)

theorem refTo (c : CellId) : Relays host P (Library.refTo c) := by
  unfold Library.refTo
  refine bind store fun _ => ?_
  split
  · exact pure _
  · exact map newNumber

theorem refNew (v : Value) : Relays host P (Library.refNew v) := bind (change _) fun _ => map newNumber

theorem ref : Relays host P (Library.ref a) := bind (change _) fun _ => refTo _

theorem deref : Relays host P (Library.deref a) := bind store fun _ => pure _

theorem progression (first last step : Float) : Relays host P (Library.progression first last step) :=
  bind (orStuck _) fun _ => grownArray _

/-- One of two evaluations, and then the same for both. -/
theorem ite_bind {α β : Type} {c : Prop} [Decidable c] {x y : Eval α} {f : α → Eval β}
    (hx : Relays host P x) (hy : Relays host P y) (hf : ∀ a, Relays host P (f a)) :
    Relays host P (if c then x >>= f else y >>= f) :=
  ite (bind hx hf) (bind hy hf)

theorem range : Relays host P (Library.range a) := by
  unfold Library.range
  refine ite_bind (ask (a.asks_number 0)) (pure _) fun first => ?_
  refine ite_bind (ask (a.asks_number 1)) (ask (a.asks_number 0)) fun last => ?_
  refine ite_bind (ask (a.asks_number 2)) (pure _) fun step => ?_
  dsimp only
  split
  · exact fail _ _
  · split
    · exact fail _ _
    · exact progression first last step

/-! ### Numbers and strings -/

theorem onNumber (f : Float → Float) : Relays host P (Library.onNumber f a) := map (ask (a.asks_number 0))

theorem pow : Relays host P (Library.pow a) :=
  bind (ask (a.asks_number 0)) fun _ => map (ask (a.asks_number 1))

/-- A number put together from values, of which there must be some. -/
theorem foldAll {x : Eval Float} (hx : Asks x) (vs : List Value) (message : Text) :
    Relays host P
      (if vs.isEmpty then Eval.fail .arityMismatch message else do return Value.number (← x)) :=
  ite (fail _ _) (map (ask hx))

theorem foldNumbers (start : Float) (pick : Float → Float → Float) :
    Relays host P (Library.foldNumbers start pick a) := by
  unfold Library.foldNumbers
  refine ite_bind (pure _) (ask (a.asks_value 0)) fun v => ?_
  dsimp only
  split
  · exact bind store fun _ => bind (pure _) fun vs => foldAll (Library.asks_picked pick _ vs start) vs _
  · exact bind (pure _) fun vs => foldAll (Library.asks_picked pick _ vs start) vs _

theorem onText (f : Text → Text) : Relays host P (Library.onText f a) := map (ask (a.asks_text 0))

theorem askTexts (f : Text → Text → Bool) : Relays host P (Library.askTexts f a) :=
  bind (ask (a.asks_text 0)) fun _ => map (ask (a.asks_text 1))

theorem split : Relays host P (Library.split a) :=
  bind (ask (a.asks_text 0)) fun _ => bind (ask (a.asks_text 1)) fun _ => newTexts _

theorem replace : Relays host P (Library.replace a) :=
  bind (ask (a.asks_text 0)) fun _ => bind (ask (a.asks_text 1)) fun _ => map (ask (a.asks_text 2))

theorem repetition : Relays host P (Library.repetition a) := by
  refine bind (ask (a.asks_text 0)) fun t => bind (ask (a.asks_integer 1)) fun n => ?_
  split
  · exact fail _ _
  · split
    · exact throw trivial
    · exact pure _

/-! ### Time and random numbers -/

theorem readClock : Relays host P Library.readClock := modifyGet _

theorem sleep : Relays host P (Library.sleep a) := by
  refine bind (ask (a.asks_number 0)) fun ms => ?_
  split
  · exact fail _ _
  · refine bind isCancelled fun _ => ite (throw trivial) (bind ?_ fun _ => pure _)
    exact modifyGet _

theorem drawBelow (source n : Nat) : Relays host P (Library.drawBelow source n) := map (modifyGet _)

theorem randomInt (source : Nat) : Relays host P (Library.randomInt source a) := by
  refine bind (ask (a.asks_integer 0)) fun lo => bind (ask (a.asks_integer 1)) fun hi => ?_
  split
  · exact fail _ _
  · dsimp only
    split
    · exact throw trivial
    · exact map (drawBelow source _)

theorem randomFloat (source : Nat) : Relays host P (Library.randomFloat source) :=
  map (drawBelow source _)

theorem randomChoice (source : Nat) : Relays host P (Library.randomChoice source a) := by
  refine bind store fun _ => bind (ask (a.asks_array 0)) fun id => ?_
  dsimp only
  split
  · exact fail _ _
  · exact bind (drawBelow source _) fun _ => bind store fun _ => pure _

theorem randomSeed (source : Nat) : Relays host P (Library.randomSeed source a) := by
  refine bind (ask (a.asks_integer 0)) fun n => bind ?_ fun _ => pure _
  exact modifyGet _

/-! ### Arrays and objects -/

theorem push : Relays host P (Library.push a) :=
  bind (ask (a.asks_array 0)) fun _ => bind (update _) fun _ => pure _

theorem pop : Relays host P (Library.pop a) := by
  refine bind (ask (a.asks_array 0)) fun id => bind store fun _ => ?_
  dsimp only
  split
  · exact fail _ _
  · exact bind store fun _ => bind (update _) fun _ => pure _

theorem keys : Relays host P (Library.keys a) :=
  bind (ask (a.asks_object 0)) fun _ => bind store fun _ => newTexts _

theorem values : Relays host P (Library.values a) :=
  bind (ask (a.asks_object 0)) fun _ => bind store fun _ => newArray _

/-! ### JSON and files -/

theorem parseJson : Relays host P (Library.parseJson a) := by
  refine bind (ask (a.asks_text 0)) fun text => ?_
  split
  · exact change _
  · exact fail _ _

theorem stringifyJson : Relays host P (Library.stringify a) := by
  refine bind (ask (Library.asks_encode _)) fun j => bind (ask (Library.asks_allocated _)) fun line => ?_
  split
  · refine bind (ask (a.asks_integer 1)) fun width => ?_
    split
    · exact throw trivial
    · split
      · exact fail _ _
      · exact map (ask (Library.asks_allocated _))
  · exact pure _

theorem filePath : Relays host P (Library.filePath a) :=
  bind (ask (a.asks_text 0)) fun _ => bind get fun _ => pure _

theorem neededPath : Relays host P (Library.neededPath a) := by
  refine bind (filePath a) fun r => ?_
  split
  · exact pure _
  · exact fail _ _

theorem setFiles (files : Files) :
    Relays host P (modify fun st => { st with files := files } : Eval Unit) :=
  modifyGet fun st => ((), { st with files := files })

theorem readFile : Relays host P (Library.readFile a) :=
  bind (neededPath a) fun _ => bind get fun _ => map (ask (Library.asks_fileResult _ _))

theorem writeFile : Relays host P (Library.writeFile a) := by
  refine bind (neededPath a) fun path => ?_
  refine ite_bind (ask (a.asks_text 2)) (pure _) fun format => ?_
  refine bind (ask (a.asks_value 1)) fun v => ?_
  refine bind (ask (Library.asks_fileContent _ v)) fun content => bind get fun _ => ?_
  refine bind (setFiles _) fun _ => ?_
  dsimp only
  have written : Relays host P (do
      let files ← Library.fileResult "fs.write: " ((← MonadState.get).files.write path content)
      modify fun st => { st with files := files }
      Eval.newObject (Fields.ofList [
        ("kind", .text "file"),
        ("path", .text path),
        ("bytes", .number (Number.ofNat content.length)),
        ("sha256", .text (Digest.sha256 content))])) :=
    bind get fun _ => bind (ask (Library.asks_fileResult _ _)) fun _ =>
      bind (setFiles _) fun _ => newObject _
  split
  · exact bind (fail _ _) fun _ => written
  · exact written

theorem existsFile : Relays host P (Library.existsFile a) := by
  refine bind (filePath a) fun r => ?_
  split
  · exact bind get fun _ => pure _
  · exact pure _

theorem listFiles : Relays host P (Library.listFiles a) := by
  refine bind (neededPath a) fun path => bind get fun _ => ?_
  refine bind (ask (Library.asks_fileResult _ _)) fun entries => ?_
  exact bind (mapM _ fun _ => newObject _) fun _ => newArray _

theorem removeFile : Relays host P (Library.removeFile a) := by
  refine bind (neededPath a) fun path => bind get fun _ => ?_
  split
  · exact bind (setFiles _) fun _ => pure _
  · split
    · exact pure _
    · exact fail _ _

/-! ### Collections -/

theorem newCollection (k : CollectionKind) (content : Collection) :
    Relays host P (Library.newCollection k content) :=
  map (change _)

theorem setContent (c : CollectionId) (content : Collection) :
    Relays host P (Library.setContent c content) :=
  update _

theorem raws (args : List Value) : Relays host P (args.mapM Eval.raw) := mapM args fun v => raw v

theorem construct (k : CollectionKind) (args : List Value) :
    Relays host P (Library.construct k args) := by
  unfold Library.construct
  split
  · exact bind (raws args) fun _ => newCollection _ _
  · exact newCollection _ _
  · dsimp only
    split
    · exact fail _ _
    · refine bind (ask (Arguments.asks_integer _ 0)) fun n => ?_
      split
      · exact fail _ _
      · exact newCollection _ _

theorem listing (c : CollectionId) : Relays host P (Library.listing c) := ask (Library.asks_listing c)

theorem otherSet : Relays host P (Library.otherSet a) := by
  refine bind (raw _) fun w => ?_
  split
  · exact bind store fun _ => pure _
  · exact ask (a.asks_mismatch 0 _)

theorem setMethod (c : CollectionId) (m : CollectionMethod) : Relays host P (Library.setMethod c m a) := by
  unfold Library.setMethod
  split
  · exact bind (raws _) fun _ => bind store fun _ => bind (setContent _ _) fun _ => pure _
  · exact bind (ask (a.asks_value 0)) fun _ => bind store fun _ => bind (setContent _ _) fun _ => pure _
  · exact bind (ask (a.asks_value 0)) fun _ => bind store fun _ => pure _
  · exact bind (otherSet a) fun _ => bind store fun _ => newCollection _ _
  · exact bind (otherSet a) fun _ => bind store fun _ => newCollection _ _
  · exact pure _

theorem topOf (vs : List Value) : Relays host P (Library.topOf a vs) := by
  cases vs with
  | nil => exact fail _ _
  | cons v vs => exact pure _

theorem stackMethod (c : CollectionId) (m : CollectionMethod) :
    Relays host P (Library.stackMethod c m a) := by
  refine bind store fun _ => ?_
  dsimp only
  split
  · exact bind (setContent _ _) fun _ => pure _
  · exact bind (topOf a _) fun _ => bind (setContent _ _) fun _ => pure _
  · exact map (topOf a _)
  · exact pure _

theorem cacheMethod (c : CollectionId) (m : CollectionMethod) :
    Relays host P (Library.cacheMethod c m a) := by
  refine bind (raw _) fun k => bind store fun _ => ?_
  dsimp only
  split
  · exact bind (setContent _ _) fun _ => pure _
  · exact bind (setContent _ _) fun _ => pure _
  · exact pure _
  · exact bind (setContent _ _) fun _ => pure _
  · exact pure _

theorem loadModule (m : Module) : Relays host P m.load := by
  unfold Module.load
  refine ite_bind (modifyGet _) (pure _) fun source => ?_
  exact bind (mapM _ fun _ => map newNumber) fun _ => newObject _

/-! ### Functions that call others -/

section

variable (hrun : ∀ task, Relays host P (run task))

include hrun

theorem print (ending : Text) : Relays host P (Library.print run a ending) := by
  unfold Library.print
  refine bind (mapM _ fun v => stringify v hrun) fun parts => bind (write _) fun taken => ?_
  split
  · exact pure _
  · exact fail _ _

theorem join : Relays host P (Library.join run a) := by
  refine bind (ask (a.asks_array 0)) fun _ => bind (ask (a.asks_text 1)) fun _ => bind store fun _ => ?_
  exact map (mapM _ fun _ => bind store fun _ => stringify _ hrun)

theorem callOn (f v : Value) (i : Nat) : Relays host P (Library.callOn run f v i) := by
  unfold Library.callOn
  refine bind (raw f) fun w => ?_
  split
  · split
    · exact hrun _
    · exact hrun _
  · exact hrun _

theorem mapArray : Relays host P (Library.map run a) :=
  bind store fun _ => bind (ask (a.asks_array 0)) fun _ =>
    bind (mapM _ fun _ => map (callOn hrun _ _ _)) fun _ => newArray _

theorem filterArray : Relays host P (Library.filter run a) := by
  refine bind store fun _ => bind (ask (a.asks_array 0)) fun _ => bind (filterM _ fun _ => ?_) fun _ => ?_
  · exact bind (callOn hrun _ _ _) fun r => truthy r hrun
  · exact map (change _)

theorem goesBefore (less v w : Value) : Relays host P (Library.goesBefore run less v w) := by
  refine bind (hrun _) fun r => bind (raw r) fun u => ?_
  split
  · exact pure _
  · exact pure _
  · exact fail _ _

theorem sort : Relays host P (Library.sort run a) := by
  refine bind store fun st => bind (ask (a.asks_array 0)) fun id => ?_
  dsimp only
  split
  · have hcompare : (relator host P).Compares (Library.goesBefore run (a.get 1))
        (Library.goesBefore run (a.get 1)) (st.elements id) := fun v _ w _ =>
      ⟨goesBefore hrun _ v w, fun _ _ _ _ => trivial⟩
    have hsorted := (Sorting.rel_sortM (relator host P) hcompare (List.Subset.refl _)).1
    exact bind hsorted fun _ => newArray _
  · exact bind store fun _ => bind (orStuck _) fun _ => newArray _

theorem memberText (v : Value) : Relays host P (Library.memberText run v) := by
  refine bind (stringify v hrun) fun t => bind (raw v) fun u => ?_
  split
  · exact pure _
  · exact pure _

theorem collectionText (k : CollectionKind) (c : CollectionId) :
    Relays host P (Library.collectionText run k c) :=
  bind (listing c) fun _ => map (mapM _ fun v => memberText hrun v)

theorem commonMethod (k : CollectionKind) (c : CollectionId) (m : CollectionMethod) :
    Relays host P (Library.commonMethod run k c m) := by
  unfold Library.commonMethod
  split
  · exact bind store fun _ => bind (setContent _ _) fun _ => pure _
  · exact bind store fun _ => pure _
  · exact bind (listing c) fun _ => newArray _
  · exact map (collectionText hrun k c)
  · exact pure _

/-- A method of a collection. -/
theorem callMethod (k : CollectionKind) (c : CollectionId) (m : CollectionMethod) (args : List Value) :
    Relays host P (Library.callMethod run k c m args) := by
  unfold Library.callMethod
  dsimp only
  split
  · exact fail _ _
  · split
    iterate 4 exact commonMethod hrun k c _
    · split
      · exact setMethod _ c _
      · exact stackMethod _ c _
      · exact cacheMethod _ c _

theorem perform (f : Builtin) : Relays host P (Library.perform run f a) := by
  cases f with
  | print => exact print a hrun _
  | println => exact print a hrun _
  | len => exact map (len _ hrun)
  | str => exact map (stringify _ hrun)
  | num => exact num a
  | ref => exact ref a
  | deref => exact deref a
  | range => exact range a
  | push => exact push a
  | pop => exact pop a
  | keys => exact keys a
  | values => exact values a
  | sort => exact sort a hrun
  | map => exact mapArray a hrun
  | filter => exact filterArray a hrun
  | sqrt | floor | ceil | abs | round => exact onNumber a _
  | pow => exact pow a
  | min | max => exact foldNumbers a _ _
  | upper | lower | trim => exact onText a _
  | split => exact split a
  | join => exact join a hrun
  | contains | starts | ends => exact askTexts a _
  | replace => exact replace a
  | repetition => exact repetition a
  | readFile => exact readFile a
  | writeFile => exact writeFile a
  | existsFile => exact existsFile a
  | listFiles => exact listFiles a
  | removeFile => exact removeFile a
  | parseJson => exact parseJson a
  | stringify => exact stringifyJson a
  | now => exact map readClock
  | millis => exact map readClock
  | sleep => exact sleep a
  | randomInt source => exact randomInt a source
  | randomFloat source => exact randomFloat source
  | randomChoice source => exact randomChoice a source
  | randomSeed source => exact randomSeed a source

/-- A function of the library. -/
theorem callLibrary (f : Builtin) (args : List Value) : Relays host P (Library.call run f args) :=
  bind (ask (Library.asks_checkArity f _)) fun _ => perform _ hrun f

end

end Eval.Relays

end ScriptLang
