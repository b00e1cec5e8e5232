import ScriptLang.Proofs.Library.Collections

/-!
# Library calls in accordance with a law

Files, JSON and modules, and the calls of all functions of the library. A call by name with a variable
for an argument of `ref` is the one place where a reference to the cell of a variable is made, so this
is what a law has to say something about.
-/

namespace ScriptLang

open Eval

namespace Store

/-- A value that consists of data only. -/
def IsData : Value → Prop
  | .number _ | .text _ | .boolean _ | .nil | .array _ | .object _ none => True
  | _ => False

/-- A store after data was added to it, and what was added. -/
structure AddsData (s t : Store) : Prop where
  cells : t.cells = s.cells
  scopes : t.scopes = s.scopes
  instances : s.SameInstances t
  holds : ∀ v, t.Heap v → s.Heap v ∨ IsData v

theorem AddsData.refl (s : Store) : s.AddsData s := ⟨rfl, rfl, .refl, fun _ h => .inl h⟩

theorem AddsData.trans {s t u : Store} (h : s.AddsData t) (h' : t.AddsData u) : s.AddsData u where
  cells := h'.cells.trans h.cells
  scopes := h'.scopes.trans h.scopes
  instances := h.instances.trans h'.instances
  holds v hv := (h'.holds v hv).elim (h.holds v) .inr

mutual

theorem ofJson_adds (s : Store) : ∀ j : Json, s.AddsData (s.ofJson j).2 ∧ IsData (s.ofJson j).1
  | .null => ⟨.refl s, trivial⟩
  | .bool _ => ⟨.refl s, trivial⟩
  | .integer _ => ⟨.refl s, trivial⟩
  | .number _ => ⟨.refl s, trivial⟩
  | .text _ => ⟨.refl s, trivial⟩
  | .array items => by
    obtain ⟨hadds, hdata⟩ := ofJsonItems_adds s items
    refine ⟨hadds.trans ⟨rfl, rfl, .of_objects rfl, fun v hv => ?_⟩, trivial⟩
    rcases heap_newArray hv with hv | hv | rfl
    · exact .inl hv
    · exact .inr (hdata v hv)
    · exact .inr trivial
  | .object entries => by
    obtain ⟨hadds, hdata⟩ := ofJsonFields_adds s entries
    refine ⟨hadds.trans ⟨rfl, rfl, .newObject _, fun v hv => ?_⟩, trivial⟩
    rcases heap_newObject hv with hv | ⟨name, hv⟩
    · exact .inl hv
    · obtain ⟨e, he, rfl⟩ := mem_ofList hv
      exact .inr (hdata e he)

theorem ofJsonItems_adds (s : Store) : ∀ js : List Json,
    s.AddsData (s.ofJsonItems js).2 ∧ ∀ v ∈ (s.ofJsonItems js).1, IsData v
  | [] => ⟨.refl s, fun v hv => absurd hv List.not_mem_nil⟩
  | j :: js => by
    obtain ⟨hadds, hdata⟩ := ofJson_adds s j
    obtain ⟨hadds', hdata'⟩ := ofJsonItems_adds (s.ofJson j).2 js
    refine ⟨hadds.trans hadds', fun v hv => ?_⟩
    rcases List.mem_cons.1 hv with rfl | hv
    · exact hdata
    · exact hdata' v hv

theorem ofJsonFields_adds (s : Store) : ∀ fs : List (Text × Json),
    s.AddsData (s.ofJsonFields fs).2 ∧ ∀ e ∈ (s.ofJsonFields fs).1, IsData e.2
  | [] => ⟨.refl s, fun e he => absurd he List.not_mem_nil⟩
  | (k, j) :: fs => by
    obtain ⟨hadds, hdata⟩ := ofJson_adds s j
    obtain ⟨hadds', hdata'⟩ := ofJsonFields_adds (s.ofJson j).2 fs
    refine ⟨hadds.trans hadds', fun e he => ?_⟩
    rcases List.mem_cons.1 he with rfl | he
    · exact hdata
    · exact hdata' e he

end

end Store

namespace Law

variable {L : Law} {K : L.Pairing} {ε : Effect} {s : State} {a : Arguments} {run run' : Runner}
variable {v w : Value}

theorem Bare.of_data {st : Store} (h : Store.IsData v) : L.Bare st v := by
  cases v with
  | object _ type =>
    cases type with
    | none => exact .of trivial nofun
    | some => exact h.elim
  | reference => exact h.elim
  | typed => exact h.elim
  | pair => exact h.elim
  | function => exact h.elim
  | native => exact h.elim
  | struct => exact h.elim
  | method => exact h.elim
  | breakSignal => exact h.elim
  | continueSignal => exact h.elim
  | returnSignal => exact h.elim
  | _ => exact .of trivial nofun

namespace Pairing.Sound

/-! ### JSON -/

theorem parseJson (a : Arguments) : K.Sound ε s (Library.parseJson a) (Library.parseJson a) L.Good := by
  refine bind (look (a.still_text 0)) fun text t _ _ _ => ?_
  split
  · next j _ =>
    obtain ⟨hadds, hdata⟩ := Store.ofJson_adds t.store j
    refine changeHeap hadds.cells hadds.scopes hadds.instances.checks (fun v hv => ?_) (Bare.of_data hdata).1
    exact (hadds.holds v hv).imp id .of_data
  · exact fail nofun

theorem still_encode (v : Value) : Still (Library.encode v) fun _ _ => True := by
  refine .bind .store fun st => ?_
  split
  · exact .pure fun _ _ => trivial
  · exact .fail nofun
  · exact .throw rfl

theorem still_allocated (t : Text) : Still (Library.allocated t) fun _ _ => True :=
  .ite (.throw rfl) (.pure fun _ => trivial)

theorem stringifyJson (a : Arguments) :
    K.Sound ε s (Library.stringify a) (Library.stringify a) L.Good := by
  refine bind (look (still_encode _)) fun j t _ _ _ => ?_
  refine bind (look (still_allocated _)) fun line t' _ _ _ => ?_
  split
  · refine bind (look (a.still_integer 1)) fun width t'' _ _ _ => ?_
    split
    · exact throw rfl
    · split
      · exact fail nofun
      · exact map (look (still_allocated _)) fun _ _ _ _ => trivial
  · exact pure trivial

/-! ### Files -/

theorem still_filePath (a : Arguments) : Still (Library.filePath a) fun _ _ => True :=
  .bind (a.still_text 0) fun _ => .bind .get fun _ => .pure fun _ _ _ => trivial

theorem still_neededPath (a : Arguments) : Still (Library.neededPath a) fun _ _ => True := by
  refine .bind (still_filePath a) fun r => ?_
  split
  · exact .pure fun _ _ => trivial
  · exact .fail nofun

theorem still_fileResult {α : Type} (what : Text) (r : Except FileError α) :
    Still (Library.fileResult what r) fun _ _ => True := by
  cases r with
  | ok x => exact .pure fun _ => trivial
  | error e => exact .fail nofun

theorem still_fileContent (pretty : Bool) (v : Value) :
    Still (Library.fileContent pretty v) fun _ _ => True := by
  unfold Library.fileContent
  split
  · exact .ite (.pure fun _ => trivial) (.pure fun _ => trivial)
  · exact .bind (still_encode _) fun _ => .pure fun _ _ => trivial

theorem setFiles (files : Files) :
    K.Sound ε s (modify fun st => { st with files := files } : Eval Unit)
      (modify fun st => { st with files := files }) fun _ _ => True :=
  look (.modify (P := fun _ _ => True) (fun _ => ⟨rfl, rfl, rfl, rfl⟩) fun _ => trivial)

theorem readFile (a : Arguments) : K.Sound ε s (Library.readFile a) (Library.readFile a) L.Good :=
  bind (look (still_neededPath a)) fun _ _ _ _ _ => bind (look .get) fun _ _ _ _ _ =>
    map (look (still_fileResult _ _)) fun _ _ _ _ => trivial

theorem writeFile (a : Arguments) : K.Sound ε s (Library.writeFile a) (Library.writeFile a) L.Good := by
  refine bind (look (still_neededPath a)) fun path t _ _ _ => ?_
  refine ite_bind (P := fun _ _ => True) (look (a.still_text 2)) (pure trivial)
    fun format t _ _ _ => ?_
  refine bind (look (a.still_value 1)) fun v t _ _ _ => ?_
  refine bind (look (still_fileContent _ v)) fun content t _ _ _ => bind (look .get) fun st t _ _ _ => ?_
  refine bind (setFiles _) fun _ t _ _ _ => ?_
  dsimp only
  have written : ∀ t : State, K.Sound ε t
      (do
        let files ← Library.fileResult "fs.write: " ((← get).files.write path content)
        modify fun st => { st with files := files }
        Eval.newObject (Fields.ofList [
          ("kind", .text "file"),
          ("path", .text path),
          ("bytes", .number (Number.ofNat content.length)),
          ("sha256", .text (Digest.sha256 content))]))
      (do
        let files ← Library.fileResult "fs.write: " ((← get).files.write path content)
        modify fun st => { st with files := files }
        Eval.newObject (Fields.ofList [
          ("kind", .text "file"),
          ("path", .text path),
          ("bytes", .number (Number.ofNat content.length)),
          ("sha256", .text (Digest.sha256 content))])) L.Good := by
    refine fun t => bind (look .get) fun st t _ _ _ => ?_
    refine bind (look (still_fileResult _ _)) fun files t _ _ _ => ?_
    refine bind (setFiles _) fun _ t _ _ _ => (newObject fun e he => ?_).good
    simp only [List.mem_cons, List.not_mem_nil, or_false] at he
    rcases he with rfl | rfl | rfl | rfl <;> exact .of_data trivial
  split
  · exact bind (P := fun _ _ => True) (fail nofun) fun _ t _ _ _ => written t
  · exact written t

theorem existsFile (a : Arguments) :
    K.Sound ε s (Library.existsFile a) (Library.existsFile a) L.Good := by
  refine bind (look (still_filePath a)) fun r t _ _ _ => ?_
  split
  · exact bind (look .get) fun _ _ _ _ _ => pure trivial
  · exact pure trivial

theorem listFiles (a : Arguments) :
    K.Sound ε s (Library.listFiles a) (Library.listFiles a) L.Good := by
  refine bind (look (still_neededPath a)) fun path t _ _ _ => bind (look .get) fun st t _ _ _ => ?_
  refine bind (look (still_fileResult _ _)) fun entries t _ _ _ => ?_
  refine bind (mapM lasting_bare fun p _ t' _ => newObject fun e he => ?_)
    fun items t' _ _ hitems => newArray hitems
  simp only [List.mem_cons, List.not_mem_nil, or_false] at he
  rcases he with rfl | rfl <;> exact .of_data trivial

theorem removeFile (a : Arguments) :
    K.Sound ε s (Library.removeFile a) (Library.removeFile a) L.Good := by
  refine bind (look (still_neededPath a)) fun path t _ _ _ => bind (look .get) fun st t _ _ _ => ?_
  split
  · exact bind (setFiles _) fun _ _ _ _ _ => pure trivial
  · split
    · exact pure trivial
    · exact fail nofun

/-! ### Modules -/

theorem loadModule {m : Module} (hm : ∀ source, ∀ f ∈ m.functions source, L.native f) :
    K.Sound ε s m.load m.load L.Good := by
  unfold Module.load
  refine ite_bind (P := fun _ _ => True) newSource (pure trivial) fun source t _ _ _ => ?_
  refine bind (mapM (Q := fun st (e : Text × Value) => L.Bare st e.2) (fun _ _ _ _ hle h => h.mono hle)
    fun f hf t' _ => map newNumber fun _ _ _ _ => .of (hm source f hf) nofun)
      fun fields t' _ _ hfields => ?_
  refine (newObject fun e he => ?_).good
  rcases List.mem_append.1 he with he | he
  · cases m with
    | math =>
      simp only [Module.constants, List.mem_cons, List.not_mem_nil, or_false] at he
      rcases he with rfl | rfl <;> exact .of_data trivial
    | _ => exact absurd he List.not_mem_nil
  · exact hfields e he

/-! ### Calls -/

theorem perform (hrun : K.Carries run run') (f : Builtin) (ha : L.GoodArgs s.store a) :
    K.Sound .quiet s (Library.perform run f a) (Library.perform run' f a) L.Good := by
  cases f with
  | print => exact print hrun ha _
  | println => exact print hrun ha _
  | len => exact map (len hrun (ha.get 0)) fun _ _ _ _ => trivial
  | str => exact map (stringify hrun (ha.get 0)) fun _ _ _ _ => trivial
  | num => exact num a
  | ref => exact ref ha
  | deref => exact deref ha
  | range => exact range a
  | push => exact push ha
  | pop => exact pop a
  | keys => exact keys a
  | values => exact values a
  | sort => exact sort hrun ha
  | map => exact mapArray hrun ha
  | filter => exact filterArray hrun ha
  | sqrt | floor | ceil | abs | round => exact onNumber _ a
  | pow => exact pow a
  | min | max => exact foldNumbers _ _ a
  | upper | lower | trim => exact onText _ a
  | split => exact split a
  | join => exact join hrun a
  | contains | starts | ends => exact askTexts _ a
  | replace => exact replace a
  | repetition => exact repetition a
  | readFile => exact readFile a
  | writeFile => exact writeFile a
  | existsFile => exact existsFile a
  | listFiles => exact listFiles a
  | removeFile => exact removeFile a
  | parseJson => exact parseJson a
  | stringify => exact stringifyJson a
  | now => exact now
  | millis => exact millis
  | sleep => exact sleep a
  | randomInt source => exact randomInt source a
  | randomFloat source => exact randomFloat source
  | randomChoice source => exact randomChoice source a
  | randomSeed source => exact randomSeed source a

theorem still_checkArity (f : Builtin) (got : Nat) :
    Still (Library.checkArity f got) fun _ _ => True := by
  unfold Library.checkArity
  split
  · exact .fail nofun
  · exact .pure fun _ => trivial

theorem callLibrary (hrun : K.Carries run run') (f : Builtin) {args : List Value}
    (h : ∀ v ∈ args, L.Good s.store v) :
    K.Sound .quiet s (Library.call run f args) (Library.call run' f args) L.Good :=
  bind (look (still_checkArity f _)) fun _ _ hle _ _ =>
    perform hrun f fun v hv => (h v hv).mono hle

end Pairing.Sound

end Law

end ScriptLang
