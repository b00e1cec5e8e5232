import ScriptLang.Proofs.Library.Compared

/-!
# Library calls in a compartment

Collections, files, JSON and modules, and the calls of all functions of the library. The files are the
same in both runs, and so is what is read from them.
-/

namespace ScriptLang

open Eval

namespace Comparison

variable {C : Comparison} {s : State} {a : Arguments} {v w : Value} {run run' : Runner}

namespace Sound

open Law.Pairing.Sound (mem_insert mem_union mem_inter members_subset items_subset cleared_subset
  entryValues entryValues_mono entries_subset mem_put get?_mem still_listing)

/-! ### Collections -/

theorem newCollection (k : CollectionKind) {content : Collection}
    (h : ∀ v ∈ content.contents, C.Good s.store v) :
    C.Sound s (Library.newCollection k content) (Library.newCollection k content) C.Good :=
  map (change (Q := fun _ c => C.origin.collections.size ≤ c) (.refl _)
    (fun hs => hs.newCollection h) fun hs => hs.collections.size_le) fun _ _ _ hc => hc

theorem setContent {c : CollectionId} (hc : C.origin.collections.size ≤ c) {content : Collection}
    (h : ∀ v ∈ content.contents, C.Good s.store v) :
    C.Sound s (Library.setContent c content) (Library.setContent c content) fun _ _ => True :=
  update fun hs => ⟨hs.setCollection hc h, .refl _⟩

theorem raws {args : List Value} (h : ∀ v ∈ args, C.Good s.store v) :
    C.Sound s (args.mapM Eval.raw) (args.mapM Eval.raw) fun t vs => ∀ v ∈ vs, C.Good t v :=
  mapM lasting_good fun v hv _ hst => raw ((h v hv).mono hst)

theorem plain_reverse {args : List Value} {st : Store} (h : ∀ v ∈ args, C.Good st v) :
    ∀ v ∈ (args.map Value.plain).reverse, C.Good st v := by
  intro v hv
  obtain ⟨u, hu, rfl⟩ := List.mem_map.1 (List.mem_reverse.1 hv)
  exact (h u hu).plain

theorem construct (k : CollectionKind) {args : List Value} (h : ∀ v ∈ args, C.Good s.store v) :
    C.Sound s (Library.construct k args) (Library.construct k args) C.Good := by
  unfold Library.construct
  split
  · refine bind (raws h) fun vs t _ _ hvs => newCollection _ fun v hv => ?_
    exact hvs v ((mem_union hv).resolve_left List.not_mem_nil)
  · exact newCollection _ (plain_reverse h)
  · dsimp only
    split
    · exact fail _ _
    · refine bind (look (Arguments.asks_integer _ 0)) fun n t _ _ _ => ?_
      split
      · exact fail _ _
      · exact newCollection _ fun v hv => absurd hv List.not_mem_nil

theorem listing {c : CollectionId} (hc : C.origin.collections.size ≤ c) :
    C.Sound s (Library.listing c) (Library.listing c) fun t vs => ∀ v ∈ vs, C.Good t v :=
  ask (Library.asks_listing c) (still_listing c) fun _ hs h v hv => hs.contents hc v (h hv)

theorem memberText (hrun : C.Carries run run') (hv : C.Good s.store v) :
    C.Sound s (Library.memberText run v) (Library.memberText run' v) fun _ _ => True := by
  refine bind (stringify hrun hv) fun t st hst _ _ => bind (raw (hv.mono hst)) fun u _ _ _ _ => ?_
  split
  · exact pure trivial
  · exact pure trivial

theorem collectionText (hrun : C.Carries run run') (k : CollectionKind) {c : CollectionId}
    (hc : C.origin.collections.size ≤ c) :
    C.Sound s (Library.collectionText run k c) (Library.collectionText run' k c)
      fun _ _ => True :=
  bind (listing hc) fun _ _ _ _ hvs =>
    map (eachM fun v hv _ hle => memberText hrun ((hvs v hv).mono hle)) fun _ _ _ _ => trivial

/-- The members of a set that is given as an argument. -/
theorem otherSet (ha : C.GoodArgs s.store a) :
    C.Sound s (Library.otherSet a) (Library.otherSet a) fun t vs => ∀ v ∈ vs, C.Good t v := by
  refine bind (raw (ha.get 0)) fun w t _ _ hw => ?_
  split
  · exact store fun ht => pure fun v hv => ht.contents hw v (members_subset _ hv)
  · exact ask (P := fun _ _ => False) (a.asks_mismatch 0 _) (a.still_mismatch 0 _ _)
      fun _ _ h => h.elim

theorem commonMethod (hrun : C.Carries run run') (k : CollectionKind) {c : CollectionId}
    (hc : C.origin.collections.size ≤ c) (m : CollectionMethod) :
    C.Sound s (Library.commonMethod run k c m) (Library.commonMethod run' k c m) C.Good := by
  unfold Library.commonMethod
  split
  · refine store fun hs => bind (setContent hc fun v hv => ?_) fun _ _ _ _ _ => pure trivial
    exact hs.contents hc v (cleared_subset _ hv)
  · exact store fun _ => pure trivial
  · exact bind (listing hc) fun _ _ _ _ hvs => newArray hvs
  · exact map (collectionText hrun k hc) fun _ _ _ _ => trivial
  · exact pure trivial

theorem setMethod {c : CollectionId} (hc : C.origin.collections.size ≤ c) (m : CollectionMethod)
    (ha : C.GoodArgs s.store a) :
    C.Sound s (Library.setMethod c m a) (Library.setMethod c m a) C.Good := by
  unfold Library.setMethod
  split
  · refine bind (raws ha) fun vs t _ _ hvs => store fun ht => ?_
    refine bind (setContent hc fun v hv => ?_) fun _ _ _ _ _ => pure hc
    rcases mem_union hv with hv | hv
    · exact ht.contents hc v (members_subset _ hv)
    · exact hvs v hv
  · refine bind (look (a.asks_value 0)) fun u t _ _ _ => store fun ht => ?_
    refine bind (setContent hc fun v hv => ?_) fun _ _ _ _ _ => pure trivial
    exact ht.contents hc v (members_subset _ (List.mem_filter.1 hv).1)
  · exact bind (look (a.asks_value 0)) fun u t _ _ _ => store fun _ => pure trivial
  · refine bind (otherSet ha) fun ws t _ _ hws => store fun ht => newCollection _ fun v hv => ?_
    rcases mem_union hv with hv | hv
    · exact ht.contents hc v (members_subset _ hv)
    · exact hws v hv
  · refine bind (otherSet ha) fun ws t _ _ hws => store fun ht => newCollection _ fun v hv => ?_
    rcases mem_inter hv with hv | hv
    · exact ht.contents hc v (members_subset _ hv)
    · exact hws v hv
  · exact pure trivial

theorem topOf (a : Arguments) {vs : List Value} (h : ∀ v ∈ vs, C.Good s.store v) :
    C.Sound s (Library.topOf a vs) (Library.topOf a vs) fun t r =>
      C.Good t r.1 ∧ ∀ v ∈ r.2, C.Good t v := by
  cases vs with
  | nil => exact fail _ _
  | cons v vs => exact pure ⟨h v List.mem_cons_self, fun w hw => h w (List.mem_cons_of_mem _ hw)⟩

theorem stackMethod {c : CollectionId} (hc : C.origin.collections.size ≤ c) (m : CollectionMethod)
    (ha : C.GoodArgs s.store a) :
    C.Sound s (Library.stackMethod c m a) (Library.stackMethod c m a) C.Good := by
  refine store fun hs => ?_
  have hitems : ∀ v ∈ (s.store.collection c).items, C.Good s.store v :=
    fun v hv => hs.contents hc v (items_subset _ hv)
  dsimp only
  split
  · refine bind (setContent hc fun v hv => ?_) fun _ _ _ _ _ => pure hc
    rcases List.mem_append.1 hv with hv | hv
    · exact plain_reverse ha v hv
    · exact hitems v hv
  · refine bind (topOf a hitems) fun r t _ _ hr => ?_
    exact bind (setContent hc hr.2) fun _ _ hle _ _ => pure (hr.1.mono hle)
  · exact map (topOf a hitems) fun _ _ _ h => h.1
  · exact pure trivial

theorem cacheMethod {c : CollectionId} (hc : C.origin.collections.size ≤ c) (m : CollectionMethod)
    (ha : C.GoodArgs s.store a) :
    C.Sound s (Library.cacheMethod c m a) (Library.cacheMethod c m a) C.Good := by
  refine bind (raw (ha.get 0)) fun k t hst _ hk => store fun ht => ?_
  have hes : ∀ v ∈ entryValues (t.store.collection c).entries, C.Good t.store v :=
    fun v hv => ht.contents hc v (entries_subset _ hv)
  dsimp only
  split
  · refine bind (setContent hc fun v hv => ?_) fun _ _ _ _ _ => pure trivial
    rcases mem_put hv with hv | rfl | rfl
    · exact hes v hv
    · exact hk
    · exact ((ha.mono hst).get 1).plain
  · refine bind (setContent hc fun v hv => ?_) fun _ t' hle _ _ => pure ?_
    · exact hes v (entryValues_mono ((Entries.laws 0).touched _ k) hv)
    · cases hv : Entries.get? (t.store.collection c).entries k with
      | none => trivial
      | some v => exact (hes v (get?_mem hv)).mono hle
  · exact pure trivial
  · refine bind (setContent hc fun v hv => ?_) fun _ _ _ _ _ => pure trivial
    exact hes v (entryValues_mono (fun _ h => (List.mem_filter.1 h).1) hv)
  · exact pure trivial

theorem callMethod (hrun : C.Carries run run') (k : CollectionKind) {c : CollectionId}
    (hc : C.origin.collections.size ≤ c) (m : CollectionMethod) {args : List Value}
    (h : ∀ v ∈ args, C.Good s.store v) :
    C.Sound s (Library.callMethod run k c m args) (Library.callMethod run' k c m args) C.Good := by
  unfold Library.callMethod
  dsimp only
  split
  · exact fail _ _
  · split
    iterate 4 exact commonMethod hrun k hc _
    · split
      · exact setMethod hc _ h
      · exact stackMethod hc _ h
      · exact cacheMethod hc _ h

/-! ### JSON -/

theorem parseJson (a : Arguments) : C.Sound s (Library.parseJson a) (Library.parseJson a) C.Good := by
  refine bind (look (a.asks_text 0)) fun text t _ ht _ => ?_
  split
  · next j _ =>
    obtain ⟨hs, hgrows, hgood⟩ := Compartment.ofJson ht j
    exact change hgrows (fun _ => hs) fun _ => hgood
  · exact fail _ _

theorem stringifyJson (a : Arguments) :
    C.Sound s (Library.stringify a) (Library.stringify a) C.Good := by
  refine bind (look (Library.asks_encode _)) fun j t _ _ _ => ?_
  refine bind (look (Library.asks_allocated _)) fun line t' _ _ _ => ?_
  split
  · refine bind (look (a.asks_integer 1)) fun width t'' _ _ _ => ?_
    split
    · exact throw trivial
    · split
      · exact fail _ _
      · exact map (look (Library.asks_allocated _)) fun _ _ _ _ => trivial
  · exact pure trivial

/-! ### Files -/

theorem filePath (a : Arguments) :
    C.Sound s (Library.filePath a) (Library.filePath a) fun _ _ => True :=
  bind (look (a.asks_text 0)) fun _ _ _ _ _ => state fun _ _ => pure trivial

theorem neededPath (a : Arguments) :
    C.Sound s (Library.neededPath a) (Library.neededPath a) fun _ _ => True := by
  refine bind (filePath a) fun r t _ _ _ => ?_
  split
  · exact pure trivial
  · exact fail _ _

theorem readFile (a : Arguments) : C.Sound s (Library.readFile a) (Library.readFile a) C.Good :=
  bind (neededPath a) fun _ _ _ _ _ => state fun _ _ =>
    map (look (Library.asks_fileResult _ _)) fun _ _ _ _ => trivial

theorem writeFile (a : Arguments) : C.Sound s (Library.writeFile a) (Library.writeFile a) C.Good := by
  refine bind (neededPath a) fun path t _ _ _ => ?_
  refine ite_bind (P := fun _ _ => True) (look (a.asks_text 2)) (pure trivial)
    fun format t _ _ _ => ?_
  refine bind (look (a.asks_value 1)) fun v t _ _ _ => ?_
  refine bind (look (Library.asks_fileContent _ v)) fun content t _ _ _ => state fun _ _ => ?_
  refine bind (setFiles _) fun _ t _ _ _ => ?_
  dsimp only
  have written : ∀ t : State, C.Sound t
      (do
        let files ← Library.fileResult "fs.write: " ((← get).files.write path content)
        modify fun st => { st with files := files }
        Eval.newObject (Fields.ofList [
          ("kind", .text "file"),
          ("path", .text path),
          ("bytes", .number (Number.ofNat content.length)),
          ("sha256", .text (Digest.sha256 content))]))
      (do
        let files ← Library.fileResult "fs.write: " ((← get).files.write path content)
        modify fun st => { st with files := files }
        Eval.newObject (Fields.ofList [
          ("kind", .text "file"),
          ("path", .text path),
          ("bytes", .number (Number.ofNat content.length)),
          ("sha256", .text (Digest.sha256 content))])) C.Good := by
    refine fun t => state fun _ _ => ?_
    refine bind (look (Library.asks_fileResult _ _)) fun files t _ _ _ => ?_
    refine bind (setFiles _) fun _ t _ _ _ => newObject fun e he => ?_
    simp only [List.mem_cons, List.not_mem_nil, or_false] at he
    rcases he with rfl | rfl | rfl | rfl <;> trivial
  split
  · exact bind (P := fun _ _ => True) (fail _ _) fun _ t _ _ _ => written t
  · exact written t

theorem existsFile (a : Arguments) :
    C.Sound s (Library.existsFile a) (Library.existsFile a) C.Good := by
  refine bind (filePath a) fun r t _ _ _ => ?_
  split
  · exact state fun _ _ => pure trivial
  · exact pure trivial

theorem listFiles (a : Arguments) :
    C.Sound s (Library.listFiles a) (Library.listFiles a) C.Good := by
  refine bind (neededPath a) fun path t _ _ _ => state fun _ _ => ?_
  refine bind (look (Library.asks_fileResult _ _)) fun entries t _ _ _ => ?_
  refine bind (mapM lasting_good fun p _ t' _ => newObject fun e he => ?_)
    fun items t' _ _ hitems => newArray hitems
  simp only [List.mem_cons, List.not_mem_nil, or_false] at he
  rcases he with rfl | rfl <;> trivial

theorem removeFile (a : Arguments) :
    C.Sound s (Library.removeFile a) (Library.removeFile a) C.Good := by
  refine bind (neededPath a) fun path t _ _ _ => state fun _ _ => ?_
  dsimp only
  split
  · exact bind (setFiles _) fun _ _ _ _ _ => pure trivial
  · split
    · exact pure trivial
    · exact fail _ _

/-! ### Modules -/

theorem loadModule (m : Module) : C.Sound s m.load m.load C.Good := by
  unfold Module.load
  refine ite_bind (P := fun _ _ => True) newSource (pure trivial) fun source t _ _ _ => ?_
  refine bind (mapM (Q := fun st (e : Text × Value) => C.Good st e.2)
    (fun _ _ _ hst h => h.mono hst) fun f _ t' _ => map newNumber fun _ _ _ _ => trivial)
      fun fields t' _ _ hfields => newObject fun e he => ?_
  rcases List.mem_append.1 he with he | he
  · cases m with
    | math =>
      simp only [Module.constants, List.mem_cons, List.not_mem_nil, or_false] at he
      rcases he with rfl | rfl <;> trivial
    | _ => exact absurd he List.not_mem_nil
  · exact hfields e he

/-! ### Calls -/

theorem perform (hrun : C.Carries run run') (f : Builtin) (ha : C.GoodArgs s.store a) :
    C.Sound s (Library.perform run f a) (Library.perform run' f a) C.Good := by
  cases f with
  | print => exact print hrun ha _
  | println => exact print hrun ha _
  | len => exact map (len hrun (ha.get 0)) fun _ _ _ _ => trivial
  | str => exact map (stringify hrun (ha.get 0)) fun _ _ _ _ => trivial
  | num => exact num a
  | ref => exact ref ha
  | deref => exact deref ha
  | range => exact range a
  | push => exact push ha
  | pop => exact pop ha
  | keys => exact keys a
  | values => exact values ha
  | sort => exact sort hrun ha
  | map => exact mapArray hrun ha
  | filter => exact filterArray hrun ha
  | sqrt | floor | ceil | abs | round => exact onNumber _ a
  | pow => exact pow a
  | min | max => exact foldNumbers _ _ a
  | upper | lower | trim => exact onText _ a
  | split => exact split a
  | join => exact join hrun ha
  | contains | starts | ends => exact askTexts _ a
  | replace => exact replace a
  | repetition => exact repetition a
  | readFile => exact readFile a
  | writeFile => exact writeFile a
  | existsFile => exact existsFile a
  | listFiles => exact listFiles a
  | removeFile => exact removeFile a
  | parseJson => exact parseJson a
  | stringify => exact stringifyJson a
  | now => exact now
  | millis => exact millis
  | sleep => exact sleep a
  | randomInt source => exact randomInt source a
  | randomFloat source => exact randomFloat source
  | randomChoice source => exact randomChoice source ha
  | randomSeed source => exact randomSeed source a

theorem callLibrary (hrun : C.Carries run run') (f : Builtin) {args : List Value}
    (h : ∀ v ∈ args, C.Good s.store v) :
    C.Sound s (Library.call run f args) (Library.call run' f args) C.Good :=
  bind (look (Library.asks_checkArity f _)) fun _ _ hle _ _ =>
    perform hrun f fun v hv => (h v hv).mono hle

end Sound

end Comparison

end ScriptLang
