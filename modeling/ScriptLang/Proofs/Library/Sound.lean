import ScriptLang.Proofs.Eval.Values
import ScriptLang.Proofs.Library.Sorting

/-!
# The library in accordance with a law

Every function of the library and every method of a collection does what a law of evaluation asks.
The functions look at their arguments, read the store, put good values into arrays, objects and
collections, and call functions of the program only through the runner.
-/

namespace ScriptLang

open Eval

variable {α β : Type}

/-! ### Arguments -/

namespace Arguments

variable (a : Arguments) (i : Nat)

theorem still_value : Still (a.value i) fun s w => s.raw? (a.get i) = some w := still_raw _

theorem still_mismatch (want : Text) (P : Store → α → Prop) : Still (a.mismatch i want) P :=
  .bind (still_typeName _) fun _ => .fail nofun

theorem still_number : Still (a.number i) fun _ _ => True :=
  .bind (a.still_value i) fun v => by
    split
    · exact .pure fun _ _ => trivial
    · exact a.still_mismatch i _ _

theorem still_integer : Still (a.integer i) fun _ _ => True :=
  .bind (a.still_number i) fun _ =>
    .ite (.pure fun _ _ => trivial) (a.still_mismatch i _ _)

theorem still_text : Still (a.text i) fun _ _ => True :=
  .bind (a.still_value i) fun v => by
    split
    · exact .pure fun _ _ => trivial
    · exact a.still_mismatch i _ _

theorem still_array : Still (a.array i) fun _ _ => True :=
  .bind (a.still_value i) fun v => by
    split
    · exact .pure fun _ _ => trivial
    · exact a.still_mismatch i _ _

theorem still_object : Still (a.object i) fun _ _ => True :=
  .bind (a.still_value i) fun v => by
    split
    · exact .pure fun _ _ => trivial
    · exact a.still_mismatch i _ _

end Arguments

namespace Law

variable {L : Law} {K : L.Pairing} {ε : Effect} {s : State} {a : Arguments} {run run' : Runner}
variable {v w : Value}

/-- Arguments that are good. -/
def GoodArgs (L : Law) (s : Store) (a : Arguments) : Prop := ∀ v ∈ a.values, L.Good s v

theorem GoodArgs.get {st : Store} (h : L.GoodArgs st a) (i : Nat) : L.Good st (a.get i) := by
  unfold Arguments.get
  rw [List.getD_eq_getElem?_getD]
  cases hi : a.values[i]? with
  | none => trivial
  | some v => exact h v (List.mem_of_getElem? hi)

theorem GoodArgs.mono {B : ScopeId → Text → Prop} {st t : Store} (h : L.GoodArgs st a)
    (hle : L.le B st t) : L.GoodArgs t a :=
  fun v hv => (h v hv).mono hle

namespace Pairing.Sound

theorem newTexts (ts : List Text) : K.Sound ε s (Eval.newTexts ts) (Eval.newTexts ts) L.Good := by
  refine newArray fun v hv => ?_
  obtain ⟨t, -, rfl⟩ := List.mem_map.1 hv
  exact .of trivial nofun

/-! ### Output, conversion and ranges -/

theorem print (hrun : K.Carries run run') (ha : L.GoodArgs s.store a) (ending : Text) :
    K.Sound .quiet s (Library.print run a ending) (Library.print run' a ending) L.Good := by
  unfold Library.print
  refine bind (eachM fun v hv t hst => stringify hrun ((ha v hv).mono hst)) fun parts t _ _ _ => ?_
  exact write rfl trivial

theorem num (a : Arguments) : K.Sound ε s (Library.num a) (Library.num a) L.Good := by
  unfold Library.num
  refine bind (look (a.still_value 0)) fun w t _ _ _ => ?_
  split
  · exact pure trivial
  · exact pure trivial
  · split
    · exact pure trivial
    · exact fail nofun
  · exact still (a.still_mismatch 0 _ fun _ _ => False) fun _ _ h => h.elim

theorem refTo {c : CellId}
    (hc : (∀ id target, s.store.read c ≠ .reference id target) → L.cell s.store c) :
    K.Sound ε s (Library.refTo c) (Library.refTo c) L.Good := by
  unfold Library.refTo
  refine store fun hs => ?_
  have hread := hs.read c
  split
  · next id target hr =>
    rw [hr] at hread
    exact pure hread
  · next hr => exact bind newNumber fun _ t hle _ _ => pure (L.cell_mono hle (hc hr))

theorem refNew (hv : L.Good s.store v) :
    K.Sound ε s (Library.refNew v) (Library.refNew v) L.Good := by
  refine bind (newCell hv) fun c t _ _ hc => ?_
  exact bind newNumber fun _ t' hle _ _ => pure (L.cell_mono hle hc)

theorem ref (ha : L.GoodArgs s.store a) : K.Sound ε s (Library.ref a) (Library.ref a) L.Good :=
  bind (newCell (ha.get 0)) fun _ _ _ _ hc => refTo fun _ => hc

theorem deref (ha : L.GoodArgs s.store a) : K.Sound ε s (Library.deref a) (Library.deref a) L.Good :=
  store fun hs => pure (hs.deref (ha.get 0))

theorem countFrom {step last : Float} {fuel : Nat} {n : Float} {done vs : Array Value} {st : Store}
    (hdone : ∀ v ∈ done, L.Bare st v) (h : Library.countFrom step last fuel n done = some vs) :
    ∀ v ∈ vs, L.Bare st v := by
  induction fuel generalizing n done with
  | zero => cases h
  | succ fuel ih =>
    unfold Library.countFrom at h
    split at h
    · refine ih (fun v hv => ?_) h
      rcases Array.mem_push.1 hv with hv | rfl
      · exact hdone v hv
      · exact .of trivial fun _ _ h => by cases h
    · cases h
      exact hdone

theorem progression (first last step : Float) :
    K.Sound ε s (Library.progression first last step) (Library.progression first last step)
      L.Good := by
  have hns : K.Sound ε s (orStuck (Library.countFrom step last Library.progressionLimit first #[]))
      (orStuck (Library.countFrom step last Library.progressionLimit first #[]))
      fun t ns => ∀ v ∈ ns, L.Bare t v :=
    still .orStuck fun _ _ h => countFrom (fun v hv => absurd hv (Array.not_mem_empty v)) h
  exact bind hns fun ns t _ _ hgood => grownArray fun v hv => hgood v (Array.mem_toList_iff.1 hv)

theorem range (a : Arguments) : K.Sound ε s (Library.range a) (Library.range a) L.Good := by
  unfold Library.range
  refine ite_bind (look (a.still_number 0)) (pure trivial) fun first t _ _ _ => ?_
  refine ite_bind (look (a.still_number 1)) (look (a.still_number 0)) fun last t _ _ _ => ?_
  refine ite_bind (look (a.still_number 2)) (pure trivial) fun step t _ _ _ => ?_
  dsimp only
  split
  · exact fail nofun
  · split
    · exact fail nofun
    · exact progression first last step

/-! ### Numbers and strings -/

theorem onNumber (f : Float → Float) (a : Arguments) :
    K.Sound ε s (Library.onNumber f a) (Library.onNumber f a) L.Good :=
  map (look (a.still_number 0)) fun _ _ _ _ => trivial

theorem pow (a : Arguments) : K.Sound ε s (Library.pow a) (Library.pow a) L.Good :=
  bind (look (a.still_number 0)) fun _ _ _ _ _ =>
    map (look (a.still_number 1)) fun _ _ _ _ => trivial

/-- Numbers put together, unless there are none. -/
theorem foldAll {pick : Float → Value → Eval Float} (h : ∀ acc v, Still (pick acc v) fun _ _ => True)
    (vs : List Value) (start : Float) (message : Text) :
    K.Sound ε s
      (if vs.isEmpty then Eval.fail .arityMismatch message
        else do return .number (← vs.foldlM pick start))
      (if vs.isEmpty then Eval.fail .arityMismatch message
        else do return .number (← vs.foldlM pick start)) L.Good := by
  split
  · exact fail nofun
  · refine map (foldlM (Q := fun _ _ => True) trivial fun v _ acc t _ _ => ?_) fun _ _ _ _ => trivial
    exact look (h acc v)

/-- A number put together with those before it; other values cannot be. -/
theorem still_pick (pick : Float → Float → Float) (message : Text) (acc : Float) (v : Value) :
    Still (do
      match ← Eval.raw v with
      | .number n => return pick acc n
      | _ => Eval.fail .typeMismatch message) fun _ _ => True := by
  refine .bind (still_raw v) fun u => ?_
  split
  · exact .pure fun _ _ => trivial
  · exact .fail (by rintro ⟨⟩)

theorem foldNumbers (start : Float) (pick : Float → Float → Float) (a : Arguments) :
    K.Sound ε s (Library.foldNumbers start pick a) (Library.foldNumbers start pick a) L.Good := by
  unfold Library.foldNumbers
  refine ite_bind (P := fun _ _ => True) (pure trivial) (look (a.still_value 0)) fun v t _ _ _ => ?_
  dsimp only
  split
  · exact store fun _ => bind (pure (Q := fun _ _ => True) trivial) fun vs _ _ _ _ =>
      foldAll (still_pick pick _) vs start _
  · exact bind (pure (Q := fun _ _ => True) trivial) fun vs _ _ _ _ =>
      foldAll (still_pick pick _) vs start _

theorem onText (f : Text → Text) (a : Arguments) :
    K.Sound ε s (Library.onText f a) (Library.onText f a) L.Good :=
  map (look (a.still_text 0)) fun _ _ _ _ => trivial

theorem askTexts (f : Text → Text → Bool) (a : Arguments) :
    K.Sound ε s (Library.askTexts f a) (Library.askTexts f a) L.Good :=
  bind (look (a.still_text 0)) fun _ _ _ _ _ =>
    map (look (a.still_text 1)) fun _ _ _ _ => trivial

theorem split (a : Arguments) : K.Sound ε s (Library.split a) (Library.split a) L.Good :=
  bind (look (a.still_text 0)) fun _ _ _ _ _ =>
    bind (look (a.still_text 1)) fun _ _ _ _ _ => newTexts _

theorem join (hrun : K.Carries run run') (a : Arguments) :
    K.Sound .quiet s (Library.join run a) (Library.join run' a) L.Good := by
  refine bind (look (a.still_array 0)) fun id t _ _ _ => ?_
  refine bind (look (a.still_text 1)) fun sep t _ _ _ => store fun _ => ?_
  refine map (eachM fun i _ t' _ => store fun ht' => ?_) fun _ _ _ _ => trivial
  exact stringify hrun (ht'.slot _ i).1

theorem replace (a : Arguments) : K.Sound ε s (Library.replace a) (Library.replace a) L.Good :=
  bind (look (a.still_text 0)) fun _ _ _ _ _ => bind (look (a.still_text 1)) fun _ _ _ _ _ =>
    map (look (a.still_text 2)) fun _ _ _ _ => trivial

theorem repetition (a : Arguments) :
    K.Sound ε s (Library.repetition a) (Library.repetition a) L.Good := by
  refine bind (look (a.still_text 0)) fun t _ _ _ _ => ?_
  refine bind (look (a.still_integer 1)) fun n _ _ _ _ => ?_
  split
  · exact fail nofun
  · split
    · exact throw rfl
    · exact pure trivial

/-! ### Time and random numbers -/

theorem look_readClock : K.Sound ε s Library.readClock Library.readClock fun _ _ => True :=
  look (.modifyGet (P := fun _ _ => True) (fun _ => ⟨rfl, rfl, rfl, rfl⟩) fun _ => trivial)

theorem now : K.Sound ε s Library.now Library.now L.Good :=
  map look_readClock fun _ _ _ _ => trivial

theorem millis : K.Sound ε s Library.millis Library.millis L.Good :=
  map look_readClock fun _ _ _ _ => trivial

theorem sleep (a : Arguments) : K.Sound ε s (Library.sleep a) (Library.sleep a) L.Good := by
  refine bind (look (a.still_number 0)) fun ms t _ _ _ => ?_
  split
  · exact fail nofun
  · refine stopIf ?_
    · exact bind (look (.modify (P := fun _ _ => True) (fun _ => ⟨rfl, rfl, rfl, rfl⟩) fun _ => trivial))
        fun _ _ _ _ _ => pure trivial

theorem drawBelow (source n : Nat) :
    K.Sound ε s (Library.drawBelow source n) (Library.drawBelow source n) fun _ _ => True :=
  map (look (.modifyGet (P := fun _ _ => True) (fun _ => ⟨rfl, rfl, rfl, rfl⟩) fun _ => trivial))
    fun _ _ _ _ => trivial

theorem newSource : K.Sound ε s Library.newSource Library.newSource fun _ _ => True :=
  look (.modifyGet (P := fun _ _ => True) (fun _ => ⟨rfl, rfl, rfl, rfl⟩) fun _ => trivial)

theorem randomInt (source : Nat) (a : Arguments) :
    K.Sound ε s (Library.randomInt source a) (Library.randomInt source a) L.Good := by
  refine bind (look (a.still_integer 0)) fun lo t _ _ _ => ?_
  refine bind (look (a.still_integer 1)) fun hi t _ _ _ => ?_
  split
  · exact fail nofun
  · dsimp only
    split
    · exact throw rfl
    · exact map (drawBelow source _) fun _ _ _ _ => trivial

theorem randomFloat (source : Nat) :
    K.Sound ε s (Library.randomFloat source) (Library.randomFloat source) L.Good :=
  map (drawBelow source _) fun _ _ _ _ => trivial

theorem randomChoice (source : Nat) (a : Arguments) :
    K.Sound ε s (Library.randomChoice source a) (Library.randomChoice source a) L.Good := by
  refine store fun _ => bind (look (a.still_array 0)) fun id t _ _ _ => ?_
  dsimp only
  split
  · exact fail nofun
  · exact bind (drawBelow source _) fun i t' _ _ _ => store fun ht' => pure (ht'.slot _ i).1

theorem randomSeed (source : Nat) (a : Arguments) :
    K.Sound ε s (Library.randomSeed source a) (Library.randomSeed source a) L.Good :=
  bind (look (a.still_integer 0)) fun _ _ _ _ _ =>
    bind (look (.modify (P := fun _ _ => True) (fun _ => ⟨rfl, rfl, rfl, rfl⟩) fun _ => trivial))
      fun _ _ _ _ _ => pure trivial

/-! ### Arrays and objects -/

theorem push (ha : L.GoodArgs s.store a) : K.Sound ε s (Library.push a) (Library.push a) L.Good := by
  have pushed : ∀ (st : Store) (id : ArrayId) (vs : List Value),
      (vs.foldl (fun s v => s.push id v.plain) st).cells = st.cells ∧
      (vs.foldl (fun s v => s.push id v.plain) st).scopes = st.scopes ∧
      (vs.foldl (fun s v => s.push id v.plain) st).objects = st.objects ∧
      ∀ w, (vs.foldl (fun s v => s.push id v.plain) st).Heap w →
        st.Heap w ∨ w = .nil ∨ ∃ v ∈ vs, w = v.plain := by
    intro st id vs
    induction vs generalizing st with
    | nil => exact ⟨rfl, rfl, rfl, fun _ h => .inl h⟩
    | cons v vs ih =>
      obtain ⟨hc, hs, ho, hv⟩ := ih (st.push id v.plain)
      obtain ⟨hcells, hscopes, hobjects⟩ : (st.push id v.plain).cells = st.cells ∧
          (st.push id v.plain).scopes = st.scopes ∧
          (st.push id v.plain).objects = st.objects := by
        unfold Store.push
        dsimp only
        split <;> exact ⟨rfl, rfl, rfl⟩
      refine ⟨hc.trans hcells, hs.trans hscopes, ho.trans hobjects, fun w hw => ?_⟩
      rcases hv w hw with hw | hw | ⟨u, hu, rfl⟩
      · rcases Store.heap_push hw with hw | rfl | rfl
        · exact .inl hw
        · exact .inr (.inr ⟨v, List.mem_cons_self, rfl⟩)
        · exact .inr (.inl rfl)
      · exact .inr (.inl hw)
      · exact .inr (.inr ⟨u, List.mem_cons_of_mem _ hu, rfl⟩)
  refine bind (look (a.still_array 0)) fun id t hst _ _ => ?_
  obtain ⟨hc, hs, ho, hv⟩ := pushed t.store id (a.values.drop 1)
  refine bind (update hc hs (.of_objects ho) fun w hw => ?_) fun _ _ _ _ _ => pure trivial
  rcases hv w hw with hw | rfl | ⟨v, hv, rfl⟩
  · exact .inl hw
  · exact .inr bare_nil
  · exact .inr ((ha.mono hst) v (List.mem_of_mem_drop hv)).plain

theorem pop (a : Arguments) : K.Sound ε s (Library.pop a) (Library.pop a) L.Good := by
  refine bind (look (a.still_array 0)) fun id t _ _ _ => store fun ht => ?_
  dsimp only
  split
  · exact fail nofun
  · refine store fun _ => ?_
    have hlast : L.Good t.store (t.store.slot (t.store.window id).block
        ((t.store.window id).length - 1)) := (ht.slot _ _).1
    refine bind (update rfl rfl (.of_objects rfl) fun w hw => .inl (Store.heap_dropLast hw))
      fun _ t' hle _ _ => ?_
    exact pure (hlast.mono hle)

theorem keys (a : Arguments) : K.Sound ε s (Library.keys a) (Library.keys a) L.Good :=
  bind (look (a.still_object 0)) fun _ _ _ _ _ => store fun _ => newTexts _

theorem values (a : Arguments) : K.Sound ε s (Library.values a) (Library.values a) L.Good := by
  refine bind (look (a.still_object 0)) fun id t _ _ _ => store fun ht => newArray fun v hv => ?_
  obtain ⟨f, hf, rfl⟩ := List.mem_map.1 hv
  exact ht.heap _ (Store.heap_of_mem_fields hf)

theorem callOn (hrun : K.Carries run run') {f : Value} (hf : L.Good s.store f)
    (hv : L.Good s.store v) (i : Nat) :
    K.Sound .quiet s (Library.callOn run f v i) (Library.callOn run' f v i) L.Good := by
  unfold Library.callOn
  refine bind (raw hf) fun w t hst _ _ => ?_
  have hf : L.Good t.store f := hf.mono hst
  have one : K.Sound .quiet t (run.call f [v]) (run'.call f [v]) L.Good :=
    hrun.call hf fun x hx => List.mem_singleton.1 hx ▸ hv.mono hst
  split
  · split
    · refine hrun.call hf fun x hx => ?_
      rcases List.mem_cons.1 hx with rfl | hx
      · exact hv.mono hst
      · rw [List.mem_singleton.1 hx]
        trivial
    · exact one
  · exact one

theorem mapArray (hrun : K.Carries run run') (ha : L.GoodArgs s.store a) :
    K.Sound .quiet s (Library.map run a) (Library.map run' a) L.Good := by
  refine store fun hs => bind (look (a.still_array 0)) fun id t hst _ _ => ?_
  refine bind (mapM lasting_bare fun p hp t' htt' => ?_) fun vs t' _ _ hvs => newArray hvs
  have hle := L.le_trans hst htt'
  have hv : L.Good t'.store p.1 :=
    (hs.heap _ (Store.heap_of_mem_elements (List.fst_mem_of_mem_zipIdx hp))).1.mono hle
  exact map (callOn hrun ((ha.get 1).mono hle) hv p.2) fun _ _ _ h => h.plain

theorem filterArray (hrun : K.Carries run run') (ha : L.GoodArgs s.store a) :
    K.Sound .quiet s (Library.filter run a) (Library.filter run' a) L.Good := by
  refine store fun hs => bind (look (a.still_array 0)) fun id t hst _ _ => ?_
  have hvs : ∀ p ∈ (s.store.elements id).zipIdx, ∀ t' : State, L.le noNames s.store t'.store →
      L.Bare t'.store p.1 := fun p hp t' hle =>
    (hs.heap _ (Store.heap_of_mem_elements (List.fst_mem_of_mem_zipIdx hp))).mono hle
  refine bind (filterM fun p hp t' htt' => ?_) fun kept t' htt' _ hkept => ?_
  · have hle := L.le_trans hst htt'
    refine bind (callOn hrun ((ha.get 1).mono hle) (hvs p hp t' hle).1 p.2) fun r _ _ _ hr => ?_
    exact truthy hrun hr
  · refine map (newArrayId fun v hv => ?_) fun _ _ _ _ => trivial
    obtain ⟨p, hp, rfl⟩ := List.mem_map.1 hv
    exact hvs p (hkept hp) t' (L.le_trans hst htt')

theorem goesBefore (hrun : K.Carries run run') {less : Value} (hless : L.Good s.store less)
    (hv : L.Good s.store v) (hw : L.Good s.store w) :
    K.Sound .quiet s (Library.goesBefore run less v w) (Library.goesBefore run' less v w)
      fun _ _ => True := by
  refine bind (hrun.call hless fun x hx => ?_) fun r t _ _ hr => bind (raw hr) fun u t' _ _ _ => ?_
  · rcases List.mem_cons.1 hx with rfl | hx
    · exact hv
    · exact List.mem_singleton.1 hx ▸ hw
  · split
    · exact pure trivial
    · exact pure trivial
    · exact fail nofun

/-- Evaluations from some store on, as a relation that sorting respects. -/
def relator (K : L.Pairing) (s : State) : Sorting.Relator Eval where
  rel x y Q := ∀ t : State, L.le noNames s.store t.store → K.Sound .quiet t x y fun _ => Q
  pure h _ _ := pure h
  bind hx hf t hst :=
    bind (hx t hst) fun a t' htt' _ ha => hf a ha t' (L.le_trans hst htt')

theorem sort (hrun : K.Carries run run') (ha : L.GoodArgs s.store a) :
    K.Sound .quiet s (Library.sort run a) (Library.sort run' a) L.Good := by
  refine store fun hs => bind (look (a.still_array 0)) fun id t hst _ _ => ?_
  have hvs : ∀ v ∈ s.store.elements id, ∀ t' : State, L.le noNames s.store t'.store →
      L.Bare t'.store v := fun v hv t' hle =>
    (hs.heap v (Store.heap_of_mem_elements hv)).mono hle
  dsimp only
  split
  · have hcompare : (relator K s).Compares (Library.goesBefore run (a.get 1))
        (Library.goesBefore run' (a.get 1)) (s.store.elements id) := fun x hx y hy t' hle =>
      goesBefore hrun ((ha.get 1).mono hle) (hvs x hx t' hle).1 (hvs y hy t' hle).1
    refine bind (Sorting.rel_sortM (relator K s) hcompare (List.Subset.refl _) t hst)
      fun ws t' htt' _ hws => newArray fun v hv => ?_
    exact hvs v (hws hv) t' (L.le_trans hst htt')
  · have hsorted : K.Sound .quiet t (orStuck (Library.sorted t.store (s.store.elements id)))
        (orStuck (Library.sorted t.store (s.store.elements id)))
        fun _ ws => ws ⊆ s.store.elements id := still .orStuck fun _ _ => Sorting.subset_of_sortM
    refine store fun _ => bind hsorted fun ws t' htt' _ hws => newArray fun v hv => ?_
    exact hvs v (hws hv) t' (L.le_trans hst htt')

end Pairing.Sound

end Law

end ScriptLang
