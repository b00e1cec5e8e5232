import ScriptLang.Proofs.Eval.ComparedValues
import ScriptLang.Proofs.Library.Call

/-!
# The library in a compartment

Every function of the library and every method of a collection keeps to the compartment and does the
same in both runs. What a method leaves in a collection was there before or is among its arguments, so
collections inside hold good values only.
-/

namespace ScriptLang

open Eval

namespace Arguments

variable (a : Arguments) (i : Nat)

theorem still_arrayOf : Still (a.array i) fun s id => s.raw? (a.get i) = some (.array id) :=
  .bind (a.still_value i) fun v => by
    split
    · exact .pure fun _ h => h
    · exact a.still_mismatch i _ _

theorem still_objectOf :
    Still (a.object i) fun s id => ∃ type, s.raw? (a.get i) = some (.object id type) :=
  .bind (a.still_value i) fun v => by
    split
    · exact .pure fun _ h => ⟨_, h⟩
    · exact a.still_mismatch i _ _

end Arguments

namespace Comparison

variable {C : Comparison} {s : State} {a : Arguments} {v w : Value} {run run' : Runner}

/-- Arguments that are good. -/
def GoodArgs (C : Comparison) (s : Store) (a : Arguments) : Prop := ∀ v ∈ a.values, C.Good s v

theorem GoodArgs.get {st : Store} (h : C.GoodArgs st a) (i : Nat) : C.Good st (a.get i) := by
  unfold Arguments.get
  rw [List.getD_eq_getElem?_getD]
  cases hi : a.values[i]? with
  | none => trivial
  | some v => exact h v (List.mem_of_getElem? hi)

theorem GoodArgs.mono {st t : Store} (h : C.GoodArgs st a) (hst : st.Grows t) : C.GoodArgs t a :=
  fun v hv => (h v hv).mono hst

namespace Sound

theorem newTexts (ts : List Text) : C.Sound s (Eval.newTexts ts) (Eval.newTexts ts) C.Good := by
  refine newArray fun v hv => ?_
  obtain ⟨t, -, rfl⟩ := List.mem_map.1 hv
  trivial

/-- The array that an argument is. -/
theorem array (ha : C.GoodArgs s.store a) (i : Nat) :
    C.Sound s (a.array i) (a.array i) fun _ id => C.Good s.store (.array id) :=
  ask (a.asks_array i) (a.still_arrayOf i) fun _ hs h => hs.raw (ha.get i) h

/-- The object that an argument is. -/
theorem object (ha : C.GoodArgs s.store a) (i : Nat) :
    C.Sound s (a.object i) (a.object i) fun _ id => C.origin.objects.size ≤ id := by
  refine ask (a.asks_object i) (a.still_objectOf i) fun id hs h => ?_
  obtain ⟨type, h⟩ := h
  exact (hs.raw (ha.get i) h).1

/-! ### Output, conversion and ranges -/

theorem print (hrun : C.Carries run run') (ha : C.GoodArgs s.store a) (ending : Text) :
    C.Sound s (Library.print run a ending) (Library.print run' a ending) C.Good := by
  unfold Library.print
  refine bind (eachM fun v hv t hst => stringify hrun ((ha v hv).mono hst)) fun parts t _ _ _ => ?_
  refine bind (write _) fun taken t _ _ _ => ?_
  split
  · exact pure trivial
  · exact fail _ _

theorem num (a : Arguments) : C.Sound s (Library.num a) (Library.num a) C.Good := by
  unfold Library.num
  refine bind (look (a.asks_value 0)) fun w t _ _ _ => ?_
  split
  · exact pure trivial
  · exact pure trivial
  · split
    · exact pure trivial
    · exact fail _ _
  · exact ask (P := fun _ _ => False) (a.asks_mismatch 0 _) (a.still_mismatch 0 _ _)
      fun _ _ h => h.elim

theorem refTo {c : CellId} (hc : C.origin.cells.size ≤ c) :
    C.Sound s (Library.refTo c) (Library.refTo c) C.Good := by
  unfold Library.refTo
  refine store fun hs => ?_
  have hread := hs.read hc
  split
  · next id target hr =>
    rw [hr] at hread
    exact pure hread
  · exact map newNumber fun _ _ _ _ => hc

theorem refNew (hv : C.Good s.store v) :
    C.Sound s (Library.refNew v) (Library.refNew v) C.Good :=
  bind (newCell hv) fun _ _ _ _ hc => map newNumber fun _ _ _ _ => hc

theorem ref (ha : C.GoodArgs s.store a) : C.Sound s (Library.ref a) (Library.ref a) C.Good :=
  bind (newCell (ha.get 0)) fun _ _ _ _ hc => refTo hc

theorem deref (ha : C.GoodArgs s.store a) :
    C.Sound s (Library.deref a) (Library.deref a) C.Good :=
  store fun hs => pure (hs.deref (ha.get 0))

theorem countFrom {step last : Float} {fuel : Nat} {n : Float} {done vs : Array Value} {st : Store}
    (hdone : ∀ v ∈ done, C.Good st v) (h : Library.countFrom step last fuel n done = some vs) :
    ∀ v ∈ vs, C.Good st v := by
  induction fuel generalizing n done with
  | zero => cases h
  | succ fuel ih =>
    unfold Library.countFrom at h
    split at h
    · refine ih (fun v hv => ?_) h
      rcases Array.mem_push.1 hv with hv | rfl
      · exact hdone v hv
      · trivial
    · cases h
      exact hdone

theorem progression (first last step : Float) :
    C.Sound s (Library.progression first last step) (Library.progression first last step) C.Good := by
  have counted : C.Sound s (orStuck (Library.countFrom step last Library.progressionLimit first #[]))
      (orStuck (Library.countFrom step last Library.progressionLimit first #[]))
      fun t ns => ∀ v ∈ ns, C.Good t v :=
    ask (.orStuck _) .orStuck fun _ _ h => countFrom (fun v hv => absurd hv (Array.not_mem_empty v)) h
  exact bind counted fun ns t _ _ hgood => grownArray fun v hv => hgood v (Array.mem_toList_iff.1 hv)

theorem range (a : Arguments) : C.Sound s (Library.range a) (Library.range a) C.Good := by
  unfold Library.range
  refine ite_bind (look (a.asks_number 0)) (pure trivial) fun first t _ _ _ => ?_
  refine ite_bind (look (a.asks_number 1)) (look (a.asks_number 0)) fun last t _ _ _ => ?_
  refine ite_bind (look (a.asks_number 2)) (pure trivial) fun step t _ _ _ => ?_
  dsimp only
  split
  · exact fail _ _
  · split
    · exact fail _ _
    · exact progression first last step

/-! ### Numbers and strings -/

theorem onNumber (f : Float → Float) (a : Arguments) :
    C.Sound s (Library.onNumber f a) (Library.onNumber f a) C.Good :=
  map (look (a.asks_number 0)) fun _ _ _ _ => trivial

theorem pow (a : Arguments) : C.Sound s (Library.pow a) (Library.pow a) C.Good :=
  bind (look (a.asks_number 0)) fun _ _ _ _ _ => map (look (a.asks_number 1)) fun _ _ _ _ => trivial

theorem foldAll {x : Eval Float} (hx : Asks x) (vs : List Value) (message : Text) :
    C.Sound s
      (if vs.isEmpty then Eval.fail .arityMismatch message else do return .number (← x))
      (if vs.isEmpty then Eval.fail .arityMismatch message else do return .number (← x))
      C.Good := by
  split
  · exact fail _ _
  · exact map (look hx) fun _ _ _ _ => trivial

theorem foldNumbers (start : Float) (pick : Float → Float → Float) (a : Arguments) :
    C.Sound s (Library.foldNumbers start pick a) (Library.foldNumbers start pick a) C.Good := by
  unfold Library.foldNumbers
  refine ite_bind (P := fun _ _ => True) (pure trivial) (look (a.asks_value 0)) fun v t _ _ _ => ?_
  dsimp only
  split
  · exact store fun _ => bind (pure (Q := fun _ _ => True) trivial) fun vs t _ _ _ =>
      foldAll (Library.asks_picked pick _ vs start) vs _
  · exact bind (pure (Q := fun _ _ => True) trivial) fun vs t _ _ _ =>
      foldAll (Library.asks_picked pick _ vs start) vs _

theorem onText (f : Text → Text) (a : Arguments) :
    C.Sound s (Library.onText f a) (Library.onText f a) C.Good :=
  map (look (a.asks_text 0)) fun _ _ _ _ => trivial

theorem askTexts (f : Text → Text → Bool) (a : Arguments) :
    C.Sound s (Library.askTexts f a) (Library.askTexts f a) C.Good :=
  bind (look (a.asks_text 0)) fun _ _ _ _ _ => map (look (a.asks_text 1)) fun _ _ _ _ => trivial

theorem split (a : Arguments) : C.Sound s (Library.split a) (Library.split a) C.Good :=
  bind (look (a.asks_text 0)) fun _ _ _ _ _ => bind (look (a.asks_text 1)) fun _ _ _ _ _ => newTexts _

theorem join (hrun : C.Carries run run') (ha : C.GoodArgs s.store a) :
    C.Sound s (Library.join run a) (Library.join run' a) C.Good := by
  refine bind (array ha 0) fun id t hst _ hid => ?_
  refine bind (look (a.asks_text 1)) fun sep t' htt' _ _ => store fun ht' => ?_
  have hblock := ht'.window ((hid.mono hst).mono htt')
  refine map (eachM fun i _ t'' _ => store fun ht'' => ?_) fun _ _ _ _ => trivial
  exact stringify hrun (ht''.slot hblock i)

theorem replace (a : Arguments) : C.Sound s (Library.replace a) (Library.replace a) C.Good :=
  bind (look (a.asks_text 0)) fun _ _ _ _ _ => bind (look (a.asks_text 1)) fun _ _ _ _ _ =>
    map (look (a.asks_text 2)) fun _ _ _ _ => trivial

theorem repetition (a : Arguments) :
    C.Sound s (Library.repetition a) (Library.repetition a) C.Good := by
  refine bind (look (a.asks_text 0)) fun t _ _ _ _ => ?_
  refine bind (look (a.asks_integer 1)) fun n _ _ _ _ => ?_
  split
  · exact fail _ _
  · split
    · exact throw trivial
    · exact pure trivial

/-! ### Time and random numbers -/

theorem readClock : C.Sound s Library.readClock Library.readClock fun _ _ => True :=
  modifyGet (fun _ _ _ => rfl) rfl rfl

theorem now : C.Sound s Library.now Library.now C.Good := map readClock fun _ _ _ _ => trivial

theorem millis : C.Sound s Library.millis Library.millis C.Good := map readClock fun _ _ _ _ => trivial

theorem sleep (a : Arguments) : C.Sound s (Library.sleep a) (Library.sleep a) C.Good := by
  refine bind (look (a.asks_number 0)) fun ms t _ _ _ => ?_
  split
  · exact fail _ _
  · refine stopIf (bind (P := fun _ _ => True) ?_ fun _ _ _ _ _ => pure trivial)
    exact modifyGet (f := fun st =>
      ((), { st with clock := st.clock + (Number.toInteger (ms * 1e6)).toNat })) (fun _ _ _ => rfl)
      rfl rfl

theorem drawBelow (source n : Nat) :
    C.Sound s (Library.drawBelow source n) (Library.drawBelow source n) fun _ _ => True :=
  map (P := fun _ _ => True) (modifyGet (fun _ _ _ => rfl) rfl rfl) fun _ _ _ _ => trivial

theorem newSource : C.Sound s Library.newSource Library.newSource fun _ _ => True :=
  modifyGet (fun _ _ _ => rfl) rfl rfl

theorem randomInt (source : Nat) (a : Arguments) :
    C.Sound s (Library.randomInt source a) (Library.randomInt source a) C.Good := by
  refine bind (look (a.asks_integer 0)) fun lo t _ _ _ => ?_
  refine bind (look (a.asks_integer 1)) fun hi t _ _ _ => ?_
  split
  · exact fail _ _
  · dsimp only
    split
    · exact throw trivial
    · exact map (drawBelow source _) fun _ _ _ _ => trivial

theorem randomFloat (source : Nat) :
    C.Sound s (Library.randomFloat source) (Library.randomFloat source) C.Good :=
  map (drawBelow source _) fun _ _ _ _ => trivial

theorem randomChoice (source : Nat) (ha : C.GoodArgs s.store a) :
    C.Sound s (Library.randomChoice source a) (Library.randomChoice source a) C.Good := by
  refine store fun hs => bind (array ha 0) fun id t _ _ hid => ?_
  have hblock := hs.window hid
  dsimp only
  split
  · exact fail _ _
  · exact bind (drawBelow source _) fun i t' _ _ _ => store fun ht' => pure (ht'.slot hblock i)

theorem randomSeed (source : Nat) (a : Arguments) :
    C.Sound s (Library.randomSeed source a) (Library.randomSeed source a) C.Good := by
  refine bind (look (a.asks_integer 0)) fun n t _ _ _ =>
    bind (P := fun _ _ => True) ?_ fun _ _ _ _ _ => pure trivial
  exact modifyGet (f := fun st => ((), { st with
    randomness := st.randomness.setIfInBounds source (UInt64.ofInt n) })) (fun _ _ _ => rfl) rfl rfl

/-! ### Arrays and objects -/

theorem push (ha : C.GoodArgs s.store a) : C.Sound s (Library.push a) (Library.push a) C.Good := by
  have pushed : ∀ (id : ArrayId) (vs : List Value) (st : Store), C.Sealed st →
      C.Good st (.array id) → (∀ v ∈ vs, C.Good st v) →
      C.Sealed (vs.foldl (fun s v => s.push id v.plain) st) ∧
        st.Grows (vs.foldl (fun s v => s.push id v.plain) st) := by
    intro id vs
    induction vs with
    | nil => exact fun st hs _ _ => ⟨hs, .refl st⟩
    | cons v vs ih =>
      intro st hs hid hvs
      obtain ⟨hs', hgrows⟩ := hs.push hid (hvs v List.mem_cons_self).plain
      obtain ⟨hs'', hgrows'⟩ := ih _ hs' (hid.mono hgrows) fun w hw =>
        (hvs w (List.mem_cons_of_mem _ hw)).mono hgrows
      exact ⟨hs'', hgrows.trans hgrows'⟩
  refine bind (array ha 0) fun id t hst _ hid => ?_
  refine bind (update fun hs => pushed id _ _ hs (hid.mono hst) fun v hv => ?_)
    fun _ t' htt' _ _ => pure ((hid.mono hst).mono htt')
  exact (ha v (List.mem_of_mem_drop hv)).mono hst

theorem pop (ha : C.GoodArgs s.store a) : C.Sound s (Library.pop a) (Library.pop a) C.Good := by
  refine bind (array ha 0) fun id t hst _ hid => store fun ht => ?_
  have hid := hid.mono hst
  dsimp only
  split
  · exact fail _ _
  · refine store fun _ => ?_
    have hlast := ht.slot (ht.window hid) ((t.store.window id).length - 1)
    exact bind (update fun hs => hs.dropLast hid) fun _ t' hle _ _ => pure (hlast.mono hle)

theorem keys (a : Arguments) : C.Sound s (Library.keys a) (Library.keys a) C.Good :=
  bind (look (a.asks_object 0)) fun _ _ _ _ _ => store fun _ => newTexts _

theorem values (ha : C.GoodArgs s.store a) :
    C.Sound s (Library.values a) (Library.values a) C.Good := by
  refine bind (object ha 0) fun id t _ _ hid => store fun ht => newArray fun v hv => ?_
  obtain ⟨f, hf, rfl⟩ := List.mem_map.1 hv
  exact ht.fields hid f hf

theorem callOn (hrun : C.Carries run run') {f : Value} (hf : C.Good s.store f)
    (hv : C.Good s.store v) (i : Nat) :
    C.Sound s (Library.callOn run f v i) (Library.callOn run' f v i) C.Good := by
  unfold Library.callOn
  refine bind (raw hf) fun w t hst _ _ => ?_
  have hf : C.Good t.store f := hf.mono hst
  have one : C.Sound t (run.call f [v]) (run'.call f [v]) C.Good :=
    hrun.call hf fun x hx => List.mem_singleton.1 hx ▸ hv.mono hst
  split
  · split
    · refine hrun.call hf fun x hx => ?_
      rcases List.mem_cons.1 hx with rfl | hx
      · exact hv.mono hst
      · rw [List.mem_singleton.1 hx]
        trivial
    · exact one
  · exact one

theorem mapArray (hrun : C.Carries run run') (ha : C.GoodArgs s.store a) :
    C.Sound s (Library.map run a) (Library.map run' a) C.Good := by
  refine store fun hs => bind (array ha 0) fun id t hst _ hid => ?_
  refine bind (mapM lasting_good fun p hp t' htt' => ?_) fun vs t' _ _ hvs => newArray hvs
  have hle := hst.trans htt'
  have hv : C.Good t'.store p.1 :=
    (hs.elements hid _ (List.fst_mem_of_mem_zipIdx hp)).mono hle
  exact map (callOn hrun ((ha.get 1).mono hle) hv p.2) fun _ _ _ h => h.plain

theorem filterArray (hrun : C.Carries run run') (ha : C.GoodArgs s.store a) :
    C.Sound s (Library.filter run a) (Library.filter run' a) C.Good := by
  refine store fun hs => bind (array ha 0) fun id t hst _ hid => ?_
  have hvs : ∀ p ∈ (s.store.elements id).zipIdx, ∀ t' : State, s.store.Grows t'.store →
      C.Good t'.store p.1 := fun p hp t' hle =>
    (hs.elements hid _ (List.fst_mem_of_mem_zipIdx hp)).mono hle
  refine bind (filterM fun p hp t' htt' => ?_) fun kept t' htt' _ hkept => ?_
  · have hle := hst.trans htt'
    refine bind (callOn hrun ((ha.get 1).mono hle) (hvs p hp t' hle) p.2) fun r _ _ _ hr => ?_
    exact truthy hrun hr
  · refine map (newArrayId fun v hv => ?_) fun _ _ _ h => h
    obtain ⟨p, hp, rfl⟩ := List.mem_map.1 hv
    exact hvs p (hkept hp) t' (hst.trans htt')

theorem goesBefore (hrun : C.Carries run run') {less : Value} (hless : C.Good s.store less)
    (hv : C.Good s.store v) (hw : C.Good s.store w) :
    C.Sound s (Library.goesBefore run less v w) (Library.goesBefore run' less v w)
      fun _ _ => True := by
  refine bind (hrun.call hless fun x hx => ?_) fun r t _ _ hr => bind (raw hr) fun u t' _ _ _ => ?_
  · rcases List.mem_cons.1 hx with rfl | hx
    · exact hv
    · exact List.mem_singleton.1 hx ▸ hw
  · split
    · exact pure trivial
    · exact pure trivial
    · exact fail _ _

theorem sort (hrun : C.Carries run run') (ha : C.GoodArgs s.store a) :
    C.Sound s (Library.sort run a) (Library.sort run' a) C.Good := by
  refine store fun hs => bind (array ha 0) fun id t hst _ hid => ?_
  have hvs : ∀ v ∈ s.store.elements id, ∀ t' : State, s.store.Grows t'.store →
      C.Good t'.store v := fun v hv t' hle => (hs.elements hid v hv).mono hle
  dsimp only
  split
  · have hcompare : (relator C s).Compares (Library.goesBefore run (a.get 1))
        (Library.goesBefore run' (a.get 1)) (s.store.elements id) := fun x hx y hy t' hle =>
      goesBefore hrun ((ha.get 1).mono hle) (hvs x hx t' hle) (hvs y hy t' hle)
    refine bind (Sorting.rel_sortM (relator C s) hcompare (List.Subset.refl _) t hst)
      fun ws t' htt' _ hws => newArray fun v hv => ?_
    exact hvs v (hws hv) t' (hst.trans htt')
  · have hsorted : C.Sound t (orStuck (Library.sorted t.store (s.store.elements id)))
        (orStuck (Library.sorted t.store (s.store.elements id)))
        fun _ ws => ws ⊆ s.store.elements id :=
      ask (.orStuck _) .orStuck fun _ _ => Sorting.subset_of_sortM
    refine store fun _ => bind hsorted fun ws t' htt' _ hws => newArray fun v hv => ?_
    exact hvs v (hws hv) t' (hst.trans htt')

end Sound

end Comparison

end ScriptLang
