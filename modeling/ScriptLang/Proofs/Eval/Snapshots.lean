import Mathlib
import ScriptLang.Proofs.Eval.ComparedRuns
import ScriptLang.Proofs.Eval.Loops

/-!
# Loops over a snapshot

The turns of a loop bind an initial segment of what the value denotes when the loop starts, in order, and
all of it if no turn leaves the loop or fails (`foreach_snapshot`). Arrays, texts and objects are copied,
and what a collection lists is a new array, which is put aside: nothing that a program can do gets at it.

The array that the method `items` of an instance gives is not copied. The loop holds on to its slots and to
its length, so that it does not visit elements which are added behind the others, but an element that is put
in the place of another one is visited (`replaced_text_visited`). So for instances it takes the condition
that what is in the slots is as it was whenever a turn starts.
-/

namespace ScriptLang

open Eval

/-! ### Turns in a compartment -/

namespace Comparison

variable {C : Comparison} {run run' : Runner} {s : State} {scope : ScopeId} {v : Value}

theorem Sound.turn (hrun : C.Carries run run') (value index : Text) {body : Block}
    (hb : Spans.Within C.spans (Spans.block body)) (h : C.Owns scope) (hv : C.Good s.store v)
    (i : Nat) :
    C.Sound s (run.turn value index body scope v i) (run'.turn value index body scope v i) C.Good := by
  have ran (inner : ScopeId) (hinner : C.Owns inner) (t : State) :
      C.Sound t (run.statements inner .nil body.body) (run'.statements inner .nil body.body) C.Good :=
    statements hrun (Spans.within_block.1 hb).2 hinner trivial
  unfold Runner.turn
  refine bind (newScope h) fun inner t ht _ hinner => ?_
  refine bind (bindName (Eval.define_eq ..) hinner (hv.mono ht)) fun _ u _ _ _ => ?_
  dsimp only
  split
  · exact ran inner hinner u
  · exact bind (bindName (v := .number _) (Eval.define_eq ..) hinner trivial) fun _ w _ _ _ =>
      ran inner hinner w

end Comparison

/-- A loop inside of a compartment keeps to it from turn to turn. -/
theorem Runner.sealed_foreachTrace {C : Compartment} (hspans : ∀ span, C.spans span)
    {value index : Text} {items : Items} {body : Block} {scope : ScopeId} {host : Host} {m n i : Nat}
    {s : State} (hscope : C.Owns scope) (hs : C.Sealed s.store)
    (hitems : (Comparison.alone C hspans).GoodItems s.store items) :
    ∀ turn ∈ ((evaluator m).foreachTrace value index items body scope host n i s).turns,
      C.Sealed turn.start.store := by
  induction n generalizing i s with
  | zero => exact fun _ h => absurd h List.not_mem_nil
  | succ n ih =>
    unfold foreachTrace
    refine List.forall_mem_cons.2 ⟨hs, ?_⟩
    have hget : items.get i host s = .ok (items.item s.store i) s := items.get_apply i
    obtain ⟨-, -, hitem⟩ := (Comparison.Sound.getItem hitems i).alone_ok hs hget
    have hbody : Spans.Within C.spans (Spans.block body) := fun span _ => hspans span
    have hturn := Comparison.Sound.turn (Comparison.alone_carries C hspans m) value index hbody hscope
      hitem i
    cases hended : (evaluator m).turn value index body scope (items.item s.store i) i host s with
    | error e t => exact fun _ h => absurd h List.not_mem_nil
    | ok v t =>
      obtain ⟨hgrows, ht, -⟩ := hturn.alone_ok hs hended
      unfold LoopTrace.after
      dsimp only
      split
      · exact fun _ h => absurd h List.not_mem_nil
      · exact ih ht (Comparison.lasting_goodItems hgrows hitems)

/-! ### Reached states -/

/-- Whether a request gets to a task in a state: a run that would be stopped there is stopped, whatever
the words. -/
def Request.Meets (task : Task) (r : Request) (host : Host) (s t : State) : Prop :=
  ¬ r.Bypasses (task.at t) host s

/-- A program that is not cancelled gets to its first statement in the state it starts in. -/
theorem Request.meets_start (span : Span) (st : Stmt) (rest : List Stmt) (host : Host) (s : State)
    (hhost : host.cancelAfter = none) :
    (Request.run ⟨span, st :: rest⟩).Meets (.stmt st globalScope) host s s := by
  rintro ⟨word, hword⟩
  refine hword ?_
  rw [evalWith_start hhost s rfl]
  rfl

/-- The compartment that is everything. -/
abbrev everywhere : Compartment := {}

theorem everywhere_owns (scope : ScopeId) : everywhere.Owns scope := Nat.zero_le _

theorem fits_everywhere {r : Request} {s : Store} (hr : ∀ v ∈ r.values, everywhere.Good s v) :
    everywhere.Fits s r := by
  cases r with
  | run b => exact ⟨Spans.within_true _, everywhere_owns _⟩
  | stringify v => exact hr v List.mem_cons_self

/-- In the states that can be reached, nothing names what is not there. -/
theorem Reached.sealed {allowed : Request → Host → State → Prop} {s : State} {vs : List Value}
    (h : Reached allowed s vs) :
    everywhere.Sealed s.store ∧ ∀ v ∈ vs, everywhere.Good s.store v := by
  induction h with
  | new =>
    have hempty : everywhere.Sealed {} := Compartment.sealed_origin rfl
    exact ⟨hempty.newScope (by rintro _ ⟨⟩), fun v hv => absurd hv List.not_mem_nil⟩
  | gives r host _ hr _ heq ih =>
    have hsound := Comparison.alone_request (fun _ => trivial)
      (fits_everywhere fun v hv => ih.2 v (hr hv))
    obtain ⟨hgrows, ht, hv⟩ := hsound.alone_ok ih.1 heq
    exact ⟨ht, List.forall_mem_cons.2 ⟨hv, fun w hw => (ih.2 w hw).mono hgrows⟩⟩
  | fails r host _ hr _ heq ih =>
    have hsound := Comparison.alone_request (fun _ => trivial)
      (fits_everywhere fun v hv => ih.2 v (hr hv))
    obtain ⟨hgrows, ht⟩ := hsound.alone_error ih.1 heq
    exact ⟨ht, fun w hw => (ih.2 w hw).mono hgrows⟩
  | outside _ heq ih => exact heq ▸ ih

/-- Nor does anything in the states in which a request gets to a task. -/
theorem Request.Meets.sealed {r : Request} {host : Host} {s t : State} {task : Task}
    (hmeets : r.Meets task host s t) (hs : everywhere.Sealed s.store)
    (hr : ∀ v ∈ r.values, everywhere.Good s.store v) : everywhere.Sealed t.store := by
  obtain ⟨word, hword⟩ := Law.exists_words (r.eval host s)
  let C : Comparison := .single everywhere (task.at t) word fun _ _ _ _ => Spans.within_true _
  have hstopped : (Ending.of (r.evalWith C.variant host s)).failure = some (.cancelled word) :=
    Classical.byContradiction fun hne => hmeets ⟨word, hne⟩
  have hout := C.request (fits_everywhere hr) hs (rfl : host = host)
    ⟨s.parsed, s.log, rfl, rfl, fun _ _ => Spans.within_true _⟩
  generalize r.evalWith C.variant host s = x at hstopped hout
  generalize r.eval host s = y at hword hout
  cases hout with
  | ok => cases hstopped
  | error => exact absurd hstopped hword
  | stopped hstops =>
    obtain ⟨-, rfl⟩ := Task.eq_of_at hstops.diverts
    exact hstops.within

/-! ### What stays as it is -/

/-- What stands in the window of an array inside are its elements. -/
theorem Compartment.GoodWindow.listed {C : Compartment} {a : ArrayId} {st : Store}
    (h : C.GoodWindow st.blocks (st.window a)) :
    (Items.window (st.window a)).listed st = st.elements a := by
  obtain ⟨slots, hslots, hfits⟩ := h.fits
  have hslots : st.slots (st.window a).block = slots := Store.slots_of_mem hslots
  unfold Items.listed Items.item Store.slot Store.elements
  dsimp only
  rw [hslots]
  exact Items.map_getD hfits

/-- What stands in the window of an array that was put aside stays as it is. -/
theorem Compartment.Sealed.listed_aside {C : Compartment} {x : Aside} {st : Store} (length : Nat)
    (h : C.Sealed st) (hx : C.aside = some x) :
    (Items.window ⟨x.block, length⟩).listed st =
      (List.range length).map fun i => x.slots.getD i .nil := by
  have hslots : st.slots x.block = x.slots := Store.slots_of_mem (h.aside x hx).kept
  unfold Items.listed Items.item Store.slot
  dsimp only
  rw [hslots]
  rfl

/-- What a collection lists for a loop stays as it is. -/
theorem Runner.listed_collection {k : CollectionKind} {c : CollectionId} {answer : Value} {a : ArrayId}
    {value index : Text} {body : Block} {scope : ScopeId} {host : Host} {s t start : State}
    {m n i : Nat} (hs : everywhere.Sealed s.store)
    (h : (evaluator n).hook (.collection k c) "items" host s = .ok (some answer) t)
    (ha : t.store.raw? answer = some (.array a)) (hstart : start.store = t.store) :
    ∀ turn ∈ ((evaluator n).foreachTrace value index (.window (t.store.window a)) body scope host m i
        start).turns,
      (Items.window (t.store.window a)).listed turn.start.store =
        (Items.window (t.store.window a)).listed start.store := by
  obtain ⟨list, hlist, hanswer, rfl⟩ := Runner.hook_collection h
  cases hanswer
  cases ha
  let x : Aside := ⟨s.store.arrays.size, s.store.blocks.size,
    list.toArray ++ Array.replicate (list.length - list.length) .nil⟩
  have hgood : ∀ v ∈ list, everywhere.Good s.store v :=
    ((Comparison.Sound.listing (C := .alone everywhere fun _ => trivial) (Nat.zero_le c)).alone_ok hs
      hlist).2.2
  have haside : (everywhere.putAside x).Sealed start.store := hstart ▸ hs.newArray_aside hgood rfl
  have hwindow : (s.store.newArray list list.length).2.window s.store.arrays.size =
      ⟨x.block, list.length⟩ := by
    unfold Store.window Store.newArray
    simp [Array.getD_eq_getD_getElem?, x]
  rw [hwindow]
  intro turn hturn
  have hitems : (Comparison.alone (everywhere.putAside x) fun _ => trivial).GoodItems start.store
      (.window ⟨x.block, list.length⟩) := Nat.zero_le x.block
  have hscope : (everywhere.putAside x).Owns scope := Nat.zero_le scope
  have hkept := sealed_foreachTrace (fun _ => trivial) hscope haside hitems turn hturn
  rw [hkept.listed_aside _ rfl, haside.listed_aside _ rfl]

/-- What a loop visits stays as it is, unless the loop is over an instance. -/
theorem Runner.listed_kept {v : Value} {items : Items} {value index : Text} {body : Block}
    {scope : ScopeId} {host : Host} {before after start : State} {m n i : Nat}
    (hs : everywhere.Sealed before.store)
    (hitems : (evaluator n).items v host before = .ok items after) (hstart : start.store = after.store) :
    ∃ w, before.store.raw? v = some w ∧ (w.isInstance = true ∨
      ∀ turn ∈ ((evaluator n).foreachTrace value index items body scope host m i start).turns,
        items.listed turn.start.store = items.listed start.store) := by
  obtain ⟨w, hw, ⟨-, vs, rfl⟩ | ⟨answer, a, hhook, ha, rfl⟩⟩ := Runner.items_eq_ok hitems
  · refine ⟨w, hw, .inr fun turn _ => ?_⟩
    rw [Items.listed_values, Items.listed_values]
  · refine ⟨w, hw, ?_⟩
    rcases Runner.hook_eq_some (Store.isRaw_of_raw? hw) hhook with hinst | ⟨k, c, rfl⟩
    · exact .inl hinst
    · exact .inr (Runner.listed_collection hs hhook ha hstart)

/-! ### The values that a loop binds -/

/-- A loop over an instance starts with the elements of the array that its method `items` gives. -/
theorem Runner.items_instance {v w : Value} {items : Items} {host : Host} {before after : State} {n : Nat}
    (hs : everywhere.Sealed before.store) (hv : everywhere.Good before.store v)
    (hitems : (evaluator n).items v host before = .ok items after)
    (hw : before.store.raw? v = some w) (hinst : w.isInstance = true) :
    ∃ answer, (evaluator n).hook w "items" host before = .ok (some answer) after ∧
      ∀ start : State, start.store = after.store →
        (evaluator n).items answer host start =
          .ok (.values (items.listed start.store).toArray) start := by
  obtain ⟨w', hw', hvisits⟩ := Runner.items_eq_ok hitems
  cases hw'.symm.trans hw
  rcases hvisits with ⟨hno, -⟩ | ⟨answer, a, hhook, ha, rfl⟩
  · cases hno.symm.trans hinst
  · have hrun := Comparison.alone_carries everywhere (fun _ => trivial) n
    obtain ⟨-, hafter, hanswer⟩ :=
      (Comparison.Sound.hook hrun (hs.raw hv hw) "items").alone_ok hs hhook
    have hlist := (hafter.goodWindow (hafter.raw (hanswer answer rfl) ha)).listed
    refine ⟨answer, hhook, fun start hstart => ?_⟩
    rw [hstart, hlist, ← hstart]
    exact Runner.items_array (hstart ▸ ha)

/-- The turns of a loop bind what the value denotes when the loop starts, in order and from the first
item on, and all of it if no turn leaves the loop or fails: whatever the body does, if the value is an
array, a text, an object or a collection, and if it is an instance, as long as what it gave is as it was
whenever a turn starts. Such a loop binds what a loop over that array binds. -/
theorem foreach_snapshot {s t before after start : State} {vs : List Value} {r : Request} {host : Host}
    {span : Span} {value index : Text} {iterable : Expr} {body : Block} {scope : ScopeId} {n : Nat}
    {v : Value} {items : Items} (hs : Reached anyUse s vs) (hr : r.values ⊆ vs)
    (hmeets : r.Meets (.stmt (.foreachLoop span value index iterable body) scope) host s t)
    (hv : (evaluator n).expr iterable scope host t = .ok v before)
    (hitems : (evaluator n).items v host before = .ok items after)
    (hstart : note "loop start" (Runner.loopDetails "foreach" span ++
      ([("items", .int items.length)] : List (Text × LogValue))) host after = .ok () start) :
    ∃ w list, before.store.raw? v = some w ∧ items.toList host start = .ok list start ∧
      let trace := (evaluator n).foreachTrace value index items body scope host items.length 0 start
      (evaluator n).execForeach span value index iterable body scope host t =
        Runner.thenNote (fun _ _ => trace.result) "loop end" (Runner.loopDetails "foreach" span) host
          start ∧
      trace.Covers Turn.index (List.range list.length) ∧
      ((w.isInstance = true → ∀ turn ∈ trace.turns,
          items.toList host turn.start = .ok list turn.start) →
        trace.Covers Turn.bound list.zipIdx) ∧
      (w.isInstance = true → ∃ answer,
        (evaluator n).hook w "items" host before = .ok (some answer) after ∧
          (evaluator n).items answer host start = .ok (.values list.toArray) start) := by
  obtain ⟨hsealed, hvs⟩ := hs.sealed
  have ht : everywhere.Sealed t.store := hmeets.sealed hsealed fun v hv => hvs v (hr hv)
  have hrun := Comparison.alone_carries everywhere (fun _ => trivial) n
  obtain ⟨-, hbefore, hgood⟩ :=
    (hrun.expr (Spans.within_true _) (everywhere_owns scope)).alone_ok ht hv
  have hstore : start.store = after.store := by
    rw [Comparison.Sound.note_eq] at hstart
    cases hstart
    exact Comparison.Sound.store_noted _ _ _
  obtain ⟨w, hw, hkept⟩ := Runner.listed_kept hbefore hitems hstore
  refine ⟨w, items.listed start.store, hw, items.toList_apply,
    Runner.execForeach_eq_trace hv hitems hstart, ?_, fun hcond => ?_, fun hinst => ?_⟩
  · rw [Items.length_listed]
    exact Runner.covers_positions
  · refine Runner.covers_items (Items.length_listed _ _) fun turn hturn => ?_
    rcases hkept with hinst | hkept
    · have hlist := hcond hinst turn hturn
      rw [Items.toList_apply] at hlist
      exact (EStateM.Result.ok.inj hlist).1
    · exact hkept turn hturn
  · obtain ⟨answer, hhook, hanswer⟩ := Runner.items_instance hbefore hgood hitems hw hinst
    exact ⟨answer, hhook, hanswer start hstore⟩

/-- A struct whose method `items` gives what is in the variable `xs`. -/
def lister : StructType where
  id := 0
  name := "S"
  methods := [{
    span := {}, name := "items", params := [], result := none
    body := ⟨{}, [.returning {} (some (.ident {} "xs"))]⟩ }]

/-- What is left when the struct is declared, and then `xs` with an array of two texts. -/
def heldTexts : State where
  store :=
    { cells := #[.struct lister, .array 0]
      scopes := #[{ values := [("xs", 1), ("S", 0)] }]
      blocks := #[#[.text "a", .text "b"]]
      arrays := #[⟨0, 2⟩]
      fresh := 1 }

theorem reached_heldTexts : Reached anyUse heldTexts [.nil, .nil] := by
  let declared : State :=
    { store :=
      { cells := #[.struct lister], scopes := #[{ values := [("S", 0)] }], fresh := 1 } }
  have hstruct : (Request.run ⟨{}, [.struct {} "S" [] lister.methods]⟩).eval {}
      (Interpreter.new {} {} [] 0).state = .ok .nil declared := rfl
  have htexts : (Request.run ⟨{}, [.declare {} "xs" false none
      (some (.array {} [.string {} "a", .string {} "b"]))]⟩).eval {} declared = .ok .nil heldTexts := rfl
  exact .gives _ {} (.gives _ {} (.new {} {} [] 0) (List.nil_subset _) trivial hstruct)
    (List.nil_subset _) trivial htexts

/-- A new instance of the struct. -/
def newLister : Expr := .construct {} {} (.ident {} "S") []

/-- What is left when there is an instance. -/
def madeLister : State :=
  { heldTexts with store := { heldTexts.store with objects := #[{ type := some lister }] } }

theorem newLister_made : (evaluator 3).expr newLister globalScope {} heldTexts =
    .ok (.object 0 (some lister)) madeLister := rfl

/-- What is left when its method `items` has given the array. -/
def listedTexts : State :=
  { madeLister with
    store :=
    { madeLister.store with
      cells := #[.struct lister, .array 0, .object 0 (some lister), .reference 1 (some 2)]
      scopes := #[{ values := [("xs", 1), ("S", 0)] },
        { values := [("this", 3)], constants := ["this"], parent := some 0 }, { parent := some 1 }]
      fresh := 2 } }

theorem lister_listed : (evaluator 3).items (.object 0 (some lister)) {} madeLister =
    .ok (.window ⟨0, 2⟩) listedTexts := by cbv

theorem toList_listedTexts : (Items.window ⟨0, 2⟩).toList {} listedTexts =
    .ok [.text "a", .text "b"] listedTexts := rfl

/-- The call of a function with the array. -/
def callOnTexts (name : Text) (args : List Expr) : Stmt :=
  .expr {} (.call {} (.ident {} name) (.ident {} "xs" :: args))

/-- A loop over a new instance. -/
def loopOverLister (body : List Stmt) : Stmt := .foreachLoop {} "v" [] newLister ⟨{}, body⟩

/-- A body that adds a text to the array. -/
def addsText : List Stmt := [callOnTexts "push" [.string {} "c"]]

/-- A body that puts another text in the place of the last one. -/
def replacesText : List Stmt := callOnTexts "pop" [] :: addsText

/-- An array to which texts are added in a loop over it is visited as it was when the loop started. -/
theorem added_texts_not_visited :
    (Request.run ⟨{}, [loopOverLister addsText]⟩).Meets (.stmt (loopOverLister addsText) globalScope) {}
        heldTexts heldTexts ∧
      ∃ list, (Items.window ⟨0, 2⟩).toList {} listedTexts = .ok list listedTexts ∧
        ((evaluator 3).foreachTrace "v" [] (.window ⟨0, 2⟩) ⟨{}, addsText⟩ globalScope {} 2 0
          listedTexts).turns.map Turn.bound = list.zipIdx := by
  have hmeets := Request.meets_start {} (loopOverLister addsText) [] {} heldTexts rfl
  obtain ⟨w, list, -, hlist, -, -, hbound, -⟩ :=
    foreach_snapshot reached_heldTexts (List.nil_subset _) hmeets newLister_made lister_listed rfl
  cases hlist.symm.trans toList_listedTexts
  have hkept : ((evaluator 3).foreachTrace "v" [] (.window ⟨0, 2⟩) ⟨{}, addsText⟩ globalScope {} 2 0
      listedTexts).turns.map (fun turn => (Items.window ⟨0, 2⟩).listed turn.start.store) =
        [[.text "a", .text "b"], [.text "a", .text "b"]] := by cbv
  have hthrough : ((evaluator 3).foreachTrace "v" [] (.window ⟨0, 2⟩) ⟨{}, addsText⟩ globalScope {} 2 0
      listedTexts).through = true := by cbv
  refine ⟨hmeets, _, hlist, (hbound fun _ turn hturn => ?_).all hthrough⟩
  have hmem : (Items.window ⟨0, 2⟩).listed turn.start.store ∈
      [[Value.text "a", .text "b"], [.text "a", .text "b"]] := by
    rw [← hkept]
    exact List.mem_map_of_mem hturn
  have hlisted : (Items.window ⟨0, 2⟩).listed turn.start.store = [.text "a", .text "b"] := by
    simpa using hmem
  rw [Items.toList_apply, hlisted]

/-- Not every loop over an instance visits what there was when it started. -/
theorem replaced_text_visited : ¬∀ {s t before after start : State} {vs : List Value} {r : Request}
    {host : Host} {span : Span} {value index : Text} {iterable : Expr} {body : Block} {scope : ScopeId}
    {n : Nat} {v : Value} {items : Items}, Reached anyUse s vs → r.values ⊆ vs →
    r.Meets (.stmt (.foreachLoop span value index iterable body) scope) host s t →
    (evaluator n).expr iterable scope host t = .ok v before →
    (evaluator n).items v host before = .ok items after →
    note "loop start" (Runner.loopDetails "foreach" span ++
      ([("items", .int items.length)] : List (Text × LogValue))) host after = .ok () start →
    ∃ list, items.toList host start = .ok list start ∧
      ((evaluator n).foreachTrace value index items body scope host items.length 0
        start).turns.map Turn.bound <+: list.zipIdx := by
  intro h
  obtain ⟨list, hlist, hbound⟩ := h reached_heldTexts (List.nil_subset _)
    (Request.meets_start {} (loopOverLister replacesText) [] {} heldTexts rfl) newLister_made
    lister_listed rfl
  cases hlist.symm.trans toList_listedTexts
  have hvisited : ((evaluator 3).foreachTrace "v" [] (.window ⟨0, 2⟩) ⟨{}, replacesText⟩ globalScope {} 2
      0 listedTexts).turns.map Turn.bound = [(.text "a", 0), (.text "c", 1)] := by cbv
  have hbound : [(Value.text "a", 0), (.text "c", 1)] <+: [(.text "a", 0), (.text "b", 1)] :=
    hvisited ▸ hbound
  obtain ⟨-, hbound⟩ := List.cons_prefix_cons.1 hbound
  obtain ⟨hsame, -⟩ := List.cons_prefix_cons.1 hbound
  cases hsame

end ScriptLang
