import ScriptLang.Proofs.Eval.Asking
import ScriptLang.Proofs.Eval.Variant

/-!
# Loops over items

A loop over the items of a value is taken apart into its turns: `Runner.foreachTrace` lists the turns that
it makes, each with the state that it starts in and with what it binds to the variables of the loop, and
says whether the loop got through to its end and what came out.

The positions that the turns bind are 0, 1, 2 and so on (`covers_positions`), and what they bind besides is
what stands at these positions when they start; as long as that stays as it is, the turns go through all of
it, one item each (`covers_items`).

What a loop visits is a copy if it is over an array, a text or an object (`items_eq_ok`). Otherwise it is
what stands in the array that the method `items` of the value gives.
-/

namespace ScriptLang

open Eval

/-! ### Items in a store -/

namespace Items

variable {host : Host} {s : State}

/-- The item at a position, as things are in a store. -/
def item (s : Store) (i : Nat) : Items → Value
  | values vs => vs.getD i .nil
  | window w => s.slot w.block i

/-- All items, as things are in a store. -/
def listed (s : Store) (items : Items) : List Value := (List.range items.length).map (items.item s)

theorem get_apply (items : Items) (i : Nat) : items.get i host s = .ok (items.item s.store i) s := by
  cases items <;> rfl

theorem toList_apply (items : Items) : items.toList host s = .ok (items.listed s.store) s := by
  unfold toList listed
  generalize List.range items.length = is
  induction is with
  | nil => rfl
  | cons i is ih =>
    rw [List.mapM_cons, bind_apply, get_apply]
    dsimp only
    rw [bind_apply, ih]
    rfl

theorem length_listed (items : Items) (s : Store) : (items.listed s).length = items.length := by
  rw [listed, List.length_map, List.length_range]

theorem getElem_listed {items : Items} {s : Store} {i : Nat} (h : i < (items.listed s).length) :
    (items.listed s)[i] = items.item s i := by
  simp only [listed, List.getElem_map, List.getElem_range]

/-- The first elements of an array of values, one by one. -/
theorem map_getD {vs : Array Value} {n : Nat} (h : n ≤ vs.size) :
    (List.range n).map (fun i => vs.getD i .nil) = vs.toList.take n := by
  refine List.ext_getElem (by simp [h]) fun i hi hi' => ?_
  have hlt : i < vs.size := by
    rw [List.length_map, List.length_range] at hi
    exact Nat.lt_of_lt_of_le hi h
  simp [Array.getD_eq_getD_getElem?, hlt]

theorem listed_values (vs : Array Value) (s : Store) : (values vs).listed s = vs.toList := by
  have h := map_getD (Nat.le_refl vs.size)
  rwa [← Array.length_toList, List.take_length] at h

end Items

/-! ### The turns of a loop -/

/-- The value of a loop that is left with what its body gives, if it is. -/
def Value.leaves? : Value → Option Value
  | breakSignal => some nil
  | returnSignal v => some (returnSignal v)
  | _ => none

/-- A turn of a loop. -/
structure Turn where
  /-- The state that it starts in. -/
  start : State
  /-- The item that it binds. -/
  item : Value
  /-- The position that it binds. -/
  index : Nat

/-- What a turn binds. -/
def Turn.bound (turn : Turn) : Value × Nat := (turn.item, turn.index)

/-- How a loop runs. -/
structure LoopTrace where
  /-- Its turns. -/
  turns : List Turn
  /-- Whether it gets through: no turn leaves it or fails. -/
  through : Bool
  /-- What comes out. -/
  result : EStateM.Result Failure State Value

namespace LoopTrace

/-- A loop that makes one more turn at its start. -/
def cons (turn : Turn) (trace : LoopTrace) : LoopTrace := { trace with turns := turn :: trace.turns }

/-- How a loop goes on after the body of a turn has come to its end. -/
def after (ended : EStateM.Result Failure State Value) (next : State → LoopTrace) : LoopTrace :=
  match ended with
  | .error e t => ⟨[], false, .error e t⟩
  | .ok v t =>
    match v.leaves? with
    | some w => ⟨[], false, .ok w t⟩
    | none => next t

/-- Whether the turns of a loop go through a list from its start on, one element each, and through all of
it unless a turn leaves the loop or fails. -/
structure Covers {α : Type} (trace : LoopTrace) (f : Turn → α) (list : List α) : Prop where
  initial : trace.turns.map f <+: list
  all : trace.through = true → trace.turns.map f = list

namespace Covers

variable {α : Type} {trace : LoopTrace} {f : Turn → α} {list : List α}

theorem cut (result : EStateM.Result Failure State Value) : Covers ⟨[], false, result⟩ f list :=
  ⟨List.nil_prefix, nofun⟩

theorem cons {turn : Turn} (h : trace.Covers f list) : (trace.cons turn).Covers f (f turn :: list) where
  initial := (List.prefix_cons_inj _).2 h.initial
  all hthrough := congrArg _ (h.all hthrough)

end Covers

end LoopTrace

namespace Runner

/-- One turn of a loop: its body, in a scope that binds the item and, if it has a name, the position. -/
def turn (run : Runner) (value index : Text) (body : Block) (scope : ScopeId) (v : Value) (i : Nat) :
    Eval Value := do
  let inner ← newScope scope
  define inner value v
  unless index.isEmpty do define inner index (.number (Number.ofNat i))
  run.statements inner .nil body.body

/-- How a loop over items runs, with `n` turns to go from the position `i` on. -/
def foreachTrace (run : Runner) (value index : Text) (items : Items) (body : Block) (scope : ScopeId)
    (host : Host) : Nat → Nat → State → LoopTrace
  | 0, _, s => ⟨[], true, .ok .nil s⟩
  | n + 1, i, s =>
    let v := items.item s.store i
    .cons ⟨s, v, i⟩ (.after (run.turn value index body scope v i host s)
      (run.foreachTrace value index items body scope host n (i + 1)))

variable {run : Runner} {value index : Text} {items : Items} {body : Block} {scope : ScopeId}
  {host : Host} {n i : Nat} {s : State}

theorem foreachBody_eq_turn :
    run.foreachBodyWith (fun _ _ => return) value index items body scope i host s =
      run.turn value index body scope (items.item s.store i) i host s := by
  unfold foreachBodyWith turn
  rw [bind_apply, bind_apply]
  -- a new scope makes no difference to the item
  have hscope : newScope scope host s = .ok s.store.scopes.size
      { s with store := (s.store.newScope (some scope)).2 } := rfl
  have hitem : items.item (s.store.newScope (some scope)).2 i = items.item s.store i := by
    cases items <;> rfl
  rw [hscope]
  dsimp only
  rw [bind_apply, Items.get_apply]
  dsimp only
  rw [hitem]
  rfl

theorem foreachTurns_eq_trace : run.foreachTurns value index items body scope n i host s =
    (run.foreachTrace value index items body scope host n i s).result := by
  rw [← foreachTurnsWith_usual]
  induction n generalizing i s with
  | zero => rfl
  | succ n ih =>
    unfold foreachTurnsWith foreachTrace
    rw [bind_apply, foreachBody_eq_turn]
    dsimp only [LoopTrace.cons]
    cases run.turn value index body scope (items.item s.store i) i host s with
    | error e t => rfl
    | ok w t =>
      cases w with
      | breakSignal => rfl
      | returnSignal => rfl
      | _ => exact ih

/-- A loop goes through a list if each of its turns has what stands at its position. -/
theorem covers_foreachTrace {α : Type} {f : Turn → α} {list : List α} (hlength : i + n = list.length)
    (h : ∀ turn ∈ (run.foreachTrace value index items body scope host n i s).turns,
      ∀ hlt : turn.index < list.length, f turn = list[turn.index]) :
    (run.foreachTrace value index items body scope host n i s).Covers f (list.drop i) := by
  induction n generalizing i s with
  | zero =>
    have hnil : list.drop i = [] := List.drop_eq_nil_of_le (Nat.le_of_eq hlength.symm)
    exact hnil ▸ ⟨List.nil_prefix, fun _ => rfl⟩
  | succ n ih =>
    have hlt : i < list.length := by omega
    unfold foreachTrace at h ⊢
    dsimp only [LoopTrace.cons] at h
    obtain ⟨hhere, hrest⟩ := List.forall_mem_cons.1 h
    rw [List.drop_eq_getElem_cons hlt, ← hhere hlt]
    refine .cons ?_
    generalize run.turn value index body scope (items.item s.store i) i host s = ended at hrest ⊢
    unfold LoopTrace.after at hrest ⊢
    split at hrest
    · exact .cut _
    · split at hrest
      · exact .cut _
      · exact ih (by omega) hrest

/-- A turn binds what stands at its position when it starts. -/
theorem item_of_mem : ∀ turn ∈ (run.foreachTrace value index items body scope host n i s).turns,
    turn.item = items.item turn.start.store turn.index := by
  induction n generalizing i s with
  | zero => exact fun _ h => absurd h List.not_mem_nil
  | succ n ih =>
    unfold foreachTrace LoopTrace.after
    refine List.forall_mem_cons.2 ⟨rfl, ?_⟩
    split
    · exact fun _ h => absurd h List.not_mem_nil
    · split
      · exact fun _ h => absurd h List.not_mem_nil
      · exact ih

/-- The turns bind the positions one by one. -/
theorem covers_positions :
    (run.foreachTrace value index items body scope host n 0 s).Covers Turn.index (List.range n) :=
  covers_foreachTrace ((Nat.zero_add n).trans List.length_range.symm) fun _ _ _ =>
    (List.getElem_range _).symm

/-- As long as the items stay as they are, the turns bind them one by one. -/
theorem covers_items {list : List Value} (hlength : list.length = n)
    (h : ∀ turn ∈ (run.foreachTrace value index items body scope host n 0 s).turns,
      items.listed turn.start.store = list) :
    (run.foreachTrace value index items body scope host n 0 s).Covers Turn.bound list.zipIdx := by
  refine covers_foreachTrace (by rw [List.length_zipIdx, hlength, Nat.zero_add])
    fun turn hturn hlt => ?_
  unfold Turn.bound
  rw [List.getElem_zipIdx, Nat.zero_add, item_of_mem turn hturn]
  have hlisted := h turn hturn
  subst hlisted
  rw [Items.getElem_listed]

end Runner

/-! ### What a loop visits -/

/-- Whether a value is an instance of a struct. -/
def Value.isInstance : Value → Bool
  | object _ (some _) => true
  | _ => false

section

variable {host : Host} {s t : State} {v w : Value} {n : Nat} {items : Items}

/-- A loop over an array visits its elements. -/
theorem Runner.items_array {run : Runner} {a : ArrayId} (h : s.store.raw? v = some (.array a)) :
    run.items v host s = .ok (.values (s.store.elements a).toArray) s := by
  unfold Runner.items
  rw [bind_apply, raw_of_raw? h host]
  rfl

/-- Only instances and collections have methods that the language calls. -/
theorem Runner.hook_eq_some {run : Runner} {name : Text} {answer : Value} (hw : w.isRaw = true)
    (h : run.hook w name host s = .ok (some answer) t) :
    w.isInstance = true ∨ ∃ k c, w = .collection k c := by
  cases w with
  | object o type =>
    cases type with
    | none => cases h
    | some type => exact .inl rfl
  | collection k c => exact .inr ⟨k, c, rfl⟩
  | reference => cases hw
  | typed => cases hw
  | _ => cases h

/-- What a loop over an array, a text or an object visits is copied; otherwise it is what stands in the
window of the array that the method `items` gives. -/
theorem Runner.items_eq_ok {run : Runner} (h : run.items v host s = .ok items t) :
    ∃ w, s.store.raw? v = some w ∧
      ((w.isInstance = false ∧ ∃ vs, items = .values vs) ∨
        ∃ answer a, run.hook w "items" host s = .ok (some answer) t ∧
          t.store.raw? answer = some (.array a) ∧ items = .window (t.store.window a)) := by
  obtain ⟨w, u, hraw, hvisits⟩ := bind_eq_ok h
  obtain ⟨hw, rfl⟩ := raw_eq_ok hraw
  refine ⟨w, hw, ?_⟩
  split at hvisits
  iterate 3
    · cases hvisits
      exact .inl ⟨rfl, _, rfl⟩
  · obtain ⟨r, t', hhook, hanswers⟩ := bind_eq_ok hvisits
    cases r with
    | none => cases hanswers
    | some answer =>
      obtain ⟨x, u', hanswer, hends⟩ := bind_eq_ok hanswers
      obtain ⟨hx, rfl⟩ := raw_eq_ok hanswer
      split at hends
      · cases hends
        exact .inr ⟨answer, _, hhook, hx, rfl⟩
      · cases hends

/-- What a collection lists is a new array. -/
theorem Runner.hook_collection {k : CollectionKind} {c : CollectionId} {r : Option Value}
    (h : (evaluator n).hook (.collection k c) "items" host s = .ok r t) :
    ∃ list, Library.listing c host s = .ok list s ∧ r = some (.array s.store.arrays.size) ∧
      t = { s with store := (s.store.newArray list list.length).2 } := by
  cases n with
  | zero => cases k <;> cases h
  | succ n =>
    have hhook : (evaluator (n + 1)).hook (.collection k c) "items" host s =
        (do return some (← (evaluator (n + 1)).call (.collectionMethod 0 k c .items) []) :
          Eval (Option Value)) host s := by
      cases k <;> rfl
    have hcall : (evaluator (n + 1)).call (.collectionMethod 0 k c .items) [] host s =
        (Library.listing c >>= Eval.newArray) host s := by
      cases k <;> rfl
    rw [hhook, bind_apply, hcall, bind_apply] at h
    obtain ⟨q, hq, -⟩ := Library.asks_listing c
    rw [hq] at h ⊢
    cases hlist : q s.store with
    | error e =>
      rw [hlist] at h
      cases h
    | ok list =>
      rw [hlist] at h
      cases h
      exact ⟨list, rfl, rfl, rfl⟩

end

/-- A loop that starts comes to the end that its turns come to. -/
theorem Runner.execForeach_eq_trace {run : Runner} {host : Host} {span : Span} {value index : Text}
    {iterable : Expr} {body : Block} {scope : ScopeId} {v : Value} {items : Items}
    {t before after start : State} (hv : run.expr iterable scope host t = .ok v before)
    (hitems : run.items v host before = .ok items after)
    (hstart : note "loop start" (loopDetails "foreach" span ++
      ([("items", .int items.length)] : List (Text × LogValue))) host after = .ok () start) :
    run.execForeach span value index iterable body scope host t =
      thenNote (fun _ _ => (run.foreachTrace value index items body scope host items.length 0
        start).result) "loop end" (loopDetails "foreach" span) host start := by
  have hlocated : located iterable.span (run.items v) host before = .ok items after := by
    unfold located
    rw [hitems]
  unfold execForeach
  rw [bind_apply, hv]
  dsimp only
  rw [bind_apply, hlocated]
  dsimp only
  rw [bind_apply, hstart]
  unfold thenNote
  dsimp only
  rw [foreachTurns_eq_trace]

end ScriptLang
