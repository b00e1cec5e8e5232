import ScriptLang.Proofs.Eval.Comparison

/-!
# Values in a compartment

The parts of evaluation that work on values keep to the compartment and do the same in both runs:
properties and elements, annotations, operators, and the methods that the language calls. Two runners of
which this is known for all tasks are those of `Comparison.Carries`.
-/

namespace ScriptLang

open Eval

namespace Comparison

/-- Two runners that do the same within the compartment. -/
structure Carries (C : Comparison) (run run' : Runner) : Prop where
  /-- Expressions. -/
  expr : ∀ {e scope} {s : State}, Spans.Within C.spans (Spans.expr e) → C.Owns scope →
    C.Sound s (run.expr e scope) (run'.expr e scope) C.Good
  /-- Statements. -/
  stmt : ∀ {st scope} {s : State}, Spans.Within C.spans (Spans.stmt st) → C.Owns scope →
    C.Sound s (run.stmt st scope) (run'.stmt st scope) C.Good
  /-- Calls. -/
  call : ∀ {f args} {s : State}, C.Good s.store f → (∀ a ∈ args, C.Good s.store a) →
    C.Sound s (run.call f args) (run'.call f args) C.Good

/-- A call without arguments. -/
theorem Carries.callBare {C : Comparison} {run run' : Runner} {s : State} {f : Value}
    (h : C.Carries run run') (hf : C.Good s.store f) :
    C.Sound s (run.call f []) (run'.call f []) C.Good :=
  h.call hf fun _ ha => absurd ha List.not_mem_nil

/-- What a loop visits, when all of it is inside. -/
def GoodItems (C : Comparison) (s : Store) : Items → Prop
  | .values vs => ∀ v ∈ vs, C.Good s v
  | .window w => C.origin.blocks.size ≤ w.block

variable {C : Comparison} {s : State} {u v w : Value} {run run' : Runner} {scope : ScopeId}

theorem lasting_goodItems : Lasting C.GoodItems := by
  intro s t items hst h
  cases items with
  | values vs => exact fun v hv => (h v hv).mono hst
  | window w => exact h

namespace Sound

/-! ### Changes of the store -/

theorem newCell (hv : C.Good s.store v) :
    C.Sound s (Eval.change fun st => st.newCell v) (Eval.change fun st => st.newCell v)
      fun _ c => C.origin.cells.size ≤ c :=
  change (.refl _) (fun hs => hs.newCell hv) fun hs => hs.cells.size_le

theorem newScopeOf {parent : Option ScopeId} (h : ∀ p ∈ parent, C.Owns p) :
    C.Sound s (Eval.change fun st => st.newScope parent)
      (Eval.change fun st => st.newScope parent) fun _ id => C.Owns id :=
  change (.refl _) (fun hs => hs.newScope h) fun hs => hs.owns_newScope

theorem newScope (h : C.Owns scope) :
    C.Sound s (Eval.newScope scope) (Eval.newScope scope) fun _ id => C.Owns id :=
  newScopeOf fun _ hp => Option.mem_some.1 hp ▸ h

theorem newArrayId {elems : List Value} {n : Nat} (h : ∀ v ∈ elems, C.Good s.store v) :
    C.Sound s (Eval.change fun st => st.newArray elems n)
      (Eval.change fun st => st.newArray elems n) fun t a => C.Good t (.array a) :=
  of_sealed fun hs => change (hs.newArray h).2 (fun _ => (hs.newArray h).1) fun _ => hs.newArray_good

theorem newArray {elems : List Value} (h : ∀ v ∈ elems, C.Good s.store v) :
    C.Sound s (Eval.newArray elems) (Eval.newArray elems) C.Good :=
  map (newArrayId h) fun _ _ _ ha => ha

theorem grownArray {elems : List Value} (h : ∀ v ∈ elems, C.Good s.store v) :
    C.Sound s (Eval.grownArray elems) (Eval.grownArray elems) C.Good :=
  map (newArrayId h) fun _ _ _ ha => ha

/-- The fields that a list of good values leaves. -/
theorem good_ofList {entries : List (Text × Value)} {st : Store}
    (h : ∀ e ∈ entries, C.Good st e.2) : ∀ f ∈ Fields.ofList entries, C.Good st f.2 := by
  intro f hf
  obtain ⟨e, he, hv⟩ := Store.mem_ofList (k := f.1) (w := f.2) hf
  exact hv ▸ h e he

theorem newObjectId {entries : List (Text × Value)} {type : Option StructType}
    (h : ∀ e ∈ entries, C.Good s.store e.2) :
    C.Sound s (Eval.change fun st => st.newObject (Fields.ofList entries) type)
      (Eval.change fun st => st.newObject (Fields.ofList entries) type)
      fun _ o => C.origin.objects.size ≤ o :=
  change (.refl _) (fun hs => hs.newObject (good_ofList h)) fun hs => hs.objects.size_le

theorem newObject {entries : List (Text × Value)} (h : ∀ e ∈ entries, C.Good s.store e.2) :
    C.Sound s (Eval.newObject (Fields.ofList entries)) (Eval.newObject (Fields.ofList entries))
      C.Good :=
  map (newObjectId h) fun _ _ _ ho => ⟨ho, by rintro _ ⟨⟩⟩

theorem bindName {name : Text} {constant : Bool} {x : Eval Unit}
    (hx : x = Eval.tryScope fun st => st.bind scope name v constant) (h : C.Owns scope)
    (hv : C.Good s.store v) : C.Sound s x x fun _ _ => True := by
  rw [hx]
  exact tryScope fun _ hs ht => hs.bind h hv ht

/-! ### Questions to the store -/

theorem raw (hv : C.Good s.store v) : C.Sound s (Eval.raw v) (Eval.raw v) C.Good :=
  ask (asks_raw v) (still_raw v) fun _ hs h => hs.raw hv h

theorem lookup (name : Text) (h : C.Owns scope) :
    C.Sound s (Eval.lookup scope name) (Eval.lookup scope name) C.Good :=
  ask (asks_lookup scope name) (still_lookup scope name) fun _ hs hv => hs.lookup h hv

theorem annotated (scope : ScopeId) (type : Option TypeExpr) (hv : C.Good s.store v) :
    C.Sound s (Eval.annotated scope type v) (Eval.annotated scope type v) C.Good := by
  refine ask (asks_annotated v scope type) (still_annotated scope type v) fun w hs h => ?_
  cases type with
  | none => exact h ▸ hv.plain
  | some type =>
    obtain ⟨u, -, hu, rfl⟩ := h
    have hgood : C.Good s.store u := hs.raw hv hu
    exact hgood

/-! ### Properties and elements -/

theorem getMember (hv : C.Good s.store v) (name : Text) :
    C.Sound s (Eval.getMember v name) (Eval.getMember v name) C.Good := by
  unfold Eval.getMember
  refine bind (raw hv) fun w t _ _ hw => ?_
  split
  · next o type =>
    refine store fun ht => ?_
    split
    · next u hu => exact pure (ht.field hw.1 hu)
    · split
      · exact fail _ _
      · next struct =>
        split
        · next m hm => exact map newNumber fun _ _ _ _ => Compartment.good_method hw hm
        · exact fail _ _
  · split
    · exact pure hw.1
    · split
      · exact pure hw.2
      · exact fail _ _
  · split
    · exact map newNumber fun _ _ _ _ => hw
    · exact fail _ _
  · exact fail _ _

theorem setMember (hv : C.Good s.store v) (name : Text) (hw : C.Good s.store w) :
    C.Sound s (Eval.setMember v name w) (Eval.setMember v name w) fun _ _ => True := by
  unfold Eval.setMember
  refine bind (raw hv) fun v' t hst _ hv' => ?_
  split
  · next o type =>
    have hset (t' : State) (hle : t.store.Grows t'.store) :
        C.Sound t' (Eval.update fun st => st.updateObject o fun fields => fields.set name w.plain)
          (Eval.update fun st => st.updateObject o fun fields => fields.set name w.plain)
          fun _ _ => True := by
      refine update fun hs => ⟨hs.updateObject hv'.1 fun fields hf e he => ?_, .refl _⟩
      rcases Store.mem_set (k := e.1) (w := e.2) he with he | he
      · exact hf _ he
      · exact he ▸ ((hw.mono hst).mono hle).plain
    refine store fun _ => ?_
    split
    · exact bind (look (asks_checkField w _ name)) fun _ t' hle _ _ => hset t' hle
    · exact hset t (.refl _)
  · exact fail _ _

theorem deleteField (hv : C.Good s.store v) (name : Text) :
    C.Sound s (Eval.deleteField v name) (Eval.deleteField v name) C.Good := by
  unfold Eval.deleteField
  refine bind (raw hv) fun w t _ _ hw => ?_
  split
  · refine store fun ht => ?_
    split
    · next u hu =>
      have hu : C.Good t.store u := ht.field hw.1 hu
      refine bind (update fun hs => ⟨hs.updateObject hw.1 fun fields hf e he => ?_, .refl _⟩)
        fun _ t' hle _ _ => pure (hu.mono hle)
      exact hf e (List.mem_filter.1 he).1
    · exact fail _ _
  · exact fail _ _

theorem getIndex (hv : C.Good s.store v) (hi : C.Good s.store w) :
    C.Sound s (Eval.getIndex v w) (Eval.getIndex v w) C.Good := by
  unfold Eval.getIndex
  refine bind (raw hv) fun v' t hst _ hv' => ?_
  split
  · next a =>
    refine bind (look (asks_arrayIndex w a)) fun i t' htt' _ _ => store fun ht' => ?_
    exact pure (ht'.slot (ht'.window (hv'.mono htt')) i)
  · refine bind (look (asks_wholeIndex w _)) fun i t' _ _ _ => ?_
    dsimp only
    split
    · exact pure trivial
    · exact fail _ _
  iterate 3
    · refine bind (raw (hi.mono hst)) fun k t' htt' _ _ => ?_
      split
      · exact getMember (hv'.mono htt') _
      · exact fail _ _
  · exact fail _ _

theorem setIndex (hv : C.Good s.store v) (hi : C.Good s.store u) (hw : C.Good s.store w) :
    C.Sound s (Eval.setIndex v u w) (Eval.setIndex v u w) fun _ _ => True := by
  unfold Eval.setIndex
  refine bind (raw hv) fun v' t hst _ hv' => ?_
  split
  · next a =>
    refine bind (look (asks_arrayIndex u a)) fun i t' htt' _ _ => update fun hs => ?_
    exact ⟨hs.writeSlot (hs.ownsBlock (hv'.mono htt')) ((hw.mono hst).mono htt').plain, .refl _⟩
  · next o type =>
    refine bind (raw (hi.mono hst)) fun k t' htt' _ _ => ?_
    split
    · exact setMember (hv'.mono htt') _ ((hw.mono hst).mono htt')
    · exact fail _ _
  · exact fail _ _

theorem deleteIndex (hv : C.Good s.store v) (hi : C.Good s.store u) :
    C.Sound s (Eval.deleteIndex v u) (Eval.deleteIndex v u) C.Good := by
  unfold Eval.deleteIndex
  refine bind (raw hv) fun v' t hst _ hv' => ?_
  split
  · next a =>
    refine bind (look (asks_arrayIndex u a)) fun i t' htt' _ _ => store fun ht' => ?_
    have ha : C.Good t'.store (.array a) := hv'.mono htt'
    have hold := ht'.slot (ht'.window ha) i
    exact bind (update fun hs => hs.removeElement ha) fun _ t'' hle _ _ => pure (hold.mono hle)
  · refine bind (raw (hi.mono hst)) fun k t' htt' _ _ => ?_
    split
    · exact deleteField (hv'.mono htt') _
    · exact fail _ _

/-! ### Methods that the language calls -/

theorem hook (hrun : C.Carries run run') (hv : C.Good s.store v) (name : Text) :
    C.Sound s (run.hook v name) (run'.hook v name) fun t r => ∀ w ∈ r, C.Good t w := by
  unfold Runner.hook
  refine bind (raw hv) fun w t _ _ hw => ?_
  split
  · split
    · next m hm =>
      refine map (hrun.callBare (Compartment.good_method hw hm)) fun _ r _ hr w' hw' => ?_
      exact Option.mem_some.1 hw' ▸ hr
    · exact pure nofun
  · split
    · next m _ =>
      refine map (hrun.callBare (f := .collectionMethod 0 _ _ m) hw) fun _ r _ hr w' hw' => ?_
      exact Option.mem_some.1 hw' ▸ hr
    · exact pure nofun
  · exact pure nofun

theorem truthyWithin (hrun : C.Carries run run') (n : Nat) (hv : C.Good s.store v) :
    C.Sound s (run.truthyWithin n v) (run'.truthyWithin n v) fun _ _ => True := by
  induction n generalizing s v with
  | zero => exact throw trivial
  | succ n ih =>
    unfold Runner.truthyWithin
    refine bind (raw hv) fun w t _ _ hw => ?_
    split
    · split
      · next m hm =>
        split
        · exact bind (hrun.callBare (Compartment.good_method hw hm)) fun r _ _ _ _ => look (asks_isNonZero r)
        · exact pure trivial
      · exact pure trivial
    · next k c =>
      exact bind (hrun.callBare (f := .collectionMethod 0 k c .size) hw)
        fun r _ _ _ _ => look (asks_isNonZero r)
    · refine bind (ih hw.1) fun b t' htt' _ _ => ?_
      split
      · exact ih (Compartment.Good.mono hw.2 htt')
      · exact pure trivial
    · exact store fun _ => look (.orStuck _)

theorem truthy (hrun : C.Carries run run') (hv : C.Good s.store v) :
    C.Sound s (run.truthy v) (run'.truthy v) fun _ _ => True :=
  truthyWithin hrun _ hv

theorem len (hrun : C.Carries run run') (hv : C.Good s.store v) :
    C.Sound s (run.len v) (run'.len v) fun _ _ => True := by
  unfold Runner.len
  refine bind (raw hv) fun w t _ _ hw => ?_
  split
  · exact store fun _ => pure trivial
  · exact pure trivial
  · exact store fun _ => pure trivial
  · refine bind (hook hrun hw _) fun r t' _ _ hr => ?_
    split
    · exact fail _ _
    · next size =>
      refine bind (raw (hr size rfl)) fun n t'' _ _ _ => ?_
      split
      · exact pure trivial
      · exact fail _ _

theorem getItem {items : Items} (h : C.GoodItems s.store items) (i : Nat) :
    C.Sound s (items.get i) (items.get i) C.Good := by
  cases items with
  | values vs =>
    refine pure ?_
    rcases Store.mem_of_getD vs i .nil with hv | hv
    · rw [hv]
      trivial
    · exact h _ hv
  | window w => exact store fun hs => pure (hs.slot h i)

theorem items (hrun : C.Carries run run') (hv : C.Good s.store v) :
    C.Sound s (run.items v) (run'.items v) C.GoodItems := by
  unfold Runner.items
  refine bind (raw hv) fun w t _ _ hw => ?_
  split
  · exact store fun ht => pure fun x hx => ht.elements hw x (List.mem_toArray.1 hx)
  · refine pure fun x hx => ?_
    obtain ⟨r, -, rfl⟩ := List.mem_map.1 (List.mem_toArray.1 hx)
    trivial
  · refine store fun _ => pure fun x hx => ?_
    obtain ⟨name, -, rfl⟩ := List.mem_map.1 (List.mem_toArray.1 hx)
    trivial
  · refine bind (hook hrun hw _) fun r t' _ _ hr => ?_
    split
    · exact fail _ _
    · next list =>
      refine bind (raw (hr list rfl)) fun n t'' _ _ hn => ?_
      split
      · exact store fun ht => pure (ht.window hn)
      · exact fail _ _

/-! ### Texts -/

theorem ownText (hrun : C.Carries run run') (hv : C.Good s.store v) :
    C.Sound s (run.ownText v) (run'.ownText v) fun _ _ => True := by
  unfold Runner.ownText
  split
  iterate 2
    · refine bind (hook hrun hv _) fun r t _ _ hr => ?_
      split
      · next text =>
        exact bind (raw (hr text rfl)) fun w _ _ _ _ => map (look (asks_display w)) fun _ _ _ _ => trivial
      · exact pure trivial
  · exact pure trivial

theorem render (hrun : C.Carries run run') (n : Nat) (nested : Bool) (hv : C.Good s.store v) :
    C.Sound s ((Law.Pairing.Sound.renderer run).render n nested v)
      ((Law.Pairing.Sound.renderer run').render n nested v) fun _ _ => True := by
  induction n generalizing s v nested with
  | zero => exact throw trivial
  | succ n ih =>
    unfold Renderer.render
    refine bind (ownText hrun hv) fun own t hst _ _ => ?_
    have hv : C.Good t.store v := hv.mono hst
    split
    · exact pure trivial
    · cases v with
      | array a =>
        refine store fun ht => map (eachM fun i _ t' hle => store fun ht' => ?_) fun _ _ _ _ => trivial
        exact ih true (ht'.slot (ht.window hv) i)
      | object o type =>
        refine store fun _ => bind (eachM fun name _ t' _ => store fun ht' => ?_)
          fun parts t' _ _ _ => ?_
        · split
          · next w hw => exact map (ih true (ht'.field hv.1 hw)) fun _ _ _ _ => trivial
          · exact pure trivial
        · dsimp only
          split <;> exact pure trivial
      | reference id c => exact store fun ht => map (ih true (ht.deref hv)) fun _ _ _ _ => trivial
      | typed w type => exact map (ih (v := w) nested hv) fun _ _ _ _ => trivial
      | pair a b =>
        refine bind (ih (v := a) true hv.1) fun _ t' htt' _ _ => ?_
        exact map (ih (v := b) true (Compartment.Good.mono hv.2 htt')) fun _ _ _ _ => trivial
      | returnSignal w => exact map (ih (v := w) true hv) fun _ _ _ _ => trivial
      | _ => exact pure trivial

theorem stringify (hrun : C.Carries run run') (hv : C.Good s.store v) :
    C.Sound s (run.stringify v) (run'.stringify v) fun _ _ => True :=
  render hrun _ false hv

/-! ### Operators -/

theorem arithmetic (op : BinaryOp) (a b : Value) :
    C.Sound s (arithmetic op a b) (arithmetic op a b) C.Good := by
  unfold ScriptLang.arithmetic
  split
  · split
    · exact pure trivial
    · split <;> exact fail _ _
  · exact fail _ _

theorem add (hrun : C.Carries run run') (hv : C.Good s.store v) (hw : C.Good s.store w) :
    C.Sound s (run.add v w) (run'.add v w) C.Good := by
  unfold Runner.add
  split
  · exact pure trivial
  · exact map (stringify hrun hw) fun _ _ _ _ => trivial
  · refine store fun hs => newArray fun x hx => ?_
    rcases List.mem_append.1 hx with hx | hx
    · exact hs.elements hv x hx
    · exact hs.elements hw x hx
  · exact fail _ _

theorem operate (hrun : C.Carries run run') (op : BinaryOp) (hv : C.Good s.store v)
    (hw : C.Good s.store w) : C.Sound s (run.operate op v w) (run'.operate op v w) C.Good := by
  unfold Runner.operate
  refine bind (raw hv) fun a t hst _ ha => ?_
  refine bind (raw (hw.mono hst)) fun b t' htt' _ hb => ?_
  split
  · exact store fun _ => map (look (.orStuck _)) fun _ _ _ _ => trivial
  · exact store fun _ => map (look (.orStuck _)) fun _ _ _ _ => trivial
  · exact add hrun (ha.mono htt') hb
  iterate 4
    · split
      · exact pure trivial
      · exact fail _ _
  · exact arithmetic op a b

end Sound

end Comparison

end ScriptLang
