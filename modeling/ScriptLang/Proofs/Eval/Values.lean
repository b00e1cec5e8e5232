import ScriptLang.Proofs.Eval.Changes

/-!
# Values in accordance with a law

The parts of evaluation that work on values: properties and elements, annotations, operators, and the
methods that the language calls. They call back into the runner only for calls, so what is asked of
the two runners is `Law.Pairing.Carries`, of which they use what it says about calls.
-/

namespace ScriptLang

open Eval

/-- The names that a statement can bind in its scope. -/
def Stmt.declares : Stmt → Text → Prop
  | .declare _ name .., n => n = name
  | .function f, n => n = f.name
  | .importing _ name wildcard _, n => wildcard = true ∨ n = name
  | .struct _ name .., n => n = name
  | .enum _ name _, n => n = name
  | _, _ => False

/-- What conforms to the annotations of a field was found to. -/
theorem still_checkField (t : StructType) (name : Text) (v : Value) :
    Still (checkField t name v) fun s _ => s.Takes t name v := by
  refine .bind (.forIn_all (R := fun (s : Store) (f : Param) => f.name = name → ∀ annotation,
    f.type = some annotation → s.conforms? t.scope annotation v = some true) fun f _ => ?_)
    fun _ => .pure fun _ h => h
  split
  · split
    · next annotation htype =>
      refine .bind (still_checkType t.scope annotation v) fun _ => .pure fun s h => ?_
      refine ⟨rfl, fun _ other hother => ?_⟩
      cases htype.symm.trans hother
      exact h
    · next hnone => exact .pure fun _ => ⟨rfl, fun _ other hother => absurd hother (hnone other)⟩
  · next hne => exact .pure fun _ => ⟨rfl, fun heq => absurd heq hne⟩

namespace Law

/-- What a part of a program may do besides giving a value. -/
def effect (L : Law) (inLoop : Bool) : Effect := { leaves := L.escapes inLoop }

/-- What a statement may do besides giving a value. -/
def stmtEffect (L : Law) (inLoop : Bool) (scope : ScopeId) (st : Stmt) : Effect :=
  { binds := fun i n => i = scope ∧ st.declares n, leaves := L.escapes inLoop }

/-- Two runners of which the second keeps to the law, and the first does the same until they part. -/
structure Pairing.Carries {L : Law} (K : L.Pairing) (run run' : Runner) : Prop where
  /-- Expressions. -/
  expr : ∀ {inLoop e scope names} {s : State}, L.TidyExpr inLoop e → L.ready s.store scope names →
    K.Sound (L.effect inLoop) s (run.expr e scope) (run'.expr e scope) L.Good
  /-- Statements. -/
  stmt : ∀ {inLoop names st scope} {s : State}, L.TidyStmt inLoop names st →
    L.ready s.store scope names →
    K.Sound (L.stmtEffect inLoop scope st) s (run.stmt st scope) (run'.stmt st scope) fun t v =>
      L.Done inLoop t v ∧ L.ready t scope (Check.declare names (Check.declaredName st))
  /-- Calls. -/
  call : ∀ {f args} {s : State}, L.Good s.store f → (∀ a ∈ args, L.Good s.store a) →
    K.Sound .quiet s (run.call f args) (run'.call f args) L.Good

/-- A call without arguments. -/
theorem Pairing.Carries.callBare {L : Law} {K : L.Pairing} {run run' : Runner} {s : State}
    {f : Value} (h : K.Carries run run') (hf : L.Good s.store f) :
    K.Sound .quiet s (run.call f []) (run'.call f []) L.Good :=
  h.call hf fun _ ha => absurd ha List.not_mem_nil

namespace Pairing.Sound

variable {L : Law} {K : L.Pairing} {ε : Effect} {s : State} {u v w : Value} {run run' : Runner}

theorem rawBare (hv : L.Good s.store v) : K.Sound ε s (Eval.raw v) (Eval.raw v) L.Bare :=
  still (still_raw v) fun _ hs h => hs.raw hv h

theorem raw (hv : L.Good s.store v) : K.Sound ε s (Eval.raw v) (Eval.raw v) L.Good :=
  (rawBare hv).good

/-- What is stored under an annotation has it, and what is stored without one may lie on the heap. -/
theorem annotated (scope : ScopeId) (type : Option TypeExpr) (hv : L.Good s.store v) :
    K.Sound ε s (Eval.annotated scope type v) (Eval.annotated scope type v) fun t w =>
      L.Good t w ∧ t = s.store ∧ match type with
        | none => L.stored w
        | some type => ∃ u, w = .typed u type := by
  refine still (still_annotated scope type v) fun w hs h => ?_
  cases type with
  | none =>
    subst h
    exact ⟨hv.plain.1, rfl, hv.plain.2⟩
  | some type =>
    obtain ⟨u, hc, hu, rfl⟩ := h
    exact ⟨⟨L.annotate hs.keeps hc hu, (hs.raw hv hu).1⟩, rfl, u, rfl⟩

/-! ### Properties and elements -/

theorem getMember (hv : L.Good s.store v) (name : Text) :
    K.Sound ε s (Eval.getMember v name) (Eval.getMember v name) L.Good := by
  unfold Eval.getMember
  refine bind (raw hv) fun w t _ _ hw => ?_
  split
  · next o type =>
    refine store fun ht => ?_
    split
    · next u hu => exact pure (ht.heap u (Store.heap_of_get? hu)).1
    · split
      · exact fail nofun
      · next struct =>
        split
        · next m hm =>
          have hm : L.TidyFunction m := hw.1 m (List.mem_of_find?_eq_some hm)
          exact bind newNumber fun _ _ _ _ _ => pure ⟨hw, hm⟩
        · exact fail nofun
  · split
    · exact pure hw.1
    · split
      · exact pure hw.2
      · exact fail nofun
  · split
    · exact bind newNumber fun _ _ _ _ _ => pure trivial
    · exact fail nofun
  · exact fail nofun

theorem deleteField (hv : L.Good s.store v) (name : Text) :
    K.Sound ε s (Eval.deleteField v name) (Eval.deleteField v name) L.Good := by
  unfold Eval.deleteField
  refine bind (raw hv) fun w t _ _ hw => ?_
  split
  · next o type =>
    refine store fun ht => ?_
    split
    · next u hu =>
      have hu : L.Good t.store u := (ht.heap u (Store.heap_of_get? hu)).1
      refine bind (updateObject bare_nil (fun fields k w h => ?_) .erase) fun _ t' hle _ _ =>
        pure (hu.mono hle)
      exact .inl (List.mem_filter.1 h).1
    · exact fail nofun
  · exact fail nofun

theorem getIndex (hv : L.Good s.store v) (hi : L.Good s.store w) :
    K.Sound ε s (Eval.getIndex v w) (Eval.getIndex v w) L.Good := by
  unfold Eval.getIndex
  refine bind (raw hv) fun v' t hst _ hv' => ?_
  have hi : L.Good t.store w := hi.mono hst
  split
  · next a =>
    refine bind (look (still_arrayIndex a w)) fun i t' _ _ _ => store fun ht => ?_
    exact pure (ht.slot _ i).1
  · refine bind (look (still_wholeIndex _ w)) fun i t' _ _ _ => ?_
    dsimp only
    split
    · exact pure trivial
    · exact fail nofun
  iterate 3
    · refine bind (raw hi) fun k t' htt' _ _ => ?_
      split
      · exact getMember (hv'.mono htt') _
      · exact fail nofun
  · exact fail nofun

theorem checkField (t : StructType) (name : Text) (v : Value) :
    K.Sound ε s (Eval.checkField t name v) (Eval.checkField t name v) fun u _ =>
      u = s.store ∧ s.store.Takes t name v :=
  still (still_checkField t name v) fun _ _ h => ⟨rfl, h⟩

theorem setMember (hv : L.Good s.store v) (name : Text) (hw : L.Good s.store w) :
    K.Sound ε s (Eval.setMember v name w) (Eval.setMember v name w) fun _ _ => True := by
  unfold Eval.setMember
  refine bind (raw hv) fun v' t hst _ hv' => ?_
  split
  · next o type =>
    have hset (t' : State) (hle : L.le ε.binds t.store t'.store)
        (htakes : ∀ struct, t'.store.structOf? o = some struct → t'.store.Takes struct name w) :
        K.Sound ε t' (Eval.update fun st => st.updateObject o fun fields => fields.set name w.plain)
          (Eval.update fun st => st.updateObject o fun fields => fields.set name w.plain)
          fun _ _ => True :=
      updateObject ((hw.mono hst).mono hle).plain (fun _ _ _ => Store.mem_set) (.set htakes)
    refine store fun _ => ?_
    cases hstruct : t.store.structOf? o with
    | none => exact hset t L.le_refl fun struct h => nomatch hstruct.symm.trans h
    | some struct =>
      refine bind (checkField struct name w) fun _ t' hle _ ht' => hset t' hle fun struct' h => ?_
      obtain ⟨ht', htakes⟩ := ht'
      rw [ht'] at h ⊢
      cases hstruct.symm.trans h
      exact htakes
  · exact fail nofun

theorem setIndex (hv : L.Good s.store v) (hi : L.Good s.store u) (hw : L.Good s.store w) :
    K.Sound ε s (Eval.setIndex v u w) (Eval.setIndex v u w) fun _ _ => True := by
  unfold Eval.setIndex
  refine bind (raw hv) fun v' t hst _ hv' => ?_
  split
  · next a =>
    refine bind (look (still_arrayIndex a u)) fun i t' htt' _ _ => ?_
    have hw : L.Bare t'.store w.plain := ((hw.mono hst).mono htt').plain
    refine update rfl rfl (.of_objects rfl) fun x hx => ?_
    rcases Store.heap_setElement hx with hx | rfl | rfl
    · exact .inl hx
    · exact .inr hw
    · exact .inr bare_nil
  · next o type =>
    refine bind (raw (hi.mono hst)) fun k t' htt' _ _ => ?_
    split
    · exact setMember (hv'.mono htt') _ ((hw.mono hst).mono htt')
    · exact fail nofun
  · exact fail nofun

theorem deleteIndex (hv : L.Good s.store v) (hi : L.Good s.store u) :
    K.Sound ε s (Eval.deleteIndex v u) (Eval.deleteIndex v u) L.Good := by
  unfold Eval.deleteIndex
  refine bind (raw hv) fun v' t hst _ hv' => ?_
  split
  · next a =>
    refine bind (look (still_arrayIndex a u)) fun i t' _ _ _ => store fun ht' => ?_
    have hold : L.Good t'.store (t'.store.slot (t'.store.window a).block i) := (ht'.slot _ i).1
    refine bind (update rfl rfl (.of_objects rfl) fun x hx => ?_) fun _ t'' hle _ _ => pure (hold.mono hle)
    rcases Store.heap_removeElement hx with hx | rfl
    · exact .inl hx
    · exact .inr bare_nil
  · refine bind (raw (hi.mono hst)) fun k t' htt' _ _ => ?_
    split
    · exact deleteField (hv'.mono htt') _
    · exact fail nofun

/-! ### Methods that the language calls -/

/-- Whether a good value refers to good methods. -/
theorem good_method {o : ObjectId} {t : StructType} {m : FunctionDecl} {name : Text} {st : Store}
    (h : L.Good st (.object o (some t))) (hm : t.method? name = some m) :
    L.Good st (.method 0 o t m) :=
  ⟨h, h.1 m (List.mem_of_find?_eq_some hm)⟩

theorem hook (hrun : K.Carries run run') (hv : L.Good s.store v) (name : Text) :
    K.Sound .quiet s (run.hook v name) (run'.hook v name) fun t r => ∀ w ∈ r, L.Good t w := by
  unfold Runner.hook
  refine bind (raw hv) fun w t _ _ hw => ?_
  split
  · next o type =>
    split
    · next m hm =>
      refine map (hrun.callBare (good_method hw hm)) fun _ r _ hr w' hw' => ?_
      exact Option.mem_some.1 hw' ▸ hr
    · exact pure nofun
  · split
    · refine map (hrun.callBare trivial) fun _ r _ hr w' hw' => ?_
      exact Option.mem_some.1 hw' ▸ hr
    · exact pure nofun
  · exact pure nofun

theorem truthyWithin (hrun : K.Carries run run') (n : Nat) (hv : L.Good s.store v) :
    K.Sound .quiet s (run.truthyWithin n v) (run'.truthyWithin n v) fun _ _ => True := by
  induction n generalizing s v with
  | zero => exact throw rfl
  | succ n ih =>
    unfold Runner.truthyWithin
    refine bind (raw hv) fun w t _ _ hw => ?_
    split
    · next o type =>
      split
      · next m hm =>
        split
        · exact bind (hrun.callBare (good_method hw hm)) fun r _ _ _ _ =>
            look (still_isNonZero r)
        · exact pure trivial
      · exact pure trivial
    · exact bind (hrun.callBare trivial) fun r _ _ _ _ => look (still_isNonZero r)
    · refine bind (ih hw.1) fun b t' htt' _ _ => ?_
      split
      · exact ih (hw.2.mono htt')
      · exact pure trivial
    · exact store fun _ => look .orStuck

theorem truthy (hrun : K.Carries run run') (hv : L.Good s.store v) :
    K.Sound ε s (run.truthy v) (run'.truthy v) fun _ _ => True :=
  (truthyWithin hrun _ hv).quiet

theorem len (hrun : K.Carries run run') (hv : L.Good s.store v) :
    K.Sound .quiet s (run.len v) (run'.len v) fun _ _ => True := by
  unfold Runner.len
  refine bind (raw hv) fun w t _ _ hw => ?_
  split
  · exact store fun _ => pure trivial
  · exact pure trivial
  · exact store fun _ => pure trivial
  · refine bind (hook hrun hw _) fun r t' _ _ hr => ?_
    split
    · exact fail nofun
    · next size =>
      refine bind (raw (hr size rfl)) fun n t'' _ _ _ => ?_
      split
      · exact pure trivial
      · exact fail nofun

end Pairing.Sound

/-- What a loop visits, when all of it is good. -/
def GoodItems (L : Law) (s : Store) : Items → Prop
  | .values vs => ∀ v ∈ vs, L.Bare s v
  | .window _ => True

theorem lasting_goodItems {L : Law} : L.Lasting L.GoodItems := by
  intro B s t items hle h
  cases items with
  | values vs => exact fun v hv => (h v hv).mono hle
  | window w => trivial

namespace Pairing.Sound

variable {L : Law} {K : L.Pairing} {ε : Effect} {s : State} {u v w : Value} {run run' : Runner}

theorem getItem {items : Items} (h : L.GoodItems s.store items) (i : Nat) :
    K.Sound ε s (items.get i) (items.get i) fun t v => L.Bare t v ∧ t = s.store := by
  cases items with
  | values vs =>
    refine pure ⟨?_, rfl⟩
    rcases Store.mem_of_getD vs i .nil with hv | hv
    · rw [hv]
      exact bare_nil
    · exact h _ hv
  | window w => exact store fun hs => pure ⟨hs.slot _ i, rfl⟩

theorem items (hrun : K.Carries run run') (hv : L.Good s.store v) :
    K.Sound .quiet s (run.items v) (run'.items v) L.GoodItems := by
  unfold Runner.items
  refine bind (raw hv) fun w t _ _ hw => ?_
  split
  · refine store fun ht => pure fun x hx => ?_
    exact ht.heap x (Store.heap_of_mem_elements (List.mem_toArray.1 hx))
  · refine pure fun x hx => ?_
    obtain ⟨r, -, rfl⟩ := List.mem_map.1 (List.mem_toArray.1 hx)
    exact .of trivial nofun
  · refine store fun _ => pure fun x hx => ?_
    obtain ⟨name, -, rfl⟩ := List.mem_map.1 (List.mem_toArray.1 hx)
    exact .of trivial nofun
  · refine bind (hook hrun hw _) fun r t' _ _ hr => ?_
    split
    · exact fail nofun
    · next list =>
      refine bind (raw (hr list rfl)) fun n t'' _ _ _ => ?_
      split
      · exact store fun _ => pure trivial
      · exact fail nofun

/-! ### Texts -/

theorem ownText (hrun : K.Carries run run') (hv : L.Good s.store v) :
    K.Sound .quiet s (run.ownText v) (run'.ownText v) fun _ _ => True := by
  unfold Runner.ownText
  split
  iterate 2
    · refine bind (hook hrun hv _) fun r t _ _ hr => ?_
      split
      · next text =>
        exact bind (raw (hr text rfl)) fun w _ _ _ _ =>
          map (look (still_display w)) fun _ _ _ _ => trivial
      · exact pure trivial
  · exact pure trivial

/-- How a runner shows values. -/
def renderer (run : Runner) : Renderer Eval :=
  { store := Eval.store, tooDeep := MonadExcept.throw .stuck, hook := run.ownText }

theorem render (hrun : K.Carries run run') (n : Nat) (nested : Bool) (hv : L.Good s.store v) :
    K.Sound .quiet s ((renderer run).render n nested v) ((renderer run').render n nested v)
      fun _ _ => True := by
  induction n generalizing s v nested with
  | zero => exact throw rfl
  | succ n ih =>
    unfold Renderer.render
    refine bind (ownText hrun hv) fun own t hst _ _ => ?_
    have hv : L.Good t.store v := hv.mono hst
    split
    · exact pure trivial
    · cases v with
      | array a =>
        refine store fun _ => map (eachM fun i _ t' _ => store fun ht' => ?_)
          fun _ _ _ _ => trivial
        exact ih true (ht'.slot _ i).1
      | object o type =>
        refine store fun _ => bind (eachM fun name _ t' _ => store fun ht' => ?_)
          fun parts t' _ _ _ => ?_
        · split
          · next w hw =>
            exact map (ih true (ht'.heap w (Store.heap_of_get? hw)).1) fun _ _ _ _ => trivial
          · exact pure trivial
        · dsimp only
          split <;> exact pure trivial
      | reference id c =>
        exact store fun ht => map (ih true (ht.deref hv)) fun _ _ _ _ => trivial
      | typed w type => exact map (ih nested hv.2) fun _ _ _ _ => trivial
      | pair a b =>
        refine bind (ih true hv.1) fun _ t' htt' _ _ => ?_
        exact map (ih true (hv.2.mono htt')) fun _ _ _ _ => trivial
      | returnSignal w => exact map (ih true hv.2) fun _ _ _ _ => trivial
      | _ => exact pure trivial

theorem stringify (hrun : K.Carries run run') (hv : L.Good s.store v) :
    K.Sound .quiet s (run.stringify v) (run'.stringify v) fun _ _ => True :=
  render hrun _ false hv

/-! ### Operators -/

theorem arithmetic (op : BinaryOp) (a b : Value) :
    K.Sound ε s (arithmetic op a b) (arithmetic op a b) L.Good := by
  unfold ScriptLang.arithmetic
  split
  · split
    · exact pure trivial
    · split <;> exact fail nofun
  · exact fail nofun

theorem add (hrun : K.Carries run run') (hw : L.Good s.store w) :
    K.Sound .quiet s (run.add v w) (run'.add v w) L.Good := by
  unfold Runner.add
  split
  · exact pure trivial
  · exact map (stringify hrun hw) fun _ _ _ _ => trivial
  · refine store fun hs => newArray fun x hx => ?_
    rcases List.mem_append.1 hx with hx | hx
    · exact hs.heap x (Store.heap_of_mem_elements hx)
    · exact hs.heap x (Store.heap_of_mem_elements hx)
  · exact fail nofun

theorem operate (hrun : K.Carries run run') (op : BinaryOp) (hv : L.Good s.store v)
    (hw : L.Good s.store w) : K.Sound .quiet s (run.operate op v w) (run'.operate op v w) L.Good := by
  unfold Runner.operate
  refine bind (raw hv) fun a t hst _ ha => ?_
  refine bind (raw (hw.mono hst)) fun b t' htt' _ hb => ?_
  split
  · exact store fun _ => map (look .orStuck) fun _ _ _ _ => trivial
  · exact store fun _ => map (look .orStuck) fun _ _ _ _ => trivial
  · exact add hrun hb
  iterate 4
    · split
      · exact pure trivial
      · exact fail (by rintro ⟨⟩)
  · exact arithmetic op a b

end Pairing.Sound

end Law

end ScriptLang
