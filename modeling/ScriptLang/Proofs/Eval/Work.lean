import ScriptLang.Proofs.Eval.Runs

/-!
# Pieces of work

A run is put together from pieces of *work*: tasks, what is left of a list of statements, calls,
constructions, requests. What holds for as long as something lasts, such as a call or a variable, is
said of the pieces of work that are done in that time. A piece of work *visits* a state with a task
when it gets to the task in that state.

A law often holds as long as no assignment writes a certain value to a certain place. Which values
those are is not to be seen before the right side of the assignment was evaluated; therefore it is
asked by an evaluator of its own, which looks at the value and the place before it writes, and does
something else if the write is one that `stops` is about. A piece of work *spares* such writes if
what is done instead of them makes no difference.
-/

namespace ScriptLang

open Eval

/-- A piece of work of the evaluator. -/
inductive Work where
  /-- A task. -/
  | task (task : Task)
  /-- The statements that are left of a list, and the value of the one before them. -/
  | statements (scope : ScopeId) (result : Value) (rest : List Stmt)
  /-- What is done for a call. -/
  | call (f : Value) (args : List Value)
  /-- What is done for a new instance of a struct. -/
  | construct (type : StructType) (args : List Value)
  /-- The body of a function, in a scope that was made for it. -/
  | body (name : Text) (f : FunctionDecl) (result : Option TypeExpr) (scope : ScopeId) (args : List Value)
  /-- A piece of work that ends with another value than its own. -/
  | giving (w : Work) (v : Value)
  /-- A request. -/
  | request (r : Request)

namespace Work

/-- The values that a piece of work starts with. -/
def values : Work → List Value
  | task (.call f args) => f :: args
  | task _ => []
  | statements _ result _ => [result]
  | call f args => f :: args
  | construct _ args => args
  | body _ _ _ _ args => args
  | giving w _ => w.values
  | request r => r.values

/-- A piece of work, done by a runner. -/
def doneBy (run : Runner) : Work → Eval Value
  | task t => run t
  | statements scope result rest => run.statements scope result rest
  | call f args => run.callValue f args
  | construct type args => run.instantiate type args
  | body name f result scope args => run.invoke name f result scope args
  | giving w v => do
    let _ ← w.doneBy run
    return v
  | request r => r.evalBy run

/-- A piece of work, done by the evaluator. -/
def eval (w : Work) (n : Nat) : Eval Value := w.doneBy (evaluator n)

/-- Whether a piece of work gets to a task in a state: what would be done there instead makes a
difference. -/
def Visits (w : Work) (n : Nat) (host : Host) (s : State) (task : Task) (t : State) : Prop :=
  ∃ instead : Runner,
    w.doneBy (evaluatorWith { diverts := task.at t, instead } n) host s ≠ w.eval n host s

end Work

/-- Whether a piece of work never gets to one of certain tasks: whatever is done instead of them, the
outcome is the same. -/
def Work.Avoids (diverts : Task → State → Bool) (w : Work) (n : Nat) (host : Host) (s : State) : Prop :=
  ∀ instead : Runner, w.doneBy (evaluatorWith { diverts, instead } n) host s = w.eval n host s

theorem Work.avoids_none (w : Work) (n : Nat) (host : Host) (s : State) :
    w.Avoids (fun _ _ => false) n host s := by
  intro instead
  rw [evaluatorWith_none]
  rfl

/-! ### Writes that are stopped -/

/-- Write a value to a place, or do something else if the write is to be stopped. -/
def Place.writeUnless (stops : Store → Value → Place → Bool) (otherwise : Eval Unit) (v : Value)
    (place : Place) : Eval Unit := do
  if stops (← store) v place then otherwise else place.write v

/-- The evaluator that does something else instead of the writes of assignments that are to be
stopped. -/
def evaluatorUnless (stops : Store → Value → Place → Bool) (otherwise : Eval Unit) : Nat → Runner
  | 0 => fun _ => throw .stuck
  | n + 1 => fun
    | .expr (.assign span op target value) scope =>
      located span ((evaluatorUnless stops otherwise n).assignWith (Place.writeUnless stops otherwise) op
        target value scope)
    | task => (evaluatorUnless stops otherwise n).step task

/-- Whether no assignment in a piece of work writes what is to be stopped: whatever is done instead,
the outcome is the same. -/
def Work.Spares (stops : Store → Value → Place → Bool) (w : Work) (n : Nat) (host : Host) (s : State) :
    Prop :=
  ∀ otherwise : Eval Unit, w.doneBy (evaluatorUnless stops otherwise n) host s = w.eval n host s

/-- Where no write is to be stopped nothing else is done instead. -/
theorem evaluatorUnless_none (otherwise : Eval Unit) (n : Nat) :
    evaluatorUnless (fun _ _ _ => false) otherwise n = evaluator n := by
  induction n with
  | zero => rfl
  | succ n ih =>
    funext task
    unfold evaluatorUnless
    rw [ih]
    split <;> rfl

theorem Work.spares_none (w : Work) (n : Nat) (host : Host) (s : State) :
    w.Spares (fun _ _ _ => false) n host s := by
  intro otherwise
  rw [evaluatorUnless_none]
  rfl

/-- Whether a piece of work is done as another one in another state, whoever does it. -/
def Work.Becomes (w : Work) (host : Host) (s : State) (w' : Work) (s' : State) : Prop :=
  ∀ run : Runner, w.doneBy run host s = w'.doneBy run host s'

namespace Work.Becomes

variable {w w' : Work} {host : Host} {s s' : State} (h : w.Becomes host s w' s') {n : Nat}
include h

theorem after_eq : (w.eval n).after host s = (w'.eval n).after host s' := by
  unfold Eval.after eval
  rw [h]

theorem spares {stops : Store → Value → Place → Bool} (hspares : w.Spares stops n host s) :
    w'.Spares stops n host s' := by
  intro otherwise
  unfold eval
  rw [← h, ← h]
  exact hspares otherwise

theorem visits {task : Task} {t : State} (hvisits : w.Visits n host s task t) :
    w'.Visits n host s' task t := by
  obtain ⟨instead, hne⟩ := hvisits
  unfold eval at hne
  rw [h, h] at hne
  exact ⟨instead, hne⟩

end Work.Becomes

namespace Law

variable {L : Law} {stops : Store → Value → Place → Bool}

/-- A law that holds of all programs as long as certain writes are stopped. -/
structure Guarded (L : Law) (stops : Store → Value → Place → Bool) : Prop where
  universal : L.Universal
  forbids : ∀ {task s}, L.forbids task s → task.assigns s = true
  allows : ∀ {s v place}, L.keeps s → stops s v place = false → L.AllowsPlace s v place
  bodies : L.bodies := by trivial
  admits : ∀ host, L.admits host := by exact fun _ => trivial

/-- What evaluation may do besides giving a value. -/
def anyEffect : Effect := { binds := anyNames, leaves := fun _ => True }

theorem le_anyEffect (ε : Effect) : ε ≤ anyEffect := ⟨fun _ _ _ => trivial, fun _ _ => trivial⟩

namespace Pairing.Sound

variable {K : L.Pairing} {ε : Effect} {s : State} {v : Value}

/-- Where writes are stopped the two runs part, and the others are in accordance with the law. -/
theorem writeUnless (hguarded : L.Guarded stops)
    (hstops : ∀ {task s}, Task.assigns task s = true → K.stops task s = true) {place : Place}
    (h : L.GoodPlace s.store place) (hv : L.Good s.store v) :
    K.Sound ε s (place.write v)
      (place.writeUnless stops (MonadExcept.throw (Failure.cancelled K.stopped)) v)
      fun _ _ => True := by
  have hright (otherwise : Eval Unit) (host : Host) : place.writeUnless stops otherwise v host s =
      (if stops s.store v place then otherwise else place.write v : Eval Unit) host s := rfl
  refine of_inv fun hs => congr (fun _ => rfl) (hright _) ?_
  split
  · have hassigns : (Task.expr (.assign {} .set (.nil {}) (.nil {})) 0).assigns s = true := rfl
    exact stopped (hstops hassigns)
  · next hno => exact writePlace h hv (hguarded.allows hs.keeps (Bool.eq_false_iff.2 hno))

end Pairing.Sound

/-- The evaluator that is stopped at certain writes keeps to the law. -/
theorem Pairing.carries_unless (hguarded : L.Guarded stops) (K : L.Pairing)
    (hstops : ∀ {task s}, Task.assigns task s = true → K.stops task s = true) (henters : K.Enters)
    (n : Nat) :
    K.Carries (evaluatorWith K.left n)
      (evaluatorUnless stops (MonadExcept.throw (Failure.cancelled K.stopped)) n) := by
  have hfree {task : Task} {s : State} (h : task.assigns s ≠ true) : ¬ L.forbids task s :=
    fun hf => h (hguarded.forbids hf)
  induction n with
  | zero => exact ⟨fun _ _ => .throw rfl, fun _ _ => .throw rfl, fun _ _ => .throw rfl⟩
  | succ n ih =>
    refine ⟨fun {inLoop e scope names s} he hready => .diverted_left trivial ?_,
      fun {inLoop st scope names s} hst hready => .diverted_left trivial ?_,
      fun hf hargs => .diverted_left ⟨hf, hargs⟩ (.call hguarded.bodies ih hf hargs)⟩
    · have byRule (h : (Task.expr e scope).assigns s ≠ true) :
          K.Sound (L.effect inLoop) s ((evaluatorWith K.left n).stepWith K.left (.expr e scope))
            ((evaluatorUnless stops _ n).stepWith K.right (.expr e scope)) L.Good :=
        .stepExpr ih (.instantiate hguarded.bodies ih) he hready (hfree h)
      cases e with
      | assign span op target value =>
        exact .located _ (.assignWith (fun h hv => .writeUnless hguarded hstops h hv) ih he hready)
      | _ => exact byRule Bool.false_ne_true
    · have hstep := Sound.stepStmt ih hst hready (hfree Bool.false_ne_true) fun _ => henters
      rwa [K.stepWith_right] at hstep

/-- Two runs for a piece of work, if what bodies end with becomes what the rules say. -/
theorem Pairing.work (K : L.Pairing) {run run' : Runner} (hrun : K.Carries run run')
    (hall : L.Universal) (hbodies : L.bodies) (hfinish : K.left.finish = fun v => return v.unwrap)
    {w : Work} {s : State} (hw : ∀ v ∈ w.values, L.Good s.store v) :
    K.Sound anyEffect s (w.doneBy run) (w.doneBy run') fun _ _ => True := by
  have hready {scope : ScopeId} : L.ready s.store scope [] := hall.ready
  have any {ε : Effect} {Q : Store → Value → Prop} {x y : Eval Value} (h : K.Sound ε s x y Q) :
      K.Sound anyEffect s x y fun _ _ => True := h.mono (le_anyEffect ε) fun _ _ _ _ _ => trivial
  induction w with
  | task task =>
    cases task with
    | expr e scope => exact any (hrun.expr (hall.tidyExpr true e) hready)
    | stmt st scope =>
      have htidy : L.TidyStmt true [] st := hall.tidyStmt st
      exact any (hrun.stmt htidy hready)
    | call f args =>
      exact any (hrun.call (hw f List.mem_cons_self) fun a ha => hw a (List.mem_cons_of_mem _ ha))
  | statements scope result rest =>
    have htidy : L.TidyStmts true [] rest := ⟨hall.clean _, hall.follow⟩
    exact any (Sound.statements hrun (ε := anyEffect) (fun _ => trivial) htidy hready
      (hw result List.mem_cons_self).done)
  | call f args =>
    have hcall := Sound.call hbodies hrun (hw f List.mem_cons_self)
      fun a ha => hw a (List.mem_cons_of_mem _ ha)
    rw [hfinish] at hcall
    exact any hcall
  | construct type args =>
    have hnew := Sound.instantiate hbodies hrun (hall.goodStruct type) hw
    rw [hfinish] at hnew
    exact any hnew
  | body name f result scope args =>
    have hready : L.ready s.store scope [] := hready
    have hbody := Sound.invoke hbodies hrun (ε := anyEffect) (fun _ => trivial) name
      (hall.tidyFunction f) result hready hw
    rw [hfinish] at hbody
    exact any hbody
  | giving w v ih => exact .map (ih hw) fun _ _ _ _ => trivial
  | request r =>
    cases r with
    | run b =>
      have htidy : L.TidyStmts true [] b.body := ⟨hall.clean _, hall.follow⟩
      refine any (Sound.bind (ε := anyEffect) (Sound.statements hrun (fun _ => trivial) htidy hready
        (Good.done trivial))
        (R := fun _ _ => True) fun _ _ _ _ _ => .pure trivial)
    | stringify v => exact any (Sound.map (R := fun _ _ => True) (.stringify hrun (hw v List.mem_cons_self))
        fun _ _ _ _ => trivial)

/-- A piece of work that is done in accordance with a law: runners that are stopped, with any words, where
the law ends, do all of it. -/
structure Guides (L : Law) (d : Task → State → Bool) (w : Work) (n : Nat) (host : Host) (s : State) :
    Prop where
  universal : L.Universal
  forbids : ∀ {task s}, L.forbids task s → d task s = true
  bodies : L.bodies
  admits : ∀ host, L.admits host
  stopped : ∃ run : Text → Runner,
    (∀ K : L.Pairing, K.stops = d → K.Enters → K.Carries (evaluatorWith K.left n) (run K.stopped)) ∧
    ∀ words, w.doneBy (run words) host s = w.eval n host s

section

variable {d : Task → State → Bool} {w : Work} {n : Nat} {host : Host} {s t : State} {task : Task}

/-- Work that avoids what a law forbids. -/
theorem guides_of_avoids (hall : L.Universal) (hd : ∀ {task s}, L.forbids task s → d task s = true)
    (havoids : w.Avoids d n host s) (hbodies : L.bodies := by exact trivial)
    (hadmits : ∀ host, L.admits host := by exact fun _ => trivial) : L.Guides d w n host s where
  universal := hall
  forbids := hd
  bodies := hbodies
  admits := hadmits
  stopped := by
    let stopped (words : Text) : Runner := fun _ => throw (.cancelled words)
    refine ⟨fun words => evaluatorWith { diverts := d, instead := stopped words } n, ?_,
      fun words => havoids _⟩
    rintro K rfl henters
    exact K.carries n henters hbodies

/-- Work that spares what is to be stopped. -/
theorem Guarded.guides (hguarded : L.Guarded stops) (hspares : w.Spares stops n host s) :
    L.Guides Task.assigns w n host s where
  universal := hguarded.universal
  forbids := hguarded.forbids
  bodies := hguarded.bodies
  admits := hguarded.admits
  stopped := ⟨fun words => evaluatorUnless stops (throw (.cancelled words)) n,
    fun K hK henters => K.carries_unless hguarded (fun h => hK ▸ h) henters n, fun _ => hspares _⟩

namespace Guides

/-- The work ends in accordance with the law. -/
theorem after (hguides : L.Guides d w n host s) (hs : L.Inv s.store)
    (hw : ∀ v ∈ w.values, L.Good s.store v) :
    L.Inv ((w.eval n).after host s).store ∧
      L.le anyNames s.store ((w.eval n).after host s).store := by
  obtain ⟨run, hrun, hsame⟩ := hguides.stopped
  let K := L.stopping d hguides.forbids
  have hrun := hrun K rfl fun _ _ _ _ => trivial
  have hout := ((K.work hrun hguides.universal hguides.bodies rfl hw) hs trivial).1 host
    (hguides.admits host)
  rw [hsame] at hout
  exact hout.after_eval.symm

/-- What a law says of the states that a piece of work visits: they are in accordance with it, so
are the values of the tasks that they are visited with, and they come before the last one. -/
theorem visits_before (hguides : L.Guides d w n host s) (hs : L.Inv s.store)
    (hw : ∀ v ∈ w.values, L.Good s.store v) (hvisits : w.Visits n host s task t) :
    (L.Inv t.store ∧ L.GoodTask t.store task) ∧
      L.le anyNames t.store ((w.eval n).after host s).store := by
  obtain ⟨run, hrun, hsame⟩ := hguides.stopped
  obtain ⟨instead, hne⟩ := hvisits
  obtain ⟨stopped, hstopped⟩ := exists_words (w.eval n host s)
  let left : Variant := { diverts := task.at t, instead }
  let Q : Store → Prop := fun u => (L.Inv t.store ∧ L.GoodTask t.store task) ∧ L.le anyNames t.store u
  have hQ : ∀ {B s u}, L.le B s u → Q s → Q u := fun hle h => ⟨h.1, L.le_trans h.2 (le_any hle)⟩
  have hdiverts : ∀ {task'} {s : State}, L.Inv s.store → L.GoodTask s.store task' →
      left.diverts task' s = true → Q s.store := by
    intro task' s hs htask hdivert
    obtain ⟨rfl, rfl⟩ := Task.eq_of_at hdivert
    exact ⟨⟨hs, htask⟩, L.le_refl⟩
  let K := L.departing d hguides.forbids left stopped Q hQ hdiverts (fun _ _ _ => rfl) fun _ => rfl
  have hrun := hrun K rfl fun _ _ _ _ => trivial
  have hsound := K.work hrun hguides.universal hguides.bodies rfl hw
  exact (departs hguides.forbids hQ hdiverts (fun _ _ _ => rfl) (fun _ => rfl) hsound hs (hsame _)
    hstopped (hguides.admits host)).resolve_left hne

/-- They also come after the first one. -/
theorem visits (hguides : L.Guides d w n host s) (hsince : (L.since s.store).Guides d w n host s)
    (hs : L.Inv s.store) (hw : ∀ v ∈ w.values, L.Good s.store v) (hvisits : w.Visits n host s task t) :
    (L.Inv t.store ∧ L.GoodTask t.store task) ∧ L.le anyNames s.store t.store ∧
      L.le anyNames t.store ((w.eval n).after host s).store := by
  obtain ⟨ht, hle⟩ := hguides.visits_before hs hw hvisits
  have hs₀ : (L.since s.store).Inv s.store := ⟨⟨hs.keeps, L.le_refl⟩,
    fun v hv => good_since.2 (hs.cells v hv), fun v hv => (hs.heap v hv).imp_left good_since.2⟩
  have ht₀ := (hsince.visits_before hs₀ (fun v hv => good_since.2 (hw v hv)) hvisits).1.1
  exact ⟨ht, ht₀.keeps.2, hle⟩

end Guides

namespace Guarded

/-- A piece of work that spares what is to be stopped is done in accordance with the law. -/
theorem after (hguarded : L.Guarded stops) (hs : L.Inv s.store) (hw : ∀ v ∈ w.values, L.Good s.store v)
    (hspares : w.Spares stops n host s) :
    L.Inv ((w.eval n).after host s).store ∧
      L.le anyNames s.store ((w.eval n).after host s).store :=
  (hguarded.guides hspares).after hs hw

theorem since (hguarded : L.Guarded stops) (s₀ : Store) : (L.since s₀).Guarded stops where
  universal := hguarded.universal
  forbids := hguarded.forbids
  allows := fun {s v place} h hstops => by
    have hallows := hguarded.allows h.1 hstops
    cases place with
    | name => exact hallows
    | _ => trivial
  bodies := hguarded.bodies
  admits := hguarded.admits

/-- So are the states that it visits, between the first one and the last one. -/
theorem visits (hguarded : L.Guarded stops) (hs : L.Inv s.store)
    (hw : ∀ v ∈ w.values, L.Good s.store v) (hspares : w.Spares stops n host s)
    (hvisits : w.Visits n host s task t) :
    (L.Inv t.store ∧ L.GoodTask t.store task) ∧ L.le anyNames s.store t.store ∧
      L.le anyNames t.store ((w.eval n).after host s).store :=
  (hguarded.guides hspares).visits ((hguarded.since s.store).guides hspares) hs hw hvisits

end Guarded

end

end Law

end ScriptLang
