import ScriptLang.Proofs.Eval.ComparedRuns
import ScriptLang.Settings

/-!
# Interpreters side by side

Two interpreters that a comparison relates are related for as long as they live. Asked to run the same
program, or for the text of the same value, they end in the same way, unless the first one gets to a task
at which the comparison stops it (`Interpreter.Twins.request`), and so they do when they are given a program
text (`Settings.twins_run`). What is known of a single interpreter, above all of the spans of the code that
it holds, is what is known of it and itself.
-/

namespace ScriptLang

open Eval

namespace Comparison

/-- A comparison with another word for runs that were stopped. -/
def saying (C : Comparison) (word : Text) : Comparison := { C with word }

/-- A comparison of whole interpreters. -/
structure Whole (C : Comparison) : Prop where
  /-- There was nothing before. -/
  origin : C.origin = {}
  /-- No array was put aside. -/
  aside : C.aside = none
  /-- Hosts are related to themselves. -/
  hosts_self (h : Host) : C.hosts h h
  /-- Hosts are related as well when they cancel nothing. -/
  hosts_going {h h' : Host} : C.hosts h h' →
    C.hosts { h with cancelAfter := none } { h' with cancelAfter := none }
  /-- Kept files on the left are related to themselves. -/
  kept_self {parsed parsed' : KeptFiles} : C.kept parsed parsed' → C.kept parsed parsed
  /-- Kept files are related that are both related to others. -/
  kept_both {parsed parsed' parsed'' : KeptFiles} : C.kept parsed parsed' → C.kept parsed parsed'' →
    C.kept parsed' parsed''

theorem Whole.owns {C : Comparison} (h : C.Whole) (scope : ScopeId) : C.Owns scope := by
  unfold Compartment.Owns
  rw [h.origin]
  exact Nat.zero_le _

end Comparison

/-- Two interpreters whose hosts and states a comparison relates. -/
structure Interpreter.Twins (C : Comparison) (i j : Interpreter) : Prop where
  whole : C.Whole
  hosts : C.hosts i.host j.host
  echo : j.host.echo = i.host.echo
  like : i.state.Like C.kept j.state
  within : C.Sealed i.state.store

theorem Request.eval_stringify (v : Value) (host : Host) (s : State) :
    (Request.stringify v).eval host s = match evaluate.stringify v host s with
      | .ok text t => .ok (.text text) t
      | .error e t => .error e t := by
  show (evaluate.stringify v >>= fun text => pure (Value.text text)) host s = _
  rw [bind_apply]
  cases evaluate.stringify v host s <;> rfl

namespace Interpreter.Twins

variable {C : Comparison} {i j : Interpreter}

/-- The answer to a request is the same. -/
theorem request (h : i.Twins C j) {r : Request} {host host' : Host} (hhosts : C.hosts host host')
    (hfits : C.Fits i.state.store r) (hbypasses : r.Bypasses C.diverts host i.state) :
    ∃ t t', Twins C { i with state := t } { j with state := t' } ∧
      ((∃ v, r.eval host i.state = .ok v t ∧ r.eval host' j.state = .ok v t' ∧ C.Good t.store v) ∨
        ∃ e, r.eval host i.state = .error e t ∧ r.eval host' j.state = .error e t' ∧
          e.Within C.spans) := by
  obtain ⟨word, hword⟩ := hbypasses
  obtain ⟨parsed, log, heq, hkept⟩ := h.like
  have hself : i.state.Like (C.saying word).kept i.state :=
    ⟨i.state.parsed, i.state.log, rfl, h.whole.kept_self hkept⟩
  -- both runs are compared with the first one as it is when it is stopped at the tasks
  obtain ⟨u, t, ⟨q, l, rfl, hq⟩, hu, hends⟩ :=
    (C.saying word).ends_alike hfits h.within (h.whole.hosts_self host) hself hword
  obtain ⟨u', t', ⟨q', l', rfl, hq'⟩, -, hends'⟩ :=
    (C.saying word).ends_alike hfits h.within hhosts h.like hword
  have twins (hq' : C.kept u.parsed q') : Twins C { i with state := { u with parsed := q, log := l } }
      { j with state := { u with parsed := q', log := l' } } :=
    ⟨h.whole, h.hosts, h.echo, ⟨q', l', rfl, h.whole.kept_both hq hq'⟩, hu⟩
  rcases hends with ⟨v, hx, hi, hv⟩ | ⟨e, hx, hi, he⟩ <;>
    rcases hends' with ⟨v', hx', hj, -⟩ | ⟨e', hx', hj, -⟩ <;> cases hx.symm.trans hx'
  · exact ⟨_, _, twins hq', .inl ⟨v, hi, hj, hv⟩⟩
  · exact ⟨_, _, twins hq', .inr ⟨e, hi, hj, he⟩⟩

/-- A note leaves interpreters twins. -/
theorem noted (h : i.Twins C j) (message : Text) (details : List (Text × LogValue)) :
    Twins C (i.perform (note message details)).2 (j.perform (note message details)).2 := by
  unfold Interpreter.perform
  rw [Comparison.Sound.note_eq, Comparison.Sound.note_eq]
  refine ⟨h.whole, h.hosts, h.echo, Comparison.Sound.like_noted _ _ _ h.like, ?_⟩
  rw [Comparison.Sound.store_noted]
  exact h.within

theorem reporting (h : i.Twins C j) (e : Failure) : Twins C (i.reporting e) (j.reporting e) := by
  unfold Interpreter.reporting
  rw [h.echo]
  split
  · obtain ⟨parsed, log, heq, hkept⟩ := h.like
    rw [heq]
    exact ⟨h.whole, h.hosts, h.echo, ⟨parsed, log, rfl, hkept⟩, h.within⟩
  · exact h

/-- A program ends with the same value, or with the same failure at one of the spans. -/
theorem run (h : i.Twins C j) {b : Block} (hb : Spans.Within C.spans (Spans.block b))
    (hbypasses : (Request.run b).Bypasses C.diverts i.host i.state) :
    (j.run b).1 = (i.run b).1 ∧ Twins C (i.run b).2 (j.run b).2 ∧
      match (i.run b).1 with
      | .ok v => C.Good (i.run b).2.state.store v
      | .error e => e.Within C.spans := by
  obtain ⟨t, t', htwins, hends⟩ := h.request (r := .run b) h.hosts ⟨hb, h.whole.owns _⟩ hbypasses
  unfold Interpreter.run Interpreter.perform
  rcases hends with ⟨v, hi, hj, hv⟩ | ⟨e, hi, hj, he⟩
  · rw [show Eval.program b i.host i.state = .ok v t from hi,
      show Eval.program b j.host j.state = .ok v t' from hj]
    exact ⟨rfl, htwins, hv⟩
  · rw [show Eval.program b i.host i.state = .error e t from hi,
      show Eval.program b j.host j.state = .error e t' from hj]
    exact ⟨rfl, htwins.reporting e, he⟩

/-- A value has the same text. -/
theorem stringify (h : i.Twins C j) {v : Value} (hv : C.Good i.state.store v)
    (hbypasses : (Request.stringify v).Bypasses C.diverts { i.host with cancelAfter := none } i.state) :
    (j.stringify v).1 = (i.stringify v).1 ∧ Twins C (i.stringify v).2 (j.stringify v).2 := by
  obtain ⟨t, t', htwins, hends⟩ :=
    h.request (r := .stringify v) (h.whole.hosts_going h.hosts) hv hbypasses
  simp only [Request.eval_stringify] at hends
  unfold Interpreter.stringify Interpreter.perform
  dsimp only
  generalize evaluate.stringify v { i.host with cancelAfter := none } i.state = x at hends ⊢
  generalize evaluate.stringify v { j.host with cancelAfter := none } j.state = y at hends ⊢
  rcases hends with ⟨w, hi, hj, -⟩ | ⟨e, hi, hj, -⟩ <;> cases x <;> cases y <;> cases hi <;> cases hj <;>
    exact ⟨rfl, htwins⟩

end Interpreter.Twins

/-! ### Runs of program texts -/

/-- The interpreter in which a program is run that was accepted. -/
def Settings.begun (settings : Settings) (files : Files) (file : Text) (b : Block) : Interpreter :=
  ((settings.interpreter files (settings.dirFor file)).perform
    (note "running program" [("file", .text file), ("statements", .int b.body.length)])).2

/-- How the run of a program ends, with a note in the log if it failed. -/
def Settings.ended (file : Text) :
    Except Failure Value × Interpreter → Except RunError Value × Interpreter
  | (.ok v, i) => (.ok v, i)
  | (.error .crash, i) => (.error (.failed .crash), i)
  | (.error e, i) =>
    (.error (.failed e),
      (i.perform (note "program failed" [("file", .text file), ("err", .text e.message)])).2)

theorem Settings.run_eq (settings : Settings) (files : Files) {source file : Text} {b : Block}
    (h : Program.accept source file = .ok b) :
    settings.run files source file = ended file ((settings.begun files file b).run b) := by
  unfold Settings.run runProgram begun
  rw [h]
  dsimp only
  generalize Interpreter.run _ b = x
  obtain ⟨result, i⟩ := x
  cases result with
  | ok v => rfl
  | error e => cases e <;> rfl

/-- New interpreters are twins. -/
theorem Interpreter.twins_new {C : Comparison} (hwhole : C.Whole) {host host' : Host}
    (hhosts : C.hosts host host') (hecho : host'.echo = host.echo) (hkept : C.kept [] [])
    (files : Files) (dir : Text) (clock : Nat) :
    (Interpreter.new host files dir clock).Twins C (Interpreter.new host' files dir clock) where
  whole := hwhole
  hosts := hhosts
  echo := hecho
  like := ⟨[], #[], rfl, hkept⟩
  within := by
    have hempty : C.Sealed {} := by
      have horigin := Compartment.sealed_origin (C := C.toCompartment) hwhole.aside
      rwa [hwhole.origin] at horigin
    exact hempty.newScope (by rintro _ ⟨⟩)

/-- A program text has the same outcome. -/
theorem Settings.twins_run {settings other : Settings} {C : Comparison} {files : Files}
    {source file : Text}
    (hnew : (settings.interpreter files (settings.dirFor file)).Twins C
      (other.interpreter files (other.dirFor file)))
    (hsource : ∀ b, Program.accept source file = .ok b → Spans.Within C.spans (Spans.block b))
    (hbypasses : ∀ b, Program.accept source file = .ok b → (Request.run b).Bypasses C.diverts
      (settings.begun files file b).host (settings.begun files file b).state) :
    (other.run files source file).1 = (settings.run files source file).1 ∧
      (settings.run files source file).2.Twins C (other.run files source file).2 ∧
      match (settings.run files source file).1 with
      | .ok v => C.Good (settings.run files source file).2.state.store v
      | .error (.failed e) => e.Within C.spans
      | .error (.rejected ds) => Program.accept source file = .error ds := by
  cases haccept : Program.accept source file with
  | error ds =>
    unfold Settings.run
    rw [haccept]
    exact ⟨rfl, hnew, rfl⟩
  | ok b =>
    have hbegun : (settings.begun files file b).Twins C (other.begun files file b) := hnew.noted _ _
    obtain ⟨hresult, htwins, hends⟩ := hbegun.run (hsource b haccept) (hbypasses b haccept)
    rw [Settings.run_eq _ _ haccept, Settings.run_eq _ _ haccept]
    generalize (settings.begun files file b).run b = x at hresult htwins hends ⊢
    generalize (other.begun files file b).run b = y at hresult htwins ⊢
    obtain ⟨result, i⟩ := x
    obtain ⟨result', j⟩ := y
    cases hresult
    cases result with
    | ok v => exact ⟨rfl, htwins, hends⟩
    | error e =>
      cases e with
      | crash => exact ⟨rfl, htwins, hends⟩
      | _ => exact ⟨rfl, htwins.noted _ _, hends⟩

end ScriptLang
