import ScriptLang.Proofs.Eval.Frame

/-!
# Runs that are cut off

A host can cancel a run after a number of writes, or refuse all writes after that number. Either way a
run is the undisturbed run up to a point and ends there: nothing catches the failure and goes on. A run
that is cancelled notices it at the next statement or iteration, so it ends with the failure of a
cancelled run or has come to its end before; a run whose writes are refused ends at the first write that
is.
-/

namespace ScriptLang

open Eval

namespace Law

/-- A run that is cancelled after `m` writes, and the same run without a limit. -/
def cancelling (m : Nat) : frame.Pairing where
  hosts := fun h h' _ => h'.cancelAfter = none ∧ h = { h' with cancelAfter := some m }
  parts := fun l r => (∃ what, l.failure = some (.cancelled what)) ∧
    l.writes.toList <+: r.writes.toList
  parts_step := by
    rintro l r l' r' ⟨⟨what, hl⟩, hw⟩ hstays hfailed hgoes
    obtain rfl := hstays (by rw [hl]; exact nofun)
    refine ⟨⟨what, hl⟩, ?_⟩
    by_cases hr : r.failure = none
    · exact hw.trans (hgoes hr).2
    · exact hfailed hr ▸ hw
  parts_located := by
    refine fun span => ⟨?_, id⟩
    rintro ⟨⟨what, hl⟩, hw⟩
    cases hl
    exact ⟨⟨what, rfl⟩, hw⟩
  parts_caught := ⟨fun ⟨⟨_, hl⟩, _⟩ => (nomatch hl), id⟩
  hosts_alike := by
    rintro h h' w ⟨-, rfl⟩
    exact ⟨rfl, rfl, rfl⟩
  write := by
    rintro h h' w ⟨hnone, rfl⟩
    exact .inl ⟨rfl, fun _ _ => ⟨hnone, rfl⟩⟩
  cancel := by
    rintro h h' w ⟨hnone, rfl⟩
    have hright : h'.cancels w = false := by
      unfold Host.cancels
      rw [hnone]
      rfl
    cases hleft : Host.cancels { h' with cancelAfter := some m } w with
    | false => exact .inl hright.symm
    | true => exact .inr ⟨rfl, hright, fun _ what => ⟨⟨what, rfl⟩, List.prefix_rfl⟩⟩

/-- A run whose writes are refused after the first `m`, and the same run without a limit. -/
def refusing (m : Nat) : frame.Pairing where
  hosts := fun h h' w => h'.failAfter = none ∧ h = { h' with failAfter := some m } ∧ w.size ≤ m
  parts := fun l r => (∃ f : Fault, l.failure = some (.fault f) ∧ f.code = .transfer) ∧
    l.writes.toList <+: r.writes.toList ∧ l.writes.size = m ∧ m < r.writes.size
  parts_step := by
    rintro l r l' r' ⟨⟨f, hl, hf⟩, hw, hm, hlt⟩ hstays hfailed hgoes
    obtain rfl := hstays (by rw [hl]; exact nofun)
    refine ⟨⟨f, hl, hf⟩, ?_⟩
    by_cases hr : r.failure = none
    · have hw' := (hgoes hr).2
      exact ⟨hw.trans hw', hm, Nat.lt_of_lt_of_le hlt hw'.length_le⟩
    · exact hfailed hr ▸ ⟨hw, hm, hlt⟩
  parts_located := by
    refine fun span => ⟨?_, id⟩
    rintro ⟨⟨f, hl, hf⟩, hw⟩
    cases hl
    exact ⟨⟨f.located span, rfl, hf⟩, hw⟩
  parts_caught := ⟨fun ⟨⟨_, hl, _⟩, _⟩ => (nomatch hl), id⟩
  hosts_alike := by
    rintro h h' w ⟨-, rfl, -⟩
    exact ⟨rfl, rfl, rfl⟩
  write := by
    rintro h h' w ⟨hnone, rfl, hw⟩
    have hright : h'.refuses w = false := by
      unfold Host.refuses
      rw [hnone]
      rfl
    have hleft : Host.refuses { h' with failAfter := some m } w = decide (m ≤ w.size) := rfl
    by_cases hm : m ≤ w.size
    · refine .inr ⟨hleft.trans (decide_eq_true hm), hright, fun _ t f hf => ?_⟩
      refine ⟨⟨f, rfl, hf⟩, ?_, Nat.le_antisymm hw hm, ?_⟩
      · exact ⟨[t], by simp⟩
      · rw [Array.size_push]
        exact Nat.lt_succ_of_le hm
    · refine .inl ⟨(hleft.trans (decide_eq_false hm)).trans hright.symm, fun _ t => ⟨hnone, rfl, ?_⟩⟩
      rw [Array.size_push]
      exact Nat.lt_of_not_le hm
  cancel := by
    rintro h h' w ⟨-, rfl, -⟩
    exact .inl rfl

end Law

namespace Interpreter

variable {i j : Interpreter} {b : Block}

/-- The interpreter without limits on runs. -/
def undisturbed (i : Interpreter) : Interpreter :=
  { i with host := { i.host with cancelAfter := none, failAfter := none } }

/-- The interpreter whose next run is cancelled after `n` writes. -/
def cancelledAfter (i : Interpreter) (n : Nat) : Interpreter :=
  { i with host := { i.undisturbed.host with cancelAfter := some (i.state.writes.size + n) } }

/-- The interpreter whose next run has its writes refused after the first `n`. -/
def refusedAfter (i : Interpreter) (n : Nat) : Interpreter :=
  { i with host := { i.undisturbed.host with failAfter := some (i.state.writes.size + n) } }

theorem writes_run : (i.run b).2.state.writes = (Ending.of (Eval.program b i.host i.state)).writes := by
  unfold run perform reporting
  cases Eval.program b i.host i.state with
  | ok v t => rfl
  | error e t =>
    dsimp only
    split <;> rfl

theorem run_of_failure {e : Failure}
    (h : (Ending.of (Eval.program b i.host i.state)).failure = some e) : (i.run b).1 = .error e := by
  unfold run perform
  cases hr : Eval.program b i.host i.state with
  | ok v t =>
    rw [hr] at h
    cases h
  | error e' t =>
    rw [hr] at h
    cases h
    rfl

theorem run_congr (hecho : i.host.echo = j.host.echo)
    (h : Eval.program b i.host i.state = Eval.program b j.host j.state) :
    (i.run b).1 = (j.run b).1 ∧ (i.run b).2.state = (j.run b).2.state := by
  unfold run perform reporting
  rw [h]
  cases Eval.program b j.host j.state with
  | ok v t => exact ⟨rfl, rfl⟩
  | error e t =>
    dsimp only
    rw [hecho]
    exact ⟨rfl, by split <;> rfl⟩

/-- Two runs of a program compared under the law of what evaluation binds. -/
theorem agree_run (K : Law.frame.Pairing) (hleft : K.left = {}) (hstops : K.stops = fun _ _ => false)
    (h h' : Host) {s : State} (hh : K.hosts h h' s.writes)
    (hstands : K.stands s.importing := by exact trivial)
    (henters : K.Enters := by exact fun _ _ _ _ => trivial) :
    K.Agree h h' (Eval.program b h s) (Eval.program b h' s) := by
  have hfits : Law.frame.Fits s.store (.run b) :=
    Law.universal_frame.fits fun v _ => Law.good_frame s.store v
  have hsound := (K.request hfits henters trivial (Law.inv_frame _) hstands).2 h h' hh
  rwa [K.evalWith_right hstops, hleft, Request.evalWith, Eval.programWith_usual] at hsound

theorem run_cancelledAfter (i : Interpreter) (b : Block) (n : Nat) :
    ((i.cancelledAfter n).run b).2.state.writes.toList <+:
        (i.undisturbed.run b).2.state.writes.toList ∧
      ((∃ what, ((i.cancelledAfter n).run b).1 = .error (.cancelled what)) ∨
        (((i.cancelledAfter n).run b).1 = (i.undisturbed.run b).1 ∧
          ((i.cancelledAfter n).run b).2.state = (i.undisturbed.run b).2.state)) := by
  rcases agree_run (b := b) (s := i.state) (Law.cancelling (i.state.writes.size + n)) rfl rfl
    (i.cancelledAfter n).host i.undisturbed.host ⟨rfl, rfl⟩ with
    ⟨hsame, -⟩ | ⟨⟨what, hfailed⟩, hwrites⟩
  · have hrun := run_congr (i := i.cancelledAfter n) (j := i.undisturbed) rfl hsame
    exact ⟨hrun.2 ▸ List.prefix_rfl, .inr hrun⟩
  · rw [writes_run, writes_run]
    exact ⟨hwrites, .inl ⟨what, run_of_failure hfailed⟩⟩

theorem run_refusedAfter (i : Interpreter) (b : Block) (n : Nat) :
    if i.state.writes.size + n < (i.undisturbed.run b).2.state.writes.size then
      ((i.refusedAfter n).run b).2.state.writes.toList =
          (i.undisturbed.run b).2.state.writes.toList.take (i.state.writes.size + n) ∧
        ∃ f, ((i.refusedAfter n).run b).1 = .error (.fault f) ∧ f.code = .transfer
    else
      ((i.refusedAfter n).run b).1 = (i.undisturbed.run b).1 ∧
        ((i.refusedAfter n).run b).2.state = (i.undisturbed.run b).2.state := by
  rcases agree_run (b := b) (s := i.state) (Law.refusing (i.state.writes.size + n)) rfl rfl
    (i.refusedAfter n).host i.undisturbed.host ⟨rfl, rfl, Nat.le_add_right _ _⟩ with
    ⟨hsame, -, -, hsize⟩ | ⟨⟨f, hfailed, hf⟩, hwrites, hsize, hlt⟩
  · rw [if_neg (by rw [writes_run]; exact Nat.not_lt.2 hsize)]
    exact run_congr (i := i.refusedAfter n) (j := i.undisturbed) rfl hsame
  · rw [if_pos (by rw [writes_run]; exact hlt), writes_run, writes_run]
    refine ⟨?_, f, run_of_failure hfailed, hf⟩
    rw [← hsize]
    exact List.prefix_iff_eq_take.1 hwrites

/-- Runs stop cleanly. A run that is cancelled after `n` writes has made a part of the writes of the
undisturbed run; it fails because it was cancelled, or else it is that run. A run whose writes are
refused after the first `n` has made just these and fails for it, if the undisturbed run makes more, or
else it is that run. -/
theorem run_stops_cleanly (i : Interpreter) (b : Block) (n : Nat) :
    (((i.cancelledAfter n).run b).2.state.writes.toList <+:
        (i.undisturbed.run b).2.state.writes.toList ∧
      ((∃ what, ((i.cancelledAfter n).run b).1 = .error (.cancelled what)) ∨
        (((i.cancelledAfter n).run b).1 = (i.undisturbed.run b).1 ∧
          ((i.cancelledAfter n).run b).2.state = (i.undisturbed.run b).2.state))) ∧
    if i.state.writes.size + n < (i.undisturbed.run b).2.state.writes.size then
      ((i.refusedAfter n).run b).2.state.writes.toList =
          (i.undisturbed.run b).2.state.writes.toList.take (i.state.writes.size + n) ∧
        ∃ f, ((i.refusedAfter n).run b).1 = .error (.fault f) ∧ f.code = .transfer
    else
      ((i.refusedAfter n).run b).1 = (i.undisturbed.run b).1 ∧
        ((i.refusedAfter n).run b).2.state = (i.undisturbed.run b).2.state :=
  ⟨run_cancelledAfter i b n, run_refusedAfter i b n⟩

end Interpreter

end ScriptLang
