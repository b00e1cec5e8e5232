import ScriptLang.Proofs.Eval.Twins

/-!
# Files kept after parsing

An interpreter keeps some of the programs that it imported, and how many is a setting. Which imports find
a program that was kept differs with it, at every import inside of another one and after every failure.
As long as the files that are imported stay as they are, nothing but the log can tell: every program that
is kept is the one that reading and parsing its file would give again (`Files.Keeps`), so an import ends
in the same way whether or not it finds one (`Files.loadFile_eq`). Two runs with different settings are
compared import by import (`Settings.run_cacheSize`).
-/

namespace ScriptLang

open Eval

namespace Files

/-- Whether a file can be read with the same content, or cannot be read for the same reason. -/
def sameFile (files files' : Files) (file : Text) : Bool :=
  match files.read file, files'.read file with
  | .ok source, .ok source' => source == source'
  | .error e, .error e' => e == e'
  | _, _ => false

/-- Every program that is kept is that of its file. -/
def Keeps (files : Files) (parsed : KeptFiles) : Prop :=
  ∀ entry ∈ parsed, files.program entry.1 = .ok entry.2

variable {files files' : Files} {parsed : KeptFiles} {file : Text} {b : Block} {host : Host}
  {s : State}

theorem read_eq (h : files.sameFile files' file = true) : files.read file = files'.read file := by
  unfold sameFile at h
  split at h
  · next hread hread' => rw [hread, hread', beq_iff_eq.1 h]
  · next hread hread' => rw [hread, hread', beq_iff_eq.1 h]
  · cases h

theorem program_eq (h : files.sameFile files' file = true) :
    files.program file = files'.program file := by
  unfold program
  rw [read_eq h]

theorem keeps_nil : files.Keeps [] := fun _ h => absurd h List.not_mem_nil

/-- What is found is the program of the file. -/
theorem Keeps.found (h : files.Keeps parsed) (hkept : parsed.lookup file = some b) :
    files.program file = .ok b := by
  obtain ⟨entry, hentry, rfl, rfl⟩ := (KeptFiles.laws 0).found hkept
  exact h entry hentry

theorem Keeps.touch (h : files.Keeps parsed) (file : Text) : files.Keeps (parsed.touch file) :=
  fun entry hentry => h entry ((KeptFiles.laws 0).touched parsed file hentry)

theorem Keeps.add (h : files.Keeps parsed) (hb : files.program file = .ok b) (size : Nat) :
    files.Keeps (parsed.add size file b) := by
  intro entry hentry
  rcases (KeptFiles.laws size).added hentry with hold | ⟨rfl, rfl | ⟨rfl, -⟩⟩
  · exact h entry hold
  · exact hb
  · exact hb

/-- An import of a file that is as it was gives its program, whether or not that was kept, or fails. What
is kept then is right again. -/
theorem loadFile_eq (host : Host) (hkeeps : files.Keeps s.parsed)
    (hsame : files.sameFile s.files file = true) :
    match files.program file with
    | .ok b => ∃ parsed log, files.Keeps parsed ∧
        loadFile file host s = .ok b { s with parsed, log }
    | .error f => loadFile file host s = .error (.fault f) s := by
  cases hkept : s.parsed.lookup file with
  | some b =>
    obtain ⟨log, hlog⟩ := loadFile_kept host hkept
    rw [hkeeps.found hkept]
    exact ⟨_, log, hkeeps.touch file, hlog⟩
  | none =>
    rw [loadFile_new host hkept, ← program_eq hsame]
    cases hprogram : files.program file with
    | ok b => exact ⟨_, s.log, hkeeps.add hprogram _, rfl⟩
    | error f => rfl

end Files

/-- Whether a task is to import from a file that is not as it is in certain files. -/
def Task.importsChanged (files : Files) : Task → State → Bool
  | .stmt (.importing _ _ _ path) _, s =>
    (s.importTarget? path).any fun file => !files.sameFile s.files file
  | _, _ => false

namespace Comparison

/-- Runs that keep programs of certain files, until a file is imported that is not as it was. -/
def caching (files : Files) : Comparison where
  hosts := Host.Agrees
  kept parsed parsed' := files.Keeps parsed ∧ files.Keeps parsed'
  diverts := Task.importsChanged files
  agrees := id
  loads := by
    rintro span name wildcard path scope file h h' s _ - ⟨parsed, log, rfl, hkeeps, hkeeps'⟩
      hunchanged hfile
    have hsame : files.sameFile s.files file = true := by
      have h : (s.importTarget? path).any (fun file => !files.sameFile s.files file) = false :=
        hunchanged
      rw [hfile] at h
      simpa using h
    have hload := Files.loadFile_eq h hkeeps hsame
    have hload' := Files.loadFile_eq (s := { s with parsed, log }) h' hkeeps' hsame
    cases hprogram : files.program file with
    | ok b =>
      rw [hprogram] at hload hload'
      obtain ⟨q, l, hp, hload⟩ := hload
      obtain ⟨q', l', hp', hload'⟩ := hload'
      rw [hload, hload']
      exact .ok ⟨hp, hp'⟩ (Spans.within_true _)
    | error f =>
      rw [hprogram] at hload hload'
      rw [hload, hload']
      exact .error (Files.unplaced_program hprogram)

theorem whole_caching (files : Files) : (caching files).Whole where
  origin := rfl
  aside := rfl
  hosts_self := .refl
  hosts_going h := ⟨h.policy, rfl, h.failAfter⟩
  kept_self h := ⟨h.1, h.1⟩
  kept_both h h' := ⟨h.2, h'.2⟩

end Comparison

/-- Two states that differ in nothing but the log and the files kept after parsing. -/
def State.LikeButKept (s s' : State) : Prop := s.Like (fun _ _ => True) s'

theorem Interpreter.Twins.likeButKept {C : Comparison} {i j : Interpreter} (h : i.Twins C j) :
    i.state.LikeButKept j.state := by
  obtain ⟨parsed, log, heq, -⟩ := h.like
  exact ⟨parsed, log, heq, trivial⟩

/-- The number of programs that are kept makes no difference but to the log, as long as no file is
imported that is not as it was: a program text is rejected with the same diagnostics, fails with the same
failure, or ends with the same value, which has the same text; and everything but the log is the same,
above all what was written. -/
theorem Settings.run_cacheSize {settings other : Settings}
    (hother : other = { settings with cacheSize := other.cacheSize }) (files : Files)
    (source file : Text)
    (hrun : ∀ b, Program.accept source file = .ok b → (Request.run b).Bypasses
      (Task.importsChanged files) (settings.begun files file b).host
      (settings.begun files file b).state)
    (hshown : ∀ v, (settings.run files source file).1 = .ok v → (Request.stringify v).Bypasses
      (Task.importsChanged files)
      { (settings.run files source file).2.host with cancelAfter := none }
      (settings.run files source file).2.state) :
    (other.run files source file).1 = (settings.run files source file).1 ∧
      (settings.run files source file).2.state.LikeButKept (other.run files source file).2.state ∧
      ∀ v, (settings.run files source file).1 = .ok v →
        ((other.run files source file).2.stringify v).1 =
            ((settings.run files source file).2.stringify v).1 ∧
          ((settings.run files source file).2.stringify v).2.state.LikeButKept
            ((other.run files source file).2.stringify v).2.state := by
  have hnew : (settings.interpreter files (settings.dirFor file)).Twins (Comparison.caching files)
      (other.interpreter files (other.dirFor file)) := by
    rw [hother]
    refine Interpreter.twins_new (Comparison.whole_caching files) ?_ ?_
      ⟨Files.keeps_nil, Files.keeps_nil⟩ files _ _
    · exact ⟨rfl, rfl, rfl⟩
    · rfl
  obtain ⟨hresult, htwins, hends⟩ := Settings.twins_run hnew (fun _ _ => Spans.within_true _) hrun
  refine ⟨hresult, htwins.likeButKept, fun v hv => ?_⟩
  rw [hv] at hends
  obtain ⟨htext, htwins⟩ := htwins.stringify hends (hshown v hv)
  exact ⟨htext, htwins.likeButKept⟩

/-- Two files that declare a variable each. -/
def twoFiles : Files :=
  { root := .dir [("a.em", .file "let x = \"one\";"), ("b.em", .file "let y = \"two\";")] }

/-- A program that imports the first file, the second one and then the first one again. -/
def importsAgain : Text :=
  "import x from \"a.em\"; import y from \"b.em\"; \x7b import x from \"a.em\"; println(x); \x7d y;"

/-- Settings under which the default number of files is kept. -/
def keepsMany : Settings := {}

/-- Settings under which one file is kept. -/
def keepsOne : Settings := { keepsMany with cacheSize := 1 }

/-- The file that is imported again is found if more than one is kept, and is read again otherwise. -/
theorem importsAgain_run_cacheSize :
    (keepsOne.run twoFiles importsAgain []).1 =
        (keepsMany.run twoFiles importsAgain []).1 ∧
      (keepsMany.run twoFiles importsAgain []).2.state.LikeButKept
        (keepsOne.run twoFiles importsAgain []).2.state ∧
      ∀ v, (keepsMany.run twoFiles importsAgain []).1 = .ok v →
        ((keepsOne.run twoFiles importsAgain []).2.stringify v).1 =
            ((keepsMany.run twoFiles importsAgain []).2.stringify v).1 ∧
          ((keepsMany.run twoFiles importsAgain []).2.stringify v).2.state.LikeButKept
            ((keepsOne.run twoFiles importsAgain []).2.stringify v).2.state := by
  have hrun : (Program.accept importsAgain []).toOption.all (fun b => (Request.run b).bypasses
      (Task.importsChanged twoFiles) (keepsMany.begun twoFiles [] b).host
      (keepsMany.begun twoFiles [] b).state) = true := by decide +kernel
  have hshown : (keepsMany.run twoFiles importsAgain []).1.toOption.all (fun v =>
      (Request.stringify v).bypasses (Task.importsChanged twoFiles)
        { (keepsMany.run twoFiles importsAgain []).2.host with cancelAfter := none }
        (keepsMany.run twoFiles importsAgain []).2.state) = true := by decide +kernel
  refine Settings.run_cacheSize rfl twoFiles importsAgain []
    (fun b hb => Request.bypasses_of_bypasses ?_) fun v hv => Request.bypasses_of_bypasses ?_
  · rw [hb] at hrun
    exact hrun
  · rw [hv] at hshown
    exact hshown

end ScriptLang
