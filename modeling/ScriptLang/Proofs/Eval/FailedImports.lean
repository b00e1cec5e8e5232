import Mathlib
import ScriptLang.Proofs.Eval.ComparedRuns

/-!
# Imports that fail

The declarations of an imported file are carried out in a scope of their own, from which nothing of the
importer can be reached. So when one of them fails, or anything else before, the importer is as it was.
Only then what is imported is bound in the scope of the importer, one name after another. An import of all
names that meets one that is bound there already fails in the middle of this, and leaves the names before
that one behind, as constants; no other import that fails leaves anything (`failed_import`).
-/

namespace ScriptLang

open Eval

/-- A store that has all of another one as it was, apart from what a scope binds besides. -/
structure Store.AddsTo (scope : ScopeId) (new : List Binding) (s t : Store) : Prop where
  cells : Extends s.cells t.cells fun _ => True
  size_le : s.scopes.size ≤ t.scopes.size
  others : ∀ id < s.scopes.size, id ≠ scope → t.scope id = s.scope id
  values : (t.scope scope).values =
    (new.map fun b => (b.name, b.cell)) ++ (s.scope scope).values
  marks : ∀ n, (t.scope scope).marks n =
    ((new.any fun b => decide (b.name = n) && b.constant) || (s.scope scope).marks n)
  parent : (t.scope scope).parent = (s.scope scope).parent
  blocks : Extends s.blocks t.blocks fun _ => True
  arrays : Extends s.arrays t.arrays fun _ => True
  objects : Extends s.objects t.objects fun _ => True
  collections : Extends s.collections t.collections fun _ => True

namespace Store.AddsTo

variable {scope : ScopeId} {new more : List Binding} {s t u : Store} {name : Text} {v : Value}

theorem refl (scope : ScopeId) (s : Store) : s.AddsTo scope [] s where
  cells := .refl _ _
  size_le := Nat.le_refl _
  others _ _ _ := rfl
  values := rfl
  marks _ := rfl
  parent := rfl
  blocks := .refl _ _
  arrays := .refl _ _
  objects := .refl _ _
  collections := .refl _ _

theorem trans (h : s.AddsTo scope new t) (h' : t.AddsTo scope more u) :
    s.AddsTo scope (more ++ new) u where
  cells := h.cells.trans h'.cells
  size_le := Nat.le_trans h.size_le h'.size_le
  others id hid hne :=
    (h'.others id (Nat.lt_of_lt_of_le hid h.size_le) hne).trans (h.others id hid hne)
  values := by rw [h'.values, h.values, List.map_append, List.append_assoc]
  marks n := by rw [h'.marks, h.marks, List.any_append, Bool.or_assoc]
  parent := h'.parent.trans h.parent
  blocks := h.blocks.trans h'.blocks
  arrays := h.arrays.trans h'.arrays
  objects := h.objects.trans h'.objects
  collections := h.collections.trans h'.collections

/-- A name is bound. -/
theorem bind {constant : Bool} (hid : scope < s.scopes.size) (hname : name ≠ discard)
    (h : s.bind scope name v constant = .ok t) :
    s.AddsTo scope [⟨name, s.cells.size, constant⟩] t := by
  rcases Store.bind_eq_ok h with ⟨hd, -⟩ | ⟨-, -, rfl⟩
  · exact absurd hd hname
  · exact
      { cells := .push (.refl _ _) trivial
        size_le := Nat.le_of_eq size_bound.symm
        others := fun id _ hne => by rw [scope_bound, if_neg fun h => hne h.1]
        values := by
          rw [scope_bound, if_pos ⟨rfl, hid⟩, Scope.values_bindAs]
          rfl
        marks := fun n => by
          rw [scope_bound, if_pos ⟨rfl, hid⟩, Scope.marks_bindAs]
          simp [eq_comm]
        parent := by rw [scope_bound, if_pos ⟨rfl, hid⟩, Scope.parent_bindAs]
        blocks := .refl _ _
        arrays := .refl _ _
        objects := .refl _ _
        collections := .refl _ _ }

/-- Code that cannot get at a store leaves it as it was. -/
theorem of_sealed {C : Compartment} (hid : scope < C.origin.scopes.size) (h : C.Sealed t) :
    C.origin.AddsTo scope [] t where
  cells := h.cells.mono fun _ _ => trivial
  size_le := h.scopes.size_le
  others _ hid _ := h.scopes.getD_kept hid
  values := congrArg Scope.values (h.scopes.getD_kept hid)
  marks n := congrArg (Scope.marks · n) (h.scopes.getD_kept hid)
  parent := congrArg Scope.parent (h.scopes.getD_kept hid)
  blocks := h.blocks.mono fun _ _ => trivial
  arrays := h.arrays.mono fun _ _ => trivial
  objects := h.objects.mono fun _ _ => trivial
  collections := h.collections.mono fun _ _ => trivial

/-- The new names are bound besides the old ones. -/
theorem hasLocal_iff (h : s.AddsTo scope new t) :
    t.hasLocal scope name = true ↔
      name ∈ new.map Binding.name ∨ s.hasLocal scope name = true := by
  unfold Store.hasLocal
  rw [Scope.binds_iff_mem, Scope.binds_iff_mem, h.values, List.map_append, List.map_map, List.mem_append]
  exact Iff.rfl

end Store.AddsTo

/-! ### Binding what is imported -/

/-- How an import of names ends that meets one of them bound: the names before it are bound as
constants. -/
structure StoppedAt (scope : ScopeId) (names before : List Text) (bound : Text) (new : List Binding)
    (s t : Store) : Prop where
  reached : before ++ [bound] <+: names
  taken : s.hasLocal scope bound = true
  adds : s.AddsTo scope new t
  named : new.map Binding.name = before.reverse
  constant : ∀ b ∈ new, b.constant = true
  unbound : ∀ n ∈ before, s.hasLocal scope n = false

/-- What the store was before does not matter as long as it was only added to. -/
theorem StoppedAt.since {scope inner : ScopeId} {before : List Text} {bound : Text}
    {new : List Binding} {origin s t : Store}
    (h : StoppedAt scope (s.names inner) before bound new s t) (hs : origin.AddsTo scope [] s)
    (hne : inner ≠ scope) (hlocal : ∀ n ∈ s.names inner, s.hasLocal inner n = true) :
    StoppedAt scope (t.names inner) before bound new origin t where
  reached := by
    obtain ⟨b, hb⟩ := Scope.exists_find? (hlocal bound (h.reached.subset (by simp)))
    unfold Store.names
    rw [h.adds.others inner (Store.lt_of_find? hb) hne]
    exact h.reached
  taken := (hs.hasLocal_iff.1 h.taken).resolve_left List.not_mem_nil
  adds := by
    have hadds := hs.trans h.adds
    rwa [List.append_nil] at hadds
  named := h.named
  constant := h.constant
  unbound n hn := by
    have hunbound := h.unbound n hn
    rw [← Bool.not_eq_true] at hunbound ⊢
    exact fun hlocal => hunbound (hs.hasLocal_iff.2 (.inr hlocal))

namespace Eval

variable {source target : ScopeId} {host : Host} {s t : State} {e : Failure}

/-- The fault of a name that is bound already. -/
def boundTwice (name : Text) : Fault :=
  { code := .duplicateIdentifier, message := (NameFault.declaredTwice name).message }

/-- A name that a scope binds is bound as a constant of another one, unless that binds it already. -/
theorem importName_cases {name : Text} (htarget : target < s.store.scopes.size)
    (hlocal : s.store.hasLocal source name = true) (hname : name ≠ discard) (host : Host) :
    (s.store.hasLocal target name = true ∧
      importName source target name host s = .error (.fault (boundTwice name)) s) ∨
    (s.store.hasLocal target name = false ∧
      ∃ t, s.store.AddsTo target [⟨name, s.store.cells.size, true⟩] t ∧
        importName source target name host s = .ok () { s with store := t }) := by
  obtain ⟨b, hb⟩ := Scope.exists_find? hlocal
  have hlookup : lookup source name host s = .ok (s.store.read b.cell) s := by
    unfold lookup
    show Eval.named (s.store.lookup source name) host s = _
    rw [Store.lookup_of_resolve hname (Store.resolve_of_find? hb)]
    rfl
  have himport : importName source target name host s =
      tryScope (fun st => st.bind target name (s.store.read b.cell) true) host s := by
    unfold importName
    rw [bind_apply, hlookup]
    exact define_constant htarget host
  rw [himport]
  unfold tryScope
  dsimp only
  cases hbind : s.store.bind target name (s.store.read b.cell) true with
  | error e =>
    obtain ⟨-, hbound, rfl⟩ := Store.bind_eq_error hbind
    exact .inl ⟨hbound, rfl⟩
  | ok t =>
    rcases Store.bind_eq_ok hbind with ⟨hd, -⟩ | ⟨-, hnew, -⟩
    · exact absurd hd hname
    · exact .inr ⟨hnew, t, .bind htarget hname hbind, rfl⟩

/-- Bind names of one scope as constants of another. -/
def importNames (source target : ScopeId) (names : List Text) : Eval Unit := do
  for n in names do importName source target n

theorem importNames_cons (n : Text) (names : List Text) :
    importNames source target (n :: names) =
      (do importName source target n; importNames source target names) := by
  simp [importNames]

/-- Names that a scope binds are bound as constants of another one, up to one that is bound there
already. -/
theorem importNames_error {names : List Text} (hne : source ≠ target)
    (htarget : target < s.store.scopes.size)
    (hlocal : ∀ n ∈ names, s.store.hasLocal source n = true ∧ n ≠ discard) (hnodup : names.Nodup)
    (h : importNames source target names host s = .error e t) :
    ∃ before bound new, StoppedAt target names before bound new s.store t.store ∧
      e = .fault (boundTwice bound) := by
  induction names generalizing s with
  | nil => cases h
  | cons n names ih =>
    obtain ⟨⟨hn, hd⟩, hrest⟩ := List.forall_mem_cons.1 hlocal
    obtain ⟨hfresh, hnodup⟩ := List.nodup_cons.1 hnodup
    rw [importNames_cons, bind_apply] at h
    rcases importName_cases htarget hn hd host with ⟨htaken, heq⟩ | ⟨hnew, u, hadds, heq⟩
    · rw [heq] at h
      cases h
      exact ⟨[], n, [], ⟨⟨names, rfl⟩, htaken, .refl _ _, rfl, nofun, nofun⟩, rfl⟩
    · rw [heq] at h
      have hlocal' : ∀ m ∈ names, u.hasLocal source m = true ∧ m ≠ discard := by
        obtain ⟨b, hb⟩ := Scope.exists_find? hn
        unfold Store.hasLocal
        rw [hadds.others source (Store.lt_of_find? hb) hne]
        exact hrest
      obtain ⟨before, bound, new, hstop, rfl⟩ := ih (Nat.lt_of_lt_of_le htarget hadds.size_le)
        hlocal' hnodup h
      refine ⟨n :: before, bound, new ++ [⟨n, s.store.cells.size, true⟩], ⟨?_, ?_, ?_, ?_, ?_, ?_⟩,
        rfl⟩
      · exact List.cons_prefix_cons.2 ⟨rfl, hstop.reached⟩
      · -- it is not the name that was bound just now
        have hmem : bound ∈ names := hstop.reached.subset (by simp)
        refine ((hadds.hasLocal_iff.1 hstop.taken).resolve_left fun h => ?_)
        obtain rfl := List.mem_singleton.1 h
        exact hfresh hmem
      · exact hadds.trans hstop.adds
      · rw [List.map_append, hstop.named, List.reverse_cons]
        rfl
      · intro b hb
        rcases List.mem_append.1 hb with hb | hb
        · exact hstop.constant b hb
        · rw [List.mem_singleton.1 hb]
      · refine List.forall_mem_cons.2 ⟨hnew, fun m hm => ?_⟩
        rw [← Bool.not_eq_true]
        intro hbound
        have hbefore := hstop.unbound m hm
        rw [hadds.hasLocal_iff.2 (.inr hbound)] at hbefore
        cases hbefore

end Eval

/-! ### Code apart from a store -/

namespace Comparison

/-- Runs of code that has nothing of a store. -/
def apart (origin : Store) : Comparison :=
  .single { origin } (fun _ _ => false) [] fun _ _ _ _ => Spans.within_true _

theorem apart_carries (origin : Store) (n : Nat) :
    (apart origin).Carries (evaluator n) (evaluator n) :=
  alone_carries { origin } (fun _ => trivial) n

/-- However an evaluation ends that keeps apart from a store, that is as it was. -/
theorem Sound.ends_apart {α : Type} {origin : Store} {s : State} {x : Eval α}
    {Q : Store → α → Prop} (h : (apart origin).Sound s x x Q) (hs : (apart origin).Sealed s.store)
    (host : Host) : (apart origin).Sealed (x.after host s).store :=
  have h : (Comparison.alone { origin } fun _ => trivial).Sound s x x Q := h
  h.alone_after hs host

end Comparison

/-- Bind what is imported from the scope of a file. -/
def Eval.publish (name : Text) (wildcard : Bool) (path : Text) (inner scope : ScopeId) : Eval Unit := do
  if wildcard then
    for n in (← store).names inner do importName inner scope n
  else if (← store).hasLocal inner name then importName inner scope name
  else fail .undefinedIdentifier ("'" ++ name ++ "' is not declared in " ++ path)

theorem Runner.takeFrom_eq (run : Runner) (name : Text) (wildcard : Bool) (path : Text)
    (scope : ScopeId) (b : Block) :
    run.takeFrom name wildcard path scope b = (do
      let inner ← change fun s => s.newScope none
      run.declarations inner (if wildcard then none else some name) b.body
      publish name wildcard path inner scope) :=
  rfl

/-- What remains of an import that failed: nothing, or some names of a file if all were to be
imported. -/
def Store.Leaves (scope : ScopeId) (wildcard : Bool) (path : Text) (s t : Store) (e : Failure) : Prop :=
  s.AddsTo scope [] t ∨
    wildcard = true ∧ path ≠ [] ∧ ∃ inner before bound new, s.scopes.size ≤ inner ∧
      StoppedAt scope (t.names inner) before bound new s t ∧ e = .fault (boundTwice bound)

section

variable {n : Nat} {name path : Text} {wildcard : Bool} {scope inner : ScopeId} {host : Host}
  {s t : State} {origin : Store} {e : Failure}

theorem Eval.publish_error (hpath : path ≠ []) (hs : (Comparison.apart origin).Sealed s.store)
    (hinner : origin.scopes.size ≤ inner) (hscope : scope < origin.scopes.size)
    (h : publish name wildcard path inner scope host s = .error e t) :
    origin.Leaves scope wildcard path t.store e := by
  have hne : inner ≠ scope := Nat.ne_of_gt (Nat.lt_of_lt_of_le hscope hinner)
  have hkept : origin.AddsTo scope [] s.store := .of_sealed (C := { origin }) hscope hs
  have hlocal : ∀ m, s.store.hasLocal inner m = true → m ≠ discard := by
    intro m hm
    obtain ⟨b, hb, rfl⟩ := List.mem_map.1 (Scope.binds_iff_mem.1 hm)
    exact (hs.scope hinner).bound b hb
  have htarget : scope < s.store.scopes.size := Nat.lt_of_lt_of_le hscope hkept.size_le
  cases wildcard with
  | true =>
    have h : importNames inner scope (s.store.names inner) host s = .error e t := h
    have hmem : ∀ m ∈ s.store.names inner, s.store.hasLocal inner m = true := fun m hm =>
      Scope.binds_iff_mem.2 (List.mem_mergeSort.1 hm)
    have hnodup : (s.store.names inner).Nodup :=
      (List.mergeSort_perm _ _).nodup_iff.2 (hs.scope hinner).once
    obtain ⟨before, bound, new, hstop, rfl⟩ := importNames_error hne htarget
      (fun m hm => ⟨hmem m hm, hlocal m (hmem m hm)⟩) hnodup h
    exact .inr ⟨rfl, hpath, inner, before, bound, new, hinner, hstop.since hkept hne hmem, rfl⟩
  | false =>
    have h : (if s.store.hasLocal inner name then importName inner scope name
        else fail .undefinedIdentifier ("'" ++ name ++ "' is not declared in " ++ path) : Eval Unit)
          host s = .error e t := h
    split at h
    · next hn =>
      rcases importName_cases htarget hn (hlocal name hn) host with ⟨-, heq⟩ | ⟨-, u, -, heq⟩
      · rw [heq] at h
        cases h
        exact .inl hkept
      · rw [heq] at h
        cases h
    · cases h
      exact .inl hkept

theorem Runner.takeFrom_error {b : Block} (hpath : path ≠ []) (hscope : scope < s.store.scopes.size)
    (h : (evaluator n).takeFrom name wildcard path scope b host s = .error e t) :
    s.store.Leaves scope wildcard path t.store e := by
  rw [Runner.takeFrom_eq] at h
  let C := Comparison.apart s.store
  let started : State := { s with store := (s.store.newScope none).2 }
  have hnew : C.Sealed started.store :=
    (Compartment.sealed_origin rfl).newScope fun _ hp => nomatch hp
  have hsound : C.Sound started
      ((evaluator n).declarations s.store.scopes.size (if wildcard then none else some name) b.body)
      ((evaluator n).declarations s.store.scopes.size (if wildcard then none else some name) b.body)
      fun _ _ => True :=
    .declarations (Comparison.apart_carries s.store n) _ (fun _ _ => Spans.within_true _)
      (Nat.le_refl _)
  have hdecls := hsound.ends_apart hnew host
  have h : (do
      (evaluator n).declarations s.store.scopes.size (if wildcard then none else some name) b.body
      publish name wildcard path s.store.scopes.size scope : Eval Unit) host started =
        .error e t := h
  rw [bind_apply] at h
  unfold Eval.after at hdecls
  generalize (evaluator n).declarations _ _ _ host started = r at h hdecls
  cases r with
  | error e' u =>
    cases h
    exact .inl (.of_sealed (C := { origin := s.store }) hscope hdecls)
  | ok _ u => exact publish_error hpath hdecls (Nat.le_refl _) hscope h

theorem Eval.loadFile_store (file : Text) (host : Host) (s : State) :
    ((loadFile file).after host s).store = s.store := by
  have hmoved := (still_loadFile file host s).1
  unfold Eval.after
  cases hload : loadFile file host s <;>
    · rw [hload] at hmoved
      exact hmoved.1.store

theorem Runner.enterFile_error {file : Text} (hpath : path ≠ []) (hscope : scope < s.store.scopes.size)
    (h : (evaluator n).enterFile name wildcard path scope file host s = .error e t) :
    s.store.Leaves scope wildcard path t.store e := by
  have hstore := loadFile_store file host s
  unfold Eval.after at hstore
  unfold Runner.enterFile at h
  rw [bind_apply] at h
  generalize loadFile file host s = r at h hstore
  cases r with
  | error e' u =>
    cases h
    exact .inl (hstore ▸ .refl _ _)
  | ok b u =>
    dsimp only at h hstore
    rw [bind_apply, Comparison.Sound.note_eq] at h
    dsimp only at h
    unfold Eval.duringImport at h
    generalize hv : Law.Pairing.Sound.noted _ host u = v at h
    have hsame : v.store = s.store := by rw [← hv, Comparison.Sound.store_noted, hstore]
    split at h
    · cases h
    · next hinside =>
      cases h
      have hleaves := takeFrom_error hpath (by exact hsame.symm ▸ hscope) hinside
      exact hsame ▸ hleaves

theorem Runner.importFile_error (hpath : path ≠ []) (hscope : scope < s.store.scopes.size)
    (h : (evaluator n).importFile name wildcard path scope host s = .error e t) :
    s.store.Leaves scope wildcard path t.store e := by
  rw [Runner.importFile_eq, bind_apply] at h
  rcases resolveImport_cases path s with ⟨file, -, hresolve⟩ | ⟨f, -, hresolve⟩
  · rw [hresolve] at h
    have h : (if s.importing.contains file then
        failWithHint .importCycle ("import cycle through " ++ path)
          "move the shared declarations into a file both can import"
      else (evaluator n).enterFile name wildcard path scope file) host s = .error e t := h
    split at h
    · cases h
      exact .inl (.refl _ _)
    · exact enterFile_error hpath hscope h
  · rw [hresolve] at h
    cases h
    exact .inl (.refl _ _)

theorem Eval.importModule_error (hscope : scope < s.store.scopes.size)
    (h : importModule name scope host s = .error e t) : s.store.AddsTo scope [] t.store := by
  unfold importModule at h
  cases hm : Module.ofName? name with
  | none =>
    rw [hm] at h
    cases h
    exact .refl _ _
  | some m =>
    rw [hm] at h
    have h : (if !host.policy.allows name then
        failWithHint .moduleDenied
          ("module '" ++ name ++ "' is not allowed by the module policy")
          "add it to [modules] allow in ember.toml"
      else do
        note "import module" [("module", .text name)]
        declareConstant scope name (← m.load) : Eval Unit) host s = .error e t := h
    split at h
    · cases h
      exact .refl _ _
    · rw [bind_apply, Comparison.Sound.note_eq] at h
      dsimp only at h
      generalize hv : Law.Pairing.Sound.noted _ host s = v at h
      have hsame : v.store = s.store := by rw [← hv, Comparison.Sound.store_noted]
      have hload := (Comparison.Sound.loadModule (C := Comparison.apart s.store) (s := v)
        m).ends_apart (hsame ▸ Compartment.sealed_origin rfl) host
      unfold Eval.after at hload
      rw [bind_apply] at h
      generalize m.load host v = r at h hload
      cases r with
      | error e' u =>
        cases h
        exact .of_sealed (C := { origin := s.store }) hscope hload
      | ok w u =>
        dsimp only at h hload
        rw [declareConstant_eq] at h
        unfold tryScope at h
        dsimp only at h
        split at h
        · cases h
        · cases h
          exact .of_sealed (C := { origin := s.store }) hscope hload

theorem Runner.importInto_error (hscope : scope < s.store.scopes.size)
    (h : (evaluator n).importInto name wildcard path scope host s = .error e t) :
    s.store.Leaves scope wildcard path t.store e := by
  unfold Runner.importInto at h
  split at h
  · exact .inl (importModule_error hscope h)
  · next hpath => exact importFile_error (fun h => hpath (List.isEmpty_iff.2 h)) hscope h

/-- An import that fails leaves the scope of the importer as it was, and everything else that was there.
The only exception is an import of all names of a file that stops at a name which is bound already: the
names of the file before that one remain, as constants that were not bound before. -/
theorem failed_import {span : Span} (hscope : scope < s.store.scopes.size)
    (h : (evaluator n).stmt (.importing span name wildcard path) scope host s = .error e t) :
    s.store.AddsTo scope [] t.store ∨
      wildcard = true ∧ path ≠ [] ∧ ∃ inner before bound new, s.store.scopes.size ≤ inner ∧
        StoppedAt scope (t.store.names inner) before bound new s.store t.store ∧
        e = .fault { boundTwice bound with span := some span } := by
  cases n with
  | zero =>
    cases h
    exact .inl (.refl _ _)
  | succ n =>
    have h : located span (do
        (evaluator n).importInto name wildcard path scope
        return Value.nil) host s = .error e t := h
    unfold located at h
    rw [bind_apply] at h
    generalize hr : (evaluator n).importInto name wildcard path scope host s = r at h
    cases r with
    | ok _ u => cases h
    | error e' u =>
      cases h
      rcases Runner.importInto_error hscope hr with hkept | ⟨hw, hpath, inner, before, bound, new,
        hinner, hstop, rfl⟩
      · exact .inl hkept
      · exact .inr ⟨hw, hpath, inner, before, bound, new, hinner, hstop, rfl⟩

end

/-- A state in which a file was kept that declares two names, and the second one is bound. -/
def secondTaken : State :=
  { (Interpreter.new {} {} [] 0).state with
    store := { scopes := #[{ values := [("b", 0)] }], cells := #[.nil] }
    parsed := [("/lib.em", ⟨{}, [.declare {} "a" false none none, .declare {} "b" false none none]⟩)] }

set_option maxRecDepth 100000 in
/-- An import of both names stops at the second one, and leaves the first one. -/
theorem secondTaken_import :
    (match (evaluator 2).stmt (.importing {} [] true "/lib.em") globalScope {} secondTaken with
      | .error _ t => (t.store.scope globalScope).values.map Prod.fst == [("a" : Text), "b"]
      | _ => false) = true := by
  cbv

/-- The import of two names of which the second one is bound. -/
theorem secondTaken_failed_import :
    ∃ e t, (evaluator 2).stmt (.importing {} [] true "/lib.em") globalScope {} secondTaken =
        .error e t ∧
      (secondTaken.store.AddsTo globalScope [] t.store ∨
        ∃ inner before bound new, secondTaken.store.scopes.size ≤ inner ∧
          StoppedAt globalScope (t.store.names inner) before bound new secondTaken.store t.store ∧
          e = .fault { boundTwice bound with span := some {} }) := by
  have hfails := secondTaken_import
  cases hr : (evaluator 2).stmt (.importing {} [] true "/lib.em") globalScope {} secondTaken with
  | ok v t =>
    rw [hr] at hfails
    cases hfails
  | error e t => exact ⟨e, t, rfl, (failed_import (by decide) hr).imp_right fun h => h.2.2⟩

/-- Not every import that fails leaves the scope of the importer as it was: of a file that declares two
names, of which the second one is bound already, the first one remains. -/
theorem import_leaves_name :
    ¬∀ {n : Nat} {span : Span} {name : Text} {wildcard : Bool} {path : Text} {scope : ScopeId}
      {host : Host} {s t : State} {e : Failure}, scope < s.store.scopes.size →
      (evaluator n).stmt (.importing span name wildcard path) scope host s = .error e t →
      (t.store.scope scope).values = (s.store.scope scope).values := by
  intro h
  have hfails := secondTaken_import
  cases hr : (evaluator 2).stmt (.importing {} [] true "/lib.em") globalScope {} secondTaken with
  | ok v t =>
    rw [hr] at hfails
    cases hfails
  | error e t =>
    rw [hr] at hfails
    dsimp only at hfails
    rw [h (by decide) hr] at hfails
    cases hfails

end ScriptLang
