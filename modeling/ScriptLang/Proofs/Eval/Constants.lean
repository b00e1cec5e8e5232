import ScriptLang.Proofs.Eval.Runs

/-!
# Constants stay

A constant keeps its binding and its value for good, in every run in which no reference to the variable
of a constant is taken: assignments, steps and deletions refuse constants, a cell belongs to one binding
at most, and all other references are to cells that belong to no constant. A reference to a constant
makes it possible to write to it, because a write through a reference does not ask to whom the cell
belongs (`constant_written_through_reference`).
-/

namespace ScriptLang

open Eval

/-- Whether a value is a reference. -/
def Value.isReference : Value → Bool
  | reference .. => true
  | _ => false

/-- Whether a task is to take a reference to the cell of a constant. -/
def Task.refersConstant : Task → State → Bool
  | .expr (.call _ (.ident _ f) [.ident _ name]) scope, s =>
    match Builtin.global? f, s.store.resolve scope name with
    | some .ref, some (_, b) => b.constant && !(s.store.read b.cell).isReference
    | _, _ => false
  | _, _ => false

namespace Store

variable {s t u : Store} {id owner scope : ScopeId} {name : Text} {v : Value} {b : Binding} {c : CellId}

/-- Stores in which every binding has a cell of its own. -/
structure Separate (s : Store) : Prop where
  /-- The cells of bindings are there. -/
  cells : ∀ {id name b}, (s.scope id).find? name = some b → b.cell < s.cells.size
  /-- Different bindings have different cells. -/
  apart : ∀ {id id' name name' b b'}, (s.scope id).find? name = some b →
    (s.scope id').find? name' = some b' → b.cell = b'.cell → b = b'

/-- Whether all constants are still there in a later store, with the same values, and new constants are
in new cells. -/
structure KeepsConstants (s t : Store) : Prop where
  /-- Cells stay. -/
  cells : s.cells.size ≤ t.cells.size
  /-- Constants stay. -/
  kept : ∀ {id name b}, (s.scope id).find? name = some b → b.constant = true →
    (t.scope id).find? name = some b ∧ t.read b.cell = s.read b.cell
  /-- Constants that are gained are in cells of their own. -/
  gained : ∀ {id name b}, (t.scope id).find? name = some b → b.constant = true →
    (s.scope id).find? name = some b ∨ s.cells.size ≤ b.cell

/-- Whether a cell belongs to no constant. -/
def Writable (s : Store) (c : CellId) : Prop :=
  c < s.cells.size ∧ ∀ {id name b}, (s.scope id).find? name = some b → b.constant = true → b.cell ≠ c

/-! ### Cells of their own -/

namespace Separate

/-- Separation is not lost when bindings go or cells come. -/
theorem mono (h : s.Separate) (hc : s.cells.size ≤ t.cells.size)
    (hs : ∀ {id name b}, (t.scope id).find? name = some b → (s.scope id).find? name = some b) :
    t.Separate :=
  ⟨fun hb => Nat.lt_of_lt_of_le (h.cells (hs hb)) hc, fun hb hb' => h.apart (hs hb) (hs hb')⟩

theorem bound {constant : Bool} (h : s.Separate) (hnew : (s.scope scope).binds name = false) :
    (s.bound scope name v constant).Separate := by
  refine ⟨fun hb => ?_, fun hb hb' hcell => ?_⟩
  · rw [cells_bound, Array.size_push]
    rcases (find?_bound hnew).1 hb with ⟨-, -, -, rfl⟩ | hb
    · exact Nat.lt_succ_self _
    · exact Nat.lt_succ_of_lt (h.cells hb)
  · rcases (find?_bound hnew).1 hb with ⟨-, -, -, rfl⟩ | hb <;>
      rcases (find?_bound hnew).1 hb' with ⟨-, -, -, rfl⟩ | hb'
    · rfl
    · exact absurd (h.cells hb') (Nat.not_lt.2 (Nat.le_of_eq hcell))
    · exact absurd (h.cells hb) (Nat.not_lt.2 (Nat.le_of_eq hcell.symm))
    · exact h.apart hb hb' hcell

/-- The cell of a binding that is not a constant belongs to no constant. -/
theorem writable (h : s.Separate) (hb : (s.scope id).find? name = some b) (hv : b.constant = false) :
    s.Writable b.cell := by
  refine ⟨h.cells hb, fun {id' name' b'} hb' hc' hcell => ?_⟩
  obtain rfl := h.apart hb' hb hcell
  rw [hv] at hc'
  cases hc'

end Separate

/-! ### Constants -/

namespace KeepsConstants

theorem refl : KeepsConstants s s := ⟨Nat.le_refl _, fun h _ => ⟨h, rfl⟩, fun h _ => .inl h⟩

theorem trans (hst : KeepsConstants s t) (htu : KeepsConstants t u) : KeepsConstants s u where
  cells := Nat.le_trans hst.cells htu.cells
  kept := fun hb hc =>
    have ht := hst.kept hb hc
    have hu := htu.kept ht.1 hc
    ⟨hu.1, hu.2.trans ht.2⟩
  gained := fun hb hc => by
    rcases htu.gained hb hc with hb | hle
    · exact hst.gained hb hc
    · exact .inr (Nat.le_trans hst.cells hle)

theorem of_cells (hc : t.cells = s.cells) (hs : t.scopes = s.scopes) : KeepsConstants s t := by
  refine ⟨Nat.le_of_eq (congrArg Array.size hc).symm, fun hb _ => ⟨?_, ?_⟩, fun hb _ => .inl ?_⟩
  · rwa [scope_of_scopes hs]
  · unfold read
    rw [hc]
  · rwa [scope_of_scopes hs] at hb

theorem newCell (h : s.Separate) (v : Value) : KeepsConstants s (s.newCell v).2 :=
  ⟨by simp [Store.newCell], fun hb _ => ⟨hb, read_newCell (h.cells hb)⟩, fun hb _ => .inl hb⟩

theorem newScope (parent : Option ScopeId) : KeepsConstants s (s.newScope parent).2 :=
  ⟨Nat.le_refl _, fun hb _ => ⟨find?_newScope_of parent hb, rfl⟩, fun hb _ => .inl (find?_newScope hb)⟩

theorem write (h : s.Separate) (hc : s.Writable c) : KeepsConstants s (s.write c v) := by
  refine ⟨Nat.le_of_eq size_write.symm, fun hb hconst => ⟨hb, ?_⟩, fun hb _ => .inl hb⟩
  rw [read_write (h.cells hb)]
  exact if_neg fun hcb => hc.2 hb hconst hcb.symm

theorem bound {constant : Bool} (h : s.Separate) (hnew : (s.scope scope).binds name = false) :
    KeepsConstants s (s.bound scope name v constant) := by
  refine ⟨?_, fun hb _ => ⟨(find?_bound hnew).2 (.inr hb), read_newCell (h.cells hb)⟩, fun hb _ => ?_⟩
  · exact (newCell h v).cells
  · rcases (find?_bound hnew).1 hb with ⟨-, -, -, rfl⟩ | hb
    · exact .inr (Nat.le_refl _)
    · exact .inl hb

theorem without (hb : (s.scope owner).find? name = some b) (hv : b.constant = false) :
    KeepsConstants s (s.without owner name) := by
  refine ⟨Nat.le_refl _, fun hb' hc' => ⟨find?_without.2 ⟨?_, hb'⟩, rfl⟩, fun hb' _ =>
    .inl (find?_without.1 hb').2⟩
  rintro ⟨rfl, rfl⟩
  rw [hb] at hb'
  cases hb'
  rw [hv] at hc'
  cases hc'

/-- A name evaluates to the same value as long as it means the same constant. -/
theorem lookup_eq (h : KeepsConstants s t) {scope scope' : ScopeId} (hd : name ≠ discard)
    (hs : s.resolve scope name = some (owner, b)) (hc : b.constant = true)
    (ht : t.resolve scope' name = some (owner, b)) : t.lookup scope' name = s.lookup scope name := by
  rw [lookup_of_resolve hd hs, lookup_of_resolve hd ht, (h.kept (find?_of_resolve hs) hc).2]

end KeepsConstants

theorem Writable.mono (hst : KeepsConstants s t) (h : s.Writable c) : t.Writable c := by
  refine ⟨Nat.lt_of_lt_of_le h.1 hst.cells, fun {id name b} hb hc => ?_⟩
  rcases hst.gained hb hc with hb | hle
  · exact h.2 hb hc
  · exact Nat.ne_of_gt (Nat.lt_of_lt_of_le h.1 hle)

end Store

namespace Law

/-- The law of constants. -/
def constant : Law where
  toPrograms := .all
  le := fun _ => Store.KeepsConstants
  keeps := Store.Separate
  cell := Store.Writable
  forbids := fun task s => task.refersConstant s = true
  le_refl := .refl
  le_trans := .trans
  le_mono := fun _ h => h
  le_fresh := fun hst _ htu => hst.trans htu
  heap := fun hc hs _ => ⟨.of_cells hc hs, fun h =>
    h.mono (Nat.le_of_eq (congrArg Array.size hc).symm) fun hb => by
      rwa [Store.scope_of_scopes hs] at hb⟩
  cell_mono := Store.Writable.mono
  newCell := fun v h _ => ⟨.newCell h v, h.mono (Store.KeepsConstants.newCell h v).cells id,
    by simp [Store.newCell], fun hb _ => Nat.ne_of_lt (h.cells hb)⟩
  write := by
    intro s c v h hc _ _ _
    have hw : s.Writable c := by
      rcases hc with hc | ⟨owner, name, b, hb, hv, rfl⟩
      · exact hc
      · exact h.writable hb hv
    exact ⟨.write h hw, h.mono (Nat.le_of_eq Store.size_write.symm) id⟩
  newScope := fun parent h => ⟨.newScope parent, h.mono (Nat.le_refl _) Store.find?_newScope, trivial⟩
  bind := by
    intro s t scope names name v constant h _ _ _ ht
    rcases Store.bind_eq_ok ht with ⟨-, rfl⟩ | ⟨-, hnew, rfl⟩
    · exact ⟨.refl, h, trivial⟩
    · exact ⟨.bound h hnew, h.bound hnew, trivial⟩
  remove := fun h hr hv _ =>
    ⟨.without (Store.find?_of_resolve hr) hv, h.mono (Nat.le_refl _) fun hb' => (Store.find?_without.1 hb').2⟩
  ref := by
    intro s scope name owner b callSpan nameSpan span f h hr hf hallowed hread
    refine h.writable (Store.find?_of_resolve hr) (Bool.eq_false_iff.2 fun hc => hallowed ?_)
    unfold Task.refersConstant
    simp only [hf, hr, hc, Bool.true_and]
    cases hv : s.store.read b.cell with
    | reference id c => exact absurd hv (hread id c)
    | _ => rfl

theorem universal_constant : constant.Universal := rfl

theorem separate_new : Store.Separate { scopes := #[{}] } := by
  have hnone (id : ScopeId) (name : Text) :
      (({ scopes := #[{}] } : Store).scope id).find? name = none := by
    cases id <;> rfl
  refine ⟨fun {id name b} hb => ?_, fun {id _ name _ b _} hb => ?_⟩ <;>
    · rw [hnone] at hb
      cases hb

end Law

/-- Requests that take no reference to the cell of a constant. -/
def refersNoConstant (r : Request) (host : Host) (s : State) : Prop :=
  r.Avoids Task.refersConstant host s

/-- Constants stay. As long as no reference to the cell of a constant is taken, every request leaves all
constants bound, with their values, in the states that it passes and in the one that it ends in. -/
theorem constants_stay {s : State} {vs : List Value} (h : Reached refersNoConstant s vs) {r : Request}
    {host : Host} (hr : r.values ⊆ vs) (havoids : refersNoConstant r host s) :
    s.store.KeepsConstants (r.eval.after host s).store ∧
      ∀ t, r.Passes host s t → s.store.KeepsConstants t.store ∧
        t.store.KeepsConstants (r.eval.after host s).store := by
  have hs := Law.reached (L := Law.constant) (d := Task.refersConstant) Law.universal_constant
    Law.separate_new (fun h => h) (fun h => h) h
  have hfits : Law.constant.Fits s.store r := Law.universal_constant.fits fun v hv => hs.2 v (hr hv)
  exact ⟨(Law.outcome (L := Law.constant) (fun h => h) hfits hs.1 havoids).after_eval.1,
    fun t ht => (Law.passes (L := Law.constant) (fun h => h) hfits hs.1 havoids ht).2⟩

/-- An input that binds a constant `x` and a variable `y`. -/
def bindsBoth : Block :=
  ⟨{}, [.declare {} "x" true none (some (.string {} "a")), .declare {} "y" false none none]⟩

/-- An input that writes to a variable, or a constant, through a reference. -/
def writesThrough (name : Text) : Block :=
  ⟨{}, [.declare {} "r" false none (some (.call {} (.ident {} "ref") [.ident {} name])),
    .expr {} (.assign {} .set (.ident {} "r") (.string {} "b"))]⟩

/-- What the first input leaves. -/
def boundBoth : State where
  store :=
    { cells := #[.text "a", .nil]
      scopes := #[{ values := [("y", 1), ("x", 0)], constants := ["x"] }] }

theorem run_bindsBoth :
    (Request.run bindsBoth).eval {} (Interpreter.new {} {} [] 0).state = .ok .nil boundBoth := rfl

/-- A write to a variable through a reference leaves a constant as it is. -/
theorem variable_written_through_reference :
    Reached refersNoConstant boundBoth [.nil] ∧
      refersNoConstant (.run (writesThrough "y")) {} boundBoth ∧
      boundBoth.store.KeepsConstants
        ((Request.run (writesThrough "y")).eval.after {} boundBoth).store := by
  have hreached : Reached refersNoConstant boundBoth [.nil] :=
    .gives (.run bindsBoth) {} (.new {} {} [] 0) (List.nil_subset _)
      (Request.avoids_of_eq run_bindsBoth fun _ => rfl) run_bindsBoth
  have hrun : (Request.run (writesThrough "y")).eval {} boundBoth = .ok (.text "b")
      { store :=
          { cells := #[.text "a", .text "b", .reference 0 (some 1)]
            scopes := #[{ values := [("r", 2), ("y", 1), ("x", 0)], constants := ["x"] }]
            fresh := 1 } } := rfl
  have havoids : refersNoConstant (.run (writesThrough "y")) {} boundBoth :=
    Request.avoids_of_eq hrun fun _ => rfl
  exact ⟨hreached, havoids, (constants_stay hreached (List.nil_subset _) havoids).1⟩

/-- Not every request leaves constants with their values: a write through a reference to the cell of a
constant replaces its value. -/
theorem constant_written_through_reference : ¬∀ {s : State} {vs : List Value}, Reached anyUse s vs →
    ∀ (r : Request) (host : Host), r.values ⊆ vs →
      s.store.KeepsConstants (r.eval.after host s).store := by
  intro h
  have hreached : Reached anyUse boundBoth [.nil] :=
    .gives (.run bindsBoth) {} (.new {} {} [] 0) (List.nil_subset _) trivial run_bindsBoth
  have hkept := h hreached (.run (writesThrough "x")) {} (List.nil_subset _)
  have hrun : (Request.run (writesThrough "x")).eval {} boundBoth = .ok (.text "b")
      { store :=
          { cells := #[.text "b", .nil, .reference 0 (some 0)]
            scopes := #[{ values := [("r", 2), ("y", 1), ("x", 0)], constants := ["x"] }]
            fresh := 1 } } := rfl
  unfold Eval.after at hkept
  rw [hrun] at hkept
  have hx : (boundBoth.store.scope globalScope).find? "x" = some ⟨"x", 0, true⟩ := rfl
  have hsame : Value.text "b" = Value.text "a" := (hkept.kept hx rfl).2
  exact absurd (Value.text.inj hsame) (by decide)

end ScriptLang
