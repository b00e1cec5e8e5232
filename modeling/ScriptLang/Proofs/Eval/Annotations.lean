import ScriptLang.Proofs.Eval.Frame

/-!
# Annotations stay with their variables

The cell of a variable that was declared with an annotation holds a value with just this annotation for
good, and the value in it conforms to the annotation where that names a type of the language. A cell that
was made without an annotation never holds an annotated value, and neither does any place on the heap.
Declarations and parameters make cells with the annotation that they give, and the variables of a loop
over items have none. A variable has its cell until it is deleted, so what is said of the cell is said of
the variable all the time that there is one.
-/

namespace ScriptLang

open Eval

/-- The annotation of a value. -/
def Value.type? : Value → Option TypeExpr
  | typed _ t => some t
  | _ => none

/-- Whether a value may have an annotation: it is neither annotated nor a reference, and where the
annotation names a type of the language, it is nil or of that type. -/
def Value.Fits (v : Value) (t : TypeExpr) : Prop :=
  v.isRaw = true ∧ ∀ span name type, t = .named span name → BasicType.ofName? name = some type →
    v = .nil ∨ type.holds v = true

/-- Whether a value fits all the annotations on the way to it. -/
def Value.Proper : Value → Prop
  | typed v t => v.Fits t ∧ v.Proper
  | pair a b => a.Proper ∧ b.Proper
  | returnSignal v => v.Proper
  | _ => True

namespace Store

variable {s t u : Store} {scope : ScopeId} {name : Text} {v : Value} {type : Option TypeExpr}

/-- Stores in which annotated values are in cells only, and fit their annotations. -/
structure Annotated (s : Store) : Prop where
  /-- The cells of all variables are there. -/
  bindings : ∀ id, ∀ e ∈ (s.scope id).values, e.2 < s.cells.size
  /-- Values in cells fit their annotations. -/
  cells : ∀ v ∈ s.cells, v.Proper
  /-- Elements of arrays, fields of objects and what is in collections have no annotation. -/
  heap : ∀ v, s.Heap v → v.type? = none ∧ v.Proper

/-- Whether the content of each cell has the same annotation in a later store. -/
structure SameAnnotations (s t : Store) : Prop where
  /-- Cells stay. -/
  cells : s.cells.size ≤ t.cells.size
  /-- Scopes stay. -/
  scopes : s.scopes.size ≤ t.scopes.size
  /-- The annotations are the same. -/
  same : ∀ c < s.cells.size, (t.read c).type? = (s.read c).type?

/-- Whether a scope binds a name to a cell whose content has just this annotation. -/
def Annotates (s : Store) (scope : ScopeId) (name : Text) (type : Option TypeExpr) : Prop :=
  ∃ b, (s.scope scope).find? name = some b ∧ b.cell < s.cells.size ∧
    (s.read b.cell).type? = type

namespace SameAnnotations

theorem refl : SameAnnotations s s := ⟨Nat.le_refl _, Nat.le_refl _, fun _ _ => rfl⟩

theorem trans (hst : SameAnnotations s t) (htu : SameAnnotations t u) : SameAnnotations s u :=
  ⟨Nat.le_trans hst.cells htu.cells, Nat.le_trans hst.scopes htu.scopes, fun c hc =>
    (htu.same c (Nat.lt_of_lt_of_le hc hst.cells)).trans (hst.same c hc)⟩

theorem of_cells (hc : t.cells = s.cells) (hs : s.scopes.size ≤ t.scopes.size) :
    SameAnnotations s t := by
  refine ⟨Nat.le_of_eq (congrArg Array.size hc).symm, hs, fun c _ => ?_⟩
  unfold read
  rw [hc]

theorem newCell (v : Value) : SameAnnotations s (s.newCell v).2 :=
  ⟨by simp [Store.newCell], Nat.le_refl _, fun _ hc => congrArg _ (read_newCell hc)⟩

theorem updateScope (f : Scope → Scope) : SameAnnotations s (s.updateScope scope f) :=
  of_cells rfl (Nat.le_of_eq Array.size_modify.symm)

theorem write {c : CellId} (h : v.Replaces (·.type? = none) (s.read c)) :
    SameAnnotations s (s.write c v) := by
  refine ⟨Nat.le_of_eq size_write.symm, Nat.le_refl _, fun d hd => ?_⟩
  rw [read_write hd]
  split
  · next hcd =>
    subst hcd
    cases hold : s.read c with
    | typed w t =>
      rw [hold] at h
      obtain ⟨u, rfl⟩ := h
      rfl
    | _ =>
      rw [hold] at h
      exact h
  · rfl

theorem bind {constant : Bool} (h : s.bind scope name v constant = .ok t) : SameAnnotations s t := by
  rcases bind_eq_ok h with ⟨-, rfl⟩ | ⟨-, -, rfl⟩
  · exact refl
  · exact (newCell v).trans (updateScope _)

end SameAnnotations

/-- Whether a scope that binds a name still binds it in a later store, to the same cell and with the same
annotation. -/
structure KeepsVariable (s t : Store) (scope : ScopeId) (name : Text) : Prop where
  /-- The binding stays. -/
  bound : s.KeepsName scope name t
  /-- The annotation stays with it, or there is still none. -/
  annotates : ∀ {type}, s.Annotates scope name type → t.Annotates scope name type

theorem KeepsName.variable (h : s.KeepsName scope name t) (hsame : SameAnnotations s t) :
    s.KeepsVariable t scope name where
  bound := h
  annotates := by
    rintro type ⟨b, hb, hcell, htype⟩
    exact ⟨b, h b hb, Nat.lt_of_lt_of_le hcell hsame.cells, (hsame.same _ hcell).trans htype⟩

/-- A binding leaves the others of its scope as they are. -/
theorem Annotates.bind {constant : Bool} {other : Text} (ha : s.Annotates scope name type)
    (h : s.bind scope other v constant = .ok t) : t.Annotates scope name type :=
  ((KeepsName.bind h).variable (.bind h)).annotates ha

end Store

namespace Law

/-- Whether the cells of all variables are there. -/
def HasCells (s : Store) : Prop := ∀ id, ∀ e ∈ (s.scope id).values, e.2 < s.cells.size

theorem HasCells.of_scopes {s t : Store} (h : HasCells s) (hs : t.scopes = s.scopes)
    (hc : s.cells.size ≤ t.cells.size) : HasCells t := by
  intro id b hb
  rw [Store.scope_of_scopes hs] at hb
  exact Nat.lt_of_lt_of_le (h id b hb) hc

theorem HasCells.newScope {s : Store} (h : HasCells s) (parent : Option ScopeId) :
    HasCells (s.newScope parent).2 := by
  intro id b hb
  rw [Store.scope_newScope] at hb
  split at hb
  · exact absurd hb List.not_mem_nil
  · exact h id b hb

theorem HasCells.bound {s : Store} {scope : ScopeId} {name : Text} {v : Value} {constant : Bool}
    (h : HasCells s) : HasCells (s.bound scope name v constant) := by
  intro id e he
  rw [Store.cells_bound, Array.size_push]
  rcases Store.mem_values_bound he with ⟨-, rfl⟩ | he
  · exact Nat.lt_succ_self _
  · exact Nat.lt_succ_of_lt (h id e he)

theorem HasCells.without {s : Store} {owner : ScopeId} {name : Text} (h : HasCells s) :
    HasCells (s.without owner name) :=
  fun id e he => h id e (Store.mem_values_without he)

theorem fits_of_conforms {s : Store} {scope : ScopeId} {t : TypeExpr} {v u : Value}
    (hc : s.conforms? scope t v = some true) (hu : s.raw? v = some u) : u.Fits t := by
  refine ⟨Store.isRaw_of_raw? hu, fun span name type ht hname => ?_⟩
  subst ht
  unfold Store.conforms? at hc
  rw [hu] at hc
  cases u with
  | nil => exact .inl rfl
  | _ =>
    refine .inr ?_
    simpa [Store.conformsNamed?, hname] using hc

/-- The law of annotations. -/
def annotating : Law where
  toPrograms := .all
  le := fun _ => Store.SameAnnotations
  keeps := HasCells
  typed := Value.Fits
  stored := fun v => v.type? = none
  le_refl := .refl
  le_trans := .trans
  le_mono := fun _ h => h
  le_fresh := fun hst _ htu => hst.trans htu
  heap := fun hc hs _ => ⟨.of_cells hc (Nat.le_of_eq (congrArg Array.size hs).symm),
    fun h => h.of_scopes hs (Nat.le_of_eq (congrArg Array.size hc).symm)⟩
  newCell := fun v h _ => ⟨.newCell v, h.of_scopes rfl (Store.SameAnnotations.newCell v).cells, trivial⟩
  write := fun h _ hr _ _ => ⟨.write hr, h.of_scopes rfl (Nat.le_of_eq Store.size_write.symm)⟩
  newScope := fun parent h => ⟨.of_cells rfl (by simp [Store.newScope]), h.newScope parent, trivial⟩
  bind := by
    intro s t scope names name v constant h _ _ _ ht
    refine ⟨.bind ht, ?_, trivial⟩
    rcases Store.bind_eq_ok ht with ⟨-, rfl⟩ | ⟨-, -, rfl⟩
    · exact h
    · exact h.bound
  remove := fun h _ _ _ => ⟨.updateScope _, h.without⟩
  annotate := fun _ hc hu => fits_of_conforms hc hu
  stored_raw := by
    intro v hv
    cases v with
    | typed u t => exact absurd rfl (hv u t)
    | _ => rfl
  stored_inner := by
    rintro v t ⟨hraw, -⟩
    cases v with
    | typed => cases hraw
    | _ => rfl

theorem universal_annotating : annotating.Universal := rfl

theorem good_annotating {s : Store} {v : Value} : annotating.Good s v ↔ v.Proper := by
  have hfunction := universal_annotating.tidyFunction
  have hstruct := universal_annotating.goodStruct
  induction v with
  | object _ type =>
    cases type with
    | none => exact Iff.rfl
    | some t => exact iff_of_true (hstruct t) trivial
  | struct t => exact iff_of_true (hstruct t) trivial
  | function _ f _ => exact iff_of_true (hfunction f) trivial
  | method _ _ t f => exact iff_of_true ⟨hstruct t, hfunction f⟩ trivial
  | reference _ c => cases c <;> exact iff_of_true trivial trivial
  | typed _ _ ih => exact and_congr_right fun _ => ih
  | pair _ _ iha ihb => exact and_congr iha ihb
  | returnSignal _ ih => exact (and_iff_right trivial).trans ih
  | _ => exact iff_of_true trivial trivial

theorem inv_annotating {s : Store} : annotating.Inv s ↔ s.Annotated :=
  ⟨fun h => ⟨h.keeps, fun v hv => good_annotating.1 (h.cells v hv),
      fun v hv => ⟨(h.heap v hv).2, good_annotating.1 (h.heap v hv).1⟩⟩,
    fun h => ⟨h.bindings, fun v hv => good_annotating.2 (h.cells v hv),
      fun v hv => ⟨good_annotating.2 (h.heap v hv).2, (h.heap v hv).1⟩⟩⟩

/-! ### Introductions -/

namespace Pairing.Sound

variable {K : annotating.Pairing} {ε : Effect} {s : State} {scope : ScopeId} {name : Text}
variable {v : Value} {run : Runner}

end Pairing.Sound

/-! ### Runs -/

variable {n : Nat} {s t : State} {scope : ScopeId} {host : Host} {vs : List Value} {r : Request}

theorem hasCells_new : HasCells { scopes := #[{}] } := by
  intro id b hb
  cases id with
  | zero => exact absurd hb List.not_mem_nil
  | succ id => exact absurd hb List.not_mem_nil

theorem reached_annotated (h : Reached anyUse s vs) : s.store.Annotated ∧ ∀ v ∈ vs, v.Proper := by
  have h := reached universal_annotating hasCells_new (d := fun _ _ => false) (fun h => h.elim)
    (fun {r host s} _ => r.avoids_none host s) h
  exact ⟨inv_annotating.1 h.1, fun v hv => good_annotating.1 (h.2 v hv)⟩

theorem fits_annotating (hr : ∀ v ∈ r.values, v.Proper) : annotating.Fits s.store r :=
  universal_annotating.fits fun v hv => good_annotating.2 (hr v hv)

theorem passed_annotated (hs : s.store.Annotated) (hr : ∀ v ∈ r.values, v.Proper)
    (ht : r.Passes host s t) :
    t.store.Annotated ∧ s.store.SameAnnotations t.store ∧
      t.store.SameAnnotations (r.eval.after host s).store := by
  have h := passes (L := annotating) (d := fun _ _ => false) (fun h => h.elim)
    (fits_annotating hr) (inv_annotating.2 hs) (r.avoids_none host s) ht
  exact ⟨inv_annotating.1 h.1, h.2⟩

end Law

namespace Law

variable {w : Work} {n : Nat} {host : Host} {s t : State} {task : Task} {d : Task → State → Bool}

end Law

end ScriptLang
