import Mathlib
import ScriptLang.Proofs.Eval.Frame

/-!
# Variables with a struct for an annotation

A declaration, or a parameter, whose annotation is the name of a struct takes nil and instances of
structs with that name, if the name means a struct where the variable is declared. Later assignments
look the name up once more, in the scope that they stand in, and where it means no struct there
nothing is checked: a value of any kind becomes the content of the variable
(`struct_variable_misfit`).

So the content of such a variable is nil or an instance for as long as no assignment puts a *misfit*
into its cell: a value that is neither, from a scope in which the name of the struct means none. No
other change of the store can take this away, through whatever scopes, functions and references it
goes. The cell is that of the variable until the variable is deleted.
-/

namespace ScriptLang

open Eval

/-- Whether a value is nil or an instance of a struct with a name. -/
def Value.isNilOr (struct : Text) : Value → Bool
  | nil => true
  | object _ (some t) => t.name == struct
  | _ => false

namespace Store

/-- Whether a cell holds nil or an instance of a struct, under the name of the struct as an
annotation. -/
def holdsStruct (s : Store) (c : CellId) (struct : Text) : Bool :=
  match s.read c with
  | .typed u (.named _ name) => name == struct && u.isNilOr struct
  | _ => false

/-- Whether a write puts a value into a cell that is neither nil nor an instance of a struct, from a
scope in which the name of the struct does not mean one. -/
def misfits (c : CellId) (struct : Text) (s : Store) (v : Value) : Place → Bool
  | .name n scope => s.target? scope n == some c && s.namesStruct? scope struct == some false &&
      !(s.raw? v).any (Value.isNilOr struct)
  | _ => false

variable {s t : Store} {scope : ScopeId} {name struct : Text} {v w : Value} {c : CellId}

theorem holdsStruct_iff : s.holdsStruct c struct = true ↔
    ∃ u span, s.read c = .typed u (.named span struct) ∧ u.isNilOr struct = true := by
  unfold holdsStruct
  refine ⟨fun h => ?_, ?_⟩
  · split at h
    · next u span name hread =>
      obtain ⟨hname, hu⟩ := Bool.and_eq_true_iff.1 h
      obtain rfl := eq_of_beq hname
      exact ⟨u, span, hread, hu⟩
    · cases h
  · rintro ⟨u, span, hread, hu⟩
    rw [hread]
    exact Bool.and_eq_true_iff.2 ⟨beq_self_eq_true struct, hu⟩

/-- What is behind the content of such a cell is nil or an instance. -/
theorem raw?_of_holdsStruct (h : s.holdsStruct c struct = true) :
    ∃ u, s.raw? (s.read c) = some u ∧ u.isNilOr struct = true := by
  obtain ⟨u, span, hread, hu⟩ := holdsStruct_iff.1 h
  refine ⟨u, ?_, hu⟩
  rw [hread]
  cases u with
  | nil => rfl
  | object => rfl
  | _ => cases hu

theorem lt_of_holdsStruct (h : s.holdsStruct c struct = true) : c < s.cells.size := by
  obtain ⟨u, span, hread, -⟩ := holdsStruct_iff.1 h
  exact Nat.lt_of_not_le fun hle => nomatch (read_of_size_le hle).symm.trans hread

theorem holdsStruct_of_read (h : t.read c = s.read c) :
    t.holdsStruct c struct = s.holdsStruct c struct := by
  unfold holdsStruct
  rw [h]

/-- A scope in which a name means a struct is there. -/
theorem lt_of_namesStruct (h : s.namesStruct? scope struct = some true) : scope < s.scopes.size := by
  refine Nat.lt_of_not_le fun hle => ?_
  unfold namesStruct? lookup at h
  rw [locate_of_size_le hle] at h
  split at h
  · cases h
  · next v hv =>
    split at hv
    · cases hv
      cases h
    · cases hv

theorem conformsNamed?_eq (hstruct : BasicType.ofName? struct = none) (hw : w ≠ .nil) :
    s.conformsNamed? scope struct w =
      if w.isNilOr struct then some true else (s.namesStruct? scope struct).map (!·) := by
  unfold conformsNamed?
  rw [hstruct]
  have other : (do return !(← s.namesStruct? scope struct) : Option Bool) =
      (s.namesStruct? scope struct).map (!·) := by
    cases s.namesStruct? scope struct <;> rfl
  cases w with
  | nil => exact absurd rfl hw
  | object _ type =>
    cases type with
    | none => exact other
    | some t =>
      dsimp only [Value.isNilOr]
      rw [other]
      rfl
  | _ => exact other

/-- What conforms to the name of a struct is nil or an instance, or the name means no struct. -/
theorem isNilOr_of_conforms {span : Span} (hstruct : BasicType.ofName? struct = none)
    (hc : s.conforms? scope (.named span struct) v = some true) (hv : s.raw? v = some w) :
    w.isNilOr struct = true ∨ s.namesStruct? scope struct = some false := by
  by_cases hw : w = .nil
  · subst hw
    exact .inl rfl
  · have hc : s.conformsNamed? scope struct w = some true := by
      unfold conforms? at hc
      rw [hv] at hc
      cases w with
      | nil => exact absurd rfl hw
      | _ => exact hc
    rw [conformsNamed?_eq hstruct hw] at hc
    split at hc
    · next h => exact .inl h
    · obtain ⟨b, hb, hneg⟩ := Option.map_eq_some_iff.1 hc
      refine .inr (hb.trans (congrArg some ?_))
      simpa using hneg

/-- Whether a scope binds a name to a cell that holds nil or an instance of a struct. -/
def BindsStruct (s : Store) (scope : ScopeId) (name struct : Text) : Prop :=
  ∃ b, (s.scope scope).find? name = some b ∧ s.holdsStruct b.cell struct = true

/-- Whether a scope binds a name to a cell, and the cell holds nil or an instance of a struct. -/
def BindsStructAt (s : Store) (scope : ScopeId) (name : Text) (c : CellId) (struct : Text) : Prop :=
  ∃ b, (s.scope scope).find? name = some b ∧ b.cell = c ∧ s.holdsStruct c struct = true

theorem BindsStructAt.later (hname : s.KeepsName scope name t)
    (hstruct : s.holdsStruct c struct = true → t.holdsStruct c struct = true)
    (h : s.BindsStructAt scope name c struct) : t.BindsStructAt scope name c struct := by
  obtain ⟨b, hb, hc, hholds⟩ := h
  exact ⟨b, hname b hb, hc, hstruct hholds⟩

/-- What is bound under the name of a struct holds nil or an instance. -/
theorem bindsStruct_bind {constant : Bool} {span : Span} (hscope : scope < s.scopes.size)
    (hname : name ≠ discard) (hv : v.isNilOr struct = true)
    (h : s.bind scope name (.typed v (.named span struct)) constant = .ok t) :
    t.BindsStruct scope name struct := by
  rcases bind_eq_ok h with ⟨hd, -⟩ | ⟨-, hnew, rfl⟩
  · exact absurd hd hname
  · refine ⟨_, (find?_bound hnew).2 (.inl ⟨rfl, hscope, rfl, rfl⟩), ?_⟩
    exact holdsStruct_iff.2 ⟨v, span, read_newCell_self, hv⟩

theorem BindsStruct.bind {constant : Bool} {other : Text} (hs : s.BindsStruct scope name struct)
    (h : s.bind scope other v constant = .ok t) : t.BindsStruct scope name struct := by
  obtain ⟨b, hb, hholds⟩ := hs
  rcases bind_eq_ok h with ⟨-, rfl⟩ | ⟨-, hnew, rfl⟩
  · exact ⟨b, hb, hholds⟩
  · refine ⟨b, (find?_bound hnew).2 (.inr hb), ?_⟩
    exact (holdsStruct_of_read (read_newCell (lt_of_holdsStruct hholds))).trans hholds

end Store

namespace Law

/-- The law of a cell that holds nil or an instance of a struct. -/
def structured (c : CellId) (struct : Text) : Law where
  toPrograms := .all
  le := fun _ s t => s.holdsStruct c struct = true → t.holdsStruct c struct = true
  allows := fun s d w => d = c → s.holdsStruct c struct = true →
    ∃ u span, w = .typed u (.named span struct) ∧ u.isNilOr struct = true
  forbids := fun task s => task.assigns s = true
  le_refl := id
  le_trans := fun hst htu h => htu (hst h)
  le_mono := fun _ h => h
  le_fresh := fun hst _ htu h => htu (hst h)
  heap := fun hc _ _ => ⟨fun h => (Store.holdsStruct_of_read (Store.read_of_cells hc)).trans h, id⟩
  newCell := fun _ _ _ =>
    ⟨fun h => (Store.holdsStruct_of_read (Store.read_newCell (Store.lt_of_holdsStruct h))).trans h,
      trivial, trivial⟩
  write := by
    intro s d w _ _ _ _ hallows
    refine ⟨fun h => ?_, trivial⟩
    have hread := Store.read_write (v := w) (c := d) (Store.lt_of_holdsStruct h)
    split at hread
    · next hdc =>
      obtain ⟨u, span, rfl, hu⟩ := hallows hdc h
      exact Store.holdsStruct_iff.2 ⟨u, span, hread, hu⟩
    · exact (Store.holdsStruct_of_read hread).trans h
  newScope := fun _ _ => ⟨id, trivial, trivial⟩
  bind := by
    intro s t scope names name v constant _ _ _ _ ht
    refine ⟨fun h => ?_, trivial, trivial⟩
    rcases Store.bind_eq_ok ht with ⟨-, rfl⟩ | ⟨-, -, rfl⟩
    · exact h
    · exact (Store.holdsStruct_of_read (Store.read_newCell (Store.lt_of_holdsStruct h))).trans h
  remove := fun _ _ _ _ => ⟨id, trivial⟩
  allows_stepped := by
    rintro s d w n - hraw - rfl h
    obtain ⟨u, hu, hnil⟩ := Store.raw?_of_holdsStruct h
    cases hraw.symm.trans hu
    cases hnil
  allows_assigned := fun h => absurd rfl h

theorem universal_structured {c : CellId} {struct : Text} : (structured c struct).Universal := rfl

theorem inv_structured {c : CellId} {struct : Text} (s : Store) : (structured c struct).Inv s :=
  have good := universal_structured.good (L := structured c struct) trivial trivial trivial trivial s
  ⟨trivial, fun v _ => good v, fun v _ => ⟨good v, trivial⟩⟩

/-- The law holds as long as no misfit is written to the cell. -/
theorem guarded_structured {c : CellId} {struct : Text} (hstruct : BasicType.ofName? struct = none) :
    (structured c struct).Guarded (Store.misfits c struct) where
  universal := universal_structured
  forbids := id
  bodies := trivial
  allows := by
    intro s v place _ hno
    cases place with
    | name name scope =>
      rintro d w hd hbecomes rfl h
      obtain ⟨u, span, hread, -⟩ := Store.holdsStruct_iff.1 h
      rw [hread] at hbecomes
      obtain ⟨u', hc, hu', rfl⟩ := hbecomes
      refine ⟨u', span, rfl, ?_⟩
      rcases Store.isNilOr_of_conforms hstruct hc hu' with hfits | hnames
      · exact hfits
      · -- the name means no struct here, so the value is a misfit unless it is one of the two
        simpa [Store.misfits, hd, hnames, hu'] using hno
    | _ => trivial

end Law

/-- The value that a declared variable starts with. -/
def Runner.initial (run : Runner) (value : Option Expr) (scope : ScopeId) : Eval Value :=
  match value with
  | some e => run.expr e scope
  | none => return .nil

/-- Bind a value under an optional annotation. -/
def Eval.introduce (scope : ScopeId) (name : Text) (constant : Bool) (type : Option TypeExpr)
    (v : Value) : Eval Unit := do
  let w ← annotated scope type v
  if constant then declareConstant scope name w else define scope name w

theorem Runner.execDeclare_eq (run : Runner) (name : Text) (constant : Bool) (type : Option TypeExpr)
    (value : Option Expr) (scope : ScopeId) : run.execDeclare name constant type value scope = do
      Eval.introduce scope name constant type (← run.initial value scope)
      return .nil := by
  unfold execDeclare Eval.introduce initial
  cases value <;> simp only [bind_assoc, pure_bind] <;> cases constant <;> rfl

theorem Runner.bindParams_cons (scope : ScopeId) (p : Param) (ps : List Param) (a : Value)
    (args : List Value) : bindParams scope (p :: ps) (a :: args) =
      Eval.introduce scope p.name false p.type a >>= fun _ => bindParams scope ps args := by
  unfold bindParams
  rw [List.zip_cons_cons]
  rfl

variable {scope : ScopeId} {name struct : Text} {host : Host} {s t : State} {v : Value}

theorem Eval.introduce_eq_ok {constant : Bool} {type : Option TypeExpr}
    (h : introduce scope name constant type v host s = .ok () t) :
    ∃ w, (match type with
      | none => w = v.plain
      | some type => ∃ u, s.store.conforms? scope type v = some true ∧ s.store.raw? v = some u ∧
          w = .typed u type) ∧ s.store.bind scope name w constant = .ok t.store := by
  unfold introduce at h
  have hmoved := (still_annotated scope type v host s).1
  obtain ⟨w, u, hw, h⟩ := bind_eq_ok h
  rw [hw] at hmoved
  obtain ⟨hsame, hw⟩ := hmoved
  refine ⟨w, hw, ?_⟩
  rw [introduce_eq] at h
  unfold tryScope at h
  rw [hsame.store] at h
  dsimp only at h
  cases hbind : s.store.bind scope name w constant with
  | error e =>
    rw [hbind] at h
    cases h
  | ok t' =>
    rw [hbind] at h
    cases h
    rfl

/-- What is introduced under the name of a struct holds nil or an instance. -/
theorem Eval.bindsStruct_introduce {constant : Bool} {span : Span}
    (hstruct : BasicType.ofName? struct = none) (hname : name ≠ discard)
    (hvisible : s.store.namesStruct? scope struct = some true)
    (h : introduce scope name constant (some (.named span struct)) v host s = .ok () t) :
    t.store.BindsStruct scope name struct := by
  obtain ⟨w, ⟨u, hc, hu, rfl⟩, hbind⟩ := introduce_eq_ok h
  refine Store.bindsStruct_bind (Store.lt_of_namesStruct hvisible) hname ?_ hbind
  refine (Store.isNilOr_of_conforms hstruct hc hu).resolve_right fun hno => ?_
  cases hvisible.symm.trans hno

theorem Store.BindsStruct.introduce {constant : Bool} {other : Text} {type : Option TypeExpr}
    (hs : s.store.BindsStruct scope name struct)
    (h : Eval.introduce scope other constant type v host s = .ok () t) :
    t.store.BindsStruct scope name struct := by
  obtain ⟨w, -, hbind⟩ := Eval.introduce_eq_ok h
  exact hs.bind hbind

theorem Store.BindsStruct.bindParams {params : List Param} {args : List Value}
    (hs : s.store.BindsStruct scope name struct)
    (h : Runner.bindParams scope params args host s = .ok () t) :
    t.store.BindsStruct scope name struct := by
  induction params generalizing args s with
  | nil =>
    cases h
    exact hs
  | cons p ps ih =>
    cases args with
    | nil =>
      cases h
      exact hs
    | cons a args =>
      rw [Runner.bindParams_cons, bind_apply] at h
      cases hp : Eval.introduce scope p.name false p.type a host s with
      | error e u =>
        rw [hp] at h
        cases h
      | ok _ u =>
        rw [hp] at h
        exact ih (hs.introduce hp) h

/-- A declaration under the name of a struct that is visible introduces such a variable. -/
theorem stmt_declare_bindsStruct {n : Nat} {span typeSpan : Span} {constant : Bool}
    {value : Option Expr} {w : Value} {u : State} (hstruct : BasicType.ofName? struct = none)
    (hname : name ≠ discard) (hvalue : (evaluator n).initial value scope host s = .ok w u)
    (hvisible : u.store.namesStruct? scope struct = some true)
    (h : (evaluator (n + 1)).stmt (.declare span name constant (some (.named typeSpan struct)) value)
      scope host s = .ok v t) : t.store.BindsStruct scope name struct := by
  have h : located span ((evaluator n).execDeclare name constant (some (.named typeSpan struct)) value
    scope) host s = .ok v t := h
  unfold located at h
  rw [Runner.execDeclare_eq, bind_apply, hvalue] at h
  dsimp only at h
  rw [bind_apply] at h
  cases hw : Eval.introduce scope name constant (some (.named typeSpan struct)) w host u with
  | error e t' =>
    rw [hw] at h
    cases h
  | ok _ t' =>
    rw [hw] at h
    cases h
    exact Eval.bindsStruct_introduce hstruct hname hvisible hw

/-- So does a parameter, if the name is visible when it is bound. -/
theorem bindParams_bindsStruct {before after : List Param} {p : Param} {earlier later : List Value}
    {a : Value} {span : Span} {u : State} (hstruct : BasicType.ofName? struct = none)
    (htype : p.type = some (.named span struct)) (hname : p.name ≠ discard)
    (hbefore : Runner.bindParams scope before earlier host s = .ok () u)
    (hlength : before.length = earlier.length)
    (hvisible : u.store.namesStruct? scope struct = some true)
    (h : Runner.bindParams scope (before ++ p :: after) (earlier ++ a :: later) host s = .ok () t) :
    t.store.BindsStruct scope p.name struct := by
  induction before generalizing earlier s with
  | nil =>
    obtain rfl := List.length_eq_zero_iff.1 hlength.symm
    cases hbefore
    rw [List.nil_append, List.nil_append, Runner.bindParams_cons, bind_apply] at h
    cases hp : Eval.introduce scope p.name false p.type a host u with
    | error e t' =>
      rw [hp] at h
      cases h
    | ok _ t' =>
      rw [hp] at h
      rw [htype] at hp
      exact (Eval.bindsStruct_introduce hstruct hname hvisible hp).bindParams h
  | cons q before ih =>
    obtain ⟨b, earlier, rfl⟩ := List.exists_cons_of_length_eq_add_one hlength.symm
    rw [List.cons_append, List.cons_append, Runner.bindParams_cons, bind_apply] at h
    rw [Runner.bindParams_cons, bind_apply] at hbefore
    cases hq : Eval.introduce scope q.name false q.type b host s with
    | error e t' =>
      rw [hq] at h
      cases h
    | ok _ t' =>
      rw [hq] at h hbefore
      exact ih hbefore (Nat.succ.inj hlength) h

/-- What is left of a cell with a struct by work in which no assignment puts a misfit into it. -/
theorem Work.keeps_struct {w : Work} {n : Nat} {c : CellId} (hstruct : BasicType.ofName? struct = none)
    (hspares : w.Spares (Store.misfits c struct) n host s) :
    (s.store.holdsStruct c struct = true →
        ((w.eval n).after host s).store.holdsStruct c struct = true) ∧
      ∀ {task t}, w.Visits n host s task t →
        (s.store.holdsStruct c struct = true → t.store.holdsStruct c struct = true) ∧
        (t.store.holdsStruct c struct = true →
          ((w.eval n).after host s).store.holdsStruct c struct = true) := by
  have hguarded := Law.guarded_structured (c := c) hstruct
  have hw : ∀ v ∈ w.values, (Law.structured c struct).Good s.store v := fun v _ =>
    Law.universal_structured.good (L := Law.structured c struct) trivial trivial trivial trivial _ v
  exact ⟨(hguarded.after (Law.inv_structured _) hw hspares).2, fun hvisits =>
    (hguarded.visits (Law.inv_structured _) hw hspares hvisits).2⟩

/-- Variables with a struct for an annotation stay with it. A declaration, and a parameter, whose
annotation names a struct that is visible hold nil or an instance of a struct with that name, and so
does what is behind them; and every piece of work in which no assignment puts a misfit into the cell
of such a variable leaves it so in the states that it visits and in the one that it ends in. If the
variable is not deleted either, it keeps this cell. -/
theorem struct_variables_stay {struct : Text} (hstruct : BasicType.ofName? struct = none) :
    (∀ {n span name constant typeSpan value scope host s w u v t}, name ≠ discard →
      (evaluator n).initial value scope host s = .ok w u →
      u.store.namesStruct? scope struct = some true →
      (evaluator (n + 1)).stmt (.declare span name constant (some (.named typeSpan struct)) value) scope
        host s = .ok v t → t.store.BindsStruct scope name struct) ∧
    (∀ {before after : List Param} {p : Param} {earlier later a span scope host s u t},
      p.type = some (.named span struct) → p.name ≠ discard → before.length = earlier.length →
      Runner.bindParams scope before earlier host s = .ok () u →
      u.store.namesStruct? scope struct = some true →
      Runner.bindParams scope (before ++ p :: after) (earlier ++ a :: later) host s = .ok () t →
        t.store.BindsStruct scope p.name struct) ∧
    (∀ {s : Store} {c}, s.holdsStruct c struct = true →
      ∃ u, s.raw? (s.read c) = some u ∧ u.isNilOr struct = true) ∧
    (∀ {c} {w : Work} {n host s}, w.Spares (Store.misfits c struct) n host s →
      (s.store.holdsStruct c struct = true →
        ((w.eval n).after host s).store.holdsStruct c struct = true) ∧
      ∀ {task t}, w.Visits n host s task t →
        (s.store.holdsStruct c struct = true → t.store.holdsStruct c struct = true) ∧
        (t.store.holdsStruct c struct = true →
          ((w.eval n).after host s).store.holdsStruct c struct = true)) ∧
    ∀ {c} {w : Work} {n host s scope name}, w.Spares (Store.misfits c struct) n host s →
      w.Avoids (Task.deletes scope name) n host s →
        (s.store.BindsStructAt scope name c struct →
          ((w.eval n).after host s).store.BindsStructAt scope name c struct) ∧
        ∀ {task t}, w.Visits n host s task t →
          (s.store.BindsStructAt scope name c struct → t.store.BindsStructAt scope name c struct) ∧
          (t.store.BindsStructAt scope name c struct →
            ((w.eval n).after host s).store.BindsStructAt scope name c struct) := by
  refine ⟨fun hname hvalue hvisible h => stmt_declare_bindsStruct hstruct hname hvalue hvisible h,
    fun htype hname hlength hbefore hvisible h =>
      bindParams_bindsStruct hstruct htype hname hbefore hlength hvisible h,
    Store.raw?_of_holdsStruct, Work.keeps_struct hstruct, fun hspares havoids => ?_⟩
  obtain ⟨hnamed, hbetween⟩ := Work.keeps_name havoids
  obtain ⟨hholds, hvisited⟩ := Work.keeps_struct hstruct hspares
  exact ⟨.later hnamed hholds, fun hvisits => ⟨.later (hbetween hvisits).1 (hvisited hvisits).1,
    .later (hbetween hvisits).2 (hvisited hvisits).2⟩⟩

/-- A state with a struct `S`, a variable `x` with its name for an annotation, a reference `r` to the
variable and a scope inside. -/
def structVariable : State where
  store :=
    { cells := #[.struct { id := 0, name := "S" },
        .typed (.object 0 (some { id := 0, name := "S" })) (.named {} "S"), .reference 1 (some 1)]
      scopes := #[{ values := [("r", 2), ("x", 1), ("S", 0)] }, { parent := some globalScope }]
      objects := #[{ type := some { id := 0, name := "S" } }]
      fresh := 2 }

/-- The assignment of a new instance through the reference, from the scope inside. -/
def renewsThrough : Work :=
  .task (.expr (.assign {} .set (.ident {} "r") (.construct {} {} (.ident {} "S") [])) 1)

/-- Such an assignment leaves the variable with its struct: it holds the new instance. -/
theorem renewed_variable_keeps_struct :
    renewsThrough.Spares (Store.misfits 1 "S") 3 {} structVariable ∧
      renewsThrough.Avoids (Task.deletes globalScope "x") 3 {} structVariable ∧
      ((renewsThrough.eval 3).after {} structVariable).store.BindsStructAt globalScope "x" 1 "S" ∧
      ((renewsThrough.eval 3).after {} structVariable).store.raw? (.reference 1 (some 1)) =
        some (.object 1 (some { id := 0, name := "S" })) := by
  have hspares : renewsThrough.Spares (Store.misfits 1 "S") 3 {} structVariable := fun _ => by cbv
  have havoids : renewsThrough.Avoids (Task.deletes globalScope "x") 3 {} structVariable :=
    fun _ => by cbv
  have hstruct : BasicType.ofName? "S" = none := by decide
  obtain ⟨-, -, -, -, hbinds⟩ := struct_variables_stay hstruct
  exact ⟨hspares, havoids, (hbinds hspares havoids).1 ⟨_, rfl, rfl, by decide⟩, by cbv⟩

/-- What is left by a program that declares a struct `S` and a variable `x` with its name for an
annotation. -/
def declaredStruct : State :=
  (Request.run ⟨{}, [.struct {} "S" [] [],
    .declare {} "x" false (some (.named {} "S")) none]⟩).eval.after {}
      (Interpreter.new {} {} [] 0).state

/-- A program that binds the name of the struct to something else in a block, and assigns to the
variable there. -/
def assignsMisfit : Request :=
  .run ⟨{}, [.block ⟨{}, [.declare {} "S" false none (some (.string {} "a")),
    .expr {} (.assign {} .set (.ident {} "x") (.string {} "b"))]⟩]⟩

/-- Not every variable stays with its struct: an assignment from a scope in which the name of the
struct means something else is not checked. -/
theorem struct_variable_misfit : ¬∀ {s : State} {vs : List Value}, Reached anyUse s vs →
    ∀ (r : Request) (host : Host), r.values ⊆ vs → ∀ scope name b struct,
      (s.store.scope scope).find? name = some b → s.store.namesStruct? scope struct = some true →
        s.store.holdsStruct b.cell struct = true →
          (r.eval.after host s).store.holdsStruct b.cell struct = true := by
  intro h
  obtain ⟨_, hreached⟩ : ∃ vs, Reached anyUse declaredStruct vs :=
    (Reached.new {} {} [] 0).after (List.nil_subset _) trivial
  have hholds := h hreached assignsMisfit {} (List.nil_subset _) globalScope "x" ⟨"x", 1, false⟩ "S"
    (by decide +kernel) (by decide +kernel) (by decide +kernel)
  have hmisfit : (assignsMisfit.eval.after {} declaredStruct).store.holdsStruct 1 "S" = false := by
    decide +kernel
  cases hmisfit.symm.trans hholds

end ScriptLang
