import ScriptLang.Proofs.Token.Tiling
import ScriptLang.Syntax.Basic

/-!
# The outline of a tree

An outline is what is left of a tree of the grammar if only the spans of its nodes are kept, and which
nodes are parts of which. The parts of a node stand in groups: a group is a list of the tree, such as the
arguments of a call, or a part that stands alone.

`Outline.Sound` says what the spans of a tree that was read from a text should be: every node is at the
place where its first byte is, it starts where a token starts and ends where a token ends, its parts lie in
it and apart from each other, and the parts of a group stand one behind the other. `Row` is what sound
outlines are while the tree is put together.
-/

namespace ScriptLang

/-- The spans of a node and of its parts, group by group. -/
inductive Outline where
  /-- A node. -/
  | node (span : Span) (parts : List (List Outline))

namespace Outline

/-- The span of a node. -/
def span : Outline → Span
  | node s _ => s

/-- The parts of a node, group by group. -/
def parts : Outline → List (List Outline)
  | node _ parts => parts

/-- The outline of a type. -/
def type : TypeExpr → Outline
  | .named s _ => .node s []
  | .list s elem => .node s [[type elem]]

/-- The outline of an annotation. -/
def ascription : Option TypeExpr → List Outline
  | none => []
  | some t => [type t]

/-- The outlines of the annotations of parameters or fields. -/
def params (ps : List Param) : List Outline := ps.flatMap fun p => ascription p.type

mutual

/-- The outline of an expression. -/
def expr : Expr → Outline
  | .array s elems => .node s [exprs elems]
  | .object s list => .node s [entries list]
  | .unary s _ operand => .node s [[expr operand]]
  | .binary s _ left right => .node s [[expr left], [expr right]]
  | .assign s _ target value => .node s [[expr target], [expr value]]
  | .step s _ target => .node s [[expr target]]
  | .range s first last => .node s [[expr first], [expr last]]
  | .member s object _ => .node s [[expr object]]
  | .index s object index => .node s [[expr object], [expr index]]
  | .call s callee args => .node s [[expr callee], exprs args]
  | .construct s c callee args => .node s [[.node c [[expr callee], exprs args]]]
  | .function f => function f
  | .choose m => choice m
  | .number s _ | .string s _ | .bool s _ | .nil s | .ident s _ => .node s []

/-- The outlines of expressions. -/
def exprs : List Expr → List Outline
  | [] => []
  | e :: es => expr e :: exprs es

/-- The outlines of the values of an object. -/
def entries : List (Text × Expr) → List Outline
  | [] => []
  | (_, e) :: es => expr e :: entries es

/-- The outline of a choice. -/
def choice : MatchExpr → Outline
  | ⟨s, subject, list⟩ => .node s [[expr subject], arms list]

/-- The outlines of arms. -/
def arms : List MatchArm → List Outline
  | [] => []
  | a :: as => arm a :: arms as

/-- The outline of an arm. -/
def arm : MatchArm → Outline
  | ⟨s, none, body⟩ => .node s [[armBody body]]
  | ⟨s, some e, body⟩ => .node s [[expr e], [armBody body]]

/-- The outline of what an arm does. -/
def armBody : ArmBody → Outline
  | .block b => block b
  | .value s e => .node s [[expr e]]

/-- The outline of a function. -/
def function : FunctionDecl → Outline
  | ⟨s, _, ps, result, body⟩ => .node s [params ps, ascription result, [block body]]

/-- The outlines of functions. -/
def functions : List FunctionDecl → List Outline
  | [] => []
  | f :: fs => function f :: functions fs

/-- The outline of a block. -/
def block : Block → Outline
  | ⟨s, body⟩ => .node s [stmts body]

/-- The outlines of statements. -/
def stmts : List Stmt → List Outline
  | [] => []
  | s :: ss => stmt s :: stmts ss

/-- The outline of a conditional. -/
def cond : IfStmt → Outline
  | ⟨s, c, yes, none⟩ => .node s [[expr c], [block yes]]
  | ⟨s, c, yes, some no⟩ => .node s [[expr c], [block yes], [elseBranch no]]

/-- The outline of what a conditional does when its condition is false. -/
def elseBranch : ElseBranch → Outline
  | .block b => block b
  | .chain next => cond next

/-- The outline of a statement. -/
def stmt : Stmt → Outline
  | .expr s e => .node s [[expr e]]
  | .block b => block b
  | .declare s _ _ type none => .node s [ascription type]
  | .declare s _ _ type (some e) => .node s [ascription type, [expr e]]
  | .function f => function f
  | .cond c => cond c
  | .whileLoop s c body => .node s [[expr c], [block body]]
  | .foreachLoop s _ _ iterable body => .node s [[expr iterable], [block body]]
  | .struct s _ fields methods => .node s [params fields, functions methods]
  | .choose s m => .node s [[choice m]]
  | .returning s none => .node s []
  | .returning s (some e) => .node s [[expr e]]
  | .importing s _ _ _ | .enum s _ _ | .breakLoop s | .continueLoop s => .node s []

end

theorem span_expr (e : Expr) : (expr e).span = e.span := by
  cases e with
  | function f =>
    obtain ⟨s, name, ps, result, body⟩ := f
    rfl
  | choose m =>
    obtain ⟨s, subject, list⟩ := m
    rfl
  | _ => rfl

@[simp]
theorem parts_node (s : Span) (groups : List (List Outline)) : (node s groups).parts = groups := rfl

@[simp]
theorem parts_function (f : FunctionDecl) :
    (function f).parts = [params f.params, ascription f.result, [block f.body]] := by
  obtain ⟨s, name, ps, result, body⟩ := f
  rfl

@[simp]
theorem parts_choice (m : MatchExpr) : (choice m).parts = [[expr m.subject], arms m.arms] := by
  obtain ⟨s, subject, list⟩ := m
  rfl

theorem span_function (f : FunctionDecl) : (function f).span = f.span := by
  obtain ⟨s, name, ps, result, body⟩ := f
  rfl

theorem exprs_eq_flatMap (es : List Expr) : exprs es = es.flatMap fun e => [expr e] := by
  induction es with
  | nil => rfl
  | cons e es ih => exact congrArg (expr e :: ·) ih

theorem entries_eq_flatMap (es : List (Text × Expr)) : entries es = es.flatMap fun e => [expr e.2] := by
  induction es with
  | nil => rfl
  | cons e es ih => exact congrArg (expr e.2 :: ·) ih

/-- What the spans of the parts of a node have to do with its own. -/
structure Arranged (span : Span) (groups : List (List Span)) : Prop where
  /-- The parts lie in the node. -/
  inside : ∀ g ∈ groups, ∀ sp ∈ g, span.start ≤ sp.start ∧ sp.stop ≤ span.stop
  /-- Any two parts lie apart. -/
  apart : groups.flatten.Pairwise fun a b => a.stop ≤ b.start ∨ b.stop ≤ a.start
  /-- The parts of a group stand one behind the other. -/
  ordered : ∀ g ∈ groups, g.Pairwise fun a b => a.stop ≤ b.start

/-- What the span of a node has to do with the text and with its tokens. -/
structure Placed (source file : Text) (tokens : List Token) (span : Span) : Prop where
  /-- Its line and its column are those of its first byte. -/
  place : span = source.place file span.start span.stop
  /-- It starts where a token starts. -/
  start : ∃ t ∈ tokens, t.span.start = span.start
  /-- It ends where a token ends. -/
  stop : ∃ t ∈ tokens, t.span.stop = span.stop

/-- Whether the spans of a tree are as they should be, for a text with the given tokens. -/
inductive Sound (source file : Text) (tokens : List Token) : Outline → Prop
  /-- A node is not empty. -/
  | node {span : Span} {parts : List (List Outline)} (placed : Placed source file tokens span)
    (nonempty : span.start < span.stop) (arranged : Arranged span (parts.map (·.map Outline.span)))
    (sound : ∀ g ∈ parts, ∀ o ∈ g, Sound source file tokens o) :
    Sound source file tokens (.node span parts)

/-- Whether an outline is that of a type. -/
def IsType (o : Outline) : Prop := ∃ t, o = type t

/-- Whether the groups of a node stand one behind the other. Only annotations may stand between other parts,
which are those of the fields of a struct, between its methods. -/
def InLine (groups : List (List Outline)) : Prop :=
  groups.flatten.Pairwise (fun a b => a.span.stop ≤ b.span.start) ∨
    ∃ types more, groups = [types, more] ∧ ∀ o ∈ types, o.IsType

/-- Whether the groups of a node stand one behind the other, and so do those of all its parts. -/
inductive Forward : Outline → Prop
  /-- A node. -/
  | node {span : Span} {parts : List (List Outline)} (line : InLine parts)
    (forward : ∀ g ∈ parts, ∀ o ∈ g, Forward o) : Forward (.node span parts)

namespace Sound

variable {source file : Text} {tokens : List Token} {o : Outline}

theorem placed (h : o.Sound source file tokens) : Placed source file tokens o.span := by
  cases h with
  | node placed => exact placed

theorem nonempty (h : o.Sound source file tokens) : o.span.start < o.span.stop := by
  cases h with
  | node _ nonempty => exact nonempty

end Sound

end Outline

/-- Whether the groups of a node hold the outlines of a row, each group in their order. -/
structure Outline.Gathers (groups : List (List Outline)) (os : List Outline) : Prop where
  /-- They hold all of them. -/
  perm : groups.flatten.Perm os
  /-- Each group stands in order. -/
  sublist : ∀ g ∈ groups, g.Sublist os
  /-- One group follows the other, unless the first one holds annotations only. -/
  line : groups.flatten = os ∨ ∃ types more, groups = [types, more] ∧ ∀ o ∈ types, o.IsType

namespace Outline

theorem isType_of_mem_ascription {t : Option TypeExpr} {o : Outline} (ho : o ∈ ascription t) :
    o.IsType := by
  cases t with
  | none => exact absurd ho List.not_mem_nil
  | some t => exact ⟨t, List.mem_singleton.1 ho⟩

theorem isType_of_mem_params {ps : List Param} {o : Outline} (ho : o ∈ params ps) : o.IsType := by
  obtain ⟨p, -, ho⟩ := List.mem_flatMap.1 ho
  exact isType_of_mem_ascription ho

namespace Gathers

variable {groups : List (List Outline)} {os more methods : List Outline} {ps : List Param}

/-- Groups that stand one behind the other. -/
theorem of_eq (h : groups.flatten = os) : Gathers groups os :=
  ⟨.of_eq h, fun _ hg => h ▸ List.sublist_flatten_of_mem hg, .inl h⟩

theorem none : Gathers [[], []] [] := of_eq rfl

/-- Annotations and methods that stand between each other grow at the front of the annotations. -/
theorem field (h : Gathers [params ps, methods] os) (t : Option TypeExpr) :
    Gathers [ascription t ++ params ps, methods] (ascription t ++ os) := by
  obtain ⟨hperm, hsub, -⟩ := h
  simp only [List.flatten_cons, List.flatten_nil, List.append_nil, List.forall_mem_cons] at hperm hsub
  obtain ⟨hfields, hmethods, -⟩ := hsub
  refine ⟨?_, ?_, .inr ⟨_, _, rfl, List.forall_mem_append.2
    ⟨fun _ => isType_of_mem_ascription, fun _ => isType_of_mem_params⟩⟩⟩
  · simpa [List.append_assoc] using hperm.append_left (ascription t)
  · simp only [List.forall_mem_cons]
    exact ⟨hfields.append_left _, hmethods.trans (List.sublist_append_right _ _), nofun⟩

/-- They grow at the front of the methods. -/
theorem method (h : Gathers [params ps, methods] os) (o : Outline) :
    Gathers [params ps, o :: methods] (o :: os) := by
  obtain ⟨hperm, hsub, -⟩ := h
  simp only [List.flatten_cons, List.flatten_nil, List.append_nil, List.forall_mem_cons] at hperm hsub
  obtain ⟨hfields, hmethods, -⟩ := hsub
  refine ⟨?_, ?_, .inr ⟨_, _, rfl, fun _ => isType_of_mem_params⟩⟩
  · simpa using List.perm_middle.trans (hperm.cons o)
  · simp only [List.forall_mem_cons]
    exact ⟨hfields.trans (List.sublist_cons_self _ _), hmethods.cons_cons o, nofun⟩

end Gathers

end Outline

/-- Sound outlines, one behind the other between two offsets. -/
structure Row (source file : Text) (tokens : List Token) (start : Nat) (os : List Outline)
    (stop : Nat) : Prop where
  /-- All of them are sound. -/
  sound : ∀ o ∈ os, o.Sound source file tokens
  /-- In all of them the groups of parts stand one behind the other. -/
  forward : ∀ o ∈ os, o.Forward
  /-- Each of them ends before the next one starts. -/
  ordered : os.Pairwise fun a b => a.span.stop ≤ b.span.start
  /-- They lie between the offsets. -/
  inside : ∀ o ∈ os, start ≤ o.span.start ∧ o.span.stop ≤ stop

namespace Row

open Outline (Gathers)

variable {source file : Text} {tokens : List Token} {start start' mid mid' stop stop' : Nat}
  {os os' : List Outline} {o : Outline} {span : Span} {groups : List (List Outline)}

theorem nil : Row source file tokens start [] stop := ⟨nofun, nofun, .nil, nofun⟩

theorem mono (h : Row source file tokens start os stop) (hstart : start' ≤ start) (hstop : stop ≤ stop') :
    Row source file tokens start' os stop' :=
  ⟨h.sound, h.forward, h.ordered, fun o ho => ⟨Nat.le_trans hstart (h.inside o ho).1,
    Nat.le_trans (h.inside o ho).2 hstop⟩⟩

/-- Outlines behind other ones. -/
theorem append (h : Row source file tokens start os mid) (h' : Row source file tokens mid' os' stop)
    (hmid : mid ≤ mid') (hstart : start ≤ mid') (hstop : mid ≤ stop) :
    Row source file tokens start (os ++ os') stop where
  sound := List.forall_mem_append.2 ⟨h.sound, h'.sound⟩
  forward := List.forall_mem_append.2 ⟨h.forward, h'.forward⟩
  ordered := List.pairwise_append.2 ⟨h.ordered, h'.ordered, fun a ha b hb =>
    Nat.le_trans (h.inside a ha).2 (Nat.le_trans hmid (h'.inside b hb).1)⟩
  inside := List.forall_mem_append.2
    ⟨(h.mono (Nat.le_refl _) hstop).inside, (h'.mono hstart (Nat.le_refl _)).inside⟩

/-- A row that has an outline has some extent. -/
theorem lt_of_mem (h : Row source file tokens start os stop) (ho : o ∈ os) : start < stop := by
  obtain ⟨hstart, hstop⟩ := h.inside o ho
  exact Nat.lt_of_le_of_lt hstart (Nat.lt_of_lt_of_le (h.sound o ho).nonempty hstop)

/-- A row starts with its first outline. -/
theorem from_head (h : Row source file tokens start (o :: os) stop) :
    Row source file tokens o.span.start (o :: os) stop where
  sound := h.sound
  forward := h.forward
  ordered := h.ordered
  inside := by
    obtain ⟨hfirst, hrest⟩ := List.forall_mem_cons.1 h.inside
    have hlt := (h.sound o List.mem_cons_self).nonempty
    refine List.forall_mem_cons.2 ⟨⟨Nat.le_refl _, hfirst.2⟩, fun b hb => ⟨?_, (hrest b hb).2⟩⟩
    exact Nat.le_trans (Nat.le_of_lt hlt) ((List.pairwise_cons.1 h.ordered).1 b hb)

theorem arranged (h : Row source file tokens span.start os span.stop) (hos : Gathers groups os) :
    Outline.Arranged span (groups.map (·.map Outline.span)) where
  inside := by
    simp only [List.forall_mem_map]
    exact fun g hg o ho => h.inside o ((hos.sublist g hg).subset ho)
  apart := by
    rw [← List.map_flatten, List.pairwise_map]
    exact (hos.perm.pairwise_iff Or.symm).2 (h.ordered.imp .inl)
  ordered := by
    simp only [List.forall_mem_map, List.pairwise_map]
    exact fun g hg => h.ordered.sublist (hos.sublist g hg)

/-- Groups that hold a row stand one behind the other. -/
theorem inLine (h : Row source file tokens start os stop) (hos : Gathers groups os) :
    Outline.InLine groups := by
  refine hos.line.imp_left fun hflat => ?_
  rw [hflat]
  exact h.ordered

/-- A node whose parts stand in one row. -/
theorem node (h : Row source file tokens span.start os span.stop) (hos : Gathers groups os)
    (hplaced : Outline.Placed source file tokens span) (hlt : span.start < span.stop)
    (hstart : start ≤ span.start) (hstop : span.stop ≤ stop) :
    Row source file tokens start [.node span groups] stop where
  sound := List.forall_mem_singleton.2 <| .node hplaced hlt (h.arranged hos) fun g hg o ho =>
    h.sound o ((hos.sublist g hg).subset ho)
  forward := List.forall_mem_singleton.2 <| .node (h.inLine hos) fun g hg o ho =>
    h.forward o ((hos.sublist g hg).subset ho)
  ordered := List.pairwise_singleton _ _
  inside := List.forall_mem_singleton.2 ⟨hstart, hstop⟩

/-- The first outline of a row. -/
theorem head (h : Row source file tokens start (o :: os) stop) :
    Row source file tokens start [o] o.span.stop where
  sound := List.forall_mem_singleton.2 (h.sound o List.mem_cons_self)
  forward := List.forall_mem_singleton.2 (h.forward o List.mem_cons_self)
  ordered := List.pairwise_singleton _ _
  inside := List.forall_mem_singleton.2 ⟨(h.inside o List.mem_cons_self).1, Nat.le_refl _⟩

/-- The outlines of a row behind the first one. -/
theorem tail (h : Row source file tokens start (o :: os) stop) :
    Row source file tokens o.span.stop os stop where
  sound := (List.forall_mem_cons.1 h.sound).2
  forward := (List.forall_mem_cons.1 h.forward).2
  ordered := (List.pairwise_cons.1 h.ordered).2
  inside o' ho' := ⟨(List.pairwise_cons.1 h.ordered).1 o' ho', (h.inside o' (.tail _ ho')).2⟩

/-- A row of one outline, as narrow as it can be. -/
theorem narrow (h : Row source file tokens start [o] stop) :
    Row source file tokens o.span.start [o] o.span.stop :=
  h.head.from_head

theorem start_le_stop (h : Row source file tokens start [o] stop) : o.span.start ≤ o.span.stop :=
  Nat.le_of_lt (h.sound o List.mem_cons_self).nonempty

/-- A group of the parts of a node is a row in its span. -/
theorem group (h : Row source file tokens start [.node span groups] stop) {g : List Outline}
    (hg : g ∈ groups) : Row source file tokens span.start g span.stop := by
  cases h.sound _ List.mem_cons_self with
  | node placed nonempty arranged sound =>
    cases h.forward _ List.mem_cons_self with
    | node line forward =>
      refine ⟨sound g hg, forward g hg, ?_, fun o ho => ?_⟩
      · exact List.pairwise_map.1 (arranged.ordered _ (List.mem_map_of_mem hg))
      · exact arranged.inside _ (List.mem_map_of_mem hg) _ (List.mem_map_of_mem ho)

/-- All parts of a node are a row in its span if they stand one behind the other. -/
theorem flatten (h : Row source file tokens start [.node span groups] stop)
    (hline : groups.flatten.Pairwise fun a b => a.span.stop ≤ b.span.start) :
    Row source file tokens span.start groups.flatten span.stop := by
  refine ⟨fun o ho => ?_, fun o ho => ?_, hline, fun o ho => ?_⟩
  all_goals obtain ⟨g, hg, ho⟩ := List.mem_flatten.1 ho
  · exact (h.group hg).sound o ho
  · exact (h.group hg).forward o ho
  · exact (h.group hg).inside o ho

end Row

end ScriptLang
