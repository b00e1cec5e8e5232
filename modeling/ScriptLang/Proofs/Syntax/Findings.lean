import ScriptLang.Syntax.Check
import ScriptLang.Proofs.Syntax.Nesting
import ScriptLang.Proofs.Syntax.Spans

/-!
# Where findings are

Every mistake that the tree of a program shows is reported at one of its nodes, so whatever holds of the
spans of all nodes holds of those of the findings (`Program.findsWithin`).

The findings come in the order of the source but for one kind: that a name or a key is taken is found after
the mistakes in the value of the declaration, in what the loop goes over or in the entries of the object
before it, and is reported at the whole of the declaration, the loop or the object. So a finding is followed
by others that are further on, or by one about a node around it (`Program.check_order`).
-/

namespace ScriptLang

open Spans

/-- Whether all findings have spans with a property. -/
def FindsWithin (p : Span → Prop) (fs : List Finding) : Prop := ∀ f ∈ fs, p f.span

namespace FindsWithin

variable {p : Span → Prop} {span : Span}

theorem nil : FindsWithin p [] := fun _ h => absurd h List.not_mem_nil

theorem append {fs gs : List Finding} (hf : FindsWithin p fs) (hg : FindsWithin p gs) :
    FindsWithin p (fs ++ gs) :=
  List.forall_mem_append.2 ⟨hf, hg⟩

theorem single (h : p span) (mistake : Mistake) : FindsWithin p [⟨mistake, span⟩] :=
  List.forall_mem_singleton.2 h

/-- A finding that there is under a condition. -/
theorem ite {c : Prop} [Decidable c] {fs gs : List Finding} (hf : FindsWithin p fs)
    (hg : FindsWithin p gs) : FindsWithin p (if c then fs else gs) := by
  split
  · exact hf
  · exact hg

theorem declared (h : p span) (names : List Text) (name : Text) :
    FindsWithin p (Check.declared names name span) :=
  ite (single h _) nil

theorem declaredAll (h : p span) (names more : List Text) :
    FindsWithin p (Check.declaredAll names span more) := by
  induction more generalizing names with
  | nil => exact nil
  | cons n ns ih => exact (declared h names n).append (ih _)

theorem loopControl (h : p span) (inLoop : Bool) (mistake : Mistake) :
    FindsWithin p (Check.loopControl inLoop mistake span) :=
  ite nil (single h mistake)

theorem map (h : p span) (mistake : Text → Mistake) (names : List Text) :
    FindsWithin p (names.map fun name => ⟨mistake name, span⟩) := by
  intro f hf
  obtain ⟨_, -, rfl⟩ := List.mem_map.1 hf
  exact h

mutual

theorem expr (inLoop : Bool) :
    ∀ e, Within p (Spans.expr e) → FindsWithin p (Check.expr inLoop e)
  | .number .., _ | .string .., _ | .bool .., _ | .nil .., _ | .ident .., _ => nil
  | .array _ elems, h => exprs inLoop elems (within_cons.1 h).2
  | .object _ list, h => entries inLoop _ (within_cons.1 h).1 [] list (within_cons.1 h).2
  | .unary _ _ e, h => expr inLoop e (within_cons.1 h).2
  | .binary _ _ l r, h =>
    have h := within_append.1 (within_cons.1 h).2
    (expr inLoop l h.1).append (expr inLoop r h.2)
  | .assign _ _ l r, h =>
    have h := within_append.1 (within_cons.1 h).2
    (expr inLoop l h.1).append (expr inLoop r h.2)
  | .step _ _ e, h => expr inLoop e (within_cons.1 h).2
  | .range _ l r, h =>
    have h := within_append.1 (within_cons.1 h).2
    (expr inLoop l h.1).append (expr inLoop r h.2)
  | .member _ e _, h => expr inLoop e (within_cons.1 h).2
  | .index _ l r, h =>
    have h := within_append.1 (within_cons.1 h).2
    (expr inLoop l h.1).append (expr inLoop r h.2)
  | .call _ c args, h =>
    have h := within_append.1 (within_cons.1 h).2
    (expr inLoop c h.1).append (exprs inLoop args h.2)
  | .construct _ _ c args, h =>
    have h := within_append.1 (within_cons.1 (within_cons.1 h).2).2
    (expr inLoop c h.1).append (exprs inLoop args h.2)
  | .function f, h => function f h
  | .choose m, h => choice inLoop m h

theorem exprs (inLoop : Bool) :
    ∀ es, Within p (Spans.exprs es) → FindsWithin p (Check.exprs inLoop es)
  | [], _ => nil
  | e :: es, h =>
    have h := within_append.1 h
    (expr inLoop e h.1).append (exprs inLoop es h.2)

theorem entries (inLoop : Bool) (span : Span) (hspan : p span) (seen : List Text) :
    ∀ es, Within p (Spans.entries es) → FindsWithin p (Check.entries inLoop span seen es)
  | [], _ => nil
  | (k, e) :: es, h =>
    have h := within_append.1 h
    ((ite (single hspan _) nil).append (expr inLoop e h.1)).append
      (entries inLoop span hspan (k :: seen) es h.2)

theorem choice (inLoop : Bool) :
    ∀ m, Within p (Spans.choice m) → FindsWithin p (Check.choice inLoop m)
  | ⟨_, subject, list⟩, h =>
    have h := within_append.1 (within_cons.1 h).2
    (expr inLoop subject h.1).append (arms inLoop list h.2)

theorem arms (inLoop : Bool) :
    ∀ as, Within p (Spans.arms as) → FindsWithin p (Check.arms inLoop as)
  | [], _ => nil
  | a :: as, h =>
    have h := within_append.1 h
    (arm inLoop a h.1).append (arms inLoop as h.2)

theorem arm (inLoop : Bool) : ∀ a, Within p (Spans.arm a) → FindsWithin p (Check.arm inLoop a)
  | ⟨_, none, body⟩, h => armBody inLoop body (within_cons.1 h).2
  | ⟨_, some e, body⟩, h =>
    have h := within_append.1 (within_cons.1 h).2
    (expr inLoop e h.1).append (armBody inLoop body h.2)

theorem armBody (inLoop : Bool) :
    ∀ b, Within p (Spans.armBody b) → FindsWithin p (Check.armBody inLoop b)
  | .block b, h => block inLoop [] b h
  | .value _ e, h => expr inLoop e (within_cons.1 h).2

theorem function : ∀ f, Within p (Spans.function f) → FindsWithin p (Check.function f)
  | ⟨_, _, _, _, body⟩, h =>
    (declaredAll (within_cons.1 h).1 _ _).append (block false _ body (within_cons.1 h).2)

theorem block (inLoop : Bool) (names : List Text) :
    ∀ b, Within p (Spans.block b) → FindsWithin p (Check.block inLoop names b)
  | ⟨_, body⟩, h => stmts inLoop names body (within_cons.1 h).2

theorem stmts (inLoop : Bool) (names : List Text) :
    ∀ ss, Within p (Spans.stmts ss) → FindsWithin p (Check.stmts inLoop names ss)
  | [], _ => nil
  | s :: ss, h =>
    have h := within_append.1 h
    (stmt inLoop names s h.1).append (stmts inLoop _ ss h.2)

theorem cond (inLoop : Bool) : ∀ c, Within p (Spans.cond c) → FindsWithin p (Check.cond inLoop c)
  | ⟨_, c, yes, none⟩, h =>
    have h := within_append.1 (within_cons.1 h).2
    (expr inLoop c h.1).append (block inLoop [] yes h.2)
  | ⟨_, c, yes, some no⟩, h =>
    have h := within_append.1 (within_cons.1 h).2
    have hbranches := within_append.1 h.2
    ((expr inLoop c h.1).append (block inLoop [] yes hbranches.1)).append
      (elseBranch inLoop no hbranches.2)

theorem elseBranch (inLoop : Bool) :
    ∀ b, Within p (Spans.elseBranch b) → FindsWithin p (Check.elseBranch inLoop b)
  | .block b, h => block inLoop [] b h
  | .chain c, h => cond inLoop c h

theorem methods (struct : Text) (seen : List Text) :
    ∀ ms, Within p (Spans.functions ms) → FindsWithin p (Check.methods struct seen ms)
  | [], _ => nil
  | m :: ms, h =>
    have h := within_append.1 h
    ((ite (single (within_function.1 h.1).1 _) nil).append (function m h.1)).append
      (methods struct _ ms h.2)

theorem stmt (inLoop : Bool) (names : List Text) :
    ∀ s, Within p (Spans.stmt s) → FindsWithin p (Check.stmt inLoop names s)
  | .expr _ e, h => expr inLoop e (within_cons.1 h).2
  | .block b, h => block inLoop [] b h
  | .declare _ name _ _ none, h => declared (within_cons.1 h).1 names name
  | .declare _ name _ _ (some e), h =>
    (expr inLoop e (within_cons.1 h).2).append (declared (within_cons.1 h).1 names name)
  | .function f, h => (declared (within_function.1 h).1 names f.name).append (function f h)
  | .cond c, h => cond inLoop c h
  | .whileLoop _ c body, h =>
    have h := within_append.1 (within_cons.1 h).2
    (expr inLoop c h.1).append (block true [] body h.2)
  | .foreachLoop _ _ _ e body, h =>
    have hparts := within_append.1 (within_cons.1 h).2
    ((expr inLoop e hparts.1).append (declaredAll (within_cons.1 h).1 _ _)).append
      (block true _ body hparts.2)
  | .importing _ name _ _, h => ite nil (declared (within_cons.1 h).1 names name)
  | .struct _ name _ ms, h =>
    ((declared (within_cons.1 h).1 names name).append (map (within_cons.1 h).1 _ _)).append
      (methods name _ ms (within_cons.1 h).2)
  | .enum _ name _, h => (declared (within_cons.1 h).1 names name).append (map (within_cons.1 h).1 _ _)
  | .choose _ m, h => choice inLoop m (within_cons.1 h).2
  | .breakLoop _, h => loopControl (within_cons.1 h).1 inLoop .breakOutside
  | .continueLoop _, h => loopControl (within_cons.1 h).1 inLoop .continueOutside
  | .returning _ none, _ => nil
  | .returning _ (some e), h => expr inLoop e (within_cons.1 h).2

end

end FindsWithin

/-- The findings in a program are about its nodes. -/
theorem Program.findsWithin {p : Span → Prop} {b : Block} (h : Within p (Spans.block b)) :
    FindsWithin p (Program.findings b) := by
  obtain ⟨span, body⟩ := b
  exact .stmts false [] body (within_cons.1 h).2

/-! ### The order of findings -/

/-- Whether a mistake is found after those in the node that it is about: that a name is taken or a key. -/
def Mistake.Trails : Mistake → Prop
  | .nameTwice _ | .keyTwice _ => True
  | _ => False

/-- Whether a finding may come after another one: it is further on, or about a node around the other one. -/
def Finding.MayFollow (g f : Finding) : Prop :=
  f.span.start ≤ g.span.start ∨
    g.mistake.Trails ∧ g.span.start ≤ f.span.start ∧ f.span.stop ≤ g.span.stop

/-- Findings between two offsets, each of which may follow those before it. -/
structure Reported (lo hi : Nat) (fs : List Finding) : Prop where
  /-- They lie between the offsets. -/
  inside : ∀ f ∈ fs, lo ≤ f.span.start ∧ f.span.start ≤ f.span.stop ∧ f.span.stop ≤ hi
  /-- They may follow one another. -/
  order : fs.Pairwise fun f g => g.MayFollow f

namespace Reported

variable {lo lo' mid hi hi' : Nat} {fs gs ds : List Finding} {span : Span}

theorem nil : Reported lo hi [] := ⟨nofun, .nil⟩

theorem mono (h : Reported lo hi fs) (hlo : lo' ≤ lo) (hhi : hi ≤ hi') : Reported lo' hi' fs where
  inside f hf := ⟨Nat.le_trans hlo (h.inside f hf).1, (h.inside f hf).2.1,
    Nat.le_trans (h.inside f hf).2.2 hhi⟩
  order := h.order

/-- Findings that are further on. -/
theorem append (h : Reported lo mid fs) (h' : Reported mid hi gs) (hlo : lo ≤ mid) (hhi : mid ≤ hi) :
    Reported lo hi (fs ++ gs) where
  inside := List.forall_mem_append.2 ⟨(h.mono (Nat.le_refl lo) hhi).inside,
    (h'.mono hlo (Nat.le_refl hi)).inside⟩
  order := by
    refine List.pairwise_append.2 ⟨h.order, h'.order, fun f hf g hg => .inl ?_⟩
    obtain ⟨-, hle, hmid⟩ := h.inside f hf
    exact Nat.le_trans hle (Nat.le_trans hmid (h'.inside g hg).1)

/-- Findings about a node before those inside of it. -/
theorem before (hspan : span.start ≤ span.stop) (hds : FindsWithin (Eq span) ds)
    (h : Reported span.start span.stop fs) : Reported span.start span.stop (ds ++ fs) where
  inside := by
    refine List.forall_mem_append.2 ⟨fun d hd => ?_, h.inside⟩
    rw [← hds d hd]
    exact ⟨Nat.le_refl _, hspan, Nat.le_refl _⟩
  order := by
    refine List.pairwise_append.2 ⟨?_, h.order, fun d hd f hf => .inl ?_⟩
    · refine List.pairwise_of_forall_mem_list fun d hd e he => .inl ?_
      rw [← hds d hd, ← hds e he]
    · rw [← hds d hd]
      exact (h.inside f hf).1

/-- A finding that trails those inside of its node may stand between any of them. -/
theorem insert (hspan : span.start ≤ span.stop) (hds : FindsWithin (Eq span) ds)
    (htrails : ∀ d ∈ ds, d.mistake.Trails) (h : Reported span.start span.stop (fs ++ gs)) :
    Reported span.start span.stop (fs ++ (ds ++ gs)) where
  inside := by
    obtain ⟨hfs, hgs⟩ := List.forall_mem_append.1 h.inside
    refine List.forall_mem_append.2 ⟨hfs, List.forall_mem_append.2 ⟨fun d hd => ?_, hgs⟩⟩
    rw [← hds d hd]
    exact ⟨Nat.le_refl _, hspan, Nat.le_refl _⟩
  order := by
    obtain ⟨hfs, hgs⟩ := List.forall_mem_append.1 h.inside
    obtain ⟨horder, horder', hacross⟩ := List.pairwise_append.1 h.order
    have hlater : Reported span.start span.stop (ds ++ gs) := .before hspan hds ⟨hgs, horder'⟩
    refine List.pairwise_append.2 ⟨horder, hlater.order, fun f hf g hg => ?_⟩
    rcases List.mem_append.1 hg with hg | hg
    · rw [Finding.MayFollow, ← hds g hg]
      exact .inr ⟨htrails g hg, (hfs f hf).1, (hfs f hf).2.2⟩
    · exact hacross f hf g hg

/-- A finding that trails all those inside of its node. -/
theorem trailing (hspan : span.start ≤ span.stop) (hds : FindsWithin (Eq span) ds)
    (htrails : ∀ d ∈ ds, d.mistake.Trails) (h : Reported span.start span.stop fs) :
    Reported span.start span.stop (fs ++ ds) := by
  rw [← List.append_nil fs] at h
  rw [← List.append_nil ds]
  exact insert hspan hds htrails h

theorem trails_ite {c : Prop} [Decidable c] {f : Finding} (h : f.mistake.Trails) :
    ∀ d ∈ (if c then [f] else []), d.mistake.Trails := by
  split
  · exact List.forall_mem_singleton.2 h
  · exact fun d hd => absurd hd List.not_mem_nil

theorem trails_declared (names : List Text) (name : Text) :
    ∀ d ∈ Check.declared names name span, d.mistake.Trails :=
  trails_ite trivial

theorem trails_declaredAll (names more : List Text) :
    ∀ d ∈ Check.declaredAll names span more, d.mistake.Trails := by
  induction more generalizing names with
  | nil => exact fun d hd => absurd hd List.not_mem_nil
  | cons n ns ih => exact List.forall_mem_append.2 ⟨trails_declared names n, ih _⟩

/-! #### Along the outlines of a row -/

variable {source file : Text} {tokens : List Token} {o : Outline} {os : List Outline}
  {parts : List (List Outline)}

/-- What is found inside of a node is found between the offsets of its row. -/
theorem widen (h : Row source file tokens lo [o] hi)
    (hfs : Row source file tokens o.span.start [o] o.span.stop → Reported o.span.start o.span.stop fs) :
    Reported lo hi fs :=
  (hfs h.narrow).mono (h.inside o List.mem_cons_self).1 (h.inside o List.mem_cons_self).2

/-- What is found about a node, and then inside of it. -/
theorem about (h : Row source file tokens lo [o] hi) (hds : FindsWithin (Eq o.span) ds)
    (hfs : Row source file tokens o.span.start [o] o.span.stop → Reported o.span.start o.span.stop fs) :
    Reported lo hi (ds ++ fs) :=
  widen h fun h => .before h.start_le_stop hds (hfs h)

/-- What is found about a node and nothing else. -/
theorem alone (h : Row source file tokens lo [o] hi) (hds : FindsWithin (Eq o.span) ds) :
    Reported lo hi ds := by
  rw [← List.append_nil ds]
  exact about h hds fun _ => .nil

/-- What is found in the first outline of a row and in the others. -/
theorem cons (h : Row source file tokens lo (o :: os) hi)
    (hfs : Row source file tokens lo [o] o.span.stop → Reported lo o.span.stop fs)
    (hgs : Row source file tokens o.span.stop os hi → Reported o.span.stop hi gs) :
    Reported lo hi (fs ++ gs) := by
  obtain ⟨hlo, hhi⟩ := h.inside o List.mem_cons_self
  have hlt := (h.sound o List.mem_cons_self).nonempty
  exact .append (hfs h.head) (hgs h.tail) (Nat.le_trans hlo (Nat.le_of_lt hlt)) hhi

/-- No mistake is found in an expression that looks like a type: a leaf, or a leaf in brackets. -/
theorem expr_of_isType (inLoop : Bool) {e : Expr} (h : (Outline.expr e).IsType) :
    Check.expr inLoop e = [] := by
  obtain ⟨t, ht⟩ := h
  induction t generalizing e with
  | named s n =>
    have hparts : (Outline.expr e).parts = [] := congrArg Outline.parts ht
    cases e with
    | number | string | bool | nil | ident => rfl
    | _ => simp [Outline.expr] at hparts
  | list s elem ih =>
    have hparts : (Outline.expr e).parts = [[Outline.type elem]] := congrArg Outline.parts ht
    cases e with
    | array span elems =>
      obtain _ | ⟨first, _ | ⟨second, more⟩⟩ := elems
      · cases hparts
      · have hfirst : Outline.expr first = Outline.type elem := by
          simpa [Outline.expr, Outline.exprs] using hparts
        simpa [Check.expr, Check.exprs] using ih hfirst
      · simp [Outline.expr, Outline.exprs] at hparts
    | object span list =>
      obtain _ | ⟨⟨k, first⟩, _ | ⟨second, more⟩⟩ := list
      · cases hparts
      · have hfirst : Outline.expr first = Outline.type elem := by
          simpa [Outline.expr, Outline.entries] using hparts
        simpa [Check.expr, Check.entries] using ih hfirst
      · simp [Outline.expr, Outline.entries] at hparts
    | unary span op e => exact ih (e := e) (by simpa [Outline.expr] using hparts)
    | step span op e => exact ih (e := e) (by simpa [Outline.expr] using hparts)
    | member span e name => exact ih (e := e) (by simpa [Outline.expr] using hparts)
    | construct span callSpan callee args =>
      -- the call in it has two groups, so it looks like no type
      cases elem <;> simp [Outline.expr, Outline.type] at hparts
    | _ => simp [Outline.expr] at hparts

/-- What is found in a node whose first group is an expression. The other groups stand behind it, unless it
looks like a type; but in such an expression nothing is found. -/
theorem first (h : Row source file tokens lo [.node span ([Outline.expr e] :: parts)] hi)
    (hos : parts.flatten = os)
    (hfs : ∀ hi, Row source file tokens span.start [Outline.expr e] hi →
      Reported span.start hi (Check.expr inLoop e))
    (hgs : ∀ lo, Row source file tokens lo os span.stop → Reported lo span.stop gs) :
    Reported span.start span.stop (Check.expr inLoop e ++ gs) := by
  cases h.forward _ List.mem_cons_self with
  | node line forward =>
    rcases line with hline | ⟨types, more, hgroups, htypes⟩
    · have hrow := h.flatten hline
      rw [List.flatten_cons, List.singleton_append, hos] at hrow
      exact cons hrow (hfs _) (hgs _)
    · obtain ⟨rfl, rfl⟩ := List.cons.inj hgroups
      rw [expr_of_isType inLoop (htypes _ List.mem_cons_self), List.nil_append]
      have hrow := h.group (.tail _ (.head _))
      rw [← List.flatten_singleton (l := more), hos] at hrow
      exact hgs _ hrow

/-- What is found in the entries of an object: the findings in their values, with those about keys between
them. -/
theorem keyed (inLoop : Bool) (hspan : span.start ≤ span.stop) (seen : List Text) (fs : List Finding)
    (es : List (Text × Expr))
    (h : Reported span.start span.stop (fs ++ Check.exprs inLoop (es.map Prod.snd))) :
    Reported span.start span.stop (fs ++ Check.entries inLoop span seen es) := by
  induction es generalizing fs seen with
  | nil => exact h
  | cons entry es ih =>
    obtain ⟨k, e⟩ := entry
    have hkey : FindsWithin (Eq span) (if seen.contains k then [⟨.keyTwice k, span⟩] else []) :=
      .ite (.single rfl _) .nil
    have hkeyed := insert hspan hkey (trails_ite trivial) h
    simp only [List.map_cons, Check.exprs, Check.entries, ← List.append_assoc] at hkeyed ⊢
    exact ih _ _ hkeyed

/-! #### Along a tree, each part of which stands in a row -/

mutual

theorem expr (inLoop : Bool) : ∀ e lo hi, Row source file tokens lo [Outline.expr e] hi →
    Reported lo hi (Check.expr inLoop e)
  | .number .., _, _, _ | .string .., _, _, _ | .bool .., _, _, _ | .nil .., _, _, _
  | .ident .., _, _, _ => nil
  | .array _ elems, _, _, h => widen h fun h => exprs inLoop elems _ _ (h.group (.head _))
  | .object _ list, _, _, h => widen h fun h =>
    keyed inLoop h.start_le_stop [] [] list (entries inLoop list _ _ (h.group (.head _)))
  | .unary _ _ e, _, _, h => widen h fun h => expr inLoop e _ _ (h.group (.head _))
  | .binary _ _ l r, _, _, h => widen h fun h => first h rfl (expr inLoop l _) (expr inLoop r · _)
  | .assign _ _ l r, _, _, h => widen h fun h => first h rfl (expr inLoop l _) (expr inLoop r · _)
  | .step _ _ e, _, _, h => widen h fun h => expr inLoop e _ _ (h.group (.head _))
  | .range _ l r, _, _, h => widen h fun h => first h rfl (expr inLoop l _) (expr inLoop r · _)
  | .member _ e _, _, _, h => widen h fun h => expr inLoop e _ _ (h.group (.head _))
  | .index _ l r, _, _, h => widen h fun h => first h rfl (expr inLoop l _) (expr inLoop r · _)
  | .call _ c args, _, _, h => widen h fun h =>
    first h (List.append_nil _) (expr inLoop c _) (exprs inLoop args · _)
  | .construct _ _ c args, _, _, h => widen h fun h => widen (h.group (.head _)) fun h =>
    first h (List.append_nil _) (expr inLoop c _) (exprs inLoop args · _)
  | .function f, _, _, h => function f _ _ h
  | .choose m, _, _, h => choice inLoop m _ _ h

theorem exprs (inLoop : Bool) : ∀ es lo hi, Row source file tokens lo (Outline.exprs es) hi →
    Reported lo hi (Check.exprs inLoop es)
  | [], _, _, _ => nil
  | e :: es, _, _, h => cons h (expr inLoop e _ _) (exprs inLoop es _ _)

theorem entries (inLoop : Bool) : ∀ es lo hi, Row source file tokens lo (Outline.entries es) hi →
    Reported lo hi (Check.exprs inLoop (es.map Prod.snd))
  | [], _, _, _ => nil
  | (_, e) :: es, _, _, h => cons h (expr inLoop e _ _) (entries inLoop es _ _)

theorem choice (inLoop : Bool) : ∀ m lo hi, Row source file tokens lo [Outline.choice m] hi →
    Reported lo hi (Check.choice inLoop m)
  | ⟨_, subject, list⟩, _, _, h => widen h fun h =>
    first h (List.append_nil _) (expr inLoop subject _) (arms inLoop list · _)

theorem arms (inLoop : Bool) : ∀ as lo hi, Row source file tokens lo (Outline.arms as) hi →
    Reported lo hi (Check.arms inLoop as)
  | [], _, _, _ => nil
  | a :: as, _, _, h => cons h (arm inLoop a _ _) (arms inLoop as _ _)

theorem arm (inLoop : Bool) : ∀ a lo hi, Row source file tokens lo [Outline.arm a] hi →
    Reported lo hi (Check.arm inLoop a)
  | ⟨_, none, body⟩, _, _, h => widen h fun h => armBody inLoop body _ _ (h.group (.head _))
  | ⟨_, some e, body⟩, _, _, h => widen h fun h =>
    first h rfl (expr inLoop e _) (armBody inLoop body · _)

theorem armBody (inLoop : Bool) : ∀ b lo hi, Row source file tokens lo [Outline.armBody b] hi →
    Reported lo hi (Check.armBody inLoop b)
  | .block b, _, _, h => block inLoop [] b _ _ h
  | .value _ e, _, _, h => widen h fun h => expr inLoop e _ _ (h.group (.head _))

/-- In a function the findings about its parameters come before those in its body. -/
theorem function : ∀ f lo hi, Row source file tokens lo [Outline.function f] hi →
    Reported lo hi (Check.function f)
  | ⟨_, _, _, _, body⟩, _, _, h => about h (.declaredAll rfl _ _) fun h =>
    block false _ body _ _ (h.group (.tail _ (.tail _ (.head _))))

theorem block (inLoop : Bool) (names : List Text) : ∀ b lo hi,
    Row source file tokens lo [Outline.block b] hi → Reported lo hi (Check.block inLoop names b)
  | ⟨_, body⟩, _, _, h => widen h fun h => stmts inLoop names body _ _ (h.group (.head _))

theorem stmts (inLoop : Bool) (names : List Text) : ∀ ss lo hi,
    Row source file tokens lo (Outline.stmts ss) hi → Reported lo hi (Check.stmts inLoop names ss)
  | [], _, _, _ => nil
  | s :: ss, _, _, h => cons h (stmt inLoop names s _ _) (stmts inLoop _ ss _ _)

theorem cond (inLoop : Bool) : ∀ c lo hi, Row source file tokens lo [Outline.cond c] hi →
    Reported lo hi (Check.cond inLoop c)
  | ⟨_, c, yes, none⟩, _, _, h => widen h fun h =>
    first h rfl (expr inLoop c _) (block inLoop [] yes · _)
  | ⟨_, c, yes, some no⟩, _, _, h => widen h fun h => by
    rw [Check.cond, List.append_assoc]
    exact first h rfl (expr inLoop c _) fun _ h =>
      cons h (block inLoop [] yes _ _) (elseBranch inLoop no _ _)

theorem elseBranch (inLoop : Bool) : ∀ b lo hi, Row source file tokens lo [Outline.elseBranch b] hi →
    Reported lo hi (Check.elseBranch inLoop b)
  | .block b, _, _, h => block inLoop [] b _ _ h
  | .chain c, _, _, h => cond inLoop c _ _ h

theorem methods (struct : Text) (seen : List Text) : ∀ ms lo hi,
    Row source file tokens lo (Outline.functions ms) hi → Reported lo hi (Check.methods struct seen ms)
  | [], _, _, _ => nil
  | m :: ms, _, _, h => cons h
    (fun h => about h (.ite (.single (Outline.span_function m) _) .nil) (function m _ _))
    (methods struct _ ms _ _)

theorem stmt (inLoop : Bool) (names : List Text) : ∀ s lo hi,
    Row source file tokens lo [Outline.stmt s] hi → Reported lo hi (Check.stmt inLoop names s)
  | .expr _ e, _, _, h => widen h fun h => expr inLoop e _ _ (h.group (.head _))
  | .block b, _, _, h => block inLoop [] b _ _ h
  | .declare _ name _ _ none, _, _, h => alone h (.declared rfl names name)
  | .declare _ name _ _ (some e), _, _, h => widen h fun h =>
    trailing h.start_le_stop (.declared rfl names name) (trails_declared names name)
      (expr inLoop e _ _ (h.group (.tail _ (.head _))))
  | .function f, _, _, h => about h (.declared (Outline.span_function f) names f.name) (function f _ _)
  | .cond c, _, _, h => cond inLoop c _ _ h
  | .whileLoop _ c body, _, _, h => widen h fun h =>
    first h rfl (expr inLoop c _) (block true [] body · _)
  | .foreachLoop _ _ _ e body, _, _, h => widen h fun h => by
    rw [Check.stmt, List.append_assoc]
    exact insert h.start_le_stop (.declaredAll rfl _ _) (trails_declaredAll _ _)
      (first h rfl (expr inLoop e _) (block true _ body · _))
  | .importing _ name _ _, _, _, h => alone h (.ite .nil (.declared rfl names name))
  | .struct _ name _ ms, _, _, h =>
    about h (.append (.declared rfl names name) (.map rfl _ _)) fun h =>
      methods name _ ms _ _ (h.group (.tail _ (.head _)))
  | .enum _ name _, _, _, h => alone h (.append (.declared rfl names name) (.map rfl _ _))
  | .choose _ m, _, _, h => widen h fun h => choice inLoop m _ _ (h.group (.head _))
  | .breakLoop _, _, _, h => alone h (.loopControl rfl inLoop .breakOutside)
  | .continueLoop _, _, _, h => alone h (.loopControl rfl inLoop .continueOutside)
  | .returning _ none, _, _, _ => nil
  | .returning _ (some e), _, _, h => widen h fun h => expr inLoop e _ _ (h.group (.head _))

end

end Reported

/-- Whether a diagnostic starts no later than another one. -/
def Diagnostic.StartsBy (d e : Diagnostic) : Prop :=
  ∃ l ∈ d.location, ∃ m ∈ e.location, l.start ≤ m.start

/-- Whether a diagnostic is about a place around that of another one, and starts earlier. -/
def Diagnostic.Surrounds (e d : Diagnostic) : Prop :=
  ∃ l ∈ d.location, ∃ m ∈ e.location, m.start < l.start ∧ l.stop ≤ m.stop

/-- Whether a diagnostic says that a name or a member is there twice. -/
def Diagnostic.Repeats (d : Diagnostic) : Prop :=
  d.code = .duplicateIdentifier ∨ d.code = .duplicateMember

namespace Finding

variable {f g : Finding}

theorem startsBy_diagnostic : f.diagnostic.StartsBy g.diagnostic ↔ f.span.start ≤ g.span.start := by
  simp [Diagnostic.StartsBy, diagnostic, Span.location]

theorem surrounds_diagnostic : g.diagnostic.Surrounds f.diagnostic ↔
    g.span.start < f.span.start ∧ f.span.stop ≤ g.span.stop := by
  simp [Diagnostic.Surrounds, diagnostic, Span.location]

theorem repeats_diagnostic (h : f.mistake.Trails) : f.diagnostic.Repeats := by
  obtain ⟨_ | _ | _ | _ | _ | _, span⟩ := f
  all_goals first | exact .inl rfl | exact .inr rfl | exact h.elim

/-- A finding that may follow another one and starts earlier is about a node around it. -/
theorem MayFollow.starts_or_surrounds (h : g.MayFollow f) :
    f.diagnostic.StartsBy g.diagnostic ∨ g.diagnostic.Surrounds f.diagnostic ∧ g.diagnostic.Repeats := by
  rw [startsBy_diagnostic, surrounds_diagnostic]
  rcases Nat.lt_or_ge g.span.start f.span.start with hlt | hge
  · obtain hle | ⟨htrails, -, hstop⟩ := h
    · exact absurd hle (Nat.not_le_of_lt hlt)
    · exact .inr ⟨⟨hlt, hstop⟩, repeats_diagnostic htrails⟩
  · exact .inl hge

theorem MayFollow.startsBy_iff (h : g.MayFollow f) :
    f.diagnostic.StartsBy g.diagnostic ↔ ¬ g.diagnostic.Surrounds f.diagnostic := by
  refine ⟨fun hle hsur => ?_, fun hnot => h.starts_or_surrounds.resolve_right fun hsur => hnot hsur.1⟩
  rw [startsBy_diagnostic] at hle
  exact absurd hle (Nat.not_le_of_lt (surrounds_diagnostic.1 hsur).1)

end Finding

/-- The findings in a program that is read from a text, each of which may follow those before it. -/
theorem Program.findings_order {source file : Text} {b : Block} (h : Program.parse source file = .ok b) :
    (Program.findings b).Pairwise fun f g => g.MayFollow f := by
  obtain ⟨tokens, start, stop, hrow⟩ := Program.row_parse h
  exact (Reported.stmts false [] b.body start stop hrow).order

/-- The diagnostics of a program come in the order of the source, but for those that say that a name or a
member is there twice: they may come after diagnostics about what stands inside of their place. So all of
them are in order exactly if none comes after one about something inside of its own place. -/
theorem Program.check_order {source file : Text} {b : Block} (h : Program.parse source file = .ok b) :
    (Program.check b).Pairwise (fun d e => d.StartsBy e ∨ e.Surrounds d ∧ e.Repeats) ∧
      ((Program.check b).Pairwise Diagnostic.StartsBy ↔
        (Program.check b).Pairwise fun d e => ¬ e.Surrounds d) := by
  have horder := Program.findings_order h
  refine ⟨List.pairwise_map.2 (horder.imp Finding.MayFollow.starts_or_surrounds), ?_⟩
  rw [Program.check, List.pairwise_map, List.pairwise_map]
  exact ⟨fun hstarts => (horder.and hstarts).imp fun h => h.1.startsBy_iff.1 h.2,
    fun hnot => (horder.and hnot).imp fun h => h.1.startsBy_iff.2 h.2⟩

/-- A declaration of a name that is taken, whose value gives a key twice. -/
def takenTwice : Text := "let a = 1; let a = \x7bx: 1, x: 2\x7d;"

/-- The key is found first, though the declaration starts before the object. -/
theorem takenTwice_findings : ∃ b, Program.parse takenTwice "main.em" = .ok b ∧
    (Program.findings b).map (·.span.start) = [19, 11] := by
  have hfound : ((Program.parse takenTwice "main.em").toOption.any fun b =>
      (Program.findings b).map (·.span.start) = [19, 11]) = true := by decide
  cases hb : Program.parse takenTwice "main.em" with
  | error => simp [hb, Except.toOption] at hfound
  | ok b => exact ⟨b, rfl, by simpa [hb, Except.toOption] using hfound⟩

theorem Program.check_order_takenTwice : ∃ b, Program.parse takenTwice "main.em" = .ok b ∧
    (Program.findings b).map (·.span.start) = [19, 11] ∧
    (Program.check b).Pairwise (fun d e => d.StartsBy e ∨ e.Surrounds d ∧ e.Repeats) ∧
      ((Program.check b).Pairwise Diagnostic.StartsBy ↔
        (Program.check b).Pairwise fun d e => ¬ e.Surrounds d) := by
  obtain ⟨b, hb, hstarts⟩ := takenTwice_findings
  exact ⟨b, hb, hstarts, Program.check_order hb⟩

/-- Not all programs have their diagnostics in order. -/
theorem Program.check_unordered : ¬ ∀ (source file : Text) (b : Block),
    Program.parse source file = .ok b → (Program.check b).Pairwise Diagnostic.StartsBy := by
  intro hall
  obtain ⟨b, hb, hstarts⟩ := takenTwice_findings
  have hordered : ((Program.findings b).map (·.span.start)).Pairwise (· ≤ ·) :=
    List.pairwise_map.2 <| (List.pairwise_map.1 (hall _ _ b hb)).imp Finding.startsBy_diagnostic.1
  rw [hstarts] at hordered
  exact absurd hordered (by decide)

end ScriptLang
