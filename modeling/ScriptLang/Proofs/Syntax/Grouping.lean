import ScriptLang.Proofs.Syntax.Operands

/-!
# How operators group

An expression of names, numbers and operators, without parentheses, is a list of items: an operand, and
more operands behind it, each after an operator. `Infix` is a tree of operators over such a list. It is
*grouped* if it respects the powers: what stands right of an operator holds together as tightly as the
operator asks for, and nothing that ends right before an operator asks for the operator too.

* Every list of items has a grouped tree, which is built from the left: `Infix.insert` puts the next
  operator at the place on the right spine where it belongs.
* The parser reads the items of a grouped tree as that tree (`Infix.climbs`). So no list has two.

Together, the parser gives the one grouped tree of a list (`Expr.reads_grouped`).
-/

namespace ScriptLang

open ScriptLang.Parser

/-! ### Items -/

/-- An operand or an operator of an expression without parentheses. -/
inductive Item where
  /-- An operand. -/
  | operand (e : Expr)
  /-- An operator between two operands. -/
  | operator (kind : Kind)

/-- The items of an operand with more operands behind it, each after an operator. -/
def Item.joined (first : Expr) (more : List (Kind × Expr)) : List Item :=
  .operand first :: more.flatMap fun (k, e) => [.operator k, .operand e]

/-- Whether a kind is an operator between two operands: it continues an expression, and an operand
follows it. -/
def Kind.isInfix (k : Kind) : Bool :=
  k.power?.isSome && !List.contains [.lparen, .lbracket, .dot, .plusPlus, .minusMinus] k

/-- The item that a lexeme stands for: a name, a number or an operator between operands. Digits that are
too many for a number are no operand. -/
def Lexeme.item? (l : Lexeme) : Option Item :=
  match l.kind with
  | .ident => some (.operand (.ident {} l.value))
  | .number => (Number.read? l.value).map fun v => .operand (.number {} v)
  | k => if k.isInfix ∧ l.value = k.name then some (.operator k) else none

/-- The powers of an operator. -/
def Kind.power (k : Kind) : Power := k.power?.getD ⟨0, 0⟩

theorem Kind.power?_of_isInfix {k : Kind} (h : k.isInfix = true) : k.power? = some k.power := by
  obtain ⟨p, hp⟩ := Option.isSome_iff_exists.1 (Bool.and_eq_true_iff.1 h).1
  rw [Kind.power, hp]
  rfl

/-- An operator groups to the left or to the right, and less tightly than an operand. -/
theorem Kind.power_bounds (k : Kind) : k.power.left ≤ k.power.right ∧
    k.power.right ≤ k.power.left + 1 ∧ k.power.right < 100 := by
  cases k <;> decide

/-- The items that lexemes stand for. -/
theorem Lexeme.item?_cases {l : Lexeme} {i : Item} (h : l.item? = some i) :
    (∃ name, l = ⟨.ident, name⟩ ∧ i = .operand (.ident {} name)) ∨
    (∃ text v, l = ⟨.number, text⟩ ∧ Number.read? text = some v ∧ i = .operand (.number {} v)) ∨
    ∃ k : Kind, k.isInfix = true ∧ l = k.lexeme ∧ i = .operator k := by
  obtain ⟨k, value⟩ := l
  unfold Lexeme.item? at h
  split at h
  · next hk =>
    cases hk
    cases h
    exact .inl ⟨value, rfl, rfl⟩
  · next hk =>
    cases hk
    obtain ⟨v, hv, rfl⟩ := Option.map_eq_some_iff.1 h
    exact .inr (.inl ⟨value, v, rfl, hv, rfl⟩)
  · split at h
    · next hk =>
      dsimp only at hk h
      obtain ⟨hoperator, rfl⟩ := hk
      cases h
      exact .inr (.inr ⟨k, hoperator, rfl, rfl⟩)
    · cases h

/-! ### Trees of operators -/

/-- A tree of operators. -/
inductive Infix where
  /-- An operand. -/
  | leaf (e : Expr)
  /-- An operator with what stands on its left and on its right. -/
  | node (kind : Kind) (left right : Infix)

namespace Infix

/-- The items of a tree, from the left to the right. -/
def yield : Infix → List Item
  | leaf e => [.operand e]
  | node k l r => l.yield ++ .operator k :: r.yield

/-- The operator at the root. -/
def root? : Infix → Option Kind
  | leaf _ => none
  | node k _ _ => some k

/-- The operators on the right spine, from the root. -/
def spine : Infix → List Kind
  | leaf _ => []
  | node k _ r => k :: r.spine

/-- Whether a tree respects the powers: at every operator, the root on its right holds its operand as
strongly as the operator asks for, and all operators on the right spine on its left ask for more than it
has. -/
def Grouped : Infix → Prop
  | leaf _ => True
  | node k l r => (∀ k' ∈ r.root?, k.power.right ≤ k'.power.left) ∧
      (∀ k' ∈ l.spine, k.power.left < k'.power.right) ∧ l.Grouped ∧ r.Grouped

/-! ### Every list has a grouped tree -/

/-- A tree with one more operator and operand behind it. -/
def insert (k : Kind) (e : Expr) : Infix → Infix
  | leaf x => node k (leaf x) (leaf e)
  | node k' l r =>
    if k'.power.right ≤ k.power.left then node k' l (r.insert k e)
    else node k (node k' l r) (leaf e)

theorem yield_insert (k : Kind) (e : Expr) (t : Infix) :
    (t.insert k e).yield = t.yield ++ [.operator k, .operand e] := by
  induction t with
  | leaf x => rfl
  | node k' l r _ ih =>
    rw [insert]
    split
    · rw [yield, ih, yield, List.append_assoc, List.cons_append]
    · rfl

/-- Below the root of a grouped tree the right spine asks for no less than the root does. -/
theorem right_le_of_mem_spine {k k' : Kind} {l r : Infix} (h : (node k l r).Grouped)
    (hk : k' ∈ (node k l r).spine) : k.power.right ≤ k'.power.right := by
  induction r generalizing k l with
  | leaf e =>
    rw [List.mem_singleton.1 hk]
  | node k₁ l₁ r₁ _ ih =>
    obtain ⟨hright, -, -, hr⟩ := h
    rcases List.mem_cons.1 hk with rfl | hk
    · exact Nat.le_refl _
    · have hroot := hright k₁ rfl
      have hbounds := k₁.power_bounds
      have hbelow := ih hr hk
      omega

/-- The root of a tree with one more operator is the old root or the new operator. -/
theorem root?_insert {k k' : Kind} {e : Expr} {t : Infix} (h : k' ∈ (t.insert k e).root?) :
    k' ∈ t.root? ∨ k' = k := by
  cases t with
  | leaf x => exact .inr (Option.mem_some.1 h).symm
  | node k₁ l r =>
    rw [insert] at h
    split at h
    · exact .inl h
    · exact .inr (Option.mem_some.1 h).symm

theorem grouped_insert (k : Kind) (e : Expr) {t : Infix} (h : t.Grouped) :
    (t.insert k e).Grouped := by
  induction t with
  | leaf x => exact ⟨nofun, nofun, trivial, trivial⟩
  | node k₁ l r _ ih =>
    rw [insert]
    split
    · next hle =>
      obtain ⟨hright, hleft, hl, hr⟩ := h
      refine ⟨fun k' hk' => ?_, hleft, hl, ih hr⟩
      rcases root?_insert hk' with hk' | rfl
      · exact hright k' hk'
      · exact hle
    · next hlt =>
      refine ⟨nofun, fun k' hk' => ?_, h, trivial⟩
      have := right_le_of_mem_spine h hk'
      omega

theorem exists_grouped (first : Expr) (more : List (Kind × Expr)) :
    ∃ t : Infix, t.yield = Item.joined first more ∧ t.Grouped := by
  have grow : ∀ (more : List (Kind × Expr)) (t : Infix), t.Grouped → ∃ t' : Infix,
      t'.yield = t.yield ++ (more.flatMap fun (k, e) => [.operator k, .operand e]) ∧
        t'.Grouped := by
    intro more
    induction more with
    | nil => exact fun t ht => ⟨t, (List.append_nil _).symm, ht⟩
    | cons p more ih =>
      intro t ht
      obtain ⟨t', hyield, ht'⟩ := ih (t.insert p.1 p.2) (grouped_insert p.1 p.2 ht)
      refine ⟨t', ?_, ht'⟩
      rw [hyield, yield_insert, List.append_assoc]
      rfl
  exact grow more (leaf first) trivial

end Infix

/-! ### The expression of a tree -/

/-- The expression of an operator with its operands. -/
def Kind.join (k : Kind) (l r : Expr) : Expr :=
  if k = .dotDot then .range {} l r
  else if k.isAssignment then .assign {} (.ofSpelling k.name) l r
  else .binary {} (.ofSpelling k.name) l r

/-- The expression of a tree of operators. -/
def Infix.expr : Infix → Expr
  | leaf e => e
  | node k l r => k.join l.expr r.expr

/-- The tree of the operators of an expression. Every other expression is an operand. -/
def Expr.infixes : Expr → Infix
  | .binary _ op l r => .node op.kind l.infixes r.infixes
  | .assign _ op l r => .node op.kind l.infixes r.infixes
  | .range _ l r => .node .dotDot l.infixes r.infixes
  | e => .leaf e.bare

namespace Kind

theorem bare_join (k : Kind) (l r : Expr) : (k.join l r).bare = k.join l.bare r.bare := by
  unfold join
  split
  · rfl
  split
  · rfl
  · rfl

theorem left?_join (k : Kind) (l r : Expr) : (k.join l r).left? = some l := by
  unfold join
  split
  · rfl
  split
  · rfl
  · rfl

/-- An assignment is read from its own kind of token. -/
theorem assign_of_isInfix : ∀ k : Kind, k.isInfix = true → k ≠ .dotDot → k.isAssignment = true →
    (AssignOp.ofSpelling k.name).kind = k := by
  intro k
  cases k <;> decide

/-- Every other operator but that of a range is read from its own kind of token. -/
theorem binary_of_isInfix : ∀ k : Kind, k.isInfix = true → k ≠ .dotDot → k.isAssignment ≠ true →
    (BinaryOp.ofSpelling k.name).kind = k := by
  intro k
  cases k <;> decide

theorem between_of_isInfix : ∀ k : Kind, k.isInfix = true → k ≠ .dotDot →
    k ∉ [.lparen, .lbracket, .dot, .plusPlus, .minusMinus, .dotDot] := by
  intro k
  cases k <;> decide

theorem join_binary {op : BinaryOp} (h : op.kind.isInfix = true) (l r : Expr) :
    op.kind.join l r = .binary {} op l r := by
  have hop : op ∈ BinaryOp.known := by
    cases op with
    | other t => cases h
    | _ => decide
  obtain ⟨hbetween, hassign, hspelling⟩ := Spell.binary_between op hop
  have hdot : op.kind ≠ .dotDot := fun heq => hbetween (by simp [heq])
  rw [join, if_neg hdot, hassign, if_neg Bool.false_ne_true, hspelling]

theorem join_assign {op : AssignOp} (h : op.kind.isInfix = true) (l r : Expr) :
    op.kind.join l r = .assign {} op l r := by
  have hop : op ∈ AssignOp.known := by
    cases op with
    | other t => cases h
    | _ => decide
  obtain ⟨hbetween, hassign, hspelling⟩ := Spell.assign_between op hop
  have hdot : op.kind ≠ .dotDot := fun heq => hbetween (by simp [heq])
  rw [join, if_neg hdot, if_pos hassign, hspelling]

/-- An expression that differs only in its places from one that an operator makes. -/
theorem infixes_of_bare {k : Kind} (hk : k.isInfix = true) {e l r : Expr} (h : e.bare = k.join l r) :
    ∃ l' r' : Expr, e.infixes = .node k l'.infixes r'.infixes ∧ l'.bare = l ∧ r'.bare = r := by
  unfold join at h
  split at h
  · next hdot =>
    cases e <;> try cases h
    next l' r' => exact ⟨l', r', by rw [Expr.infixes, hdot], rfl, rfl⟩
  · next hdot =>
    split at h
    · next ha =>
      cases e <;> cases h
      next l' r' => exact ⟨l', r', by rw [Expr.infixes, assign_of_isInfix k hk hdot ha], rfl, rfl⟩
    · next ha =>
      cases e <;> cases h
      next l' r' => exact ⟨l', r', by rw [Expr.infixes, binary_of_isInfix k hk hdot ha], rfl, rfl⟩

end Kind

/-! ### The items of a tree -/

/-- What the items of a tree say about its operands and operators. -/
structure Item.Stands (i : Item) : Prop where
  /-- An operand is a name or a number. -/
  operand : ∀ e, i = .operand e → e.bare = e ∧ e.infixes = .leaf e
  /-- An operator is one between operands. -/
  operator : ∀ k, i = .operator k → k.isInfix = true

theorem Lexeme.stands_of_item? {l : Lexeme} {i : Item} (h : l.item? = some i) : i.Stands := by
  rcases Lexeme.item?_cases h with ⟨name, -, rfl⟩ | ⟨text, v, -, -, rfl⟩ | ⟨k, hk, -, rfl⟩
  · exact ⟨by rintro _ ⟨⟩; exact ⟨rfl, rfl⟩, nofun⟩
  · exact ⟨by rintro _ ⟨⟩; exact ⟨rfl, rfl⟩, nofun⟩
  · exact ⟨nofun, by rintro _ ⟨⟩; exact hk⟩

theorem Lexeme.stands_of_items {ls : List Lexeme} {items : List Item}
    (h : ls.map Lexeme.item? = items.map some) : ∀ i ∈ items, i.Stands := by
  intro i hi
  have hmem : some i ∈ ls.map Lexeme.item? := h ▸ List.mem_map_of_mem hi
  obtain ⟨l, -, hl⟩ := List.mem_map.1 hmem
  exact stands_of_item? hl

/-- The expression of a tree over names and numbers has no places. -/
theorem Infix.bare_expr {t : Infix} (h : ∀ i ∈ t.yield, i.Stands) : t.expr.bare = t.expr := by
  induction t with
  | leaf e => exact ((h _ (List.mem_singleton_self _)).operand e rfl).1
  | node k l r ihl ihr =>
    simp only [yield, List.mem_append, List.mem_cons] at h
    rw [expr, Kind.bare_join, ihl fun i hi => h i (.inl hi), ihr fun i hi => h i (.inr (.inr hi))]

namespace Expr

/-- An expression that differs only in its places from that of a tree has this tree. -/
theorem infixes_of_bare {t : Infix} (h : ∀ i ∈ t.yield, i.Stands) {e : Expr}
    (he : e.bare = t.expr) : e.infixes = t := by
  induction t generalizing e with
  | leaf x =>
    have hx := ((h _ (List.mem_singleton_self _)).operand x rfl).2
    obtain rfl : e.bare = x := he
    cases e with
    | binary | assign | range => cases hx
    | _ => rfl
  | node k l r ihl ihr =>
    simp only [Infix.yield, List.mem_append, List.mem_cons] at h
    have hk := (h (.operator k) (.inr (.inl rfl))).operator k rfl
    obtain ⟨l', r', htree, hl, hr⟩ := Kind.infixes_of_bare hk he
    rw [htree, ihl (fun i hi => h i (.inl hi)) hl, ihr (fun i hi => h i (.inr (.inr hi))) hr]

/-- An expression over names and numbers is that of its tree. -/
theorem expr_infixes : ∀ e : Expr, (∀ i ∈ e.infixes.yield, i.Stands) → e.infixes.expr = e.bare
  | .binary _ op l r, h => by
    simp only [infixes, Infix.yield, List.mem_append, List.mem_cons] at h
    have hk := (h (.operator op.kind) (.inr (.inl rfl))).operator _ rfl
    rw [infixes, Infix.expr, Kind.join_binary hk, expr_infixes l fun i hi => h i (.inl hi),
      expr_infixes r fun i hi => h i (.inr (.inr hi))]
    rfl
  | .assign _ op l r, h => by
    simp only [infixes, Infix.yield, List.mem_append, List.mem_cons] at h
    have hk := (h (.operator op.kind) (.inr (.inl rfl))).operator _ rfl
    rw [infixes, Infix.expr, Kind.join_assign hk, expr_infixes l fun i hi => h i (.inl hi),
      expr_infixes r fun i hi => h i (.inr (.inr hi))]
    rfl
  | .range _ l r, h => by
    simp only [infixes, Infix.yield, List.mem_append, List.mem_cons] at h
    rw [infixes, Infix.expr, Kind.join, if_pos rfl, expr_infixes l fun i hi => h i (.inl hi),
      expr_infixes r fun i hi => h i (.inr (.inr hi))]
    rfl
  | .number .., _ | .string .., _ | .bool .., _ | .nil .., _ | .ident .., _ | .array .., _
  | .object .., _ | .unary .., _ | .step .., _ | .member .., _ | .index .., _ | .call .., _
  | .construct .., _ | .function _, _ | .choose _, _ => rfl

end Expr

/-! ### The items of a grouped tree are read as that tree -/

namespace Parser

/-- A name or a number, read as an operand. -/
theorem operand_of_item? {l : Lexeme} {e : Expr} (h : l.item? = some (.operand e)) :
    Operand [l] 100 true e := by
  rcases Lexeme.item?_cases h with ⟨name, rfl, he⟩ | ⟨text, v, rfl, hv, he⟩ | ⟨k, -, -, he⟩
  · cases he
    refine .of_settles rfl Kind.noConfusion (by simp) fun d _ rest _ => ?_
    rw [Parser.operand]
    refine .peek fun t ht => ?_
    rw [show t.kind = .ident from congrArg Lexeme.kind ht,
      show t.value = name from congrArg Lexeme.value ht]
    exact .advance fun _ _ => .pure rfl
  · cases he
    refine .of_settles rfl Kind.noConfusion (by simp) fun d _ rest _ => ?_
    rw [Parser.operand]
    refine .peek fun t ht => ?_
    rw [show t.kind = .number from congrArg Lexeme.kind ht]
    change Settles numberLiteral _ _ _ _
    rw [numberLiteral]
    refine .peek fun t ht => ?_
    rw [show t.value = text from congrArg Lexeme.value ht, hv]
    exact .advance fun _ _ => .pure rfl
  · cases he

/-- An operator between two operands, whichever it is. -/
theorem settles_infix {k : Kind} (hk : k.isInfix = true) {d n right : Nat} {ls rest : List Lexeme}
    {l l' r : Expr} (hl : l'.bare = l.bare)
    (hr : Settles ((Rules.ofDepth d).expr right) ls rest true fun c => c.bare = r.bare) :
    Settles (extend (Rules.ofDepth d) n right l') (k.lexeme :: ls) rest true
      fun c => c.bare = (k.join l r).bare := by
  rw [Kind.bare_join, Kind.join]
  split
  · next hdot =>
    rw [hdot]
    exact settles_range hl hr
  · next hdot =>
    exact settles_between k.lexeme (Kind.between_of_isInfix k hk hdot) hl hr

end Parser

namespace Infix

/-- The least power with which a tree is still read as a whole. -/
def level : Infix → Nat
  | leaf _ => 100
  | node k _ _ => k.power.left

/-- The power that an operator behind a tree must stay below. -/
def edge : Infix → Nat
  | leaf _ => 100
  | node k _ _ => k.power.right

theorem level_le_edge : ∀ t : Infix, t.level ≤ t.edge
  | leaf _ => Nat.le_refl _
  | node k _ _ => k.power_bounds.1

/-- The tree on the left of an operator is not taken apart by it. -/
theorem left_holds {k : Kind} {l : Infix} (h : ∀ k' ∈ l.spine, k.power.left < k'.power.right) :
    k.power.left < l.edge ∧ k.power.left ≤ l.level := by
  have hk := k.power_bounds
  cases l with
  | leaf e =>
    simp only [edge, level]
    omega
  | node k' l r =>
    have hroot := h k' List.mem_cons_self
    have hk' := k'.power_bounds
    simp only [edge, level]
    omega

/-- The tree on the right of an operator is read as a whole. -/
theorem right_holds {k : Kind} {r : Infix} (h : ∀ k' ∈ r.root?, k.power.right ≤ k'.power.left) :
    k.power.right ≤ r.level := by
  cases r with
  | leaf e => exact Nat.le_of_lt k.power_bounds.2.2
  | node k' l r => exact h k' rfl

/-- Lexemes that stand for the items of a grouped tree bring the climb to its expression. -/
theorem climbs {t : Infix} (hg : t.Grouped) {ls : List Lexeme}
    (h : ls.map Lexeme.item? = t.yield.map some) : Climbs ls t.level t.edge true t.expr := by
  induction t generalizing ls with
  | leaf e =>
    obtain ⟨l, rfl, hl⟩ := List.map_eq_singleton_iff.1 h
    exact (operand_of_item? hl).climbs _ (by simp)
  | node k l r ihl ihr =>
    obtain ⟨hright, hleft, hgl, hgr⟩ := hg
    rw [yield, List.map_append, List.map_cons] at h
    obtain ⟨ls₁, ls', rfl, h₁, h'⟩ := List.map_eq_append_iff.1 h
    obtain ⟨op, ls₂, rfl, hop, h₂⟩ := List.map_eq_cons_iff.1 h'
    obtain ⟨hk, rfl⟩ : k.isInfix = true ∧ op = k.lexeme := by
      rcases Lexeme.item?_cases hop with ⟨_, -, he⟩ | ⟨_, _, -, -, he⟩ | ⟨k', hk', hl, he⟩
      · cases he
      · cases he
      · cases he
        exact ⟨hk', hl⟩
    have hholds := left_holds hleft
    refine (ihl hgl h₁).extend (e := k.join l.expr r.expr) (Kind.power?_of_isInfix hk) hholds.1
      hholds.2 (Kind.left?_join k _ _) fun d n l' hl' hd hn rest hf => ?_
    exact settles_infix hk hl' ((ihr hgr h₂).settles r.level_le_edge (by omega) (right_holds hright) hf)

end Infix

/-- The depth that a stream starts with is enough for the lexemes in it. -/
theorem Stream.lt_depth {s : Stream} {ls rest : List Lexeme} (h : s.ahead = ls ++ rest) :
    4 * ls.length < s.depth := by
  have hlength := congrArg List.length h
  rw [List.length_append, Stream.ahead, List.length_cons, List.length_map] at hlength
  rw [Stream.depth]
  omega

/-- The parser reads operands with operators between them as the one grouped tree over them, up to the
token behind them, which continues no expression. -/
theorem Expr.reads_grouped {first : Expr} {more : List (Kind × Expr)} {ls rest : List Lexeme}
    (hls : ls.map Lexeme.item? = (Item.joined first more).map some) (hrest : rest ≠ [])
    (hstop : (Lexeme.first rest).power? = none) {s : Stream} (hs : s.ahead = ls ++ rest) {d : Nat}
    (hd : 4 * ls.length < d) :
    ∃ e s', (Rules.ofDepth d).expr 0 s = .ok (e, s') ∧ s'.ahead = rest ∧
      e.infixes.yield = Item.joined first more ∧ e.infixes.Grouped ∧
      ∀ e' : Expr, e'.infixes.yield = Item.joined first more → e'.infixes.Grouped →
        e'.bare = e.bare := by
  have hstands := Lexeme.stands_of_items hls
  have hread {t : Infix} (hyield : t.yield = Item.joined first more) (hgrouped : t.Grouped) :
      ∃ e s', (Rules.ofDepth d).expr 0 s = .ok (e, s') ∧ s'.ahead = rest ∧ e.bare = t.expr := by
    have hclimbs := t.climbs hgrouped (hyield ▸ hls)
    rw [← Infix.bare_expr (hyield ▸ hstands)]
    exact (hclimbs.settles t.level_le_edge hd (Nat.zero_le _) (.of_none hstop 0) s hrest hs).1 rfl
  obtain ⟨t, hyield, hgrouped⟩ := Infix.exists_grouped first more
  obtain ⟨e, s', he, hs', hbare⟩ := hread hyield hgrouped
  have htree : e.infixes = t := Expr.infixes_of_bare (hyield ▸ hstands) hbare
  refine ⟨e, s', he, hs', htree ▸ hyield, htree ▸ hgrouped, fun e' hyield' hgrouped' => ?_⟩
  -- the parser reads the items of any other grouped tree as that tree, and it reads them once
  obtain ⟨e₁, s₁, he₁, -, hbare₁⟩ := hread hyield' hgrouped'
  obtain rfl : e = e₁ := (Prod.mk.inj (Except.ok.inj (he.symm.trans he₁))).1
  rw [hbare₁, Expr.expr_infixes e' (hyield' ▸ hstands)]

/-- Operators of four levels, one of which groups to the right. -/
theorem Expr.reads_grouped_mixed : ∃ ts v e s', Token.scan "a ?? 2 ** b ** c..d - e" "main" = .ok ts ∧
    Number.read? "2" = some v ∧
    (Rules.ofDepth (Stream.ofTokens ts).depth).expr 0 (Stream.ofTokens ts) = .ok (e, s') ∧
    s'.ahead = [.eof] ∧ e.infixes.Grouped ∧ e.infixes.yield = Item.joined (.ident {} "a")
      [(.nilCoalesce, .number {} v), (.starStar, .ident {} "b"), (.starStar, .ident {} "c"),
        (.dotDot, .ident {} "d"), (.minus, .ident {} "e")] := by
  obtain ⟨ts, ls, hts, hls, hahead⟩ : ∃ ts ls, Token.scan "a ?? 2 ** b ** c..d - e" "main" = .ok ts ∧
      ls = [.ident "a", Kind.nilCoalesce.lexeme, ⟨.number, "2"⟩, Kind.starStar.lexeme, .ident "b",
        Kind.starStar.lexeme, .ident "c", Kind.dotDot.lexeme, .ident "d", Kind.minus.lexeme,
        .ident "e"] ∧ (Stream.ofTokens ts).ahead = ls ++ [.eof] := ⟨_, _, rfl, rfl, rfl⟩
  obtain ⟨v, hv⟩ : ∃ v, Number.read? "2" = some v := ⟨_, rfl⟩
  have hitems : ls.map Lexeme.item? = (Item.joined (.ident {} "a")
      [(.nilCoalesce, .number {} v), (.starStar, .ident {} "b"), (.starStar, .ident {} "c"),
        (.dotDot, .ident {} "d"), (.minus, .ident {} "e")]).map some := by
    have hnumber : Lexeme.item? ⟨.number, "2"⟩ = some (.operand (.number {} v)) := by
      rw [Lexeme.item?, hv]
      rfl
    rw [hls]
    simp only [List.map_cons, hnumber]
    rfl
  obtain ⟨e, s', he, hs', hyield, hgrouped, -⟩ :=
    Expr.reads_grouped hitems (List.cons_ne_nil _ _) rfl hahead (Stream.lt_depth hahead)
  exact ⟨ts, v, e, s', hts, hv, he, hs', hgrouped, hyield⟩

end ScriptLang
