import Mathlib.Data.List.Perm.Subperm
import ScriptLang.Proofs.Store.Content
import ScriptLang.Proofs.Store.Names

/-!
# Chains of references

A value that refers to a cell leads on to the content of that cell, which may refer to a cell in turn. The
cells on this way are the *chain* of the value. A value unwraps just when its chain ends, and then no cell
is on it twice, so it has room among the cells and is found within the bound on steps.

A new cell lengthens no chain, and a write to a cell leaves all chains with an end if the chain of what is
written does not lead through that very cell. If it does, the chain of the cell comes back to it and never
ends.
-/

namespace ScriptLang

/-- The cell that a value refers to, with annotations or without. -/
def Value.referent? : Value → Option CellId
  | reference _ c => c
  | typed v _ => v.referent?
  | _ => none

theorem Value.referent?_eq (v : Value) :
    v.referent? = match v.untyped with
      | .reference _ c => c
      | _ => none := by
  induction v with
  | typed _ _ ih => exact ih
  | _ => rfl

theorem Value.referent?_of_isRaw {v : Value} (h : v.isRaw = true) : v.referent? = none := by
  cases v with
  | typed => cases h
  | reference => cases h
  | _ => rfl

theorem Value.referent?_plain (v : Value) : v.plain.referent? = v.referent? := by cases v <;> rfl

namespace Store

/-- The cells that a value leads through, if there is an end to them. -/
inductive Chain (s : Store) : Value → List CellId → Prop
  /-- A value that refers to no cell. -/
  | done {v : Value} (h : v.referent? = none) : Chain s v []
  /-- A value that refers to a cell. -/
  | step {v : Value} {c : CellId} {cs : List CellId} (h : v.referent? = some c)
    (hc : Chain s (s.read c) cs) : Chain s v (c :: cs)

/-- Whether the chain of a value leads through a cell among its first `n + 1` cells. -/
def leadsWithin (s : Store) (c : CellId) : Nat → Value → Bool
  | n, v =>
    match v.referent? with
    | none => false
    | some d =>
      d == c ||
        match n with
        | 0 => false
        | n + 1 => leadsWithin s c n (s.read d)

/-- Whether the chain of a value leads through a cell. -/
def leadsTo (s : Store) (v : Value) (c : CellId) : Bool := s.leadsWithin c s.cells.size v

variable {s t : Store} {v w : Value} {c d : CellId} {cs ds : List CellId} {n : Nat}

/-! ### Chains have room -/

namespace Chain

theorem unique (h : s.Chain v cs) (h' : s.Chain v ds) : ds = cs := by
  induction h generalizing ds with
  | done hv =>
    cases h' with
    | done => rfl
    | step hv' => cases hv.symm.trans hv'
  | step hv _ ih =>
    cases h' with
    | done hv' => cases hv.symm.trans hv'
    | step hv' hds =>
      cases hv.symm.trans hv'
      rw [ih hds]

/-- The chain of a value depends on the cell that it refers to only. -/
theorem of_referent? (h : s.Chain v cs) (hw : w.referent? = v.referent?) : s.Chain w cs := by
  cases h with
  | done hv => exact .done (hw.trans hv)
  | step hv hcs => exact .step (hw.trans hv) hcs

/-- From a cell on a chain on, the rest of it is left. -/
theorem rest (h : s.Chain v cs) (hc : c ∈ cs) :
    ∃ ds, s.Chain (s.read c) ds ∧ ds.length < cs.length := by
  induction h with
  | done => exact absurd hc List.not_mem_nil
  | @step v d cs _ hcs ih =>
    rcases List.mem_cons.1 hc with rfl | hc
    · exact ⟨cs, hcs, Nat.lt_succ_self _⟩
    · obtain ⟨ds, hds, hlt⟩ := ih hc
      exact ⟨ds, hds, Nat.lt_succ_of_lt hlt⟩

/-- A chain leads through no cell twice. -/
theorem nodup (h : s.Chain v cs) : cs.Nodup := by
  induction h with
  | done => exact List.nodup_nil
  | step _ hcs ih =>
    refine List.nodup_cons.2 ⟨fun hmem => ?_, ih⟩
    obtain ⟨ds, hds, hlt⟩ := hcs.rest hmem
    exact absurd (hcs.unique hds ▸ hlt) (Nat.lt_irrefl _)

/-- All cells of a chain but the last are there. -/
theorem lt_size (h : s.Chain v cs) : ∀ c ∈ cs.dropLast, c < s.cells.size := by
  induction h with
  | done => exact fun c hc => absurd hc List.not_mem_nil
  | @step v d cs _ hcs ih =>
    cases hcs with
    | done => exact fun c hc => absurd hc List.not_mem_nil
    | step hd _ =>
      intro c hc
      rcases List.mem_cons.1 hc with rfl | hc
      · refine Nat.lt_of_not_le fun hle => ?_
        rw [read_of_size_le hle] at hd
        cases hd
      · exact ih c hc

theorem length_le (h : s.Chain v cs) : cs.length ≤ s.cells.size + 1 := by
  have hsub : cs.dropLast ⊆ List.range s.cells.size := fun c hc => List.mem_range.2 (h.lt_size c hc)
  have hle := (List.subperm_of_subset (h.nodup.sublist (List.dropLast_sublist cs)) hsub).length_le
  rw [List.length_dropLast, List.length_range] at hle
  exact Nat.le_add_of_sub_le hle

end Chain

/-! ### Chains and raw values -/

theorem rawWithin_done (h : v.referent? = none) (n : Nat) : ∃ w, s.rawWithin n v = some w := by
  rw [Value.referent?_eq] at h
  unfold rawWithin
  generalize v.untyped = u at h ⊢
  cases u with
  | reference id c =>
    cases h
    exact ⟨_, rfl⟩
  | _ => exact ⟨_, rfl⟩

theorem rawWithin_step (h : v.referent? = some c) :
    s.rawWithin n v = match n with
      | 0 => none
      | n + 1 => s.rawWithin n (s.read c) := by
  rw [Value.referent?_eq] at h
  conv_lhs => unfold rawWithin
  generalize v.untyped = u at h ⊢
  cases u with
  | reference id c' =>
    cases h
    rfl
  | _ => cases h

theorem Chain.rawWithin (h : s.Chain v cs) (hn : cs.length ≤ n) : ∃ w, s.rawWithin n v = some w := by
  induction h generalizing n with
  | done hv => exact rawWithin_done hv n
  | step hv _ ih =>
    rw [rawWithin_step hv]
    cases n with
    | zero => cases hn
    | succ n => exact ih (Nat.le_of_succ_le_succ hn)

theorem chain_of_rawWithin (h : s.rawWithin n v = some w) : ∃ cs, s.Chain v cs := by
  induction n generalizing v with
  | zero =>
    cases hv : v.referent? with
    | none => exact ⟨[], .done hv⟩
    | some c =>
      rw [rawWithin_step hv] at h
      cases h
  | succ n ih =>
    cases hv : v.referent? with
    | none => exact ⟨[], .done hv⟩
    | some c =>
      rw [rawWithin_step hv] at h
      obtain ⟨cs, hcs⟩ := ih h
      exact ⟨c :: cs, .step hv hcs⟩

/-- Whether a value unwraps: behind its references and annotations there is a value that is neither a
reference nor typed. -/
def Unwraps (s : Store) (v : Value) : Prop := ∃ w, s.raw? v = some w ∧ w.isRaw = true

/-- A value unwraps just when its chain has an end. -/
theorem unwraps_iff : s.Unwraps v ↔ ∃ cs, s.Chain v cs := by
  refine ⟨fun ⟨_, h, _⟩ => chain_of_rawWithin h, fun ⟨cs, h⟩ => ?_⟩
  obtain ⟨w, hw⟩ := h.rawWithin h.length_le
  exact ⟨w, hw, isRaw_of_raw? hw⟩

/-! ### Cells on a chain -/

/-- A chain with an end is searched to its end. -/
theorem leadsWithin_iff (h : s.Chain v cs) (hn : cs.length ≤ n + 1) :
    s.leadsWithin c n v = true ↔ c ∈ cs := by
  induction h generalizing n with
  | done hv =>
    unfold leadsWithin
    rw [hv]
    exact iff_of_false Bool.false_ne_true List.not_mem_nil
  | @step v d cs hv hcs ih =>
    unfold leadsWithin
    rw [hv]
    simp only [Bool.or_eq_true, beq_iff_eq, List.mem_cons, eq_comm (a := d)]
    refine or_congr_right ?_
    cases n with
    | zero =>
      obtain rfl := List.length_eq_zero_iff.1 (Nat.le_zero.1 (Nat.le_of_succ_le_succ hn))
      exact iff_of_false Bool.false_ne_true List.not_mem_nil
    | succ n => exact ih (Nat.le_of_succ_le_succ hn)

theorem leadsTo_iff (h : s.Chain v cs) : s.leadsTo v c = true ↔ c ∈ cs :=
  leadsWithin_iff h h.length_le

theorem leadsTo_plain (v : Value) : s.leadsTo v.plain c = s.leadsTo v c := by
  unfold leadsTo leadsWithin
  rw [Value.referent?_plain]

/-! ### Chains after a change -/

/-- A chain that does not lead through a cell does not change when that cell is written to. -/
theorem Chain.write_of_not_mem (h : s.Chain v cs) (hc : c ∉ cs) (w : Value) :
    (s.write c w).Chain v cs := by
  induction h with
  | done hv => exact .done hv
  | @step v d cs hv _ ih =>
    have hne : c ≠ d := fun h => hc (h ▸ List.mem_cons_self)
    refine .step hv ?_
    rw [read_write_of_ne hne]
    exact ih fun h => hc (List.mem_cons_of_mem _ h)

/-- A write leaves all chains with an end if the chain of what is written does not lead through the
cell. -/
theorem Chain.write (h : s.Chain v cs) (hw : s.Chain w ds) (hc : c ∉ ds) :
    ∃ cs, (s.write c w).Chain v cs := by
  induction h with
  | done hv => exact ⟨[], .done hv⟩
  | @step v d cs hv hcs ih =>
    obtain ⟨es, hes⟩ := ih
    by_cases hcd : c = d
    · subst hcd
      by_cases hlt : c < s.cells.size
      · refine ⟨c :: ds, .step hv ?_⟩
        rw [read_write hlt, if_pos rfl]
        exact hw.write_of_not_mem hc w
      · have hsize : (s.write c w).cells.size ≤ c := by
          rw [size_write]
          exact Nat.le_of_not_lt hlt
        refine ⟨[c], .step hv (.done ?_)⟩
        rw [read_of_size_le hsize]
        rfl
    · refine ⟨d :: es, .step hv ?_⟩
      rwa [read_write_of_ne hcd]

/-- A cell that was written to is on every chain that led through it. -/
theorem mem_of_leadsWithin (h : s.leadsWithin c n v = true) (hcs : (s.write c w).Chain v cs) :
    c ∈ cs := by
  induction n generalizing v cs with
  | zero =>
    unfold leadsWithin at h
    cases hcs with
    | done hv =>
      rw [hv] at h
      cases h
    | step hv _ =>
      rw [hv] at h
      simp only [Bool.or_false, beq_iff_eq] at h
      exact h ▸ List.mem_cons_self
  | succ n ih =>
    unfold leadsWithin at h
    cases hcs with
    | done hv =>
      rw [hv] at h
      cases h
    | @step _ d ds hv hds =>
      rw [hv] at h
      simp only [Bool.or_eq_true, beq_iff_eq] at h
      by_cases hdc : d = c
      · exact hdc ▸ List.mem_cons_self
      · rw [read_write_of_ne (Ne.symm hdc)] at hds
        exact List.mem_cons_of_mem _ (ih (h.resolve_left hdc) hds)

/-- When a value is written to a cell that it leads through, its chain has no end any more. -/
theorem not_unwraps_write (h : s.leadsTo v c = true) (hc : c < s.cells.size) :
    ¬ (s.write c v).Unwraps v := by
  intro hunwraps
  obtain ⟨cs, hcs⟩ := unwraps_iff.1 hunwraps
  obtain ⟨ds, hds, hlt⟩ := hcs.rest (mem_of_leadsWithin h hcs)
  rw [read_write hc, if_pos rfl] at hds
  exact absurd (hcs.unique hds ▸ hlt) (Nat.lt_irrefl _)

/-! ### Stores in which all chains end -/

/-- Stores in which everything refers to cells that are there and every chain has an end. -/
structure Grounded (s : Store) : Prop where
  /-- Names are bound to cells that are there. -/
  bindings : ∀ {id name b}, (s.scope id).find? name = some b → b.cell < s.cells.size
  /-- So are references. -/
  contents : ∀ {c d}, (s.read c).referent? = some d → d < s.cells.size
  /-- Every value unwraps. -/
  chains : ∀ v, ∃ cs, s.Chain v cs

namespace Grounded

/-- A change that leaves the cells as they are and adds no binding. -/
theorem of_cells (h : s.Grounded) (hc : t.cells = s.cells)
    (hs : ∀ {id name b}, (t.scope id).find? name = some b → (s.scope id).find? name = some b) :
    t.Grounded := by
  have hread : t.read = s.read := by
    unfold read
    rw [hc]
  refine ⟨fun hb => hc ▸ h.bindings (hs hb), fun hd => ?_, fun v => ?_⟩
  · rw [hread] at hd
    exact hc ▸ h.contents hd
  · obtain ⟨cs, hcs⟩ := h.chains v
    refine ⟨cs, ?_⟩
    induction hcs with
    | done hv => exact .done hv
    | step hv _ ih =>
      refine .step hv ?_
      rwa [hread]

/-- A new cell is on no chain of a value that refers to cells that were there. -/
theorem chain_newCell (h : s.Grounded) (hv : ∀ c, v.referent? = some c → c < s.cells.size) :
    ∃ cs, (s.newCell w).2.Chain v cs := by
  obtain ⟨cs, hcs⟩ := h.chains v
  refine ⟨cs, ?_⟩
  induction hcs with
  | done hnone => exact .done hnone
  | step hc _ ih =>
    refine .step hc ?_
    rw [read_newCell (hv _ hc)]
    exact ih fun _ => h.contents

theorem newCell (h : s.Grounded) (hw : ∀ c, w.referent? = some c → c < s.cells.size) :
    (s.newCell w).2.Grounded := by
  have hsize : (s.newCell w).2.cells.size = s.cells.size + 1 := Array.size_push _
  have hread : ∀ c, s.cells.size ≠ c → (s.newCell w).2.read c = s.read c := by
    intro c hc
    by_cases hlt : c < s.cells.size
    · exact read_newCell hlt
    · have hlt : s.cells.size + 1 ≤ c := by omega
      rw [read_of_size_le (hsize ▸ hlt), read_of_size_le (Nat.le_of_succ_le hlt)]
  refine ⟨fun hb => hsize ▸ Nat.lt_succ_of_lt (h.bindings hb), fun {c d} hd => ?_, fun v => ?_⟩
  · rw [hsize]
    refine Nat.lt_succ_of_lt ?_
    by_cases hc : s.cells.size = c
    · subst hc
      rw [read_newCell_self] at hd
      exact hw d hd
    · rw [hread c hc] at hd
      exact h.contents hd
  · cases hv : v.referent? with
    | none => exact ⟨[], .done hv⟩
    | some c =>
      have hchain : ∃ cs, (s.newCell w).2.Chain ((s.newCell w).2.read c) cs := by
        by_cases hc : s.cells.size = c
        · subst hc
          rw [read_newCell_self]
          exact h.chain_newCell hw
        · rw [hread c hc]
          exact h.chain_newCell fun _ => h.contents
      obtain ⟨cs, hcs⟩ := hchain
      exact ⟨c :: cs, .step hv hcs⟩

theorem write (h : s.Grounded) (hw : ∀ c, w.referent? = some c → c < s.cells.size)
    (hc : ∀ cs, s.Chain w cs → c ∉ cs) : (s.write c w).Grounded := by
  obtain ⟨ds, hds⟩ := h.chains w
  have hsize : (s.write c w).cells.size = s.cells.size := size_write
  refine ⟨fun hb => hsize ▸ h.bindings hb, fun {d e} he => ?_, fun v => ?_⟩
  · rw [hsize]
    by_cases hcd : c = d
    · subst hcd
      by_cases hlt : c < s.cells.size
      · rw [read_write hlt, if_pos rfl] at he
        exact hw e he
      · rw [read_of_size_le (hsize ▸ Nat.le_of_not_lt hlt)] at he
        cases he
    · rw [read_write_of_ne hcd] at he
      exact h.contents he
  · obtain ⟨cs, hcs⟩ := h.chains v
    exact hcs.write hds (hc ds hds)

/-- A name that is bound to a new cell. -/
theorem bound {scope : ScopeId} {name : Text} {constant : Bool} (h : s.Grounded)
    (hnew : (s.scope scope).binds name = false)
    (hw : ∀ c, w.referent? = some c → c < s.cells.size) :
    (s.bound scope name w constant).Grounded := by
  have hnewCell := h.newCell hw
  refine ⟨fun hb => ?_, hnewCell.contents, fun v => ?_⟩
  · rcases (find?_bound hnew).1 hb with ⟨-, -, -, rfl⟩ | hb
    · exact Nat.lt_of_lt_of_eq (Nat.lt_succ_self _) (Array.size_push _).symm
    · exact hnewCell.bindings hb
  · obtain ⟨cs, hcs⟩ := hnewCell.chains v
    refine ⟨cs, ?_⟩
    induction hcs with
    | done hv => exact .done hv
    | step hv _ ih => exact .step hv ih

end Grounded

end Store

end ScriptLang
