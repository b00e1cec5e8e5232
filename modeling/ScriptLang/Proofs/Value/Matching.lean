import Mathlib.Data.List.Perm.Subperm
import ScriptLang.Proofs.Store.Fields
import ScriptLang.Proofs.Value.Identity
import ScriptLang.Value.Compare

/-!
# Values that match

Two values in two stores *match* when they hold the same: behind references and annotations there are
arrays of the same length, objects of the same struct with the same names or pairs, whose parts match in
turn, or values without parts that are related. What the relation of values without parts is makes
the difference. With values that are the same it is equality of values, as `ScriptLang.Store.equalWithin`
decides it (`Store.decides_equalWithin`); with values that are one it says that two values differ in nothing
but references, annotations and the names of their arrays and objects (`Store.Alike`).

The values looked at are finite: a depth bounds the levels of their parts. Beyond that depth nothing about
them changes. Values that match can be turned round and chained (`Store.Matches.flip`,
`Store.Matches.comp`), so the laws of equality are those of the relation of values without parts.
-/

namespace ScriptLang

/-! ### Decisions -/

/-- Whether a question has an answer and the answer is about a proposition. -/
def Decides (answer : Option Bool) (p : Prop) : Prop := ∃ b, answer = some b ∧ (b = true ↔ p)

namespace Decides

variable {answer : Option Bool} {p q : Prop}

theorem pure {b : Bool} (h : b = true ↔ p) : Decides (some b) p := ⟨b, rfl, h⟩

theorem iff (h : Decides answer p) : answer = some true ↔ p := by
  obtain ⟨b, rfl, hb⟩ := h
  rw [Option.some.injEq, hb]

theorem congr (h : Decides answer p) (hpq : p ↔ q) : Decides answer q := by
  obtain ⟨b, rfl, hb⟩ := h
  exact ⟨b, rfl, hb.trans hpq⟩

/-- Questions about the same have the same answer. -/
theorem unique {answer' : Option Bool} (h : Decides answer p) (h' : Decides answer' p) :
    answer = answer' := by
  obtain ⟨b, rfl, hb⟩ := h
  obtain ⟨b', rfl, hb'⟩ := h'
  rw [Bool.eq_iff_iff.2 (hb.trans hb'.symm)]

/-- One question after the other, if the first answer was yes. -/
theorem and {answer' : Option Bool} (h : Decides answer p) (h' : Decides answer' q) :
    Decides (answer.bind fun b => if b = true then answer' else some false) (p ∧ q) := by
  obtain ⟨b, rfl, hb⟩ := h
  obtain ⟨b', rfl, hb'⟩ := h'
  cases b with
  | false => exact pure (by simp [← hb])
  | true => exact pure (by simp [← hb, hb'])

/-- The question whether something is so for all items of a list. -/
theorem all {α : Type} {xs : List α} {ask : α → Option Bool} {P : α → Prop}
    (h : ∀ x ∈ xs, Decides (ask x) (P x)) : Decides (xs.allM ask) (∀ x ∈ xs, P x) := by
  induction xs with
  | nil => exact pure (by simp)
  | cons x xs ih =>
    have hstep := (h x List.mem_cons_self).and (ih fun y hy => h y (List.mem_cons_of_mem _ hy))
    rw [List.forall_mem_cons]
    refine (congrArg (Decides · _) ?_).mp hstep
    simp only [List.allM]
    cases ask x with
    | none => rfl
    | some b => cases b <;> rfl

end Decides

/-! ### Fields by their names -/

namespace Fields

variable {fields gs : Fields} {name : Text} {v : Value}

/-- A name is the name of a field just when there is a field with the name. -/
theorem mem_names : name ∈ fields.names ↔ ∃ v, fields.get? name = some v := by
  constructor
  · intro h
    obtain ⟨⟨k, v⟩, hmem, rfl⟩ := List.mem_map.1 h
    exact ⟨v, get?_of_mem hmem⟩
  · rintro ⟨v, hv⟩
    exact List.mem_map.2 ⟨_, Store.mem_of_get? hv, rfl⟩

/-- The order in which fields are stored makes no difference. -/
theorem get?_perm (h : gs.entries.Perm fields.entries) (name : Text) :
    gs.get? name = fields.get? name := by
  refine Option.ext fun v => ?_
  rw [get?_eq_some, get?_eq_some]
  exact h.mem_iff

/-- Fields that are as many here as there, and whose names are all found on the other side, are found in
both directions. -/
theorem names_subset_of_length (hsub : fields.names ⊆ gs.names) (hlength : fields.length = gs.length) :
    gs.names ⊆ fields.names := by
  have hle : gs.names.length ≤ fields.names.length := by
    rw [Fields.names, Fields.names, List.length_map, List.length_map]
    exact Nat.le_of_eq hlength.symm
  exact ((List.subperm_of_subset fields.distinct hsub).perm_of_length_le hle).symm.subset

theorem length_eq_of_names (h : ∀ name, name ∈ fields.names ↔ name ∈ gs.names) :
    fields.length = gs.length := by
  have hperm := ((List.perm_ext_iff_of_nodup fields.distinct gs.distinct).2 h).length_eq
  rwa [List.length_map, List.length_map] at hperm

/-- Fields that are made from a list with distinct names are the entries of the list. -/
theorem get?_ofList {entries : List (Text × Value)} (hnodup : (entries.map Prod.fst).Nodup) (k : Text) :
    (ofList entries).get? k = entries.lookup k := by
  have hfold : ∀ (entries : List (Text × Value)) (fields : Fields), (entries.map Prod.fst).Nodup →
      (entries.foldl (fun fields e => fields.set e.1 e.2) fields).get? k =
        (entries.lookup k).or (fields.get? k) := by
    intro entries
    induction entries with
    | nil => exact fun _ _ => rfl
    | cons e entries ih =>
      obtain ⟨l, w⟩ := e
      intro fields hnodup
      obtain ⟨hl, hnodup⟩ := List.nodup_cons.1 hnodup
      rw [List.foldl_cons, ih _ hnodup, get?_set, List.lookup_cons]
      by_cases heq : k = l
      · subst heq
        rw [if_pos rfl, beq_self_eq_true]
        cases hget : entries.lookup k with
        | none => rfl
        | some u => exact absurd (List.mem_map.2 ⟨_, mem_of_lookup hget, rfl⟩) hl
      · rw [if_neg heq, beq_false_of_ne heq]
  exact (hfold entries {} hnodup).trans (Option.or_none)

end Fields

/-! ### Parts of values -/

/-- Whether a value that is neither a reference nor typed has no parts. -/
def Value.isLeaf : Value → Bool
  | array _ | object .. | pair .. => false
  | _ => true

namespace Store

/-- Whether a value is finite, with no more than `n` levels, and there is neither a signal in it nor
not-a-number. -/
def Tame (s : Store) : Nat → Value → Prop
  | 0, _ => False
  | n + 1, v => ∃ r, s.raw? v = some r ∧
    match r with
    | .array a => ∀ w ∈ s.elements a, s.Tame n w
    | .object o _ => ∀ f ∈ s.fields o, s.Tame n f.2
    | .pair u w => s.Tame n u ∧ s.Tame n w
    | r => r.isSignal = false ∧ r.isNanFree = true

/-- Whether two values that are neither references nor typed match, with relations of values without
parts and of parts. -/
inductive Match (leaf : Value → Value → Prop) (s t : Store) (part : Value → Value → Prop) :
    Value → Value → Prop
  /-- Values without parts. -/
  | leaf {v w : Value} (hv : v.isLeaf = true) (hw : w.isLeaf = true) (h : leaf v w) :
      Match leaf s t part v w
  /-- Arrays of the same length. -/
  | array {a b : ArrayId} (h : ∀ i : Nat, Option.Rel part (s.elements a)[i]? (t.elements b)[i]?) :
      Match leaf s t part (.array a) (.array b)
  /-- Objects of the same struct with the same names. -/
  | object {a b : ObjectId} {ta tb : Option StructType} (htype : ta.map (·.id) = tb.map (·.id))
      (h : ∀ name, Option.Rel part ((s.fields a).get? name) ((t.fields b).get? name)) :
      Match leaf s t part (.object a ta) (.object b tb)
  /-- Pairs. -/
  | pair {v v' w w' : Value} (h : part v v') (h' : part w w') :
      Match leaf s t part (.pair v w) (.pair v' w')

/-- Whether two values in two stores match in their first `n` levels, which are all that they have. -/
def Matches (leaf : Value → Value → Prop) (s t : Store) : Nat → Value → Value → Prop
  | 0, _, _ => False
  | n + 1, v, w => ∃ r r', s.raw? v = some r ∧ t.raw? w = some r' ∧
    Match leaf s t (Matches leaf s t n) r r'

/-- Whether two values of no more than `n` levels differ in nothing but references, annotations, the names
of their arrays and objects, and the order in which fields are stored. -/
def Alike (s t : Store) : Nat → Value → Value → Prop := Matches Eq s t

section

variable {α β γ : Type} {r : α → β → Prop}

theorem rel_flip {r' : β → α → Prop} (h : ∀ a b, r a b → r' b a) {a : Option α} {b : Option β}
    (hab : Option.Rel r a b) : Option.Rel r' b a := by
  cases hab with
  | some hab => exact .some (h _ _ hab)
  | none => exact .none

theorem rel_comp {r' : β → γ → Prop} {r'' : α → γ → Prop}
    (h : ∀ a b c, r a b → r' b c → r'' a c) {a : Option α} {b : Option β} {c : Option γ}
    (hab : Option.Rel r a b) (hbc : Option.Rel r' b c) : Option.Rel r'' a c := by
  cases hab with
  | some hab => cases hbc with | some hbc => exact .some (h _ _ _ hab hbc)
  | none => cases hbc with | none => exact .none

theorem rel_refl {r : α → α → Prop} {a : Option α} (h : ∀ x, a = some x → r x x) :
    Option.Rel r a a := by
  cases a with
  | some a => exact .some (h a rfl)
  | none => exact .none

end

variable {s t u : Store} {leaf leaf' leaf'' : Value → Value → Prop} {a b c v w : Value} {n m : Nat}

/-! ### Laws of matching -/

namespace Match

variable {part part' part'' : Value → Value → Prop}

theorem flip (hleaf : ∀ v w, leaf v w → leaf' w v) (hpart : ∀ v w, part v w → part' w v)
    (h : Match leaf s t part v w) : Match leaf' t s part' w v := by
  cases h with
  | leaf hv hw h => exact .leaf hw hv (hleaf _ _ h)
  | array h => exact .array fun i => rel_flip hpart (h i)
  | object htype h => exact .object htype.symm fun name => rel_flip hpart (h name)
  | pair h h' => exact .pair (hpart _ _ h) (hpart _ _ h')

theorem comp (hleaf : ∀ u v w, leaf u v → leaf' v w → leaf'' u w)
    (hpart : ∀ u v w, part u v → part' v w → part'' u w) {x : Value}
    (h : Match leaf s t part x v) (h' : Match leaf' t u part' v w) :
    Match leaf'' s u part'' x w := by
  cases h with
  | leaf hx hv h =>
    cases h' with
    | leaf _ hw h' => exact .leaf hx hw (hleaf _ _ _ h h')
    | _ => cases hv
  | array h =>
    cases h' with
    | leaf hv => cases hv
    | array h' => exact .array fun i => rel_comp hpart (h i) (h' i)
  | object htype h =>
    cases h' with
    | leaf hv => cases hv
    | object htype' h' =>
      exact .object (htype.trans htype') fun name => rel_comp hpart (h name) (h' name)
  | pair h₁ h₂ =>
    cases h' with
    | leaf hv => cases hv
    | pair h₁' h₂' => exact .pair (hpart _ _ _ h₁ h₁') (hpart _ _ _ h₂ h₂')

end Match

/-- Values that match do so the other way round. -/
theorem Matches.flip (hleaf : ∀ v w, leaf v w → leaf' w v) (h : Matches leaf s t n a b) :
    Matches leaf' t s n b a := by
  induction n generalizing a b with
  | zero => exact h
  | succ n ih =>
    obtain ⟨v, w, hv, hw, h⟩ := h
    exact ⟨w, v, hw, hv, h.flip hleaf fun _ _ => ih⟩

/-- What matches one of two values that match, matches the other one too. -/
theorem Matches.comp (hleaf : ∀ u v w, leaf u v → leaf' v w → leaf'' u w)
    (h : Matches leaf s t n a b) (h' : Matches leaf' t u n b c) : Matches leaf'' s u n a c := by
  induction n generalizing a b c with
  | zero => exact h
  | succ n ih =>
    obtain ⟨v, w, hv, hw, h⟩ := h
    obtain ⟨w', x, hw', hx, h'⟩ := h'
    cases hw.symm.trans hw'
    refine ⟨v, x, hv, hx, h.comp hleaf ?_ h'⟩
    exact fun _ _ _ hpart hpart' => ih hpart hpart'

theorem Alike.symm (h : s.Alike t n a b) : t.Alike s n b a := h.flip fun _ _ => Eq.symm

/-- What is like one of two values that match, matches the other one too. -/
theorem Alike.matches (h : s.Alike t n a b) (h' : Matches leaf t u n b c) : Matches leaf s u n a c := by
  refine Matches.comp ?_ h h'
  rintro _ _ _ rfl h
  exact h

theorem Matches.alike (h : Matches leaf s t n a b) (h' : t.Alike u n b c) : Matches leaf s u n a c := by
  refine Matches.comp ?_ h h'
  rintro _ _ _ h rfl
  exact h

/-- A finite value matches what it is in a store that differs in the order of fields only. -/
theorem Tame.matches (hleaf : ∀ v, v.isNanFree = true → leaf v v) (hraw : ∀ v, t.raw? v = s.raw? v)
    (helements : ∀ a, t.elements a = s.elements a)
    (hfields : ∀ o name, (t.fields o).get? name = (s.fields o).get? name) (h : s.Tame n a) :
    Matches leaf s t n a a := by
  induction n generalizing a with
  | zero => exact h
  | succ n ih =>
    obtain ⟨v, hv, h⟩ := h
    refine ⟨v, v, hv, (hraw a).trans hv, ?_⟩
    cases v with
    | array x =>
      refine .array fun i => ?_
      rw [helements]
      exact rel_refl fun w hw => ih (h w (List.mem_of_getElem? hw))
    | object o type =>
      refine .object rfl fun name => ?_
      rw [hfields]
      exact rel_refl fun w hw => ih (h (name, w) (mem_of_get? hw))
    | pair v w => exact .pair (ih h.1) (ih h.2)
    | _ => exact .leaf rfl rfl (hleaf _ h.2)

end Store

end ScriptLang
