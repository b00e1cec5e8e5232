import ScriptLang.Proofs.Store.Chains
import ScriptLang.Proofs.Value.Matching

/-!
# Equality of values

Equality decides whether two finite values match, up to values without parts that are the same
(`Store.decides_equalWithin`). For objects it looks at the fields of one side only; that is enough, because
the names of an object's fields are distinct and there are as many on both sides. So equality is an
equivalence on finite values in which there is neither a signal nor not-a-number. It does not see references,
annotations and the order of fields, at any depth, and decides arrays, objects and pairs part by part.
-/

namespace ScriptLang.Store

variable {s t : Store} {a b v w : Value} {n m : Nat}

/-! ### Parts -/

section

variable {part : Value → Value → Prop} {ask : Value → Value → Option Bool}

theorem rel_getElem?_iff {xs ys : List Value} :
    (∀ i : Nat, Option.Rel part xs[i]? ys[i]?) ↔
      xs.length = ys.length ∧ ∀ (i : Nat) v w, xs[i]? = some v → ys[i]? = some w → part v w := by
  refine ⟨fun h => ⟨?_, fun i v w hv hw => ?_⟩, fun ⟨hlength, h⟩ i => ?_⟩
  · have hnone : ∀ i : Nat, xs[i]? = none ↔ ys[i]? = none := by
      intro i
      have hi := h i
      generalize xs[i]? = x, ys[i]? = y at hi
      cases hi <;> simp
    simp only [List.getElem?_eq_none_iff] at hnone
    exact le_antisymm ((hnone _).2 le_rfl) ((hnone _).1 le_rfl)
  · have hi := h i
    rw [hv, hw] at hi
    cases hi with | some hi => exact hi
  · by_cases hi : i < xs.length
    · rw [List.getElem?_eq_getElem hi, List.getElem?_eq_getElem (hlength ▸ hi)]
      refine .some (h i _ _ (List.getElem?_eq_getElem hi) (List.getElem?_eq_getElem (hlength ▸ hi)))
    · rw [List.getElem?_eq_none (Nat.le_of_not_lt hi),
        List.getElem?_eq_none (hlength ▸ Nat.le_of_not_lt hi)]
      exact .none

theorem rel_get?_iff {fs gs : Fields} :
    (∀ name, Option.Rel part (fs.get? name) (gs.get? name)) ↔
      (∀ name, name ∈ fs.names ↔ name ∈ gs.names) ∧
        ∀ name v w, fs.get? name = some v → gs.get? name = some w → part v w := by
  refine ⟨fun h => ⟨fun name => ?_, fun name v w hv hw => ?_⟩, fun ⟨hnames, h⟩ name => ?_⟩
  · rw [Fields.mem_names, Fields.mem_names]
    have hname := h name
    generalize fs.get? name = x, gs.get? name = y at hname
    cases hname <;> simp
  · have hname := h name
    rw [hv, hw] at hname
    cases hname with | some hname => exact hname
  · have hnames := hnames name
    rw [Fields.mem_names, Fields.mem_names] at hnames
    cases hf : fs.get? name with
    | none =>
      cases hg : gs.get? name with
      | none => exact .none
      | some w => simp [hf, hg] at hnames
    | some v =>
      cases hg : gs.get? name with
      | none => simp [hf, hg] at hnames
      | some w => exact .some (h name v w hf hg)

/-- Elements are compared position by position. -/
theorem decides_elements {xs ys : List Value}
    (h : ∀ v ∈ xs, ∀ w ∈ ys, Decides (ask v w) (part v w)) :
    Decides (if xs.length ≠ ys.length then some false else (xs.zip ys).allM fun (v, w) => ask v w)
      (∀ i : Nat, Option.Rel part xs[i]? ys[i]?) := by
  by_cases hlength : xs.length = ys.length
  · rw [if_neg (not_not.2 hlength)]
    have hzip : ∀ p ∈ xs.zip ys, Decides (ask p.1 p.2) (part p.1 p.2) := fun p hp =>
      h _ (List.of_mem_zip hp).1 _ (List.of_mem_zip hp).2
    refine (Decides.all hzip).congr ?_
    rw [rel_getElem?_iff]
    refine ⟨fun hall => ⟨hlength, fun i v w hv hw => hall (v, w) ?_⟩, fun ⟨_, hall⟩ p hp => ?_⟩
    · exact List.mem_of_getElem? (List.getElem?_zip_eq_some.2 ⟨hv, hw⟩)
    · obtain ⟨i, hi⟩ := List.getElem?_of_mem hp
      obtain ⟨hv, hw⟩ := List.getElem?_zip_eq_some.1 hi
      exact hall i _ _ hv hw
  · rw [if_pos hlength]
    exact .pure (iff_of_false Bool.false_ne_true fun h => hlength (rel_getElem?_iff.1 h).1)

/-- That each field of one side has an equal one on the other side is enough. -/
theorem decides_fields {fs gs : Fields}
    (h : ∀ f ∈ fs, ∀ g ∈ gs, Decides (ask f.2 g.2) (part f.2 g.2)) :
    Decides
      (if fs.length ≠ gs.length then some false
        else fs.entries.allM fun (k, v) =>
          match gs.get? k with
          | some w => ask v w
          | none => some false)
      (∀ name, Option.Rel part (fs.get? name) (gs.get? name)) := by
  by_cases hlength : fs.length = gs.length
  · rw [if_neg (not_not.2 hlength)]
    have hfound : ∀ f ∈ fs,
        Decides (match gs.get? f.1 with | some w => ask f.2 w | none => some false)
          (∃ w, gs.get? f.1 = some w ∧ part f.2 w) := by
      intro f hmem
      cases hw : gs.get? f.1 with
      | none => exact .pure (by simp)
      | some w => exact (h _ hmem _ (mem_of_get? hw)).congr (by simp)
    refine (Decides.all hfound).congr ?_
    rw [rel_get?_iff]
    refine ⟨fun hall => ⟨fun name => ?_, fun name v w hv hw => ?_⟩, fun ⟨hnames, hall⟩ f hmem => ?_⟩
    · have hsub : fs.names ⊆ gs.names := by
        intro k hk
        obtain ⟨v, hv⟩ := Fields.mem_names.1 hk
        obtain ⟨w, hw, -⟩ := hall (k, v) (mem_of_get? hv)
        exact Fields.mem_names.2 ⟨w, hw⟩
      exact ⟨@hsub name, @Fields.names_subset_of_length _ _ hsub hlength name⟩
    · obtain ⟨w', hw', hpart⟩ := hall (name, v) (mem_of_get? hv)
      cases hw.symm.trans hw'
      exact hpart
    · have hget := Fields.get?_of_mem hmem
      obtain ⟨w, hw⟩ := Fields.mem_names.1 ((hnames _).1 (Fields.mem_names.2 ⟨_, hget⟩))
      exact ⟨w, hw, hall _ _ _ hget hw⟩
  · rw [if_pos hlength]
    exact .pure (iff_of_false Bool.false_ne_true fun h =>
      hlength (Fields.length_eq_of_names (rel_get?_iff.1 h).1))

end

/-! ### Equality decides matching -/

/-- Whether two values of no more than `n` levels match up to values without parts that are the same. -/
abbrev Agree (s t : Store) : Nat → Value → Value → Prop := Matches (fun v w => v.same w = true) s t

/-- Values that are the same have no parts, or they are arrays, objects or pairs both. -/
theorem isLeaf_of_same (h : v.same w = true) (harray : ∀ x y, v = .array x → w = .array y → False)
    (hobject : ∀ x tx y ty, v = .object x tx → w = .object y ty → False)
    (hpair : ∀ x x' y y', v = .pair x x' → w = .pair y y' → False) : v.isLeaf = true := by
  obtain ⟨-, hkey⟩ := Value.same_iff.1 h
  cases v with
  | array x => cases w with
    | array y => exact (harray _ _ rfl rfl).elim
    | _ => cases hkey
  | object x tx => cases w with
    | object y ty => exact (hobject _ _ _ _ rfl rfl).elim
    | _ => cases hkey
  | pair x x' => cases w with
    | pair y y' => exact (hpair _ _ _ _ rfl rfl).elim
    | _ => cases hkey
  | _ => rfl

/-- Equality decides whether finite values match. -/
theorem decides_equalWithin (ha : s.Tame n a)
    (hb : s.Tame n b) (hnm : n ≤ m) :
    Decides (s.equalWithin m a b) (s.Agree s n a b) := by
  induction n generalizing a b m with
  | zero => exact ha.elim
  | succ n ih =>
    obtain ⟨k, rfl⟩ := Nat.exists_eq_add_of_lt hnm
    have hle : n ≤ n + k := Nat.le_add_right n k
    obtain ⟨v, hv, ha⟩ := ha
    obtain ⟨w, hw, hb⟩ := hb
    -- both values are at hand, so only the match of these two is left to decide
    have hmatch : ∀ p, (Match (fun v w => v.same w = true) s s
        (s.Agree s n) v w ↔ p) → (p ↔ s.Agree s (n + 1) a b) := by
      intro p hp
      refine hp.symm.trans ⟨fun h => ⟨v, w, hv, hw, h⟩, fun ⟨v', w', hv', hw', h⟩ => ?_⟩
      cases hv.symm.trans hv'
      cases hw.symm.trans hw'
      exact h
    unfold equalWithin
    rw [hv, hw]
    simp only [Option.bind_eq_bind, Option.bind_some]
    split
    · next x y =>
      refine (decides_elements fun v hv w hw => ih (ha v hv) (hb w hw) hle).congr (hmatch _ ?_)
      refine ⟨fun h => ?_, fun h => .array h⟩
      cases h with
      | leaf hv => cases hv
      | array h => exact h
    · next x tx y ty =>
      by_cases htype : tx.map (·.id) = ty.map (·.id)
      · simp only [htype, ne_eq, not_true_eq_false, decide_false, Bool.false_or, decide_eq_true_eq]
        refine (decides_fields fun f hf g hg => ih (ha f hf) (hb g hg) hle).congr
          (hmatch _ ?_)
        refine ⟨fun h => ?_, fun h => .object htype h⟩
        cases h with
        | leaf hv => cases hv
        | object _ h => exact h
      · simp only [htype, ne_eq, not_false_eq_true, decide_true, Bool.true_or, if_true]
        refine (Decides.pure (p := False) (by simp)).congr (hmatch _ ⟨fun h => ?_, False.elim⟩)
        cases h with
        | leaf hv => cases hv
        | object h => exact htype h
    · next x x' y y' =>
      refine ((ih ha.1 hb.1 hle).and (ih ha.2 hb.2 hle)).congr (hmatch _ ?_)
      refine ⟨fun h => ?_, fun h => .pair h.1 h.2⟩
      cases h with
      | leaf hv => cases hv
      | pair h h' => exact ⟨h, h'⟩
    · next harray hobject hpair =>
      refine Decides.pure (hmatch _ ⟨fun h => ?_, fun h => .leaf ?_ ?_ h⟩)
      · cases h with
        | leaf _ _ h => exact h
        | array => exact (harray _ _ rfl rfl).elim
        | object => exact (hobject _ _ _ _ rfl rfl).elim
        | pair => exact (hpair _ _ _ _ rfl rfl).elim
      · exact isLeaf_of_same h harray hobject hpair
      · refine isLeaf_of_same (Value.same_symm h) ?_ ?_ ?_
        · exact fun x y hx hy => harray y x hy hx
        · exact fun x tx y ty hx hy => hobject y ty x tx hy hx
        · exact fun x x' y y' hx hy => hpair y y' x x' hy hx

/-! ### Laws of equality -/

theorem Agree.refl (h : s.Tame n a) : s.Agree s n a a :=
  h.matches (fun _ => Value.same_self) (fun _ => rfl) (fun _ => rfl) fun _ _ => rfl

theorem Agree.symm (h : s.Agree t n a b) : t.Agree s n b a := h.flip fun _ _ => Value.same_symm

theorem Agree.trans {u : Store} {c : Value} (h : s.Agree t n a b) (h' : t.Agree u n b c) :
    s.Agree u n a c := by
  refine Matches.comp ?_ h h'
  exact fun _ _ _ => Value.same_trans

/-- What differs from a finite value in references and annotations only is finite. -/
theorem Tame.alike (ha : s.Tame n a) (h : s.Alike t n a b) :
    t.Tame n b := by
  induction n generalizing a b with
  | zero => exact h
  | succ n ih =>
    obtain ⟨v, hv, ha⟩ := ha
    obtain ⟨v', w, hv', hw, h⟩ := h
    cases hv.symm.trans hv'
    refine ⟨w, hw, ?_⟩
    cases h with
    | leaf hv hw h =>
      subst h
      cases v with
      | array => cases hv
      | object => cases hv
      | pair => cases hv
      | _ => exact ha
    | array h =>
      intro w hw
      obtain ⟨i, hi⟩ := List.getElem?_of_mem hw
      have hrel := h i
      rw [hi] at hrel
      generalize hx : (s.elements _)[i]? = x at hrel
      cases hrel with
      | some hrel => exact ih (ha _ (List.mem_of_getElem? hx)) hrel
    | object _ h =>
      intro f hf
      have hrel := h f.1
      rw [Fields.get?_of_mem hf] at hrel
      generalize hx : (s.fields _).get? f.1 = x at hrel
      cases hrel with
      | some hrel => exact ih (ha _ (mem_of_get? hx)) hrel
    | pair h h' => exact ⟨ih ha.1 h, ih ha.2 h'⟩

/-- Equality does not see references and annotations, nor the order of fields. -/
theorem equalWithin_alike {a' b' : Value} (ha : s.Tame n a) (hb : s.Tame n b)
    (haa : s.Alike t n a a') (hbb : s.Alike t n b b') (hnm : n ≤ m) :
    t.equalWithin m a' b' = s.equalWithin m a b := by
  refine (decides_equalWithin (ha.alike haa) (hb.alike hbb) hnm).unique
    ((decides_equalWithin ha hb hnm).congr ⟨fun h => ?_, fun h => ?_⟩)
  · exact haa.symm.matches (h.alike hbb)
  · exact haa.matches (Matches.alike h hbb.symm)

/-- Finite values whose raw values are at hand are equal just when these match. -/
theorem equalWithin_iff (ha : s.Tame (n + 1) a)
    (hb : s.Tame (n + 1) b) (hnm : n < m) (hv : s.raw? a = some v) :
    s.equalWithin m a b = some true ↔
      ∃ w, s.raw? b = some w ∧ Match (fun v w => v.same w = true) s s (s.Agree s n) v w := by
  rw [(decides_equalWithin ha hb hnm).iff]
  refine ⟨fun ⟨v', w, hv', hw, h⟩ => ?_, fun ⟨w, hw, h⟩ => ⟨v, w, hv, hw, h⟩⟩
  cases hv.symm.trans hv'
  exact ⟨w, hw, h⟩

/-- An array equals the arrays of the same length with equal elements. -/
theorem equalWithin_array {x : ArrayId} (ha : s.Tame n a)
    (hb : s.Tame n b) (hnm : n ≤ m) (hv : s.raw? a = some (.array x)) :
    s.equalWithin m a b = some true ↔ ∃ y, s.raw? b = some (.array y) ∧
      (s.elements x).length = (s.elements y).length ∧ ∀ (i : Nat) v w, (s.elements x)[i]? = some v →
        (s.elements y)[i]? = some w → s.equalWithin m v w = some true := by
  cases n with
  | zero => exact ha.elim
  | succ n =>
    have hparts : ∀ y, s.raw? b = some (.array y) → ∀ v ∈ s.elements x, ∀ w ∈ s.elements y,
        (s.equalWithin m v w = some true ↔ s.Agree s n v w) := by
      intro y hy v hmem w hmem'
      obtain ⟨v', hv', ha⟩ := ha
      obtain ⟨w', hw', hb⟩ := hb
      cases hv.symm.trans hv'
      cases hy.symm.trans hw'
      exact (decides_equalWithin (ha v hmem) (hb w hmem') (Nat.le_of_lt hnm)).iff
    rw [equalWithin_iff ha hb hnm hv]
    refine ⟨fun ⟨w, hw, h⟩ => ?_, fun ⟨y, hy, hlength, h⟩ => ⟨_, hy, .array ?_⟩⟩
    · cases h with
      | leaf hv => cases hv
      | @array _ y h =>
        obtain ⟨hlength, h⟩ := rel_getElem?_iff.1 h
        refine ⟨y, hw, hlength, fun i v w' hv hw' => ?_⟩
        exact (hparts y hw v (List.mem_of_getElem? hv) w' (List.mem_of_getElem? hw')).2 (h i _ _ hv hw')
    · refine rel_getElem?_iff.2 ⟨hlength, fun i v w hv hw => ?_⟩
      exact (hparts y hy v (List.mem_of_getElem? hv) w (List.mem_of_getElem? hw)).1 (h i _ _ hv hw)

/-- An object equals the objects of the same struct with the same names and equal values. -/
theorem equalWithin_object {x : ObjectId} {tx : Option StructType}
    (ha : s.Tame n a) (hb : s.Tame n b) (hnm : n ≤ m)
    (hv : s.raw? a = some (.object x tx)) :
    s.equalWithin m a b = some true ↔ ∃ y ty, s.raw? b = some (.object y ty) ∧
      tx.map (·.id) = ty.map (·.id) ∧
      (∀ name, name ∈ (s.fields x).names ↔ name ∈ (s.fields y).names) ∧
      ∀ name v w, (s.fields x).get? name = some v → (s.fields y).get? name = some w →
        s.equalWithin m v w = some true := by
  cases n with
  | zero => exact ha.elim
  | succ n =>
    have hparts : ∀ y ty, s.raw? b = some (.object y ty) → ∀ name v w,
        (s.fields x).get? name = some v → (s.fields y).get? name = some w →
        (s.equalWithin m v w = some true ↔ s.Agree s n v w) := by
      intro y ty hy name v w hget hget'
      obtain ⟨v', hv', ha⟩ := ha
      obtain ⟨w', hw', hb⟩ := hb
      cases hv.symm.trans hv'
      cases hy.symm.trans hw'
      have hle := Nat.le_of_lt hnm
      exact (decides_equalWithin (ha _ (mem_of_get? hget)) (hb _ (mem_of_get? hget')) hle).iff
    rw [equalWithin_iff ha hb hnm hv]
    refine ⟨fun ⟨w, hw, h⟩ => ?_, fun ⟨y, ty, hy, htype, hnames, h⟩ => ⟨_, hy, .object htype ?_⟩⟩
    · cases h with
      | leaf hv => cases hv
      | @object _ y _ ty htype h =>
        obtain ⟨hnames, h⟩ := rel_get?_iff.1 h
        refine ⟨y, ty, hw, htype, hnames, fun name v w' hv hw' => ?_⟩
        exact (hparts y ty hw name v w' hv hw').2 (h name v w' hv hw')
    · refine rel_get?_iff.2 ⟨hnames, fun name v w hv hw => ?_⟩
      exact (hparts y ty hy name v w hv hw).1 (h name v w hv hw)

/-- A pair equals the pairs of equal values. -/
theorem equalWithin_pair {v' : Value} (ha : s.Tame n a)
    (hb : s.Tame n b) (hnm : n ≤ m) (hv : s.raw? a = some (.pair v v')) :
    s.equalWithin m a b = some true ↔ ∃ w w', s.raw? b = some (.pair w w') ∧
      s.equalWithin m v w = some true ∧ s.equalWithin m v' w' = some true := by
  cases n with
  | zero => exact ha.elim
  | succ n =>
    have hparts : ∀ w w', s.raw? b = some (.pair w w') →
        (s.equalWithin m v w = some true ↔ s.Agree s n v w) ∧
          (s.equalWithin m v' w' = some true ↔ s.Agree s n v' w') := by
      intro w w' hw
      obtain ⟨x, hx, ha⟩ := ha
      obtain ⟨y, hy, hb⟩ := hb
      cases hv.symm.trans hx
      cases hw.symm.trans hy
      have hle := Nat.le_of_lt hnm
      exact ⟨(decides_equalWithin ha.1 hb.1 hle).iff, (decides_equalWithin ha.2 hb.2 hle).iff⟩
    rw [equalWithin_iff ha hb hnm hv]
    refine ⟨fun ⟨y, hy, h⟩ => ?_, fun ⟨w, w', hw, h, h'⟩ => ⟨_, hw, .pair ?_ ?_⟩⟩
    · cases h with
      | leaf hv => cases hv
      | pair h h' => exact ⟨_, _, hy, (hparts _ _ hy).1.2 h, (hparts _ _ hy).2.2 h'⟩
    · exact (hparts w w' hw).1.1 h
    · exact (hparts w w' hw).2.1 h'

/-- What has the same raw value differs in references and annotations at the top only. -/
theorem Tame.alike_of_raw? (ha : s.Tame n a) (h : s.raw? b = s.raw? a) : s.Alike s n a b := by
  have hrefl : s.Alike s n a a :=
    ha.matches (fun _ _ => rfl) (fun _ => rfl) (fun _ => rfl) fun _ _ => rfl
  cases n with
  | zero => exact hrefl
  | succ n =>
    obtain ⟨v, w, hv, hw, hmatch⟩ := hrefl
    exact ⟨v, w, hv, h.trans hw, hmatch⟩

theorem raw?_typed (v : Value) (type : TypeExpr) : s.raw? (.typed v type) = s.raw? v := by
  unfold raw? rawWithin
  rfl

theorem Tame.raw? (h : s.Tame n a) : ∃ w, s.raw? a = some w := by
  cases n with
  | zero => exact h.elim
  | succ n =>
    obtain ⟨w, hw, -⟩ := h
    exact ⟨w, hw⟩

/-- A reference to a value that unwraps has the same raw value. -/
theorem raw?_reference {c : CellId} {id : Nat} (h : s.raw? (s.read c) = some w) :
    s.raw? (.reference id (some c)) = some w := by
  obtain ⟨cs, hcs⟩ := unwraps_iff.1 ⟨w, h, isRaw_of_raw? h⟩
  obtain ⟨x, hx, -⟩ := unwraps_iff.2 ⟨_, Chain.step (v := .reference id (some c)) rfl hcs⟩
  rw [hx, ← raw?_read hx, h]

/-- Equality of finite values without signals and not-a-number, in any store. The values have at most `n`
levels, and any bound `m` on the depth from there on gives the same answer. Equality is reflexive, symmetric
and transitive. It stays the same when references and annotations are added or removed, at the top or at any
depth, and when the fields are enumerated in another order. Arrays are equal to arrays of the same length with
equal elements, objects to objects of the same struct with the same names and equal values, and pairs to pairs
of equal values. -/
theorem equality_laws (s : Store) (n m : Nat) (hnm : n ≤ m) :
    (∀ a b, s.Tame n a → s.Tame n b →
      ∃ answer, ∀ k, n ≤ k → s.equalWithin k a b = some answer) ∧
    (∀ a, s.Tame n a → s.equalWithin m a a = some true) ∧
    (∀ a b, s.Tame n a → s.Tame n b → s.equalWithin m a b = s.equalWithin m b a) ∧
    (∀ a b c, s.Tame n a → s.Tame n b → s.Tame n c → s.equalWithin m a b = some true →
      s.equalWithin m b c = some true → s.equalWithin m a c = some true) ∧
    (∀ a type, s.Tame n a → s.Alike s n a (.typed a type)) ∧
    (∀ c id, s.Tame n (s.read c) → s.Alike s n (s.read c) (.reference id (some c))) ∧
    (∀ t a b a' b', s.Tame n a → s.Tame n b → s.Alike t n a a' → s.Alike t n b b' →
      t.equalWithin m a' b' = s.equalWithin m a b) ∧
    (∀ t : Store, t.cells = s.cells → t.blocks = s.blocks → t.arrays = s.arrays →
      (∀ o, (t.fields o).entries.Perm (s.fields o).entries) → ∀ a b, s.Tame n a → s.Tame n b →
      t.equalWithin m a b = s.equalWithin m a b) ∧
    (∀ a b x, s.Tame n a → s.Tame n b → s.raw? a = some (.array x) →
      (s.equalWithin m a b = some true ↔ ∃ y, s.raw? b = some (.array y) ∧
        (s.elements x).length = (s.elements y).length ∧
        ∀ (i : Nat) v w, (s.elements x)[i]? = some v → (s.elements y)[i]? = some w →
          s.equalWithin m v w = some true)) ∧
    (∀ a b x tx, s.Tame n a → s.Tame n b → s.raw? a = some (.object x tx) →
      (s.equalWithin m a b = some true ↔ ∃ y ty, s.raw? b = some (.object y ty) ∧
        tx.map (·.id) = ty.map (·.id) ∧
        (∀ name, name ∈ (s.fields x).names ↔ name ∈ (s.fields y).names) ∧
        ∀ name v w, (s.fields x).get? name = some v → (s.fields y).get? name = some w →
          s.equalWithin m v w = some true)) ∧
    (∀ a b v v', s.Tame n a → s.Tame n b → s.raw? a = some (.pair v v') →
      (s.equalWithin m a b = some true ↔ ∃ w w', s.raw? b = some (.pair w w') ∧
        s.equalWithin m v w = some true ∧ s.equalWithin m v' w' = some true)) := by
  have hiff : ∀ {a b}, s.Tame n a → s.Tame n b → (s.equalWithin m a b = some true ↔ s.Agree s n a b) :=
    fun ha hb => (decides_equalWithin ha hb hnm).iff
  refine ⟨fun a b ha hb => ?_, fun a ha => (hiff ha ha).2 (.refl ha), fun a b ha hb => ?_,
    fun a b c ha hb hc hab hbc => ?_, fun a type ha => ha.alike_of_raw? (raw?_typed a type),
    fun c id ha => ?_, fun t a b a' b' ha hb haa hbb => ?_,
    fun t hcells hblocks harrays hfields a b ha hb => ?_,
    fun a b x ha hb => equalWithin_array ha hb hnm,
    fun a b x tx ha hb => equalWithin_object ha hb hnm,
    fun a b v v' ha hb => equalWithin_pair ha hb hnm⟩
  · obtain ⟨answer, hanswer, -⟩ := decides_equalWithin ha hb le_rfl
    refine ⟨answer, fun k hk => ?_⟩
    exact ((decides_equalWithin ha hb hk).unique (decides_equalWithin ha hb le_rfl)).trans hanswer
  · refine (decides_equalWithin ha hb hnm).unique ?_
    exact (decides_equalWithin hb ha hnm).congr ⟨Agree.symm, Agree.symm⟩
  · exact (hiff ha hc).2 (((hiff ha hb).1 hab).trans ((hiff hb hc).1 hbc))
  · obtain ⟨w, hw⟩ := ha.raw?
    exact ha.alike_of_raw? ((raw?_reference hw).trans hw.symm)
  · exact equalWithin_alike ha hb haa hbb hnm
  · have helements : ∀ x, t.elements x = s.elements x := by
      intro x
      unfold elements window slots
      rw [hblocks, harrays]
    have halike : ∀ {a}, s.Tame n a → s.Alike t n a a := fun ha =>
      ha.matches (fun _ _ => rfl) (raw?_of_cells hcells) helements fun o =>
        Fields.get?_perm (hfields o)
    exact equalWithin_alike ha hb (halike ha) (halike hb) hnm

/-- A store with two objects that hold the same, the second one behind an annotation and a reference. -/
def twoObjects : Store where
  cells := #[.text "b"]
  blocks := #[#[.text "a", .text "b"],
    #[.typed (.text "a") (.named {} "String"), .reference 0 (some 0)]]
  arrays := #[⟨0, 2⟩, ⟨1, 2⟩]
  objects := #[{ fields := ⟨[("k", .array 0)], by decide⟩ }, { fields := ⟨[("k", .array 1)], by decide⟩ }]

theorem equality_laws_twoObjects :
    3 ≤ 4 ∧
      twoObjects.Tame 3 (.object 0 none) ∧ twoObjects.Tame 3 (.object 1 none) ∧
      twoObjects.equalWithin 4 (.object 0 none) (.object 1 none) = some true ∧
      twoObjects.equalWithin 4 (.object 1 none) (.object 0 none) = some true := by
  have harray : ∀ w, w ∈ [(.text "a" : Value), .text "b",
      .typed (.text "a") (.named {} "String"), .reference 0 (some 0)] → twoObjects.Tame 1 w := by
    intro w hw
    simp only [List.mem_cons, List.not_mem_nil, or_false] at hw
    rcases hw with rfl | rfl | rfl | rfl <;> exact ⟨_, rfl, rfl, rfl⟩
  have h0 : twoObjects.Tame 3 (.object 0 none) := by
    refine ⟨_, rfl, fun f hf => ?_⟩
    obtain rfl := List.mem_singleton.1 hf
    exact ⟨_, rfl, fun w hw => harray w (List.mem_append_left [_, _] hw)⟩
  have h1 : twoObjects.Tame 3 (.object 1 none) := by
    refine ⟨_, rfl, fun f hf => ?_⟩
    obtain rfl := List.mem_singleton.1 hf
    exact ⟨_, rfl, fun w hw => harray w (List.mem_append_right [_, _] hw)⟩
  obtain ⟨-, -, hsymm, -⟩ := equality_laws twoObjects 3 4 (by decide)
  have hequal : twoObjects.equalWithin 4 (.object 0 none) (.object 1 none) = some true := by
    decide +kernel
  exact ⟨by decide, h0, h1, hequal, (hsymm _ _ h0 h1).symm.trans hequal⟩

end ScriptLang.Store
