import ScriptLang.Eval.Conform
import ScriptLang.Proofs.Store.Content

/-!
# Fields of instances

What the fields of instances can hold after a change of the store. An instance keeps its struct, and a
field is written to only after the value was checked against the annotations that the struct has for it;
a new instance has nil in all its fields.
-/

namespace ScriptLang

namespace Fields

variable {fields : Fields} {name k : Text} {v w : Value}

theorem get?_of_mem (h : (name, v) ∈ fields) : fields.get? name = some v := by
  obtain ⟨entries, hdistinct⟩ := fields
  show entries.lookup name = some v
  induction entries with
  | nil => cases h
  | cons e entries ih =>
    obtain ⟨k, w⟩ := e
    obtain ⟨hk, hdistinct⟩ := List.nodup_cons.1 hdistinct
    rw [List.lookup_cons]
    rcases List.mem_cons.1 h with heq | hmem
    · cases heq
      rw [beq_self_eq_true]
    · have hne : name ≠ k := by
        rintro rfl
        exact hk (List.mem_map.2 ⟨_, hmem, rfl⟩)
      rw [beq_false_of_ne hne]
      exact ih hdistinct hmem

/-- A field is found by its name. -/
theorem get?_eq_some : fields.get? name = some v ↔ (name, v) ∈ fields :=
  ⟨Store.mem_of_get?, get?_of_mem⟩

theorem get?_set : (fields.set name v).get? k = if k = name then some v else fields.get? k := by
  refine Option.ext fun w => ?_
  rw [get?_eq_some, mem_set]
  split
  · next h => simp [h, eq_comm]
  · next h => simp [h, get?_eq_some]

theorem get?_erase (h : (fields.erase name).get? k = some v) : fields.get? k = some v :=
  get?_of_mem (List.mem_filter.1 (Store.mem_of_get? h)).1

end Fields

namespace Store

variable {s t u : Store} {o : ObjectId} {type : StructType} {name : Text} {v w : Value}

/-- Whether a value conforms to all annotations that a struct has for a field. -/
def Takes (s : Store) (type : StructType) (name : Text) (v : Value) : Prop :=
  ∀ f ∈ type.fields, f.name = name → ∀ annotation, f.type = some annotation →
    s.conforms? type.scope annotation v = some true

/-- Whether the instances of a later store were there before, with the same fields. -/
def SameInstances (s t : Store) : Prop :=
  ∀ o type, t.structOf? o = some type → s.structOf? o = some type ∧ t.fields o = s.fields o

/-- Whether every field of an instance of a later store was there before, is nil, or was checked. -/
def ChecksFields (s t : Store) : Prop :=
  ∀ o type, t.structOf? o = some type → ∀ name v, (t.fields o).get? name = some v →
    (s.structOf? o = some type ∧ (s.fields o).get? name = some v) ∨ v = .nil ∨
      ∃ w, v = w.plain ∧ s.Takes type name w

theorem SameInstances.refl : s.SameInstances s := fun _ _ h => ⟨h, rfl⟩

theorem SameInstances.trans (hst : s.SameInstances t) (htu : t.SameInstances u) :
    s.SameInstances u := by
  intro o type h
  obtain ⟨ht, hfields⟩ := htu o type h
  obtain ⟨hs, hfields'⟩ := hst o type ht
  exact ⟨hs, hfields.trans hfields'⟩

theorem SameInstances.of_objects (h : t.objects = s.objects) : s.SameInstances t := by
  intro o type ho
  unfold structOf? fields at *
  rw [h] at ho ⊢
  exact ⟨ho, rfl⟩

theorem SameInstances.checks (h : s.SameInstances t) : s.ChecksFields t := by
  intro o type ho name v hv
  obtain ⟨hs, hfields⟩ := h o type ho
  exact .inl ⟨hs, hfields ▸ hv⟩

theorem ChecksFields.of_objects (h : t.objects = s.objects) : s.ChecksFields t :=
  (SameInstances.of_objects h).checks

/-! ### Changes of objects -/

theorem getD_newObject {fields : Fields} {type? : Option StructType} :
    (s.newObject fields type?).2.objects.getD o {} =
      if o = s.objects.size then { fields, type := type? } else s.objects.getD o {} := by
  simp only [newObject, Array.getD_eq_getD_getElem?, Array.getElem?_push]
  split <;> rfl

/-- A new object without a struct leaves the instances as they are. -/
theorem SameInstances.newObject (fields : Fields) : s.SameInstances (s.newObject fields).2 := by
  intro o type ho
  unfold structOf? Store.fields at *
  rw [getD_newObject] at ho ⊢
  split at ho
  · cases ho
  · next hne => exact ⟨ho, by rw [if_neg hne]⟩

/-- A new instance has nil in all its fields. -/
theorem ChecksFields.newObject {fields : Fields} {type? : Option StructType}
    (h : ∀ name v, fields.get? name = some v → v = .nil) :
    s.ChecksFields (s.newObject fields type?).2 := by
  intro o type ho name v hv
  unfold structOf? Store.fields at *
  rw [getD_newObject] at ho hv
  split at hv
  · exact .inr (.inl (h name v hv))
  · next hne =>
    rw [if_neg hne] at ho
    exact .inl ⟨ho, hv⟩

/-- The struct of an object does not change. -/
theorem structOf?_updateObject {f : Fields → Fields} {o' : ObjectId} :
    (s.updateObject o f).structOf? o' = s.structOf? o' := by
  simp only [updateObject, structOf?, Array.getD_eq_getD_getElem?, Array.getElem?_modify]
  split
  · cases s.objects[o']? <;> rfl
  · rfl

/-- The fields of an instance after a change of an object. -/
theorem fields_updateObject {f : Fields → Fields} {o' : ObjectId} (h : s.structOf? o' = some type) :
    (s.updateObject o f).fields o' = if o = o' then f (s.fields o') else s.fields o' := by
  simp only [updateObject, structOf?, fields, Array.getD_eq_getD_getElem?, Array.getElem?_modify]
    at h ⊢
  split
  · cases hobject : s.objects[o']? with
    | none =>
      rw [hobject] at h
      cases h
    | some object => rfl
  · rfl

/-- A write of a value that was checked. -/
theorem ChecksFields.set (h : ∀ type, s.structOf? o = some type → s.Takes type name w) :
    s.ChecksFields (s.updateObject o fun fields => fields.set name w.plain) := by
  intro o' type ho k v hv
  rw [structOf?_updateObject] at ho
  rw [fields_updateObject ho] at hv
  split at hv
  · next heq =>
    subst heq
    rw [Fields.get?_set] at hv
    split at hv
    · next hk =>
      subst hk
      exact .inr (.inr ⟨w, (Option.some.inj hv).symm, h type ho⟩)
    · exact .inl ⟨ho, hv⟩
  · exact .inl ⟨ho, hv⟩

theorem ChecksFields.erase : s.ChecksFields (s.updateObject o fun fields => fields.erase name) := by
  intro o' type ho k v hv
  rw [structOf?_updateObject] at ho
  rw [fields_updateObject ho] at hv
  split at hv
  · exact .inl ⟨ho, Fields.get?_erase hv⟩
  · exact .inl ⟨ho, hv⟩

end Store

end ScriptLang
