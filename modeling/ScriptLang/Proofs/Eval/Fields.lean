import ScriptLang.Proofs.Eval.Annotations

/-!
# Fields with annotations

The struct of an instance says what some of its fields can hold. A write to such a field checks the
value, and nothing but the write is checked: what is stored is the value as it is, and if that is a
reference, then later assignments to what it refers to are not held to the annotation of the field
(`field_changed_through_reference`). A declaration with an annotation stores what is behind the
references instead.

So in all states that can be reached a field whose annotation names a type of the language holds a
reference, nil or a value of the type, in whatever way it was written; and right after it was
written, nil or a value of the type is behind the reference too.
-/

namespace ScriptLang

open Eval

namespace Store

variable {s t : Store} {o : ObjectId} {struct : StructType} {name : Text} {v w u : Value}

/-- Whether the fields of all instances fit the types that their annotations name, as far as they
hold no references. -/
def FieldsFit (s : Store) : Prop :=
  ∀ o struct, s.structOf? o = some struct → ∀ f ∈ struct.fields, ∀ span name type,
    f.type = some (.named span name) → BasicType.ofName? name = some type →
      ∀ v, (s.fields o).get? f.name = some v → v.untyped.isRaw = true →
        v.untyped = .nil ∨ type.holds v.untyped = true

/-- Whether every field whose annotation names a type of the language holds a reference, or else nil
or a value of the type. -/
def TypedFields (s : Store) : Prop :=
  ∀ o struct, s.structOf? o = some struct → ∀ f ∈ struct.fields, ∀ span name type,
    f.type = some (.named span name) → BasicType.ofName? name = some type →
      ∀ v, (s.fields o).get? f.name = some v →
        (∃ id c, v = .reference id c) ∨ ∃ u, s.raw? v = some u ∧ (u = .nil ∨ type.holds u = true)

theorem raw?_of_untyped (h : v.untyped.isRaw = true) : s.raw? v = some v.untyped := by
  unfold raw? rawWithin
  cases hv : v.untyped with
  | reference =>
    rw [hv] at h
    cases h
  | _ => rfl

theorem raw?_plain (v : Value) : s.raw? v.plain = s.raw? v := by
  cases v with
  | typed v type =>
    unfold raw? rawWithin
    rfl
  | _ => rfl

theorem untyped_plain (v : Value) : v.plain.untyped = v.untyped := by cases v <;> rfl

theorem raw?_of_conforms {scope : ScopeId} {type : TypeExpr} {b : Bool}
    (h : s.conforms? scope type v = some b) : ∃ u, s.raw? v = some u := by
  cases hv : s.raw? v with
  | some u => exact ⟨u, rfl⟩
  | none =>
    cases type <;>
      · unfold conforms? at h
        rw [hv] at h
        cases h

/-- A value that a field takes is nil or of the type that its annotation names. -/
theorem Takes.fits (h : s.Takes struct name w) {f : Param} (hf : f ∈ struct.fields)
    (hname : f.name = name) {span : Span} {n : Text} {type : BasicType}
    (htype : f.type = some (.named span n)) (hn : BasicType.ofName? n = some type)
    (hu : s.raw? w = some u) : u = .nil ∨ type.holds u = true :=
  (Law.fits_of_conforms (h f hf hname _ htype) hu).2 span n type rfl hn

/-- Checked writes keep fields fitting. -/
theorem FieldsFit.checks (h : s.FieldsFit) (hst : s.ChecksFields t) : t.FieldsFit := by
  intro o struct ho f hf span n type htype hn v hv hraw
  rcases hst o struct ho f.name v hv with ⟨hs, hv⟩ | rfl | ⟨w, rfl, htakes⟩
  · exact h o struct hs f hf span n type htype hn v hv hraw
  · exact .inl rfl
  · rw [untyped_plain] at hraw ⊢
    exact htakes.fits hf rfl htype hn (raw?_of_untyped hraw)

theorem FieldsFit.of_objects (h : s.FieldsFit) (ho : t.objects = s.objects) : t.FieldsFit :=
  h.checks (.of_objects ho)

/-- Where nothing on the heap has an annotation, fields that fit hold what their annotations say. -/
theorem FieldsFit.typed (h : s.FieldsFit) (hs : s.Annotated) : s.TypedFields := by
  intro o struct ho f hf span n type htype hn v hv
  have hplain : v.type? = none := (hs.heap v (heap_of_get? hv)).1
  cases v with
  | reference id c => exact .inl ⟨id, c, rfl⟩
  | typed => cases hplain
  | _ => exact .inr ⟨_, rfl, h o struct ho f hf span n type htype hn _ hv rfl⟩

end Store

namespace Law

/-- The law of fields. -/
def fielded : Law where
  toPrograms := .all
  le := fun _ _ _ => True
  keeps := Store.FieldsFit
  le_refl := trivial
  le_trans := fun _ _ => trivial
  le_mono := fun _ _ => trivial
  le_fresh := fun _ _ _ => trivial
  heap := fun _ _ hchecks => ⟨trivial, fun h => h.checks hchecks⟩
  newCell := fun _ h _ => ⟨trivial, h.of_objects rfl, trivial⟩
  write := fun h _ _ _ _ => ⟨trivial, h.of_objects rfl⟩
  newScope := fun _ h => ⟨trivial, h.of_objects rfl, trivial⟩
  bind := by
    intro s t scope names name v constant h _ _ _ ht
    refine ⟨trivial, ?_, trivial⟩
    rcases Store.bind_eq_ok ht with ⟨-, rfl⟩ | ⟨-, -, rfl⟩
    · exact h
    · exact h.of_objects rfl
  remove := fun h _ _ _ => ⟨trivial, h.of_objects rfl⟩

theorem universal_fielded : fielded.Universal := rfl

theorem fieldsFit_new : Store.FieldsFit { scopes := #[{}] } := by
  intro o struct ho
  cases ho

variable {s t : State} {vs : List Value} {r : Request} {host : Host}

theorem good_fielded (s : Store) (v : Value) : fielded.Good s v :=
  universal_fielded.good trivial trivial trivial trivial s v

theorem inv_fielded {s : Store} : fielded.Inv s ↔ s.FieldsFit :=
  ⟨fun h => h.keeps, fun h => ⟨h, fun v _ => good_fielded s v, fun v _ => ⟨good_fielded s v, trivial⟩⟩⟩

theorem reached_fieldsFit (h : Reached anyUse s vs) : s.store.FieldsFit :=
  (reached universal_fielded fieldsFit_new (d := fun _ _ => false) (fun h => h.elim)
    (fun {r host s} _ => r.avoids_none host s) h).1.keeps

theorem passed_fieldsFit (h : Reached anyUse s vs) (ht : r.Passes host s t) : t.store.FieldsFit :=
  (passes (L := fielded) (d := fun _ _ => false) (fun h => h.elim)
    (universal_fielded.fits fun v _ => good_fielded _ v) (inv_fielded.2 (reached_fieldsFit h))
    (r.avoids_none host s) ht).1.keeps

end Law

/-- A field that was written to holds what the value was checked for. -/
theorem Eval.setMember_typed {object v : Value} {name : Text} {host : Host} {s t : State} {o : ObjectId}
    {type? : Option StructType} {struct : StructType} (h : setMember object name v host s = .ok () t)
    (hobject : s.store.raw? object = some (.object o type?))
    (hstruct : s.store.structOf? o = some struct) {f : Param} (hf : f ∈ struct.fields)
    (hname : f.name = name) {span : Span} {n : Text} {type : BasicType}
    (htype : f.type = some (.named span n)) (hn : BasicType.ofName? n = some type) :
    (t.store.fields o).get? name = some v.plain ∧
      ∃ u, t.store.raw? v.plain = some u ∧ (u = .nil ∨ type.holds u = true) := by
  have hraw : raw object host s = .ok (.object o type?) s := raw_of_raw? hobject host
  have hstore : store host s = .ok s.store s := rfl
  unfold setMember at h
  rw [bind_apply, hraw] at h
  dsimp only at h
  rw [bind_apply, hstore] at h
  dsimp only at h
  rw [hstruct] at h
  dsimp only at h
  have hchecked := (still_checkField struct name v host s).1
  obtain ⟨_, s', hcheck, h⟩ := bind_eq_ok h
  rw [hcheck] at hchecked
  obtain ⟨hsame, htakes⟩ := hchecked
  obtain ⟨-, rfl⟩ := EStateM.Result.ok.inj h
  obtain ⟨u, hu⟩ := Store.raw?_of_conforms (htakes f hf hname _ htype)
  refine ⟨?_, u, ?_, htakes.fits hf hname htype hn hu⟩
  · show ((s'.store.updateObject o _).fields o).get? name = _
    rw [hsame.store, Store.fields_updateObject hstruct, if_pos rfl, Fields.get?_set, if_pos rfl]
  · have hcells : (s'.store.updateObject o fun fields => fields.set name v.plain).cells =
        s.store.cells := by
      rw [hsame.store]
      rfl
    exact (Store.raw?_of_cells hcells _).trans ((Store.raw?_plain v).trans hu)

/-- Typed fields hold what their annotations say, apart from references. In all states that can be
reached or passed every field of an instance whose annotation names a type of the language holds a
reference, nil or a value of the type; and what is behind the value of a field that was just written
to is nil or of the type. -/
theorem typed_fields_hold {s : State} {vs : List Value} (h : Reached anyUse s vs) :
    s.store.TypedFields ∧
    (∀ {r host t}, r.values ⊆ vs → Request.Passes r host s t → t.store.TypedFields) ∧
    ∀ {object v name host s t o type? struct}, setMember object name v host s = .ok () t →
      s.store.raw? object = some (.object o type?) → s.store.structOf? o = some struct →
        ∀ f ∈ struct.fields, f.name = name → ∀ {span n type}, f.type = some (.named span n) →
          BasicType.ofName? n = some type → (t.store.fields o).get? name = some v.plain ∧
            ∃ u, t.store.raw? v.plain = some u ∧ (u = .nil ∨ type.holds u = true) := by
  refine ⟨?_, fun {r host t} hr ht => ?_, fun h hobject hstruct f hf hname _ _ _ htype hn =>
    setMember_typed h hobject hstruct hf hname htype hn⟩
  · exact (Law.reached_fieldsFit h).typed (Law.reached_annotated h).1
  · obtain ⟨hs, hvs⟩ := Law.reached_annotated h
    exact (Law.passed_fieldsFit h ht).typed
      (Law.passed_annotated hs (fun v hv => hvs v (hr hv)) ht).1

/-- Two fields for strings. -/
def stringFields : List Param := [⟨"n", some (.named {} "String")⟩, ⟨"m", some (.named {} "String")⟩]

/-- What is left by a program that makes an instance of a struct with two fields for strings, writes a
reference to a variable to the one and a string to the other, and then assigns something to the
variable. -/
def writtenField (value : Expr) : State :=
  (Request.run ⟨{}, [.struct {} "S" stringFields [],
    .declare {} "x" false none (some (.string {} "a")),
    .declare {} "s" false none (some (.construct {} {} (.ident {} "S") [])),
    .expr {} (.assign {} .set (.member {} (.ident {} "s") "n")
      (.call {} (.ident {} "ref") [.ident {} "x"])),
    .expr {} (.assign {} .set (.member {} (.ident {} "s") "m") (.string {} "c")),
    .expr {} (.assign {} .set (.ident {} "x") value)]⟩).eval.after {} (Interpreter.new {} {} [] 0).state

theorem reached_writtenField (value : Expr) : ∃ vs, Reached anyUse (writtenField value) vs :=
  (Reached.new {} {} [] 0).after (List.nil_subset _) trivial

/-- Fields that were written to keep what their annotations say; the one that holds no reference holds a
string. -/
theorem written_field_typed : (writtenField (.string {} "b")).store.TypedFields ∧
    (((writtenField (.string {} "b")).store.fields 0).get? "m").map Value.typeName = some "String" := by
  obtain ⟨_, h⟩ := reached_writtenField (.string {} "b")
  exact ⟨(typed_fields_hold h).1, by decide +kernel⟩

/-- Not every field holds what its annotation says: what a reference in it leads to can change. -/
theorem field_changed_through_reference : ¬∀ {s : State} {vs : List Value}, Reached anyUse s vs →
    ∀ o struct, s.store.structOf? o = some struct → ∀ f ∈ struct.fields, ∀ span name type,
      f.type = some (.named span name) → BasicType.ofName? name = some type →
        ∀ v, (s.store.fields o).get? f.name = some v →
          ∃ u, s.store.raw? v = some u ∧ (u = .nil ∨ type.holds u = true) := by
  intro h
  obtain ⟨_, hreached⟩ := reached_writtenField (.bool {} true)
  have hstruct : ((writtenField (.bool {} true)).store.structOf? 0).map StructType.fields =
      some stringFields := by decide +kernel
  have hname : (((writtenField (.bool {} true)).store.fields 0).get? "n").bind
      (fun v => ((writtenField (.bool {} true)).store.raw? v).map Value.typeName) =
        some "Boolean" := by decide +kernel
  obtain ⟨struct, hs, hfields⟩ := Option.map_eq_some_iff.1 hstruct
  obtain ⟨v, hv, hname⟩ := Option.bind_eq_some_iff.1 hname
  obtain ⟨u, hu, hfits⟩ := h hreached 0 struct hs ⟨"n", some (.named {} "String")⟩
    (hfields ▸ List.mem_cons_self) {} "String" .text rfl (by decide) v hv
  rw [hu] at hname
  rcases hfits with rfl | hfits
  · cases hname
  · cases u with
    | text => cases hname
    | _ => cases hfits

end ScriptLang
