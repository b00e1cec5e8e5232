import ScriptLang.Proofs.Json.Reading
import ScriptLang.Proofs.Library.Ordering
import ScriptLang.Proofs.Store.Widening
import ScriptLang.Proofs.Value.Equality

/-!
# Writing values as JSON and reading them back

A value *stands for* a JSON value if it has the same parts: the same truth values, texts and names, and
numbers that are equal (`Store.Stands`). A value that is built from what JSON knows has a JSON value that it
stands for (`Store.Plain.json`), and a new value that is made of a JSON value stands for it
(`Store.decodes_ofJson`). Two values that stand for the same JSON value are equal (`Store.Stands.agree`). So
a value that is written and read back is equal to what it was.

A plain value that is nested no deeper than JSON texts may be has a JSON text, on one line or indented, and
the text is read as a value that equals it, as long as the texts that are made on the way are no longer than
a text can be. Otherwise the call ends the run (`Library.parse_stringify`).
-/

namespace ScriptLang.Store

variable {s t : Store} {v w : Value} {j : Json} {n m : Nat}

/-- Whether a value is built from nil, truth values, finite numbers, well-formed texts, arrays, and objects
of no struct with well-formed names, in no more than `n` levels of arrays and objects. There may be
references and annotations anywhere. The arrays are there, as all that a program can reach are
(`Store.hasArray_of_good`), and so are the objects. -/
inductive Plain (s : Store) : Nat → Value → Prop
  /-- Nil. -/
  | nil {n : Nat} {v : Value} (h : s.raw? v = some .nil) : Plain s n v
  /-- A truth value. -/
  | boolean {n : Nat} {v : Value} {b : Bool} (h : s.raw? v = some (.boolean b)) : Plain s n v
  /-- A finite number. -/
  | number {n : Nat} {v : Value} {x : Float} (h : s.raw? v = some (.number x))
      (hx : Number.isFinite x = true) : Plain s n v
  /-- A well-formed text. -/
  | text {n : Nat} {v : Value} {x : Text} (h : s.raw? v = some (.text x)) (hx : x.isUtf8 = true) :
      Plain s n v
  /-- An array. -/
  | array {n : Nat} {v : Value} {a : ArrayId} (h : s.raw? v = some (.array a)) (ha : s.HasArray a)
      (hparts : ∀ w ∈ s.elements a, Plain s n w) : Plain s (n + 1) v
  /-- An object of no struct. -/
  | object {n : Nat} {v : Value} {o : ObjectId} (h : s.raw? v = some (.object o none))
      (ho : o < s.objects.size) (hnames : ∀ f ∈ s.fields o, f.1.isUtf8 = true)
      (hparts : ∀ f ∈ s.fields o, Plain s n f.2) : Plain s (n + 1) v

/-- Whether a value that is neither a reference nor typed has the shape of a JSON value, with a relation of
parts. -/
inductive Shape (s : Store) (part : Value → Json → Prop) : Value → Json → Prop
  /-- Nil. -/
  | null : Shape s part .nil .null
  /-- A truth value. -/
  | bool (b : Bool) : Shape s part (.boolean b) (.bool b)
  /-- Finite numbers that are equal. -/
  | number {x y : Float} (hx : Number.isFinite x = true) (hy : Number.isFinite y = true)
      (h : (x == y) = true) : Shape s part (.number x) (.number y)
  /-- A text. -/
  | text (x : Text) : Shape s part (.text x) (.text x)
  /-- An array with as many elements. -/
  | array {a : ArrayId} {items : List Json} (ha : s.HasArray a)
      (h : ∀ i : Nat, Option.Rel part (s.elements a)[i]? items[i]?) :
      Shape s part (.array a) (.array items)
  /-- An object of no struct with the same names. -/
  | object {o : ObjectId} {fields : List (Text × Json)} (ho : o < s.objects.size)
      (h : ∀ name, Option.Rel part ((s.fields o).get? name) (fields.lookup name)) :
      Shape s part (.object o none) (.object fields)

/-- Whether a value stands for a JSON value in its first `n` levels, which are all that it has. -/
def Stands (s : Store) : Nat → Value → Json → Prop
  | 0, _, _ => False
  | n + 1, v, j => ∃ r, s.raw? v = some r ∧ Shape s (s.Stands n) r j

theorem rel_imp {α β : Type} {r r' : α → β → Prop} (h : ∀ a b, r a b → r' a b) {a : Option α}
    {b : Option β} (hab : Option.Rel r a b) : Option.Rel r' a b := by
  cases hab with
  | some hab => exact .some (h _ _ hab)
  | none => exact .none

theorem rel_meet {α β γ : Type} {r : α → γ → Prop} {r' : β → γ → Prop} {r'' : α → β → Prop}
    (h : ∀ a b c, r a c → r' b c → r'' a b) {a : Option α} {b : Option β} {c : Option γ}
    (hac : Option.Rel r a c) (hbc : Option.Rel r' b c) : Option.Rel r'' a b := by
  cases hac with
  | some hac => cases hbc with | some hbc => exact .some (h _ _ _ hac hbc)
  | none => cases hbc with | none => exact .none

namespace Stands

/-- What a value stands for does not change when arrays and objects are added. -/
theorem widen (h : s.Stands n v j) (hw : s.Widens t) : t.Stands n v j := by
  induction n generalizing v j with
  | zero => exact h
  | succ n ih =>
    obtain ⟨r, hr, h⟩ := h
    refine ⟨r, (hw.raw? v).trans hr, ?_⟩
    cases h with
    | null => exact .null
    | bool b => exact .bool b
    | number hx hy h => exact .number hx hy h
    | text x => exact .text x
    | array ha h =>
      refine .array (hw.hasArray ha) fun i => ?_
      rw [hw.elements ha]
      exact rel_imp (fun _ _ => ih) (h i)
    | object ho h =>
      refine .object (hw.lt_objects ho) fun name => ?_
      rw [hw.fields ho]
      exact rel_imp (fun _ _ => ih) (h name)

/-- A value that stands for a JSON value is finite. -/
theorem tame (h : s.Stands n v j) : s.Tame n v := by
  induction n generalizing v j with
  | zero => exact h
  | succ n ih =>
    obtain ⟨r, hr, h⟩ := h
    refine ⟨r, hr, ?_⟩
    cases h with
    | null => exact ⟨rfl, rfl⟩
    | bool b => exact ⟨rfl, rfl⟩
    | @number x y hx hy h =>
      refine ⟨rfl, ?_⟩
      change (!x.isNaN) = true
      rw [Number.isNaN_of_isFinite hx]
      rfl
    | text x => exact ⟨rfl, rfl⟩
    | @array a items ha h =>
      intro w hw
      obtain ⟨i, hi⟩ := List.mem_iff_getElem?.1 hw
      have hrel := h i
      rw [hi] at hrel
      generalize items[i]? = item at hrel
      cases hrel with
      | some hrel => exact ih hrel
    | @object o fields ho h =>
      intro f hf
      have hrel := h f.1
      rw [Fields.get?_of_mem hf] at hrel
      generalize fields.lookup f.1 = item at hrel
      cases hrel with
      | some hrel => exact ih hrel

/-- Two values that stand for the same JSON value are equal. -/
theorem agree (h : s.Stands n v j) (h' : t.Stands n w j) : s.Agree t n v w := by
  induction n generalizing v w j with
  | zero => exact h
  | succ n ih =>
    obtain ⟨r, hr, h⟩ := h
    obtain ⟨r', hr', h'⟩ := h'
    have hpart : ∀ v w j, s.Stands n v j → t.Stands n w j → s.Agree t n v w := fun _ _ _ => ih
    refine ⟨r, r', hr, hr', ?_⟩
    cases h with
    | null => cases h' with | null => exact .leaf rfl rfl rfl
    | bool b =>
      cases h' with
      | bool => exact .leaf rfl rfl (beq_self_eq_true b)
    | number hx hy h =>
      cases h' with
      | number hx' hy' h' => exact .leaf rfl rfl (Number.beq_trans h (Number.beq_symm h'))
    | text x =>
      cases h' with
      | text => exact .leaf rfl rfl (beq_self_eq_true x)
    | array ha h =>
      cases h' with
      | array ha' h' => exact .array fun i => rel_meet hpart (h i) (h' i)
    | object ho h =>
      cases h' with
      | object ho' h' => exact .object rfl fun name => rel_meet hpart (h name) (h' name)

end Stands

/-! ### Writing -/

/-- The results of a function that succeeds for all items. -/
theorem mapM_ok {α β ε : Type} {f : α → Except ε β} {P : α → β → Prop} {xs : List α}
    (h : ∀ x ∈ xs, ∃ y, f x = .ok y ∧ P x y) :
    ∃ ys, xs.mapM f = .ok ys ∧ List.Forall₂ P xs ys := by
  induction xs with
  | nil => exact ⟨[], rfl, .nil⟩
  | cons x xs ih =>
    obtain ⟨⟨y, hy, hP⟩, h⟩ := List.forall_mem_cons.1 h
    obtain ⟨ys, hys, hPs⟩ := ih h
    refine ⟨y :: ys, ?_, .cons hP hPs⟩
    rw [List.mapM_cons, hy, hys]
    rfl

theorem rel_getElem?_of_forall₂ {α β : Type} {P : α → β → Prop} {xs : List α} {ys : List β}
    (h : List.Forall₂ P xs ys) (i : Nat) : Option.Rel P xs[i]? ys[i]? := by
  induction h generalizing i with
  | nil => exact .none
  | cons hP _ ih =>
    cases i with
    | zero => exact .some hP
    | succ i => exact ih i

theorem rel_lookup_of_forall₂ {α β : Type} {P : α → β → Prop} {xs : List (Text × α)}
    {ys : List (Text × β)} (h : List.Forall₂ (fun x y => x.1 = y.1 ∧ P x.2 y.2) xs ys) (name : Text) :
    Option.Rel P (xs.lookup name) (ys.lookup name) := by
  induction h with
  | nil => exact .none
  | @cons x y xs ys hP _ ih =>
    obtain ⟨k, a⟩ := x
    obtain ⟨l, b⟩ := y
    obtain ⟨rfl, hP⟩ := hP
    rw [List.lookup_cons, List.lookup_cons]
    dsimp only
    cases name == k with
    | true => exact .some hP
    | false => exact ih

theorem names_of_forall₂ {α β : Type} {P : α → β → Prop} {xs : List (Text × α)} {ys : List (Text × β)}
    (h : List.Forall₂ (fun x y => x.1 = y.1 ∧ P x.2 y.2) xs ys) :
    xs.map Prod.fst = ys.map Prod.fst := by
  induction h with
  | nil => rfl
  | cons hP _ ih => rw [List.map_cons, List.map_cons, hP.1, ih]

theorem forall_mem_of_forall₂ {α β : Type} {P : α → β → Prop} {Q : β → Prop} {xs : List α} {ys : List β}
    (h : List.Forall₂ P xs ys) (hPQ : ∀ x y, P x y → Q y) : ∀ y ∈ ys, Q y := by
  induction h with
  | nil => exact List.forall_mem_nil _
  | cons hP _ ih => exact List.forall_mem_cons.2 ⟨hPQ _ _ hP, ih⟩

/-- A plain value has a JSON value, which can be read back and which it stands for. -/
theorem Plain.json (h : s.Plain n v) : ∀ m, n < m →
    ∃ j, s.jsonWithin m v = .ok j ∧ j.Readable n ∧ s.Stands (n + 1) v j := by
  induction h with
  | nil h =>
    intro m hm
    obtain ⟨m, rfl⟩ := Nat.exists_eq_add_one_of_ne_zero (Nat.ne_zero_of_lt hm)
    refine ⟨.null, ?_, .null, _, h, .null⟩
    rw [jsonWithin, h]
  | boolean h =>
    intro m hm
    obtain ⟨m, rfl⟩ := Nat.exists_eq_add_one_of_ne_zero (Nat.ne_zero_of_lt hm)
    refine ⟨.bool _, ?_, .bool _, _, h, .bool _⟩
    rw [jsonWithin, h]
  | number h hx =>
    intro m hm
    obtain ⟨m, rfl⟩ := Nat.exists_eq_add_one_of_ne_zero (Nat.ne_zero_of_lt hm)
    refine ⟨.number _, ?_, .number hx, _, h, .number hx hx ?_⟩
    · rw [jsonWithin, h]
      exact if_pos hx
    · exact Number.beq_self_iff.2 (Number.isNaN_of_isFinite hx)
  | text h hx =>
    intro m hm
    obtain ⟨m, rfl⟩ := Nat.exists_eq_add_one_of_ne_zero (Nat.ne_zero_of_lt hm)
    refine ⟨.text _, ?_, .text hx, _, h, .text _⟩
    rw [jsonWithin, h]
  | @array n v a h ha _ ih =>
    intro m hm
    obtain ⟨m, rfl⟩ := Nat.exists_eq_add_one_of_ne_zero (Nat.ne_zero_of_lt hm)
    obtain ⟨js, hjs, hall⟩ := mapM_ok fun w hw => ih w hw m (Nat.lt_of_succ_lt_succ hm)
    refine ⟨.array js, ?_, .array (forall_mem_of_forall₂ hall fun _ _ hP => hP.1), _, h,
      .array ha fun i => rel_imp (fun _ _ hP => hP.2) (rel_getElem?_of_forall₂ hall i)⟩
    rw [jsonWithin, h]
    dsimp only
    rw [hjs]
    rfl
  | @object n v o h ho hnames _ ih =>
    intro m hm
    obtain ⟨m, rfl⟩ := Nat.exists_eq_add_one_of_ne_zero (Nat.ne_zero_of_lt hm)
    have hfield : ∀ f ∈ s.fields o, ∃ g : Text × Json,
        (do return (f.1, ← s.jsonWithin m f.2) : Except JsonFault (Text × Json)) = .ok g ∧
          ((f.1 = g.1 ∧ s.Stands (n + 1) f.2 g.2) ∧ g.1.isUtf8 = true ∧ g.2.Readable n) := by
      intro f hf
      obtain ⟨j, hj, hreadable, hstands⟩ := ih f hf m (Nat.lt_of_succ_lt_succ hm)
      refine ⟨(f.1, j), ?_, ⟨rfl, hstands⟩, hnames f hf, hreadable⟩
      rw [hj]
      rfl
    obtain ⟨fs, hfs, hall⟩ := mapM_ok hfield
    have hstands := hall.imp fun _ _ hP => hP.1
    have hreadable := forall_mem_of_forall₂ hall fun _ _ hP => hP.2
    have hdistinct : (fs.map Prod.fst).Nodup := names_of_forall₂ hstands ▸ (s.fields o).distinct
    refine ⟨.object fs, ?_, .object hdistinct (fun g hg => (hreadable g hg).1)
      fun g hg => (hreadable g hg).2, _, h, .object ho (rel_lookup_of_forall₂ hstands)⟩
    rw [jsonWithin, h]
    exact congrArg (Except.bind · _) hfs

/-! ### Reading -/

/-- Whether a value that is made in a store stands for a JSON value, and what was there before is there as it
was. -/
structure Decodes (s : Store) {α : Type} (P : Store → α → Prop) (made : α × Store) : Prop where
  /-- Arrays and objects were added. -/
  widens : s.Widens made.2
  /-- What the value is. -/
  holds : P made.2 made.1

/-- A new array of elements that stand for JSON values. -/
theorem Decodes.array {items : List Json} {made : List Value × Store}
    (h : s.Decodes (fun t vs => List.Forall₂ (t.Stands n) vs items) made) :
    s.Decodes (fun t v => t.Stands (n + 1) v (.array items))
      (.array (made.2.newArray made.1 0).1, (made.2.newArray made.1 0).2) := by
  have hnew := Widens.newArray made.2 made.1 0
  refine ⟨h.widens.trans hnew, _, rfl, .array hasArray_newArray fun i => ?_⟩
  have helements : (made.2.newArray made.1 0).2.elements (made.2.newArray made.1 0).1 = made.1 :=
    elements_newArray
  dsimp only
  rw [helements]
  exact rel_imp (fun _ _ hstands => hstands.widen hnew) (rel_getElem?_of_forall₂ h.holds i)

/-- A new object of fields that stand for JSON values. -/
theorem Decodes.object {fields : List (Text × Json)} {made : List (Text × Value) × Store}
    (hnames : (fields.map Prod.fst).Nodup)
    (h : s.Decodes (fun t fs => List.Forall₂ (fun f g => f.1 = g.1 ∧ t.Stands n f.2 g.2) fs fields)
      made) :
    s.Decodes (fun t v => t.Stands (n + 1) v (.object fields))
      (.object (made.2.newObject (Fields.ofList made.1)).1 none,
        (made.2.newObject (Fields.ofList made.1)).2) := by
  have hnew := Widens.newObject made.2 (Fields.ofList made.1) none
  have hfields : (made.2.newObject (Fields.ofList made.1)).2.fields
      (made.2.newObject (Fields.ofList made.1)).1 = Fields.ofList made.1 := fields_newObject
  have hnodup : (made.1.map Prod.fst).Nodup := by
    rw [names_of_forall₂ h.holds]
    exact hnames
  refine ⟨h.widens.trans hnew, _, rfl, .object lt_newObject fun name => ?_⟩
  dsimp only
  rw [hfields, Fields.get?_ofList hnodup]
  exact rel_imp (fun _ _ hstands => hstands.widen hnew) (rel_lookup_of_forall₂ h.holds name)

/-- Elements that are made of JSON values stand for them. -/
theorem decodes_ofJsonItems {items : List Json}
    (ih : ∀ j ∈ items, ∀ s : Store, s.Decodes (fun t v => t.Stands (n + 1) v j) (s.ofJson j.reread)) :
    ∀ s : Store, s.Decodes (fun t vs => List.Forall₂ (t.Stands (n + 1)) vs items)
      (s.ofJsonItems (Json.rereadItems items)) := by
  induction items with
  | nil => exact fun s => ⟨.refl s, .nil⟩
  | cons j js ihs =>
    intro s
    obtain ⟨hj, ih⟩ := List.forall_mem_cons.1 ih
    obtain ⟨hwidens, hstands⟩ := hj s
    obtain ⟨hwidens', hall⟩ := ihs ih _
    exact ⟨hwidens.trans hwidens', .cons (hstands.widen hwidens') hall⟩

/-- Fields that are made of JSON values have their names and stand for them. -/
theorem decodes_ofJsonFields {fields : List (Text × Json)}
    (ih : ∀ f ∈ fields, ∀ s : Store,
      s.Decodes (fun t v => t.Stands (n + 1) v f.2) (s.ofJson f.2.reread)) :
    ∀ s : Store,
      s.Decodes (fun t fs => List.Forall₂ (fun f g => f.1 = g.1 ∧ t.Stands (n + 1) f.2 g.2) fs fields)
        (s.ofJsonFields (Json.rereadFields fields)) := by
  induction fields with
  | nil => exact fun s => ⟨.refl s, .nil⟩
  | cons f fs ihs =>
    intro s
    obtain ⟨hf, ih⟩ := List.forall_mem_cons.1 ih
    obtain ⟨hwidens, hstands⟩ := hf s
    obtain ⟨hwidens', hall⟩ := ihs ih _
    exact ⟨hwidens.trans hwidens', .cons ⟨rfl, hstands.widen hwidens'⟩ hall⟩

/-- A value that is made of a JSON value stands for it. -/
theorem decodes_ofJson (h : Json.Readable n j) : ∀ s : Store,
    s.Decodes (fun t v => t.Stands (n + 1) v j) (s.ofJson j.reread) := by
  induction h with
  | null => exact fun s => ⟨.refl s, _, rfl, .null⟩
  | bool b => exact fun s => ⟨.refl s, _, rfl, .bool b⟩
  | number hx =>
    intro s
    obtain ⟨-, hfinite, heq⟩ := Number.reread_spec hx
    exact ⟨.refl s, _, rfl, .number hfinite hx heq⟩
  | text ht => exact fun s => ⟨.refl s, _, rfl, .text _⟩
  | array _ ih => exact fun s => (decodes_ofJsonItems ih s).array
  | object hnames _ _ ih => exact fun s => (decodes_ofJsonFields ih s).object hnames

end ScriptLang.Store

namespace ScriptLang.Library

open Eval

/-- What a call of `json.stringify` asks for besides the value: a text on one line, or one with an
indentation. -/
inductive Indents (s : Store) : List Value → Option Int → Prop
  /-- There is no other argument. -/
  | line : Indents s [] none
  /-- The other argument is an integer. -/
  | lines {a : Value} {x : Float} (ha : s.raw? a = some (.number x)) (hx : Number.isIntegral x = true) :
      Indents s [a] (some (Number.toInteger x))

/-- The JSON text on one line or with an indentation. -/
def written (j : Json) : Option Int → Text
  | none => j.compact .markup
  | some width => j.indented (Text.spaces width.toNat) 0

/-- Whether nothing that is made on the way to the JSON text is longer than a text can be: the text on one
line, which comes first, the indentation and the text itself. -/
structure Fits (j : Json) (width : Option Int) : Prop where
  line : (j.compact .markup).length ≤ Text.sizeLimit
  indentation : ∀ n ∈ width, 0 ≤ n ∧ n ≤ Text.sizeLimit
  written : (written j width).length ≤ Text.sizeLimit

variable {run : Runner} {host : Host} {st : State} {v a : Value} {x : Float} {j : Json} {n : Nat}
variable {args : List Value} {width : Option Int}

theorem encode_of_json? (h : st.store.json? v = .ok j) (host : Host) : encode v host st = .ok j st := by
  have hstore : store host st = .ok st.store st := rfl
  rw [encode, bind_of_ok hstore, h]
  rfl

/-- An argument that is an integer. -/
theorem integer_of_raw? (args : Arguments) (i : Nat) (h : st.store.raw? (args.get i) = some (.number x))
    (hx : Number.isIntegral x = true) (host : Host) :
    args.integer i host st = .ok (Number.toInteger x) st := by
  have hnumber : args.number i host st = .ok x st := by
    unfold Arguments.number
    exact bind_of_ok (raw_of_raw? h host)
  rw [Arguments.integer, bind_of_ok hnumber, if_pos hx]
  rfl

theorem allocated_apply (t : Text) (host : Host) (st : State) :
    allocated t host st = if t.length ≤ Text.sizeLimit then .ok t st else .error .crash st := by
  unfold allocated
  by_cases h : t.length ≤ Text.sizeLimit
  · rw [if_pos h, if_neg (Nat.not_lt.2 h)]
    rfl
  · rw [if_neg h, if_pos (Nat.lt_of_not_le h)]
    rfl

/-- The text of a value with an indentation, made from the text on one line. -/
theorem call_stringify_lines (h : st.store.json? v = .ok j) (hdepth : j.beyond? Json.maxDepth = none)
    (ha : st.store.raw? a = some (.number x)) (hx : Number.isIntegral x = true)
    (hline : (j.compact .markup).length ≤ Text.sizeLimit) :
    call run .stringify [v, a] host st =
      if (0 ≤ Number.toInteger x ∧ Number.toInteger x ≤ Text.sizeLimit) ∧
          (written j (some (Number.toInteger x))).length ≤ Text.sizeLimit then
        .ok (.text (written j (some (Number.toInteger x)))) st
      else .error .crash st := by
  have hencode : encode ((Arguments.mk Builtin.stringify.name [v, a]).get 0) host st = .ok j st :=
    encode_of_json? h host
  have hmade : allocated (j.compact .markup) host st = .ok (j.compact .markup) st :=
    (allocated_apply _ host st).trans (if_pos hline)
  have hinteger := integer_of_raw? ⟨Builtin.stringify.name, [v, a]⟩ 1 ha hx host
  refine (call_of_arity rfl).trans ((bind_of_ok hencode).trans ((bind_of_ok hmade).trans
    ((bind_of_ok hinteger).trans ?_)))
  generalize Number.toInteger x = n
  by_cases hn : 0 ≤ n ∧ n ≤ Text.sizeLimit
  · have hwidth : ¬(decide (n < 0) || decide (n > Text.sizeLimit)) = true := by
      simp only [Bool.or_eq_true, decide_eq_true_eq]
      omega
    rw [if_neg hwidth, hdepth]
    show (allocated (written j (some n)) >>= fun t => return Value.text t) host st = _
    rw [bind_apply, allocated_apply]
    by_cases hwritten : (written j (some n)).length ≤ Text.sizeLimit
    · rw [if_pos hwritten, if_pos ⟨hn, hwritten⟩]
      rfl
    · rw [if_neg hwritten, if_neg fun h => hwritten h.2]
  · have hwidth : (decide (n < 0) || decide (n > Text.sizeLimit)) = true := by
      simp only [Bool.or_eq_true, decide_eq_true_eq]
      omega
    rw [if_pos hwidth, if_neg fun h => hn h.1]
    rfl

/-- A call that writes a value as JSON gives the text, or else it ends the run. -/
theorem call_stringify (h : st.store.json? v = .ok j) (hdepth : j.beyond? Json.maxDepth = none)
    (hargs : Indents st.store args width) :
    (Fits j width → call run .stringify (v :: args) host st = .ok (.text (written j width)) st) ∧
    (¬Fits j width → call run .stringify (v :: args) host st = .error .crash st) := by
  have hencode : encode ((Arguments.mk Builtin.stringify.name (v :: args)).get 0) host st = .ok j st :=
    encode_of_json? h host
  have harity : checkArity .stringify (v :: args).length host st = .ok () st := by
    cases hargs <;> rfl
  have hcall : call run .stringify (v :: args) host st =
      (allocated (j.compact .markup) >>= fun line => _) host st :=
    (call_of_arity harity).trans (bind_of_ok hencode)
  by_cases hline : (j.compact .markup).length ≤ Text.sizeLimit
  · cases hargs with
    | line =>
      rw [hcall, bind_apply, allocated_apply, if_pos hline]
      exact ⟨fun _ => rfl, fun hno => absurd ⟨hline, nofun, hline⟩ hno⟩
    | lines ha hx =>
      rw [call_stringify_lines h hdepth ha hx hline]
      refine ⟨fun hfits => if_pos ⟨hfits.indentation _ rfl, hfits.written⟩, fun hno => if_neg fun h => hno ?_⟩
      exact ⟨hline, fun n hn => Option.mem_some_iff.1 hn ▸ h.1, h.2⟩
  · rw [hcall, bind_apply, allocated_apply, if_neg hline]
    exact ⟨fun hfits => absurd hfits.line hline, fun _ => rfl⟩

/-- The value of a text. -/
theorem call_parseJson {t : Text} (h : Json.parse? t = some j) :
    call run .parseJson [.text t] host st =
      .ok (st.store.ofJson j).1 { st with store := (st.store.ofJson j).2 } := by
  have hraw : st.store.raw? (.text t) = some (.text t) := rfl
  have htext : (Arguments.mk Builtin.parseJson.name [.text t]).text 0 host st = .ok t st := by
    unfold Arguments.text
    exact bind_of_ok (raw_of_raw? hraw host)
  refine (call_of_arity rfl).trans ((bind_of_ok htext).trans ?_)
  rw [h]
  rfl

theorem parse?_written (h : j.Readable Json.maxDepth) (width : Option Int) :
    Json.parse? (written j width) = some j.reread := by
  cases width with
  | none => exact (congrArg Json.parse? (Json.compact_eq 0 j)).trans (Json.parse?_spaced h)
  | some n => exact (congrArg Json.parse? (Json.indented_eq n.toNat 0 j)).trans (Json.parse?_spaced h)

/-- A plain value that is nested no deeper than 10000 levels is written as JSON, on one line or with an
indentation of any number of spaces, just when the texts fit; otherwise the call ends the run, without a
fault. The text that is written is read, and the value that is read equals the value that was written. What
was there before is there as it was. -/
theorem parse_stringify (run : Runner) (host : Host) (st : State) (v : Value)
    (hv : st.store.Plain 10000 v) :
    ∃ j, st.store.json? v = .ok j ∧ ∀ args width, Indents st.store args width →
      (Fits j width →
        call run .stringify (v :: args) host st = .ok (.text (written j width)) st ∧
        ∃ w st', call run .parseJson [.text (written j width)] host st = .ok w st' ∧
          st'.store.equal? v w = some true ∧ st.store.Widens st'.store) ∧
      (¬Fits j width → call run .stringify (v :: args) host st = .error .crash st) := by
  obtain ⟨j, hj, hreadable, hstands⟩ := hv.json 1000000000000 (by decide)
  obtain ⟨hwidens, hmade⟩ := Store.decodes_ofJson hreadable st.store
  have hequal : (st.store.ofJson j.reread).2.equal? v (st.store.ofJson j.reread).1 = some true := by
    have hv := hstands.widen hwidens
    refine (Store.decides_equalWithin hv.tame hmade.tame ?_).iff.2 (hv.agree hmade)
    decide
  refine ⟨j, hj, fun args width hargs => ?_⟩
  exact ⟨fun hfits => ⟨(call_stringify hj hreadable.beyond? hargs).1 hfits, _, _,
    call_parseJson (parse?_written hreadable width), hequal, hwidens⟩,
    (call_stringify hj hreadable.beyond? hargs).2⟩

/-- Not every integer that is not negative can be an indentation: nil has no JSON text with an indentation of
`10 ^ 15` spaces. -/
theorem parse_stringify_beyond : ({} : State).store.Plain 10000 .nil ∧
    Number.isIntegral (Number.ofNat 1000000000000000) = true ∧
    0 ≤ Number.toInteger (Number.ofNat 1000000000000000) ∧
    call (evaluator 0) .stringify [.nil, .number (Number.ofNat 1000000000000000)] {} {} =
      .error .crash {} := by
  have hx : Number.isIntegral (Number.ofNat 1000000000000000) = true := by decide +kernel
  have hwide : Number.toInteger (Number.ofNat 1000000000000000) > Text.sizeLimit := by decide +kernel
  have hnil : ({} : State).store.json? .nil = .ok .null := rfl
  refine ⟨.nil rfl, hx, by decide +kernel, ?_⟩
  rw [call_stringify_lines hnil rfl rfl hx (by decide), if_neg fun h => Int.not_lt.2 h.1.2 hwide]

/-- A state with an array of a string and a number behind a reference, and an object that holds the array. -/
def nested : State where
  store := {
    cells := #[.number (Number.ofNat 7)]
    blocks := #[#[.text "<&>", .reference 0 (some 0)]]
    arrays := #[⟨0, 2⟩]
    objects := #[{ fields := ⟨[("k", .typed (.array 0) (.named {} "Any"))], by decide⟩ }] }

theorem parse_stringify_nested :
    nested.store.Plain 10000 (.object 0 none) ∧
      Indents nested.store [.number (Number.ofNat 2)] (some (Number.toInteger (Number.ofNat 2))) ∧
      ∃ j, Fits j (some (Number.toInteger (Number.ofNat 2))) ∧
        ∃ t, call (evaluator 0) .stringify [.object 0 none, .number (Number.ofNat 2)] {} nested =
            .ok (.text t) nested ∧
          ∃ w st', call (evaluator 0) .parseJson [.text t] {} nested = .ok w st' ∧
            st'.store.equal? (.object 0 none) w = some true := by
  have helement : ∀ w ∈ nested.store.elements 0, nested.store.Plain 9998 w := by
    intro w hw
    have helements : nested.store.elements 0 = [.text "<&>", .reference 0 (some 0)] := rfl
    simp only [helements, List.mem_cons, List.not_mem_nil, or_false] at hw
    rcases hw with rfl | rfl
    · exact .text rfl (by decide)
    · exact .number rfl (by decide +kernel)
  have hv : nested.store.Plain 10000 (.object 0 none) := by
    refine .object rfl (by decide) ?_ ?_
    · exact List.forall_mem_singleton.2 (by decide)
    · exact List.forall_mem_singleton.2 (.array rfl ⟨by decide, by decide⟩ helement)
  have hx : Number.isIntegral (Number.ofNat 2) = true := by decide +kernel
  have hargs : Indents nested.store [.number (Number.ofNat 2)] (some (Number.toInteger (Number.ofNat 2))) :=
    .lines rfl hx
  obtain ⟨j, hj, hcalls⟩ := parse_stringify (evaluator 0) {} nested _ hv
  have hfits : Fits j (some (Number.toInteger (Number.ofNat 2))) := by
    cases hj
    exact ⟨by decide +kernel, fun n hn => Option.mem_some_iff.1 hn ▸ by decide +kernel, by decide +kernel⟩
  obtain ⟨ht, w, st', hread, hequal, -⟩ := (hcalls _ _ hargs).1 hfits
  exact ⟨hv, hargs, j, hfits, _, ht, w, st', hread, hequal⟩

end ScriptLang.Library
