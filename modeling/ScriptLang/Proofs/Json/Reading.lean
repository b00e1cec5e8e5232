import Mathlib.Data.List.DropRight
import ScriptLang.Library.Persistence
import ScriptLang.Proofs.Json.Scalars

/-!
# JSON texts are read back

The compact and the indented text of a value differ in the blanks between the parts only. Both are instances
of one text that leaves open which blanks these are (`Json.spaced`). The reader skips them, so it reads the
value back from either text (`Json.parse?_spaced`). What is read differs from what was written in the sign
of zero only, which has no text (`Json.reread`).

The value that is written may be read: it has finite numbers, well-formed texts and no more than a given
number of levels (`Json.Readable`). The proof that it is read back is an induction on this.
-/

namespace ScriptLang

/-- The number that the JSON text of a number is read as. -/
def Number.reread (x : Float) : Float := (Number.read? (Number.json x)).getD x

theorem Number.reread_spec {x : Float} (hx : isFinite x = true) :
    read? (json x) = some (reread x) ∧ isFinite (reread x) = true ∧ (reread x == x) = true := by
  obtain ⟨y, hy, h⟩ := read?_json hx
  rw [reread, hy]
  exact ⟨rfl, h⟩

namespace Json

/-! ### Blanks between the parts -/

/-- The blanks between the parts of a JSON text. -/
structure Spacing where
  /-- What stands before a part of a level, and before the bracket that closes the level above. -/
  line : Nat → Text
  /-- What stands before the value of a field. -/
  gap : Text
  /-- There are only blanks before a part. -/
  line_blank : ∀ level, ∀ b ∈ line level, isBlank b = true
  /-- A value may end before them. -/
  line_ends : ∀ level b r, ends (b :: r) = true → ends (line level ++ b :: r) = true
  /-- There are only blanks before the value of a field. -/
  gap_blank : ∀ b ∈ gap, isBlank b = true

/-- No blanks. -/
def Spacing.none : Spacing where
  line _ := []
  gap := []
  line_blank _ := List.forall_mem_nil _
  line_ends _ _ _ h := h
  gap_blank := List.forall_mem_nil _

/-- Every part on a line of its own, with some spaces for each level. -/
def Spacing.lines (width : Nat) : Spacing where
  line := lineAt (Text.spaces width)
  gap := [Text.space]
  line_blank level b hb := by
    rw [lineAt, Text.times] at hb
    rcases List.mem_cons.1 hb with rfl | hb
    · rfl
    · have hspace : b = Text.space := by
        split at hb
        · cases hb
        · obtain ⟨t, ht, hb⟩ := List.mem_flatten.1 hb
          rw [List.eq_of_mem_replicate ht] at hb
          exact List.eq_of_mem_replicate hb
      rw [hspace]
      rfl
  line_ends _ _ _ _ := rfl
  gap_blank := List.forall_mem_singleton.2 rfl

/-- The texts of parts, each with blanks before it, and commas between them. -/
def spacedParts (s : Spacing) (level : Nat) : List Text → Text
  | [] => []
  | [t] => s.line level ++ t
  | t :: ts => s.line level ++ (t ++ 0x2c :: spacedParts s level ts)

/-- The text of what has parts between brackets. -/
def enclosed (s : Spacing) (level : Nat) (opening closing : UInt8) (ts : List Text) : Text :=
  if ts = [] then [opening, closing]
  else opening :: (spacedParts s (level + 1) ts ++ (s.line level ++ [closing]))

mutual

/-- The text of a value with blanks between its parts. -/
def spaced (s : Spacing) (level : Nat) : Json → Text
  | .null => "null"
  | .bool true => "true"
  | .bool false => "false"
  | .integer i => Text.ofInt i
  | .number n => Number.json n
  | .text t => quote .markup t
  | .array items => enclosed s level 0x5b 0x5d (spacedItems s (level + 1) items)
  | .object fields => enclosed s level 0x7b 0x7d (spacedFields s (level + 1) fields)

/-- The texts of elements. -/
def spacedItems (s : Spacing) (level : Nat) : List Json → List Text
  | [] => []
  | j :: js => spaced s level j :: spacedItems s level js

/-- The texts of fields. -/
def spacedFields (s : Spacing) (level : Nat) : List (Text × Json) → List Text
  | [] => []
  | (k, j) :: fs =>
    (quote .markup k ++ 0x3a :: (s.gap ++ spaced s level j)) :: spacedFields s level fs

end

mutual

/-- The compact text has no blanks. -/
theorem compact_eq (level : Nat) : ∀ j : Json, j.compact .markup = j.spaced .none level
  | .null => rfl
  | .bool true => rfl
  | .bool false => rfl
  | .integer _ => rfl
  | .number _ => rfl
  | .text _ => rfl
  | .array [] => rfl
  | .array (j :: js) => by
    rw [compact, spaced, compactItems_eq (level + 1) (j :: js)]
    rfl
  | .object [] => rfl
  | .object (f :: fs) => by
    rw [compact, spaced, compactFields_eq (level + 1) (f :: fs)]
    rfl

theorem compactItems_eq (level : Nat) : ∀ js : List Json,
    compactItems .markup js = spacedParts .none level (spacedItems .none level js)
  | [] => rfl
  | [j] => compact_eq level j
  | j :: i :: js => by
    rw [compactItems, compact_eq level j, compactItems_eq level (i :: js)]
    · exact List.append_assoc _ (Text.ofString ",") _
    · exact nofun

theorem compactFields_eq (level : Nat) : ∀ fs : List (Text × Json),
    compactFields .markup fs = spacedParts .none level (spacedFields .none level fs)
  | [] => rfl
  | [(k, j)] => by
    rw [compactFields, compact_eq level j]
    exact List.append_assoc _ (Text.ofString ":") _
  | (k, j) :: f :: fs => by
    rw [compactFields, compact_eq level j, compactFields_eq level (f :: fs)]
    · simp only [List.append_assoc]
      exact (List.append_assoc (quote .markup k) (0x3a :: j.spaced .none level) _).symm
    · exact nofun

end

mutual

/-- The indented text has every part on a line of its own. -/
theorem indented_eq (width level : Nat) : ∀ j : Json,
    j.indented (Text.spaces width) level = j.spaced (.lines width) level
  | .null => rfl
  | .bool true => rfl
  | .bool false => rfl
  | .integer _ => rfl
  | .number _ => rfl
  | .text _ => rfl
  | .array [] => rfl
  | .array (j :: js) => by
    rw [indented, spaced, indentedItems_eq width (level + 1) (j :: js)]
    simp only [List.append_assoc]
    rfl
  | .object [] => rfl
  | .object (f :: fs) => by
    rw [indented, spaced, indentedFields_eq width (level + 1) (f :: fs)]
    simp only [List.append_assoc]
    rfl

theorem indentedItems_eq (width level : Nat) : ∀ js : List Json,
    indentedItems (Text.spaces width) level js =
      spacedParts (.lines width) level (spacedItems (.lines width) level js)
  | [] => rfl
  | [j] => congrArg (lineAt (Text.spaces width) level ++ ·) (indented_eq width level j)
  | j :: i :: js => by
    rw [indentedItems, indented_eq width level j, indentedItems_eq width level (i :: js)]
    · simp only [List.append_assoc]
      rfl
    · exact nofun

theorem indentedFields_eq (width level : Nat) : ∀ fs : List (Text × Json),
    indentedFields (Text.spaces width) level fs =
      spacedParts (.lines width) level (spacedFields (.lines width) level fs)
  | [] => rfl
  | [(k, j)] => by
    rw [indentedFields, indented_eq width level j]
    simp only [List.append_assoc]
    rfl
  | (k, j) :: f :: fs => by
    rw [indentedFields, indented_eq width level j, indentedFields_eq width level (f :: fs)]
    · simp only [List.append_assoc]
      exact congrArg (lineAt (Text.spaces width) level ++ ·)
        (List.append_assoc (quote .markup k) (0x3a :: 0x20 :: j.spaced (.lines width) level) _).symm
    · exact nofun

end

/-! ### What can be read back -/

/-- Whether a value has finite numbers, well-formed texts and no more than `n` levels of parts. Integers are
left out: they are written as numbers are. -/
inductive Readable : Nat → Json → Prop
  /-- The value `null`. -/
  | null {n : Nat} : Readable n .null
  /-- A truth value. -/
  | bool {n : Nat} (b : Bool) : Readable n (.bool b)
  /-- A finite number. -/
  | number {n : Nat} {x : Float} (hx : Number.isFinite x = true) : Readable n (.number x)
  /-- A well-formed text. -/
  | text {n : Nat} {t : Text} (ht : t.isUtf8 = true) : Readable n (.text t)
  /-- A sequence. -/
  | array {n : Nat} {items : List Json} (h : ∀ j ∈ items, Readable n j) : Readable (n + 1) (.array items)
  /-- Named values, with different names. -/
  | object {n : Nat} {fields : List (Text × Json)} (hnodup : (fields.map Prod.fst).Nodup)
      (hnames : ∀ f ∈ fields, f.1.isUtf8 = true)
      (h : ∀ f ∈ fields, Readable n f.2) : Readable (n + 1) (.object fields)

mutual

/-- What a value is read as. -/
def reread : Json → Json
  | .number x => .number (Number.reread x)
  | .array items => .array (rereadItems items)
  | .object fields => .object (rereadFields fields)
  | j => j

/-- What the elements of a sequence are read as. -/
def rereadItems : List Json → List Json
  | [] => []
  | j :: js => reread j :: rereadItems js

/-- What the fields of an object are read as. -/
def rereadFields : List (Text × Json) → List (Text × Json)
  | [] => []
  | (k, j) :: fs => (k, reread j) :: rereadFields fs

end

/-- The bracket that opens a part that lies too deep is not found. -/
theorem Readable.beyond? {n : Nat} {j : Json} (h : Readable n j) : j.beyond? n = none := by
  induction h with
  | @array n items _ ih =>
    rw [Json.beyond?]
    clear * - ih
    induction items with
    | nil => rfl
    | cons j js ihs =>
      obtain ⟨hj, ih⟩ := List.forall_mem_cons.1 ih
      rw [beyondItems?, hj]
      exact ihs ih
  | @object n fields _ _ _ ih =>
    rw [Json.beyond?]
    clear * - ih
    induction fields with
    | nil => rfl
    | cons f fs ihs =>
      obtain ⟨hf, ih⟩ := List.forall_mem_cons.1 ih
      rw [beyondFields?, hf]
      exact ihs ih
  | _ => rfl

/-! ### Reading -/

variable {s : Spacing} {level n size : Nat} {j : Json} {rest : Text}

theorem skipBlanks_append {t : Text} (ht : ∀ b ∈ t, isBlank b = true) (r : Text) :
    skipBlanks (t ++ r) = skipBlanks r := List.dropWhile_append_of_pos ht

theorem skipBlanks_cons {b : UInt8} (hb : isBlank b = false) (r : Text) : skipBlanks (b :: r) = b :: r :=
  List.dropWhile_cons_of_neg (Bool.eq_false_iff.1 hb)

/-- Whether a text can be a part: its first byte is neither a blank nor a closing bracket. -/
def Begins (t : Text) : Prop := ∃ b r, t = b :: r ∧ isBlank b = false ∧ b ≠ 0x5d ∧ b ≠ 0x7d

theorem Begins.skipBlanks {t : Text} (h : Begins t) (r : Text) : skipBlanks (t ++ r) = t ++ r := by
  obtain ⟨b, u, rfl, hb, -⟩ := h
  exact skipBlanks_cons hb _

/-- Blanks before a part are skipped. -/
theorem Begins.skipBlanks_line {t : Text} (h : Begins t) (r : Text) :
    Json.skipBlanks (s.line level ++ (t ++ r)) = t ++ r :=
  (skipBlanks_append (s.line_blank level) _).trans (h.skipBlanks r)

theorem begins_enclosed {opening closing : UInt8} {ts : List Text} (hblank : isBlank opening = false)
    (hbracket : opening ≠ 0x5d) (hbrace : opening ≠ 0x7d) :
    Begins (enclosed s level opening closing ts) := by
  rw [enclosed]
  split <;> exact ⟨_, _, rfl, hblank, hbracket, hbrace⟩

/-- The text of a value can be a part. -/
theorem begins_spaced (h : Readable n j) : Begins (j.spaced s level) := by
  cases h with
  | null => exact ⟨_, _, rfl, by decide⟩
  | bool b => cases b <;> exact ⟨_, _, rfl, by decide⟩
  | number hx =>
    obtain ⟨b, r, hstart, hb⟩ := Number.json_start hx
    refine ⟨b, r, hstart, ?_⟩
    rcases hb with rfl | hb
    · decide
    · exact Text.forall_byte (p := fun b => Text.isDigit b = true →
        isBlank b = false ∧ b ≠ 0x5d ∧ b ≠ 0x7d) (by decide +kernel) b hb
  | text => exact ⟨_, _, rfl, by decide⟩
  | array => exact begins_enclosed rfl (by decide) (by decide)
  | object => exact begins_enclosed rfl (by decide) (by decide)

/-! ### Reading values without parts -/

theorem readValue_scalar {t : Text} (hbracket : ∀ r, t ≠ 0x5b :: r) (hbrace : ∀ r, t ≠ 0x7b :: r) :
    readValue size n t = readScalar size t := by
  cases n with
  | zero => rw [readValue] <;> assumption
  | succ n => rw [readValue] <;> assumption

/-- A finite number is read back, up to the sign of zero. -/
theorem readValue_number {x : Float} (hx : Number.isFinite x = true) (hrest : ends rest = true) :
    readValue size n (Number.json x ++ rest) = some (.number (Number.reread x), rest) := by
  have htext := Number.numberText_json hx hrest
  obtain ⟨b, r, hstart, hb⟩ := Number.json_start hx
  have hclass : b ≠ 0x22 ∧ b ≠ 0x74 ∧ b ≠ 0x66 ∧ b ≠ 0x6e ∧ b ≠ 0x5b ∧ b ≠ 0x7b := by
    rcases hb with rfl | hb
    · decide
    · exact Text.forall_byte (p := fun b => Text.isDigit b = true →
        b ≠ 0x22 ∧ b ≠ 0x74 ∧ b ≠ 0x66 ∧ b ≠ 0x6e ∧ b ≠ 0x5b ∧ b ≠ 0x7b) (by decide +kernel) b hb
  have hhead {c : UInt8} (hc : b ≠ c) (r' : Text) : Number.json x ++ rest ≠ c :: r' := by
    rw [hstart]
    exact fun h => hc (List.cons.inj h).1
  obtain ⟨hquote, ht, hf, hn, hbracket, hbrace⟩ := hclass
  rw [readValue_scalar (hhead hbracket) (hhead hbrace), readScalar, htext]
  · dsimp only [Option.bind_eq_bind, Option.bind_some]
    rw [(Number.reread_spec hx).1]
    rfl
  · exact hhead hquote
  · exact hhead ht
  · exact hhead hf
  · exact hhead hn

/-- A well-formed text is read back. -/
theorem readString_quote {t : Text} (ht : t.isUtf8 = true) (rest : Text)
    (hsize : (quote .markup t).length ≤ size + 1) :
    ∃ r, quote .markup t ++ rest = 0x22 :: r ∧ readString size r = some (t, rest) := by
  have hquote : quote .markup t ++ rest =
      0x22 :: ((Text.runes t).flatMap (escapeRune .markup) ++ 0x22 :: rest) := by
    change 0x22 :: (((Text.runes t).flatMap (escapeRune .markup) ++ [0x22]) ++ rest) = _
    rw [List.append_assoc]
    rfl
  have hlength : (quote .markup t).length =
      ((Text.runes t).flatMap (escapeRune .markup)).length + 2 := by
    change (0x22 :: ((Text.runes t).flatMap (escapeRune .markup) ++ [0x22])).length = _
    simp
  exact ⟨_, hquote, readString_flatMap ht (by omega)⟩

/-! ### Reading the parts -/

section

variable {α : Type} {part : Text → Option (α × Text)} {close : UInt8} {p : α} {t : Text} {fuel : Nat}

theorem readParts_skipBlanks : readParts part close fuel (skipBlanks t) = readParts part close fuel t := by
  cases fuel with
  | zero => rfl
  | succ fuel =>
    have hskip : skipBlanks (skipBlanks t) = skipBlanks t := List.dropWhile_idempotent ..
    rw [readParts, readParts, hskip]

/-- A part is read that others follow. -/
theorem readParts_more (ht : Begins t) (hpart : part (t ++ 0x2c :: rest) = some (p, 0x2c :: rest)) :
    readParts part close (fuel + 1) (s.line level ++ (t ++ 0x2c :: rest)) =
      (readParts part close fuel rest).bind fun ps => some (p :: ps.1, ps.2) := by
  rw [readParts, ht.skipBlanks_line, hpart]
  rfl

/-- The last part is read. -/
theorem readParts_last (ht : Begins t) (hclose : isBlank close = false) (hcomma : close ≠ 0x2c)
    {inner outer : Nat}
    (hpart : part (t ++ (s.line outer ++ close :: rest)) = some (p, s.line outer ++ close :: rest)) :
    readParts part close (fuel + 1) (s.line inner ++ (t ++ (s.line outer ++ close :: rest))) =
      some ([p], rest) := by
  have hskip : skipBlanks (s.line outer ++ close :: rest) = close :: rest :=
    (skipBlanks_append (s.line_blank outer) _).trans (skipBlanks_cons hclose rest)
  rw [readParts, ht.skipBlanks_line, hpart]
  dsimp only [Option.bind_eq_bind, Option.bind_some]
  rw [hskip]
  dsimp only
  rw [if_neg (by simpa using hcomma), if_pos (beq_self_eq_true close)]
  rfl

/-- Parts are read back if each of them is, wherever it stands. -/
theorem readParts_spaced {parts : List (Text × α)} (hne : parts ≠ [])
    (hbegins : ∀ q ∈ parts, Begins q.1)
    (hpart : ∀ q ∈ parts, q.1.length < size → ∀ rest, ends rest = true →
      part (q.1 ++ rest) = some (q.2, rest))
    (hclose : close = 0x5d ∨ close = 0x7d) (inner outer fuel : Nat)
    (hfuel : (spacedParts s inner (parts.map Prod.fst)).length < fuel) (hsize : fuel ≤ size) :
    readParts part close fuel (spacedParts s inner (parts.map Prod.fst) ++
      (s.line outer ++ close :: rest)) = some (parts.map Prod.snd, rest) := by
  have hends : ends (close :: rest) = true ∧ isBlank close = false ∧ close ≠ 0x2c := by
    rcases hclose with rfl | rfl <;> exact ⟨rfl, rfl, by decide⟩
  induction parts generalizing fuel with
  | nil => exact absurd rfl hne
  | cons q qs ih =>
    rw [List.forall_mem_cons] at hbegins hpart
    cases fuel with
    | zero => cases hfuel
    | succ fuel =>
      cases qs with
      | nil =>
        rw [List.map_cons, List.map_nil, spacedParts, List.length_append] at hfuel
        have hread := hpart.1 (by omega) _ (s.line_ends outer close rest hends.1)
        rw [List.map_cons, List.map_nil, spacedParts, List.append_assoc]
        exact readParts_last hbegins.1 hends.2.1 hends.2.2 hread
      | cons q' qs =>
        have hspaced : spacedParts s inner ((q :: q' :: qs).map Prod.fst) =
            s.line inner ++ (q.1 ++ 0x2c :: spacedParts s inner ((q' :: qs).map Prod.fst)) := rfl
        rw [hspaced, List.length_append, List.length_append, List.length_cons] at hfuel
        have hread := hpart.1 (by omega) (0x2c :: (spacedParts s inner ((q' :: qs).map Prod.fst) ++
          (s.line outer ++ close :: rest))) rfl
        have hrest := ih (List.cons_ne_nil _ _) hbegins.2 hpart.2 fuel (by omega) (by omega)
        rw [hspaced, List.append_assoc, List.append_assoc, List.cons_append,
          readParts_more hbegins.1 hread, hrest]
        rfl

/-- The first byte of parts is the first byte of the first part. -/
theorem skipBlanks_spacedParts {ts : List Text} (hne : ts ≠ []) (hbegins : ∀ t ∈ ts, Begins t) (r : Text) :
    Begins (skipBlanks (spacedParts s level ts ++ r)) := by
  cases ts with
  | nil => exact absurd rfl hne
  | cons t ts =>
    have ht := hbegins t List.mem_cons_self
    have hskip : ∃ r', skipBlanks (spacedParts s level (t :: ts) ++ r) = t ++ r' := by
      cases ts with
      | nil => exact ⟨r, by rw [spacedParts, List.append_assoc, ht.skipBlanks_line]⟩
      | cons u us =>
        refine ⟨0x2c :: (spacedParts s level (u :: us) ++ r), ?_⟩
        have hspaced : spacedParts s level (t :: u :: us) =
            s.line level ++ (t ++ 0x2c :: spacedParts s level (u :: us)) := rfl
        rw [hspaced, List.append_assoc, List.append_assoc, List.cons_append, ht.skipBlanks_line]
    obtain ⟨r', hskip⟩ := hskip
    obtain ⟨b, u, rfl, hb⟩ := ht
    exact ⟨b, u ++ r', hskip, hb⟩

/-- The parts between two brackets are read back, when the reader has skipped the blanks before them. -/
theorem readParts_enclosed (part : Text → Option (α × Text)) (opening : UInt8) (rest : Text)
    {parts : List (Text × α)} (hne : parts ≠ [])
    (hbegins : ∀ q ∈ parts, Begins q.1)
    (hpart : ∀ q ∈ parts, q.1.length < size → ∀ rest, ends rest = true →
      part (q.1 ++ rest) = some (q.2, rest))
    (hclose : close = 0x5d ∨ close = 0x7d)
    (hsize : (enclosed s level opening close (parts.map Prod.fst)).length < size) :
    ∃ t, enclosed s level opening close (parts.map Prod.fst) ++ rest = opening :: t ∧
      (∀ r, skipBlanks t ≠ close :: r) ∧
      readParts part close size (skipBlanks t) = some (parts.map Prod.snd, rest) := by
  have hne' : parts.map Prod.fst ≠ [] := by simpa using hne
  rw [enclosed, if_neg hne'] at hsize ⊢
  rw [List.length_cons, List.length_append] at hsize
  refine ⟨spacedParts s (level + 1) (parts.map Prod.fst) ++ (s.line level ++ close :: rest), ?_, ?_, ?_⟩
  · rw [List.cons_append, List.append_assoc, List.append_assoc]
    rfl
  · intro r hr
    have hfirst : Begins (skipBlanks (spacedParts s (level + 1) (parts.map Prod.fst) ++
        (s.line level ++ close :: rest))) :=
      skipBlanks_spacedParts hne' (List.forall_mem_map.2 hbegins) _
    obtain ⟨b, u, hb, -, hbracket, hbrace⟩ := hfirst
    rw [hr] at hb
    cases hb
    rcases hclose with h | h
    · exact hbracket h
    · exact hbrace h
  · rw [readParts_skipBlanks]
    exact readParts_spaced hne hbegins hpart hclose (level + 1) level size (by omega) (Nat.le_refl _)

end

/-- A field is read back if its name is well-formed and its value is read back. -/
theorem readField_spaced {item : Text → Option (Json × Text)} {k : Text} {i : Json}
    (hk : k.isUtf8 = true) (hbegins : Begins (j.spaced s level))
    (hsize : (quote .markup k).length ≤ size + 1)
    (hitem : item (j.spaced s level ++ rest) = some (i, rest)) :
    readField item size ((quote .markup k ++ 0x3a :: (s.gap ++ j.spaced s level)) ++ rest) =
      some ((k, i), rest) := by
  obtain ⟨r, hquote, hname⟩ := readString_quote hk (0x3a :: (s.gap ++ (j.spaced s level ++ rest))) hsize
  have hcolon (t : Text) : skipBlanks (0x3a :: t) = 0x3a :: t := skipBlanks_cons rfl t
  have hgap : skipBlanks (s.gap ++ (j.spaced s level ++ rest)) = j.spaced s level ++ rest :=
    (skipBlanks_append s.gap_blank _).trans (hbegins.skipBlanks rest)
  rw [List.append_assoc, List.cons_append, List.append_assoc, hquote, readField, hname]
  dsimp only [Option.bind_eq_bind, Option.bind_some]
  rw [hcolon]
  change (item (skipBlanks _)).bind _ = _
  rw [hgap, hitem, Text.mend_of_isUtf8 hk]
  rfl

/-! ### Reading a value -/

theorem spacedItems_eq (s : Spacing) (level : Nat) (js : List Json) :
    spacedItems s level js = (js.map fun j => (j.spaced s level, j.reread)).map Prod.fst ∧
      rereadItems js = (js.map fun j => (j.spaced s level, j.reread)).map Prod.snd := by
  induction js with
  | nil => exact ⟨rfl, rfl⟩
  | cons j js ih => exact ⟨congrArg (_ :: ·) ih.1, congrArg (_ :: ·) ih.2⟩

/-- The text of a field and what the field is read as. -/
def fieldPart (s : Spacing) (level : Nat) (f : Text × Json) : Text × (Text × Json) :=
  (quote .markup f.1 ++ 0x3a :: (s.gap ++ f.2.spaced s level), (f.1, f.2.reread))

theorem spacedFields_eq (s : Spacing) (level : Nat) (fs : List (Text × Json)) :
    spacedFields s level fs = (fs.map (fieldPart s level)).map Prod.fst ∧
      rereadFields fs = (fs.map (fieldPart s level)).map Prod.snd := by
  induction fs with
  | nil => exact ⟨rfl, rfl⟩
  | cons f fs ih => exact ⟨congrArg (_ :: ·) ih.1, congrArg (_ :: ·) ih.2⟩

theorem readValue_array {t : Text} (h : ∀ r, skipBlanks t ≠ 0x5d :: r) :
    readValue size (n + 1) (0x5b :: t) =
      (readParts (readValue size n) 0x5d size (skipBlanks t)).map fun p => (.array p.1, p.2) := by
  rw [readValue]
  split
  · next heq => exact absurd heq (h _)
  · rfl

theorem readValue_object {t : Text} (h : ∀ r, skipBlanks t ≠ 0x7d :: r) :
    readValue size (n + 1) (0x7b :: t) =
      (readParts (readField (readValue size n) size) 0x7d size (skipBlanks t)).map
        fun p => (.object p.1, p.2) := by
  rw [readValue]
  split
  · next heq => exact absurd heq (h _)
  · rfl

/-- A value that can be read is read back, wherever it stands. -/
theorem readValue_spaced (h : Readable n j) : ∀ level, (j.spaced s level).length < size →
    ∀ rest, ends rest = true →
      readValue size n (j.spaced s level ++ rest) = some (j.reread, rest) := by
  induction h with
  | null => exact fun _ _ _ _ => readValue_scalar (by exact nofun) (by exact nofun)
  | bool b => exact fun _ _ _ _ => by cases b <;> exact readValue_scalar (by exact nofun) (by exact nofun)
  | number hx => exact fun _ _ _ hrest => readValue_number hx hrest
  | text ht =>
    intro level hsize rest _
    obtain ⟨r, hquote, hread⟩ := readString_quote ht rest (Nat.le_of_lt (Nat.lt_succ_of_lt hsize))
    rw [spaced, hquote, readValue_scalar (by exact nofun) (by exact nofun)]
    change (readString size r).map _ = _
    rw [hread, Option.map_some]
    dsimp only
    rw [Text.mend_of_isUtf8 ht]
    rfl
  | @array n items h ih =>
    intro level hsize rest _
    by_cases hne : items = []
    · subst hne
      rfl
    obtain ⟨htexts, hvalues⟩ := spacedItems_eq s (level + 1) items
    rw [spaced, htexts] at hsize ⊢
    obtain ⟨t, ht, hnot, hread⟩ := readParts_enclosed (readValue size n) 0x5b rest
      (by simpa using hne) (List.forall_mem_map.2 fun i hi => begins_spaced (h i hi))
      (List.forall_mem_map.2 fun i hi => ih i hi (level + 1)) (.inl rfl) hsize
    rw [ht, readValue_array hnot, hread, reread, hvalues]
    rfl
  | @object n fields _ hnames h ih =>
    intro level hsize rest _
    by_cases hne : fields = []
    · subst hne
      rfl
    obtain ⟨htexts, hvalues⟩ := spacedFields_eq s (level + 1) fields
    rw [spaced, htexts] at hsize ⊢
    have hfield : ∀ f ∈ fields, (fieldPart s (level + 1) f).1.length < size → ∀ rest, ends rest = true →
        readField (readValue size n) size ((fieldPart s (level + 1) f).1 ++ rest) =
          some ((fieldPart s (level + 1) f).2, rest) := by
      intro f hf hlength rest hrest
      rw [fieldPart, List.length_append, List.length_cons, List.length_append] at hlength
      exact readField_spaced (hnames f hf) (begins_spaced (h f hf)) (by omega)
        (ih f hf (level + 1) (by omega) rest hrest)
    obtain ⟨t, ht, hnot, hread⟩ := readParts_enclosed (readField (readValue size n) size) 0x7b rest
      (by simpa using hne) (List.forall_mem_map.2 fun f hf => ⟨_, _, rfl, by decide⟩)
      (List.forall_mem_map.2 hfield) (.inr rfl) hsize
    rw [ht, readValue_object hnot, hread, reread, hvalues]
    rfl

/-- The text of a value that can be read is read back, whatever blanks are in it. -/
theorem parse?_spaced (h : Readable maxDepth j) : parse? (j.spaced s 0) = some j.reread := by
  have hread : readValue ((j.spaced s 0).length + 1) maxDepth (j.spaced s 0 ++ []) =
      some (j.reread, []) := readValue_spaced h 0 (Nat.lt_succ_self _) [] rfl
  have hbegins : Begins (j.spaced s 0) := begins_spaced h
  have hskip := hbegins.skipBlanks []
  rw [List.append_nil] at hread hskip
  rw [parse?, hskip, hread]
  rfl

end Json

end ScriptLang
