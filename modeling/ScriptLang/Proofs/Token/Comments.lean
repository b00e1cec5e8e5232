import ScriptLang.Proofs.Token.Sequel
import ScriptLang.Proofs.Token.Stretch

/-!
# Comments

`Token.hasComments` looks for comments with a scanner of its own, which knows strings in one quote only.
`Token.pieces` says what scanning finds: one stretch of the text behind the other, each with its piece.
`Token.leaves` says where `hasComments` stands behind a stretch.

Behind every stretch that is no string in three quotes `hasComments` stands outside of strings, as the
scanner does. So it finds a comment just when the scanner passes over one, if the same holds behind each
string in three quotes of the text (`Token.hasComments_iff`). It need not hold there: a line break or a
quote in such a string misleads it (`Token.hasComments_misled`).
-/

namespace ScriptLang

open Text (newline)

/-- Whether a piece is passed over. -/
def Piece.isGap : Piece → Bool
  | gap _ => true
  | token .. => false

namespace Token

/-- The pieces that scanning a text comes upon, each behind its stretch of the text, after `skip` bytes
that belong to the piece before. -/
def pieces : Nat → Text → List (Text × Piece)
  | _, [] => []
  | skip + 1, _ :: r => pieces skip r
  | 0, b :: r =>
    match piece b r with
    | .error _ => []
    | .ok x => ((b :: r).take x.size, x) :: pieces (x.size - 1) r

/-- Whether scanning a text passes over a comment. -/
def SkipsComment (source : Text) : Prop :=
  ∃ p ∈ pieces 0 source, p.2.isGap = true ∧ Text.ofString "//" <+: p.1

/-- Where `hasComments` stands behind a stretch of the text: inside or outside of a string. There is
no answer if it finds two slashes there, or if the stretch ends with a backslash in a string. -/
def leaves : Bool → Text → Option Bool
  | inString, [] => some inString
  | true, 0x5c :: _ :: r => leaves true r
  | true, [0x5c] => none
  | false, 0x2f :: 0x2f :: _ => none
  | inString, b :: r =>
    if b = Text.quoteMark then leaves (!inString) r
    else if b = Text.newline then leaves false r
    else leaves inString r

/-- Whether `hasComments` stands outside of strings behind every string in three quotes of a text. -/
def TriplesLeft (source : Text) : Prop :=
  ∀ p ∈ pieces 0 source, Text.ofString "\"\"\"" <+: p.1 → leaves false p.1 = some false

/-! ### Pieces -/

theorem pieces_append (u t : Text) : pieces u.length (u ++ t) = pieces 0 t := by
  induction u with
  | nil => rfl
  | cons b u ih => exact ih

theorem pieces_of_piece {b : UInt8} {u t : Text} {x : Piece} (h : piece b (u ++ t) = .ok x)
    (hsize : x.size = u.length + 1) : pieces 0 (b :: (u ++ t)) = (b :: u, x) :: pieces 0 t := by
  rw [pieces, h]
  simp only [hsize, Nat.add_sub_cancel, List.take_succ_cons, List.take_left, pieces_append]

theorem skipsComment_cons {source t : Text} {p : Text × Piece} (h : pieces 0 source = p :: pieces 0 t) :
    SkipsComment source ↔ (p.2.isGap = true ∧ Text.ofString "//" <+: p.1) ∨ SkipsComment t := by
  simp only [SkipsComment, h, List.mem_cons, or_and_right, exists_or, exists_eq_left]

theorem triplesLeft_cons {source t : Text} {p : Text × Piece} (h : pieces 0 source = p :: pieces 0 t) :
    TriplesLeft source ↔
      (Text.ofString "\"\"\"" <+: p.1 → leaves false p.1 = some false) ∧ TriplesLeft t := by
  simp only [TriplesLeft, h, List.forall_mem_cons]

/-! ### Where the search for comments stands -/

variable {st st' : Bool} {b : UInt8} {r u t : Text}

/-- A byte that neither starts an escape nor ends the search. -/
theorem hasComments_cons (hescape : st = true → b ≠ 0x5c)
    (hslash : st = false → b = 0x2f → r.head? ≠ some 0x2f) :
    hasComments st (b :: r) =
      if b = Text.quoteMark then hasComments (!st) r
      else if b = newline then hasComments false r
      else hasComments st r := by
  refine hasComments.eq_5 _ _ _ ?_ ?_ ?_
  · exact fun _ _ hst hb _ => hescape hst hb
  · exact fun hst hb _ => hescape hst hb
  · exact fun _ hst hb hr => hslash hst hb (by rw [hr]; rfl)

theorem getLast?_cons_of_some {x : UInt8} (h : r.getLast? = some x) : (b :: r).getLast? = some x := by
  rw [List.getLast?_cons, h]
  rfl

/-- The search goes on behind a stretch as behind any other, if the stretch does not end with half of a
comment's start. -/
theorem hasComments_append (h : leaves st u = some st')
    (hslash : u.getLast? = some 0x2f → t.head? ≠ some 0x2f) :
    hasComments st (u ++ t) = hasComments st' t := by
  have hcons {st : Bool} {b : UInt8} {r : Text}
      (hpair : ∀ c r', st = true → b = 0x5c → r = c :: r' → False)
      (hlone : st = true → b = 0x5c → r = [] → False)
      (hslashes : ∀ r', st = false → b = 0x2f → r = 0x2f :: r' → False)
      (hlast : (b :: r).getLast? = some 0x2f → t.head? ≠ some 0x2f) :
      hasComments st (b :: (r ++ t)) =
        if b = Text.quoteMark then hasComments (!st) (r ++ t)
        else if b = newline then hasComments false (r ++ t)
        else hasComments st (r ++ t) := by
    refine hasComments_cons (fun hst hb => ?_) fun hst hb => ?_
    · cases r with
      | nil => exact hlone hst hb rfl
      | cons c r => exact hpair c r hst hb rfl
    · cases r with
      | nil =>
        subst hb
        exact hlast rfl
      | cons c r =>
        intro hc
        cases hc
        exact hslashes r hst hb rfl
  fun_induction leaves st u with
  | case1 st =>
    cases h
    rfl
  | case2 c r ih =>
    exact ih h fun hlast => hslash (getLast?_cons_of_some (getLast?_cons_of_some hlast))
  | case3 | case4 => cases h
  | case5 st r hpair hlone hslashes ih =>
    rw [List.cons_append, hcons hpair hlone hslashes hslash, if_pos rfl]
    exact ih h fun hlast => hslash (getLast?_cons_of_some hlast)
  | case6 st r hpair hlone hslashes hquote ih =>
    rw [List.cons_append, hcons hpair hlone hslashes hslash, if_neg hquote, if_pos rfl]
    exact ih h fun hlast => hslash (getLast?_cons_of_some hlast)
  | case7 st b r hpair hlone hslashes hquote hline ih =>
    rw [List.cons_append, hcons hpair hlone hslashes hslash, if_neg hquote, if_neg hline]
    exact ih h fun hlast => hslash (getLast?_cons_of_some hlast)

/-- The same for a stretch that starts with such a byte. -/
theorem leaves_cons (hescape : b ≠ 0x5c) (hslash : st = false → b ≠ 0x2f) :
    leaves st (b :: r) =
      if b = Text.quoteMark then leaves (!st) r
      else if b = newline then leaves false r
      else leaves st r :=
  leaves.eq_5 _ _ _ (fun _ _ _ hb _ => hescape hb) (fun _ hb _ => hescape hb)
    fun _ hst hb _ => hslash hst hb

/-- A stretch without quotes, backslashes and slashes. -/
theorem leaves_plain (h : ∀ b ∈ u, b ≠ Text.quoteMark ∧ b ≠ 0x5c ∧ b ≠ 0x2f) : leaves false u = some false := by
  induction u with
  | nil => rfl
  | cons b u ih =>
    obtain ⟨⟨hquote, hescape, hslash⟩, hu⟩ := List.forall_mem_cons.1 h
    rw [leaves_cons hescape fun _ => hslash, if_neg hquote, ih hu, ite_self]

/-- A string in one quote. -/
theorem leaves_quote (h : untilQuote? r = some u) : leaves false (0x22 :: (u ++ [0x22])) = some false := by
  show leaves true (u ++ [0x22]) = some false
  fun_induction untilQuote? r generalizing u with
  | case1 | case3 | case5 | case6 => cases h
  | case2 r =>
    cases h
    rfl
  | case4 b r hb ih =>
    obtain ⟨body, hbody, rfl⟩ := Option.map_eq_some_iff.1 h
    show leaves true (body ++ [0x22]) = some false
    exact ih hbody
  | case7 b r hquote hescape hlast hb ih =>
    obtain ⟨body, hbody, rfl⟩ := Option.map_eq_some_iff.1 h
    have hslash : b ≠ 0x5c := by
      rintro rfl
      cases r with
      | nil => exact hlast rfl rfl
      | cons c r => exact hescape c r rfl rfl
    rw [List.cons_append, leaves_cons hslash Bool.noConfusion]
    rw [if_neg (show b ≠ Text.quoteMark from hquote), if_neg hb]
    exact ih hbody

theorem leaves_operator : ∀ k ∈ Kind.operators, leaves false k.name = some false ∧
    (k.name.getLast? = some 0x2f → k.name = [0x2f]) := by
  decide +kernel

theorem plain_of_isWordByte {b : UInt8} : Text.isWordByte b = true →
    b ≠ Text.quoteMark ∧ b ≠ 0x5c ∧ b ≠ 0x2f :=
  Text.forall_byte (p := fun b => Text.isWordByte b = true →
    b ≠ Text.quoteMark ∧ b ≠ 0x5c ∧ b ≠ 0x2f) (by decide +kernel) b

theorem isWordByte_of_mem {w : Text} (h : Print.isWord w = true) : ∀ b ∈ w, Text.isWordByte b = true := by
  cases w with
  | nil => exact nofun
  | cons b r =>
    obtain ⟨hb, hr⟩ := Bool.and_eq_true_iff.1 h
    exact List.forall_mem_cons.2 ⟨by simp only [Text.isWordByte, hb, Bool.true_or], List.all_eq_true.1 hr⟩

theorem plain_of_isNumber (h : u.IsNumber) : ∀ b ∈ u, b ≠ Text.quoteMark ∧ b ≠ 0x5c ∧ b ≠ 0x2f := by
  obtain ⟨whole, places, -, hwhole, hplaces, rfl⟩ := h
  have hdigit {b : UInt8} (hb : Text.isDigit b = true) : Text.isWordByte b = true := by
    simp only [Text.isWordByte, hb, Bool.or_true]
  intro b hb
  split at hb
  · exact plain_of_isWordByte (hdigit (hwhole b hb))
  · rcases List.mem_append.1 hb with hb | hb
    · exact plain_of_isWordByte (hdigit (hwhole b hb))
    · rcases List.mem_cons.1 hb with rfl | hb
      · decide
      · exact plain_of_isWordByte (hdigit (hplaces b hb))

theorem getLast?_ne_slash (u : Text) : (u ++ [(0x22 : UInt8)]).getLast? ≠ some 0x2f := by
  rw [List.getLast?_concat]
  decide

/-- Behind a token `hasComments` stands outside of strings, if it does so behind a string in three
quotes. -/
theorem hasComments_of_stretch {k : Kind} {v : Text} (h : Stretch u t k v)
    (hslashes : ¬Text.ofString "//" <+: u ++ t)
    (htriple : Text.ofString "\"\"\"" <+: u → leaves false u = some false) :
    hasComments false (u ++ t) = hasComments false t := by
  have hplain (h : ∀ b ∈ u, b ≠ Text.quoteMark ∧ b ≠ 0x5c ∧ b ≠ 0x2f) :=
    hasComments_append (t := t) (leaves_plain h) fun hlast =>
      absurd rfl (h 0x2f (List.mem_of_getLast? hlast)).2.2
  cases h with
  | word hu => exact hplain fun b hb => plain_of_isWordByte (isWordByte_of_mem hu b hb)
  | number hu => exact hplain (plain_of_isNumber hu)
  | operator hk =>
    obtain ⟨hleaves, hlast⟩ := leaves_operator _ hk
    refine hasComments_append hleaves fun hslash hhead => hslashes ?_
    obtain ⟨t, rfl⟩ : ∃ t', t = 0x2f :: t' := List.head?_eq_some_iff.1 hhead
    rw [hlast hslash]
    exact ⟨t, rfl⟩
  | @quote body _ _ hbody =>
    exact hasComments_append (leaves_quote (hbody [])) fun hlast =>
      absurd hlast (getLast?_ne_slash (0x22 :: body))
  | @triple body =>
    have hsplit : 0x22 :: 0x22 :: 0x22 :: (body ++ [0x22, 0x22, 0x22]) =
        0x22 :: 0x22 :: 0x22 :: (body ++ [0x22, 0x22]) ++ [(0x22 : UInt8)] := by simp
    exact hasComments_append (htriple ⟨_, rfl⟩) fun hlast => absurd (hsplit ▸ hlast) (getLast?_ne_slash _)

/-- A comment is found, and blanks are passed. -/
theorem hasComments_of_gap (h : Gap u t) (hne : u ≠ []) :
    hasComments false (u ++ t) = true ↔ Text.ofString "//" <+: u ∨ hasComments false t = true := by
  cases h with
  | blanks hu =>
    have hplain : ∀ b ∈ u, b ≠ Text.quoteMark ∧ b ≠ 0x5c ∧ b ≠ 0x2f := fun b hb =>
      Text.forall_byte (p := fun b => isBlank b = true → b ≠ Text.quoteMark ∧ b ≠ 0x5c ∧ b ≠ 0x2f)
        (by decide +kernel) b (hu b hb)
    rw [hasComments_append (leaves_plain hplain) fun hlast =>
      absurd rfl (hplain 0x2f (List.mem_of_getLast? hlast)).2.2]
    refine (or_iff_right ?_).symm
    rintro ⟨r, rfl⟩
    exact (hplain 0x2f List.mem_cons_self).2.2 rfl
  | comment hslashes =>
    refine iff_of_true ?_ (.inl hslashes)
    obtain ⟨r, rfl⟩ := hslashes
    rfl

theorem not_slashes_of_piece {size : Nat} {k : Kind} {v : Text}
    (h : piece b r = .ok (.token size k v)) : ¬Text.ofString "//" <+: b :: r := by
  intro hslashes
  rw [piece] at h
  split at h
  · cases h
  · rw [if_pos (List.isPrefixOf_iff_prefix.2 hslashes)] at h
    cases h

/-- The induction is on the text, from which every piece takes a stretch away. -/
theorem hasComments_iff_pieces {file : Text} (source : Text) (c : Cursor) {ts : List Token}
    (h : scanFrom file 0 c source = .ok ts) (htriples : TriplesLeft source) :
    hasComments false source = true ↔ SkipsComment source := by
  induction hn : source.length using Nat.strong_induction_on generalizing source c ts with
  | _ n ih =>
  subst hn
  cases source with
  | nil => exact iff_of_false Bool.false_ne_true nofun
  | cons b r =>
    have hshorter (u t : Text) : t.length < (b :: (u ++ t)).length := by
      rw [List.length_cons, List.length_append]
      omega
    cases hpiece : piece b r with
    | error f =>
      rw [scanFrom_error hpiece] at h
      cases h
    | ok x =>
      cases x with
      | gap size =>
        obtain ⟨u, t, rfl, rfl, hgap⟩ := gap_of_piece hpiece
        have hpieces := pieces_of_piece hpiece rfl
        rw [scanFrom_gap hpiece, Nat.add_sub_cancel, Spelled.scanFrom_append] at h
        have hrest := ih t.length (hshorter u t) t _ h ((triplesLeft_cons hpieces).1 htriples).2 rfl
        rw [skipsComment_cons hpieces, ← hrest]
        exact (hasComments_of_gap hgap (List.cons_ne_nil b u)).trans (or_congr_left (and_iff_right rfl).symm)
      | token size k v =>
        have hslashes := not_slashes_of_piece hpiece
        obtain ⟨u, t, rfl, rfl, hu⟩ := stretch_of_piece hpiece
        have hpieces := pieces_of_piece hpiece rfl
        rw [scanFrom_token hpiece, Nat.add_sub_cancel, Spelled.scanFrom_append] at h
        obtain ⟨htriple, htriples⟩ := (triplesLeft_cons hpieces).1 htriples
        obtain ⟨ts, h⟩ : ∃ ts, scanFrom file 0 ((c.after b).past u) t = .ok ts := by
          cases hrest : scanFrom file 0 ((c.after b).past u) t with
          | error e =>
            rw [hrest] at h
            cases h
          | ok ts => exact ⟨ts, rfl⟩
        rw [skipsComment_cons hpieces, ← ih t.length (hshorter u t) t _ h htriples rfl]
        exact iff_of_eq (congrArg (· = true) (hasComments_of_stretch hu hslashes htriple)) |>.trans
          (or_iff_right fun hgap => Bool.false_ne_true hgap.1).symm

/-- For every text that has tokens, in which `hasComments` stands outside of strings behind every string
in three quotes, `hasComments` finds a comment just when scanning the text passes over one. -/
theorem hasComments_iff {source file : Text} {ts : List Token} (h : scan source file = .ok ts)
    (htriples : TriplesLeft source) : hasComments false source = true ↔ SkipsComment source :=
  hasComments_iff_pieces source {} h htriples

/-- A comment behind a string in three quotes and one with slashes in it. -/
theorem hasComments_behind_strings :
    (∃ ts, scan "\"\"\"a\\n\"\"\"+\"//\"//c" "" = .ok ts) ∧ TriplesLeft "\"\"\"a\\n\"\"\"+\"//\"//c" ∧
      (hasComments false "\"\"\"a\\n\"\"\"+\"//\"//c" = true ↔ SkipsComment "\"\"\"a\\n\"\"\"+\"//\"//c") :=
  have hscan : scan "\"\"\"a\\n\"\"\"+\"//\"//c" "" = .ok _ := rfl
  have htriples : TriplesLeft "\"\"\"a\\n\"\"\"+\"//\"//c" := by
    unfold TriplesLeft
    decide +kernel
  ⟨⟨_, hscan⟩, htriples, hasComments_iff hscan htriples⟩

/-- A quote in a string in three quotes lets slashes behind it pass for a comment, and a line break in such
a string lets a comment behind it pass for a part of a string. -/
theorem hasComments_misled :
    ((∃ ts, scan "let s = \"\"\"a\" // b\"\"\";" "" = .ok ts) ∧
      hasComments false "let s = \"\"\"a\" // b\"\"\";" = true ∧
      ¬SkipsComment "let s = \"\"\"a\" // b\"\"\";") ∧
    (∃ ts, scan "let s = \"\"\"a\nb\"\"\"; // c" "" = .ok ts) ∧
      hasComments false "let s = \"\"\"a\nb\"\"\"; // c" = false ∧
      SkipsComment "let s = \"\"\"a\nb\"\"\"; // c" := by
  unfold SkipsComment
  exact ⟨⟨⟨_, rfl⟩, by decide +kernel, by decide +kernel⟩, ⟨_, rfl⟩, by decide +kernel, by decide +kernel⟩

end Token

end ScriptLang
