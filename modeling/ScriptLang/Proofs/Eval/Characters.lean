import ScriptLang.Library.Call
import ScriptLang.Proofs.Decimal.Values
import ScriptLang.Proofs.Eval.Loops
import ScriptLang.Proofs.Text.Utf8

/-!
# The characters of a text, by length, by index and by loop

The length of a text is the number of its characters, an index takes one of them out, and a loop visits one
after another. The three agree on how many characters there are and where each one starts, whatever the
bytes are, and an index fails just outside of them (`text_views`).

They agree on what a character is as long as the text is well-formed UTF-8. A byte that belongs to no
well-formed sequence is given as it is by an index, but a loop visits the replacement character in its place
(`malformed_visited`), so that the visited characters put together are another text.
-/

namespace ScriptLang

namespace Text

/-- The characters of a text as they stand in it. -/
def characters (t : Text) : List Text := (runes t).map Rune.bytes

/-- The characters of a text in their UTF-8 form. -/
def visited (t : Text) : List Text := (runes t).map fun r => encode r.code

variable {t : Text} {k : Nat}

theorem length_visited : t.visited.length = runeCount t := List.length_map _

/-- The characters as they stand in a text make it up. -/
theorem flatten_characters : t.characters.flatten = t := by
  have hbytes := flatMap_bytes t
  rw [List.flatMap_def] at hbytes
  exact hbytes

/-- The characters in their UTF-8 form make up the text only if it is well-formed. -/
theorem flatten_visited_eq_iff : t.visited.flatten = t ↔ t.isUtf8 = true := by
  have hmend : t.visited.flatten = mend t := (List.flatMap_def ..).symm
  rw [hmend]
  exact mend_eq_iff

/-- A character is in its UTF-8 form just when it is well-formed. -/
theorem visited_eq_characters_iff {r : Rune} (hr : (runes t)[k]? = some r) :
    t.visited[k]? = t.characters[k]? ↔ r.wellFormed = true := by
  have hform := (encode_eq_bytes_iff r (List.mem_of_getElem? hr)).1
  unfold visited characters
  rw [List.getElem?_map, List.getElem?_map, hr]
  simpa using hform

end Text

namespace Eval

variable {host : Host} {st u : State} {s v index c : Value} {t : Text} {n : Float} {i : Int}

/-! ### Indices -/

theorem wholeIndex_of_integral {what : Text} (hraw : st.store.raw? v = some (.number n))
    (hn : Number.isIntegral n = true) : wholeIndex what v host st = .ok n st := by
  unfold wholeIndex
  rw [bind_of_ok (raw_of_raw? hraw host)]
  dsimp only
  rw [if_pos hn]
  rfl

theorem wholeIndex_eq_ok {what : Text} (h : wholeIndex what v host st = .ok n u) :
    u = st ∧ st.store.raw? v = some (.number n) ∧ Number.isIntegral n = true := by
  unfold wholeIndex at h
  obtain ⟨w, st', hraw, h⟩ := bind_eq_ok h
  obtain ⟨hraw, rfl⟩ := raw_eq_ok hraw
  have failed {message : Text} :
      (do fail .typeMismatch (what ++ message ++ (← display w)) : Eval Float) host st' ≠ .ok n u := by
    intro h
    obtain ⟨_, _, -, h⟩ := bind_eq_ok h
    cases h
  cases w with
  | number m =>
    dsimp only at h
    split at h
    · next hm =>
      cases h
      exact ⟨rfl, hraw, hm⟩
    · exact absurd h failed
  | _ => exact absurd h failed

/-- The failure of reading a text at a position where it has no character. -/
def outOfBounds (i : Int) : Failure :=
  .fault { code := .indexOutOfBounds, message := "index " ++ Text.ofInt i ++ " out of bounds" }

/-- A text is read at a machine integer. -/
theorem getIndex_text (hs : st.store.raw? s = some (.text t))
    (hwhole : wholeIndex "string" index host st = .ok n st) :
    getIndex s index host st =
      match if Number.toInteger n < 0 then none else (Text.runes t)[(Number.toInteger n).toNat]? with
      | some r => .ok (.text r.bytes) st
      | none => .error (outOfBounds (Number.toInteger n)) st := by
  unfold getIndex
  rw [bind_of_ok (raw_of_raw? hs host)]
  dsimp only
  rw [bind_of_ok hwhole]
  cases hrune : (if Number.toInteger n < 0 then none else (Text.runes t)[(Number.toInteger n).toNat]?) <;>
    rfl

section

variable (hs : st.store.raw? s = some (.text t))

include hs

/-- Inside of a text an index takes out the character that stands there. -/
theorem getIndex_inside {r : Text.Rune} (hindex : st.store.IsInt index i)
    (hword : Number.isWord i = true) (hi : 0 ≤ i) (hr : (Text.runes t)[i.toNat]? = some r) :
    getIndex s index host st = .ok (.text r.bytes) st := by
  obtain ⟨n, hraw, hn⟩ := hindex
  rw [getIndex_text hs (wholeIndex_of_integral hraw hn.isIntegral), hn.toInteger hword,
    if_neg (Int.not_lt.2 hi), hr]

/-- Outside of a text an index fails. -/
theorem getIndex_outside (hindex : st.store.IsInt index i) (hword : Number.isWord i = true)
    (hi : ¬(0 ≤ i ∧ i < Text.runeCount t)) : getIndex s index host st = .error (outOfBounds i) st := by
  obtain ⟨n, hraw, hn⟩ := hindex
  rw [getIndex_text hs (wholeIndex_of_integral hraw hn.isIntegral), hn.toInteger hword]
  by_cases hneg : i < 0
  · rw [if_pos hneg]
  · have hbeyond : (Text.runes t).length ≤ i.toNat := by
      unfold Text.runeCount at hi
      omega
    rw [if_neg hneg, List.getElem?_eq_none hbeyond]

/-- An index takes something out of a text only at an integer inside of it. -/
theorem getIndex_inside_iff : (∃ c u, getIndex s index host st = .ok c u) ↔
    ∃ i, st.store.IsInt index i ∧ Number.isWord i = true ∧ 0 ≤ i ∧ i < Text.runeCount t := by
  constructor
  · rintro ⟨c, u, h⟩
    have hwhole : ∃ n, wholeIndex "string" index host st = .ok n st := by
      unfold getIndex at h
      rw [bind_of_ok (raw_of_raw? hs host)] at h
      obtain ⟨n, u', hn, -⟩ := bind_eq_ok h
      obtain ⟨rfl, -⟩ := wholeIndex_eq_ok hn
      exact ⟨n, hn⟩
    obtain ⟨n, hn⟩ := hwhole
    obtain ⟨-, hraw, hintegral⟩ := wholeIndex_eq_ok hn
    by_cases hneg : Number.toInteger n < 0
    · rw [getIndex_text hs hn, if_pos hneg] at h
      cases h
    · obtain ⟨hint, hword⟩ := Number.isInt_toInteger hintegral (Int.not_lt.1 hneg)
      have hindex : st.store.IsInt index (Number.toInteger n) := ⟨n, hraw, hint⟩
      refine ⟨_, hindex, hword, ?_⟩
      by_contra hout
      rw [getIndex_outside hs hindex hword hout] at h
      cases h
  · rintro ⟨i, hindex, hword, hi, hlt⟩
    have hlength : i.toNat < (Text.runes t).length := by
      unfold Text.runeCount at hlt
      omega
    exact ⟨_, _, getIndex_inside hs hindex hword hi (List.getElem?_eq_getElem hlength)⟩

end

/-! ### Loops and lengths -/

theorem items_text {run : Runner} (hs : st.store.raw? s = some (.text t)) :
    run.items s host st = .ok (.values (t.visited.map Value.text).toArray) st := by
  unfold Runner.items Text.visited
  rw [bind_of_ok (raw_of_raw? hs host), List.map_map]
  rfl

theorem len_text {run : Runner} (hs : st.store.raw? s = some (.text t)) :
    Library.call run .len [s] host st = .ok (.number (Number.ofInt (Text.runeCount t))) st := by
  have hlen : run.len s host st = .ok ((Text.runeCount t : Nat) : Int) st := by
    unfold Runner.len
    rw [bind_of_ok (raw_of_raw? hs host)]
    rfl
  have harity : Library.checkArity .len [s].length host st = .ok () st := rfl
  unfold Library.call
  rw [bind_of_ok harity]
  show Library.len run ⟨_, [s]⟩ host st = _
  unfold Library.len
  exact bind_of_ok hlen

end Eval

/-! ### The three views -/

/-- How the items that a loop visits, the length and what an index takes out of the text `t`, to which `s`
leads, belong together. -/
structure TextViews (run : Runner) (host : Host) (st : State) (s : Value) (t : Text) (items : Items) :
    Prop where
  /-- A loop goes through the characters in their UTF-8 form. -/
  visits : ∀ value index body scope start,
    (run.foreachTrace value index items body scope host items.length 0 start).Covers Turn.bound
      (t.visited.map Value.text).zipIdx
  /-- The length is the number of the items. -/
  length : Library.call run .len [s] host st = .ok (.number (Number.ofInt items.length)) st
  /-- An index takes something out just at the positions of items. -/
  succeeds : ∀ index, (∃ c u, Eval.getIndex s index host st = .ok c u) ↔
    ∃ i, st.store.IsInt index i ∧ Number.isWord i = true ∧ 0 ≤ i ∧ i < items.length
  /-- It fails at the other machine integers. -/
  fails : ∀ index i, st.store.IsInt index i → Number.isWord i = true → ¬(0 ≤ i ∧ i < items.length) →
    Eval.getIndex s index host st = .error (Eval.outOfBounds i) st
  /-- What it takes out are the characters as they stand there. -/
  takes : ∀ (index : Value) (k : Nat) (c : Text), st.store.IsInt index k → Number.isWord k = true →
    t.characters[k]? = some c → Eval.getIndex s index host st = .ok (.text c) st
  /-- They make up the text. -/
  makes : t.characters.flatten = t
  /-- An item is the character that stands there just when that is well-formed. -/
  agrees : ∀ (k : Nat) (r : Text.Rune), (Text.runes t)[k]? = some r →
    (t.visited[k]? = t.characters[k]? ↔ r.wellFormed = true)
  /-- The items make up the text just when it is well-formed UTF-8. -/
  remakes : t.visited.flatten = t ↔ t.isUtf8 = true

/-- The three views of a text agree on its characters, up to the form of those that are malformed. -/
theorem text_views (run : Runner) (host : Host) (st : State) {s : Value} {t : Text}
    (hs : st.store.raw? s = some (.text t)) :
    ∃ items, run.items s host st = .ok items st ∧ TextViews run host st s t items := by
  have hlength : (Items.values (t.visited.map Value.text).toArray).length = Text.runeCount t := by
    simp [Items.length, Text.length_visited]
  refine ⟨_, Eval.items_text hs, ?_⟩
  constructor
  case visits =>
    intro value index body scope start
    apply Runner.covers_items
    · rw [hlength, List.length_map, Text.length_visited]
    · intro turn _
      exact Items.listed_values _ _
  case length =>
    rw [hlength]
    exact Eval.len_text hs
  case succeeds =>
    rw [hlength]
    intro index
    exact Eval.getIndex_inside_iff hs
  case fails =>
    rw [hlength]
    intro index i hindex hword hi
    exact Eval.getIndex_outside hs hindex hword hi
  case takes =>
    intro index k c hindex hword hc
    unfold Text.characters at hc
    rw [List.getElem?_map, Option.map_eq_some_iff] at hc
    obtain ⟨r, hr, rfl⟩ := hc
    exact Eval.getIndex_inside hs hindex hword (Int.natCast_nonneg k) hr
  case makes => exact Text.flatten_characters
  case agrees =>
    intro k r hr
    exact Text.visited_eq_characters_iff hr
  case remakes => exact Text.flatten_visited_eq_iff

/-- A character of two bytes, and a byte that belongs to no character. -/
def markedText : Text := [0xc3, 0xa9, 0xff]

/-- A state in which nothing is stored. -/
def nothingStored : State := { store := {} }

theorem isInt_one : nothingStored.store.IsInt (.number 1) 1 := ⟨1, rfl, by decide +kernel, by decide +kernel⟩

/-- The index 1 takes out the byte, and a loop visits the replacement character there. -/
theorem markedText_views : nothingStored.store.raw? (.text markedText) = some (.text markedText) ∧
    Eval.getIndex (.text markedText) (.number 1) {} nothingStored = .ok (.text [0xff]) nothingStored ∧
    ∃ items, (evaluator 1).items (.text markedText) {} nothingStored = .ok items nothingStored ∧
      items.length = 2 ∧ ∀ body scope start,
        ((evaluator 1).foreachTrace "c" [] items body scope {} items.length 0 start).Covers Turn.bound
          [(.text [0xc3, 0xa9], 0), (.text [0xef, 0xbf, 0xbd], 1)] := by
  have hs : nothingStored.store.raw? (.text markedText) = some (.text markedText) := rfl
  obtain ⟨items, hitems, hviews⟩ := text_views (evaluator 1) {} nothingStored hs
  refine ⟨hs, ?_, items, hitems, ?_, ?_⟩
  · exact hviews.takes (.number 1) 1 [0xff] isInt_one (by decide) (by decide)
  · cases hitems
    rfl
  · intro body scope start
    exact hviews.visits "c" [] body scope start

/-- The items that a loop visits are not always what an index takes out, nor do they always make up the
text. -/
theorem malformed_visited : ¬∀ (run : Runner) (host : Host) (st : State) (s : Value) (t : Text),
    st.store.raw? s = some (.text t) →
    ∃ list : List Text, run.items s host st = .ok (.values (list.map Value.text).toArray) st ∧
      Library.call run .len [s] host st = .ok (.number (Number.ofInt list.length)) st ∧
      (∀ index (k : Nat) (c : Text), st.store.IsInt index k → Number.isWord k = true →
        list[k]? = some c → Eval.getIndex s index host st = .ok (.text c) st) ∧
      list.flatten = t := by
  intro h
  obtain ⟨list, hitems, -, htakes, hmakes⟩ :=
    h (evaluator 1) {} nothingStored (.text markedText) markedText rfl
  have hitems' : (evaluator 1).items (.text markedText) {} nothingStored = _ := Eval.items_text rfl
  have hsame : list.map Value.text = markedText.visited.map Value.text := by
    simpa using hitems.symm.trans hitems'
  have hlist : list = markedText.visited :=
    (List.map_inj_right fun _ _ => Value.text.inj).1 hsame
  subst hlist
  exact absurd hmakes (by decide)

end ScriptLang
