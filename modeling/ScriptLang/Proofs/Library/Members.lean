import Mathlib.Data.Finset.Card
import Mathlib.Data.Prod.Lex
import ScriptLang.Library.Collections
import ScriptLang.Proofs.Library.StableSort
import ScriptLang.Proofs.Value.Order

/-!
# Members of a set

The members of a set stand for a finite set of keys, one member for each key (`Members.Represents`). What is
done with the members is what is done with the set of keys: a member is put in, taken out, and two sets are
joined or cut as finite sets are.

Members are listed in the order of values, and those that are equal in it in the order of their texts. So the
texts of a listing depend on the set only, not on the order in which the members stand
(`Library.texts_listMembers`). Nothing is asked for its text if no other member has the same place. A member
that goes round in a circle has no text; a set is listed exactly if none of these has the place of another
member (`Library.listMembers_answers`, `Library.listMembers_eq_none`).
-/

namespace ScriptLang

namespace Members

variable {vs ws : List Value} {v w : Value} {S T : Finset Key}

/-- Whether members stand for a finite set of keys, one for each key. -/
structure Represents (vs : List Value) (S : Finset Key) : Prop where
  /-- Members are neither references nor typed. -/
  raw : ∀ v ∈ vs, v.isRaw = true
  /-- There is no not-a-number in a member. -/
  free : ∀ v ∈ vs, v.isNanFree = true
  /-- No two members have the same key. -/
  nodup : (vs.map Value.key).Nodup
  /-- The keys are those of the members. -/
  keys : (vs.map Value.key).toFinset = S

namespace Represents

theorem nil : Represents [] ∅ := ⟨List.forall_mem_nil _, List.forall_mem_nil _, List.nodup_nil, rfl⟩

theorem mem_iff (h : Represents vs S) {k : Key} : k ∈ S ↔ ∃ v ∈ vs, v.key = k := by
  rw [← h.keys, List.mem_toFinset, List.mem_map]

/-- There are as many members as keys. -/
theorem length_eq (h : Represents vs S) : vs.length = S.card := by
  rw [← h.keys, List.toFinset_card_of_nodup h.nodup, List.length_map]

/-- Members are told apart by their keys. -/
theorem same_iff (h : Represents vs S) (hv : v.isNanFree = true) (hw : w ∈ vs) :
    v.same w = true ↔ w.key = v.key := by
  rw [Value.same_iff]
  exact ⟨fun hsame => hsame.2.symm, fun hkey => ⟨⟨hv, h.free w hw⟩, hkey.symm⟩⟩

theorem has_iff (h : Represents vs S) (hv : v.isNanFree = true) : has vs v = true ↔ v.key ∈ S := by
  unfold has
  rw [h.mem_iff, List.any_eq_true]
  exact exists_congr fun w => and_congr_right fun hw => h.same_iff hv hw

theorem has_eq (h : Represents vs S) (hv : v.isNanFree = true) : has vs v = decide (v.key ∈ S) := by
  rw [Bool.eq_iff_iff, h.has_iff hv, decide_eq_true_iff]

/-- A member that is put in takes the place of one with the same key. -/
theorem insert (h : Represents vs S) (hraw : v.isRaw = true) (hv : v.isNanFree = true) :
    Represents (Members.insert vs v) (Insert.insert v.key S) := by
  unfold Members.insert
  split
  · next hhas =>
    have hmem : v.key ∈ S := (h.has_iff hv).1 hhas
    have hkeys : (vs.map fun w => if v.same w = true then v else w).map Value.key =
        vs.map Value.key := by
      rw [List.map_map]
      refine List.map_congr_left fun w hw => ?_
      rw [Function.comp_apply]
      split
      · next hsame => exact ((h.same_iff hv hw).1 hsame).symm
      · rfl
    refine ⟨fun w hw => ?_, fun w hw => ?_, hkeys ▸ h.nodup, ?_⟩
    · obtain ⟨u, hu, rfl⟩ := List.mem_map.1 hw
      split
      · exact hraw
      · exact h.raw u hu
    · obtain ⟨u, hu, rfl⟩ := List.mem_map.1 hw
      split
      · exact hv
      · exact h.free u hu
    · rw [hkeys, h.keys, Finset.insert_eq_of_mem hmem]
  · next hhas =>
    have hmem : v.key ∉ S := fun hmem => hhas ((h.has_iff hv).2 hmem)
    refine ⟨List.forall_mem_append.2 ⟨h.raw, by simpa using hraw⟩,
      List.forall_mem_append.2 ⟨h.free, by simpa using hv⟩, ?_, ?_⟩
    · rw [List.map_append, List.map_singleton]
      refine List.nodup_append.2 ⟨h.nodup, by simp, fun a ha b hb hab => hmem ?_⟩
      obtain rfl := List.mem_singleton.1 hb
      exact hab ▸ h.mem_iff.2 (List.mem_map.1 ha)
    · rw [List.map_append, List.toFinset_append, h.keys, Finset.union_comm]
      rfl

theorem erase (h : Represents vs S) (hv : v.isNanFree = true) :
    Represents (Members.erase vs v) (S.erase v.key) := by
  unfold Members.erase
  refine ⟨fun w hw => h.raw w (List.mem_of_mem_filter hw),
    fun w hw => h.free w (List.mem_of_mem_filter hw), (h.nodup.sublist (List.filter_sublist.map _)), ?_⟩
  ext k
  simp only [List.mem_toFinset, List.mem_map, List.mem_filter, Finset.mem_erase, h.mem_iff,
    Bool.not_eq_true', ← Bool.not_eq_true]
  constructor
  · rintro ⟨w, ⟨hw, hsame⟩, rfl⟩
    exact ⟨fun hkey => hsame ((h.same_iff hv hw).2 hkey), w, hw, rfl⟩
  · rintro ⟨hne, w, hw, rfl⟩
    exact ⟨w, ⟨hw, fun hsame => hne ((h.same_iff hv hw).1 hsame)⟩, rfl⟩

/-- Members that are put in one after another. -/
theorem insertAll {Stands : List Value → Finset Key → Prop}
    (hinsert : ∀ {vs S v}, Stands vs S → v.isRaw = true → v.isNanFree = true →
      Stands (Members.insert vs v) (Insert.insert v.key S))
    (h : Stands vs S) (hraw : ∀ w ∈ ws, w.isRaw = true) (hws : ∀ w ∈ ws, w.isNanFree = true) :
    Stands (ws.foldl Members.insert vs) (S ∪ (ws.map Value.key).toFinset) := by
  induction ws generalizing vs S with
  | nil => simpa using h
  | cons w ws ih =>
    obtain ⟨hw, hws⟩ := List.forall_mem_cons.1 hws
    obtain ⟨hwraw, hraw⟩ := List.forall_mem_cons.1 hraw
    have hrest := ih (hinsert h hwraw hw) hraw hws
    rwa [Finset.insert_union, ← Finset.union_insert, ← List.toFinset_cons] at hrest

theorem union (h : Represents vs S) (h' : Represents ws T) :
    Represents (Members.union vs ws) (S ∪ T) := h'.keys ▸ insertAll insert h h'.raw h'.free

theorem inter (h : Represents vs S) (h' : Represents ws T) :
    Represents (Members.inter vs ws) (S ∩ T) := by
  have hfilter : ∀ {vs ws : List Value} {S T : Finset Key}, Represents vs S → Represents ws T →
      Represents (vs.filter (has ws)) (S ∩ T) := by
    intro vs ws S T h h'
    refine ⟨fun w hw => h.raw w (List.mem_of_mem_filter hw),
      fun w hw => h.free w (List.mem_of_mem_filter hw), h.nodup.sublist (List.filter_sublist.map _), ?_⟩
    ext k
    simp only [List.mem_toFinset, List.mem_map, List.mem_filter, Finset.mem_inter, h.mem_iff]
    constructor
    · rintro ⟨w, ⟨hw, hhas⟩, rfl⟩
      exact ⟨⟨w, hw, rfl⟩, (h'.has_iff (h.free w hw)).1 hhas⟩
    · rintro ⟨⟨w, hw, rfl⟩, hmem⟩
      exact ⟨w, ⟨hw, (h'.has_iff (h.free w hw)).2 hmem⟩, rfl⟩
  unfold Members.inter
  split
  · exact hfilter h h'
  · exact Finset.inter_comm T S ▸ hfilter h' h

/-- The order in which members stand makes no difference. -/
theorem perm (h : Represents vs S) (hperm : ws.Perm vs) : Represents ws S where
  raw w hw := h.raw w (hperm.mem_iff.1 hw)
  free w hw := h.free w (hperm.mem_iff.1 hw)
  nodup := (hperm.map _).nodup_iff.2 h.nodup
  keys := (List.toFinset_eq_of_perm _ _ (hperm.map _)).trans h.keys

/-- Every member is found, so none is left when the set is cleared. -/
theorem unfindable_eq (h : Represents vs S) : Collection.unfindable vs = [] := by
  unfold Collection.unfindable
  rw [List.filter_eq_nil_iff]
  intro v hv
  simp [Value.same_self (h.free v hv)]

end Represents

/-- What is asked of a container of members, with a relation to the finite sets that it stands for. -/
structure SetLaws (Stands : List Value → Finset Key → Prop) : Prop where
  /-- A new container is empty. -/
  empty : Stands [] ∅
  /-- A member is put in. -/
  add : ∀ {vs S v}, Stands vs S → v.isRaw = true → v.isNanFree = true →
    Stands (Members.insert vs v) (Insert.insert v.key S)
  /-- A member is taken out. -/
  remove : ∀ {vs S v}, Stands vs S → v.isNanFree = true → Stands (Members.erase vs v) (S.erase v.key)
  /-- Whether a member is in it. -/
  contains : ∀ {vs S v}, Stands vs S → v.isNanFree = true → has vs v = decide (v.key ∈ S)
  /-- The members of two containers. -/
  union : ∀ {vs ws S T}, Stands vs S → Stands ws T → Stands (Members.union vs ws) (S ∪ T)
  /-- The members that two containers share. -/
  intersect : ∀ {vs ws S T}, Stands vs S → Stands ws T → Stands (Members.inter vs ws) (S ∩ T)
  /-- No member is left in a container that is cleared. -/
  clear : ∀ {vs S}, Stands vs S → Collection.unfindable vs = []
  /-- The number of members. -/
  cardinality : ∀ {vs S}, Stands vs S → vs.length = S.card
  /-- The members are listed, one for each key. -/
  list : ∀ {vs S}, Stands vs S → Represents vs S
  /-- The order in which they are listed is not fixed. -/
  order : ∀ {vs ws S}, Stands vs S → ws.Perm vs → Stands ws S

/-- Lists of members satisfy this. -/
theorem laws : SetLaws Represents where
  empty := .nil
  add := .insert
  remove := .erase
  contains h hv := h.has_eq hv
  union := .union
  intersect := .inter
  clear h := h.unfindable_eq
  cardinality h := h.length_eq
  list := id
  order := .perm

end Members

/-! ### Listing -/

/-- The text of a value does not depend on what is in collections. -/
theorem Store.render?_of_collections {s t : Store} (hcells : t.cells = s.cells)
    (hblocks : t.blocks = s.blocks) (harrays : t.arrays = s.arrays) (hobjects : t.objects = s.objects)
    (v : Value) : t.render? v = s.render? v := by
  have hread : t.deref = s.deref := by
    funext v
    unfold Store.deref Store.read
    rw [hcells]
  have hwindow : t.window = s.window := by
    funext a
    unfold Store.window
    rw [harrays]
  have hslot : t.slot = s.slot := by
    funext b i
    unfold Store.slot Store.slots
    rw [hblocks]
  have hfields : t.fields = s.fields := by
    funext o
    unfold Store.fields
    rw [hobjects]
  have key (n : Nat) (nested : Bool) : ∀ v,
      Renderer.render { store := some t, tooDeep := none, hook := fun _ => some none } n nested v =
      Renderer.render { store := some s, tooDeep := none, hook := fun _ => some none } n nested v := by
    induction n generalizing nested with
    | zero => exact fun v => rfl
    | succ n ih =>
      intro v
      unfold Renderer.render
      simp only [Option.bind_eq_bind, Option.bind_some, hread, hwindow, hslot, hfields, ih]
  exact key _ _ v

/-- If one part has no answer, all parts together have none. -/
theorem mapM_eq_none_of_mem {α β : Type} {f : α → Option β} {xs : List α} {x : α} (hx : x ∈ xs)
    (h : f x = none) : xs.mapM f = none := by
  induction xs with
  | nil => exact absurd hx List.not_mem_nil
  | cons y ys ih =>
    rw [List.mapM_cons]
    rcases List.mem_cons.1 hx with rfl | hx
    · rw [h]
      rfl
    · rw [ih hx]
      cases f y <;> rfl

/-- An array that holds itself has no text. -/
theorem Store.render?_of_holds_itself {s : Store} {a : ArrayId} {i : Nat} (hi : i < (s.window a).length)
    (h : s.slot (s.window a).block i = .array a) : s.render? (.array a) = none := by
  have key (n : Nat) (nested : Bool) :
      Renderer.render { store := some s, tooDeep := none, hook := fun _ => some none } n nested
        (.array a) = none := by
    induction n generalizing nested with
    | zero => rfl
    | succ n ih =>
      have hparts : ((List.range (s.window a).length).mapM fun i =>
          Renderer.render { store := some s, tooDeep := none, hook := fun _ => some none } n true
            (s.slot (s.window a).block i)) = none := by
        refine mapM_eq_none_of_mem (List.mem_range.2 hi) ?_
        rw [h]
        exact ih true
      unfold Renderer.render
      simp only [Option.bind_eq_bind, Option.bind_some, hparts, Option.bind_none]
  exact key _ _

namespace Library

open Sorting

variable {s : Store} {vs ws : List Value} {v w : Value} {S : Finset Key} {textless : Value → List ℤ}

/-- The place of a value among those with the same place in the order of values: the bytes of its text if it
has one, and else what is given for it. -/
def textPlace (s : Store) (textless : Value → List ℤ) (v : Value) : List ℤ :=
  (s.render? v).elim (textless v) fun t => 0 :: (Key.text t).rest

/-- The place of a member in the listing of a set. -/
def listingPlace (s : Store) (textless : Value → List ℤ) (v : Value) : List ℤ ×ₗ List ℤ :=
  toLex (v.key.place, textPlace s textless v)

/-- Whether all members that are ordered as equal with another one have a text. -/
def Listable (s : Store) (vs : List Value) : Prop :=
  ∀ v ∈ vs, ∀ w ∈ vs, v.key ≠ w.key → v.order w = .eq → ∃ t, s.render? v = some t

theorem Listable.perm (h : Listable s vs) (hperm : ws.Perm vs) : Listable s ws := fun v hv w hw =>
  h v (hperm.mem_iff.1 hv) w (hperm.mem_iff.1 hw)

/-- It is enough that all members other than nil, truth values, numbers and strings have a text. -/
theorem listable_of_texts (h : Members.Represents vs S)
    (htexts : ∀ v ∈ vs, 4 ≤ v.rank → ∃ t, s.render? v = some t) : Listable s vs := by
  intro v hv w hw hne heq
  refine htexts v hv (Nat.le_of_not_lt fun hrank => hne ?_)
  have hplace := (Value.order_eq_iff (Value.isOrdered_of_isNanFree (h.free v hv))
    (Value.isOrdered_of_isNanFree (h.free w hw))).1 heq
  refine Key.eq_of_place ?_ hplace
  rw [Value.rank_key]
  exact_mod_cast hrank

theorem textPlace_of_render? {t : Text} (h : s.render? v = some t) :
    textPlace s textless v = 0 :: (Key.text t).rest := by
  unfold textPlace
  rw [h]
  rfl

theorem textPlace_of_textless (h : s.render? v = none) : textPlace s textless v = textless v := by
  unfold textPlace
  rw [h]
  rfl

theorem textPlace_cases (s : Store) (textless : Value → List ℤ) (v : Value) :
    textPlace s textless v = textless v ∨ ∃ rest, textPlace s textless v = 0 :: rest := by
  cases hv : s.render? v with
  | none => exact .inl (textPlace_of_textless hv)
  | some t => exact .inr ⟨_, textPlace_of_render? hv⟩

/-- Among values with the same place in the order of values the texts decide. -/
theorem listingPlace_lt (hplace : v.key.place = w.key.place)
    (h : textPlace s textless v < textPlace s textless w) :
    listingPlace s textless v < listingPlace s textless w :=
  Prod.Lex.toLex_lt_toLex.2 (.inr ⟨hplace, h⟩)

/-- Values with the same place have the same text, if those without one are given no place of a text. -/
theorem render?_of_listingPlace
    (h : listingPlace s (fun _ => []) v = listingPlace s (fun _ => []) w) : s.render? v = s.render? w := by
  have htext : textPlace s (fun _ => []) v = textPlace s (fun _ => []) w :=
    congrArg (fun p => (ofLex p).2) h
  cases hv : s.render? v with
  | none =>
    cases hw : s.render? w with
    | none => rfl
    | some u =>
      rw [textPlace_of_textless hv, textPlace_of_render? hw] at htext
      cases htext
  | some t =>
    cases hw : s.render? w with
    | none =>
      rw [textPlace_of_render? hv, textPlace_of_textless hw] at htext
      cases htext
    | some u =>
      rw [textPlace_of_render? hv, textPlace_of_render? hw] at htext
      obtain ⟨-, hrest⟩ := List.cons.inj htext
      exact congrArg some (Key.text.inj (Key.eq_of_place (by decide : (3 : ℤ) < 4)
        (congrArg (3 :: ·) hrest)))

/-- Nor does the order in which members are listed. -/
theorem listMembers_setCollection {c : CollectionId} {content : Collection} :
    listMembers (s.setCollection c content) vs = listMembers s vs := by
  have hrender : (s.setCollection c content).render? = s.render? :=
    funext (Store.render?_of_collections rfl rfl rfl rfl)
  unfold listMembers goesFirst
  rw [hrender]

/-- There is an answer which of two members is listed first unless they are ordered as equal and one of them
has no text. -/
theorem goesFirst_answers
    (htexts : v.order w = .eq → (∃ t, s.render? v = some t) ∧ ∃ t, s.render? w = some t) :
    ∃ b, goesFirst s v w = some b := by
  unfold goesFirst
  split
  · exact ⟨true, rfl⟩
  · exact ⟨false, rfl⟩
  · next h =>
    obtain ⟨⟨t, ht⟩, u, hu⟩ := htexts h
    rw [ht, hu]
    exact ⟨_, rfl⟩

/-- The listing asks which of two members has the smaller place, whatever is given for those without a text. -/
theorem goesFirst_eq (hv : v.isNanFree = true) (hw : w.isNanFree = true) {b : Bool}
    (h : goesFirst s v w = some b) : b = decide (listingPlace s textless v < listingPlace s textless w) := by
  have hordered := Value.isOrdered_of_isNanFree hv
  have hordered' := Value.isOrdered_of_isNanFree hw
  unfold goesFirst at h
  unfold listingPlace
  split at h
  · next horder =>
    cases h
    refine (decide_eq_true ?_).symm
    exact Prod.Lex.toLex_lt_toLex.2 (.inl ((Value.order_lt_iff hordered hordered').1 horder))
  · next horder =>
    cases h
    have hlt := (Value.order_gt_iff hordered hordered').1 horder
    refine (decide_eq_false fun h => ?_).symm
    rcases Prod.Lex.toLex_lt_toLex.1 h with h | ⟨h, -⟩
    · exact lt_asymm h hlt
    · exact ne_of_gt hlt h
  · next horder =>
    obtain ⟨t, ht, h⟩ := Option.bind_eq_some_iff.1 h
    obtain ⟨u, hu, h⟩ := Option.bind_eq_some_iff.1 h
    cases h
    have hplace := (Value.order_eq_iff hordered hordered').1 horder
    rw [Bool.eq_iff_iff, decide_eq_true_iff, decide_eq_true_iff, Prod.Lex.toLex_lt_toLex,
      textPlace_of_render? ht, textPlace_of_render? hu, List.cons_lt_cons_iff, ← Value.lt_texts]
    simp [hplace]

/-- The members of a set can be listed. -/
theorem listMembers_answers (h : Members.Represents vs S) (hlist : Listable s vs) :
    ∃ ws, listMembers s vs = some ws := by
  have hnodup : vs.Pairwise fun x y => x.key ≠ y.key :=
    List.pairwise_map.1 (List.nodup_iff_pairwise_ne.1 h.nodup)
  have htells : vs.Pairwise fun x y => Tells (goesFirst s) (listingPlace s fun _ => []) y x := by
    refine hnodup.imp_of_mem fun {x y} hx hy hne => ?_
    have htexts : y.order x = .eq → (∃ t, s.render? y = some t) ∧ ∃ t, s.render? x = some t := by
      intro heq
      have heq' : x.order y = .eq := by
        rw [Value.order_swap (Value.isOrdered_of_isNanFree (h.free y hy))
          (Value.isOrdered_of_isNanFree (h.free x hx)), heq]
        rfl
      exact ⟨hlist y hy x hx hne.symm heq, hlist x hx y hy hne heq'⟩
    obtain ⟨b, hb⟩ := goesFirst_answers htexts
    exact hb.trans (congrArg some (goesFirst_eq (h.free y hy) (h.free x hx) hb))
  obtain ⟨ws, hws, -⟩ := sortM_spec htells
  exact ⟨ws, hws⟩

/-- A listing is in the order of places whatever is given for the members without a text. -/
theorem ordered_of_listMembers (h : Members.Represents vs S) (hws : listMembers s vs = some ws)
    (textless : Value → List ℤ) : ws.Perm vs ∧ Ordered (listingPlace s textless) ws := by
  obtain ⟨hperm, hordered⟩ := sortM_spec_of_answers
    (fun x hx y hy _ hb => goesFirst_eq (h.free x hx) (h.free y hy) hb) hws
  exact ⟨hperm.perm, hordered⟩

/-- The other members cannot be listed. Of two members that are ordered as equal, one of them without a text,
the listing would have to say which goes first; but it is in the order of places as well if the one without a
text comes before its equals as if it comes after them. -/
theorem listMembers_eq_none (h : Members.Represents vs S) (hlist : ¬Listable s vs) :
    listMembers s vs = none := by
  classical
  unfold Listable at hlist
  push Not at hlist
  obtain ⟨v, hv, w, hw, hne, horder, htext⟩ := hlist
  have hv' : s.render? v = none := Option.eq_none_iff_forall_ne_some.2 htext
  have hplace : v.key.place = w.key.place :=
    (Value.order_eq_iff (Value.isOrdered_of_isNanFree (h.free v hv))
      (Value.isOrdered_of_isNanFree (h.free w hw))).1 horder
  let early : Value → List ℤ := fun x => if x = v then [] else [1]
  let late : Value → List ℤ := fun x => if x = v then [1] else []
  have hvw : v ≠ w := fun heq => hne (congrArg Value.key heq)
  have hearly : listingPlace s early v < listingPlace s early w := by
    refine listingPlace_lt hplace ?_
    rw [textPlace_of_textless hv']
    rcases textPlace_cases s early w with hw' | ⟨rest, hw'⟩ <;> rw [hw']
    · simp [early, hvw.symm]
    · simp [early]
  have hlate : listingPlace s late w < listingPlace s late v := by
    refine listingPlace_lt hplace.symm ?_
    rw [textPlace_of_textless hv']
    rcases textPlace_cases s late w with hw' | ⟨rest, hw'⟩ <;> rw [hw']
    · simp [late, hvw.symm]
    · simp [late, List.cons_lt_cons_iff]
  refine Option.eq_none_iff_forall_ne_some.2 fun ws hws => ?_
  obtain ⟨hperm, hordered⟩ := ordered_of_listMembers h hws early
  obtain ⟨-, hordered'⟩ := ordered_of_listMembers h hws late
  let before : Value → Value → Prop := fun x y =>
    listingPlace s early x ≤ listingPlace s early y ∧ listingPlace s late x ≤ listingPlace s late y
  have hbefore : ws.Pairwise fun x y => before x y ∨ before y x := (hordered.and hordered').imp .inl
  have hsymm : Std.Symm fun x y => before x y ∨ before y x := ⟨fun _ _ => Or.symm⟩
  rcases hbefore.forall (hperm.mem_iff.2 hv) (hperm.mem_iff.2 hw) hvw with ⟨-, hle⟩ | ⟨hle, -⟩
  · exact not_lt_of_ge hle hlate
  · exact not_lt_of_ge hle hearly

/-- The texts of a listing do not depend on the order in which the members stand. -/
theorem texts_listMembers {vs' ws' : List Value} (hperm : vs'.Perm vs)
    (h : Members.Represents vs S) (hws : listMembers s vs = some ws)
    (hws' : listMembers s vs' = some ws') : ws'.map s.render? = ws.map s.render? := by
  obtain ⟨hwperm, hordered⟩ := ordered_of_listMembers h hws fun _ => []
  obtain ⟨hwperm', hordered'⟩ := ordered_of_listMembers (h.perm hperm) hws' fun _ => []
  have hplaces : ws'.map (listingPlace s fun _ => []) = ws.map (listingPlace s fun _ => []) := by
    have hsorted : (ws.map (listingPlace s fun _ => [])).Pairwise (· ≤ ·) :=
      List.pairwise_map.2 hordered
    have hsorted' : (ws'.map (listingPlace s fun _ => [])).Pairwise (· ≤ ·) :=
      List.pairwise_map.2 hordered'
    exact List.Perm.eq_of_pairwise (fun _ _ _ _ => le_antisymm) hsorted' hsorted
      ((hwperm'.trans (hperm.trans hwperm.symm)).map _)
  have hlength : ws'.length = ws.length := by simpa using congrArg List.length hplaces
  refine List.ext_getElem (by simpa using hlength) fun i hi hi' => ?_
  rw [List.getElem_map, List.getElem_map]
  refine render?_of_listingPlace ?_
  have hat := congrArg (·[i]?) hplaces
  simpa [List.getElem?_eq_getElem (by simpa using hi : i < ws'.length),
    List.getElem?_eq_getElem (by simpa using hi' : i < ws.length)] using hat

end Library

end ScriptLang
