import Mathlib.Data.List.Perm.Basic
import Mathlib.Data.List.Pairwise
import Mathlib.Order.Lattice
import ScriptLang.Proofs.Library.Sorting

/-!
# Sorting is stable

If the comparison of two elements of a list answers which of them has the smaller key, sorting succeeds and
gives the elements in ascending order of their keys, those with the same key in the order in which they stood
(`Sorting.sortM_spec`). This determines the result (`StablePerm.eq_of_ordered`), so to sort once more changes
nothing. The sort asks about two elements only if they stand at different places, and always whether the
later one goes before the earlier one.

A merge is right because of where the search leaves its cuts: the elements before the cut of the first run
are not greater than those after the cut of the second one, and those before the cut of the second run are
smaller than those after the cut of the first one (`Merged.join`). Both follow from the two questions
answered last, since the runs are in order.
-/

namespace ScriptLang.Sorting

variable {α κ : Type} [LinearOrder κ] {key : α → κ}

/-! ### What a sort gives -/

/-- Whether a list has the elements of another one, those with the same key in the same order. -/
def StablePerm (key : α → κ) (xs zs : List α) : Prop :=
  ∀ k, (zs.filter fun z => key z = k) = xs.filter fun x => key x = k

/-- Whether a list is in ascending order of the keys. -/
abbrev Ordered (key : α → κ) (zs : List α) : Prop := zs.Pairwise fun x y => key x ≤ key y

namespace StablePerm

variable {xs xs' ys ys' zs : List α}

theorem refl (xs : List α) : StablePerm key xs xs := fun _ => rfl

theorem trans (h : StablePerm key xs ys) (h' : StablePerm key ys zs) : StablePerm key xs zs :=
  fun k => (h' k).trans (h k)

theorem append (h : StablePerm key xs ys) (h' : StablePerm key xs' ys') :
    StablePerm key (xs ++ xs') (ys ++ ys') := by
  intro k
  rw [List.filter_append, List.filter_append, h k, h' k]

/-- Parts without a common key can change places. -/
theorem swap (h : ∀ x ∈ xs, ∀ y ∈ ys, key x ≠ key y) : StablePerm key (xs ++ ys) (ys ++ xs) := by
  intro k
  rw [List.filter_append, List.filter_append]
  by_cases hk : ∃ x ∈ xs, key x = k
  · obtain ⟨x, hx, rfl⟩ := hk
    have hnil : (ys.filter fun y => key y = key x) = [] := by
      rw [List.filter_eq_nil_iff]
      exact fun y hy heq => h x hx y hy (of_decide_eq_true heq).symm
    rw [hnil, List.append_nil, List.nil_append]
  · have hnil : (xs.filter fun x => key x = k) = [] := by
      rw [List.filter_eq_nil_iff]
      exact fun x hx heq => hk ⟨x, hx, of_decide_eq_true heq⟩
    rw [hnil, List.append_nil, List.nil_append]

theorem perm (h : StablePerm key xs zs) : zs.Perm xs := by
  classical
  refine List.perm_iff_count.2 fun a => ?_
  have hcount : ∀ ys : List α, (ys.filter fun y => key y = key a).count a = ys.count a := fun _ =>
    List.count_filter (decide_eq_true rfl)
  rw [← hcount zs, h (key a), hcount xs]

theorem mem_iff (h : StablePerm key xs zs) {a : α} : a ∈ zs ↔ a ∈ xs := h.perm.mem_iff

/-- Elements with a certain key are the same ones in the same order. -/
theorem filter_eq (h : StablePerm key xs zs) {p : α → Bool} {k : κ}
    (hp : ∀ x ∈ xs, (p x = true ↔ key x = k)) : zs.filter p = xs.filter p := by
  have hfilter : ∀ ys : List α, (∀ y ∈ ys, y ∈ xs) → ys.filter p = ys.filter fun y => key y = k := by
    refine fun ys hys => List.filter_congr fun y hy => ?_
    rw [Bool.eq_iff_iff, hp y (hys y hy), decide_eq_true_iff]
  rw [hfilter zs fun z hz => h.mem_iff.1 hz, hfilter xs fun _ hx => hx, h k]

theorem map {β : Type} {f : α → β} {key' : β → κ} (h : StablePerm key xs zs)
    (hkey : ∀ x ∈ xs, key' (f x) = key x) : StablePerm key' (xs.map f) (zs.map f) := by
  intro k
  rw [List.filter_map, List.filter_map]
  refine congrArg _ (h.filter_eq (k := k) fun x hx => ?_)
  rw [Function.comp_apply, hkey x hx, decide_eq_true_iff]

/-- The order of the keys leaves no choice. -/
theorem eq_of_ordered (h : StablePerm key xs zs) (hxs : Ordered key xs) (hzs : Ordered key zs) :
    zs = xs := by
  induction xs generalizing zs with
  | nil => exact h.perm.eq_nil
  | cons x xs ih =>
    cases zs with
    | nil => exact h.perm.symm.eq_nil.symm
    | cons z zs =>
      obtain ⟨hx, hxs'⟩ := List.pairwise_cons.1 hxs
      obtain ⟨hz, hzs'⟩ := List.pairwise_cons.1 hzs
      have hxz : key x ≤ key z := by
        rcases List.mem_cons.1 (h.mem_iff.1 List.mem_cons_self) with rfl | hmem
        · exact le_rfl
        · exact hx z hmem
      have hzx : key z ≤ key x := by
        rcases List.mem_cons.1 (h.mem_iff.2 List.mem_cons_self) with rfl | hmem
        · exact le_rfl
        · exact hz x hmem
      have hkey : key z = key x := le_antisymm hzx hxz
      have hhead := h (key x)
      rw [List.filter_cons_of_pos (by simpa using hkey), List.filter_cons_of_pos (by simp)] at hhead
      obtain ⟨rfl, -⟩ := List.cons.inj hhead
      refine congrArg (z :: ·) (ih (fun k => ?_) hxs' hzs')
      have hk := h k
      by_cases hzk : key z = k
      · rw [List.filter_cons_of_pos (by simpa using hzk),
          List.filter_cons_of_pos (by simpa using hzk)] at hk
        exact (List.cons.inj hk).2
      · rwa [List.filter_cons_of_neg (by simpa using hzk),
          List.filter_cons_of_neg (by simpa using hzk)] at hk

end StablePerm

/-- Whether a list is two lists in order, the elements of the first one before equal ones of the second. -/
structure Merged (key : α → κ) (xs ys zs : List α) : Prop where
  /-- The elements of both lists. -/
  perm : StablePerm key (xs ++ ys) zs
  /-- In ascending order. -/
  ordered : Ordered key zs

namespace Merged

variable {xs xs' ys ys' zs zs' : List α}

theorem nil_left (h : Ordered key ys) : Merged key [] ys ys := ⟨.refl ys, h⟩

theorem nil_right (h : Ordered key xs) : Merged key xs [] xs := by
  refine ⟨?_, h⟩
  rw [List.append_nil]
  exact .refl xs

/-- Two lists of which the first one is not greater. -/
theorem of_le (hxs : Ordered key xs) (hys : Ordered key ys)
    (h : ∀ x ∈ xs, ∀ y ∈ ys, key x ≤ key y) : Merged key xs ys (xs ++ ys) :=
  ⟨.refl _, List.pairwise_append.2 ⟨hxs, hys, h⟩⟩

/-- Two lists that are cut so that what is before the cuts goes before what is after them. -/
theorem join (hxs : Ordered key (xs ++ xs')) (hys : Ordered key (ys ++ ys'))
    (hle : ∀ x ∈ xs, ∀ y ∈ ys', key x ≤ key y) (hlt : ∀ y ∈ ys, ∀ x ∈ xs', key y < key x)
    (h : Merged key xs ys zs) (h' : Merged key xs' ys' zs') :
    Merged key (xs ++ xs') (ys ++ ys') (zs ++ zs') := by
  refine ⟨?_, List.pairwise_append.2 ⟨h.ordered, h'.ordered, fun z hz z' hz' => ?_⟩⟩
  · have hswap : StablePerm key (xs' ++ ys) (ys ++ xs') :=
      .swap fun x hx y hy => ne_of_gt (hlt y hy x hx)
    have hmiddle := ((StablePerm.refl xs).append hswap).append (.refl ys')
    simp only [List.append_assoc] at hmiddle ⊢
    refine hmiddle.trans ?_
    simpa only [List.append_assoc] using h.perm.append h'.perm
  · obtain ⟨-, -, hxx⟩ := List.pairwise_append.1 hxs
    obtain ⟨-, -, hyy⟩ := List.pairwise_append.1 hys
    rcases List.mem_append.1 (h.perm.mem_iff.1 hz) with hz | hz <;>
      rcases List.mem_append.1 (h'.perm.mem_iff.1 hz') with hz' | hz'
    · exact hxx z hz z' hz'
    · exact hle z hz z' hz'
    · exact le_of_lt (hlt z hz z' hz')
    · exact hyy z hz z' hz'

end Merged

/-! ### Sorting by insertion -/

variable {m : Type → Type} [Monad m] [LawfulMonad m] {less : α → α → m Bool}

/-- Whether a comparison tells which of two elements has the smaller key. -/
def Tells (less : α → α → m Bool) (key : α → κ) (x y : α) : Prop :=
  less x y = pure (decide (key x < key y))

/-- An element is put into a descending list after the greater ones. -/
theorem insertM_spec {x : α} {ys : List α} (h : ∀ y ∈ ys, Tells less key x y)
    (hys : Ordered key ys.reverse) :
    ∃ zs, insertM less x ys = pure zs ∧ Merged key ys.reverse [x] zs.reverse := by
  induction ys with
  | nil => exact ⟨[x], rfl, .refl _, List.pairwise_singleton _ _⟩
  | cons y ys ih =>
    have hys' := hys
    rw [List.reverse_cons] at hys'
    obtain ⟨hys', -, hle⟩ := List.pairwise_append.1 hys'
    unfold insertM
    rw [h y List.mem_cons_self, pure_bind]
    by_cases hxy : key x < key y
    · obtain ⟨zs, hzs, hmerged⟩ := ih (fun z hz => h z (List.mem_cons_of_mem _ hz)) hys'
      refine ⟨y :: zs, by simp [hxy, hzs], ?_⟩
      rw [List.reverse_cons, List.reverse_cons]
      rw [List.reverse_cons] at hys
      -- the rest is in place, and what was put in goes before the first one
      have hjoin : Merged key (ys.reverse ++ [y]) ([x] ++ []) (zs.reverse ++ [y]) :=
        .join hys (List.pairwise_singleton _ x) (fun _ _ _ h => absurd h List.not_mem_nil) (by simpa using hxy) hmerged
          (.nil_right (List.pairwise_singleton _ y))
      exact hjoin
    · refine ⟨x :: y :: ys, by simp [hxy], ?_⟩
      rw [List.reverse_cons (a := x)]
      refine .of_le hys (List.pairwise_singleton _ x) fun z hz x' hx' => ?_
      obtain rfl := List.mem_singleton.1 hx'
      rcases List.mem_append.1 (List.reverse_cons ▸ hz) with hz | hz
      · exact le_trans (hle z hz y List.mem_cons_self) (not_lt.1 hxy)
      · exact (List.mem_singleton.1 hz) ▸ not_lt.1 hxy

theorem insertionSortM_spec {xs : List α} (h : xs.Pairwise fun x y => Tells less key y x) :
    ∃ zs, insertionSortM less xs = pure zs ∧ StablePerm key xs zs ∧ Ordered key zs := by
  have fold : ∀ (xs sorted : List α), Ordered key sorted.reverse →
      (xs.Pairwise fun x y => Tells less key y x) → (∀ x ∈ xs, ∀ y ∈ sorted, Tells less key x y) →
      ∃ zs, xs.foldlM (fun sorted x => insertM less x sorted) sorted = pure zs ∧
        StablePerm key (sorted.reverse ++ xs) zs.reverse ∧ Ordered key zs.reverse := by
    intro xs
    induction xs with
    | nil =>
      intro sorted hsorted _ _
      exact ⟨sorted, rfl, by rw [List.append_nil]; exact .refl _, hsorted⟩
    | cons x xs ih =>
      intro sorted hsorted hxs htells
      obtain ⟨hx, hxs⟩ := List.pairwise_cons.1 hxs
      obtain ⟨ys, hys, hmerged⟩ := insertM_spec (htells x List.mem_cons_self) hsorted
      obtain ⟨zs, hzs, hperm, hordered⟩ := ih ys hmerged.ordered hxs fun z hz y hy => by
        have hy' : y ∈ sorted.reverse ++ [x] := hmerged.perm.mem_iff.1 (List.mem_reverse.2 hy)
        rcases List.mem_append.1 hy' with hy' | hy'
        · exact htells z (List.mem_cons_of_mem _ hz) y (List.mem_reverse.1 hy')
        · exact List.mem_singleton.1 hy' ▸ hx z hz
      refine ⟨zs, by rw [List.foldlM_cons, hys, pure_bind, hzs], ?_, hordered⟩
      have happend := (hmerged.perm.append (.refl xs)).trans hperm
      rwa [List.append_assoc] at happend
  obtain ⟨zs, hzs, hperm, hordered⟩ := fold xs [] List.Pairwise.nil h fun _ _ _ h => nomatch h
  exact ⟨zs.reverse, by rw [insertionSortM, hzs, pure_bind], hperm, hordered⟩

/-! ### Merging -/

/-- A search ends between its bounds, after a position where it did not have to stop and at one where it
had to. -/
theorem searchM_spec {stop : Nat → m Bool} {p : Nat → Bool} {n lo hi : Nat} (hlo : lo ≤ hi)
    (hn : hi ≤ lo + n) (h : ∀ i, lo ≤ i → i < hi → stop i = pure (p i)) :
    ∃ cut, searchM stop n lo hi = pure cut ∧ lo ≤ cut ∧ cut ≤ hi ∧
      (lo < cut → p (cut - 1) = false) ∧ (cut < hi → p cut = true) := by
  induction n generalizing lo hi with
  | zero => exact ⟨lo, rfl, Nat.le_refl lo, hlo, fun h => absurd h (Nat.lt_irrefl lo), fun h => by omega⟩
  | succ n ih =>
    unfold searchM
    by_cases hlt : lo < hi
    · have hmid : lo ≤ (lo + hi) / 2 ∧ (lo + hi) / 2 < hi := by omega
      rw [if_pos hlt]
      dsimp only
      rw [h _ hmid.1 hmid.2, pure_bind]
      cases hp : p ((lo + hi) / 2) with
      | true =>
        obtain ⟨cut, hcut, hle, hge, hbefore, hat⟩ := ih hmid.1 (by omega) fun i hi' hi'' =>
          h i hi' (by omega)
        refine ⟨cut, by rw [if_pos rfl, hcut], hle, by omega, hbefore, fun _ => ?_⟩
        rcases Nat.lt_or_eq_of_le hge with hlt | heq
        · exact hat hlt
        · exact heq ▸ hp
      | false =>
        obtain ⟨cut, hcut, hle, hge, hbefore, hat⟩ := ih (Nat.succ_le_of_lt hmid.2) (by omega)
          fun i hi' hi'' => h i (by omega) hi''
        refine ⟨cut, by rw [if_neg Bool.false_ne_true, hcut], by omega, hge, fun _ => ?_, hat⟩
        rcases Nat.lt_or_eq_of_le hle with hlt | heq
        · exact hbefore hlt
        · subst heq
          exact hp
    · rw [if_neg hlt]
      exact ⟨lo, rfl, Nat.le_refl lo, hlo, fun h => absurd h (Nat.lt_irrefl lo), fun h => absurd h hlt⟩

/-- The elements before a cut are not greater than the last one of them. -/
theorem le_of_mem_take {xs : List α} (h : Ordered key xs) {i : Nat} (hi : i ≤ xs.length) {x : α}
    (hx : x ∈ xs.take i) : ∃ a, xs[i - 1]? = some a ∧ key x ≤ key a := by
  obtain ⟨j, hj, rfl⟩ := List.mem_take_iff_getElem.1 hx
  refine ⟨xs[i - 1], List.getElem?_eq_getElem (by omega), ?_⟩
  by_cases heq : j = i - 1
  · subst heq
    exact le_refl _
  · exact List.pairwise_iff_getElem.1 h j (i - 1) _ _ (by omega)

/-- The elements after a cut are not smaller than the first one of them. -/
theorem le_of_mem_drop {xs : List α} (h : Ordered key xs) {i : Nat} {x : α} (hx : x ∈ xs.drop i) :
    ∃ a, xs[i]? = some a ∧ key a ≤ key x := by
  obtain ⟨j, hj, rfl⟩ := List.mem_drop_iff_getElem.1 hx
  refine ⟨xs[i], List.getElem?_eq_getElem (by omega), ?_⟩
  cases j with
  | zero => exact le_refl _
  | succ j => exact List.pairwise_iff_getElem.1 h i (i + (j + 1)) _ (by omega) (by omega)

/-- Two ordered lists are merged by halves if the elements next to the cuts are in order. -/
theorem Merged.of_cuts {xs ys zs zs' : List α} {i j : Nat} (hxs : Ordered key xs)
    (hys : Ordered key ys) (hi : i ≤ xs.length) (hj : j ≤ ys.length)
    (hle : 0 < i → ∀ x y, xs[i - 1]? = some x → ys[j]? = some y → key x ≤ key y)
    (hlt : 0 < j → ∀ y x, ys[j - 1]? = some y → xs[i]? = some x → key y < key x)
    (h : Merged key (xs.take i) (ys.take j) zs) (h' : Merged key (xs.drop i) (ys.drop j) zs') :
    Merged key xs ys (zs ++ zs') := by
  have hpos : ∀ {zs : List α} {k : Nat} {z : α}, z ∈ zs.take k → 0 < k := by
    intro zs k z hz
    refine Nat.pos_of_ne_zero ?_
    rintro rfl
    exact List.not_mem_nil hz
  have hbefore : ∀ x ∈ xs.take i, ∀ y ∈ ys.drop j, key x ≤ key y := by
    intro x hx y hy
    obtain ⟨a, ha, hxa⟩ := le_of_mem_take hxs hi hx
    obtain ⟨b, hb, hby⟩ := le_of_mem_drop hys hy
    exact le_trans hxa (le_trans (hle (hpos hx) a b ha hb) hby)
  have hafter : ∀ y ∈ ys.take j, ∀ x ∈ xs.drop i, key y < key x := by
    intro y hy x hx
    obtain ⟨a, ha, hya⟩ := le_of_mem_take hys hj hy
    obtain ⟨b, hb, hbx⟩ := le_of_mem_drop hxs hx
    exact lt_of_le_of_lt hya (lt_of_lt_of_le (hlt (hpos hy) a b ha hb) hbx)
  rw [← List.take_append_drop i xs] at hxs
  rw [← List.take_append_drop j ys] at hys
  have hjoin := Merged.join hxs hys hbefore hafter h h'
  rwa [List.take_append_drop, List.take_append_drop] at hjoin

section

variable {x y : α} {xs ys : List α}

omit [LawfulMonad m] in
/-- The answer of a comparison with an element of a list, if there is one at a position. -/
theorem elim_tells {xs : List α} {ask : α → m Bool} {p : α → Bool} {i : Nat} (hi : i < xs.length)
    (h : ∀ x ∈ xs, ask x = pure (p x)) :
    xs.toArray[i]?.elim (pure false) ask = (pure (xs[i]?.elim false p) : m Bool) := by
  rw [List.getElem?_toArray, List.getElem?_eq_getElem hi]
  exact h _ (List.getElem_mem hi)

/-- A single element comes before the elements of the second run that are not smaller. -/
theorem merge_first (hys : Ordered key ys) (h : ∀ y ∈ ys, Tells less key y x) :
    ∃ i, searchM (fun i => do return !(← ys.toArray[i]?.elim (pure false) fun y => less y x))
        ys.length 0 ys.length = pure i ∧ Merged key [x] ys (ys.take i ++ x :: ys.drop i) := by
  have hask : ∀ i, 0 ≤ i → i < ys.length →
      (do return !(← ys.toArray[i]?.elim (pure false) fun y => less y x) : m Bool) =
        pure !(ys[i]?.elim false fun y => decide (key y < key x)) := by
    intro i _ hi
    rw [elim_tells hi h, pure_bind]
  obtain ⟨i, hi, -, hle, hbefore, hat⟩ := searchM_spec (Nat.zero_le ys.length)
    (Nat.le_of_eq (Nat.zero_add _).symm) hask
  refine ⟨i, hi, Merged.of_cuts (i := 0) (j := i) (List.pairwise_singleton _ x) hys (Nat.zero_le _)
    hle (fun h => absurd h (Nat.lt_irrefl 0)) (fun hpos y x' hy hx' => ?_)
    (.nil_left (hys.sublist (List.take_sublist _ _)))
    (.of_le (List.pairwise_singleton _ x) (hys.sublist (List.drop_sublist _ _)) fun x' hx' y hy => ?_)⟩
  · obtain rfl : x = x' := Option.some.inj hx'
    simpa [hy] using hbefore hpos
  · obtain rfl := List.mem_singleton.1 hx'
    obtain ⟨a, ha, hay⟩ := le_of_mem_drop hys hy
    have hxa : key x' ≤ key a := by simpa [ha] using hat (List.getElem?_eq_some_iff.1 ha).1
    exact le_trans hxa hay

/-- A single element comes after the elements of the first run that are not greater. -/
theorem merge_last (hxs : Ordered key xs) (h : ∀ x ∈ xs, Tells less key y x) :
    ∃ i, searchM (fun i => xs.toArray[i]?.elim (pure false) fun x => less y x) xs.length 0 xs.length =
        pure i ∧ Merged key xs [y] (xs.take i ++ y :: xs.drop i) := by
  have hask : ∀ i, 0 ≤ i → i < xs.length →
      (xs.toArray[i]?.elim (pure false) fun x => less y x) =
        (pure (xs[i]?.elim false fun x => decide (key y < key x)) : m Bool) :=
    fun i _ hi => elim_tells hi h
  obtain ⟨i, hi, -, hle, hbefore, hat⟩ := searchM_spec (Nat.zero_le xs.length)
    (Nat.le_of_eq (Nat.zero_add _).symm) hask
  refine ⟨i, hi, ?_⟩
  have hmerged : Merged key xs [y] ((xs.take i ++ [y]) ++ xs.drop i) := by
    refine .of_cuts (j := 1) hxs (List.pairwise_singleton _ y) hle (Nat.le_refl 1)
      (fun _ _ _ _ h => by simp at h) (fun _ y' x hy' hx => ?_)
      (.of_le (hxs.sublist (List.take_sublist _ _)) (List.pairwise_singleton _ y) fun x hx y' hy' => ?_)
      (.nil_right (hxs.sublist (List.drop_sublist _ _)))
    · obtain rfl : y = y' := Option.some.inj hy'
      simpa [hx] using hat (List.getElem?_eq_some_iff.1 hx).1
    · obtain rfl := List.mem_singleton.1 hy'
      obtain ⟨a, ha, hxa⟩ := le_of_mem_take hxs hle hx
      refine le_trans hxa (not_lt.1 ?_)
      have hpos : 0 < i := by
        refine Nat.pos_of_ne_zero ?_
        rintro rfl
        exact List.not_mem_nil hx
      simpa [ha] using hbefore hpos
  rwa [List.append_assoc] at hmerged

/-- The cuts of two runs lie as many places apart as there are elements before them together. -/
theorem merge_cuts (hxs : Ordered key xs) (hys : Ordered key ys)
    (h : ∀ x ∈ xs, ∀ y ∈ ys, Tells less key y x) {total half lo : Nat}
    (htotal : total = xs.length + ys.length) (hhalf : half = total / 2)
    (hlo : lo = if xs.length > half then half + xs.length - total else 0) :
    ∃ cut, searchM (fun i => precedes less (xs ++ ys).toArray (half + xs.length - 1 - i) i) total lo
        (min half xs.length) = pure cut ∧
      cut ≤ xs.length ∧ cut ≤ half ∧ half - cut ≤ ys.length ∧
      ∀ {zs zs' : List α}, Merged key (xs.take cut) (ys.take (half - cut)) zs →
        Merged key (xs.drop cut) (ys.drop (half - cut)) zs' → Merged key xs ys (zs ++ zs') := by
  have hlo' : lo ≤ min half xs.length ∧ half - lo ≤ ys.length ∧
      (0 < lo → half - lo = ys.length) := by
    split at hlo <;> omega
  have hask : ∀ i, lo ≤ i → i < min half xs.length →
      precedes less (xs ++ ys).toArray (half + xs.length - 1 - i) i =
        pure (ys[half - 1 - i]?.elim false fun y => xs[i]?.elim false fun x =>
          decide (key y < key x)) := by
    intro i hi hi'
    have hix : i < xs.length := by omega
    have hiy : half - 1 - i < ys.length := by omega
    have hsum : half + xs.length - 1 - i - xs.length = half - 1 - i := by omega
    have hleft : (xs ++ ys)[half + xs.length - 1 - i]? = some ys[half - 1 - i] := by
      rw [List.getElem?_append_right (by omega), hsum, List.getElem?_eq_getElem hiy]
    have hright : (xs ++ ys)[i]? = some xs[i] := by
      rw [List.getElem?_append_left hix, List.getElem?_eq_getElem hix]
    unfold precedes
    rw [List.getElem?_toArray, List.getElem?_toArray, hleft, hright, List.getElem?_eq_getElem hix,
      List.getElem?_eq_getElem hiy]
    exact h _ (List.getElem_mem hix) _ (List.getElem_mem hiy)
  obtain ⟨cut, hcut, hle, hge, hbefore, hat⟩ := searchM_spec hlo'.1 (n := total) (by omega) hask
  refine ⟨cut, hcut, by omega, by omega, by omega, fun hlow hhigh => ?_⟩
  refine Merged.of_cuts hxs hys (by omega) (by omega) (fun hpos x y hx hy => ?_)
    (fun hpos y x hy hx => ?_) hlow hhigh
  · have hlt : half - cut < ys.length := (List.getElem?_eq_some_iff.1 hy).1
    have hstop := hbefore (by omega)
    have hsub : half - 1 - (cut - 1) = half - cut := by omega
    rw [hsub, hy, hx] at hstop
    simpa using hstop
  · have hlt : cut < xs.length := (List.getElem?_eq_some_iff.1 hx).1
    have hstop := hat (by omega)
    have hsub : half - 1 - cut = half - cut - 1 := by omega
    rw [hsub, hy, hx] at hstop
    simpa using hstop

end

/-- Two runs are merged when their halves are. -/
theorem merge_halves {n : Nat} {xs ys : List α} (hn : xs.length + ys.length ≤ n + 1)
    (htwo : 2 ≤ xs.length + ys.length) (hxs : Ordered key xs) (hys : Ordered key ys)
    (h : ∀ x ∈ xs, ∀ y ∈ ys, Tells less key y x)
    (ih : ∀ {xs ys : List α}, xs.length + ys.length ≤ n → Ordered key xs → Ordered key ys →
      (∀ x ∈ xs, ∀ y ∈ ys, Tells less key y x) →
      ∃ zs, mergeM less n xs ys = pure zs ∧ Merged key xs ys zs)
    {total half lo : Nat} (htotal : total = xs.length + ys.length) (hhalf : half = total / 2)
    (hlo : lo = if xs.length > half then half + xs.length - total else 0) :
    ∃ zs, (do
        let cut ← searchM (fun i => precedes less (xs ++ ys).toArray (half + xs.length - 1 - i) i) total
          lo (min half xs.length)
        let low ← mergeM less n (xs.take cut) (ys.take (half - cut))
        let high ← mergeM less n (xs.drop cut) (ys.drop (half - cut))
        return low ++ high) = pure zs ∧ Merged key xs ys zs := by
  obtain ⟨cut, hcut, hlex, hle, hley, hmerge⟩ := merge_cuts hxs hys h htotal hhalf hlo
  have hlow : ∃ zs, mergeM less n (xs.take cut) (ys.take (half - cut)) = pure zs ∧
      Merged key (xs.take cut) (ys.take (half - cut)) zs :=
    ih (by simp only [List.length_take]; omega) (hxs.sublist (List.take_sublist _ _))
      (hys.sublist (List.take_sublist _ _))
      fun _ hx _ hy => h _ (List.mem_of_mem_take hx) _ (List.mem_of_mem_take hy)
  have hhigh : ∃ zs, mergeM less n (xs.drop cut) (ys.drop (half - cut)) = pure zs ∧
      Merged key (xs.drop cut) (ys.drop (half - cut)) zs :=
    ih (by simp only [List.length_drop]; omega) (hxs.sublist (List.drop_sublist _ _))
      (hys.sublist (List.drop_sublist _ _))
      fun _ hx _ hy => h _ (List.mem_of_mem_drop hx) _ (List.mem_of_mem_drop hy)
  obtain ⟨low, hlow, hmergedLow⟩ := hlow
  obtain ⟨high, hhigh, hmergedHigh⟩ := hhigh
  refine ⟨low ++ high, ?_, hmerge hmergedLow hmergedHigh⟩
  rw [hcut, pure_bind, hlow, pure_bind, hhigh, pure_bind]

/-- Two runs in order are merged. -/
theorem mergeM_spec {n : Nat} {xs ys : List α} (hn : xs.length + ys.length ≤ n)
    (hxs : Ordered key xs) (hys : Ordered key ys) (h : ∀ x ∈ xs, ∀ y ∈ ys, Tells less key y x) :
    ∃ zs, mergeM less n xs ys = pure zs ∧ Merged key xs ys zs := by
  induction n generalizing xs ys with
  | zero =>
    obtain rfl := List.length_eq_zero_iff.1 (Nat.le_zero.1 (Nat.le_trans (Nat.le_add_right _ _) hn))
    exact ⟨ys, rfl, .nil_left hys⟩
  | succ n ih =>
    match xs, ys with
    | [], ys => exact ⟨ys, rfl, .nil_left hys⟩
    | x :: xs, [] => exact ⟨x :: xs, rfl, .nil_right hxs⟩
    | [x], y :: ys =>
      obtain ⟨i, hi, hmerged⟩ := merge_first hys fun y hy => h x List.mem_cons_self y hy
      exact ⟨_, (congrArg (· >>= _) hi).trans (pure_bind _ _), hmerged⟩
    | x :: x' :: xs, [y] =>
      obtain ⟨i, hi, hmerged⟩ := merge_last hxs fun x hx => h x hx y List.mem_cons_self
      exact ⟨_, (congrArg (· >>= _) hi).trans (pure_bind _ _), hmerged⟩
    | x :: x' :: xs, y :: y' :: ys =>
      exact merge_halves hn (Nat.le_trans (Nat.le_add_left 2 _) (Nat.le_add_right _ _)) hxs hys h ih
        List.length_append rfl rfl

/-! ### Sorting by runs -/

/-- Whether lists are in order, and a comparison tells whether elements of later ones go before elements of
earlier ones. -/
structure Runs (less : α → α → m Bool) (key : α → κ) (rs : List (List α)) : Prop where
  /-- Each list is in order. -/
  ordered : ∀ r ∈ rs, Ordered key r
  /-- Elements of two lists can be compared. -/
  tells : rs.Pairwise fun xs ys => ∀ x ∈ xs, ∀ y ∈ ys, Tells less key y x

omit [LawfulMonad m] in
theorem Runs.cons {r : List α} {rs rs' : List (List α)} (hr : Ordered key r)
    (h : ∀ r' ∈ rs, ∀ x ∈ r, ∀ y ∈ r', Tells less key y x) (hrs : Runs less key rs')
    (hperm : StablePerm key rs.flatten rs'.flatten) : Runs less key (r :: rs') := by
  refine ⟨List.forall_mem_cons.2 ⟨hr, hrs.ordered⟩, List.pairwise_cons.2 ⟨fun r' hr' x hx y hy => ?_,
    hrs.tells⟩⟩
  have hmem : y ∈ rs'.flatten := List.mem_flatten.2 ⟨r', hr', hy⟩
  obtain ⟨s, hs, hys⟩ := List.mem_flatten.1 (hperm.mem_iff.1 hmem)
  exact h s hs x hx y hys

/-- Merging in pairs leaves about half as many runs. -/
theorem mergePairsM_spec {rs : List (List α)} (h : Runs less key rs) :
    ∃ rs', mergePairsM less rs = pure rs' ∧ Runs less key rs' ∧
      StablePerm key rs.flatten rs'.flatten ∧ rs'.length ≤ (rs.length + 1) / 2 := by
  induction rs using mergePairsM.induct with
  | case1 xs ys rest ih =>
    obtain ⟨hxs, htells⟩ := List.pairwise_cons.1 h.tells
    obtain ⟨hys, htells⟩ := List.pairwise_cons.1 htells
    obtain ⟨zs, hzs, hmerged⟩ := mergeM_spec (Nat.le_refl _) (h.ordered xs List.mem_cons_self)
      (h.ordered ys (List.mem_cons_of_mem _ List.mem_cons_self)) (hxs ys List.mem_cons_self)
    obtain ⟨rs', hrs', hruns, hperm, hlength⟩ := ih
      ⟨fun r hr => h.ordered r (List.mem_cons_of_mem _ (List.mem_cons_of_mem _ hr)), htells⟩
    refine ⟨zs :: rs', ?_, .cons hmerged.ordered (fun r hr x hx y hy => ?_) hruns hperm, ?_, ?_⟩
    · unfold mergePairsM
      rw [hzs, pure_bind, hrs', pure_bind]
    · rcases List.mem_append.1 (hmerged.perm.mem_iff.1 hx) with hx | hx
      · exact hxs r (List.mem_cons_of_mem _ hr) x hx y hy
      · exact hys r hr x hx y hy
    · simpa using hmerged.perm.append hperm
    · simp only [List.length_cons] at hlength ⊢
      omega
  | case2 rs hne =>
    refine ⟨rs, mergePairsM.eq_2 _ _ hne, h, .refl _, ?_⟩
    rcases rs with _ | ⟨r, _ | ⟨r', rest⟩⟩
    · exact Nat.zero_le _
    · simp
    · exact (hne _ _ _ rfl).elim

theorem mergeRunsM_spec {n : Nat} {rs : List (List α)} (hn : rs.length ≤ n + 1)
    (h : Runs less key rs) :
    ∃ zs, mergeRunsM less n rs = pure zs ∧ StablePerm key rs.flatten zs ∧ Ordered key zs := by
  have few : ∀ rs : List (List α), rs.length ≤ 1 → Runs less key rs → Ordered key rs.flatten := by
    intro rs hlength hrs
    match rs with
    | [] => exact List.Pairwise.nil
    | [r] => simpa using hrs.ordered r List.mem_cons_self
  induction n generalizing rs with
  | zero => exact ⟨rs.flatten, rfl, .refl _, few rs hn h⟩
  | succ n ih =>
    match rs with
    | [] => exact ⟨[], rfl, .refl _, List.Pairwise.nil⟩
    | [r] => exact ⟨[r].flatten, rfl, .refl _, few [r] (Nat.le_refl 1) h⟩
    | xs :: ys :: rest =>
      obtain ⟨rs', hrs', hruns, hperm, hlength⟩ := mergePairsM_spec h
      simp only [List.length_cons] at hn hlength
      obtain ⟨zs, hzs, hperm', hordered⟩ := ih (by omega) hruns
      refine ⟨zs, ?_, hperm.trans hperm', hordered⟩
      unfold mergeRunsM
      rw [hrs', pure_bind, hzs]

omit [LinearOrder κ] [Monad m] [LawfulMonad m] in
theorem flatten_runs {n : Nat} {xs : List α} (hn : xs.length ≤ n) : (runs n xs).flatten = xs := by
  induction n generalizing xs with
  | zero => exact (List.length_eq_zero_iff.1 (Nat.le_zero.1 hn)).symm
  | succ n ih =>
    match xs with
    | [] => rfl
    | x :: xs =>
      have hlength : ((x :: xs).drop runLength).length ≤ n := by
        simp only [List.length_drop, List.length_cons, runLength] at hn ⊢
        omega
      unfold runs
      rw [List.flatten_cons, ih hlength, List.take_append_drop]

theorem mapM_insertionSortM_spec {rs : List (List α)}
    (h : rs.flatten.Pairwise fun x y => Tells less key y x) :
    ∃ rs', rs.mapM (insertionSortM less) = pure rs' ∧ Runs less key rs' ∧
      StablePerm key rs.flatten rs'.flatten ∧ rs'.length = rs.length := by
  induction rs with
  | nil => exact ⟨[], by rw [List.mapM_nil], ⟨List.forall_mem_nil _, List.Pairwise.nil⟩,
      .refl _, rfl⟩
  | cons r rs ih =>
    rw [List.flatten_cons] at h ⊢
    obtain ⟨hr, hrs, htells⟩ := List.pairwise_append.1 h
    obtain ⟨r', hr', hperm, hordered⟩ := insertionSortM_spec hr
    obtain ⟨rs', hrs', hruns, hperm', hlength⟩ := ih hrs
    refine ⟨r' :: rs', ?_, .cons hordered (fun s hs x hx y hy => ?_) hruns hperm',
      hperm.append hperm', congrArg (· + 1) hlength⟩
    · rw [List.mapM_cons, hr', pure_bind, hrs', pure_bind]
    · exact htells x (hperm.mem_iff.1 hx) y (List.mem_flatten.2 ⟨s, hs, hy⟩)

/-- If a comparison tells of any two elements at different places whether the later one has the smaller key,
sorting succeeds and gives the elements in ascending order of their keys, those with the same key in the order
in which they stood. -/
theorem sortM_spec {xs : List α} (h : xs.Pairwise fun x y => Tells less key y x) :
    ∃ zs, sortM less xs = pure zs ∧ StablePerm key xs zs ∧ Ordered key zs := by
  have hflatten : (runs xs.length xs).flatten = xs := flatten_runs (Nat.le_refl _)
  obtain ⟨rs, hrs, hruns, hperm, -⟩ := mapM_insertionSortM_spec (hflatten ▸ h)
  obtain ⟨zs, hzs, hperm', hordered⟩ := mergeRunsM_spec (Nat.le_succ rs.length) hruns
  rw [hflatten] at hperm
  refine ⟨zs, ?_, hperm.trans hperm', hordered⟩
  unfold sortM
  rw [hrs, pure_bind, hzs]

/-- If a comparison agrees with an order of keys wherever it answers, a sort that gets all its answers is the
one by these keys. -/
theorem sortM_spec_of_answers {less : α → α → Option Bool} {xs zs : List α}
    (h : ∀ x ∈ xs, ∀ y ∈ xs, ∀ b, less x y = some b → b = decide (key x < key y))
    (hsort : sortM less xs = some zs) : StablePerm key xs zs ∧ Ordered key zs := by
  have htotal : sortM (fun x y => some (decide (key x < key y))) xs = some zs :=
    sortM_mono (fun x hx y hy b hb => congrArg some (h x hx y hy b hb).symm) hsort
  have htells : xs.Pairwise fun x y =>
      Tells (fun x y => (some (decide (key x < key y)) : Option Bool)) key y x :=
    List.pairwise_of_forall fun _ _ => rfl
  obtain ⟨zs', hzs', hperm, hordered⟩ := sortM_spec htells
  cases htotal.symm.trans hzs'
  exact ⟨hperm, hordered⟩

end ScriptLang.Sorting
