import ScriptLang.Library.Sorting

/-!
# Sorting takes its elements from the list

Whatever a comparison answers and whatever effects it has, a sorted list consists of elements of the
given list. The comparison can be in any monad, so what is said of two sorts that ask two comparisons
is said by means of a relation between computations that is closed under sequencing.
-/

namespace ScriptLang.Sorting

/-- A relation between computations with a condition on results, closed under sequencing. -/
structure Relator (m : Type → Type) [Monad m] where
  /-- The relation. -/
  rel : {β : Type} → m β → m β → (β → Prop) → Prop
  pure : ∀ {β : Type} {b : β} {Q : β → Prop}, Q b → rel (pure b) (pure b) Q
  bind : ∀ {β γ : Type} {x y : m β} {f g : β → m γ} {P : β → Prop} {Q : γ → Prop},
    rel x y P → (∀ b, P b → rel (f b) (g b) Q) → rel (x >>= f) (y >>= g) Q

variable {α : Type} {m : Type → Type} [Monad m] (T : Relator m)
variable {less less' : α → α → m Bool} {all : List α}

/-- Comparisons of the elements of a list are related. -/
def Relator.Compares (less less' : α → α → m Bool) (all : List α) : Prop :=
  ∀ x ∈ all, ∀ y ∈ all, T.rel (less x y) (less' x y) fun _ => True

variable (h : T.Compares less less' all)

include h

theorem rel_insertM {x : α} (hx : x ∈ all) {xs : List α} (hxs : xs ⊆ all) :
    T.rel (insertM less x xs) (insertM less' x xs) (· ⊆ all) := by
  induction xs with
  | nil => exact T.pure (List.cons_subset.2 ⟨hx, hxs⟩)
  | cons y ys ih =>
    obtain ⟨hy, hys⟩ := List.cons_subset.1 hxs
    unfold insertM
    refine T.bind (h x hx y hy) fun b _ => ?_
    split
    · exact T.bind (ih hys) fun zs hzs => T.pure (List.cons_subset.2 ⟨hy, hzs⟩)
    · exact T.pure (List.cons_subset.2 ⟨hx, hxs⟩)

theorem rel_insertionSortM {xs : List α} (hxs : xs ⊆ all) :
    T.rel (insertionSortM less xs) (insertionSortM less' xs) (· ⊆ all) := by
  have fold : ∀ (xs sorted : List α), xs ⊆ all → sorted ⊆ all →
      T.rel (xs.foldlM (fun sorted x => insertM less x sorted) sorted)
        (xs.foldlM (fun sorted x => insertM less' x sorted) sorted) (· ⊆ all) := by
    intro xs
    induction xs with
    | nil => exact fun _ _ hs => T.pure hs
    | cons x xs ih =>
      intro sorted hxs hs
      obtain ⟨hx, hxs⟩ := List.cons_subset.1 hxs
      exact T.bind (rel_insertM T h hx hs) fun zs hzs => ih zs hxs hzs
  exact T.bind (fold xs [] hxs (List.nil_subset _)) fun zs hzs =>
    T.pure fun _ hy => hzs (List.mem_reverse.1 hy)

omit h in
theorem rel_searchM {stop stop' : Nat → m Bool}
    (hstop : ∀ i, T.rel (stop i) (stop' i) fun _ => True) (n lo hi : Nat) :
    T.rel (searchM stop n lo hi) (searchM stop' n lo hi) fun _ => True := by
  induction n generalizing lo hi with
  | zero => exact T.pure trivial
  | succ n ih =>
    unfold searchM
    split
    · dsimp only
      refine T.bind (hstop _) fun b _ => ?_
      split
      · exact ih _ _
      · exact ih _ _
    · exact T.pure trivial

omit h in
/-- A comparison with an element of an array, if there is one at a position. -/
theorem rel_elim {xs : List α} (hxs : xs ⊆ all) {f f' : α → m Bool}
    (hf : ∀ x ∈ all, T.rel (f x) (f' x) fun _ => True) (i : Nat) :
    T.rel (xs.toArray[i]?.elim (pure false) f) (xs.toArray[i]?.elim (pure false) f')
      fun _ => True := by
  cases hi : xs.toArray[i]? with
  | none => exact T.pure trivial
  | some x => exact hf x (hxs (List.mem_toArray.1 (Array.mem_of_getElem? hi)))

theorem rel_precedes {xs : List α} (hxs : xs ⊆ all) (i j : Nat) :
    T.rel (precedes less xs.toArray i j) (precedes less' xs.toArray i j) fun _ => True := by
  unfold precedes
  split
  · next x y hx hy =>
    exact h x (hxs (List.mem_toArray.1 (Array.mem_of_getElem? hx)))
      y (hxs (List.mem_toArray.1 (Array.mem_of_getElem? hy)))
  · exact T.pure trivial

omit h in
/-- A list with an element put in somewhere. -/
theorem insert_subset {x : α} {xs : List α} (hx : x ∈ all) (hxs : xs ⊆ all) (i : Nat) :
    xs.take i ++ x :: xs.drop i ⊆ all := by
  intro y hy
  rcases List.mem_append.1 hy with hy | hy
  · exact hxs (List.mem_of_mem_take hy)
  · rcases List.mem_cons.1 hy with rfl | hy
    · exact hx
    · exact hxs (List.mem_of_mem_drop hy)

/-- A merge of two runs of which neither has a single element. -/
theorem rel_halves {n : Nat} {xs ys : List α} (hxs : xs ⊆ all) (hys : ys ⊆ all)
    (ih : ∀ {xs ys : List α}, xs ⊆ all → ys ⊆ all →
      T.rel (mergeM less n xs ys) (mergeM less' n xs ys) (· ⊆ all))
    (stop : Nat → Nat) (k lo hi half : Nat) :
    T.rel
      (do
        let cut ← searchM (fun i => precedes less (xs ++ ys).toArray (stop i) i) k lo hi
        let low ← mergeM less n (xs.take cut) (ys.take (half - cut))
        let high ← mergeM less n (xs.drop cut) (ys.drop (half - cut))
        return low ++ high)
      (do
        let cut ← searchM (fun i => precedes less' (xs ++ ys).toArray (stop i) i) k lo hi
        let low ← mergeM less' n (xs.take cut) (ys.take (half - cut))
        let high ← mergeM less' n (xs.drop cut) (ys.drop (half - cut))
        return low ++ high) (· ⊆ all) := by
  have hboth := List.append_subset.2 ⟨hxs, hys⟩
  refine T.bind (rel_searchM T (fun i => rel_precedes T h hboth _ i) _ _ _) fun cut _ => ?_
  refine T.bind (ih (fun _ h => hxs (List.mem_of_mem_take h))
    fun _ h => hys (List.mem_of_mem_take h)) fun low hlow => ?_
  refine T.bind (ih (fun _ h => hxs (List.mem_of_mem_drop h))
    fun _ h => hys (List.mem_of_mem_drop h)) fun high hhigh => ?_
  exact T.pure (List.append_subset.2 ⟨hlow, hhigh⟩)

theorem rel_mergeM (n : Nat) {xs ys : List α} (hxs : xs ⊆ all) (hys : ys ⊆ all) :
    T.rel (mergeM less n xs ys) (mergeM less' n xs ys) (· ⊆ all) := by
  induction n generalizing xs ys with
  | zero => exact T.pure (List.append_subset.2 ⟨hxs, hys⟩)
  | succ n ih =>
    match xs, ys with
    | [], ys => exact T.pure hys
    | x :: xs, [] => exact T.pure hxs
    | [x], y :: ys =>
      have hx : x ∈ all := hxs List.mem_cons_self
      refine T.bind (rel_searchM T (fun i => ?_) _ _ _) fun i _ => T.pure (insert_subset hx hys i)
      exact T.bind (rel_elim T hys (fun y hy => h y hy x hx) i) fun _ _ => T.pure trivial
    | x :: x' :: xs, [y] =>
      have hy : y ∈ all := hys List.mem_cons_self
      refine T.bind (rel_searchM T (fun i => ?_) _ _ _) fun i _ => T.pure (insert_subset hy hxs i)
      exact rel_elim T hxs (fun x hx => h y hy x hx) i
    | x :: x' :: xs, y :: y' :: ys => exact rel_halves T h hxs hys ih _ _ _ _ _

theorem rel_mergePairsM (runs : List (List α)) (hruns : ∀ r ∈ runs, r ⊆ all) :
    T.rel (mergePairsM less runs) (mergePairsM less' runs) fun rs => ∀ r ∈ rs, r ⊆ all := by
  induction runs using mergePairsM.induct with
  | case1 xs ys rest ih =>
    unfold mergePairsM
    have hxs := hruns xs List.mem_cons_self
    have hys := hruns ys (List.mem_cons_of_mem _ List.mem_cons_self)
    refine T.bind (rel_mergeM T h _ hxs hys) fun merged hmerged => ?_
    refine T.bind (ih fun r hr => hruns r (List.mem_cons_of_mem _ (List.mem_cons_of_mem _ hr)))
      fun rs hrs => T.pure fun r hr => ?_
    rcases List.mem_cons.1 hr with rfl | hr
    · exact hmerged
    · exact hrs r hr
  | case2 runs hne =>
    rw [mergePairsM.eq_2 _ _ hne, mergePairsM.eq_2 _ _ hne]
    exact T.pure hruns

omit h [Monad m] in
theorem flatten_subset {runs : List (List α)} (hruns : ∀ r ∈ runs, r ⊆ all) : runs.flatten ⊆ all := by
  intro y hy
  obtain ⟨r, hr, hy⟩ := List.mem_flatten.1 hy
  exact hruns r hr hy

theorem rel_mergeRunsM (n : Nat) (runs : List (List α)) (hruns : ∀ r ∈ runs, r ⊆ all) :
    T.rel (mergeRunsM less n runs) (mergeRunsM less' n runs) (· ⊆ all) := by
  induction n generalizing runs with
  | zero => exact T.pure (flatten_subset hruns)
  | succ n ih =>
    match runs with
    | [] => exact T.pure (flatten_subset hruns)
    | [xs] => exact T.pure (flatten_subset hruns)
    | xs :: ys :: rest => exact T.bind (rel_mergePairsM T h _ hruns) fun rs hrs => ih rs hrs

omit h [Monad m] in
theorem runs_subset (n : Nat) {xs : List α} (hxs : xs ⊆ all) : ∀ r ∈ runs n xs, r ⊆ all := by
  induction n generalizing xs with
  | zero => exact fun r hr => absurd hr List.not_mem_nil
  | succ n ih =>
    match xs with
    | [] => exact fun r hr => absurd hr List.not_mem_nil
    | x :: xs =>
      intro r hr
      rcases List.mem_cons.1 hr with rfl | hr
      · exact fun _ h => hxs (List.mem_of_mem_take h)
      · exact ih (fun _ h => hxs (List.mem_of_mem_drop h)) r hr

/-- Sorts that ask related comparisons are related, and what they give is taken from the list. -/
theorem rel_sortM [LawfulMonad m] {xs : List α} (hxs : xs ⊆ all) :
    T.rel (sortM less xs) (sortM less' xs) (· ⊆ all) := by
  have sorted : ∀ rs : List (List α), (∀ r ∈ rs, r ⊆ all) →
      T.rel (rs.mapM (insertionSortM less)) (rs.mapM (insertionSortM less'))
        fun rs => ∀ r ∈ rs, r ⊆ all := by
    intro rs
    induction rs with
    | nil => exact fun h => T.pure h
    | cons r rs ih =>
      intro hrs
      rw [List.mapM_cons, List.mapM_cons]
      refine T.bind (rel_insertionSortM T h (hrs r List.mem_cons_self)) fun r' hr' => ?_
      refine T.bind (ih fun r hr => hrs r (List.mem_cons_of_mem _ hr)) fun rs' hrs' => ?_
      exact T.pure fun r hr => (List.mem_cons.1 hr).elim (fun e => e ▸ hr') (hrs' r)
  exact T.bind (sorted _ (runs_subset _ hxs)) fun rs hrs => rel_mergeRunsM T h _ rs hrs

/-- Of two computations that can lack an answer, one gives all that the other one gives. -/
def Relator.answers : Relator Option where
  rel x y Q := ∀ b, x = some b → y = some b ∧ Q b
  pure hb b hb' := ⟨hb', Option.some.inj hb' ▸ hb⟩
  bind hx hf c hc := by
    obtain ⟨b, hb, hc⟩ := Option.bind_eq_some_iff.1 hc
    obtain ⟨hy, hP⟩ := hx b hb
    obtain ⟨hg, hQ⟩ := hf b hP c hc
    exact ⟨Option.bind_eq_some_iff.2 ⟨b, hy, hg⟩, hQ⟩

omit h

variable {less less' : α → α → Option Bool} {xs ys : List α}

/-- What a sort gives that gets an answer to each of its questions is taken from the list. -/
theorem subset_of_sortM (h : sortM less xs = some ys) : ys ⊆ xs := by
  have hasked : Relator.answers.Compares less less xs := fun _ _ _ _ _ hb => ⟨hb, trivial⟩
  exact (rel_sortM .answers hasked (List.Subset.refl xs) ys h).2

/-- A comparison that answers the same and more makes no difference to a sort that gets all its answers. -/
theorem sortM_mono (hless : ∀ x ∈ xs, ∀ y ∈ xs, ∀ b, less x y = some b → less' x y = some b)
    (h : sortM less xs = some ys) : sortM less' xs = some ys := by
  have hasked : Relator.answers.Compares less less' xs := fun x hx y hy b hb =>
    ⟨hless x hx y hy b hb, trivial⟩
  exact (rel_sortM .answers hasked (List.Subset.refl xs) ys h).1

end ScriptLang.Sorting
