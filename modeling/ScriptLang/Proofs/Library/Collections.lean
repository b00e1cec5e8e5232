import ScriptLang.Proofs.Library.Sound

/-!
# Collections in accordance with a law

What a method of a collection leaves in the collection was there before or is among its arguments, so
collections hold good values when programs put only good ones into them.

Caches of programs and the cache of imported files have one interface (`CacheLaws`).
-/

namespace ScriptLang

open Eval

/-! ### Caches -/

/-- What is asked of a cache that keeps values under keys and may drop some of them: what is found was put in
under the key, and neither a look nor putting something in brings in anything else. -/
structure CacheLaws {κ β : Type} (same : κ → κ → Prop) (get? : List (κ × β) → κ → Option β)
    (touch : List (κ × β) → κ → List (κ × β)) (add : List (κ × β) → κ → β → List (κ × β)) : Prop where
  /-- What is found under a key. -/
  found : ∀ {es k v}, get? es k = some v → ∃ e ∈ es, same k e.1 ∧ e.2 = v
  /-- What is left after a look. -/
  touched : ∀ es k, touch es k ⊆ es
  /-- What is there after a value was put under a key. -/
  added : ∀ {es k v e}, e ∈ add es k v →
    e ∈ es ∨ e.2 = v ∧ (e.1 = k ∨ same k e.1 ∧ ∃ old ∈ es, old.1 = e.1)

theorem Entries.laws (capacity : Nat) :
    CacheLaws (fun k k' => Value.same k k' = true) Entries.get? Entries.touch
      fun es k v => (Entries.put capacity es k v).1 where
  found h := by
    obtain ⟨e, he, rfl⟩ := Option.map_eq_some_iff.1 h
    have hsame := List.find?_some he
    exact ⟨e, List.mem_of_find?_eq_some he, hsame, rfl⟩
  touched es k := by
    unfold Entries.touch
    split
    · next e he =>
      exact List.cons_subset.2 ⟨List.mem_of_find?_eq_some he, fun _ h => (List.mem_filter.1 h).1⟩
    · exact List.Subset.refl es
  added h := by
    unfold Entries.put at h
    split at h
    · next old hold =>
      rcases List.mem_cons.1 h with rfl | h
      · have hsame := List.find?_some hold
        exact .inr ⟨rfl, .inr ⟨hsame, old, List.mem_of_find?_eq_some hold, rfl⟩⟩
      · exact .inl (List.mem_filter.1 h).1
    · rcases List.mem_cons.1 (List.mem_of_mem_take h) with rfl | h
      · exact .inr ⟨rfl, .inl rfl⟩
      · exact .inl h

theorem KeptFiles.laws (size : Nat) :
    CacheLaws (· = ·) (fun (kept : KeptFiles) path => kept.lookup path) KeptFiles.touch
      (KeptFiles.add size) where
  found h := ⟨_, mem_of_lookup h, rfl, rfl⟩
  touched kept path := by
    unfold KeptFiles.touch
    split
    · next b hb => exact List.cons_subset.2 ⟨mem_of_lookup hb, fun _ h => (List.mem_filter.1 h).1⟩
    · exact List.Subset.refl kept
  added h := by
    rcases List.mem_cons.1 (List.mem_of_mem_take h) with rfl | h
    · exact .inr ⟨rfl, .inl rfl⟩
    · exact .inl (List.mem_filter.1 h).1

namespace Law

namespace Pairing.Sound

variable {L : Law} {K : L.Pairing} {ε : Effect} {s : State} {a : Arguments} {run run' : Runner}
variable {v w : Value}

/-! ### Contents -/

theorem mem_insert {vs : List Value} (h : w ∈ Members.insert vs v) : w ∈ vs ∨ w = v := by
  unfold Members.insert at h
  split at h
  · obtain ⟨u, hu, rfl⟩ := List.mem_map.1 h
    split
    · exact .inr rfl
    · exact .inl hu
  · exact (List.mem_append.1 h).imp id List.mem_singleton.1

theorem mem_union {vs ws : List Value} (h : w ∈ ws.foldl Members.insert vs) : w ∈ vs ∨ w ∈ ws := by
  induction ws generalizing vs with
  | nil => exact .inl h
  | cons u ws ih =>
    rcases ih h with h | h
    · rcases mem_insert h with h | rfl
      · exact .inl h
      · exact .inr List.mem_cons_self
    · exact .inr (List.mem_cons_of_mem _ h)

theorem mem_inter {vs ws : List Value} (h : w ∈ Members.inter vs ws) : w ∈ vs ∨ w ∈ ws := by
  unfold Members.inter at h
  split at h
  · exact .inl (List.mem_filter.1 h).1
  · exact .inr (List.mem_filter.1 h).1

theorem members_subset (c : Collection) : c.members ⊆ c.contents := by
  cases c with
  | set vs => exact List.Subset.refl vs
  | _ => exact List.nil_subset _

theorem items_subset (c : Collection) : c.items ⊆ c.contents := by
  cases c with
  | stack vs => exact List.Subset.refl vs
  | _ => exact List.nil_subset _

theorem cleared_subset (c : Collection) : c.cleared.contents ⊆ c.contents := by
  cases c with
  | set vs => exact fun v hv => (List.mem_filter.1 hv).1
  | _ => exact List.nil_subset _

/-- The values in the entries of a cache. -/
def entryValues (es : List (Value × Value)) : List Value := es.flatMap fun e => [e.1, e.2]

theorem mem_entryValues {es : List (Value × Value)} :
    v ∈ entryValues es ↔ ∃ e ∈ es, v = e.1 ∨ v = e.2 := by
  simp [entryValues]

theorem entryValues_mono {es es' : List (Value × Value)} (h : es ⊆ es') :
    entryValues es ⊆ entryValues es' := by
  intro v hv
  obtain ⟨e, he, hv⟩ := mem_entryValues.1 hv
  exact mem_entryValues.2 ⟨e, h he, hv⟩

theorem entries_subset (c : Collection) : entryValues c.entries ⊆ c.contents := by
  cases c with
  | lru n es strays => exact List.Subset.refl _
  | _ => exact List.nil_subset _

/-- After a value was put under a key, a cache has only old entries and parts of the new one. -/
theorem mem_put {n : Nat} {es : List (Value × Value)} {k : Value}
    (h : w ∈ entryValues (Entries.put n es k v).1) : w ∈ entryValues es ∨ w = k ∨ w = v := by
  obtain ⟨e, he, hw⟩ := mem_entryValues.1 h
  rcases (Entries.laws n).added he with he | ⟨hv, hk⟩
  · exact .inl (mem_entryValues.2 ⟨e, he, hw⟩)
  rcases hw with rfl | rfl
  · rcases hk with hk | ⟨-, old, hold, hk⟩
    · exact .inr (.inl hk)
    · exact .inl (mem_entryValues.2 ⟨old, hold, .inl hk.symm⟩)
  · exact .inr (.inr hv)

theorem get?_mem {es : List (Value × Value)} {k : Value} (h : Entries.get? es k = some v) :
    v ∈ entryValues es := by
  obtain ⟨e, he, -, rfl⟩ := (Entries.laws 0).found h
  exact mem_entryValues.2 ⟨e, he, .inr rfl⟩

theorem newCollection (k : CollectionKind) {content : Collection}
    (h : ∀ v ∈ content.contents, L.Bare s.store v) :
    K.Sound ε s (Library.newCollection k content) (Library.newCollection k content) L.Good := by
  refine map (changeHeap (Q := fun _ _ => True) rfl rfl (.of_objects rfl) (fun v hv => ?_) trivial)
    fun _ _ _ _ => trivial
  exact (Store.heap_newCollection hv).imp id (h v)

theorem setContent (c : CollectionId) {content : Collection}
    (h : ∀ v ∈ content.contents, L.Bare s.store v) :
    K.Sound ε s (Library.setContent c content) (Library.setContent c content) fun _ _ => True :=
  update rfl rfl (.of_objects rfl) fun v hv => (Store.heap_setCollection hv).imp id (h v)

theorem raws {args : List Value} (h : ∀ v ∈ args, L.Good s.store v) :
    K.Sound ε s (args.mapM Eval.raw) (args.mapM Eval.raw) fun t vs => ∀ v ∈ vs, L.Bare t v :=
  mapM lasting_bare fun v hv _ hst => rawBare ((h v hv).mono hst)

theorem plain_reverse {args : List Value} {st : Store} (h : ∀ v ∈ args, L.Good st v) :
    ∀ v ∈ (args.map Value.plain).reverse, L.Bare st v := by
  intro v hv
  obtain ⟨u, hu, rfl⟩ := List.mem_map.1 (List.mem_reverse.1 hv)
  exact (h u hu).plain

theorem construct (k : CollectionKind) {args : List Value} (h : ∀ v ∈ args, L.Good s.store v) :
    K.Sound ε s (Library.construct k args) (Library.construct k args) L.Good := by
  unfold Library.construct
  split
  · refine bind (raws h) fun vs t _ _ hvs => newCollection _ fun v hv => ?_
    exact hvs v ((mem_union hv).resolve_left List.not_mem_nil)
  · exact newCollection _ (plain_reverse h)
  · dsimp only
    split
    · exact fail nofun
    · refine bind (look (Arguments.still_integer _ 0)) fun n t _ _ _ => ?_
      split
      · exact fail nofun
      · exact newCollection _ fun v hv => absurd hv List.not_mem_nil

/-! ### Listing -/

theorem still_listing (c : CollectionId) :
    Still (Library.listing c) fun st vs => vs ⊆ (st.collection c).contents := by
  refine .bind .store fun st => ?_
  cases hc : st.collection c with
  | set vs =>
    exact Still.orStuck.mono fun _ ws h hst => hst ▸ hc ▸ Sorting.subset_of_sortM h
  | stack vs => exact .pure fun _ hst => hst ▸ hc ▸ List.Subset.refl vs
  | lru n es strays =>
    refine .ite (.throw rfl) (.pure fun _ hst => hst ▸ hc ▸ fun v hv => ?_)
    obtain ⟨e, he, rfl⟩ := List.mem_map.1 (List.mem_reverse.1 hv)
    exact mem_entryValues.2 ⟨e, he, .inl rfl⟩

theorem listing (c : CollectionId) :
    K.Sound ε s (Library.listing c) (Library.listing c) fun t vs => ∀ v ∈ vs, L.Bare t v :=
  still (still_listing c) fun _ hs h v hv => hs.heap v (Store.heap_of_mem_contents (h hv))

theorem memberText (hrun : K.Carries run run') (hv : L.Good s.store v) :
    K.Sound .quiet s (Library.memberText run v) (Library.memberText run' v) fun _ _ => True := by
  refine bind (stringify hrun hv) fun t st hst _ _ => bind (raw (hv.mono hst)) fun u _ _ _ _ => ?_
  split
  · exact pure trivial
  · exact pure trivial

theorem collectionText (hrun : K.Carries run run') (k : CollectionKind) (c : CollectionId) :
    K.Sound .quiet s (Library.collectionText run k c) (Library.collectionText run' k c)
      fun _ _ => True :=
  bind (listing c) fun _ _ _ _ hvs =>
    map (eachM fun v hv _ hle => memberText hrun ((hvs v hv).1.mono hle)) fun _ _ _ _ => trivial

/-! ### Methods -/

theorem goodContents (hs : L.Inv s.store) (c : CollectionId) :
    ∀ v ∈ (s.store.collection c).contents, L.Bare s.store v :=
  fun v hv => hs.heap v (Store.heap_of_mem_contents hv)

theorem otherSet (a : Arguments) :
    K.Sound ε s (Library.otherSet a) (Library.otherSet a) fun t vs => ∀ v ∈ vs, L.Bare t v := by
  refine bind (look (a.still_value 0)) fun w t _ _ _ => ?_
  split
  · exact store fun ht => pure fun v hv => goodContents ht _ v (members_subset _ hv)
  · exact still (a.still_mismatch 0 _ fun _ _ => False) fun _ _ h => h.elim

theorem commonMethod (hrun : K.Carries run run') (k : CollectionKind) (c : CollectionId)
    (m : CollectionMethod) :
    K.Sound .quiet s (Library.commonMethod run k c m) (Library.commonMethod run' k c m) L.Good := by
  unfold Library.commonMethod
  split
  · refine store fun hs => bind (setContent c fun v hv => ?_) fun _ _ _ _ _ => pure trivial
    exact goodContents hs c v (cleared_subset _ hv)
  · exact store fun _ => pure trivial
  · exact bind (listing c) fun _ _ _ _ hvs => newArray hvs
  · exact map (collectionText hrun k c) fun _ _ _ _ => trivial
  · exact pure trivial

theorem setMethod (c : CollectionId) (m : CollectionMethod) (ha : L.GoodArgs s.store a) :
    K.Sound ε s (Library.setMethod c m a) (Library.setMethod c m a) L.Good := by
  unfold Library.setMethod
  split
  · refine bind (raws ha) fun vs t _ _ hvs => store fun ht => ?_
    refine bind (setContent c fun v hv => ?_) fun _ _ _ _ _ => pure trivial
    rcases mem_union hv with hv | hv
    · exact goodContents ht c v (members_subset _ hv)
    · exact hvs v hv
  · refine bind (look (a.still_value 0)) fun u t _ _ _ => store fun ht => ?_
    refine bind (setContent c fun v hv => ?_) fun _ _ _ _ _ => pure trivial
    exact goodContents ht c v (members_subset _ (List.mem_filter.1 hv).1)
  · exact bind (look (a.still_value 0)) fun u t _ _ _ => store fun _ => pure trivial
  · refine bind (otherSet a) fun ws t _ _ hws => store fun ht => newCollection _ fun v hv => ?_
    rcases mem_union hv with hv | hv
    · exact goodContents ht c v (members_subset _ hv)
    · exact hws v hv
  · refine bind (otherSet a) fun ws t _ _ hws => store fun ht => newCollection _ fun v hv => ?_
    rcases mem_inter hv with hv | hv
    · exact goodContents ht c v (members_subset _ hv)
    · exact hws v hv
  · exact pure trivial

theorem topOf (a : Arguments) {vs : List Value} (h : ∀ v ∈ vs, L.Bare s.store v) :
    K.Sound ε s (Library.topOf a vs) (Library.topOf a vs) fun t r =>
      L.Good t r.1 ∧ ∀ v ∈ r.2, L.Bare t v := by
  cases vs with
  | nil => exact fail nofun
  | cons v vs =>
    exact pure ⟨(h v List.mem_cons_self).1, fun w hw => h w (List.mem_cons_of_mem _ hw)⟩

theorem stackMethod (c : CollectionId) (m : CollectionMethod) (ha : L.GoodArgs s.store a) :
    K.Sound ε s (Library.stackMethod c m a) (Library.stackMethod c m a) L.Good := by
  refine store fun hs => ?_
  have hitems : ∀ v ∈ (s.store.collection c).items, L.Bare s.store v :=
    fun v hv => goodContents hs c v (items_subset _ hv)
  dsimp only
  split
  · refine bind (setContent c fun v hv => ?_) fun _ _ _ _ _ => pure trivial
    rcases List.mem_append.1 hv with hv | hv
    · exact plain_reverse ha v hv
    · exact hitems v hv
  · refine bind (topOf a hitems) fun r t _ _ hr => ?_
    exact bind (setContent c hr.2) fun _ _ hle _ _ => pure (hr.1.mono hle)
  · exact map (topOf a hitems) fun _ _ _ h => h.1
  · exact pure trivial

theorem cacheMethod (c : CollectionId) (m : CollectionMethod) (ha : L.GoodArgs s.store a) :
    K.Sound ε s (Library.cacheMethod c m a) (Library.cacheMethod c m a) L.Good := by
  refine bind (rawBare (ha.get 0)) fun k t hst _ hk => store fun ht => ?_
  have hes : ∀ v ∈ entryValues (t.store.collection c).entries, L.Bare t.store v :=
    fun v hv => goodContents ht c v (entries_subset _ hv)
  dsimp only
  split
  · refine bind (setContent c fun v hv => ?_) fun _ _ _ _ _ => pure trivial
    rcases mem_put hv with hv | rfl | rfl
    · exact hes v hv
    · exact hk
    · exact ((ha.mono hst).get 1).plain
  · refine bind (setContent c fun v hv => ?_) fun _ t' hle _ _ => pure ?_
    · exact hes v (entryValues_mono ((Entries.laws 0).touched _ k) hv)
    · cases hv : Entries.get? (t.store.collection c).entries k with
      | none => trivial
      | some v => exact (hes v (get?_mem hv)).1.mono hle
  · exact pure trivial
  · refine bind (setContent c fun v hv => ?_) fun _ _ _ _ _ => pure trivial
    exact hes v (entryValues_mono (fun _ h => (List.mem_filter.1 h).1) hv)
  · exact pure trivial

theorem callMethod (hrun : K.Carries run run') (k : CollectionKind) (c : CollectionId)
    (m : CollectionMethod) {args : List Value} (h : ∀ v ∈ args, L.Good s.store v) :
    K.Sound .quiet s (Library.callMethod run k c m args) (Library.callMethod run' k c m args)
      L.Good := by
  unfold Library.callMethod
  dsimp only
  split
  · exact fail nofun
  · split
    iterate 4 exact commonMethod hrun k c _
    · split
      · exact setMethod c _ h
      · exact stackMethod c _ h
      · exact cacheMethod c _ h

end Pairing.Sound

end Law

end ScriptLang
