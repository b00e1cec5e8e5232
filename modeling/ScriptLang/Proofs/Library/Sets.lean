import ScriptLang.Proofs.Eval.Still
import ScriptLang.Proofs.Library.Members
import ScriptLang.Proofs.Store.Widening

/-!
# Sets behave as finite sets

A program makes sets and changes them by a history of operations. Beside them we keep the finite sets of keys
that the same operations make (`Operation.after`). Each operation that is allowed, with arguments that unwrap
to values without not-a-number, succeeds and keeps the sets of the program in step with these
(`Operation.perform_spec`), by the laws of a container of members (`Members.SetLaws`). So whatever the history,
a set answers as the finite set does, and its listing is the same whatever the order in which the members stand.
It has no listing if a member that goes round in a circle is ordered as equal with another one, since these are
told apart by their texts (`Library.set_laws`).
-/

namespace ScriptLang

/-- The key of what is behind a value, if there is no not-a-number in it. -/
def Store.key? (s : Store) (v : Value) : Option Key :=
  (s.raw? v).bind fun w => if w.isNanFree = true then some w.key else none

theorem Store.key?_eq_some {s : Store} {v : Value} {k : Key} (h : s.key? v = some k) :
    ∃ w, s.raw? v = some w ∧ w.isRaw = true ∧ w.isNanFree = true ∧ w.key = k := by
  obtain ⟨w, hw, hk⟩ := Option.bind_eq_some_iff.1 h
  split at hk
  · next hfree => exact ⟨w, hw, isRaw_of_raw? hw, hfree, Option.some.inj hk⟩
  · cases hk

/-- The sets of a program: for each of them the keys of its members. -/
abbrev Sets := CollectionId → Option (Finset Key)

namespace Sets

/-- The sets of a program after one got other members, or was made. -/
def put (M : Sets) (c : CollectionId) (S : Finset Key) : Sets := fun d => if d = c then some S else M d

/-- The keys of the members of a set that is given as an argument. -/
def given (M : Sets) (s : Store) (v : Value) : Option (Finset Key) :=
  match s.raw? v with
  | some (.collection .set d) => M d
  | _ => none

/-- Whether the sets in a store have members with these keys. -/
def Tracks (M : Sets) (s : Store) : Prop :=
  ∀ c S, M c = some S →
    c < s.collections.size ∧ ∃ vs, s.collection c = .set vs ∧ Members.Represents vs S

variable {M : Sets} {s t : Store} {c : CollectionId} {S : Finset Key} {vs : List Value}

theorem Tracks.mono (h : M.Tracks s) (hsize : s.collections.size ≤ t.collections.size)
    (hkeep : ∀ c, (M c).isSome = true → t.collection c = s.collection c) : M.Tracks t := by
  intro c S hc
  obtain ⟨hlt, hmembers⟩ := h c S hc
  have hsome : (M c).isSome = true := by
    rw [hc]
    rfl
  exact ⟨Nat.lt_of_lt_of_le hlt hsize, hkeep c hsome ▸ hmembers⟩

theorem collection_setCollection {content : Collection} (hlt : c < s.collections.size) :
    (s.setCollection c content).collection c = content := by
  unfold Store.collection Store.setCollection
  rw [Array.getD_eq_getD_getElem?, Array.getElem?_setIfInBounds, if_pos rfl, if_pos hlt]
  rfl

/-- A set gets other members. -/
theorem Tracks.set (h : M.Tracks s) (hlt : c < s.collections.size) (hvs : Members.Represents vs S) :
    (M.put c S).Tracks (s.setCollection c (.set vs)) := by
  intro d T hd
  have hsize : (s.setCollection c (.set vs)).collections.size = s.collections.size :=
    Array.size_setIfInBounds
  rw [hsize]
  unfold put at hd
  split at hd
  · next hdc =>
    subst hdc
    cases hd
    exact ⟨hlt, vs, collection_setCollection hlt, hvs⟩
  · next hdc =>
    unfold Store.collection Store.setCollection
    rw [Array.getD_eq_getD_getElem?, Array.getElem?_setIfInBounds, if_neg (Ne.symm hdc),
      ← Array.getD_eq_getD_getElem?]
    exact h d T hd

/-- A new set. -/
theorem Tracks.new (h : M.Tracks s) (hvs : Members.Represents vs S) :
    (M.put s.collections.size S).Tracks (s.newCollection (.set vs)).2 := by
  intro d T hd
  have hsize : (s.newCollection (.set vs)).2.collections.size = s.collections.size + 1 :=
    Array.size_push _
  rw [hsize]
  unfold Store.collection Store.newCollection
  rw [Array.getD_eq_getD_getElem?, Array.getElem?_push]
  unfold put at hd
  split at hd
  · next hdc =>
    subst hdc
    cases hd
    rw [if_pos rfl]
    exact ⟨Nat.lt_succ_self _, vs, rfl, hvs⟩
  · next hdc =>
    obtain ⟨hlt, hmembers⟩ := h d T hd
    rw [if_neg hdc, ← Array.getD_eq_getD_getElem?]
    exact ⟨Nat.lt_succ_of_lt hlt, hmembers⟩

end Sets

namespace Library

open Eval

/-! ### Operations -/

/-- An operation that makes or changes a set. -/
inductive Operation where
  /-- A new set of values. -/
  | construct (args : List Value)
  /-- Put one or more members in. -/
  | add (c : CollectionId) (v : Value) (args : List Value)
  /-- Take a member out. -/
  | remove (c : CollectionId) (v : Value)
  /-- A new set with the members of a set and of one that is given. -/
  | union (c : CollectionId) (v : Value)
  /-- A new set with the members that a set shares with one that is given. -/
  | intersect (c : CollectionId) (v : Value)
  /-- Take all members out. -/
  | clear (c : CollectionId)

namespace Operation

/-- What an operation does to the sets of a program. -/
def perform (run : Runner) : Operation → Eval Value
  | construct args => Library.construct .set args
  | add c v args => callMethod run .set c .add (v :: args)
  | remove c v => callMethod run .set c .remove [v]
  | union c v => callMethod run .set c .union [v]
  | intersect c v => callMethod run .set c .intersect [v]
  | clear c => callMethod run .set c .clear []

/-- What it does to finite sets of keys. It is not allowed if there is no such set, or if an argument does not
unwrap or has not-a-number in it. -/
def after (s : Store) (M : Sets) : Operation → Option Sets
  | construct args => do
    let ks ← args.mapM s.key?
    return M.put s.collections.size ks.toFinset
  | add c v args => do
    let ks ← (v :: args).mapM s.key?
    return M.put c ((← M c) ∪ ks.toFinset)
  | remove c v => do
    let k ← s.key? v
    return M.put c ((← M c).erase k)
  | union c v => do
    let T ← M.given s v
    return M.put s.collections.size ((← M c) ∪ T)
  | intersect c v => do
    let T ← M.given s v
    return M.put s.collections.size ((← M c) ∩ T)
  | clear c => do
    let _ ← M c
    return M.put c ∅

/-- What an operation answers: the set that it is about, whether a member was there, or nil. -/
def answer (s : Store) (M : Sets) : Operation → Value
  | construct _ | union .. | intersect .. => .collection .set s.collections.size
  | add c _ _ => .collection .set c
  | remove c v => .boolean ((s.key? v).any fun k => (M c).any fun S => k ∈ S)
  | clear _ => .nil

end Operation

variable {run : Runner} {host : Host} {st : State} {M N : Sets} {c : CollectionId} {S : Finset Key}
variable {m : CollectionMethod} {args vs : List Value} {ks : List Key}

/-- Arguments are taken without annotations and references. -/
theorem mapM_raw (host : Host) (h : args.mapM st.store.key? = some ks) :
    ∃ vs, args.mapM raw host st = .ok vs st ∧ vs.map Value.key = ks ∧
      (∀ v ∈ vs, v.isRaw = true) ∧ ∀ v ∈ vs, v.isNanFree = true := by
  induction args generalizing ks with
  | nil =>
    cases h
    exact ⟨[], rfl, rfl, List.forall_mem_nil _, List.forall_mem_nil _⟩
  | cons v args ih =>
    rw [List.mapM_cons] at h
    obtain ⟨k, hk, h⟩ := Option.bind_eq_some_iff.1 h
    obtain ⟨ks', hks, h⟩ := Option.bind_eq_some_iff.1 h
    cases h
    obtain ⟨w, hw, hraw, hfree, rfl⟩ := Store.key?_eq_some hk
    obtain ⟨ws, hws, rfl, hraws, hfrees⟩ := ih hks
    refine ⟨w :: ws, ?_, rfl, List.forall_mem_cons.2 ⟨hraw, hraws⟩,
      List.forall_mem_cons.2 ⟨hfree, hfrees⟩⟩
    rw [List.mapM_cons, bind_of_ok (raw_of_raw? hw host), bind_of_ok hws]
    rfl

/-- A method of a set with the right number of arguments. -/
theorem callMethod_set (hm : m ≠ .clear ∧ m ≠ .size ∧ m ≠ .items ∧ m ≠ .str)
    (harity : m.arity.mismatch? (CollectionKind.set.name ++ "." ++ m.name) args.length = none) :
    callMethod run .set c m args host st =
      setMethod c m ⟨CollectionKind.set.name ++ "." ++ m.name, args⟩ host st := by
  refine congrFun (congrFun ?_ host) st
  unfold callMethod
  dsimp only
  rw [harity]
  cases m with
  | clear => exact absurd rfl hm.1
  | size => exact absurd rfl hm.2.1
  | items => exact absurd rfl hm.2.2.1
  | str => exact absurd rfl hm.2.2.2
  | _ => rfl

theorem value_of_raw? {a : Arguments} {v w : Value} (ha : a.get 0 = v)
    (h : st.store.raw? v = some w) : a.value 0 host st = .ok w st := by
  unfold Arguments.value
  rw [ha]
  exact raw_of_raw? h host

/-- A set that is given as an argument. -/
theorem otherSet_spec (host : Host) (name : Text) {v : Value} (hM : M.Tracks st.store)
    (h : M.given st.store v = some S) :
    ∃ vs, otherSet ⟨name, [v]⟩ host st = .ok vs st ∧ Members.Represents vs S := by
  unfold Sets.given at h
  split at h
  · next d hv =>
    obtain ⟨-, vs, hvs, hrep⟩ := hM d S h
    refine ⟨vs, ?_, hrep⟩
    have hmembers : (st.store.collection d).members = vs := by
      rw [hvs]
      rfl
    unfold otherSet
    rw [bind_of_ok (value_of_raw? rfl hv)]
    show EStateM.Result.ok (st.store.collection d).members st = _
    rw [hmembers]
  · cases h

section

variable {a : Arguments} {v w : Value}

theorem setMethod_add (h : a.values.mapM raw host st = .ok vs st) :
    setMethod c .add a host st =
      .ok (.collection .set c)
        { st with
          store := st.store.setCollection c
            (.set (vs.foldl Members.insert (st.store.collection c).members)) } :=
  (bind_of_ok h).trans rfl

theorem setMethod_remove (h : a.value 0 host st = .ok w st) :
    setMethod c .remove a host st =
      .ok (.boolean (Members.has (st.store.collection c).members w))
        { st with
          store := st.store.setCollection c
            (.set (Members.erase (st.store.collection c).members w)) } :=
  (bind_of_ok h).trans rfl

theorem setMethod_has (h : a.value 0 host st = .ok w st) :
    setMethod c .has a host st =
      .ok (.boolean (Members.has (st.store.collection c).members w)) st :=
  (bind_of_ok h).trans rfl

theorem setMethod_union (h : otherSet a host st = .ok vs st) :
    setMethod c .union a host st =
      .ok (.collection .set st.store.collections.size)
        { st with
          store :=
            (st.store.newCollection (.set (Members.union (st.store.collection c).members vs))).2 } :=
  (bind_of_ok h).trans rfl

theorem setMethod_intersect (h : otherSet a host st = .ok vs st) :
    setMethod c .intersect a host st =
      .ok (.collection .set st.store.collections.size)
        { st with
          store :=
            (st.store.newCollection (.set (Members.inter (st.store.collection c).members vs))).2 } :=
  (bind_of_ok h).trans rfl

theorem members_set (h : st.store.collection c = .set vs) : (st.store.collection c).members = vs := by
  rw [h]
  rfl

end

/-- An operation that is allowed succeeds, and the sets of the program are what the finite sets are. -/
theorem Operation.perform_spec (op : Operation) (hM : M.Tracks st.store)
    (hop : op.after st.store M = some N) :
    ∃ t, op.perform run host st = .ok (op.answer st.store M) { st with store := t } ∧ N.Tracks t := by
  cases op with
  | construct args =>
    obtain ⟨ks, hks, h⟩ := Option.bind_eq_some_iff.1 hop
    cases h
    obtain ⟨vs, hvs, rfl, hraw, hfree⟩ := mapM_raw host hks
    refine ⟨(st.store.newCollection (.set (vs.foldl Members.insert []))).2, bind_of_ok hvs, hM.new ?_⟩
    simpa using Members.Represents.insertAll Members.laws.add Members.laws.empty hraw hfree
  | add c v args =>
    obtain ⟨ks, hks, h⟩ := Option.bind_eq_some_iff.1 hop
    obtain ⟨S, hS, h⟩ := Option.bind_eq_some_iff.1 h
    cases h
    obtain ⟨vs, hvs, rfl, hraw, hfree⟩ := mapM_raw host hks
    obtain ⟨hlt, ws, hws, hrep⟩ := hM c S hS
    refine ⟨_, ?_, hM.set hlt (Members.Represents.insertAll Members.laws.add hrep hraw hfree)⟩
    have harity : CollectionMethod.add.arity.mismatch? (CollectionKind.set.name ++ "." ++ "add")
        (v :: args).length = none := by
      simp [Arity.mismatch?, CollectionMethod.arity, Arity.atLeast]
    show callMethod run .set c .add (v :: args) host st = _
    rw [callMethod_set (by decide) harity]
    refine (setMethod_add hvs).trans ?_
    rw [members_set hws]
    rfl
  | remove c v =>
    obtain ⟨k, hk, h⟩ := Option.bind_eq_some_iff.1 hop
    obtain ⟨S, hS, h⟩ := Option.bind_eq_some_iff.1 h
    cases h
    obtain ⟨w, hw, -, hfree, rfl⟩ := Store.key?_eq_some hk
    obtain ⟨hlt, ws, hws, hrep⟩ := hM c S hS
    refine ⟨_, ?_, hM.set hlt (Members.laws.remove hrep hfree)⟩
    show callMethod run .set c .remove [v] host st = _
    rw [callMethod_set (by decide) rfl]
    refine (setMethod_remove (value_of_raw? rfl hw)).trans ?_
    have hanswer : answer st.store M (remove c v) = .boolean (decide (w.key ∈ S)) := by
      simp [answer, hk, hS]
    rw [members_set hws, Members.laws.contains hrep hfree, hanswer]
  | union c v =>
    obtain ⟨T, hT, h⟩ := Option.bind_eq_some_iff.1 hop
    obtain ⟨S, hS, h⟩ := Option.bind_eq_some_iff.1 h
    cases h
    obtain ⟨-, vs, hvs, hrep⟩ := hM c S hS
    obtain ⟨ws, hws, hrep'⟩ := otherSet_spec host "Set.union" hM hT
    refine ⟨_, ?_, hM.new (Members.laws.union hrep hrep')⟩
    show callMethod run .set c .union [v] host st = _
    rw [callMethod_set (by decide) rfl]
    refine (setMethod_union hws).trans ?_
    rw [members_set hvs]
    rfl
  | intersect c v =>
    obtain ⟨T, hT, h⟩ := Option.bind_eq_some_iff.1 hop
    obtain ⟨S, hS, h⟩ := Option.bind_eq_some_iff.1 h
    cases h
    obtain ⟨-, vs, hvs, hrep⟩ := hM c S hS
    obtain ⟨ws, hws, hrep'⟩ := otherSet_spec host "Set.intersect" hM hT
    refine ⟨_, ?_, hM.new (Members.laws.intersect hrep hrep')⟩
    show callMethod run .set c .intersect [v] host st = _
    rw [callMethod_set (by decide) rfl]
    refine (setMethod_intersect hws).trans ?_
    rw [members_set hvs]
    rfl
  | clear c =>
    obtain ⟨S, hS, h⟩ := Option.bind_eq_some_iff.1 hop
    cases h
    obtain ⟨hlt, ws, hws, hrep⟩ := hM c S hS
    refine ⟨st.store.setCollection c (.set []), ?_, hM.set hlt .nil⟩
    have hcleared : (st.store.collection c).cleared = .set [] := by
      rw [hws]
      exact congrArg Collection.set (Members.laws.clear hrep)
    have hmethod : callMethod run .set c .clear [] host st =
        .ok .nil { st with store := st.store.setCollection c (st.store.collection c).cleared } := rfl
    rw [hcleared] at hmethod
    exact hmethod

/-! ### Histories -/

/-- The states that a program can be in after a history of operations on sets, with the finite sets that the
same operations make. What happens between the operations leaves the members of the sets alone. -/
inductive History : State → Sets → Prop where
  /-- There is no set yet. -/
  | start (st : State) : History st fun _ => none
  /-- An operation that is allowed. -/
  | step {st st' : State} {M N : Sets} {run : Runner} {host : Host} {op : Operation} {v : Value}
      (h : History st M) (hop : op.after st.store M = some N)
      (heq : op.perform run host st = .ok v st') : History st' N
  /-- Something else. -/
  | meanwhile {st st' : State} {M : Sets} (h : History st M)
      (hsize : st.store.collections.size ≤ st'.store.collections.size)
      (hkeep : ∀ c, (M c).isSome = true → st'.store.collection c = st.store.collection c) :
      History st' M

theorem History.tracks (h : History st M) : M.Tracks st.store := by
  induction h with
  | start => exact fun c S h => nomatch h
  | step _ hop heq ih =>
    obtain ⟨t, hperform, htracks⟩ := Operation.perform_spec _ ih hop
    cases heq.symm.trans hperform
    exact htracks
  | meanwhile _ hsize hkeep ih => exact ih.mono hsize hkeep

/-! ### Answers -/

/-- The items of a set that can be listed. -/
theorem items_spec {ws : List Value} (h : st.store.collection c = .set vs)
    (hws : listMembers st.store vs = some ws) :
    callMethod run .set c .items [] host st =
      .ok (.array st.store.arrays.size) { st with store := (st.store.newArray ws ws.length).2 } := by
  have hlisting : listing c host st = .ok ws st := by
    unfold listing
    rw [bind_of_ok (rfl : store host st = .ok st.store st), h]
    show orStuck (listMembers st.store vs) host st = _
    rw [hws]
    rfl
  exact (bind_of_ok hlisting : (listing c >>= newArray) host st = _)

/-- The items of a set that cannot be listed. -/
theorem items_stuck (h : st.store.collection c = .set vs) (hnone : listMembers st.store vs = none) :
    callMethod run .set c .items [] host st = .error .stuck st := by
  have hlisting : listing c host st = .error .stuck st := by
    unfold listing
    rw [bind_of_ok (rfl : store host st = .ok st.store st), h]
    show orStuck (listMembers st.store vs) host st = _
    rw [hnone]
    rfl
  show (listing c >>= newArray) host st = _
  rw [bind_apply, hlisting]

/-- Listed members are ordered as values, and where they are ordered as equal, as texts. -/
theorem listed_ordered {ws : List Value} {textless : Value → List ℤ} (h : Members.Represents ws S)
    (hlist : Listable st.store ws) (hordered : Sorting.Ordered (listingPlace st.store textless) ws) :
    ws.Pairwise fun v w => ∃ o, st.store.order? v w = some o ∧ o ≠ .gt ∧
      (o = .eq → ∃ t u, st.store.render? v = some t ∧ st.store.render? w = some u ∧ t ≤ u) := by
  have hnodup : ws.Pairwise fun v w => v.key ≠ w.key :=
    List.pairwise_map.1 (List.nodup_iff_pairwise_ne.1 h.nodup)
  refine (hordered.and hnodup).imp_of_mem fun {v w} hv hw hvw => ?_
  obtain ⟨hle, hne⟩ := hvw
  have hov := Value.isOrdered_of_isNanFree (h.free v hv)
  have how := Value.isOrdered_of_isNanFree (h.free w hw)
  rcases Prod.Lex.toLex_le_toLex.1 hle with hlt | ⟨heq, htext⟩
  · refine ⟨.lt, ?_, by decide, fun h => nomatch h⟩
    rw [Store.order?_of_raw? (Store.raw?_of_isRaw (h.raw v hv)) (Store.raw?_of_isRaw (h.raw w hw)),
      (Value.order_lt_iff hov how).2 hlt]
  · have horder : v.order w = .eq := (Value.order_eq_iff hov how).2 heq
    have horder' : w.order v = .eq := (Value.order_eq_iff how hov).2 heq.symm
    obtain ⟨t, ht⟩ := hlist v hv w hw hne horder
    obtain ⟨u, hu⟩ := hlist w hw v hv hne.symm horder'
    refine ⟨.eq, ?_, by decide, fun _ => ⟨t, u, ht, hu, ?_⟩⟩
    · rw [Store.order?_of_raw? (Store.raw?_of_isRaw (h.raw v hv)) (Store.raw?_of_isRaw (h.raw w hw)),
        horder]
    · rw [textPlace_of_render? ht, textPlace_of_render? hu] at htext
      refine List.not_lt.1 fun hlt => ?_
      have hlt := Value.lt_texts.1 hlt
      exact not_le_of_gt (List.cons_lt_cons_iff.2 (.inr ⟨rfl, hlt⟩)) htext

/-- No two members that are nil, truth values, numbers or strings are equal. -/
theorem scalars_differ {ws : List Value} (h : Members.Represents ws S) :
    ws.Pairwise fun v w => v.rank < 4 → w.rank < 4 → ∀ n, st.store.equalWithin n v w ≠ some true := by
  have hnodup : ws.Pairwise fun v w => v.key ≠ w.key :=
    List.pairwise_map.1 (List.nodup_iff_pairwise_ne.1 h.nodup)
  refine hnodup.imp_of_mem fun {v w} hv hw hne hrank _ n hequal => hne ?_
  have hov := Value.isOrdered_of_isNanFree (h.free v hv)
  have how := Value.isOrdered_of_isNanFree (h.free w hw)
  have horder := Store.order_of_equalWithin (Store.raw?_of_isRaw (h.raw v hv))
    (Store.raw?_of_isRaw (h.raw w hw)) hov how hequal
  refine Key.eq_of_place ?_ ((Value.order_eq_iff hov how).1 horder)
  rw [Value.rank_key]
  exact_mod_cast hrank

/-- Whatever the history of the sets of a program, an operation that is allowed succeeds and answers as for
finite sets of keys, and so do the questions whether a value is in a set and how many members it has. If all
members that are ordered as equal have a text, the items of a set are its members in the order of values and
then of texts, no two scalars among them are equal, and their texts are the same whatever the order in which
the members stand. If one of them has none, to ask for the items never ends. -/
theorem set_laws (run : Runner) (host : Host) (st : State) (M : Sets) (h : History st M) :
    (∀ (op : Operation) (N : Sets), op.after st.store M = some N →
      ∃ st', op.perform run host st = .ok (op.answer st.store M) st' ∧ History st' N) ∧
    ∀ c S, M c = some S →
      (∀ v k, st.store.key? v = some k →
        callMethod run .set c .has [v] host st = .ok (.boolean (decide (k ∈ S))) st) ∧
      callMethod run .set c .size [] host st = .ok (.number (Number.ofNat S.card)) st ∧
      (Listable st.store (st.store.collection c).members →
        ∃ (a : ArrayId) (st' : State), callMethod run .set c .items [] host st = .ok (.array a) st' ∧
          ((st'.store.elements a).map Value.key).Nodup ∧
          ((st'.store.elements a).map Value.key).toFinset = S ∧
          ((st'.store.elements a).Pairwise fun v w => ∃ o, st.store.order? v w = some o ∧ o ≠ .gt ∧
            (o = .eq →
              ∃ t u, st.store.render? v = some t ∧ st.store.render? w = some u ∧ t ≤ u)) ∧
          ((st'.store.elements a).Pairwise fun v w => v.rank < 4 → w.rank < 4 →
            ∀ n, st.store.equalWithin n v w ≠ some true) ∧
          ∀ vs, vs.Perm (st.store.collection c).members →
            ∃ (b : ArrayId) (st'' : State),
              callMethod run .set c .items [] host
                { st with store := st.store.setCollection c (.set vs) } = .ok (.array b) st'' ∧
              (st''.store.elements b).map st.store.render? =
                (st'.store.elements a).map st.store.render?) ∧
      (¬Listable st.store (st.store.collection c).members →
        callMethod run .set c .items [] host st = .error .stuck st) := by
  refine ⟨fun op N hop => ?_, fun c S hc => ?_⟩
  · obtain ⟨t, hperform, -⟩ := Operation.perform_spec op h.tracks hop
    exact ⟨_, hperform, h.step hop hperform⟩
  · obtain ⟨hlt, vs, hvs, hrep⟩ := h.tracks c S hc
    refine ⟨fun v k hk => ?_, ?_, fun hlist => ?_, fun hlist => ?_⟩
    · obtain ⟨w, hw, -, hfree, rfl⟩ := Store.key?_eq_some hk
      rw [callMethod_set (by decide) rfl]
      refine (setMethod_has (value_of_raw? rfl hw)).trans ?_
      rw [members_set hvs, Members.laws.contains hrep hfree]
    · have hsize : callMethod run .set c .size [] host st =
          .ok (.number (Number.ofNat (st.store.collection c).size)) st := rfl
      rw [hsize, hvs, ← Members.laws.cardinality hrep]
      rfl
    · rw [members_set hvs] at hlist ⊢
      obtain ⟨ws, hws⟩ := listMembers_answers hrep hlist
      obtain ⟨hperm, hordered⟩ := ordered_of_listMembers hrep hws fun _ => []
      have hrep' := Members.laws.order hrep hperm
      have hlist' : Listable st.store ws := hlist.perm hperm
      refine ⟨_, _, items_spec hvs hws, ?_⟩
      rw [Store.elements_newArray]
      refine ⟨hrep'.nodup, hrep'.keys, listed_ordered hrep' hlist' hordered, scalars_differ hrep',
        fun vs' hperm' => ?_⟩
      obtain ⟨ws', hws'⟩ := listMembers_answers (Members.laws.order hrep hperm') (hlist.perm hperm')
      refine ⟨_, _, items_spec (Sets.collection_setCollection hlt)
        (listMembers_setCollection.trans hws'), ?_⟩
      exact (congrArg _ Store.elements_newArray).trans (texts_listMembers hperm' hrep hws hws')
    · rw [members_set hvs] at hlist
      exact items_stuck hvs (listMembers_eq_none hrep hlist)

theorem set_laws_twoTexts :
    History {} (fun _ => none) ∧
      ∃ st' : State,
        (Operation.construct [.text "b", .text "a", .text "b"]).perform (evaluator 0) {} {} =
          .ok (.collection .set 0) st' ∧
        callMethod (evaluator 0) .set 0 .has [.text "a"] {} st' = .ok (.boolean true) st' ∧
        callMethod (evaluator 0) .set 0 .has [.text "c"] {} st' = .ok (.boolean false) st' ∧
        callMethod (evaluator 0) .set 0 .size [] {} st' = .ok (.number (Number.ofNat 2)) st' ∧
        ∃ (a : ArrayId) (st'' : State),
          callMethod (evaluator 0) .set 0 .items [] {} st' = .ok (.array a) st'' ∧
          ((st''.store.elements a).map Value.key).toFinset = {.text "a", .text "b"} := by
  refine ⟨.start {}, ?_⟩
  obtain ⟨hops, -⟩ := set_laws (evaluator 0) {} {} (fun _ => none) (.start {})
  obtain ⟨st', hperform, hhistory⟩ := hops (.construct [.text "b", .text "a", .text "b"]) _ rfl
  obtain ⟨-, hsets⟩ := set_laws (evaluator 0) {} st' _ hhistory
  obtain ⟨hhas, hsize, hitems⟩ := hsets 0 [.text "b", .text "a", .text "b"].toFinset rfl
  obtain ⟨-, vs, hvs, hrep⟩ := hhistory.tracks 0 _ rfl
  have hlist : Listable st'.store (st'.store.collection 0).members := by
    rw [members_set hvs]
    refine listable_of_texts hrep fun v hv hrank => ?_
    have hkeys : ∀ k ∈ [Key.text "b", .text "a", .text "b"].toFinset, k.rank = 3 := by decide
    have hrank' := hkeys _ (hrep.mem_iff.2 ⟨v, hv, rfl⟩)
    rw [Value.rank_key] at hrank'
    omega
  obtain ⟨a, st'', hcall, -, hkeys, -⟩ := hitems.1 hlist
  exact ⟨st', hperform, hhas (.text "a") (.text "a") rfl, hhas (.text "c") (.text "c") rfl, hsize, a, st'',
    hcall, hkeys.trans (by decide)⟩

/-- Two arrays of which each one holds itself. -/
def circles : Store := { arrays := #[⟨0, 1⟩, ⟨1, 1⟩], blocks := #[#[.array 0], #[.array 1]] }

theorem render?_circles {a : ArrayId} (h : a = 0 ∨ a = 1) : circles.render? (.array a) = none := by
  rcases h with rfl | rfl
  · exact Store.render?_of_holds_itself (i := 0) (by decide) rfl
  · exact Store.render?_of_holds_itself (i := 0) (by decide) rfl

/-- A set of both has two members, but no items. -/
theorem circles_unlisted :
    ∃ (st : State) (M : Sets) (S : Finset Key), History st M ∧ M 0 = some S ∧ S.card = 2 ∧
      callMethod (evaluator 0) .set 0 .items [] {} st = .error .stuck st := by
  let op : Operation := .construct [.array 0, .array 1]
  let st : State := { store := (circles.newCollection (.set [.array 0, .array 1])).2 }
  have hperform : op.perform (evaluator 0) {} { store := circles } = .ok (.collection .set 0) st := rfl
  have hhistory : History st _ := .step (.start { store := circles }) rfl hperform
  refine ⟨st, _, _, hhistory, rfl, by decide, ?_⟩
  obtain ⟨-, vs, hvs, hrep⟩ := hhistory.tracks 0 _ rfl
  cases (rfl : st.store.collection 0 = .set [.array 0, .array 1]).symm.trans hvs
  refine items_stuck hvs (listMembers_eq_none hrep fun hlist => ?_)
  obtain ⟨t, ht⟩ := hlist (.array 0) (by simp) (.array 1) (by simp) (by decide) rfl
  have hrender := Store.render?_of_collections (s := circles) (t := st.store) rfl rfl rfl rfl (.array 0)
  rw [hrender, render?_circles (.inl rfl)] at ht
  cases ht

end Library

end ScriptLang
