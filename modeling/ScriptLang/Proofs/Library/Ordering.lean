import ScriptLang.Library.Call
import ScriptLang.Proofs.Eval.Still
import ScriptLang.Proofs.Library.StableSort
import ScriptLang.Proofs.Store.Widening
import ScriptLang.Proofs.Value.Order

/-!
# Sorting by the order of values

An array of values other than not-a-number is sorted by the places of its elements. The result is a new array
with the same elements; it is in order, elements that are ordered as equal keep their order, and sorting it
again gives the same elements. All arrays that were there are left as they were.
-/

namespace ScriptLang.Library

open Eval Sorting

variable {s : Store} {vs ws : List Value} {v w : Value} {id : ArrayId}

/-- The elements in the order of values are in ascending order of their places. -/
theorem sorted_spec (h : ∀ v ∈ vs, s.Comparable v) :
    ∃ ws, sorted s vs = some ws ∧ StablePerm s.place vs ws ∧ Ordered s.place ws := by
  have htells : ∀ v ∈ vs, ∀ w ∈ vs,
      Tells (fun v w => do return (← s.order? v w) == Ordering.lt) s.place w v := by
    intro v hv w hw
    obtain ⟨o, ho, -, hlt, -, -⟩ := (h w hw).order? (h v hv)
    unfold Tells
    dsimp only
    rw [ho]
    exact congrArg some (Bool.eq_iff_iff.2 (beq_iff_eq.trans (hlt.trans (@decide_eq_true_iff _ (_)).symm)))
  exact sortM_spec (List.pairwise_of_forall_mem_list htells)

/-- Elements that are in order already are left as they are, also in a store with more arrays. -/
theorem sorted_of_ordered {t : Store} (hw : s.Widens t) (h : ∀ v ∈ ws, s.Comparable v)
    (hordered : Ordered s.place ws) : sorted t ws = some ws := by
  have hplace : t.place = s.place := by
    funext a
    unfold Store.place
    rw [hw.raw? a]
  have hcomparable : ∀ v ∈ ws, t.Comparable v := by
    intro v hv
    obtain ⟨u, hu, hordered⟩ := h v hv
    exact ⟨u, (hw.raw? v).trans hu, hordered⟩
  obtain ⟨zs, hzs, hperm, hordered'⟩ := sorted_spec hcomparable
  rw [hplace] at hperm hordered'
  rw [hzs, hperm.eq_of_ordered hordered hordered']

theorem call_of_arity {run : Runner} {f : Builtin} {args : List Value} {host : Host} {st : State}
    (h : checkArity f args.length host st = .ok () st) :
    call run f args host st = perform run f ⟨f.name, args⟩ host st := bind_of_ok h

/-- Sorting an array makes a new one of the sorted elements. -/
theorem call_sort {run : Runner} {host : Host} {st : State} (hv : st.store.raw? v = some (.array id))
    (hsorted : sorted st.store (st.store.elements id) = some ws) :
    call run .sort [v] host st =
      .ok (.array st.store.arrays.size) { st with store := (st.store.newArray ws ws.length).2 } := by
  have harray : (Arguments.mk Builtin.sort.name [v]).array 0 host st = .ok id st := by
    unfold Arguments.array
    exact bind_of_ok (raw_of_raw? hv host)
  have hstuck : orStuck (sorted st.store (st.store.elements id)) host st = .ok ws st := by
    rw [hsorted]
    rfl
  have hperform : perform run .sort ⟨Builtin.sort.name, [v]⟩ host st =
      (orStuck (sorted st.store (st.store.elements id)) >>= newArray) host st :=
    (bind_of_ok (rfl : store host st = .ok st.store st)).trans ((bind_of_ok harray).trans
      (bind_of_ok (rfl : store host st = .ok st.store st)))
  exact (call_of_arity rfl).trans (hperform.trans (bind_of_ok hstuck))

/-- Values other than not-a-number are ordered totally: an order from one side is the same from the other
side, and orders can be chained. Equal values are ordered as equal, and nil, truth values, numbers and strings
that are ordered as equal are equal. An array of such values is sorted into a new array, with the
elements of the given one in order, where elements that are ordered as equal stand as they stood. Sorting that
gives the same elements again, and what was there before is left as it was. -/
theorem sort_by_order (run : Runner) (host : Host) (st : State) :
    (∀ a b, st.store.Comparable a → st.store.Comparable b →
      ∃ o, st.store.order? a b = some o ∧ st.store.order? b a = some o.swap) ∧
    (∀ a b c, st.store.Comparable a → st.store.Comparable b → st.store.Comparable c →
      st.store.order? a b ≠ some .gt → st.store.order? b c ≠ some .gt →
      st.store.order? a c ≠ some .gt) ∧
    (∀ n a b, st.store.Comparable a → st.store.Comparable b →
      st.store.equalWithin n a b = some true → st.store.order? a b = some .eq) ∧
    (∀ n a b v w, st.store.Comparable a → st.store.Comparable b → st.store.raw? a = some v →
      st.store.raw? b = some w → v.rank < 4 → w.rank < 4 → st.store.order? a b = some .eq →
      st.store.equalWithin (n + 1) a b = some true) ∧
    (∀ v id, st.store.raw? v = some (.array id) → st.store.HasArray id →
      (∀ a ∈ st.store.elements id, st.store.Comparable a) →
      ∃ (new : ArrayId) (st' : State), call run .sort [v] host st = .ok (.array new) st' ∧
        st.store.arrays.size ≤ new ∧ st'.store.HasArray new ∧
        (st'.store.elements new).Perm (st.store.elements id) ∧
        ((st'.store.elements new).Pairwise fun a b => st.store.order? a b ≠ some .gt) ∧
        (∀ a ∈ st.store.elements id,
          (st'.store.elements new).filter (fun b => st.store.order? a b = some .eq) =
            (st.store.elements id).filter fun b => st.store.order? a b = some .eq) ∧
        (∃ (again : ArrayId) (st'' : State),
          call run .sort [.array new] host st' = .ok (.array again) st'' ∧
          st''.store.elements again = st'.store.elements new) ∧
        (∀ a, st.store.HasArray a → st'.store.elements a = st.store.elements a)) := by
  refine ⟨fun a b ha hb => ?_, fun a b c ha hb hc hab hbc => ?_, fun n a b ha hb h => ?_,
    fun n a b v w ha hb hv hw hrank _ h => ?_, fun v id hv hid hall => ?_⟩
  · obtain ⟨o, ho, hswap, -⟩ := ha.order? hb
    exact ⟨o, ho, hswap⟩
  · obtain ⟨o, ho, -, -, -, hle⟩ := ha.order? hb
    obtain ⟨o', ho', -, -, -, hle'⟩ := hb.order? hc
    obtain ⟨o'', ho'', -, -, -, hle''⟩ := ha.order? hc
    simp only [ho, ho', ho'', ne_eq, Option.some.injEq] at hab hbc ⊢
    exact hle''.2 (le_trans (hle.1 hab) (hle'.1 hbc))
  · obtain ⟨v, hv, hordered⟩ := ha
    obtain ⟨w, hw, hordered'⟩ := hb
    rw [Store.order?_of_raw? hv hw, Store.order_of_equalWithin hv hw hordered hordered' h]
  · obtain ⟨v', hv', hordered⟩ := ha
    obtain ⟨w', hw', hordered'⟩ := hb
    cases hv.symm.trans hv'
    cases hw.symm.trans hw'
    rw [Store.order?_of_raw? hv hw] at h
    exact Store.equalWithin_of_order hv hw hordered hordered' hrank (Option.some.inj h)
  · obtain ⟨ws, hsorted, hperm, hordered⟩ := sorted_spec hall
    have hwide := Store.Widens.newArray st.store ws ws.length
    have hagain : sorted (st.store.newArray ws ws.length).2 ws = some ws :=
      sorted_of_ordered hwide (fun a ha => hall a (hperm.mem_iff.1 ha)) hordered
    have hcall : call run .sort [.array st.store.arrays.size] host
        { st with store := (st.store.newArray ws ws.length).2 } = .ok _ _ :=
      call_sort rfl ((congrArg (sorted _) Store.elements_newArray).trans hagain)
    refine ⟨st.store.arrays.size, _, call_sort hv hsorted, Nat.le_refl _, Store.hasArray_newArray, ?_, ?_,
      fun a ha => ?_, ⟨_, _, hcall, ?_⟩, fun a ha => hwide.elements ha⟩
    · exact Store.elements_newArray ▸ hperm.perm
    · rw [Store.elements_newArray]
      refine hordered.imp_of_mem fun {a b} ha hb hle => ?_
      obtain ⟨o, ho, -, -, -, hle'⟩ := (hall a (hperm.mem_iff.1 ha)).order? (hall b (hperm.mem_iff.1 hb))
      simpa [ho] using hle'.2 hle
    · rw [Store.elements_newArray]
      refine hperm.filter_eq (k := st.store.place a) fun b hb => ?_
      obtain ⟨o, ho, -, -, heq, -⟩ := (hall a ha).order? (hall b hb)
      rw [ho, decide_eq_true_iff, Option.some.injEq, heq, eq_comm]
    · rw [Store.elements_newArray, Store.elements_newArray]

/-- A state with an array of strings and nil. -/
def unsorted : State where
  store := {
    blocks := #[#[.text "b", .nil, .text "a"]]
    arrays := #[⟨0, 3⟩] }

theorem sort_by_order_unsorted :
    (∀ a ∈ unsorted.store.elements 0, unsorted.store.Comparable a) ∧
      ∃ (new : ArrayId) (st' : State),
        call (evaluator 0) .sort [.array 0] {} unsorted = .ok (.array new) st' ∧
          (st'.store.elements new).Perm [.text "b", .nil, .text "a"] ∧
          (st'.store.elements new).Pairwise fun a b => unsorted.store.order? a b ≠ some .gt := by
  have helements : unsorted.store.elements 0 = [.text "b", .nil, .text "a"] := rfl
  have hall : ∀ a ∈ unsorted.store.elements 0, unsorted.store.Comparable a := by
    rw [helements]
    simp only [List.forall_mem_cons, List.not_mem_nil, false_implies, implies_true, and_true]
    exact ⟨⟨_, rfl, rfl⟩, ⟨_, rfl, rfl⟩, ⟨_, rfl, rfl⟩⟩
  obtain ⟨-, -, -, -, hsort⟩ := sort_by_order (evaluator 0) {} unsorted
  obtain ⟨new, st', hcall, -, -, hperm, hordered, -⟩ :=
    hsort (.array 0) 0 rfl ⟨by decide, by decide⟩ hall
  exact ⟨hall, new, st', hcall, hperm, hordered⟩

end ScriptLang.Library
