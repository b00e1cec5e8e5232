import ScriptLang.Proofs.Store.Content
import ScriptLang.Proofs.Value.Identity
import ScriptLang.Value.Compare

/-!
# The order of values

Every value that is not not-a-number has a *place*: the rank of its type, and then what it is compared by.
Values are ordered by their places (`Value.order_lt_iff`, `Value.order_eq_iff`), so the order is that of lists
of integers: total, and the same from both sides. Values without parts that are ordered as equal are equal if
they are nil, truth values, numbers or strings; all other values share one place.
-/

namespace ScriptLang

/-! ### Places -/

namespace Key

/-- The rank of a type in the order of types. -/
def rank : Key → ℤ
  | nil => 0
  | boolean _ => 1
  | number _ => 2
  | text _ => 3
  | _ => 4

/-- What values of one type are ordered by. -/
def rest : Key → List ℤ
  | boolean b => [if b then 1 else 0]
  | number place => place
  | text t => t.map fun b => (b.toNat : ℤ)
  | _ => []

/-- The place of a value among the values. -/
def place (k : Key) : List ℤ := k.rank :: k.rest

/-- Nil, truth values, numbers and strings are told apart by their places. -/
theorem eq_of_place {k l : Key} (hk : k.rank < 4) (h : k.place = l.place) : k = l := by
  obtain ⟨hrank, hrest⟩ := List.cons.inj h
  have hl : l.rank < 4 := hrank ▸ hk
  cases k with
  | nil =>
    cases l with
    | nil => rfl
    | _ => simp [rank] at hrank
  | boolean b =>
    cases l with
    | boolean c => cases b <;> cases c <;> simp_all [rest]
    | _ => simp [rank] at hrank
  | number p =>
    cases l with
    | number q => exact congrArg number hrest
    | _ => simp [rank] at hrank
  | text t =>
    cases l with
    | text u =>
      refine congrArg text (List.map_injective_iff.2 (fun a b hab => ?_) hrest)
      exact UInt8.toNat_inj.1 (Int.ofNat_inj.1 hab)
    | _ => simp [rank] at hrank
  | _ => simp [rank] at hk

end Key

namespace Value

variable {v w : Value}

/-- Whether a value is not not-a-number, which has no place in the order. -/
def isOrdered : Value → Bool
  | number x => !x.isNaN
  | _ => true

theorem rank_key : v.key.rank = v.rank := by cases v <;> rfl

theorem isOrdered_of_isNanFree (h : v.isNanFree = true) : v.isOrdered = true := by
  cases v with
  | number => exact h
  | _ => rfl

theorem lt_texts {x y : Text} : x < y ↔ (Key.text x).rest < (Key.text y).rest := by
  simp only [Key.rest]
  induction x generalizing y with
  | nil => cases y <;> simp
  | cons a x ih =>
    cases y with
    | nil => simp
    | cons b y =>
      rw [List.cons_lt_cons_iff, List.map_cons, List.map_cons, List.cons_lt_cons_iff, ih,
        UInt8.lt_iff_toNat_lt, ← UInt8.toNat_inj, Int.ofNat_lt, Int.ofNat_inj]

theorem compare_texts {x y : Text} :
    (compare x y = .lt ↔ (Key.text x).rest < (Key.text y).rest) ∧
      (compare x y = .eq ↔ (Key.text x).rest = (Key.text y).rest) := by
  simp only [Key.rest]
  induction x generalizing y with
  | nil => cases y <;> simp
  | cons a x ih =>
    cases y with
    | nil => simp
    | cons b y =>
      obtain ⟨hlt, heq⟩ := @ih y
      rw [List.compare_cons_cons, List.map_cons, List.map_cons, Ordering.then_eq_lt,
        Ordering.then_eq_eq, List.cons_lt_cons_iff, List.cons.injEq, hlt, heq, Std.compare_eq_lt,
        Std.compare_eq_iff_eq, UInt8.lt_iff_toNat_lt, ← UInt8.toNat_inj, Int.ofNat_lt, Int.ofNat_inj]
      exact ⟨Iff.rfl, Iff.rfl⟩

/-- Values of one type are ordered by what the type is ordered by. -/
theorem order_rest (hv : v.isOrdered = true) (hw : w.isOrdered = true) (hrank : v.rank = w.rank) :
    (v.order w = .lt ↔ v.key.rest < w.key.rest) ∧ (v.order w = .eq ↔ v.key.rest = w.key.rest) := by
  unfold order
  rw [if_neg (not_not.2 hrank)]
  split
  · next x y =>
    have hx : x.isNaN = false := by simpa [isOrdered] using hv
    have hy : y.isNaN = false := by simpa [isOrdered] using hw
    have hgt : x > y ↔ Number.place y < Number.place x := Number.lt_iff hy hx
    simp only [Number.lt_iff hx hy, hgt, key, Key.rest]
    rcases lt_trichotomy (Number.place x) (Number.place y) with h | h | h
    · simp [h, ne_of_lt h]
    · simp [h]
    · simp [h, ne_of_gt h, not_lt_of_gt h]
  · exact compare_texts
  · next x y => cases x <;> cases y <;> decide
  · next hnumber htext hboolean =>
    have hnil : v.key.rest = [] ∧ w.key.rest = [] := by
      cases v with
      | number => cases w with
        | number => exact (hnumber _ _ rfl rfl).elim
        | _ => simp [rank] at hrank
      | text => cases w with
        | text => exact (htext _ _ rfl rfl).elim
        | _ => simp [rank] at hrank
      | boolean => cases w with
        | boolean => exact (hboolean _ _ rfl rfl).elim
        | _ => simp [rank] at hrank
      | _ => cases w with
        | number => simp [rank] at hrank
        | text => simp [rank] at hrank
        | boolean => simp [rank] at hrank
        | _ => exact ⟨rfl, rfl⟩
    simp [hnil]

/-- Values are ordered by their places. -/
theorem order_places (hv : v.isOrdered = true) (hw : w.isOrdered = true) :
    (v.order w = .lt ↔ v.key.place < w.key.place) ∧ (v.order w = .eq ↔ v.key.place = w.key.place) := by
  unfold Key.place
  rw [List.cons_lt_cons_iff, List.cons.injEq, rank_key, rank_key, Int.ofNat_lt, Int.ofNat_inj]
  by_cases hrank : v.rank = w.rank
  · simpa [hrank] using order_rest hv hw hrank
  · have horder : v.order w = compare v.rank w.rank := by
      unfold order
      rw [if_pos hrank]
    rw [horder, Nat.compare_eq_lt, Nat.compare_eq_eq]
    simp [hrank]

theorem order_lt_iff (hv : v.isOrdered = true) (hw : w.isOrdered = true) :
    v.order w = .lt ↔ v.key.place < w.key.place := (order_places hv hw).1

theorem order_eq_iff (hv : v.isOrdered = true) (hw : w.isOrdered = true) :
    v.order w = .eq ↔ v.key.place = w.key.place := (order_places hv hw).2

theorem order_gt_iff (hv : v.isOrdered = true) (hw : w.isOrdered = true) :
    v.order w = .gt ↔ w.key.place < v.key.place := by
  have hlt := order_lt_iff hv hw
  have heq := order_eq_iff hv hw
  rcases lt_trichotomy v.key.place w.key.place with h | h | h
  · simp [hlt.2 h, not_lt_of_gt h]
  · simp [heq.2 h, h]
  · refine iff_of_true ?_ h
    cases horder : v.order w with
    | lt => exact absurd (hlt.1 horder) (not_lt_of_gt h)
    | eq => exact absurd (heq.1 horder) (ne_of_gt h)
    | gt => rfl

/-- From the other side the order is the other way round. -/
theorem order_swap (hv : v.isOrdered = true) (hw : w.isOrdered = true) :
    w.order v = (v.order w).swap := by
  cases h : v.order w with
  | lt => exact (order_gt_iff hw hv).2 ((order_lt_iff hv hw).1 h)
  | eq => exact (order_eq_iff hw hv).2 ((order_eq_iff hv hw).1 h).symm
  | gt => exact (order_lt_iff hw hv).2 ((order_gt_iff hv hw).1 h)

theorem order_ne_gt_iff (hv : v.isOrdered = true) (hw : w.isOrdered = true) :
    v.order w ≠ .gt ↔ v.key.place ≤ w.key.place := by rw [ne_eq, order_gt_iff hv hw, not_lt]

end Value

namespace Store

variable {s : Store} {a b c v w : Value} {n : Nat}

/-- Whether a value unwraps and what is behind it is not not-a-number. -/
def Comparable (s : Store) (a : Value) : Prop := ∃ v, s.raw? a = some v ∧ v.isOrdered = true

/-- What is neither a reference nor typed is what is behind it. -/
theorem raw?_of_isRaw (h : v.isRaw = true) : s.raw? v = some v := by
  unfold raw? rawWithin
  cases v with
  | reference => cases h
  | typed => cases h
  | _ => rfl

/-- The place of what is behind a value. -/
def place (s : Store) (a : Value) : List ℤ := (s.raw? a).elim [] fun v => v.key.place

theorem place_of_raw? (ha : s.raw? a = some v) : s.place a = v.key.place := by
  unfold place
  rw [ha]
  rfl

theorem order?_of_raw? (ha : s.raw? a = some v) (hb : s.raw? b = some w) :
    s.order? a b = some (v.order w) := by
  unfold order?
  rw [ha, hb]
  rfl

/-- What is behind two values is ordered by its places. -/
theorem Comparable.order? (ha : s.Comparable a) (hb : s.Comparable b) :
    ∃ o, s.order? a b = some o ∧ s.order? b a = some o.swap ∧ (o = .lt ↔ s.place a < s.place b) ∧
      (o = .eq ↔ s.place a = s.place b) ∧ (o ≠ .gt ↔ s.place a ≤ s.place b) := by
  obtain ⟨v, ha, hv⟩ := ha
  obtain ⟨w, hb, hw⟩ := hb
  rw [place_of_raw? ha, place_of_raw? hb]
  refine ⟨v.order w, order?_of_raw? ha hb, ?_, Value.order_lt_iff hv hw, Value.order_eq_iff hv hw,
    Value.order_ne_gt_iff hv hw⟩
  rw [order?_of_raw? hb ha, Value.order_swap hv hw]

/-- Equal values are ordered as equal. -/
theorem order_of_equalWithin (ha : s.raw? a = some v) (hb : s.raw? b = some w)
    (hv : v.isOrdered = true) (hw : w.isOrdered = true)
    (h : s.equalWithin n a b = some true) : v.order w = .eq := by
  cases n with
  | zero => cases h
  | succ n =>
    unfold equalWithin at h
    rw [ha, hb] at h
    simp only [Option.bind_eq_bind, Option.bind_some] at h
    split at h
    · rfl
    · rfl
    · rfl
    · obtain ⟨-, hkey⟩ := Value.same_iff.1 (Option.some.inj h)
      exact (Value.order_eq_iff hv hw).2 (congrArg Key.place hkey)

/-- Nil, truth values, numbers and strings that are ordered as equal are equal. -/
theorem equalWithin_of_order (ha : s.raw? a = some v) (hb : s.raw? b = some w)
    (hv : v.isOrdered = true) (hw : w.isOrdered = true) (hrank : v.rank < 4) (h : v.order w = .eq) :
    s.equalWithin (n + 1) a b = some true := by
  have hkey : v.key = w.key := by
    refine Key.eq_of_place ?_ ((Value.order_eq_iff hv hw).1 h)
    rw [Value.rank_key]
    exact_mod_cast hrank
  have hfree : ∀ {u : Value}, u.isOrdered = true → u.rank < 4 → u.isNanFree = true := by
    intro u hu hrank
    cases u with
    | number => exact hu
    | pair => simp [Value.rank] at hrank
    | typed => simp [Value.rank] at hrank
    | returnSignal => simp [Value.rank] at hrank
    | _ => rfl
  have hrank' : w.rank < 4 := by
    have hranks := congrArg Key.rank hkey
    rw [Value.rank_key, Value.rank_key] at hranks
    exact Int.ofNat_inj.1 hranks ▸ hrank
  unfold equalWithin
  rw [ha, hb]
  simp only [Option.bind_eq_bind, Option.bind_some]
  split
  · simp [Value.rank] at hrank
  · simp [Value.rank] at hrank
  · simp [Value.rank] at hrank
  · exact congrArg some (Value.same_iff.2 ⟨⟨hfree hv hrank, hfree hw hrank'⟩, hkey⟩)

end Store

end ScriptLang
