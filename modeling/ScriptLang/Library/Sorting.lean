/-!
# Stable sorting

A sort that keeps the order of equal elements. It asks a comparison that can have effects or can be no
order at all, so the order of the questions is part of what it does: runs of twenty elements are
sorted by insertion, and neighbouring runs are merged until one is left. A merge cuts both runs so
that all elements before the cuts go before all elements after them, and merges the two halves.
-/

namespace ScriptLang.Sorting

variable {α : Type} {m : Type → Type} [Monad m]

/-- The length of the runs that are sorted by insertion. -/
def runLength : Nat := 20

/-- Put an element into a descending list, after the elements that it does not precede. -/
def insertM (less : α → α → m Bool) (x : α) : List α → m (List α)
  | [] => return [x]
  | y :: ys => do
    if ← less x y then return y :: (← insertM less x ys) else return x :: y :: ys

/-- A list sorted by insertion. -/
def insertionSortM (less : α → α → m Bool) (xs : List α) : m (List α) :=
  return (← xs.foldlM (fun sorted x => insertM less x sorted) []).reverse

/-- The first position from `lo` up to `hi` where `stop` holds, if it holds from some position on;
`n` bounds the number of questions. -/
def searchM (stop : Nat → m Bool) : Nat → Nat → Nat → m Nat
  | 0, lo, _ => return lo
  | n + 1, lo, hi => do
    if lo < hi then
      let mid := (lo + hi) / 2
      if ← stop mid then searchM stop n lo mid else searchM stop n (mid + 1) hi
    else return lo

/-- Whether the element at `i` precedes the element at `j`. -/
def precedes (less : α → α → m Bool) (xs : Array α) (i j : Nat) : m Bool :=
  match xs[i]?, xs[j]? with
  | some x, some y => less x y
  | _, _ => return false

/-- Two sorted runs merged; `n` bounds their length together. -/
def mergeM (less : α → α → m Bool) : Nat → List α → List α → m (List α)
  | 0, xs, ys => return xs ++ ys
  | _ + 1, [], ys => return ys
  | _ + 1, xs, [] => return xs
  | _ + 1, [x], ys => do
    let all := ys.toArray
    let i ← searchM (fun i => return !(← (all[i]?.elim (pure false) fun y => less y x)))
      ys.length 0 ys.length
    return ys.take i ++ x :: ys.drop i
  | _ + 1, xs, [y] => do
    let all := xs.toArray
    let i ← searchM (fun i => all[i]?.elim (pure false) fun x => less y x) xs.length 0 xs.length
    return xs.take i ++ y :: xs.drop i
  | n + 1, xs, ys => do
    let all := (xs ++ ys).toArray
    let left := xs.length
    let half := all.size / 2
    let sum := half + left
    let lo := if left > half then sum - all.size else 0
    let cut ← searchM (fun i => precedes less all (sum - 1 - i) i) all.size lo (min half left)
    let low ← mergeM less n (xs.take cut) (ys.take (half - cut))
    let high ← mergeM less n (xs.drop cut) (ys.drop (half - cut))
    return low ++ high

/-- Neighbouring runs merged in pairs. -/
def mergePairsM (less : α → α → m Bool) : List (List α) → m (List (List α))
  | xs :: ys :: rest => do
    let merged ← mergeM less (xs.length + ys.length) xs ys
    return merged :: (← mergePairsM less rest)
  | runs => return runs

/-- Runs merged until one is left; `n` bounds the number of rounds. -/
def mergeRunsM (less : α → α → m Bool) : Nat → List (List α) → m (List α)
  | n + 1, xs :: ys :: rest => do mergeRunsM less n (← mergePairsM less (xs :: ys :: rest))
  | _, runs => return runs.flatten

/-- A list cut into runs; `n` bounds their number. -/
def runs : Nat → List α → List (List α)
  | 0, _ => []
  | _ + 1, [] => []
  | n + 1, xs => xs.take runLength :: runs n (xs.drop runLength)

/-- A list in the order of a comparison with effects. -/
def sortM (less : α → α → m Bool) (xs : List α) : m (List α) := do
  let sorted ← (runs xs.length xs).mapM (insertionSortM less)
  mergeRunsM less sorted.length sorted

end ScriptLang.Sorting
