import ScriptLang.Proofs.Syntax.Unfinished

/-!
# Reading comes to an end

The rules of the grammar call each other without an end in sight: a bound on the depth is what makes
them functions. `Parser.ComesTo` says what they give without it: the result that no larger bound
changes. On every list of tokens, wherever a rule is called, there is such a result, and it is not that
the bound was reached (`Program.comesTo_ofTokens`). A rule that succeeds passes at least one token, only
tokens that are not for the end, and leaves one to stand next; a rule that fails does so at a token of
the list.
-/

namespace ScriptLang

/-- The tokens that are read: a list that does not end with the token for the end gets one. -/
def Token.closed (tokens : List Token) : List Token :=
  if (tokens.getLast?.map Token.kind) = some .eof then tokens else tokens ++ [⟨.eof, [], {}⟩]

/-- Whether none of the tokens from the `i`-th on and before the `j`-th is for the end. -/
def Token.Going (tokens : List Token) (i j : Nat) : Prop :=
  ∀ k, i ≤ k → k < j → ∃ t, tokens[k]? = some t ∧ t.kind ≠ .eof

/-- Whether a stream stands before one of the tokens of a list, whichever token it passed last. -/
def Stream.At (tokens : List Token) (s : Stream) : Prop :=
  tokens.drop s.index = s.current :: s.rest

/-- Whether an error is about one of the tokens of a list: it has the index of that token and its
place, and it does not say that the tree is too deep. -/
def SyntaxError.PointsInto (tokens : List Token) (e : SyntaxError) : Prop :=
  ∃ i t, e.index? = some i ∧ tokens[i]? = some t ∧ e.diagnostic.location = some t.span.location ∧
    ∀ u j, e ≠ .parse .tooDeep u j

namespace Parser

variable {α : Type}

/-- Whether `r` is what a reader gives for every bound that is large enough. -/
def ComesTo (x : Nat → Parser α) (s : Stream) (r : Except SyntaxError (α × Stream)) : Prop :=
  ∃ d, ∀ n, d ≤ n → x n s = r

/-- What a reader makes of the tokens of a list from the `i`-th on: it passes at least `least` of them
and does not pass the end, or it fails at one of them. -/
def Advances (tokens : List Token) (i least : Nat) : Except SyntaxError (α × Stream) → Prop
  | .ok (_, s') => i + least ≤ s'.index ∧ s'.At tokens ∧ Token.Going tokens i s'.index
  | .error e => e.PointsInto tokens

end Parser

/-! ### Positions -/

theorem Token.closed_ne_nil (tokens : List Token) : Token.closed tokens ≠ [] := by
  unfold Token.closed
  split
  · next h =>
    rintro rfl
    cases h
  · exact List.append_ne_nil_of_right_ne_nil _ (List.cons_ne_nil _ _)

theorem Token.eof_of_getLast?_closed {tokens : List Token} {t : Token}
    (h : (Token.closed tokens).getLast? = some t) : t.kind = .eof := by
  unfold Token.closed at h
  split at h
  · next hlast =>
    rw [h] at hlast
    exact Option.some.inj hlast
  · rw [List.getLast?_concat] at h
    cases h
    rfl

namespace Stream

variable {tokens : List Token} {s s' : Stream}

theorem At.getElem? (h : s.At tokens) : tokens[s.index]? = some s.current := by
  have hzero : (tokens.drop s.index)[0]? = some s.current := by
    rw [h]
    rfl
  rwa [List.getElem?_drop] at hzero

/-- The tokens that are left are those behind the position. -/
theorem At.index_add_size (h : s.At tokens) : s.index + s.size = tokens.length := by
  have hlen := congrArg List.length h
  rw [List.length_drop, List.length_cons] at hlen
  have hsize : s.size = s.rest.length + 1 := rfl
  omega

theorem At.closed (h : s.At (Token.closed tokens)) : s.Closed := by
  have hne : s.current :: s.rest ≠ [] := List.cons_ne_nil _ _
  have hlast := List.getLast?_drop (l := Token.closed tokens) (i := s.index)
  rw [h, if_neg (by have := h.index_add_size; have : s.size = s.rest.length + 1 := rfl; omega),
    List.getLast?_eq_some_getLast hne] at hlast
  exact ⟨(s.current :: s.rest).dropLast, (s.current :: s.rest).getLast hne,
    (List.dropLast_append_getLast hne).symm, Token.eof_of_getLast?_closed hlast.symm⟩

theorem At.next (h : s.At tokens) (hs : s.Closed) (going : s.current.kind ≠ .eof) :
    s.next.At tokens ∧ s.next.index = s.index + 1 := by
  obtain ⟨-, hsize⟩ := hs.next going
  obtain ⟨current, rest, index, last⟩ := s
  cases rest with
  | nil => exact absurd hsize (Nat.succ_ne_self _)
  | cons t ts =>
    refine ⟨?_, rfl⟩
    show tokens.drop (index + 1) = t :: ts
    rw [← List.drop_drop, show tokens.drop index = current :: t :: ts from h]
    rfl

/-- What is passed is not for the end, and a token is left to stand next. -/
theorem Passes.at (h : s.Passes s') (hat : s.At (Token.closed tokens)) :
    s'.At (Token.closed tokens) ∧ Token.Going (Token.closed tokens) s.index s'.index := by
  induction h with
  | refl s => exact ⟨hat, fun k hk hk' => absurd hk (Nat.not_le.2 hk')⟩
  | @step s s' going _ ih =>
    obtain ⟨hnext, hindex⟩ := hat.next hat.closed going
    obtain ⟨hat', hgoing⟩ := ih hnext
    refine ⟨hat', fun k hk hk' => ?_⟩
    rcases Nat.eq_or_lt_of_le hk with rfl | hk
    · exact ⟨s.current, hat.getElem?, going⟩
    · exact hgoing k (by omega) hk'

/-- The stream of a list starts before its first token. -/
theorem at_ofTokens (tokens : List Token) :
    (Stream.ofTokens tokens).At (Token.closed tokens) ∧ (Stream.ofTokens tokens).index = 0 := by
  have hstream {t : Token} {ts : List Token} (hclosed : Token.closed tokens = t :: ts) :
      Stream.ofTokens tokens = { current := t, rest := ts } := by
    unfold Token.closed at hclosed
    unfold Stream.ofTokens
    rw [hclosed]
  cases hclosed : Token.closed tokens with
  | nil => exact absurd hclosed (Token.closed_ne_nil tokens)
  | cons t ts =>
    rw [hstream hclosed]
    exact ⟨rfl, rfl⟩

end Stream

/-! ### Bounds that are enough -/

namespace Parser

variable {α : Type} {tokens : List Token} {s : Stream}

theorem Leads.advances {L least : Nat} {r : Except SyntaxError (α × Stream)} (h : Leads s L r)
    (hat : s.At (Token.closed tokens)) (hL : L + least ≤ s.size) :
    Advances (Token.closed tokens) s.index least r := by
  cases r with
  | ok r =>
    obtain ⟨hpass, hsize⟩ := h
    obtain ⟨hat', hgoing⟩ := hpass.at hat
    refine ⟨?_, hat', hgoing⟩
    have hbefore := hat.index_add_size
    have hafter := hat'.index_add_size
    omega
  | error e =>
    obtain ⟨u, fault, hpass, hfault, rfl⟩ := h
    exact ⟨u.index, u.current, rfl, (hpass.at hat).1.getElem?, rfl, fun _ _ he => hfault (by cases he; rfl)⟩

/-- Readers that do the same with all bounds from `d` on have a result without a bound. -/
theorem comesTo_of_steps {x : Nat → Parser α} {d L least : Nat} (hat : s.At (Token.closed tokens))
    (h : ∀ n, d ≤ n → StepsAt s.current s.size L (x n) (x d)) (hL : L + least ≤ s.size) :
    ∃ r, ComesTo x s r ∧ Advances (Token.closed tokens) s.index least r :=
  have hsame := fun n hn => h n hn hat.closed rfl (Nat.le_refl _)
  ⟨x d s, ⟨d, fun n hn => (hsame n hn).1⟩, (hsame d (Nat.le_refl _)).2.advances hat hL⟩

end Parser

open ScriptLang.Parser in
/-- The parser makes progress and comes to an end on every list of tokens. Reading the program has a
result that does not depend on the bound, so has every call of the rules for statements, expressions
and types, before each token of the list; none of them is that the bound was reached. A call that
succeeds goes on by at least a token and neither passes the last one nor one for the end, and every
error is about a token of the list. -/
theorem Program.comesTo_ofTokens (tokens : List Token) :
    (∃ r, ComesTo programReader (Stream.ofTokens tokens) r ∧ Program.ofTokens tokens = r.map Prod.fst ∧
      Advances (Token.closed tokens) 0 0 r) ∧
    ∀ s : Stream, s.At (Token.closed tokens) →
      (∃ r, ComesTo (fun n => (Rules.ofDepth n).stmt) s r ∧ Advances (Token.closed tokens) s.index 1 r) ∧
      (∀ least, ∃ r, ComesTo (fun n => (Rules.ofDepth n).expr least) s r ∧
        Advances (Token.closed tokens) s.index 1 r) ∧
      ∃ r, ComesTo Parser.type s r ∧ Advances (Token.closed tokens) s.index 1 r := by
  constructor
  · obtain ⟨hat, hzero⟩ := Stream.at_ofTokens tokens
    have hsteps : ∀ n, (Stream.ofTokens tokens).depth ≤ n → StepsAt (Stream.ofTokens tokens).current
        (Stream.ofTokens tokens).size (Stream.ofTokens tokens).size (programReader n)
        (programReader (Stream.ofTokens tokens).depth) := fun n hn =>
      (tracks_programReader (N := 0) hn (by simp only [Stream.size, Stream.depth]; omega) _).steps
    have hsame := fun n hn => hsteps n hn hat.closed rfl (Nat.le_refl _)
    have hadv : Advances (Token.closed tokens) (Stream.ofTokens tokens).index 0 _ :=
      (hsame _ (Nat.le_refl _)).2.advances hat (Nat.le_refl _)
    rw [hzero] at hadv
    exact ⟨_, ⟨_, fun n hn => (hsame n hn).1⟩, rfl, hadv⟩
  · intro s hat
    have hsize : s.size - 1 + 1 ≤ s.size := Nat.le_refl _
    have hphrase {p : Phrase} (hp : p ≠ .cond) (n : Nat) (hn : 3 * s.size ≤ n) :
        StepsAt s.current s.size (s.size - 1) (Rules.ofDepth n p) (Rules.ofDepth (3 * s.size) p) :=
      Rules.steps_ofDepth hn (Nat.le_add_right _ _) fun hcond => absurd hcond hp
    exact ⟨comesTo_of_steps hat (hphrase (p := .stmt) Phrase.noConfusion) hsize,
      fun least => comesTo_of_steps hat (hphrase (p := .expr least) Phrase.noConfusion) hsize,
      comesTo_of_steps hat (fun n hn => (tracks_type (N := 0) hn (Nat.le_refl s.size) _).steps) hsize⟩

/-- A statement that an end in the middle of the list breaks off. -/
theorem Program.comesTo_broken_off :
    let tokens : List Token := [⟨.kwLet, "let", {}⟩, ⟨.eof, [], {}⟩, ⟨.semicolon, ";", {}⟩]
    (Stream.ofTokens tokens).At (Token.closed tokens) ∧
      ∃ r, Parser.ComesTo (fun n => (Rules.ofDepth n).stmt) (Stream.ofTokens tokens) r ∧
        Parser.Advances (Token.closed tokens) 0 1 r := by
  intro tokens
  have hat : (Stream.ofTokens tokens).At (Token.closed tokens) := rfl
  exact ⟨hat, ((Program.comesTo_ofTokens tokens).2 _ hat).1⟩

end ScriptLang
