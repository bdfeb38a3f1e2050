import BindScript.Parser

/-!
# Binary operators are joined by their precedence

The tree of a sequence of names with binary operators between them. Read from left to right it is the sequence again
(`Expr.inOrder`), and each operator binds at least as tightly as its precedence says (`Expr.Climbed`): to its left stand
names and operators that do not bind more loosely, to its right ones that bind more tightly, and the other way round for
`**`. There is only one such tree (`Expr.Climbed.unique`).

A loop that joins operands by operators of a precedence, or tighter ones, goes on until the next operator binds more
loosely (`Stops`). That is what keeps the trees in order: an operator that follows a finished right operand binds more
loosely than what may stand there, so all that has been joined so far may stand to its left
(`Expr.standsLeft_of_stops`).
-/

namespace BindScript

/-- The token of an operator. -/
def BinaryOp.token : BinaryOp → TokenKind
  | add => .punct .plus
  | sub => .punct .minus
  | mul => .punct .star
  | div => .punct .slash
  | rem => .punct .percent
  | exp => .punct .starStar
  | eq => .punct .eqEq
  | notEq => .punct .notEq
  | strictEq => .punct .eqEqEq
  | strictNotEq => .punct .notEqEq
  | lt => .punct .lt
  | ltEq => .punct .ltEq
  | gt => .punct .gt
  | gtEq => .punct .gtEq
  | bitAnd => .punct .amp
  | bitOr => .punct .pipe
  | bitXor => .punct .caret
  | shl => .punct .shl
  | shr => .punct .shr
  | ushr => .punct .ushr
  | isIn => .keyword .in
  | and => .punct .andAnd
  | or => .punct .orOr
  | nullish => .punct .nullish

theorem BinaryOp.token_injective {p q : BinaryOp} (same : p.token = q.token) : p = q := by
  cases p <;> cases q <;> first | rfl | cases same

/-- No other operator binds as tightly as `**`. -/
theorem BinaryOp.eq_exp_of_le {op : BinaryOp} (tight : exp.precedence ≤ op.precedence) : op = exp := by
  revert tight
  cases op <;> decide

/-! ## Trees of binary operators -/

namespace Expr

variable {op p q : BinaryOp} {left right e e' : Expr}

/-- The names and the binary operators of a tree from left to right, as tokens. -/
def inOrder : Expr → List TokenKind
  | .name id => [.identifier id]
  | .binary op left right => left.inOrder ++ op.token :: right.inOrder
  | _ => []

/-- The operator that joins the whole tree. -/
def rootOp? : Expr → Option BinaryOp
  | .binary op _ _ => some op
  | _ => none

/-- To the left of an operator stands nothing that binds more loosely; to the left of `**` even nothing that binds as
tightly. -/
def StandsLeft (op : BinaryOp) (left : Expr) : Prop :=
  ∀ q, left.rootOp? = some q →
    if op = .exp then op.precedence < q.precedence else op.precedence ≤ q.precedence

/-- To the right of an operator stands nothing that does not bind more tightly; to the right of `**` also what binds as
tightly. -/
def StandsRight (op : BinaryOp) (right : Expr) : Prop :=
  ∀ q, right.rootOp? = some q →
    if op = .exp then op.precedence ≤ q.precedence else op.precedence < q.precedence

/-- Names joined by binary operators as their precedences say. -/
inductive Climbed : Expr → Prop
  | name (id : String) : Climbed (.name id)
  | binary {op : BinaryOp} {left right : Expr} (left_climbed : Climbed left) (right_climbed : Climbed right)
    (stands_left : left.StandsLeft op) (stands_right : right.StandsRight op) : Climbed (.binary op left right)

theorem inOrder_binary : (Expr.binary op left right).inOrder = left.inOrder ++ op.token :: right.inOrder := by
  rw [inOrder]

theorem StandsLeft.le (stands : left.StandsLeft op) (root : left.rootOp? = some q) : op.precedence ≤ q.precedence := by
  have bound := stands q root
  split at bound <;> omega

theorem StandsRight.le (stands : right.StandsRight op) (root : right.rootOp? = some q) :
    op.precedence ≤ q.precedence := by
  have bound := stands q root
  split at bound <;> omega

/-- A tree without an operator is a name. -/
theorem Climbed.inOrder_of_rootOp? (climbed : e.Climbed) (none : e.rootOp? = none) :
    ∃ id, e.inOrder = [.identifier id] := by
  cases climbed with
  | name id => exact ⟨id, by rw [inOrder]⟩
  | binary => cases none

theorem token_ne_identifier (op : BinaryOp) (id : String) : op.token ≠ .identifier id := by
  cases op <;> exact nofun

theorem Climbed.rootOp?_of_mem (climbed : e.Climbed) (mem : q.token ∈ e.inOrder) : ∃ p, e.rootOp? = some p := by
  cases root : e.rootOp? with
  | some p => exact ⟨p, rfl⟩
  | none =>
    obtain ⟨id, single⟩ := climbed.inOrder_of_rootOp? root
    rw [single] at mem
    exact absurd (List.mem_singleton.1 mem) (token_ne_identifier q id)

/-- No operator of a tree binds more loosely than the one that joins it. -/
theorem Climbed.le_precedence (climbed : e.Climbed) (root : e.rootOp? = some p) (mem : q.token ∈ e.inOrder) :
    p.precedence ≤ q.precedence := by
  induction climbed generalizing p with
  | name => cases root
  | @binary op left right climbedLeft climbedRight standsLeft standsRight ihLeft ihRight =>
    cases root
    rw [inOrder_binary] at mem
    rcases List.mem_append.1 mem with mem | mem
    · obtain ⟨r, root⟩ := climbedLeft.rootOp?_of_mem mem
      exact Nat.le_trans (standsLeft.le root) (ihLeft root mem)
    rcases List.mem_cons.1 mem with same | mem
    · exact Nat.le_of_eq (congrArg BinaryOp.precedence (BinaryOp.token_injective same).symm)
    · obtain ⟨r, root⟩ := climbedRight.rootOp?_of_mem mem
      exact Nat.le_trans (standsRight.le root) (ihRight root mem)

/-- Of two operators, the one that has the other to its left and the one that has the other to its right cannot be
exchanged. -/
theorem not_apart (climbedLeft : left.Climbed) (climbedRight : right.Climbed) (standsLeft : left.StandsLeft p)
    (standsRight : right.StandsRight q) (inLeft : q.token ∈ left.inOrder) (inRight : p.token ∈ right.inOrder) :
    False := by
  obtain ⟨r, root⟩ := climbedLeft.rootOp?_of_mem inLeft
  obtain ⟨r', root'⟩ := climbedRight.rootOp?_of_mem inRight
  have below := climbedLeft.le_precedence root inLeft
  have above := climbedRight.le_precedence root' inRight
  have first := standsLeft r root
  have second := standsRight r' root'
  split at second
  next exp =>
    -- the first one binds as tightly as `**`, so it is `**` too
    subst exp
    have same : p = .exp := BinaryOp.eq_exp_of_le (Nat.le_trans second above)
    subst same
    rw [if_pos rfl] at first
    omega
  next =>
    have loose := standsLeft.le root
    omega

/-- A tree with an operator has the operator among its tokens. -/
theorem token_mem_inOrder : op.token ∈ (Expr.binary op left right).inOrder := by
  rw [inOrder_binary]
  exact List.mem_append_right _ (List.mem_cons_self ..)

/-- A list taken apart at two of its items: at the same place, or at different ones. -/
theorem around_eq {α : Type} {before after before' after' : List α} {x y : α}
    (same : before ++ x :: after = before' ++ y :: after') :
    (before = before' ∧ x = y ∧ after = after') ∨ (y ∈ after ∧ x ∈ before') ∨ (x ∈ after' ∧ y ∈ before) := by
  rcases List.append_eq_append_iff.1 same with ⟨between, rfl, rest⟩ | ⟨between, rfl, rest⟩
  · rcases between with _ | ⟨z, between⟩
    · obtain ⟨rfl, rfl⟩ := List.cons.inj rest
      exact .inl ⟨(List.append_nil _).symm, rfl, rfl⟩
    · obtain ⟨rfl, rfl⟩ := List.cons.inj rest
      exact .inr (.inl ⟨by simp, by simp⟩)
  · rcases between with _ | ⟨z, between⟩
    · obtain ⟨rfl, rfl⟩ := List.cons.inj rest
      exact .inl ⟨List.append_nil _, rfl, rfl⟩
    · obtain ⟨rfl, rfl⟩ := List.cons.inj rest
      exact .inr (.inr ⟨by simp, by simp⟩)

/-- Names and operators are joined in one way only. -/
theorem Climbed.unique (climbed : e.Climbed) (climbed' : e'.Climbed) (same : e.inOrder = e'.inOrder) : e = e' := by
  induction climbed generalizing e' with
  | name id =>
    cases climbed' with
    | name id' =>
      rw [inOrder, inOrder] at same
      cases same
      rfl
    | @binary q left' right' =>
      have mem := same ▸ token_mem_inOrder
      rw [inOrder] at mem
      exact absurd (List.mem_singleton.1 mem) (token_ne_identifier q id)
  | @binary p left right climbedLeft climbedRight standsLeft standsRight ihLeft ihRight =>
    cases climbed' with
    | name id =>
      have mem := same.symm ▸ token_mem_inOrder
      rw [inOrder] at mem
      exact absurd (List.mem_singleton.1 mem) (token_ne_identifier p id)
    | @binary q left' right' climbedLeft' climbedRight' standsLeft' standsRight' =>
      rw [inOrder_binary, inOrder_binary] at same
      -- the roots are the same one, or each stands in an operand of the other tree, on opposite sides
      rcases around_eq same with ⟨lefts, tokens, rights⟩ | ⟨inRight, inLeft⟩ | ⟨inRight, inLeft⟩
      · rw [ihLeft climbedLeft' lefts, ihRight climbedRight' rights, BinaryOp.token_injective tokens]
      · exact (not_apart climbedLeft' climbedRight standsLeft' standsRight inLeft inRight).elim
      · exact (not_apart climbedLeft climbedRight' standsLeft standsRight' inLeft inRight).elim

end Expr

/-! ## Operands -/

namespace Parser

variable {α β : Type} {lower : Level} {c c' : Cursor} {k k' : TokenKind} {ks : List TokenKind} {a : String}

/-- The kinds of the tokens ahead, where `in` is an operator. -/
structure Cursor.Faces (c : Cursor) (kinds : List TokenKind) : Prop where
  kinds : c.rest.map Token.kind = kinds
  free : c.noIn = false

theorem Cursor.Faces.current (faces : c.Faces (k :: ks)) : c.current.kind = k := by
  obtain ⟨t, rest, ahead, here, -⟩ := List.map_eq_cons_iff.1 faces.kinds
  rw [Cursor.current, ahead]
  exact here

theorem Cursor.Faces.advance (faces : c.Faces (k :: k' :: ks)) : c.advance.Faces (k' :: ks) := by
  obtain ⟨t, rest, ahead, -, more⟩ := List.map_eq_cons_iff.1 faces.kinds
  obtain ⟨t', rest', ahead', -, -⟩ := List.map_eq_cons_iff.1 more
  subst ahead'
  have moved : c.advance = { c with rest := t' :: rest' } := by rw [Cursor.advance, ahead]
  rw [moved]
  exact ⟨more, faces.free⟩

/-- An operand ends before an operator and at the end of the input. -/
def EndsOperand (k : TokenKind) : Prop :=
  k = .eof ∨ ∃ op : BinaryOp, k = op.token

theorem binaryOp?_token (op : BinaryOp) : binaryOp? true op.token = some op := by
  cases op <;> rfl

theorem run_kind (f : TokenKind → Parse β) : (kind >>= f) c = f c.current.kind c :=
  rfl

theorem run_get (f : Cursor → Parse β) : (get >>= f) c = f c c :=
  rfl

theorem primary_name (here : c.current.kind = .identifier a) : primary lower c = .ok (nameExpr a) c.advance := by
  unfold primary
  rw [run_kind, here]
  rfl

theorem chainTurn_of_ends (here : c.current.kind = k) (ends : EndsOperand k) (e : Expr) :
    chainTurn lower e c = .ok (.done e) c := by
  unfold chainTurn
  rw [run_kind, here]
  rcases ends with rfl | ⟨op, rfl⟩
  · rfl
  · cases op <;> rfl

theorem repeatFrom_done {turn : α → Parse (Turn α β)} {x : α} {y : β} (done : turn x c = .ok (.done y) c') :
    repeatFrom x turn c = .ok y c' := by
  show EStateM.bind (turn x) _ c = _
  unfold EStateM.bind
  rw [done]
  rfl

theorem run_ok {x : Parse α} {y : α} (run : x c = .ok y c') (f : α → Parse β) : (x >>= f) c = f y c' := by
  show EStateM.bind x f c = f y c'
  unfold EStateM.bind
  rw [run]

theorem updateOp?_of_ends (ends : EndsOperand k) : updateOp? k = none := by
  rcases ends with rfl | ⟨op, rfl⟩
  · rfl
  · cases op <;> rfl

/-- A name before an operator, or at the end, is an operand of its own. -/
theorem unary_name (faces : c.Faces (.identifier a :: k :: ks)) (ends : EndsOperand k) :
    unary lower c = .ok (nameExpr a) c.advance := by
  have next : c.advance.current.kind = k := faces.advance.current
  have chain : callChain lower c = .ok (nameExpr a) c.advance :=
    (run_ok (primary_name faces.current) _).trans (repeatFrom_done (chainTurn_of_ends next ends _))
  have post : postfixed lower c = .ok (nameExpr a) c.advance := by
    refine (run_ok chain _).trans ?_
    show (if c.advance.current.newlineBefore = true then _ else _ : Parse Expr) c.advance = _
    split
    · rfl
    · rw [next, updateOp?_of_ends ends]
      rfl
  unfold unary
  rw [run_kind, faces.current]
  exact post

/-! ## Loops over operators -/

/-- Operators, each with the name after it. -/
abbrev Operations :=
  List (BinaryOp × String)

/-- The tokens of operators and names. -/
def Operations.kinds (operations : Operations) : List TokenKind :=
  operations.flatMap fun (op, name) => [op.token, .identifier name]

/-- The next operator, if there is one, binds more loosely than `loosest`. -/
def Stops (loosest : Nat) (operations : Operations) : Prop :=
  ∀ op name rest, operations = (op, name) :: rest → op.precedence < loosest

/-- The name is no literal. -/
def Ordinary (name : String) : Prop :=
  name ≠ "undefined" ∧ name ≠ "NaN" ∧ name ≠ "Infinity"

theorem nameExpr_of_ordinary (ordinary : Ordinary a) : nameExpr a = .name a := by
  unfold nameExpr
  rw [if_neg ordinary.1, if_neg ordinary.2.2, if_neg ordinary.2.1]

/-- The tree joins what has been read at the start and some of the operations, those that are left stop it, and the
cursor is in front of them. -/
def Joins (start : List TokenKind) (loosest : Nat) (operations : Operations) (e : Expr) (c : Cursor) : Prop :=
  ∃ taken rest : Operations, operations = taken ++ rest ∧ e.inOrder = start ++ taken.kinds ∧ e.Climbed ∧
    (∀ q, e.rootOp? = some q → loosest ≤ q.precedence) ∧ c.Faces (rest.kinds ++ [.eof]) ∧ Stops loosest rest

/-- What has been joined up to an operator may stand to its left. -/
theorem standsLeft_of_stops {p op : BinaryOp} {left right : Expr} {name : String} {rest : Operations}
    (stops : Stops p.rightPrecedence ((op, name) :: rest)) : (Expr.binary p left right).StandsLeft op := by
  intro q root
  cases root
  have loose : op.precedence < p.rightPrecedence := stops op name rest rfl
  unfold BinaryOp.rightPrecedence at loose
  split at loose
  next exp =>
    subst exp
    rw [if_neg (by rintro rfl; exact Nat.lt_irrefl _ loose)]
    exact Nat.le_of_lt loose
  next other =>
    have notExp : op ≠ .exp := by
      rintro rfl
      exact other (BinaryOp.eq_exp_of_le (Nat.le_of_lt_succ loose))
    rw [if_neg notExp]
    exact Nat.le_of_lt_succ loose

/-- A finished operand may stand to the right of its operator. -/
theorem standsRight_of_tight {op : BinaryOp} {right : Expr}
    (tight : ∀ q, right.rootOp? = some q → op.rightPrecedence ≤ q.precedence) : right.StandsRight op := by
  intro q root
  have tight := tight q root
  unfold BinaryOp.rightPrecedence at tight
  split at tight
  · rwa [if_pos ‹_›]
  · rw [if_neg ‹_›]
    exact tight

theorem binaryTurn_eof {left : Expr} {loosest : Nat} (faces : c.Faces (.eof :: ks)) :
    binaryTurn lower loosest left c = .ok (.done left) c := by
  have atEnd : binaryOp? (!c.noIn) c.current.kind = none := by
    rw [faces.current]
    rfl
  unfold binaryTurn
  rw [run_get, atEnd]
  rfl

theorem binaryTurn_token {op : BinaryOp} {left : Expr} {loosest : Nat} (faces : c.Faces (op.token :: ks)) :
    binaryTurn lower loosest left c =
      if op.precedence < loosest then .ok (.done left) c
      else (lower.operand op.rightPrecedence >>= fun right => pure (Turn.again (.binary op left right))) c.advance := by
  have operator : binaryOp? (!c.noIn) c.current.kind = some op := by
    rw [faces.free, faces.current]
    exact binaryOp?_token op
  unfold binaryTurn
  rw [run_get, operator]
  dsimp only
  split <;> rfl

/-- The operands below join what they read. -/
def Level.JoinsOperands (lower : Level) : Prop :=
  ∀ {loosest : Nat} {c c' : Cursor} {a : String} {operations : Operations} {e : Expr},
    c.Faces (.identifier a :: (operations.kinds ++ [.eof])) → Ordinary a → (∀ o ∈ operations, Ordinary o.2) →
      lower.operand loosest c = .ok e c' → Joins [.identifier a] loosest operations e c'

theorem exists_of_run {x : Parse α} {f : α → Parse β} {y : β} (run : (x >>= f) c = .ok y c') :
    ∃ a c'', x c = .ok a c'' ∧ f a c'' = .ok y c' := by
  change EStateM.bind x f c = .ok y c' at run
  unfold EStateM.bind at run
  cases first : x c with
  | ok a c'' =>
    rw [first] at run
    exact ⟨a, c'', rfl, run⟩
  | error issue c'' =>
    rw [first] at run
    cases run

/-- By induction on the turns left. An operator that binds too loosely ends the loop; any other is joined to the left
operand, which has all that stands before it. -/
theorem iterate_joins (operands : lower.JoinsOperands) {loosest fuel : Nat} {left e : Expr} {operations : Operations}
    (climbed : left.Climbed) (tight : ∀ q, left.rootOp? = some q → loosest ≤ q.precedence)
    (stands : ∀ op name rest, operations = (op, name) :: rest → left.StandsLeft op)
    (ordinary : ∀ o ∈ operations, Ordinary o.2) (faces : c.Faces (operations.kinds ++ [.eof]))
    (run : iterate (binaryTurn lower loosest) fuel left c = .ok e c') : Joins left.inOrder loosest operations e c' := by
  induction fuel generalizing left c operations with
  | zero => cases run
  | succ fuel ih =>
    obtain ⟨turn, c'', first, goesOn⟩ := exists_of_run run
    -- what the loop ends with where it stops
    have ended : turn = .done left → c'' = c → Stops loosest operations →
        Joins left.inOrder loosest operations e c' := by
      rintro rfl rfl stops
      cases goesOn
      exact ⟨[], operations, rfl, (List.append_nil _).symm, climbed, tight, faces, stops⟩
    rcases operations with _ | ⟨⟨op, name⟩, operations⟩
    · cases (binaryTurn_eof faces).symm.trans first
      exact ended rfl rfl nofun
    have token : binaryTurn lower loosest left c = _ := binaryTurn_token faces
    rw [first] at token
    split at token
    next loose =>
      cases token
      refine ended rfl rfl fun op' name' rest' same => ?_
      cases same
      exact loose
    next tightEnough =>
      -- the operand takes what binds more tightly; all that is joined so far stands to the left of what it leaves
      obtain ⟨right, c₁, operand, again⟩ := exists_of_run token.symm
      cases again
      obtain ⟨ordinaryName, ordinary⟩ := List.forall_mem_cons.1 ordinary
      obtain ⟨taken, rest, rfl, inOrder, climbedRight, tightRight, faces, stops⟩ :=
        operands faces.advance ordinaryName ordinary operand
      have joined : Joins (Expr.binary op left right).inOrder loosest rest e c' := by
        refine ih ?_ ?_ ?_ (fun o mem => ordinary o (List.mem_append_right _ mem)) faces goesOn
        · exact .binary climbed climbedRight (stands op name _ rfl) (standsRight_of_tight tightRight)
        · intro q root
          cases root
          exact Nat.le_of_not_lt tightEnough
        · rintro op' name' rest' rfl
          exact standsLeft_of_stops stops
      obtain ⟨taken', rest', rfl, inOrder', climbed', tight', faces', stops'⟩ := joined
      refine ⟨(op, name) :: (taken ++ taken'), rest', by simp, ?_, climbed', tight', faces', stops'⟩
      rw [inOrder', Expr.inOrder_binary, inOrder]
      simp [Operations.kinds]

theorem ends_of_operations (operations : Operations) :
    ∃ k ks, operations.kinds ++ [.eof] = k :: ks ∧ EndsOperand k := by
  rcases operations with _ | ⟨⟨op, name⟩, rest⟩
  · exact ⟨.eof, [], rfl, .inl rfl⟩
  · exact ⟨op.token, _, rfl, .inr ⟨op, rfl⟩⟩

/-- What is read from a name on is joined by precedence, up to an operator that binds too loosely. -/
theorem binary_joins (n : Nat) {loosest : Nat} {operations : Operations} {e : Expr}
    (faces : c.Faces (.identifier a :: (operations.kinds ++ [.eof]))) (ordinaryName : Ordinary a)
    (ordinary : ∀ o ∈ operations, Ordinary o.2) (run : binary (level n) loosest c = .ok e c') :
    Joins [.identifier a] loosest operations e c' := by
  induction n generalizing loosest c c' a operations e with
  | zero => cases run
  | succ n ih =>
    have operands : (level (n + 1)).JoinsOperands := fun faces ordinaryName ordinary run =>
      ih faces ordinaryName ordinary run
    obtain ⟨k, ks, next, ends⟩ := ends_of_operations operations
    have first : (level (n + 1)).unary c = .ok (.name a) c.advance := by
      rw [← nameExpr_of_ordinary ordinaryName]
      exact unary_name (next ▸ faces) ends
    have moved : c.advance.Faces (operations.kinds ++ [.eof]) := by
      rw [next] at faces ⊢
      exact faces.advance
    have loop : repeatFrom (.name a) (binaryTurn (level (n + 1)) loosest) c.advance = .ok e c' :=
      (run_ok first _).symm.trans run
    exact iterate_joins operands (.name a) nofun (fun _ _ _ _ => nofun) ordinary moved loop

/-! ## Whole sources -/

/-- The tokens of a name and the operations after it. -/
def chainKinds (first : String) (operations : Operations) : List TokenKind :=
  .identifier first :: operations.kinds

theorem eq_nil_of_stops {operations : Operations} (stops : Stops 1 operations) : operations = [] := by
  rcases operations with _ | ⟨⟨op, name⟩, rest⟩
  · rfl
  · have loose := stops op name rest rfl
    cases op <;> cases loose <;> contradiction

/-- A name before an operator, or at the end, is no parameter. -/
theorem arrowAhead_name (faces : c.Faces (.identifier a :: k :: ks)) (ends : EndsOperand k) :
    arrowAhead c.rest = false := by
  obtain ⟨t, rest, ahead, here, more⟩ := List.map_eq_cons_iff.1 faces.kinds
  obtain ⟨t', rest', ahead', next, -⟩ := List.map_eq_cons_iff.1 more
  subst ahead'
  rw [ahead, arrowAhead, here]
  dsimp only
  rw [next]
  rcases ends with rfl | ⟨op, rfl⟩
  · rfl
  · cases op <;> rfl

theorem checkPunct_eof (faces : c.Faces (.eof :: ks)) (p : Punct) : checkPunct p c = .ok false c := by
  show EStateM.Result.ok (c.current.kind.isPunct p) c = _
  rw [faces.current]
  rfl

theorem eatPunct_eof (faces : c.Faces (.eof :: ks)) (p : Punct) : eatPunct p c = .ok false c :=
  run_ok (checkPunct_eof faces p) _

/-- All that follows a name up to the end is joined. -/
def Whole (a : String) (operations : Operations) (e : Expr) (c : Cursor) : Prop :=
  e.Climbed ∧ e.inOrder = chainKinds a operations ∧ c.Faces [.eof]

section Whole

variable {operations : Operations} {e : Expr} (faces : c.Faces (chainKinds a operations ++ [.eof]))
  (ordinaryName : Ordinary a) (ordinary : ∀ o ∈ operations, Ordinary o.2)

include faces ordinaryName ordinary

theorem conditional_whole (n : Nat) (run : conditional (level n) c = .ok e c') : Whole a operations e c' := by
  obtain ⟨test, c₁, joined, rest⟩ := exists_of_run run
  obtain ⟨taken, left, rfl, inOrder, climbed, -, ended, stops⟩ := binary_joins n faces ordinaryName ordinary joined
  cases eq_nil_of_stops stops
  cases (run_ok (eatPunct_eof ended _) _).symm.trans rest
  exact ⟨climbed, inOrder.trans (by rw [List.append_nil]; rfl), ended⟩

theorem assignment_whole (n : Nat) (run : assignment (level n) c = .ok e c') : Whole a operations e c' := by
  obtain ⟨k, ks, next, ends⟩ := ends_of_operations operations
  have noArrow : arrowAhead c.rest = false := by
    rw [chainKinds, List.cons_append, next] at faces
    exact arrowAhead_name faces ends
  change (if arrowAhead c.rest = true then _ else _ : Parse Expr) c = .ok e c' at run
  rw [noArrow, if_neg Bool.false_ne_true] at run
  obtain ⟨target, c₁, read, rest⟩ := exists_of_run run
  have whole := conditional_whole faces ordinaryName ordinary n read
  rw [run_kind, whole.2.2.current] at rest
  cases rest
  exact whole

theorem completeExpression_whole (n : Nat) (run : completeExpression (level (n + 1)) c = .ok e c') :
    Whole a operations e c' := by
  obtain ⟨e₁, c₁, read, rest⟩ := exists_of_run run
  obtain ⟨e₂, c₂, assigned, goesOn⟩ := exists_of_run read
  have whole : Whole a operations e₂ c₂ := assignment_whole faces ordinaryName ordinary n assigned
  cases (run_ok (checkPunct_eof whole.2.2 _) _).symm.trans goesOn
  have ended : atEof c₁ = .ok true c₁ := by
    show EStateM.Result.ok c₁.current.kind.isEof c₁ = _
    rw [whole.2.2.current]
    rfl
  cases (run_ok ended _).symm.trans rest
  exact whole

end Whole

end Parser

open BindScript.Parser

/-- **Binary operators are joined by their precedence.** Take a source whose tokens are names and binary operators in
turn, and that is accepted. The tree, read from left to right, is the sequence of the source, in every node the operands
stand as the precedence of the operator says, and there is no other such tree. -/
theorem parsed_climbed {source : String} {tokens : List Token} {first : String} {operations : Operations} {tree : Expr}
    (tokenized : tokenize source = .ok tokens)
    (kinds : tokens.map Token.kind = chainKinds first operations ++ [.eof]) (ordinaryFirst : Ordinary first)
    (ordinary : ∀ o ∈ operations, Ordinary o.2) (read : parseExpr source = .ok tree) :
    tree.inOrder = chainKinds first operations ∧ tree.Climbed ∧
      ∀ other : Expr, other.Climbed → other.inOrder = chainKinds first operations → other = tree := by
  have faces : (Cursor.ofTokens tokens).Faces (chainKinds first operations ++ [.eof]) := ⟨kinds, rfl⟩
  obtain ⟨c', run⟩ : ∃ c', completeExpression (level maxNesting) (.ofTokens tokens) = .ok tree c' := by
    unfold parseExpr runOn at read
    rw [tokenized] at read
    dsimp only at read
    split at read
    next e c' run =>
      cases read
      exact ⟨c', run⟩
    next => cases read
  obtain ⟨climbed, inOrder, -⟩ := completeExpression_whole faces ordinaryFirst ordinary 159 run
  exact ⟨inOrder, climbed, fun other climbed' inOrder' => climbed'.unique climbed (inOrder'.trans inOrder.symm)⟩

/-- `** b ** c - d` -/
def powers : Operations :=
  [(.exp, "b"), (.exp, "c"), (.sub, "d")]

set_option maxRecDepth 100000 in
/-- `a ** b ** c - d` is `(a ** (b ** c)) - d` in any reading. -/
theorem powers_climbed :
    ∃ tokens tree, tokenize "a ** b ** c - d" = .ok tokens ∧
      tokens.map Token.kind = chainKinds "a" powers ++ [.eof] ∧ Ordinary "a" ∧ (∀ o ∈ powers, Ordinary o.2) ∧
      parseExpr "a ** b ** c - d" = .ok tree ∧ tree.Climbed ∧
      ∀ other : Expr, other.Climbed → other.inOrder = chainKinds "a" powers → other =
        .binary .sub (.binary .exp (.name "a") (.binary .exp (.name "b") (.name "c"))) (.name "d") := by
  have ordinary : ∀ o ∈ powers, Ordinary o.2 := by
    unfold Ordinary powers
    decide
  have ordinaryFirst : Ordinary "a" := by
    unfold Ordinary
    decide
  obtain ⟨tokens, tokenized, kinds⟩ : ∃ tokens, tokenize "a ** b ** c - d" = .ok tokens ∧
      tokens.map Token.kind = chainKinds "a" powers ++ [.eof] := ⟨_, rfl, rfl⟩
  have read : parseExpr "a ** b ** c - d" = .ok _ := rfl
  obtain ⟨-, climbed, unique⟩ := parsed_climbed tokenized kinds ordinaryFirst ordinary read
  exact ⟨tokens, _, tokenized, kinds, ordinaryFirst, ordinary, read, climbed, unique⟩

end BindScript
