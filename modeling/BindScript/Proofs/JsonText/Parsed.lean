import BindScript.Parser
import BindScript.Proofs.JsonText.Shown

/-!
# The expression of JSON text

The tokens of a tree are read as an expression of literals of the same shape (`assignment_reads`). Parsers are
followed by the kinds of the tokens ahead (`Reads`), since neither the places of tokens nor line breaks matter
to these constructs. Every container takes two levels of nesting, and a literal takes two more.
-/

namespace BindScript

open JsonText

namespace JsonText.Tree

mutual

/-- The expression that the tree is read as. -/
def expr : Tree → Expr
  | null => .literal .null
  | bool b => .literal (.bool b)
  | string s => .literal (.string s)
  | array items => .array (exprs items)
  | object members => .object (properties members)

/-- The expressions of items. -/
def exprs : List Tree → List Expr
  | [] => []
  | t :: more => t.expr :: exprs more

/-- The properties of members. -/
def properties : List (String × Tree) → List Property
  | [] => []
  | (key, t) :: more => .named key t.expr :: properties more

end

theorem exprs_eq_map (items : List Tree) : exprs items = items.map expr := by
  induction items with
  | nil => rfl
  | cons t more ih => rw [exprs, ih, List.map_cons]

theorem properties_eq_map (members : List (String × Tree)) :
    properties members = members.map fun member => .named member.1 member.2.expr := by
  induction members with
  | nil => rfl
  | cons member more ih => rw [properties, ih, List.map_cons]

/-- At most the given number of containers stand inside each other. -/
def Nests : Nat → Tree → Prop
  | _, null => True
  | _, bool _ => True
  | _, string _ => True
  | n + 1, array items => ∀ t ∈ items, Nests n t
  | n + 1, object members => ∀ member ∈ members, Nests n member.2
  | _, _ => False

theorem length_le_itemKinds (items : List Tree) : items.length ≤ (itemKinds items).length := by
  induction items with
  | nil => exact Nat.zero_le _
  | cons t more ih =>
    simp only [itemKinds, List.length_cons, List.length_append]
    omega

theorem length_le_memberKinds (members : List (String × Tree)) :
    members.length ≤ (memberKinds members).length := by
  induction members with
  | nil => exact Nat.zero_le _
  | cons member more ih =>
    simp only [memberKinds, List.length_cons, List.length_append]
    omega

end JsonText.Tree

namespace Parser

variable {α β : Type}

/-- Where tokens of the first kinds are ahead, the parser gives the result, and tokens of the second kinds are
ahead afterwards. -/
def ReadsKinds (p : Parse α) (before : List TokenKind) (a : α) (after : List TokenKind) : Prop :=
  ∀ c : Cursor, c.rest.map (·.kind) = before →
    ∃ c', p c = .ok a c' ∧ c'.rest.map (·.kind) = after

namespace ReadsKinds

variable {p : Parse α} {f : α → Parse β} {a : α} {b : β} {ks ks' ks'' : List TokenKind} {k k' : TokenKind}

theorem pure : ReadsKinds (Pure.pure a) ks a ks :=
  fun c ahead => ⟨c, rfl, ahead⟩

theorem bind (first : ReadsKinds p ks a ks') (next : ReadsKinds (f a) ks' b ks'') :
    ReadsKinds (p >>= f) ks b ks'' := by
  intro c ahead
  obtain ⟨c', run, ahead'⟩ := first c ahead
  obtain ⟨c'', run', ahead''⟩ := next c' ahead'
  refine ⟨c'', ?_, ahead''⟩
  show EStateM.bind p f c = _
  simp only [EStateM.bind, run, run']

theorem get_bind {f : Cursor → Parse β}
    (next : ∀ c : Cursor, c.rest.map (·.kind) = ks → ReadsKinds (f c) ks b ks') :
    ReadsKinds (MonadState.get >>= f) ks b ks' :=
  fun c ahead => next c ahead c ahead

theorem allowingIn (reads : ReadsKinds p ks a ks') : ReadsKinds (Parser.allowingIn p) ks a ks' := by
  intro c ahead
  obtain ⟨c', run, ahead'⟩ := reads { c with noIn := false } ahead
  refine ⟨{ c' with noIn := c.noIn }, ?_, ahead'⟩
  unfold Parser.allowingIn
  rw [run]

/-! ### Tokens -/

theorem current_kind {c : Cursor} (ahead : c.rest.map (·.kind) = k :: ks) : c.current.kind = k := by
  unfold Cursor.current
  cases rest : c.rest with
  | nil =>
    rw [rest] at ahead
    cases ahead
  | cons t ts =>
    rw [rest] at ahead
    exact (List.cons.inj ahead).1

theorem kind : ReadsKinds Parser.kind (k :: ks) k (k :: ks) :=
  fun c ahead => ⟨c, by rw [← current_kind ahead]; rfl, ahead⟩

theorem position_bind {f : Position → Parse β} (next : ∀ place, ReadsKinds (f place) ks b ks') :
    ReadsKinds (Parser.position >>= f) ks b ks' :=
  fun c ahead => next c.current.start c ahead

theorem advance : ReadsKinds Parser.advance (k :: k' :: ks) () (k' :: ks) := by
  intro c ahead
  refine ⟨c.advance, rfl, ?_⟩
  unfold Cursor.advance
  split
  · next rest =>
    rw [rest] at ahead
    exact (List.cons.inj ahead).2
  · next none =>
    rw [none] at ahead
    cases ahead

theorem checkPunct (mark : Punct) : ReadsKinds (Parser.checkPunct mark) (k :: ks) (k.isPunct mark) (k :: ks) :=
  bind kind pure

theorem atEof : ReadsKinds Parser.atEof (k :: ks) k.isEof (k :: ks) :=
  bind kind pure

theorem eatPunct_self (mark : Punct) :
    ReadsKinds (Parser.eatPunct mark) (.punct mark :: k :: ks) true (k :: ks) := by
  refine bind (checkPunct mark) ?_
  have same : (TokenKind.punct mark).isPunct mark = true := beq_self_eq_true mark
  rw [same, if_pos rfl]
  exact bind advance pure

theorem eatPunct_other {mark : Punct} (other : k.isPunct mark = false) :
    ReadsKinds (Parser.eatPunct mark) (k :: ks) false (k :: ks) := by
  refine bind (checkPunct mark) ?_
  rw [other, if_neg Bool.false_ne_true]
  exact pure

theorem expectPunct (mark : Punct) (cause : ParseCause) :
    ReadsKinds (Parser.expectPunct mark cause) (.punct mark :: k :: ks) () (k :: ks) :=
  bind (eatPunct_self mark) pure

/-! ### Loops -/

theorem iterate_done {turn : α → Parse (Turn α β)} (last : ReadsKinds (turn a) ks (.done b) ks') (n : Nat) :
    ReadsKinds (iterate turn (n + 1) a) ks b ks' := by
  unfold iterate
  exact bind last pure

theorem iterate_again {turn : α → Parse (Turn α β)} {a' : α} {n : Nat}
    (one : ReadsKinds (turn a) ks (.again a') ks') (others : ReadsKinds (iterate turn n a') ks' b ks'') :
    ReadsKinds (iterate turn (n + 1) a) ks b ks'' := by
  unfold iterate
  exact bind one others

theorem repeatFrom {turn : α → Parse (Turn α β)} (turns : ReadsKinds (iterate turn (ks.length + 1) a) ks b ks') :
    ReadsKinds (Parser.repeatFrom a turn) ks b ks' := by
  intro c ahead
  have length : c.rest.length = ks.length := by rw [← ahead, List.length_map]
  have run : Parser.repeatFrom a turn c = iterate turn (ks.length + 1) a c := by
    rw [← length]
    rfl
  rw [run]
  exact turns c ahead

end ReadsKinds

/-! ## Operands -/

/-- The kinds of tokens that a literal or a container begins with. -/
def Opens : TokenKind → Prop
  | .keyword .null | .keyword .true | .keyword .false | .string _ | .punct .openBracket
  | .punct .openBrace => True
  | _ => False

/-- The kinds of tokens that may follow an item of a container, or a whole tree. -/
def Follows : TokenKind → Prop
  | .punct .comma | .punct .closeBracket | .punct .closeBrace | .eof => True
  | _ => False

/-- What a token that follows an item is not. -/
theorem Follows.apart {k : TokenKind} (follows : Follows k) :
    updateOp? k = none ∧ assignOp? k = none ∧ (∀ allowIn, binaryOp? allowIn k = none) ∧
      k.isPunct .question = false := by
  unfold Follows at follows
  split at follows
  case h_5 => exact follows.elim
  all_goals exact ⟨rfl, rfl, fun _ => rfl, rfl⟩

/-- What the first token of an item is not. -/
theorem Opens.apart {k : TokenKind} (opens : Opens k) :
    unaryOp? k = none ∧ updateOp? k = none ∧ k.isPunct .closeBracket = false ∧ k.isPunct .comma = false ∧
      k.isPunct .ellipsis = false ∧ k.isPunct .closeBrace = false := by
  unfold Opens at opens
  split at opens
  case h_7 => exact opens.elim
  all_goals exact ⟨rfl, rfl, rfl, rfl, rfl, rfl⟩

namespace ReadsKinds

variable {k k' : TokenKind} {ks ks' : List TokenKind} {e : Expr}

/-- No arrow function begins with an item. -/
theorem arrowAhead_of_opens (opens : Opens k) {tokens : List Token} (ahead : tokens.map (·.kind) = k :: ks) :
    arrowAhead tokens = false := by
  cases tokens with
  | nil => cases ahead
  | cons t ts =>
    obtain ⟨same, -⟩ := List.cons.inj ahead
    rw [← same] at opens
    unfold arrowAhead
    dsimp only at opens ⊢
    split
    · next name =>
      rw [name] at opens
      exact opens.elim
    · next paren =>
      rw [paren] at opens
      exact opens.elim
    · rfl

/-- A chain that no operator follows is a whole expression. -/
theorem assignment_of_chain (m : Nat) (opens : Opens k) (follows : Follows k')
    (chain : ReadsKinds (callChain (level m)) (k :: ks) e (k' :: ks')) :
    ReadsKinds (level (m + 2)).assignment (k :: ks) e (k' :: ks') := by
  obtain ⟨noUpdate, noAssign, noBinary, noQuestion⟩ := follows.apart
  have operand : ReadsKinds (level (m + 1)).unary (k :: ks) e (k' :: ks') := by
    show ReadsKinds (unary (level m)) _ _ _
    refine bind kind ?_
    rw [opens.apart.1]
    dsimp only
    rw [opens.apart.2.1]
    refine position_bind fun place => bind chain (get_bind fun c ahead => ?_)
    dsimp only
    rw [current_kind ahead, noUpdate]
    split
    · exact pure
    · exact pure
  have joined : ReadsKinds (binary (level (m + 1)) 1) (k :: ks) e (k' :: ks') := by
    refine bind operand (repeatFrom (iterate_done ?_ _))
    unfold binaryTurn
    refine get_bind fun c ahead => ?_
    rw [current_kind ahead, noBinary]
    exact pure
  have conditional : ReadsKinds (conditional (level (m + 1))) (k :: ks) e (k' :: ks') := by
    refine bind joined (bind (eatPunct_other noQuestion) ?_)
    exact pure
  show ReadsKinds (assignment (level (m + 1))) _ _ _
  unfold assignment
  refine get_bind fun c ahead => ?_
  rw [arrowAhead_of_opens opens ahead, if_neg Bool.false_ne_true]
  refine bind conditional (bind kind ?_)
  rw [noAssign]
  exact pure

/-- An operand that no operator or link follows is a whole expression. -/
theorem assignment_of_primary (m : Nat) (opens : Opens k) (follows : Follows k')
    (reads : ReadsKinds (primary (level m)) (k :: ks) e (k' :: ks')) :
    ReadsKinds (level (m + 2)).assignment (k :: ks) e (k' :: ks') := by
  refine assignment_of_chain m opens follows (bind reads (repeatFrom (iterate_done ?_ _)))
  unfold chainTurn
  refine bind kind ?_
  unfold Follows at follows
  split at follows
  case h_5 => exact follows.elim
  all_goals exact pure

/-! ## Trees -/

/-- The first token of a tree tells that a value begins. -/
theorem opens_kinds (t : Tree) : ∃ k ks, t.kinds = k :: ks ∧ Opens k := by
  cases t with
  | null => exact ⟨_, _, rfl, trivial⟩
  | bool b => cases b <;> exact ⟨_, _, rfl, trivial⟩
  | string s => exact ⟨_, _, rfl, trivial⟩
  | array items =>
    cases items with
    | nil => exact ⟨_, _, rfl, trivial⟩
    | cons t more => exact ⟨.punct .openBracket, _, by rw [Tree.kinds], trivial⟩
  | object members =>
    cases members with
    | nil => exact ⟨_, _, rfl, trivial⟩
    | cons member more => exact ⟨.punct .openBrace, _, by rw [Tree.kinds], trivial⟩

/-- The parser reads the tree wherever something follows that may follow an item. -/
def ReadsTree (lower : Level) (t : Tree) : Prop :=
  ∀ k ks, Follows k → ReadsKinds lower.assignment (t.kinds ++ k :: ks) t.expr (k :: ks)

/-- The items from one on, up to and past the closing bracket. -/
theorem items_read {lower : Level} : ∀ (t : Tree) (more : List Tree) (found : List Expr) (n : Nat),
    more.length < n → (∀ t' ∈ t :: more, ReadsTree lower t') →
    ReadsKinds (iterate (arrayTurn lower) n found) (t.kinds ++ (Tree.itemKinds more ++ k' :: ks'))
      (.array (found.reverse ++ (t.expr :: Tree.exprs more))) (k' :: ks') := by
  intro t more
  induction more generalizing t with
  | nil =>
    intro found n enough each
    obtain ⟨n, rfl⟩ := Nat.exists_eq_add_one.2 (Nat.zero_lt_of_lt enough)
    refine iterate_done ?_ n
    obtain ⟨k, ks, starts, opens⟩ := opens_kinds t
    obtain ⟨-, -, noClose, noComma, noEllipsis, -⟩ := opens.apart
    have item := each t (List.mem_cons_self ..) (.punct .closeBracket) (k' :: ks') trivial
    rw [Tree.itemKinds, List.singleton_append]
    rw [starts] at item ⊢
    rw [List.cons_append] at item ⊢
    unfold arrayTurn
    refine bind (eatPunct_other noClose) (bind (eatPunct_other noComma) ?_)
    refine bind (bind (eatPunct_other noEllipsis) item) ?_
    refine bind (eatPunct_other rfl) (bind (expectPunct _ _) ?_)
    rw [List.reverse_cons, Tree.exprs]
    exact pure
  | cons t' more ih =>
    intro found n enough each
    obtain ⟨n, rfl⟩ := Nat.exists_eq_add_one.2 (Nat.zero_lt_of_lt enough)
    obtain ⟨k, ks, starts, opens⟩ := opens_kinds t
    obtain ⟨-, -, noClose, noComma, noEllipsis, -⟩ := opens.apart
    obtain ⟨k₂, ks₂, starts₂, -⟩ := opens_kinds t'
    have item := each t (List.mem_cons_self ..) (.punct .comma) 
      (t'.kinds ++ (Tree.itemKinds more ++ k' :: ks')) trivial
    have others := ih t' (t.expr :: found) n (Nat.lt_of_succ_lt_succ enough)
      fun t'' mem => each t'' (List.mem_cons_of_mem _ mem)
    have kinds : Tree.itemKinds (t' :: more) ++ k' :: ks' =
        .punct .comma :: (t'.kinds ++ (Tree.itemKinds more ++ k' :: ks')) := by
      simp [Tree.itemKinds]
    have exprs : found.reverse ++ t.expr :: Tree.exprs (t' :: more) =
        (t.expr :: found).reverse ++ t'.expr :: Tree.exprs more := by
      simp [Tree.exprs]
    rw [kinds, exprs]
    refine iterate_again ?_ others
    rw [starts₂] at item ⊢
    rw [starts] at item ⊢
    rw [List.cons_append] at item ⊢
    unfold arrayTurn
    refine bind (eatPunct_other noClose) (bind (eatPunct_other noComma) ?_)
    refine bind (bind (eatPunct_other noEllipsis) item) ?_
    exact bind (eatPunct_self _) pure

/-- A member is read from its key on. -/
theorem property_reads {lower : Level} {key : String} {t : Tree} (tree : ReadsTree lower t) (follows : Follows k') :
    ReadsKinds (property lower) (.string key :: .punct .colon :: (t.kinds ++ k' :: ks'))
      (.named key t.expr) (k' :: ks') := by
  have item := tree k' ks' follows
  obtain ⟨k, ks, starts, -⟩ := opens_kinds t
  rw [starts, List.cons_append] at item ⊢
  unfold property
  refine bind (eatPunct_other rfl) (bind (eatPunct_other rfl) (bind kind ?_))
  refine bind advance (bind (eatPunct_self _) ?_)
  exact bind item pure

/-- The members from one on, up to the closing brace. -/
theorem members_read {lower : Level} : ∀ (member : String × Tree) (more : List (String × Tree))
    (found : List Property) (n : Nat), more.length < n → (∀ m ∈ member :: more, ReadsTree lower m.2) →
    ReadsKinds (iterate (propertyTurn lower) n found)
      (Tree.memberKind member ++ (Tree.memberKinds more ++ k' :: ks'))
      (found.reverse ++ Tree.properties (member :: more)) (.punct .closeBrace :: k' :: ks') := by
  intro member more
  induction more generalizing member with
  | nil =>
    intro found n enough each
    obtain ⟨n, rfl⟩ := Nat.exists_eq_add_one.2 (Nat.zero_lt_of_lt enough)
    refine iterate_done ?_ n
    obtain ⟨key, t⟩ := member
    have one :
        ReadsKinds (property lower) (.string key :: .punct .colon :: (t.kinds ++ .punct .closeBrace :: k' :: ks'))
          (.named key t.expr) (.punct .closeBrace :: k' :: ks') :=
      property_reads (each (key, t) (List.mem_cons_self ..)) trivial
    unfold propertyTurn
    refine bind (checkPunct _) (bind one (bind (eatPunct_other rfl) ?_))
    rw [List.reverse_cons]
    exact pure
  | cons next more ih =>
    intro found n enough each
    obtain ⟨n, rfl⟩ := Nat.exists_eq_add_one.2 (Nat.zero_lt_of_lt enough)
    obtain ⟨key, t⟩ := member
    have one : ReadsKinds (property lower)
        (.string key :: .punct .colon ::
          (t.kinds ++ .punct .comma :: (Tree.memberKind next ++ (Tree.memberKinds more ++ k' :: ks'))))
        (.named key t.expr) (.punct .comma :: (Tree.memberKind next ++ (Tree.memberKinds more ++ k' :: ks'))) :=
      property_reads (each (key, t) (List.mem_cons_self ..)) trivial
    have others := ih next (.named key t.expr :: found) n (Nat.lt_of_succ_lt_succ enough)
      fun m mem => each m (List.mem_cons_of_mem _ mem)
    have kinds : Tree.memberKind (key, t) ++ (Tree.memberKinds (next :: more) ++ k' :: ks') =
        .string key :: .punct .colon :: (t.kinds ++
          .punct .comma :: (Tree.memberKind next ++ (Tree.memberKinds more ++ k' :: ks'))) := by
      simp [Tree.memberKind, Tree.memberKinds]
    have properties : found.reverse ++ Tree.properties ((key, t) :: next :: more) =
        (.named key t.expr :: found).reverse ++ Tree.properties (next :: more) := by
      simp [Tree.properties]
    rw [kinds, properties]
    refine iterate_again ?_ others
    unfold propertyTurn
    refine bind (checkPunct _) (bind one ?_)
    exact bind (eatPunct_self _) pure

/-- A tree is read as its expression if there are two levels for each of its containers, and two more. -/
theorem tree_reads {n : Nat} : ∀ {t : Tree}, t.Nests n → ∀ {m : Nat}, 2 * n ≤ m → ReadsTree (level (m + 2)) t := by
  induction n using Nat.strongRecOn with
  | ind n ih =>
  intro t nests m enough k ks follows
  have literal : ∀ {first : TokenKind} {e : Expr}, Opens first →
      ReadsKinds (primary (level m)) (first :: k :: ks) e (k :: ks) →
      ReadsKinds (level (m + 2)).assignment (first :: k :: ks) e (k :: ks) :=
    fun opens reads => assignment_of_primary m opens follows reads
  cases t with
  | null => exact literal trivial (bind kind (bind advance pure))
  | bool b => cases b <;> exact literal trivial (bind kind (bind advance pure))
  | string s => exact literal trivial (bind kind (bind advance pure))
  | array items =>
    cases items with
    | nil =>
      refine assignment_of_primary m trivial follows (bind kind (bind advance (allowingIn (repeatFrom ?_))))
      refine iterate_done ?_ _
      exact bind (eatPunct_self _) pure
    | cons t more =>
      cases n with
      | zero => exact nests.elim
      | succ n =>
        obtain ⟨m, rfl⟩ : ∃ below, m = below + 2 := ⟨m - 2, by omega⟩
        have each : ∀ t' ∈ t :: more, ReadsTree (level (m + 2)) t' := fun t' mem =>
          ih n (Nat.lt_succ_self n) (nests t' mem) (by omega)
        have kinds : (Tree.array (t :: more)).kinds ++ k :: ks =
            .punct .openBracket :: (t.kinds ++ (Tree.itemKinds more ++ k :: ks)) := by
          simp [Tree.kinds]
        have turns : more.length < (t.kinds ++ (Tree.itemKinds more ++ k :: ks)).length + 1 := by
          have length := Tree.length_le_itemKinds more
          simp only [List.length_append, List.length_cons]
          omega
        have inside : ReadsKinds _ (t.kinds ++ (Tree.itemKinds more ++ k :: ks)) _ (k :: ks) :=
          items_read t more [] _ turns each
        obtain ⟨first, others, starts, opens⟩ := opens_kinds t
        rw [kinds]
        rw [starts, List.cons_append] at inside ⊢
        refine assignment_of_primary (m + 2) trivial follows (bind kind (bind advance ?_))
        exact allowingIn (repeatFrom inside)
  | object members =>
    cases members with
    | nil =>
      refine assignment_of_primary m trivial follows (bind kind (bind advance (allowingIn ?_)))
      refine bind (repeatFrom (iterate_done (b := []) ?_ _)) (bind (expectPunct _ _) pure)
      exact bind (checkPunct _) pure
    | cons member more =>
      cases n with
      | zero => exact nests.elim
      | succ n =>
        obtain ⟨m, rfl⟩ : ∃ below, m = below + 2 := ⟨m - 2, by omega⟩
        have each : ∀ member' ∈ member :: more, ReadsTree (level (m + 2)) member'.2 := fun member' mem =>
          ih n (Nat.lt_succ_self n) (nests member' mem) (by omega)
        have kinds : (Tree.object (member :: more)).kinds ++ k :: ks =
            .punct .openBrace :: (Tree.memberKind member ++ (Tree.memberKinds more ++ k :: ks)) := by
          simp [Tree.kinds, Tree.memberKind]
        have turns : more.length < (Tree.memberKind member ++ (Tree.memberKinds more ++ k :: ks)).length + 1 := by
          have length := Tree.length_le_memberKinds more
          simp only [List.length_append, List.length_cons]
          omega
        have inside : ReadsKinds _ (Tree.memberKind member ++ (Tree.memberKinds more ++ k :: ks)) _
            (.punct .closeBrace :: k :: ks) := members_read member more [] _ turns each
        rw [kinds]
        refine assignment_of_primary (m + 2) trivial follows (bind kind (bind advance (allowingIn ?_)))
        exact bind (repeatFrom inside) (bind (expectPunct _ _) pure)

end ReadsKinds

end Parser

/-- A text whose tokens are read as an expression up to the end is accepted as this expression. -/
theorem parseExpr_of_kinds {text : String} {ks : List TokenKind} {e : Expr} (scans : Lexer.Scans text.toList ks)
    (reads : Parser.ReadsKinds (Parser.level Parser.maxNesting).assignment ks e [.eof]) :
    parseExpr text = .ok e := by
  obtain ⟨tokens, split, kinds⟩ := scans.tokenize
  have whole : Parser.ReadsKinds (Parser.completeExpression (Parser.level Parser.maxNesting)) ks e [.eof] :=
    .bind (.bind reads (.bind (.checkPunct _) .pure)) (.bind .atEof .pure)
  obtain ⟨c, run, -⟩ := whole (.ofTokens tokens) kinds
  unfold parseExpr Parser.runOn
  rw [split]
  dsimp only
  rw [run]

/-- A text that is split into the tokens of a tree is accepted as its expression, unless the tree takes more
levels than may be nested. -/
theorem parseExpr_of_scans {n : Nat} {t : Tree} (nests : t.Nests n) (enough : 2 * n + 2 ≤ Parser.maxNesting)
    {text : String} (scans : Lexer.Scans text.toList (t.kinds ++ [.eof])) : parseExpr text = .ok t.expr := by
  obtain ⟨m, levels⟩ : ∃ m, Parser.maxNesting = m + 2 := ⟨158, rfl⟩
  have tree := Parser.ReadsKinds.tree_reads nests (m := m) (by omega) .eof [] trivial
  exact parseExpr_of_kinds scans (levels ▸ tree)

end BindScript
