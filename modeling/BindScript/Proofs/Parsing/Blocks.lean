import Mathlib.Data.List.Nodup
import BindScript.Parser.Cursor
import BindScript.Proofs.Parsing.Rules

/-!
# What parsers do to the open blocks

A parser that declares nothing is `Calm`: it leaves the open blocks as they are, whether it succeeds or fails.
One that declares names in the innermost block is followed from that block (`From`): it leaves the blocks
around it as they are, and in the innermost one no name stands twice.
-/

namespace BindScript.Parser

variable {α β : Type}

/-- The parser leaves the open blocks as they are, and what it gives has the property. -/
def Calm (p : Parse α) (Q : α → Prop) : Prop :=
  ∀ c, match p c with
    | .ok a c' => c'.blocks = c.blocks ∧ Q a
    | .error _ c' => c'.blocks = c.blocks

/-- Where the innermost block has the given names, none of them twice, the parser gives something that has
the property together with the names that are there then; none is there twice either. The blocks around the
innermost one stay as they are. -/
def From (block : List String) (p : Parse α) (Q : α → List String → Prop) : Prop :=
  ∀ c outer, c.blocks = block :: outer → block.Nodup → match p c with
    | .ok a c' => ∃ block', c'.blocks = block' :: outer ∧ block'.Nodup ∧ Q a block'
    | .error _ c' => ∃ block', c'.blocks = block' :: outer

/-- What holds of the turn of a loop: one property if it is followed by another, one if it is the last. -/
def Turn.Holds (Q : α → Prop) (R : β → Prop) : Turn α β → Prop
  | .again a => Q a
  | .done b => R b

namespace Calm

variable {p : Parse α} {f : α → Parse β} {Q Q' : α → Prop} {R : β → Prop}

theorem imp (calm : Calm p Q) (h : ∀ a, Q a → Q' a) : Calm p Q' := by
  intro c
  have calm := calm c
  split at calm
  · exact ⟨calm.1, h _ calm.2⟩
  · exact calm

theorem pure {a : α} (h : Q a) : Calm (Pure.pure a) Q :=
  fun _ => ⟨rfl, h⟩

theorem bind (first : Calm p Q) (next : ∀ a, Q a → Calm (f a) R) : Calm (p >>= f) R := by
  intro c
  have first := first c
  show match EStateM.bind p f c with | .ok _ _ => _ | .error _ _ => _
  unfold EStateM.bind
  cases run : p c with
  | error issue c' =>
    rw [run] at first
    exact first
  | ok a c' =>
    rw [run] at first
    have later := next a first.2 c'
    dsimp only at first ⊢
    rw [← first.1]
    exact later

theorem throw (issue : ParseIssue) : Calm (MonadExcept.throw issue : Parse α) Q :=
  fun _ => rfl

theorem ite {condition : Prop} [Decidable condition] {q : Parse α} (yes : condition → Calm p Q)
    (no : ¬ condition → Calm q Q) : Calm (if condition then p else q) Q := by
  split
  · exact yes ‹_›
  · exact no ‹_›

theorem allowingIn (calm : Calm p Q) : Calm (Parser.allowingIn p) Q := by
  intro c
  have calm := calm { c with noIn := false }
  unfold Parser.allowingIn
  cases run : p { c with noIn := false } <;> (rw [run] at calm; exact calm)

theorem reservingIn (calm : Calm p Q) : Calm (Parser.reservingIn p) Q := by
  intro c
  have calm := calm { c with noIn := true }
  unfold Parser.reservingIn
  cases run : p { c with noIn := true } <;> (rw [run] at calm; exact calm)

/-- A loop keeps what each of its turns keeps. -/
theorem repeatFrom {turn : α → Parse (Turn α β)} {a : α} (start : Q a)
    (each : ∀ a, Q a → Calm (turn a) (Turn.Holds Q R)) :
    Calm (Parser.repeatFrom a turn) R := by
  have turns : ∀ n a, Q a → Calm (iterate turn n a) R := by
    intro n
    induction n with
    | zero => exact fun _ _ _ => rfl
    | succ n ih =>
      intro a holds
      unfold iterate
      refine bind (each a holds) fun t step => ?_
      cases t with
      | again a' => exact ih a' step
      | done b => exact pure step
  exact fun c => turns (c.rest.length + 1) a start c

/-! ### Tokens -/

theorem kind : Calm Parser.kind (fun _ => True) :=
  fun _ => ⟨rfl, trivial⟩

theorem position : Calm Parser.position (fun _ => True) :=
  fun _ => ⟨rfl, trivial⟩

theorem get : Calm (MonadState.get : Parse Cursor) (fun _ => True) :=
  fun _ => ⟨rfl, trivial⟩

theorem advance : Calm Parser.advance (fun _ => True) := by
  intro c
  have same : c.advance.blocks = c.blocks := by
    unfold Cursor.advance
    split <;> rfl
  exact ⟨same, trivial⟩

theorem fail (cause : ParseCause) : Calm (Parser.fail cause : Parse α) Q :=
  fun _ => rfl

/-- Nothing comes after a failure. -/
theorem fail_bind (cause : ParseCause) : Calm (Parser.fail cause >>= f) R :=
  bind (fail cause (Q := fun _ => False)) nofun

theorem failAt (cause : ParseCause) (place : Position) : Calm (Parser.failAt cause place : Parse α) Q :=
  fun _ => rfl

theorem unexpected : Calm (Parser.unexpected : Parse α) Q :=
  bind kind fun _ _ => ite (fun _ => fail _) fun _ => fail _

theorem atEof : Calm Parser.atEof (fun _ => True) :=
  bind kind fun _ _ => pure trivial

theorem checkPunct (mark : Punct) : Calm (Parser.checkPunct mark) (fun _ => True) :=
  bind kind fun _ _ => pure trivial

theorem checkKeyword (word : Keyword) : Calm (Parser.checkKeyword word) (fun _ => True) :=
  bind kind fun _ _ => pure trivial

theorem eatPunct (mark : Punct) : Calm (Parser.eatPunct mark) (fun _ => True) :=
  bind (checkPunct mark) fun _ _ => ite (fun _ => bind advance fun _ _ => pure trivial) fun _ => pure trivial

theorem eatKeyword (word : Keyword) : Calm (Parser.eatKeyword word) (fun _ => True) :=
  bind (checkKeyword word) fun _ _ =>
    ite (fun _ => bind advance fun _ _ => pure trivial) fun _ => pure trivial

theorem expectPunct (mark : Punct) (cause : ParseCause) :
    Calm (Parser.expectPunct mark cause) (fun _ => True) :=
  bind (eatPunct mark) fun _ _ => ite (fun _ => pure trivial) fun _ => fail cause

theorem expectIdentifier : Calm Parser.expectIdentifier (fun _ => True) := by
  refine bind kind fun k _ => ?_
  cases k with
  | identifier name => exact bind advance fun _ _ => pure trivial
  | _ => exact fail _

theorem endStatement : Calm Parser.endStatement (fun _ => True) := by
  refine bind (eatPunct _) fun _ _ => ite (fun _ => pure trivial) fun _ => ?_
  exact bind get fun _ _ => ite (fun _ => pure trivial) fun _ => unexpected

end Calm

namespace From

variable {block : List String} {p : Parse α} {f : α → Parse β} {Q Q' : α → List String → Prop}
  {R : β → List String → Prop}

theorem of_calm {P : α → Prop} (calm : Calm p P) : From block p (fun a b => b = block ∧ P a) := by
  intro c outer blocks nodup
  have calm := calm c
  cases run : p c with
  | ok a c' =>
    rw [run] at calm
    exact ⟨block, calm.1.trans blocks, nodup, rfl, calm.2⟩
  | error issue c' =>
    rw [run] at calm
    exact ⟨block, calm.trans blocks⟩

theorem imp (from_ : From block p Q) (h : ∀ a b, Q a b → Q' a b) : From block p Q' := by
  intro c outer blocks nodup
  have ends := from_ c outer blocks nodup
  cases run : p c with
  | ok a c' =>
    rw [run] at ends
    obtain ⟨b, blocks, nodup, holds⟩ := ends
    exact ⟨b, blocks, nodup, h a b holds⟩
  | error issue c' =>
    rw [run] at ends
    exact ends

theorem pure {a : α} (h : Q a block) : From block (Pure.pure a) Q :=
  fun _ _ blocks nodup => ⟨block, blocks, nodup, h⟩

theorem bind (first : From block p Q) (next : ∀ a b, Q a b → From b (f a) R) :
    From block (p >>= f) R := by
  intro c outer blocks nodup
  have ends := first c outer blocks nodup
  show match EStateM.bind p f c with | .ok _ _ => _ | .error _ _ => _
  unfold EStateM.bind
  cases run : p c with
  | error issue c' =>
    rw [run] at ends
    exact ends
  | ok a c' =>
    rw [run] at ends
    obtain ⟨b, blocks, nodup, holds⟩ := ends
    exact next a b holds c' outer blocks nodup

/-- A calm parser leaves the block to what follows. -/
theorem after {P : α → Prop} (first : Calm p P) (next : ∀ a, P a → From block (f a) R) :
    From block (p >>= f) R :=
  bind (of_calm first) fun a b holds => by
    obtain ⟨rfl, holds⟩ := holds
    exact next a holds

theorem fail (cause : ParseCause) : From block (Parser.fail cause) Q :=
  fun _ _ blocks _ => ⟨block, blocks⟩

/-- Nothing comes after a failure. -/
theorem fail_bind (cause : ParseCause) : From block (Parser.fail cause >>= f) R :=
  after (.fail cause (Q := fun _ => False)) nofun

theorem ite {condition : Prop} [Decidable condition] {q : Parse α} (yes : condition → From block p Q)
    (no : ¬ condition → From block q Q) : From block (if condition then p else q) Q := by
  split
  · exact yes ‹_›
  · exact no ‹_›

theorem reservingIn (from_ : From block p Q) : From block (Parser.reservingIn p) Q := by
  intro c outer blocks nodup
  have ends := from_ { c with noIn := true } outer blocks nodup
  unfold Parser.reservingIn
  cases run : p { c with noIn := true } <;> (rw [run] at ends; exact ends)

/-- A loop keeps what each of its turns keeps. -/
theorem repeatFrom {turn : α → Parse (Turn α β)} {a : α} (start : Q a block)
    (each : ∀ a b, Q a b → From b (turn a) (fun t b' => t.Holds (Q · b') (R · b'))) :
    From block (Parser.repeatFrom a turn) R := by
  have turns : ∀ n a b, Q a b → From b (iterate turn n a) R := by
    intro n
    induction n with
    | zero => exact fun _ b _ _ _ blocks _ => ⟨b, blocks⟩
    | succ n ih =>
      intro a b holds
      unfold iterate
      refine bind (each a b holds) fun t b' step => ?_
      cases t with
      | again a' => exact ih a' b' step
      | done r => exact pure step
  exact fun c => turns (c.rest.length + 1) a block start c

end From

/-! ## Blocks of their own -/

/-- Whatever happens in a block of its own, the blocks around it stay as they are. -/
theorem Calm.inBlock {p : Parse α} {Q : α → List String → Prop} (inside : From [] p Q) :
    Calm (Parser.inBlock p) (fun a => ∃ block, block.Nodup ∧ Q a block) := by
  intro c
  have ends := inside { c with blocks := [] :: c.blocks } c.blocks rfl List.nodup_nil
  unfold Parser.inBlock
  cases run : p { c with blocks := [] :: c.blocks } with
  | ok a c' =>
    rw [run] at ends
    obtain ⟨block, blocks, nodup, holds⟩ := ends
    exact ⟨congrArg List.tail blocks, block, nodup, holds⟩
  | error issue c' =>
    rw [run] at ends
    obtain ⟨block, blocks⟩ := ends
    exact congrArg List.tail blocks

/-! ## Declaring names -/

/-- The names have been added to those of the block, one after another. -/
def Extends (block names block' : List String) : Prop :=
  block' = names.reverse ++ block

theorem Extends.nil (block : List String) : Extends block [] block :=
  rfl

theorem Extends.trans {block names block' more block'' : List String} (first : Extends block names block')
    (next : Extends block' more block'') : Extends block (names ++ more) block'' := by
  unfold Extends at *
  rw [next, first, List.reverse_append, List.append_assoc]

theorem Extends.nodup {names block : List String} (extends_ : Extends [] names block)
    (nodup : block.Nodup) : names.Nodup := by
  unfold Extends at extends_
  rw [extends_, List.append_nil] at nodup
  exact List.nodup_reverse.1 nodup

/-- The names that a block has in addition after a declaration of the kind; without one, of parameters,
functions and the like. -/
def addedNames (kind : Option DeclKind) (names : List String) : List String :=
  match kind with
  | some kind => kind.scopeNames names
  | none => names

theorem addedNames_cons (kind : Option DeclKind) (name : String) (names : List String) :
    addedNames kind (name :: names) = addedNames kind [name] ++ addedNames kind names := by
  cases kind with
  | none => rfl
  | some kind => cases kind <;> rfl

theorem declare_of_block {kind : Option DeclKind} (place : Position) {name : String}
    (unreserved : name.toList.head? ≠ some '$') (lexical : kind ≠ some .var) (c : Cursor)
    {block : List String} {outer : List (List String)} (blocks : c.blocks = block :: outer) :
    declare kind place name c =
      (if block.contains name then failAt (.redeclared name) place
        else set { c with blocks := (name :: block) :: outer } : Parse Unit) c := by
  obtain ⟨rest, _, noIn⟩ := c
  obtain rfl := blocks
  unfold declare
  rw [if_neg unreserved, if_neg lexical]
  rfl

namespace From

variable {block : List String}

/-- A name that is accepted is not reserved, and it is added to the block if it is not a `var`. -/
theorem declare (kind : Option DeclKind) (place : Position) (name : String) :
    From block (Parser.declare kind place name)
      (fun _ b => Unreserved [name] ∧ Extends block (addedNames kind [name]) b) := by
  by_cases reserved : name.toList.head? = some '$'
  · unfold Parser.declare
    rw [if_pos reserved]
    exact fun _ _ blocks _ => ⟨block, blocks⟩
  -- a `var` is not entered in the block, other names are if they are fresh
  · have unreserved : Unreserved [name] := by
      intro n mem
      rw [List.mem_singleton.1 mem]
      exact reserved
    by_cases var : kind = some .var
    · subst var
      unfold Parser.declare
      rw [if_neg reserved]
      exact pure ⟨unreserved, Extends.nil block⟩
    · intro c outer blocks nodup
      have added : addedNames kind [name] = [name] := by
        rcases kind with _ | _ | _ | _
        · rfl
        · rfl
        · rfl
        · exact absurd rfl var
      rw [declare_of_block place reserved var c blocks, added]
      by_cases twice : block.contains name = true
      · rw [if_pos twice]
        exact ⟨block, blocks⟩
      · rw [if_neg twice]
        have fresh : name ∉ block := fun mem => twice (List.contains_iff_mem.2 mem)
        exact ⟨name :: block, rfl, List.nodup_cons.2 ⟨fresh, nodup⟩, unreserved, rfl⟩

/-- Names are declared one by one, from left to right. -/
theorem declareAll (kind : Option DeclKind) (place : Position) (names : List String) :
    From block (Parser.declareAll kind place names)
      (fun _ b => Unreserved names ∧ Extends block (addedNames kind names) b) := by
  induction names generalizing block with
  | nil =>
    have none : addedNames kind [] = [] := by
      cases kind with
      | none => rfl
      | some kind => cases kind <;> rfl
    rw [none]
    exact pure ⟨nofun, Extends.nil block⟩
  | cons name names ih =>
    unfold Parser.declareAll
    refine bind (declare kind place name) fun _ b first => imp ih fun _ b' later => ?_
    rw [addedNames_cons]
    exact ⟨unreserved_append.2 ⟨first.1, later.1⟩, first.2.trans later.2⟩

end From

end BindScript.Parser
