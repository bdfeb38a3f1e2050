import BindScript.Proofs.Parsing.Trees
import BindScript.Proofs.Watch.Interpreter

/-!
# Parsed code is where it belongs

The parser gives trees that are as the grammar asks, all the way down (`NodeRule.formed`). So an evaluation of parsed
code has a place to write to wherever it assigns, and it spreads values into lists only: of the failures that stand for
the opposite (`EvalError.Misplaced`) it has none. This takes functions into account that earlier evaluations have left
on the heap; these are as the grammar asks as well, and a run leaves no others behind (`parsed_grammatical`).
-/

namespace BindScript

/-! ## Code as the grammar asks -/

/-- A tree that is as the grammar asks, and that stands for a single value if it is an expression. -/
def Node.Grammatical (x : Node) : Prop :=
  x.Obeys .formed ∧ x.isSpread = false

/-- All functions on the heap are as the grammar asks. -/
def Heap.Grammatical (h : Heap) : Prop :=
  ∀ c, ∀ y ∈ (h.closureAt c).definition.nodes, y.Grammatical

/-- Code that has been read from a source. A function has its code in the heap. -/
def Run.Parsed : Run → Prop
  | expression e | evaluation e => ∃ source, parseExpr source = .ok e
  | statement t => ∃ source statements, parseStatements source = .ok statements ∧ t ∈ statements
  | program statements => ∃ source, parseStatements source = .ok statements
  | call .. => True

variable {ctx : Context} {s : State} {run : Run}

theorem NodeRule.formed_le (_ : True) : NodeRule.formed.Le .formed :=
  ⟨fun _ own => own, fun _ own => own, fun _ own => own⟩

/-- Watches for failures of code that is not as the grammar asks. -/
def Watch.misplaced (ctx : Context) : Watch where
  ctx := ctx
  code := .formed
  formed := True
  constants := False
  shaped := NodeRule.formed_le
  settled := False.elim
  parts := False
  cell := 0
  value := .undefined

theorem Watch.misplaced_at : (misplaced ctx).At s ↔ s.heap.Grammatical := by
  refine ⟨fun state c y mem => ?_, fun functions => ⟨fun c => ⟨fun y mem => ?_, False.elim⟩, False.elim⟩⟩
  · have code := (state.callable c).code y mem
    exact ⟨code.1, code.2 trivial⟩
  · exact ⟨(functions c y mem).1, fun _ => (functions c y mem).2⟩

/-- A run of code that is as the grammar asks does not fail for being misplaced, and all functions that it makes are as
the grammar asks. -/
theorem Run.placed (code : ∀ y ∈ run.nodes, y.Grammatical) (functions : s.heap.Grammatical) :
    ((run.start ctx).stateAfter s).heap.Grammatical ∧
      ∀ e t, run.start ctx s = .error (.error e) t → ¬ e.Misplaced := by
  have asked : ∀ y ∈ run.nodes, (Watch.misplaced ctx).Code y := fun y mem => ⟨(code y mem).1, fun _ => (code y mem).2⟩
  have ends := Watch.Ends.interpreted ((Watch.misplaced ctx).interprets grantedLevels) asked False.elim
    (Watch.misplaced_at.2 functions) False.elim
  have start : run.start ctx s = run.interpreted ctx (interpreter ctx grantedLevels) s :=
    congrFun (run.start_eq ctx) s
  have kept := ends.kept
  unfold EvalM.stateAfter
  rw [start]
  change (Watch.misplaced ctx).Kept _ _ s (run.interpreted ctx (interpreter ctx grantedLevels) s) at kept
  generalize run.interpreted ctx (interpreter ctx grantedLevels) s = r at kept
  cases kept with
  | ok state => exact ⟨Watch.misplaced_at.1 state, nofun⟩
  | error state _ leaves =>
    refine ⟨Watch.misplaced_at.1 state, fun e t same => ?_⟩
    cases same
    exact leaves trivial

/-! ## Parsed code -/

theorem spellsTokens_any : SpellsTokens fun _ => True := by
  intro _ _ _ _ t _
  unfold TokenKind.Spells
  split <;> trivial

/-- Trees of accepted sources are as the grammar asks. -/
theorem grammatical_of_parsed (source : String) :
    (∀ e, parseExpr source = .ok e → (Node.expr e).Grammatical) ∧
      ∀ statements, parseStatements source = .ok statements → ∀ t ∈ statements, (Node.stmt t).Grammatical := by
  obtain ⟨expr, stmt⟩ := parsed_grammar spellsTokens_any source
  refine ⟨fun e read => ⟨(expr e read).1.mono NodeRule.grammar_le_formed, (expr e read).2⟩,
    fun statements read t mem => ?_⟩
  have obeys := Stmt.allObey_iff_nodes.1 (stmt statements read) _ (List.mem_map_of_mem mem)
  exact ⟨obeys.mono NodeRule.grammar_le_formed, rfl⟩

theorem Run.Parsed.grammatical (parsed : run.Parsed) : ∀ y ∈ run.nodes, y.Grammatical := by
  cases run with
  | expression e | evaluation e =>
    obtain ⟨source, read⟩ := parsed
    exact List.forall_mem_singleton.2 ((grammatical_of_parsed source).1 e read)
  | statement t =>
    obtain ⟨source, statements, read, mem⟩ := parsed
    exact List.forall_mem_singleton.2 ((grammatical_of_parsed source).2 statements read t mem)
  | program statements =>
    obtain ⟨source, read⟩ := parsed
    exact List.forall_mem_map.2 ((grammatical_of_parsed source).2 statements read)
  | call callee args => exact List.forall_mem_nil _

/-- **Parsed code is formed.** Everywhere in the tree of an accepted source, what is assigned to is a name or a member
that is always there, spreads are items of lists and arguments only, declarations declare something and give a value
where one is needed, every `try` has a handler or a finalizer, and no `switch` has two defaults. A run of parsed code
over a heap with such functions ends with no failure of misplaced code, and leaves such functions only. -/
theorem parsed_grammatical :
    (∀ source e, parseExpr source = .ok e → (Node.expr e).Grammatical) ∧
      (∀ source statements, parseStatements source = .ok statements →
        ∀ t ∈ statements, (Node.stmt t).Grammatical) ∧
      ∀ (ctx : Context) (s : State) (run : Run), run.Parsed → s.heap.Grammatical →
        ((run.start ctx).stateAfter s).heap.Grammatical ∧
          ∀ e t, run.start ctx s = .error (.error e) t → ¬ e.Misplaced :=
  ⟨fun source => (grammatical_of_parsed source).1, fun source => (grammatical_of_parsed source).2,
    fun _ _ _ parsed functions => Run.placed parsed.grammatical functions⟩

/-- Nothing is misplaced in a loop over constants that are taken apart, nor in what it leads to. -/
theorem grammatical_loop : ∃ statements,
    parseStatements "for (const [a] = b, c = 1; a; d.e++) try \x7b f([...a]) \x7d finally \x7b\x7d" = .ok statements ∧
      (∀ t ∈ statements, (Node.stmt t).Grammatical) ∧
      ∀ (ctx : Context) e t, ctx.runStatements statements {} = .error (.error e) t → ¬ e.Misplaced := by
  have accepted : (parseStatements
      "for (const [a] = b, c = 1; a; d.e++) try \x7b f([...a]) \x7d finally \x7b\x7d").toBool = true := by
    decide +kernel
  cases read : parseStatements "for (const [a] = b, c = 1; a; d.e++) try \x7b f([...a]) \x7d finally \x7b\x7d" with
  | error issue =>
    rw [read] at accepted
    cases accepted
  | ok statements =>
    obtain ⟨-, formed, runs⟩ := parsed_grammatical
    refine ⟨statements, rfl, formed _ _ read, fun ctx => (runs ctx {} (.program statements) ⟨_, read⟩ fun c => ?_).2⟩
    exact List.forall_mem_nil _

end BindScript
