import BindScript.Proofs.Scope.Declared

/-!
# Expressions that change nothing

An expression without assignments, updates, deletions and calls (`NodeRule.quiet`) writes no variable and no container.
All that it does to the heap is to add arrays, objects and functions of its own (`Heap.Enlarges`), however it ends
(`interpreter_quiet`).
-/

namespace BindScript

/-- Code without assignments, updates, deletions and calls. -/
def NodeRule.quiet : NodeRule where
  expr
    | .update .. | .assign .. | .call .. => False
    | .unary op _ => op ≠ .delete
    | _ => True

/-- The containers and functions of the first heap are in the second one as they are. -/
structure Heap.Grows (h h' : Heap) : Prop where
  arrays : h.arrays.toList <+: h'.arrays.toList
  objects : h.objects.toList <+: h'.objects.toList
  closures : h.closures.toList <+: h'.closures.toList

/-- Containers and functions are added, and nothing else is done. -/
structure Heap.Enlarges (h h' : Heap) : Prop where
  cells : h'.cells = h.cells
  grows : h.Grows h'

namespace Heap

variable {h h₁ h₂ : Heap}

namespace Grows

theorem refl (h : Heap) : h.Grows h :=
  ⟨List.prefix_rfl, List.prefix_rfl, List.prefix_rfl⟩

theorem trans (first : h.Grows h₁) (second : h₁.Grows h₂) : h.Grows h₂ where
  arrays := first.arrays.trans second.arrays
  objects := first.objects.trans second.objects
  closures := first.closures.trans second.closures

theorem arrayAt (grows : h.Grows h₁) {a : Nat} (there : a < h.arrays.size) : h₁.arrayAt a = h.arrayAt a := by
  obtain ⟨more, same⟩ := grows.arrays
  have extended : h₁.arrays = h.arrays ++ more.toArray := by
    rw [← Array.toList_inj, Array.toList_append, ← same]
  simp only [Heap.arrayAt, extended, Array.getD_eq_getD_getElem?, Array.getElem?_append_left there]

theorem objectAt (grows : h.Grows h₁) {o : Nat} (there : o < h.objects.size) : h₁.objectAt o = h.objectAt o := by
  obtain ⟨more, same⟩ := grows.objects
  have extended : h₁.objects = h.objects ++ more.toArray := by
    rw [← Array.toList_inj, Array.toList_append, ← same]
  simp only [Heap.objectAt, extended, Array.getD_eq_getD_getElem?, Array.getElem?_append_left there]

theorem arrays_le (grows : h.Grows h₁) : h.arrays.size ≤ h₁.arrays.size := by
  simpa using grows.arrays.length_le

theorem objects_le (grows : h.Grows h₁) : h.objects.size ≤ h₁.objects.size := by
  simpa using grows.objects.length_le

end Grows

namespace Enlarges

theorem refl (h : Heap) : h.Enlarges h :=
  ⟨rfl, .refl h⟩

theorem trans (first : h.Enlarges h₁) (second : h₁.Enlarges h₂) : h.Enlarges h₂ :=
  ⟨second.cells.trans first.cells, first.grows.trans second.grows⟩

theorem newArray (h : Heap) (items : Array Value) : h.Enlarges (h.newArray items).2 :=
  ⟨rfl, by simp [Heap.newArray], List.prefix_rfl, List.prefix_rfl⟩

theorem newObject (h : Heap) (properties : Entries Value) : h.Enlarges (h.newObject properties).2 :=
  ⟨rfl, List.prefix_rfl, by simp [Heap.newObject], List.prefix_rfl⟩

theorem newClosure (h : Heap) (closure : Closure) : h.Enlarges (h.newClosure closure).2 :=
  ⟨rfl, List.prefix_rfl, List.prefix_rfl, by simp [Heap.newClosure]⟩

end Enlarges

end Heap

namespace EvalM

variable {α β : Type} {x y : EvalM α} {f : α → EvalM β}

/-- However the step ends, it has only added containers and functions. -/
def OnlyAdds (x : EvalM α) : Prop :=
  ∀ s : State, s.heap.Enlarges (x.stateAfter s).heap

namespace OnlyAdds

theorem of_same (same : ∀ s, (x.stateAfter s).heap = s.heap) : x.OnlyAdds :=
  fun s => same s ▸ .refl s.heap

theorem pure (a : α) : (Pure.pure a : EvalM α).OnlyAdds :=
  of_same fun _ => rfl

theorem readHeap (f : Heap → α) : (EvalM.readHeap f).OnlyAdds :=
  of_same fun _ => rfl

theorem readEnv (f : Environment → α) : (EvalM.readEnv f).OnlyAdds :=
  of_same fun _ => rfl

theorem fail (e : EvalError) : (EvalM.fail e : EvalM α).OnlyAdds :=
  of_same fun _ => rfl

theorem typeFault (fault : TypeFault) : (EvalM.typeFault fault : EvalM α).OnlyAdds :=
  of_same fun _ => rfl

theorem ofExcept (result : Except EvalError α) : (EvalM.ofExcept result).OnlyAdds := by
  cases result <;> exact of_same fun _ => rfl

theorem resume (result : Except Exit α) : (EvalM.resume result).OnlyAdds := by
  cases result <;> exact of_same fun _ => rfl

theorem checkInterrupt : EvalM.checkInterrupt.OnlyAdds := by
  refine of_same fun s => ?_
  cases raised : s.interrupted <;> simp [stateAfter, EvalM.checkInterrupt, raised]

theorem iterate (v : Value) : (EvalM.iterate v).OnlyAdds := by
  cases v <;> exact of_same fun _ => rfl

theorem bind (first : x.OnlyAdds) (next : ∀ a, (f a).OnlyAdds) : (x >>= f).OnlyAdds :=
  fun s => stateAfter_bind (R := fun s t => s.heap.Enlarges t.heap) (fun _ _ => .trans) (first s)
    fun a t _ _ => next a t

theorem discard (step : x.OnlyAdds) : (Functor.discard x).OnlyAdds :=
  bind (f := fun _ => Pure.pure ()) step fun _ => pure ()

theorem ite {c : Prop} [Decidable c] (yes : x.OnlyAdds) (no : y.OnlyAdds) : (if c then x else y).OnlyAdds := by
  split
  · exact yes
  · exact no

theorem attempt (step : x.OnlyAdds) : (EvalM.attempt x).OnlyAdds := by
  intro s
  rw [stateAfter_attempt]
  exact step s

theorem foldlM {f : β → α → EvalM β} {items : List α} (each : ∀ a ∈ items, ∀ b, (f b a).OnlyAdds)
    (start : β) : (items.foldlM f start).OnlyAdds := by
  induction items generalizing start with
  | nil => exact pure start
  | cons a more ih =>
    obtain ⟨head, tail⟩ := List.forall_mem_cons.1 each
    rw [List.foldlM_cons]
    exact bind (head start) (ih tail)

end OnlyAdds

end EvalM

/-- The interpreter evaluates quiet expressions without changing anything. -/
structure Interpreter.Quiet (sub : Interpreter) : Prop where
  expr : ∀ e : Expr, e.Obeys .quiet → (sub.expr e).OnlyAdds
  chain : ∀ e : Expr, e.Obeys .quiet → (sub.chain e).OnlyAdds

namespace EvalM

variable {ctx : Context} {sub : Interpreter} {e object key : Expr}

/-! ## Reading -/

theorem lookup_onlyAdds (ctx : Context) (name : String) : (lookup ctx name).OnlyAdds := by
  unfold lookup
  refine .bind (.readEnv _) fun b => ?_
  cases b with
  | some b => exact .readHeap _
  | none =>
    refine .bind (.readHeap _) fun found => ?_
    cases found with
    | some v => exact .pure v
    | none => exact .ite (.fail _) (.pure _)

theorem getProperty_onlyAdds (ctx : Context) (target : Value) (key : String) :
    (getProperty ctx target key).OnlyAdds := by
  unfold getProperty
  exact .ite (.ite (.bind (.readHeap _) fun _ => .typeFault _) (.pure _)) (.readHeap _)

theorem makeClosure_onlyAdds (name? : Option String) (definition : Function) :
    (makeClosure name? definition).OnlyAdds :=
  fun s => .newClosure s.heap { name?, definition, captured := s.env.bindings }

/-! ## Expressions of quiet parts -/

section Expressions

variable (self : sub.Quiet)
include self

theorem evalNamed_onlyAdds (name : String) (quiet : e.Obeys .quiet) : (evalNamed sub name e).OnlyAdds := by
  cases e with
  | function definition => exact makeClosure_onlyAdds (some name) definition
  | _ => exact self.expr _ quiet

theorem evalKey_onlyAdds (quiet : key.Obeys .quiet) : (evalKey sub key).OnlyAdds :=
  .bind (self.expr key quiet) fun _ => .readHeap _

theorem evalList_onlyAdds {items : List Expr} (quiet : ∀ e ∈ items, e.Obeys .quiet) :
    (evalList sub items).OnlyAdds := by
  refine .foldlM (fun item mem done => ?_) #[]
  have quiet := quiet item mem
  cases item with
  | spread inner =>
    refine .bind (self.expr inner quiet.2) fun v => .bind (.iterate v) fun values => ?_
    exact .bind (.ofExcept _) fun _ => .pure _
  | _ => exact .bind (self.expr _ quiet) fun _ => .pure _

theorem evalTemplate_onlyAdds {parts : List TemplatePart} (quiet : ∀ e, .hole e ∈ parts → e.Obeys .quiet) :
    (evalTemplate sub parts).OnlyAdds := by
  refine .bind (.foldlM (fun part mem done => ?_) "") fun _ => .pure _
  cases part with
  | text s => exact .pure _
  | hole e =>
    refine .bind (self.expr e (quiet e mem)) fun v => .bind (.readHeap _) fun piece => ?_
    exact .bind (.ofExcept _) fun _ => .pure _

theorem evalObject_onlyAdds {properties : List Property} (quiet : ∀ p ∈ properties, p.Obeys .quiet) :
    (evalObject sub properties).OnlyAdds := by
  refine .bind (.foldlM (fun property mem done => ?_) []) fun entries => fun s => .newObject s.heap entries
  have quiet := quiet property mem
  cases property with
  | named key value => exact .bind (evalNamed_onlyAdds self key quiet) fun _ => .pure _
  | computed key value =>
    refine .bind (evalKey_onlyAdds self quiet.1) fun name => ?_
    exact .bind (evalNamed_onlyAdds self name quiet.2) fun _ => .pure _
  | spread source => exact .bind (self.expr source quiet) fun _ => .bind (.readHeap _) fun _ => .pure _

theorem evalTypeOperand_onlyAdds (quiet : e.Obeys .quiet) : (evalTypeOperand ctx sub e).OnlyAdds := by
  cases e with
  | name id =>
    refine .bind (.attempt (lookup_onlyAdds ctx id)) fun result => ?_
    split
    · exact .pure _
    · exact .resume _
  | _ => exact self.expr _ quiet

theorem evalUnary_onlyAdds {op : UnaryOp} (other : op ≠ .delete) (quiet : e.Obeys .quiet) :
    (evalUnary ctx sub op e).OnlyAdds := by
  have operand := self.expr e quiet
  cases op with
  | delete => exact absurd rfl other
  | typeof => exact .bind (evalTypeOperand_onlyAdds self quiet) fun _ => .pure _
  | not => exact .bind operand fun _ => .pure _
  | void => exact .bind operand.discard fun _ => .pure _
  | minus | plus | bitNot => exact .bind operand fun _ => .readHeap _

theorem evalBinary_onlyAdds (op : BinaryOp) (left : e.Obeys .quiet) {right : Expr} (quiet : right.Obeys .quiet) :
    (evalBinary sub op e right).OnlyAdds := by
  have right := self.expr right quiet
  refine .bind (self.expr e left) fun a => ?_
  cases op with
  | and | nullish => exact .ite right (.pure a)
  | or => exact .ite (.pure a) right
  | _ => exact .bind right fun b => .bind (.readHeap _) fun result => .ofExcept result

theorem evalTarget_onlyAdds (quiet : object.Obeys .quiet) (optional : Bool) :
    (evalTarget sub object optional).OnlyAdds := by
  refine .bind (self.chain object quiet) fun target => ?_
  cases target with
  | none => exact .pure none
  | some v => exact .ite (.pure none) (.pure (some v))

/-- A link of quiet code at most adds to the heap. -/
theorem chainStep_onlyAdds (quiet : e.Obeys .quiet) : (chainStep ctx sub e).OnlyAdds := by
  cases e with
  | member object property optional =>
    refine .bind (evalTarget_onlyAdds self quiet.2 optional) fun target => ?_
    cases target with
    | none => exact .pure none
    | some v => exact .bind (getProperty_onlyAdds ctx v property) fun _ => .pure _
  | index object key optional =>
    refine .bind (evalTarget_onlyAdds self quiet.2.1 optional) fun target => ?_
    cases target with
    | none => exact .pure none
    | some v =>
      refine .bind (evalKey_onlyAdds self quiet.2.2) fun name => ?_
      exact .bind (getProperty_onlyAdds ctx v name) fun _ => .pure _
  | call callee args optional => exact quiet.1.elim
  | _ => exact .bind (self.expr _ quiet) fun _ => .pure _

/-- By the form of the expression. What could write is not among the quiet ones. -/
theorem exprStep_onlyAdds (quiet : e.Obeys .quiet) : (exprStep ctx sub e).OnlyAdds := by
  refine .bind .checkInterrupt fun _ => ?_
  cases e with
  | name id => exact lookup_onlyAdds ctx id
  | literal l => exact .pure _
  | template parts => exact evalTemplate_onlyAdds self (TemplatePart.allObey_iff.1 quiet.2)
  | unary op operand => exact evalUnary_onlyAdds self quiet.1 quiet.2
  | binary op left right => exact evalBinary_onlyAdds self op quiet.2.1 quiet.2.2
  | conditional test consequent alternate =>
    obtain ⟨-, test, yes, no⟩ := quiet
    exact .bind (self.expr _ test) fun _ => .ite (self.expr _ yes) (self.expr _ no)
  | sequence items =>
    exact .foldlM (fun item mem _ => self.expr item (Expr.allObey_iff.1 quiet.2 item mem)) .undefined
  | array items =>
    exact .bind (evalList_onlyAdds self (Expr.allObey_iff.1 quiet.2)) fun values => fun s => .newArray s.heap values
  | object properties => exact evalObject_onlyAdds self (Property.allObey_iff.1 quiet.2)
  | spread inner => exact .typeFault _
  | member object property optional => exact .bind (chainStep_onlyAdds self quiet) fun _ => .pure _
  | index object key optional => exact .bind (chainStep_onlyAdds self quiet) fun _ => .pure _
  | function definition => exact makeClosure_onlyAdds none definition
  | update | assign | call => exact quiet.1.elim

end Expressions

end EvalM

/-- **A quiet expression only adds containers and functions.** -/
theorem interpreter_quiet (ctx : Context) (levels : Nat) : (interpreter ctx levels).Quiet := by
  induction levels with
  | zero => exact ⟨fun _ _ s => .refl s.heap, fun _ _ s => .refl s.heap⟩
  | succ levels ih => exact ⟨fun _ quiet => EvalM.exprStep_onlyAdds ih quiet,
      fun _ quiet => EvalM.chainStep_onlyAdds ih quiet⟩

end BindScript
