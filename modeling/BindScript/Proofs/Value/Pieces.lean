import BindScript.Proofs.Value.ListText

/-!
# Pieces of a text

`split` cuts a text at the occurrences of a pattern, `join` puts pieces together with a separator between them, and
`replaceAll` puts something else where the occurrences are. The three agree (`split_join_replaceAll`): what has been
cut at a pattern is the text again when it is joined by the pattern, since each piece and each occurrence comes back at
its place (`Text.intercalate_pieces`), and to replace the occurrences by a text is to join the pieces by it
(`EvalM.substitute_string`). With the empty pattern `split` gives the characters, and `replaceAll` has another one more
piece at either end.
-/

namespace BindScript

namespace Text

variable {pattern cs piece : List Char} {done : List (List Char)}

/-! ## Cutting -/

/-- The pieces of a text between the occurrences of a pattern; between those of the empty pattern, its characters. -/
def pieces : List Char → List Char → List (List Char)
  | [], cs => cs.map fun c => [c]
  | pattern, cs => cutAll pattern cs

theorem pieces_of_ne_nil (some : pattern ≠ []) (cs : List Char) : pieces pattern cs = cutAll pattern cs := by
  unfold pieces
  split
  · exact absurd rfl some
  · rfl

/-- Two pieces at the end and one that holds the separator between them are joined to the same. -/
theorem intercalate_concat (separator : List Char) (done : List (List Char)) (before after : List Char) :
    separator.intercalate (done ++ [before, after]) =
      separator.intercalate (done ++ [before ++ separator ++ after]) := by
  induction done with
  | nil =>
    rw [List.nil_append, List.nil_append, List.intercalate_cons_cons, List.intercalate_singleton,
      List.intercalate_singleton]
  | cons first done ih =>
    rw [List.cons_append, List.cons_append, List.intercalate_cons_of_ne_nil (by simp),
      List.intercalate_cons_of_ne_nil (by simp), ih]

/-- Where so many characters are to be left out, the rest of the text is cut. What is done and the piece that is open
come back unchanged. -/
theorem intercalate_cutFrom (some : pattern ≠ []) {skip : Nat} (le : skip ≤ cs.length) :
    pattern.intercalate (cutFrom pattern done piece skip cs) =
      pattern.intercalate (done.reverse ++ [piece.reverse ++ cs.drop skip]) := by
  induction cs generalizing done piece skip with
  | nil => simp [cutFrom]
  | cons c cs ih =>
    cases skip with
    | succ skip =>
      rw [cutFrom, ih (Nat.le_of_succ_le_succ le)]
      rfl
    | zero =>
      rw [cutFrom]
      split
      · next occurs =>
        -- The open piece ends here, and the occurrence is what joins it to the next one.
        obtain ⟨first, others, rfl⟩ := List.exists_cons_of_ne_nil some
        obtain ⟨rest, same⟩ := List.isPrefixOf_iff_prefix.1 occurs
        obtain ⟨rfl, rfl⟩ := List.cons.inj same
        rw [ih (by simp), List.reverse_cons, List.append_assoc, List.singleton_append, intercalate_concat]
        simp
      · rw [ih (Nat.zero_le _)]
        simp

/-- The pieces of a text, joined by what they were cut at, are the text. -/
theorem intercalate_pieces (pattern cs : List Char) : pattern.intercalate (pieces pattern cs) = cs := by
  by_cases some : pattern = []
  · subst some
    induction cs with
    | nil => rfl
    | cons c cs ih =>
      cases cs with
      | nil => rfl
      | cons d ds => exact List.intercalate_cons_cons.trans (congrArg (c :: ·) ih)
  · rw [pieces_of_ne_nil some, cutAll, if_neg (by simpa using some), intercalate_cutFrom some (Nat.zero_le _)]
    exact List.intercalate_singleton

/-- Pieces of a text, joined by a text. -/
def joined (separator : String) (pieces : List (List Char)) : String :=
  separator.intercalate (pieces.map String.ofList)

theorem joined_pieces (pattern text : String) : joined pattern (pieces pattern.toList text.toList) = text := by
  unfold joined
  rw [← String.toList_inj, String.toList_intercalate, List.map_map]
  simp [Function.comp_def, intercalate_pieces]

end Text

/-- The state with one more array, which has the pieces of a text. -/
def State.withPieces (s : State) (pattern text : String) : State :=
  { s with heap := (s.heap.newArray
      ((Text.pieces pattern.toList text.toList).map fun piece => Value.string (String.ofList piece)).toArray).2 }

namespace EvalM

variable {ctx : Context} {sub : Interpreter} {s t u : State} {e : Expr} {receiver v : Value}
  {m : Method} {args : List Value} {levels : Nat} {text pattern replacement : String}

/-! ## Methods -/

theorem splitText_pieces (h : Heap) (cs : List Char) (pattern : String) :
    splitText h cs (.string pattern) .undefined =
      (Text.pieces pattern.toList cs).map fun piece => .string (String.ofList piece) := by
  have text : h.text (.string pattern) = pattern := rfl
  unfold splitText
  rw [text]
  cases pattern.toList with
  | nil => rfl
  | cons c pattern => rfl

theorem call_split : callMethod sub (.string text) (.string .split) [.string pattern] s =
    .ok (.array s.heap.arrays.size) (s.withPieces pattern text) := by
  unfold State.withPieces
  rw [← splitText_pieces s.heap]
  rfl

theorem items_withPieces (s : State) (pattern text : String) :
    (s.withPieces pattern text).heap.items s.heap.arrays.size =
      ((Text.pieces pattern.toList text.toList).map fun piece => Value.string (String.ofList piece)).toArray := by
  simp [State.withPieces, Heap.newArray, Heap.items, Heap.arrayAt]

/-- Pieces are joined if the text is not too long. -/
theorem call_join (fits : (Text.joined replacement (Text.pieces pattern.toList text.toList)).utf8ByteSize ≤
      maxStringLength) :
    callMethod sub (.array s.heap.arrays.size) (.array .join) [.string replacement] (s.withPieces pattern text) =
      .ok (.string (Text.joined replacement (Text.pieces pattern.toList text.toList))) (s.withPieces pattern text) := by
  have parts (t : State) : (((Text.pieces pattern.toList text.toList).map fun piece =>
      Value.string (String.ofList piece)).toArray.toList.map (joinedText t.heap)) =
      (Text.pieces pattern.toList text.toList).map String.ofList := by
    rw [List.map_map]
    rfl
  unfold Text.joined at fits ⊢
  rw [size_of_joined] at fits
  have passed := congrArg (fun check => ofExcept check (s.withPieces pattern text)) (checkStringLength_of_le fits)
  show joinItems ((s.withPieces pattern text).heap.items s.heap.arrays.size) replacement
    (s.withPieces pattern text) = _
  rw [items_withPieces]
  unfold joinItems
  have read : (readHeap fun h => ((Text.pieces pattern.toList text.toList).map fun piece =>
      Value.string (String.ofList piece)).toArray.toList.map (joinedText h)) (s.withPieces pattern text) =
      .ok ((Text.pieces pattern.toList text.toList).map String.ofList) (s.withPieces pattern text) :=
    congrArg (EStateM.Result.ok · _) (parts _)
  exact (bind_of_ok read).trans (bind_of_ok passed)

/-- A replacement that is a text stands for each occurrence of the pattern. -/
theorem substitute_string (between : String) (pieces : List (List Char)) :
    substitute sub pattern.toList text (.string between) pieces s = .ok (.string (Text.joined between pieces)) s := by
  -- The place in the text is counted along, but it matters to functions that replace only.
  have turn (more : List (List Char)) (before : Nat × String) : ∃ last,
      (more.foldlM (fun before piece => do
        let between ← replacementText sub pattern.toList text (.string between) before.1
        return (before.1 + pattern.toList.length + piece.length, before.2 ++ between ++ String.ofList piece))
        before : EvalM (Nat × String)) s =
        .ok (last, between.intercalate (before.2 :: more.map String.ofList)) s := by
    induction more generalizing before with
    | nil => exact ⟨before.1, by rw [List.map_nil, String.intercalate_singleton]; rfl⟩
    | cons piece more ih =>
      obtain ⟨last, run⟩ := ih (before.1 + pattern.toList.length + piece.length,
        before.2 ++ between ++ String.ofList piece)
      refine ⟨last, run.trans ?_⟩
      rw [List.map_cons, String.intercalate_cons_cons, String.intercalate_cons_append]
  cases pieces with
  | nil =>
    unfold Text.joined
    rfl
  | cons first more =>
    obtain ⟨last, run⟩ := turn more (first.length, String.ofList first)
    exact bind_of_ok run

/-- A replacement that is a text replaces the occurrences at which the text is cut. -/
theorem call_replaceAll (some : pattern ≠ "") :
    callMethod sub (.string text) (.string .replaceAll) [.string pattern, .string replacement] s =
      .ok (.string (Text.joined replacement (Text.pieces pattern.toList text.toList))) s := by
  rw [Text.pieces_of_ne_nil (by simpa using some)]
  exact substitute_string ..

/-! ## Calls of methods -/

theorem chain_string (runs : s.interrupted = false) (text : String) (levels : Nat) :
    (interpreter ctx (levels + 2)).chain (.literal (.string text)) s = .ok (some (.string text)) s :=
  bind_of_ok (bind_of_ok (checkInterrupt_of_runs runs))

/-- Literal texts are evaluated to these texts, in the same state. -/
theorem evalArgs_strings (runs : s.interrupted = false) (texts : List String) (levels : Nat) :
    evalArgs (interpreter ctx (levels + 1)) (texts.map fun text => .literal (.string text)) s =
      .ok (texts.map Value.string) s := by
  have operand (text : String) :
      (interpreter ctx (levels + 1)).expr (.literal (.string text)) s = .ok (.string text) s :=
    bind_of_ok (checkInterrupt_of_runs runs)
  obtain ⟨visit, folds, pushes⟩ : ∃ visit : Array Value → Expr → EvalM (Array Value),
      (∀ items, evalList (interpreter ctx (levels + 1)) items = items.foldlM visit #[]) ∧
        ∀ done text, visit done (.literal (.string text)) s = .ok (done.push (.string text)) s :=
    ⟨_, fun _ => rfl, fun _ text => bind_of_ok (operand text)⟩
  have items (done : Array Value) :
      (texts.map fun text => Expr.literal (.string text)).foldlM visit done s =
        .ok (done ++ texts.map Value.string) s := by
    induction texts generalizing done with
    | nil => exact congrArg (EStateM.Result.ok · s) (by simp)
    | cons text texts ih =>
      refine (bind_of_ok (pushes done text)).trans ((ih _).trans ?_)
      simp
  have listed : evalList (interpreter ctx (levels + 1)) (texts.map fun text => .literal (.string text)) s = _ :=
    (congrFun (folds _) s).trans (items #[])
  refine (bind_of_ok listed).trans (congrArg (EStateM.Result.ok · s) ?_)
  simp

/-- A method is called if the receiver has no property of its name. -/
theorem chainStep_method (name : String) (target : sub.chain e s = .ok (some receiver) t)
    (own : t.heap.get receiver name = .undefined) (something : receiver.isNullish = false)
    (found : Method.find? receiver name = some m) {operands : List Expr}
    (operate : evalArgs sub operands t = .ok args t) (called : callMethod sub receiver m args t = .ok v u) :
    chainStep ctx sub (.call (.member e name false) operands false) s = .ok (some v) u := by
  have property : getProperty ctx receiver name t = .ok .undefined t := by
    unfold getProperty
    rw [something, if_neg nofun]
    exact congrArg (EStateM.Result.ok · t) own
  refine (bind_of_ok (evalTarget_of_some target)).trans ?_
  show callProperty ctx sub (.member e name false) receiver name operands false t = _
  unfold callProperty
  rw [found]
  exact (bind_of_ok property).trans ((bind_of_ok operate).trans (bind_of_ok called))

theorem expr_call (runs : s.interrupted = false) {callee : Expr} {operands : List Expr}
    (link : chainStep ctx (interpreter ctx levels) (.call callee operands false) s = .ok (some v) u) :
    (interpreter ctx (levels + 1)).expr (.call callee operands false) s = .ok v u :=
  (bind_of_ok (checkInterrupt_of_runs runs)).trans (bind_of_ok link)

end EvalM

open EvalM

/-- The call of a method with texts. -/
def Expr.method (e : Expr) (name : String) (texts : List String) : Expr :=
  .call (.member e name false) (texts.map fun text => .literal (.string text)) false

/-- A text cut at a pattern and joined by the pattern is the text, with the empty pattern too. A text in which another
replaces the occurrences of a pattern is the text cut at the pattern and joined by the other, if strings may be as long.
-/
theorem split_join_replaceAll (ctx : Context) {s : State} (runs : s.interrupted = false)
    (text pattern replacement : String) (levels : Nat) :
    let value (e : Expr) : EStateM.Result Exit State Value := (interpreter ctx (levels + 4)).expr e s
    let whole : Expr := .literal (.string text)
    (text.utf8ByteSize ≤ maxStringLength →
      value ((whole.method "split" [pattern]).method "join" [pattern]) =
        .ok (.string text) (s.withPieces pattern text)) ∧
    (pattern ≠ "" → ∃ result, value (whole.method "replaceAll" [pattern, replacement]) = .ok (.string result) s ∧
      (result.utf8ByteSize ≤ maxStringLength →
        value ((whole.method "split" [pattern]).method "join" [replacement]) =
          .ok (.string result) (s.withPieces pattern text))) := by
  intro value whole
  have joined (separator : String)
      (fits : (Text.joined separator (Text.pieces pattern.toList text.toList)).utf8ByteSize ≤ maxStringLength) :
      value ((whole.method "split" [pattern]).method "join" [separator]) =
        .ok (.string (Text.joined separator (Text.pieces pattern.toList text.toList))) (s.withPieces pattern text) := by
    have split : (interpreter ctx (levels + 3)).chain (whole.method "split" [pattern]) s =
        .ok (some (.array s.heap.arrays.size)) (s.withPieces pattern text) :=
      chainStep_method "split" (chain_string runs text levels) rfl rfl rfl
        (evalArgs_strings runs [pattern] (levels + 1)) call_split
    have runs' : (s.withPieces pattern text).interrupted = false := runs
    exact expr_call runs (chainStep_method "join" split rfl rfl rfl (evalArgs_strings runs' [separator] (levels + 2))
      (call_join fits))
  refine ⟨fun fits => ?_, fun some => ⟨_, ?_, joined replacement⟩⟩
  · have same := joined pattern
    rw [Text.joined_pieces] at same
    exact same fits
  · exact expr_call runs (chainStep_method "replaceAll" (chain_string runs text (levels + 1)) rfl rfl rfl
      (evalArgs_strings runs [pattern, replacement] (levels + 2)) (call_replaceAll some))

/-- Of the occurrences that overlap, the left one counts. -/
theorem overlapping_pieces :
    let ctx : Context := { locals := .undefined, app := .undefined, globals := [] }
    let value (e : Expr) : EStateM.Result Exit State Value := (interpreter ctx 4).expr e {}
    let whole : Expr := .literal (.string "aaaé")
    "aaaé".utf8ByteSize ≤ maxStringLength ∧ "aa" ≠ "" ∧ "xaé".utf8ByteSize ≤ maxStringLength ∧
      value ((whole.method "split" ["aa"]).method "join" ["aa"]) =
        .ok (.string "aaaé") (State.withPieces {} "aa" "aaaé") ∧
      value (whole.method "replaceAll" ["aa", "x"]) = .ok (.string "xaé") {} ∧
      value ((whole.method "split" ["aa"]).method "join" ["x"]) =
        .ok (.string "xaé") (State.withPieces {} "aa" "aaaé") := by
  intro ctx value whole
  have fits : "aaaé".utf8ByteSize ≤ maxStringLength := by decide
  have short : "xaé".utf8ByteSize ≤ maxStringLength := by decide
  have runs : ({} : State).interrupted = false := rfl
  obtain ⟨same, replaces⟩ := split_join_replaceAll ctx runs "aaaé" "aa" "x" 0
  obtain ⟨result, replaced, joined⟩ := replaces (by decide)
  have computed : value (whole.method "replaceAll" ["aa", "x"]) = .ok (.string "xaé") {} := rfl
  cases replaced.symm.trans computed
  exact ⟨fits, by decide, short, same fits, computed, joined short⟩

end BindScript
