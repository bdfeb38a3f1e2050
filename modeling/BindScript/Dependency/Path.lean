import BindScript.Ast.Tree
import BindScript.JsonText.Document
import BindScript.Number.Text
import BindScript.Text.Identifier

/-!
Dependency paths: a root name followed by keys, such as `user.address["zip code"]` or `items[i]`. A key
is a property or is read from a variable. `Path.text` writes a path and `Path.parse?` reads it; each
link that is read makes the text shorter (`parseSegment?_length`), so reading ends.

`fold` finds the path that a chain of plain member accesses stands for.
-/

namespace BindScript.Dependency

open Text

/-- A link of a path. -/
inductive Segment
  /-- A fixed key. -/
  | property (key : String)
  /-- A key that is the value of a variable. -/
  | nameKey (name : String)
  deriving DecidableEq, Repr

/-- A root name and the links that lead on from it. -/
structure Path where
  root : String
  segments : List Segment := []
  deriving DecidableEq, Repr

/-- Whether a key is written with digits only and without a leading zero. -/
def isIndex : List Char → Bool
  | [] => false
  | ['0'] => true
  | '0' :: _ => false
  | cs => cs.all Char.isDigit

/-- The text of a link: a name after a point, anything else in brackets, in quotes unless it is an index
or a variable. -/
def Segment.text : Segment → String
  | property key =>
    if isIdentifier key then "." ++ key
    else if isIndex key.toList then "[" ++ key ++ "]"
    else "[" ++ JsonText.quote key ++ "]"
  | nameKey name => "[" ++ name ++ "]"

namespace Path

/-- The text of a path. -/
def text (p : Path) : String :=
  p.root ++ String.join (p.segments.map Segment.text)

/-- The number of names and keys, the root included. -/
def length (p : Path) : Nat :=
  p.segments.length + 1

/-- The path with one more link. -/
def push (p : Path) (s : Segment) : Path :=
  { p with segments := p.segments ++ [s] }

/-- The variables whose values are keys. -/
def keyNames (p : Path) : List String :=
  p.segments.filterMap fun
    | .nameKey name => some name
    | .property _ => none

end Path

/-- Takes a name off the front. -/
def takeName? : List Char → Option (String × List Char)
  | [] => none
  | c :: rest =>
    if isNameStart c then some (String.ofList (c :: rest.takeWhile isNamePart), rest.dropWhile isNamePart)
    else none

/-- Takes the rest of a quoted key off the front, up to and including the closing quote. -/
def takeQuoted? : List Char → Option (List Char × List Char)
  | [] => none
  | '"' :: rest => some (['"'], rest)
  | '\\' :: c :: rest => (takeQuoted? rest).map fun (quoted, rest) => ('\\' :: c :: quoted, rest)
  | c :: rest => (takeQuoted? rest).map fun (quoted, rest) => (c :: quoted, rest)

/-- Takes the closing bracket of a link. -/
def closeBracket? (s : Segment) : List Char → Option (Segment × List Char)
  | ']' :: rest => some (s, rest)
  | _ => none

/-- Takes a link that starts with a bracket, from after the bracket. -/
def bracketed? (cs : List Char) : Option (Segment × List Char) :=
  match cs with
  | [] => none
  | '"' :: body => do
    let (quoted, rest) ← takeQuoted? body
    let key ← JsonText.parseString? (String.ofList ('"' :: quoted))
    closeBracket? (.property key) rest
  | c :: _ =>
    if c.isDigit then
      closeBracket? (.property (String.ofList (cs.takeWhile Char.isDigit))) (cs.dropWhile Char.isDigit)
    else do
      let (name, rest) ← takeName? cs
      closeBracket? (.nameKey name) rest

/-- Takes a link off the front. -/
def parseSegment? : List Char → Option (Segment × List Char)
  | '.' :: cs => (takeName? cs).map fun (name, rest) => (.property name, rest)
  | '[' :: cs => bracketed? cs
  | _ => none

/-- What is left is part of the text. -/
theorem takeName?_length {cs : List Char} {name : String} {rest : List Char}
    (h : takeName? cs = some (name, rest)) : rest.length ≤ cs.length := by
  cases cs with
  | nil => simp [takeName?] at h
  | cons c cs =>
    simp only [takeName?] at h
    split at h
    · simp only [Option.some.injEq, Prod.mk.injEq] at h
      have := (List.dropWhile_sublist isNamePart (l := cs)).length_le
      simp only [← h.2, List.length_cons]
      omega
    · simp at h

/-- What is left is part of the text. -/
theorem takeQuoted?_length {cs quoted rest : List Char}
    (h : takeQuoted? cs = some (quoted, rest)) : rest.length ≤ cs.length := by
  fun_induction takeQuoted? cs generalizing quoted rest with
  | case1 => simp at h
  | case2 r => simp only [Option.some.injEq, Prod.mk.injEq] at h; simp [← h.2]
  | case3 c r ih =>
    obtain ⟨⟨q, r'⟩, hr, he⟩ := Option.map_eq_some_iff.1 h
    simp only [Prod.mk.injEq] at he
    have := ih hr
    simp only [← he.2, List.length_cons]
    omega
  | case4 c r _ _ ih =>
    obtain ⟨⟨q, r'⟩, hr, he⟩ := Option.map_eq_some_iff.1 h
    simp only [Prod.mk.injEq] at he
    have := ih hr
    simp only [← he.2, List.length_cons]
    omega

theorem closeBracket?_length {s t : Segment} {cs rest : List Char}
    (h : closeBracket? s cs = some (t, rest)) : rest.length < cs.length := by
  unfold closeBracket? at h
  split at h
  · simp only [Option.some.injEq, Prod.mk.injEq] at h
    simp [← h.2]
  · simp at h

/-- A bracket takes at least one character. -/
theorem bracketed?_length {s : Segment} {cs rest : List Char}
    (h : bracketed? cs = some (s, rest)) : rest.length < cs.length := by
  unfold bracketed? at h
  split at h
  · simp at h
  · next body =>
    obtain ⟨⟨q, r⟩, hq, h⟩ := Option.bind_eq_some_iff.1 h
    obtain ⟨key, _, h⟩ := Option.bind_eq_some_iff.1 h
    have := takeQuoted?_length hq
    have := closeBracket?_length h
    simp only [List.length_cons]
    omega
  · next c cs _ =>
    split at h
    · have := (List.dropWhile_sublist Char.isDigit (l := c :: cs)).length_le
      have := closeBracket?_length h
      omega
    · obtain ⟨⟨n, r⟩, hn, h⟩ := Option.bind_eq_some_iff.1 h
      have := takeName?_length hn
      have := closeBracket?_length h
      omega

/-- What is left after a link is shorter than before. -/
theorem parseSegment?_length {s : Segment} {cs rest : List Char}
    (h : parseSegment? cs = some (s, rest)) : rest.length < cs.length := by
  unfold parseSegment? at h
  split at h
  · obtain ⟨⟨n, r⟩, hn, he⟩ := Option.map_eq_some_iff.1 h
    simp only [Prod.mk.injEq] at he
    have := takeName?_length hn
    simp only [← he.2, List.length_cons]
    omega
  · have := bracketed?_length h
    simp only [List.length_cons]
    omega
  · simp at h

/-- Reads links up to the end of the text. -/
def parseSegments? (cs : List Char) : Option (List Segment) :=
  if cs.isEmpty then some []
  else match _parsed : parseSegment? cs with
    | none => none
    | some (s, rest) => (parseSegments? rest).map (s :: ·)
termination_by cs.length
decreasing_by exact parseSegment?_length _parsed

/-- Reads a path. -/
def Path.parse? (text : String) : Option Path := do
  let (root, rest) ← takeName? text.toList
  let segments ← parseSegments? rest
  return { root, segments }

/-- The link that a key expression stands for: a literal, or a variable that is not bound. -/
def foldKey? (isBound : String → Bool) : Expr → Option Segment
  | .literal (.string key) => some (.property key)
  | .literal (.number x) => some (.property (Number.format x))
  | .name name => if isBound name then none else some (.nameKey name)
  | _ => none

/-- The path that a chain of member accesses stands for. Chains with other links have none. -/
def fold? (isBound : String → Bool) : Expr → Option Path
  | .name name => some { root := name }
  | .member object property _ => (fold? isBound object).map (·.push (.property property))
  | .index object key _ => do
    let segment ← foldKey? isBound key
    let path ← fold? isBound object
    return path.push segment
  | _ => none

end BindScript.Dependency
