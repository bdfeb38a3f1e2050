/-!
Finding one text inside another. Occurrences are taken from the left and do not overlap. The empty text
occurs before every character and at the end.
-/

/-!
## Blanks

The Unicode property White_Space, and trimming by it.
-/

namespace BindScript.Text

/-- A character with the property White_Space. -/
def isBlank (c : Char) : Bool :=
  let n := c.toNat
  (0x9 ≤ n && n ≤ 0xd) || n == 0x20 || n == 0x85 || n == 0xa0 || n == 0x1680 ||
    (0x2000 ≤ n && n ≤ 0x200a) || n == 0x2028 || n == 0x2029 || n == 0x202f || n == 0x205f ||
    n == 0x3000

/-- The text without its leading blanks. -/
def trimLeft (cs : List Char) : List Char :=
  cs.dropWhile isBlank

/-- The text without its trailing blanks. -/
def trimRight (cs : List Char) : List Char :=
  (cs.reverse.dropWhile isBlank).reverse

/-- The text without its leading and trailing blanks. -/
def trim (cs : List Char) : List Char :=
  trimRight (trimLeft cs)

/-! ## Occurrences -/

/-- The position of the first occurrence of a pattern, counted from `i`. -/
def indexFrom? (pattern : List Char) (i : Nat) : List Char → Option Nat
  | [] => if pattern.isEmpty then some i else none
  | c :: cs => if pattern.isPrefixOf (c :: cs) then some i else indexFrom? pattern (i + 1) cs

/-- How many characters stand before the first occurrence of a pattern. -/
def indexOf? (pattern cs : List Char) : Option Nat :=
  indexFrom? pattern 0 cs

/-- Whether a pattern occurs. -/
def containsText (pattern cs : List Char) : Bool :=
  (indexOf? pattern cs).isSome

/-- Cuts a text at the occurrences of a pattern. `done` holds the finished pieces and `piece` the current
one, both in reverse; `skip` tells how many characters of an occurrence are still to come. -/
def cutFrom (pattern : List Char) (done : List (List Char)) (piece : List Char) (skip : Nat) :
    List Char → List (List Char)
  | [] => (piece.reverse :: done).reverse
  | c :: cs =>
    match skip with
    | n + 1 => cutFrom pattern done piece n cs
    | 0 =>
      if pattern.isPrefixOf (c :: cs) then
        cutFrom pattern (piece.reverse :: done) [] (pattern.length - 1) cs
      else cutFrom pattern done (c :: piece) 0 cs

/-- The pieces between all occurrences of a pattern: one more than there are occurrences. -/
def cutAll (pattern cs : List Char) : List (List Char) :=
  if pattern.isEmpty then [] :: cs.map (fun c => [c]) ++ [[]] else cutFrom pattern [] [] 0 cs

/-- The pieces before and after the first occurrence of a pattern. -/
def cutFirst (pattern cs : List Char) : List (List Char) :=
  match indexOf? pattern cs with
  | none => [cs]
  | some i => [cs.take i, cs.drop (i + pattern.length)]

/-!
## Copies

Texts made of copies of a text. The copies are built by doubling, so a long text takes few steps.

`toList_repeated` says that the outcome is that many copies and nothing else, and `length_filled` that a
filler that is not empty fills exactly the room there is.
-/

/-- A number of copies of a text, one after another. -/
def repeated (text : String) : Nat → String
  | 0 => ""
  | n + 1 =>
    let half := repeated text ((n + 1) / 2)
    if (n + 1) % 2 = 0 then half ++ half else half ++ half ++ text
termination_by n => n
decreasing_by omega

/-- The first characters of the endless repetition of a text. -/
def filled (filler : String) (n : Nat) : String :=
  repeated filler (n / filler.length) ++ String.ofList (filler.toList.take (n % filler.length))

theorem toList_repeated (text : String) (n : Nat) :
    (repeated text n).toList = (List.replicate n text.toList).flatten := by
  fun_induction repeated text n with
  | case1 => rfl
  | case2 n half even ih =>
    have twice : n + 1 = (n + 1) / 2 + (n + 1) / 2 := by omega
    rw [String.toList_append, ih, ← List.flatten_append, List.replicate_append_replicate, ← twice]
  | case3 n half odd ih =>
    have twice : n + 1 = (n + 1) / 2 + (n + 1) / 2 + 1 := by omega
    rw [String.toList_append, String.toList_append, ih, ← List.flatten_append,
      List.replicate_append_replicate, ← List.flatten_concat, ← List.replicate_succ', ← twice]

theorem length_repeated (text : String) (n : Nat) : (repeated text n).length = n * text.length := by
  rw [← String.length_toList, toList_repeated, ← String.length_toList]
  simp

theorem length_filled {filler : String} (h : 0 < filler.length) (n : Nat) :
    (filled filler n).length = n := by
  have := Nat.mod_lt n h
  have := Nat.div_add_mod' n filler.length
  rw [filled, String.length_append, length_repeated, String.length_ofList, List.length_take,
    String.length_toList]
  omega

end BindScript.Text
