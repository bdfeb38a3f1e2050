import Mathlib.Data.List.Forall2
import BindScript.Proofs.JsonText.Numerals
import BindScript.Value.Convert
import BindScript.Value.Json

/-!
# What values with the same JSON text have in common

JSON text leaves out and rewrites some values, and tells all others apart: two values with the same text are
alike down to their primitives (`Heap.resembles_of_json`), where `null`, `undefined`, functions and numbers that are
not finite count as the same (`Value.IsBlank`), and members that an object leaves out do not count at all.

Text is read from the left. The first character tells which kind of value comes, what follows a value never
goes on with a numeral, and so the texts of two values that start the same longer text end at the same place
(`Heap.jsonAt_unambiguous`).
-/

namespace BindScript

/-- The members of an object that are not left out. -/
def Heap.members (h : Heap) (omitted : Value → Bool) (o : Nat) : Entries Value :=
  (h.properties o).filter fun member => !omitted member.2

/-- The values are alike down to what is no container: arrays item by item, objects member by member, with their
keys in the same order. Members that are left out do not count. -/
inductive Heap.Resembles (h : Heap) (omitted : Value → Bool) (same : Value → Value → Prop) :
    Value → Value → Prop
  | leaf {v w : Value} : same v w → h.Resembles omitted same v w
  | array {a b : Nat} : List.Forall₂ (h.Resembles omitted same) (h.items a).toList (h.items b).toList →
      h.Resembles omitted same (.array a) (.array b)
  | object {o p : Nat} : (h.members omitted o).map Prod.fst = (h.members omitted p).map Prod.fst →
      List.Forall₂ (h.Resembles omitted same) ((h.members omitted o).map Prod.snd)
        ((h.members omitted p).map Prod.snd) →
      h.Resembles omitted same (.object o) (.object p)

namespace Value

/-- The values that JSON text has no form for, and `null`, which is written for them. -/
def IsBlank : Value → Prop
  | undefined | null | closure _ | native .. => True
  | number x => x.isFinite = false
  | _ => False

/-- Values that JSON text does not tell apart, containers aside. -/
def SameJson (v w : Value) : Prop :=
  v.IsBlank ∧ w.IsBlank ∨ v.strictEquals w = true

end Value

namespace JsonText

/-- The values with a form of their own in JSON text. -/
inductive Form
  | blank
  | bool (value : Bool)
  | number
  | string
  | array
  | object
  deriving DecidableEq

/-- The form that a text starts as. -/
def Form.ofStart : Char → Form
  | 'n' => blank
  | 't' => bool true
  | 'f' => bool false
  | '"' => string
  | '[' => array
  | '\x7b' => object
  | _ => number

/-- What comes after a value: no numeral goes on with it. -/
def StopsNumeral (rest : List Char) : Prop :=
  ∀ c ∈ rest.head?, isNumeralChar c = false

theorem stopsNumeral_cons {c : Char} (other : isNumeralChar c = false) (rest : List Char) :
    StopsNumeral (c :: rest) := by
  intro x mem
  cases mem
  exact other

end JsonText

open JsonText

/-- The form of a value. -/
def Value.form (v : Value) : Form :=
  match v with
  | bool b => .bool b
  | string _ => .string
  | array _ => .array
  | object _ => .object
  | number x => if x.isFinite then .number else .blank
  | _ => .blank

/-! ## Primitives -/

/-- A string ends at its closing quote. -/
theorem quote_unambiguous {s t : String} {rest rest' : List Char}
    (same : (quote s).toList ++ rest = (quote t).toList ++ rest') : s = t ∧ rest = rest' := by
  have chars : ∀ (u : String) (more : List Char),
      (quote u).toList ++ more = '"' :: (u.toList.flatMap escapeChar ++ '"' :: more) := by
    intro u more
    simp [quote, quoteChars]
  rw [chars, chars] at same
  have inside := (List.cons.inj same).2
  have taken := Dependency.takeQuoted?_escaped s.toList rest
  rw [inside, Dependency.takeQuoted?_escaped] at taken
  obtain ⟨escaped, rest⟩ := Prod.mk.inj (Option.some.inj taken)
  have quoted : quote s = quote t := by
    unfold quote quoteChars
    rw [List.append_cancel_right escaped]
  have read := congrArg parseString? quoted
  rw [parseString?_quote, parseString?_quote] at read
  exact ⟨Option.some.inj read, rest.symm⟩

/-- A numeral ends where its characters do. -/
theorem writeNumber_unambiguous {x y : Float} (finite : x.isFinite = true) (finite' : y.isFinite = true)
    {rest rest' : List Char} (stops : StopsNumeral rest) (stops' : StopsNumeral rest')
    (same : (writeNumber x).toList ++ rest = (writeNumber y).toList ++ rest') : (x == y) = true ∧ rest = rest' := by
  obtain ⟨taken, left⟩ := Dependency.takeWhile_stops (writesNumber finite).chars stops
  obtain ⟨taken', left'⟩ := Dependency.takeWhile_stops (writesNumber finite').chars stops'
  rw [same] at taken left
  have text : writeNumber x = writeNumber y := String.toList_injective (taken.symm.trans taken')
  exact ⟨eq_of_writeNumber finite finite' text, left.symm.trans left'⟩

/-! ## Items between brackets -/

section Items

variable {α : Type} {write : α → Option String} {R : α → α → Prop}

/-- A way of writing can be read from the left. -/
def Unambiguous (write : α → Option String) (R : α → α → Prop) : Prop :=
  ∀ a b text text' rest rest', write a = some text → write b = some text' →
    StopsNumeral rest → StopsNumeral rest' → text.toList ++ rest = text'.toList ++ rest' → R a b ∧ rest = rest'

/-- The texts of the items after the first one. -/
def moreItems (texts : List String) : List Char :=
  texts.flatMap fun text => ',' :: text.toList

theorem intercalate_cons (text : String) (texts : List String) :
    (",".intercalate (text :: texts)).toList = text.toList ++ moreItems texts := by
  induction texts generalizing text with
  | nil => simp [moreItems]
  | cons next texts ih =>
    have tail : moreItems (next :: texts) = ',' :: (next.toList ++ moreItems texts) := rfl
    have step : (",".intercalate (text :: next :: texts)) = text ++ "," ++ ",".intercalate (next :: texts) := by
      simp
    rw [step, String.toList_append, ih, tail]
    simp

variable {stop : Char} (close : isNumeralChar stop = false) (comma : stop ≠ ',') 
include close comma

/-- After an item, the list goes on with a comma or ends. -/
theorem moreItems_unambiguous (one : Unambiguous write R) {as bs : List α} {texts texts' : List String}
    {rest rest' : List Char} (written : as.mapM write = some texts) (written' : bs.mapM write = some texts')
    (same : moreItems texts ++ stop :: rest = moreItems texts' ++ stop :: rest') :
    List.Forall₂ R as bs ∧ rest = rest' := by
  have ends : ∀ (texts : List String) (rest : List Char), StopsNumeral (moreItems texts ++ stop :: rest) := by
    intro texts rest
    cases texts with
    | nil => exact stopsNumeral_cons close rest
    | cons => exact stopsNumeral_cons (show isNumeralChar ',' = false from rfl) _
  induction as generalizing bs texts texts' with
  | nil =>
    cases written
    cases bs with
    | nil =>
      cases written'
      exact ⟨.nil, (List.cons.inj same).2⟩
    | cons b bs =>
      rw [List.mapM_cons] at written'
      obtain ⟨text', -, written'⟩ := Option.bind_eq_some_iff.1 written'
      obtain ⟨texts', -, written'⟩ := Option.bind_eq_some_iff.1 written'
      cases written'
      exact absurd (List.cons.inj same).1 comma
  | cons a as ih =>
    rw [List.mapM_cons] at written
    obtain ⟨text, here, written⟩ := Option.bind_eq_some_iff.1 written
    obtain ⟨texts, later, written⟩ := Option.bind_eq_some_iff.1 written
    cases written
    cases bs with
    | nil =>
      cases written'
      exact absurd (List.cons.inj same).1.symm comma
    | cons b bs =>
      rw [List.mapM_cons] at written'
      obtain ⟨text', here', written'⟩ := Option.bind_eq_some_iff.1 written'
      obtain ⟨texts', later', written'⟩ := Option.bind_eq_some_iff.1 written'
      cases written'
      have same : text.toList ++ (moreItems texts ++ stop :: rest) =
          text'.toList ++ (moreItems texts' ++ stop :: rest') := by
        simpa [moreItems] using same
      obtain ⟨related, same⟩ := one _ _ _ _ _ _ here here' (ends texts rest) (ends texts' rest') same
      obtain ⟨others, ended⟩ := ih later later' same
      exact ⟨.cons related others, ended⟩

/-- Items between brackets, of which no item starts as the closing one. -/
theorem enclose_unambiguous (one : Unambiguous write R)
    (starts : ∀ a text, write a = some text → ∃ c more, text.toList = c :: more ∧ c ≠ stop) (opening : String)
    {level : Nat} {as bs : List α} {texts texts' : List String} {rest rest' : List Char}
    (written : as.mapM write = some texts) (written' : bs.mapM write = some texts')
    (same : (JsonLayout.compact.enclose level opening (.singleton stop) texts).toList ++ rest =
      (JsonLayout.compact.enclose level opening (.singleton stop) texts').toList ++ rest') :
    List.Forall₂ R as bs ∧ rest = rest' := by
  have chars : ∀ (texts : List String) (rest : List Char),
      (JsonLayout.compact.enclose level opening (.singleton stop) texts).toList ++ rest =
        opening.toList ++ ((",".intercalate texts).toList ++ stop :: rest) := by
    intro texts rest
    cases texts <;> simp [JsonLayout.enclose, JsonLayout.line]
  -- a list that ends right away and one that has an item differ in their first characters
  have ended : ∀ {text : String} {texts : List String} {a : α} {rest rest' : List Char}, write a = some text →
      stop :: rest ≠ (text.toList ++ moreItems texts) ++ stop :: rest' := by
    intro text texts a rest rest' written same
    obtain ⟨c, more, start, other⟩ := starts a text written
    rw [start] at same
    exact other (List.cons.inj same).1.symm
  rw [chars, chars] at same
  have same := List.append_cancel_left same
  cases as with
  | nil =>
    cases written
    cases bs with
    | nil =>
      cases written'
      exact ⟨.nil, (List.cons.inj same).2⟩
    | cons b bs =>
      rw [List.mapM_cons] at written'
      obtain ⟨text', here', written'⟩ := Option.bind_eq_some_iff.1 written'
      obtain ⟨texts', -, written'⟩ := Option.bind_eq_some_iff.1 written'
      cases written'
      rw [intercalate_cons] at same
      exact absurd same (ended here')
  | cons a as =>
    have all := written
    rw [List.mapM_cons] at written
    obtain ⟨text, here, written⟩ := Option.bind_eq_some_iff.1 written
    obtain ⟨texts, -, written⟩ := Option.bind_eq_some_iff.1 written
    cases written
    cases bs with
    | nil =>
      cases written'
      rw [intercalate_cons] at same
      exact absurd same.symm (ended here)
    | cons b bs =>
      have all' := written'
      rw [List.mapM_cons] at written'
      obtain ⟨text', -, written'⟩ := Option.bind_eq_some_iff.1 written'
      obtain ⟨texts', -, written'⟩ := Option.bind_eq_some_iff.1 written'
      cases written'
      rw [intercalate_cons, intercalate_cons] at same
      -- with a comma in front, the first items are like all others
      exact moreItems_unambiguous close comma one all all' (congrArg (',' :: ·) same)

end Items

/-! ## Values -/

/-- What a value is, by the form of its text. `undefined`, functions and numbers that are not finite are all written
`null`. -/
theorem Value.of_form (v : Value) :
    match v.form with
    | .blank => v.IsBlank
    | .bool b => v = .bool b
    | .number => ∃ x : Float, v = .number x ∧ x.isFinite = true
    | .string => ∃ s, v = .string s
    | .array => ∃ a, v = .array a
    | .object => ∃ o, v = .object o := by
  cases v with
  | number x =>
    cases finite : x.isFinite with
    | true =>
      have form : (Value.number x).form = .number := by simp [Value.form, finite]
      rw [form]
      exact ⟨x, rfl, finite⟩
    | false =>
      have form : (Value.number x).form = .blank := by simp [Value.form, finite]
      rw [form]
      exact finite
  | bool b => exact rfl
  | string s => exact ⟨s, rfl⟩
  | array a => exact ⟨a, rfl⟩
  | object o => exact ⟨o, rfl⟩
  | _ => exact trivial

namespace Heap

variable {h : Heap} {left level : Nat} {v : Value} {text : String}

/-- Blank values are written as `null`. -/
theorem text_of_isBlank (blank : v.IsBlank) (written : h.jsonAt .compact left level v = some text) :
    text = "null" := by
  cases left with
  | zero => cases written
  | succ left =>
    cases v with
    | number x =>
      cases written
      have infinite : x.isFinite = false := blank
      rw [writeNumber, infinite]
      rfl
    | undefined | null | closure | native =>
      cases written
      rfl
    | _ => exact blank.elim

theorem ofStart_of_numeral {c : Char} (start : c.isDigit = true ∨ c = '-') :
    Form.ofStart c = .number ∧ c ≠ ']' := by
  constructor
  · unfold Form.ofStart
    split
    case h_7 => rfl
    all_goals rcases start with digit | sign
    all_goals first | cases digit | cases sign
  · rintro rfl
    rcases start with digit | sign
    · cases digit
    · cases sign

theorem enclose_start (opening : Char) (closing : String) (level : Nat) (texts : List String) :
    ∃ more, (JsonLayout.compact.enclose level (.singleton opening) closing texts).toList = opening :: more := by
  cases texts with
  | nil => exact ⟨closing.toList, by simp [JsonLayout.enclose]⟩
  | cons text texts =>
    exact ⟨(",".intercalate (text :: texts) ++ closing).toList, by simp [JsonLayout.enclose, JsonLayout.line]⟩

/-- The first character of the text tells the form of the value. -/
theorem jsonAt_start (written : h.jsonAt .compact left level v = some text) :
    ∃ c more, text.toList = c :: more ∧ Form.ofStart c = v.form ∧ c ≠ ']' := by
  cases left with
  | zero => cases written
  | succ left =>
    cases v with
    | bool b =>
      cases written
      cases b
      · exact ⟨'f', _, rfl, rfl, by decide⟩
      · exact ⟨'t', _, rfl, rfl, by decide⟩
    | number x =>
      by_cases finite : x.isFinite = true
      · cases written
        obtain ⟨c, start, numeral⟩ := (writesNumber finite).start
        obtain ⟨more, chars⟩ := List.head?_eq_some_iff.1 start
        have form : (Value.number x).form = .number := by simp [Value.form, finite]
        rw [form]
        exact ⟨c, more, chars, ofStart_of_numeral numeral⟩
      · have blank : (Value.number x).IsBlank := Bool.eq_false_iff.2 finite
        have form : (Value.number x).form = .blank := by simp [Value.form, finite]
        rw [text_of_isBlank blank written, form]
        exact ⟨'n', _, rfl, rfl, by decide⟩
    | string s =>
      cases written
      exact ⟨'"', s.toList.flatMap escapeChar ++ ['"'], by simp [quote, quoteChars], rfl, by decide⟩
    | array a =>
      obtain ⟨texts, -, written⟩ := Option.bind_eq_some_iff.1 written
      cases written
      obtain ⟨more, chars⟩ := enclose_start '[' "]" level texts
      exact ⟨'[', more, chars, rfl, by decide⟩
    | object o =>
      obtain ⟨texts, -, written⟩ := Option.bind_eq_some_iff.1 written
      cases written
      obtain ⟨more, chars⟩ := enclose_start '\x7b' "\x7d" level texts
      exact ⟨'\x7b', more, chars, rfl, by decide⟩
    | undefined | null | closure | native =>
      cases written
      exact ⟨'n', _, rfl, rfl, by decide⟩

/-- The text of a member. -/
def writeMember (h : Heap) (left level : Nat) (member : String × Value) : Option String := do
  let value ← h.jsonAt .compact left level member.2
  return quote member.1 ++ JsonLayout.compact.colon ++ value

/-- A member is read from the left when its value is. -/
theorem writeMember_unambiguous {R : Value → Value → Prop} (value : Unambiguous (h.jsonAt .compact left level) R) :
    Unambiguous (h.writeMember left level) fun e f => e.1 = f.1 ∧ R e.2 f.2 := by
  intro e f text text' rest rest' written written' stops stops' same
  obtain ⟨value₁, here, written⟩ := Option.bind_eq_some_iff.1 written
  obtain ⟨value₂, here', written'⟩ := Option.bind_eq_some_iff.1 written'
  cases written
  cases written'
  have chars : ∀ (key value : String) (more : List Char),
      (quote key ++ JsonLayout.compact.colon ++ value).toList ++ more =
        (quote key).toList ++ ':' :: (value.toList ++ more) := by
    intro key value more
    simp [JsonLayout.colon]
  rw [chars, chars] at same
  obtain ⟨key, same⟩ := quote_unambiguous same
  obtain ⟨related, ended⟩ := value _ _ _ _ _ _ here here' stops stops' (List.cons.inj same).2
  exact ⟨⟨key, related⟩, ended⟩

/-- **The texts of two values that start the same longer text are the same, and the values are alike.** -/
theorem jsonAt_unambiguous (h : Heap) (left level : Nat) :
    Unambiguous (h.jsonAt .compact left level) (h.Resembles Value.isOmitted Value.SameJson) := by
  induction left generalizing level with
  | zero => intro _ _ _ _ _ _ written; cases written
  | succ left ih =>
    intro v w text text' rest rest' written written' stops stops' same
    have form : v.form = w.form := by
      obtain ⟨c, more, start, form, -⟩ := jsonAt_start written
      obtain ⟨c', more', start', form', -⟩ := jsonAt_start written'
      rw [start, start'] at same
      rw [← form, ← form', (List.cons.inj same).1]
    have isV := v.of_form
    have isW := w.of_form
    rw [form] at isV
    cases kind : w.form with
    | blank =>
      rw [kind] at isV isW
      rw [text_of_isBlank isV written, text_of_isBlank isW written'] at same
      exact ⟨.leaf (.inl ⟨isV, isW⟩), List.append_cancel_left same⟩
    | bool b =>
      rw [kind] at isV isW
      obtain rfl : v = .bool b := isV
      obtain rfl : w = .bool b := isW
      cases written
      cases written'
      exact ⟨.leaf (.inr (beq_self_eq_true b)), List.append_cancel_left same⟩
    | number =>
      rw [kind] at isV isW
      obtain ⟨x, rfl, finite⟩ := isV
      obtain ⟨y, rfl, finite'⟩ := isW
      cases written
      cases written'
      obtain ⟨equal, ended⟩ := writeNumber_unambiguous finite finite' stops stops' same
      exact ⟨.leaf (.inr equal), ended⟩
    | string =>
      rw [kind] at isV isW
      obtain ⟨s, rfl⟩ := isV
      obtain ⟨t, rfl⟩ := isW
      cases written
      cases written'
      obtain ⟨rfl, ended⟩ := quote_unambiguous same
      exact ⟨.leaf (.inr (beq_self_eq_true s)), ended⟩
    | array =>
      rw [kind] at isV isW
      obtain ⟨a, rfl⟩ := isV
      obtain ⟨b, rfl⟩ := isW
      obtain ⟨texts, inside, written⟩ := Option.bind_eq_some_iff.1 written
      obtain ⟨texts', inside', written'⟩ := Option.bind_eq_some_iff.1 written'
      cases written
      cases written'
      have starts : ∀ v text, h.jsonAt .compact left (level + 1) v = some text →
          ∃ c more, text.toList = c :: more ∧ c ≠ ']' := fun v text written =>
        have ⟨c, more, start, _, other⟩ := jsonAt_start written
        ⟨c, more, start, other⟩
      obtain ⟨items, ended⟩ := enclose_unambiguous rfl (by decide) (ih (level + 1)) starts "[" inside inside' same
      exact ⟨.array items, ended⟩
    | object =>
      rw [kind] at isV isW
      obtain ⟨o, rfl⟩ := isV
      obtain ⟨p, rfl⟩ := isW
      obtain ⟨texts, inside, written⟩ := Option.bind_eq_some_iff.1 written
      obtain ⟨texts', inside', written'⟩ := Option.bind_eq_some_iff.1 written'
      cases written
      cases written'
      have starts : ∀ member text, h.writeMember left (level + 1) member = some text →
          ∃ c more, text.toList = c :: more ∧ c ≠ '\x7d' := by
        intro member text written
        obtain ⟨value, -, written⟩ := Option.bind_eq_some_iff.1 written
        cases written
        exact ⟨'"', member.1.toList.flatMap escapeChar ++ '"' :: (":" ++ value).toList,
          by simp [quote, quoteChars, JsonLayout.colon], by decide⟩
      have inside : (h.members Value.isOmitted o).mapM (h.writeMember left (level + 1)) = some texts := inside
      have inside' : (h.members Value.isOmitted p).mapM (h.writeMember left (level + 1)) = some texts' := inside'
      have one := writeMember_unambiguous (ih (level + 1))
      obtain ⟨members, ended⟩ := enclose_unambiguous rfl (by decide) one starts "\x7b" inside inside' same
      refine ⟨.object ?_ ?_, ended⟩
      · exact List.forall₂_eq_eq_eq ▸ List.rel_map (fun _ _ related => related.1) members
      · exact List.rel_map (fun _ _ related => related.2) members

/-- **Values with the same JSON text are alike**, up to what JSON text leaves out or rewrites. -/
theorem resembles_of_json {v w : Value} {text : String} (written : h.json v none = .text text)
    (written' : h.json w none = .text text) : h.Resembles Value.isOmitted Value.SameJson v w := by
  have written_of : ∀ v, h.json v none = .text text → h.jsonAt .compact (maxJsonDepth + 1) 0 v = some text := by
    intro v written
    unfold json at written
    split at written
    · cases written
    · split at written
      next here =>
        cases written
        exact here
      next => cases written
  have none : StopsNumeral [] := by
    intro c mem
    cases mem
  have both := jsonAt_unambiguous h (maxJsonDepth + 1) 0 v w text text [] []
  exact (both (written_of v written) (written_of w written') none none rfl).1

end Heap

end BindScript
