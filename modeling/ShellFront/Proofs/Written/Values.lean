import ShellFront.Proofs.Twins.Views
import ShellFront.Token.Piece

/-!
# Values written out

Part of the expressions have one way to be written that needs no context: literals, variables, brackets, records,
calls, fields and methods, and operators whose operands bind tightly enough to need no parentheses. Here is which
they are and how they are written; that the parser reads them back is shown further on.

## Contents
- `IsName`, `IsIdentifier`, `IsVariable`.
- `Node.IsValue`, the expressions that are written out.
- `Node.written`.
- `Node.Alike`, equality but for places.
-/

namespace ShellFront

/-! ## Names -/

/-- What the lexer takes for one name: a letter or an underscore, then letters, digits and underscores, with dashes
    inside. -/
def IsName (name : String) : Prop :=
  ∃ c cs, name.toList = c :: cs ∧ isNameStart c = true ∧ Piece.nameLength cs = cs.length

/-- A name that is no keyword. -/
def IsIdentifier (name : String) : Prop := IsName name ∧ Keyword.ofText? name = none

/-- A name that can follow a dollar sign, but none that the language itself gives a meaning. -/
def IsVariable (name : String) : Prop :=
  (∃ c cs, name.toList = c :: cs ∧ isNameStart c = true ∧ ∀ d ∈ cs, isNameChar d = true) ∧
    name ∉ ["it", "_", "err", "env"]

/-- A key of a record that can be written: any name, or a string in double quotes. -/
def RecordKey.IsPlain : RecordKey → Prop
  | .name x => IsName x.name
  | .text s => s.style = .double

/-! ## Values -/

namespace Node

/-- How tightly an expression holds together next to an operator: as its own operator, or tighter than all of
    them. -/
def tightness : Node → Nat
  | .binary _ operator _ _ => operator.precedence
  | _ => 7

/-- Whether a field or a method can be glued to an expression. -/
def isTarget : Node → Bool
  | .variableUse .. | .literal _ (.string _ .double) | .call .. | .paren .. | .fieldAccess .. | .methodCall .. => true
  | _ => false

/-- Whether an expression can be an operand of an operator before it. -/
def isOperand : Node → Bool
  | .binary .. => false
  | _ => true

/-- The expressions that are written out. -/
inductive IsValue : Node → Prop where
  | integer {span : Span} {n : Nat} (h : (Nat.repr n).length ≤ Numeral.decimalLimit) :
      IsValue (.literal span (.integer n .decimal))
  | variableUse {span : Span} {name : String} (h : IsVariable name) : IsValue (.variableUse span name)
  | string {span : Span} {value : String} : IsValue (.literal span (.string value .double))
  | boolean {span : Span} {value : Bool} : IsValue (.literal span (.boolean value))
  | null {span : Span} : IsValue (.literal span .null)
  | list {span : Span} {elements : List Node} (h : ∀ e ∈ elements, IsValue e) : IsValue (.list span elements)
  | tuple {span : Span} {elements : List Node} (hlength : elements.length ≠ 1) (h : ∀ e ∈ elements, IsValue e) :
      IsValue (.tuple span elements)
  | paren {span : Span} {inner : Node} (h : IsValue inner) : IsValue (.paren span inner)
  | record {span : Span} {fields : List (RecordField Node)} (hkeys : ∀ f ∈ fields, f.key.IsPlain)
      (h : ∀ f ∈ fields, IsValue f.value) : IsValue (.record ⟨span, fields⟩)
  | call {span : Span} {callee : Ident} {args : List Node} (hname : IsIdentifier callee.name)
      (h : ∀ e ∈ args, IsValue e) : IsValue (.call span callee args)
  | fieldAccess {span : Span} {target : Node} {field : Ident} (htarget : target.isTarget = true)
      (hname : IsName field.name) (h : IsValue target) : IsValue (.fieldAccess span target field)
  | methodCall {span : Span} {target : Node} {method : Ident} {args : List Node} (htarget : target.isTarget = true)
      (hname : IsName method.name) (h : IsValue target) (hargs : ∀ e ∈ args, IsValue e) :
      IsValue (.methodCall span target method args)
  | unary {span : Span} {operator : UnaryOperator} {operand : Node} (hoperand : operand.isOperand = true)
      (h : IsValue operand) : IsValue (.unary span operator operand)
  | binary {span : Span} {operator : Operator} {left right : Node} (hleft : operator.precedence ≤ left.tightness)
      (hright : operator.precedence < right.tightness) (h : IsValue left) (h' : IsValue right) :
      IsValue (.binary span operator left right)

end Node

/-! ## Writing -/

/-- A character of a string, after a backslash if it is a quote or a backslash. -/
def escape (c : Char) : List Char := if c = '\x22' ∨ c = '\\' then ['\\', c] else [c]

/-- A string in double quotes. -/
def quoted (text : String) : String := "\x22" ++ String.ofList (text.toList.flatMap escape) ++ "\x22"

/-- Texts with a comma and a space between any two. -/
def commaJoined : List String → String
  | [] => ""
  | [text] => text
  | text :: texts => text ++ ", " ++ commaJoined texts

/-- The key of a record field as it is written. -/
def RecordKey.written : RecordKey → String
  | .name x => x.name
  | .text s => quoted s.value

mutual

/-- An expression as it is written. What is no value is left out. -/
def Node.written : Node → String
  | .literal _ (.integer value _) => Nat.repr value.toNat
  | .literal _ (.string value _) => quoted value
  | .literal _ (.boolean value) => if value then "true" else "false"
  | .literal _ .null => "null"
  | .variableUse _ name => "$" ++ name
  | .list _ elements => "[" ++ commaJoined (Node.allWritten elements) ++ "]"
  | .tuple _ elements => "(" ++ commaJoined (Node.allWritten elements) ++ ")"
  | .paren _ inner => "(" ++ inner.written ++ ")"
  | .record r => Record.written r
  | .call _ callee args => callee.name ++ "(" ++ commaJoined (Node.allWritten args) ++ ")"
  | .fieldAccess _ target field => target.written ++ "." ++ field.name
  | .methodCall _ target method args =>
      target.written ++ "." ++ method.name ++ "(" ++ commaJoined (Node.allWritten args) ++ ")"
  | .unary _ operator operand => operator.text ++ " " ++ operand.written
  | .binary _ operator left right => left.written ++ " " ++ operator.text ++ " " ++ right.written
  | _ => ""

def Node.allWritten : List Node → List String
  | [] => []
  | n :: ns => n.written :: Node.allWritten ns

def Record.written : Record Node → String
  | ⟨_, fields⟩ => "\x7b" ++ commaJoined (RecordField.allWritten fields) ++ "\x7d"

def RecordField.allWritten : List (RecordField Node) → List String
  | [] => []
  | ⟨_, key, value⟩ :: fields => (key.written ++ ": " ++ value.written) :: RecordField.allWritten fields

end

/-- A field of a record as it is written. -/
def RecordField.written (f : RecordField Node) : String := f.key.written ++ ": " ++ f.value.written

theorem Node.allWritten_eq (ns : List Node) : Node.allWritten ns = ns.map Node.written := by
  induction ns with
  | nil => rw [allWritten, List.map_nil]
  | cons n ns ih => rw [allWritten, ih, List.map_cons]

theorem RecordField.allWritten_eq (fields : List (RecordField Node)) :
    RecordField.allWritten fields = fields.map RecordField.written := by
  induction fields with
  | nil => rw [allWritten, List.map_nil]
  | cons f fields ih =>
      obtain ⟨span, key, value⟩ := f
      rw [allWritten, ih, List.map_cons, written]

theorem Node.written_list (span : Span) (ns : List Node) :
    (Node.list span ns).written.toList = '[' :: ((commaJoined (Node.allWritten ns)).toList ++ [']']) := by
  simp only [Node.written, String.toList_append]
  rfl

theorem Node.written_tuple (span : Span) (ns : List Node) :
    (Node.tuple span ns).written.toList = '(' :: ((commaJoined (Node.allWritten ns)).toList ++ [')']) := by
  simp only [Node.written, String.toList_append]
  rfl

/-! ## Equality but for places -/

/-- The view without places. -/
def View.unplaced : View := { View.plain with span := fun _ => .origin "" }

/-- Trees that are equal but for the places of their nodes. -/
def Node.Alike (m n : Node) : Prop := m.view .unplaced = n.view .unplaced

end ShellFront
