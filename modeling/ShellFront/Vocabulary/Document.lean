import ShellFront.Number.Shortest
import ShellFront.Text.Quoted

/-!
# Documents

The values that a data file can hold. A record keeps the order of its fields.

## Contents
- `Document`, `Document.field?`.
- `Document.render`, a value on one line.
- `Document.same`, equality that does not tell an integer from an equal real number.
-/

namespace ShellFront

/-- A value in a data file. -/
inductive Document where
  | null
  | boolean (value : Bool)
  | integer (value : Int)
  | real (value : Binary64)
  | text (value : String)
  | list (elements : List Document)
  | record (fields : List (String × Document))
deriving Inhabited

namespace Document

/-- The value of a field of a record. -/
def field? (name : String) : Document → Option Document
  | record fields => fields.lookup name
  | _ => none

/-! ## Rendering -/

mutual

/-- A value on one line. -/
def render : Document → String
  | null => "None"
  | boolean b => if b then "True" else "False"
  | integer n => toString n
  | real x => x.render
  | text s => Text.quote s
  | list elements => "[" ++ ", ".intercalate (renderAll elements) ++ "]"
  | record fields => "\x7b" ++ ", ".intercalate (renderFields fields) ++ "\x7d"

/-- Values on one line each. -/
def renderAll : List Document → List String
  | [] => []
  | d :: ds => d.render :: renderAll ds

/-- Fields on one line each. -/
def renderFields : List (String × Document) → List String
  | [] => []
  | (name, d) :: fs => s!"{Text.quote name}: {d.render}" :: renderFields fs

end

/-! ## Equality -/

/-- Whether an integer and a real number are equal. -/
def sameNumber (n : Int) : Binary64 → Bool
  | .finite negative significand exponent =>
      let whole : Int := if negative then -(significand : Int) else significand
      n * twoTo (-exponent).toNat == whole * twoTo exponent.toNat
  | .infinite _ => false

/-- Whether two real numbers are equal. Zero has two signs. -/
def sameReal : Binary64 → Binary64 → Bool
  | .finite _ 0 _, .finite _ 0 _ => true
  | a, b => a == b

mutual

/-- Whether two values are equal. An integer equals the real number of the same size, and records
    are equal whatever the order of their fields. -/
def same : Document → Document → Bool
  | null, null => true
  | boolean a, boolean b => a == b
  | integer a, integer b => a == b
  | integer a, real b => sameNumber a b
  | real a, integer b => sameNumber b a
  | real a, real b => sameReal a b
  | text a, text b => a == b
  | list as, list bs => sameAll as bs
  | record as, record bs => as.length == bs.length && sameFields as bs
  | _, _ => false

/-- Whether two lists hold equal values in the same order. -/
def sameAll : List Document → List Document → Bool
  | [], [] => true
  | a :: as, b :: bs => same a b && sameAll as bs
  | _, _ => false

/-- Whether every field is also among others, with an equal value. -/
def sameFields : List (String × Document) → List (String × Document) → Bool
  | [], _ => true
  | (name, a) :: as, others =>
      (match others.lookup name with
        | some b => same a b
        | none => false) && sameFields as others

end

/-- Whether some value comes twice in a list. -/
def hasRepeats : List Document → Bool
  | [] => false
  | d :: ds => ds.any (same d) || hasRepeats ds

end Document

end ShellFront
