import CallScript.Value.Table
import CallScript.Text.Blank
import CallScript.Text.Quoted

/-!
# Values

What functions take and give back: texts, 64-bit integers, arrays and null.

* `Value.render` is the text of a value, as a script sees it.
* `Value.inspect` is an unambiguous text for diagnosis.
* `Value.same` compares two values; whether an array always shows its keys is of no account.

Arrays hold values, so each of these goes through the entries of an array by recursion on the list
of entries.
-/

namespace CallScript

/-- A value of the language. -/
inductive Value
  | string (s : String)
  | integer (n : Int64)
  | array (t : Table Value)
  | null

instance : Inhabited Value := ⟨.null⟩

namespace Value

/-! ## 1. Kinds -/

/-- The name of the kind of a value. -/
def kindName : Value → String
  | .string _ => "string"
  | .integer _ => "int"
  | .array _ => "array"
  | .null => "null"

def isNull : Value → Bool
  | .null => true
  | _ => false

/-- The table of an array. -/
def table? : Value → Option (Table Value)
  | .array t => some t
  | _ => none

/-- The array of a list of values. -/
def ofList (vs : List Value) : Value := .array (Table.ofList vs)

/-! ## 2. Text -/

/-- Pieces of text between braces, with commas. -/
def braced (pieces : List String) : String := "\x7b" ++ ", ".intercalate pieces ++ "\x7d"

mutual

/-- The text of a value. An array shows its keys if it is associative. -/
def render : Value → String
  | .string s => s
  | .integer n => Decimal.render n
  | .null => "null"
  | .array ⟨⟨entries⟩, positions, next, keyed⟩ =>
    braced (renderEntries
      (Table.isAssociative (α := Value) ⟨⟨entries⟩, positions, next, keyed⟩) entries)

/-- The texts of entries, with their keys if `keyed`. -/
def renderEntries (keyed : Bool) : List (Key × Value) → List String
  | [] => []
  | (k, v) :: r =>
    (if keyed then k.render ++ ": " ++ v.render else v.render) :: renderEntries keyed r

end

mutual

/-- An unambiguous text of a value: texts are quoted and arrays show the kinds of their keys. -/
def inspect : Value → String
  | .string s => Text.quoted s
  | .integer n => Decimal.render n
  | .null => "null"
  | .array ⟨⟨entries⟩, _, _, _⟩ => braced (inspectEntries entries)

def inspectEntries : List (Key × Value) → List String
  | [] => []
  | (.index i, v) :: r =>
    ("Index(" ++ Decimal.render i ++ "): " ++ v.inspect) :: inspectEntries r
  | (.name s, v) :: r => ("Name(" ++ Text.quoted s ++ "): " ++ v.inspect) :: inspectEntries r

end

/-! ## 3. Comparison -/

mutual

/-- The values are the same; arrays are compared by their entries in order. -/
def same : Value → Value → Bool
  | .string s, .string s' => s = s'
  | .integer n, .integer n' => n = n'
  | .null, .null => true
  | .array ⟨⟨entries⟩, _, _, _⟩, .array t => sameEntries entries t.toList
  | _, _ => false

def sameEntries : List (Key × Value) → List (Key × Value) → Bool
  | [], [] => true
  | (k, v) :: r, (k', v') :: r' => k = k' && v.same v' && sameEntries r r'
  | _, _ => false

end

end Value

end CallScript
