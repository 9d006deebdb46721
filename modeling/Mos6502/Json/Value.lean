import Mos6502.Json.Literal
import Mos6502.Json.Numeral

/-! JSON values, and the two ways of writing them: on one line without any space, or one item to a
line, indented by two spaces for each level. -/
namespace Mos6502.Json

inductive Value
  | null
  | bool (b : Bool)
  | number (n : Number)
  | string (s : String)
  | array (items : List Value)
  | object (fields : List (String × Value))
  deriving Inhabited

def Number.text : Number → String
  | .natural n => toString n
  | .negative n => "-" ++ toString n
  | .float x => floatText x

namespace Value

def natural (n : Nat) : Value := .number (.natural n)

mutual

def compact : Value → List Char
  | .null => ['n', 'u', 'l', 'l']
  | .bool true => ['t', 'r', 'u', 'e']
  | .bool false => ['f', 'a', 'l', 's', 'e']
  | .number n => n.text.toList
  | .string s => literalText s
  | .array items => '[' :: (compactItems items ++ [']'])
  | .object fields => '\x7b' :: (compactFields fields ++ ['\x7d'])

def compactItems : List Value → List Char
  | [] => []
  | [v] => compact v
  | v :: rest => compact v ++ ',' :: compactItems rest

def compactFields : List (String × Value) → List Char
  | [] => []
  | [(key, v)] => literalText key ++ ':' :: compact v
  | (key, v) :: rest => literalText key ++ ':' :: (compact v ++ ',' :: compactFields rest)

end

def compactText (v : Value) : String := String.ofList v.compact

/-- The beginning of a line at some level. -/
def newLine (level : Nat) : List Char := '\n' :: List.replicate (2 * level) ' '

mutual

/-- Writes a value at some level; what it holds is one level deeper. -/
def indented (level : Nat) : Value → List Char
  | .array (v :: rest) => '[' :: (indentedItems level (v :: rest) ++ newLine level ++ [']'])
  | .object ((key, v) :: rest) =>
    '\x7b' :: (indentedFields level ((key, v) :: rest) ++ newLine level ++ ['\x7d'])
  | .array [] => ['[', ']']
  | .object [] => ['\x7b', '\x7d']
  | .null => compact .null
  | .bool b => compact (.bool b)
  | .number n => compact (.number n)
  | .string s => compact (.string s)

def indentedItems (level : Nat) : List Value → List Char
  | [] => []
  | [v] => newLine (level + 1) ++ indented (level + 1) v
  | v :: rest => newLine (level + 1) ++ (indented (level + 1) v ++ ',' :: indentedItems level rest)

def indentedFields (level : Nat) : List (String × Value) → List Char
  | [] => []
  | [(key, v)] =>
    newLine (level + 1) ++ (literalText key ++ ':' :: ' ' :: indented (level + 1) v)
  | (key, v) :: rest =>
    newLine (level + 1) ++
      (literalText key ++ ':' :: ' ' :: (indented (level + 1) v ++ ',' :: indentedFields level rest))

end

def prettyText (v : Value) : String := String.ofList (v.indented 0)

end Value
end Mos6502.Json
