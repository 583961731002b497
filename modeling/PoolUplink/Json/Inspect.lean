import PoolUplink.Json.Printer
import PoolUplink.Text.Quoted

/-!
# Values in diagnostics

Diagnostics show a value with the name of its kind, so that a missing value, `null`, and the text
`"null"` look different.
-/

set_option autoImplicit false
set_option relaxedAutoImplicit false

namespace PoolUplink.Json.Inspect

open PoolUplink.Text

def tagged (tag : String) (inner : List Char) : List Char :=
  tag.toList ++ '(' :: inner ++ [')']

mutual

def value : Value → List Char
  | .null => "Null".toList
  | .bool b => tagged "Bool" (if b then "true" else "false").toList
  | .number n => tagged "Number" n.chars
  | .string s => tagged "String" (Quoted.chars s.toList)
  | .array vs => "Array [".toList ++ items vs ++ [']']
  | .object ms => "Object \x7b".toList ++ members ms ++ ['\x7d']

def items : List Value → List Char
  | [] => []
  | [v] => value v
  | v :: w :: rest => value v ++ ',' :: ' ' :: items (w :: rest)

def members : List (String × Value) → List Char
  | [] => []
  | [(name, v)] => Quoted.chars name.toList ++ ':' :: ' ' :: value v
  | (name, v) :: m :: rest =>
    Quoted.chars name.toList ++ ':' :: ' ' :: value v ++ ',' :: ' ' :: members (m :: rest)

end

def optional {α : Type} (inner : α → List Char) : Option α → String
  | none => "None"
  | some a => String.ofList (tagged "Some" (inner a))

def text (v : Option Value) : String := optional value v

def quoted (s : Option String) : String := optional (fun t => Quoted.chars t.toList) s

end PoolUplink.Json.Inspect
