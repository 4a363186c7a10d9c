import ShutdownLint.Json.Basic
import ShutdownLint.Json.Quoted
/-!
JSON values as text.

A layout says what stands in front of each member at a depth and behind the name of a member.
`compact` has nothing to say; `pretty` puts each member on a line of its own, indented by two
columns for each collection around it. Collections without members take no space in either.
-/

set_option autoImplicit false

namespace ShutdownLint.Json

structure Layout where
  /-- In front of a member, or of the closing bracket, at a depth. -/
  lead : Nat → List Char
  colon : List Char

namespace Layout

def compact : Layout where
  lead := fun _ ↦ []
  colon := [':']

def pretty : Layout where
  lead := fun depth ↦ '\n' :: List.replicate (2 * depth) ' '
  colon := [':', ' ']

end Layout

mutual

def print (l : Layout) (depth : Nat) : Json → List Char
  | null => ['n', 'u', 'l', 'l']
  | bool true => ['t', 'r', 'u', 'e']
  | bool false => ['f', 'a', 'l', 's', 'e']
  | number text => text.toList
  | string s => quoted s
  | array [] => ['[', ']']
  | array (v :: vs) =>
    '[' :: l.lead (depth + 1) ++ print l (depth + 1) v ++ printItems l (depth + 1) vs ++
      l.lead depth ++ [']']
  | object [] => ['\x7b', '\x7d']
  | object ((name, v) :: ms) =>
    '\x7b' :: l.lead (depth + 1) ++ quoted name ++ l.colon ++ print l (depth + 1) v ++
      printMembers l (depth + 1) ms ++ l.lead depth ++ ['\x7d']

/-- The items behind the first one. -/
def printItems (l : Layout) (depth : Nat) : List Json → List Char
  | [] => []
  | v :: vs => ',' :: l.lead depth ++ print l depth v ++ printItems l depth vs

/-- The members behind the first one. -/
def printMembers (l : Layout) (depth : Nat) : List (String × Json) → List Char
  | [] => []
  | (name, v) :: ms =>
    ',' :: l.lead depth ++ quoted name ++ l.colon ++ print l depth v ++ printMembers l depth ms

end

def compact (v : Json) : String :=
  String.ofList (print .compact 0 v)

def pretty (v : Json) : String :=
  String.ofList (print .pretty 0 v)

end ShutdownLint.Json
