import Cabin.Text.Basic

/-!
# JSON values

A value as `json.loads` returns it.  An object is a dictionary, in which a key stands once; of a
number only its text is kept.
-/

namespace Cabin

/-- A JSON value. -/
inductive Json where
  | null
  | bool (b : Bool)
  | num (text : Str)
  | str (s : Str)
  | arr (items : List Json)
  | obj (members : List (Str × Json))

namespace Json

/-- `dict.get`: a member, if the value is an object that has it. -/
def get? (v : Json) (name : String) : Option Json :=
  match v with
  | obj members => members.lookup (Str.of name)
  | _ => none

/-- The text of a string. -/
def str? : Json → Option Str
  | str s => some s
  | _ => none

mutual

/-- `==` on values: two objects are equal if they have the same members, in any order. -/
def same : Json → Json → Bool
  | null, null => true
  | bool a, bool b => a == b
  | num a, num b => a == b
  | str a, str b => a == b
  | arr xs, arr ys => sameItems xs ys
  | obj ms, obj ns => ms.length == ns.length && sameMembers ms ns
  | _, _ => false

/-- The arrays have the same items. -/
def sameItems : List Json → List Json → Bool
  | [], [] => true
  | x :: xs, y :: ys => x.same y && sameItems xs ys
  | _, _ => false

/-- The second object has the members of the first. -/
def sameMembers : List (Str × Json) → List (Str × Json) → Bool
  | [], _ => true
  | (name, v) :: rest, ns => (ns.lookup name).any v.same && sameMembers rest ns

end

mutual

/-- `repr` of a value. -/
def repr : Json → String
  | null => "None"
  | bool b => if b then "True" else "False"
  | num text => text.text
  | str s => s.repr
  | arr items => "[" ++ String.intercalate ", " (reprItems items) ++ "]"
  | obj members => "\x7b" ++ String.intercalate ", " (reprMembers members) ++ "\x7d"

/-- The items of an array. -/
def reprItems : List Json → List String
  | [] => []
  | v :: vs => v.repr :: reprItems vs

/-- The members of an object. -/
def reprMembers : List (Str × Json) → List String
  | [] => []
  | (name, v) :: rest => (name.repr ++ ": " ++ v.repr) :: reprMembers rest

end

end Json

/-- `repr` of a value that may be missing. -/
def Json.reprOption : Option Json → String
  | none => "None"
  | some v => v.repr

end Cabin
