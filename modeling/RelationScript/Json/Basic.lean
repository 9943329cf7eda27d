/-
# JSON values

A JSON value keeps the digits of its numbers as they are written.  The members of an object
are sorted by key, and a key occurs once.

* `Json` : the values;
* `Json.insertMember` : set a member, in place of an earlier one;
* `Json.member?` : look a member up.
-/

namespace RelationScript

/-- A JSON value. -/
inductive Json where
  | null
  | bool (value : Bool)
  | number (text : String)
  | string (value : String)
  | array (items : List Json)
  | object (members : List (String × Json))

namespace Json

/-- Set a member among members sorted by key. -/
def insertMember (key : String) (value : Json) : List (String × Json) → List (String × Json)
  | [] => [(key, value)]
  | (other, kept) :: members =>
    if key < other then (key, value) :: (other, kept) :: members
    else if key = other then (key, value) :: members
    else (other, kept) :: insertMember key value members

/-- The object of the given members, of which the last under a key counts. -/
def ofMembers (members : List (String × Json)) : Json :=
  object (members.foldl (fun sorted (key, value) => insertMember key value sorted) [])

/-- The member of an object under a key. -/
def member? (json : Json) (key : String) : Option Json :=
  match json with
  | object members => members.lookup key
  | _ => none

/-- The items of an array. -/
def items? : Json → Option (List Json)
  | array items => some items
  | _ => none

/-- The characters of a string. -/
def string? : Json → Option String
  | string value => some value
  | _ => none

end Json

end RelationScript
