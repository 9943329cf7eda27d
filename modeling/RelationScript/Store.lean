/-
# Stores

A store binds names to relations.  It is a sorted map, so it lists its names by code points,
and two stores with the same bindings are equal.

* `Store.bind` : bind a name, in place of an earlier binding;
* `Store.names` : the bound names in order;
* `Store.showing` : the part of a store under chosen names.
-/
import RelationScript.Relation.Basic
import Std.Data.ExtTreeMap

namespace RelationScript

/-- The relations that a script can name. -/
abbrev Store := Std.ExtTreeMap String Relation

namespace Store

/-- No bindings. -/
def empty : Store := ∅

/-- The relation bound to a name. -/
def find? (store : Store) (name : String) : Option Relation :=
  store[name]?

/-- Bind a name to a relation. -/
def bind (store : Store) (name : String) (relation : Relation) : Store :=
  store.insert name relation

/-- The bindings, in the order of their names. -/
def bindings (store : Store) : List (String × Relation) :=
  store.toList

/-- The bound names, in order. -/
def names (store : Store) : List String :=
  store.keys

/-- The bindings of the chosen names, or all when none are chosen. -/
def showing (store : Store) (chosen : List String) : List (String × Relation) :=
  store.bindings.filter fun (name, _) => chosen.isEmpty || chosen.contains name

end Store

end RelationScript
