/-
# The manual

The texts that the command line shows about the language.

* `Manual.overview` : the list of topics;
* `Manual.Topic.ofName?` : the topic that a keyword names, in any case;
* `Manual.Topic.text` : what the manual has on a topic.
-/
import RelationScript.Text.Folding

namespace RelationScript.Manual

/-- Lines of text, each with a line feed. -/
def page (lines : List String) : String :=
  String.join (lines.map (· ++ "\n"))

/-! ## Topics -/

/-- What the manual has a text on. -/
inductive Topic where
  /-- The form of script lines. -/
  | lines
  /-- Set operators, products and precedence. -/
  | operators
  /-- Projections and selections. -/
  | brackets
  /-- Kinds of cells, and literals. -/
  | kinds
  /-- The faults of a script. -/
  | faults
  /-- Relations documents. -/
  | documents
  deriving DecidableEq

/-- The topic that a keyword names. -/
def Topic.ofName? (keyword : String) : Option Topic :=
  match Text.fold keyword with
  | "syntax" | "lines" => some lines
  | "operators" | "ops" => some operators
  | "selection" | "limit" | "projection" | "brackets" => some brackets
  | "types" | "type" => some kinds
  | "errors" | "error" => some faults
  | "relations" | "input" | "files" => some documents
  | _ => none

/-! ## Texts -/

/-- The list of topics, and the operators at a glance. -/
def overview : String :=
  page [
   "RELA DOCUMENTATION",
   "",
   "Rela is a relational-algebra script language. Each line combines or filters",
   "typed relations and binds the result to a new name for later lines.",
   "",
   "DOCUMENTATION CATEGORIES",
   "",
   "  syntax            Line structure, identifiers, comments",
   "  operators         Union, intersection, difference, product, precedence",
   "  selection         Projection and selection brackets",
   "  types             Numeric, string and date attributes and literals",
   "  errors            Error kinds and their messages",
   "  relations         Relations file format for 'rela run'",
   "",
   "QUICK REFERENCE",
   "",
   "  A | B -> R        Union",
   "  A & B -> R        Intersection",
   "  A \\ B -> R        Difference",
   "  A * B -> R        Cartesian product",
   "  A[x, y] -> R      Projection",
   "  A[x > 1] -> R     Selection",
   "",
   "Run 'rela doc <category>' for detailed documentation."]

/-- The form of script lines. -/
def onLines : String :=
  page [
   "SYNTAX",
   "",
   "Every line has the form",
   "",
   "  <expression> -> <name>",
   "",
   "The expression is evaluated against the relations bound so far and the result",
   "is bound to <name>, replacing any earlier binding with that name.",
   "",
   "Identifiers start with an ASCII letter or underscore, followed by ASCII",
   "letters, digits or underscores. Names are case-sensitive.",
   "",
   "Blank lines and lines starting with # are ignored.",
   "",
   "  # people in both tables",
   "  Users & Admins -> Both"]

/-- The operators and how they bind. -/
def onOperators : String :=
  page [
   "OPERATORS",
   "",
   "Lowest to highest precedence; all binary operators are left-associative.",
   "",
   "  &  |  \\           Intersection, union, difference",
   "  *                 Cartesian product",
   "  [...]             Projection or selection (postfix)",
   "  ( )               Grouping",
   "",
   "Set operators need both sides to have the same attributes, in the same",
   "order, with the same types. Results never contain duplicate rows.",
   "",
   "  (Users \\ Admins) | (Admins \\ Users) -> OnlyOne",
   "",
   "Product pairs every left row with every right row. Attributes present on",
   "both sides are renamed to Relation.attribute:",
   "",
   "  Users * Admins -> Pairs      # Users.id, Users.name, Admins.id, Admins.name",
   "",
   "Unnamed operands (for example a parenthesized union) are labelled _1 on the",
   "left and _2 on the right. A relation multiplied by itself labels the right",
   "side <name>_2."]

/-- Projections and selections. -/
def onBrackets : String :=
  page [
   "SELECTION AND PROJECTION",
   "",
   "Brackets containing a comparator select rows; otherwise they project.",
   "",
   "PROJECTION",
   "",
   "  Users[name] -> Names",
   "  (Users * Admins)[Users.name, Admins.name] -> NamePairs",
   "",
   "Attributes appear in the order listed. Duplicate rows are kept unless",
   "'rela run --dedup-projection' is given.",
   "",
   "SELECTION",
   "",
   "  Users[id > 1] -> Later",
   "  Users[name = 'John'] -> Johns",
   "  (Users * Admins)[Users.id = Admins.id] -> Matched",
   "",
   "Comparators: =  !=  <  <=  >  >=",
   "The right side is an attribute, a number, or a 'quoted' string."]

/-- Kinds of cells, and the literals of each. -/
def onKinds : String :=
  page [
   "TYPES",
   "",
   "  numeric           Decimal numbers; compared numerically",
   "  string            Text; compared lexicographically",
   "  date              YYYY-MM-DD; compared chronologically",
   "",
   "Literals take their type from how they are written:",
   "",
   "  42, -1, 3.5       numeric",
   "  'John'            string",
   "  '2024-01-31'      date, when compared against a date attribute",
   "",
   "Comparing a literal or attribute with an attribute of another type fails."]

/-- What can be wrong with a script. -/
def onFaults : String :=
  page [
   "ERRORS",
   "",
   "The first failing line stops the script.",
   "",
   "  Syntax error in '<line>': ...",
   "  Undefined relation: <name>",
   "  Cannot apply Union: relations' attribute types don't match",
   "  Cannot apply Projection(a, b): relation's attributes do not include b",
   "  Cannot apply Limit(name=1): 1 is not a string",
   "  Cannot apply Limit(id='John'): 'John' cannot be parsed into a number"]

/-- The form of relations documents. -/
def onDocuments : String :=
  page [
   "RELATIONS FILE",
   "",
   "'rela run --relations <file>' loads a JSON object of relations:",
   "",
   "  \x7b",
   "    \"Users\": \x7b",
   "      \"schema\": [",
   "        \x7b\"name\": \"id\", \"type\": \"numeric\"\x7d,",
   "        \x7b\"name\": \"name\", \"type\": \"string\"\x7d",
   "      ],",
   "      \"rows\": [[1, \"John\"], [2, \"Jane\"]]",
   "    \x7d",
   "  \x7d",
   "",
   "Date cells are \"YYYY-MM-DD\" strings. Output uses the same value encoding."]

/-- What the manual has on a topic. -/
def Topic.text : Topic → String
  | lines => onLines
  | operators => onOperators
  | brackets => onBrackets
  | kinds => onKinds
  | faults => onFaults
  | documents => onDocuments

end RelationScript.Manual
