import Stepwise.Scalar

/-!
Outlines: trees of labelled nodes with named fields, the common form in which any syntax tree is
shown. A node also carries its one-line form. The listing, the traversal and the one-line form of a
program are all read off its outline.
-/
namespace Stepwise

/-- Where a node starts in its source, as far as that is known. -/
structure Pos where
  line : Option Int := none
  column : Option Int := none
  deriving DecidableEq, Inhabited

mutual

inductive Outline where
  | mk (label : String) (pos : Pos) (text : String) (fields : List Field)

/-- A field is a value, a node, a list of nodes that is not empty, or a list of keys with nodes. -/
inductive Field where
  | value (name : String) (value : Spelled)
  | child (name : String) (node : Outline)
  | children (name : String) (nodes : List Outline)
  | keyed (name : String) (entries : List Entry)

/-- A node under a key. -/
inductive Entry where
  | mk (key : Spelled) (node : Outline)

end

instance : Inhabited Outline := ⟨.mk "" {} "" []⟩

namespace Outline

def label : Outline → String
  | .mk label _ _ _ => label

def pos : Outline → Pos
  | .mk _ pos _ _ => pos

/-- The one-line form. -/
def text : Outline → String
  | .mk _ _ text _ => text

def fields : Outline → List Field
  | .mk _ _ _ fields => fields

/-- A list of nodes in brackets, each in its one-line form. -/
def listText (nodes : List Outline) : String :=
  "[" ++ String.intercalate ", " (nodes.map text) ++ "]"

end Outline

def Entry.node : Entry → Outline
  | .mk _ node => node

/-- The nodes directly under a field. -/
def Field.nodes : Field → List Outline
  | .value _ _ => []
  | .child _ node => [node]
  | .children _ nodes => nodes
  | .keyed _ entries => entries.map Entry.node

/-- A list of nodes as a field: without nodes it is an empty list. -/
def Field.list (name : String) (nodes : List Outline) : Field :=
  if nodes.isEmpty then .value name ⟨"[]", true⟩ else .children name nodes

/-- Visits the waiting nodes from the first on, each before its children and the children before
the nodes that waited longer. -/
def walkFrom {α : Type} (children : α → List α) : Nat → List α → List α
  | 0, _ => []
  | _, [] => []
  | fuel + 1, node :: waiting => node :: walkFrom children fuel (children node ++ waiting)

namespace Outline

/-- The nodes directly under a node, in the order of its fields. -/
def children (node : Outline) : List Outline := node.fields.flatMap Field.nodes

mutual

/-- Number of nodes. -/
def size : Outline → Nat
  | .mk _ _ _ fields => sizeFields fields + 1

def sizeFields : List Field → Nat
  | [] => 0
  | field :: fields => sizeField field + sizeFields fields

def sizeField : Field → Nat
  | .value _ _ => 0
  | .child _ node => size node
  | .children _ nodes => sizeNodes nodes
  | .keyed _ entries => sizeEntries entries

def sizeNodes : List Outline → Nat
  | [] => 0
  | node :: nodes => size node + sizeNodes nodes

def sizeEntries : List Entry → Nat
  | [] => 0
  | entry :: entries => sizeEntry entry + sizeEntries entries

def sizeEntry : Entry → Nat
  | .mk _ node => size node

end

/-- A node and everything under it, depth first. Every visit removes one node, so the number of
nodes bounds the number of visits. -/
def walk (node : Outline) : List Outline := walkFrom children node.size [node]

def indentation (depth : Nat) : String := String.ofList (List.replicate (2 * depth) ' ')

/-- The fields without nodes, in the form `name=literal`. -/
def valueTexts : List Field → List String
  | [] => []
  | .value name value :: fields => s!"{name}={value.text}" :: valueTexts fields
  | _ :: fields => valueTexts fields

/-- The first line of a node's listing: its label, its values and its line. -/
def headline (node : Outline) : String :=
  let place := match node.pos.line with
    | some line => s!" @{line}"
    | none => ""
  let values := String.intercalate ", " (valueTexts node.fields)
  s!"{node.label}({values}){place}"

mutual

/-- One line for each node, indented under the name of the field it stands in. -/
def listing (depth : Nat) : Outline → List String
  | .mk label pos text fields =>
    (indentation depth ++ headline (.mk label pos text fields)) :: listFields depth fields

def listFields (depth : Nat) : List Field → List String
  | [] => []
  | field :: fields => listField depth field ++ listFields depth fields

def listField (depth : Nat) : Field → List String
  | .value _ _ => []
  | .child name node => (indentation depth ++ s!"  .{name}:") :: listing (depth + 2) node
  | .children name nodes => (indentation depth ++ s!"  .{name}:") :: listNodes depth nodes
  | .keyed name entries => (indentation depth ++ s!"  .{name}:") :: listEntries depth entries

def listNodes (depth : Nat) : List Outline → List String
  | [] => []
  | node :: nodes => listing (depth + 2) node ++ listNodes depth nodes

def listEntries (depth : Nat) : List Entry → List String
  | [] => []
  | entry :: entries => listEntry depth entry ++ listEntries depth entries

def listEntry (depth : Nat) : Entry → List String
  | .mk key node => (indentation depth ++ s!"    {key.text}:") :: listing (depth + 3) node

end

mutual

/-- Whether every value in an outline keeps within the digit limit. -/
def isWritable : Outline → Bool
  | .mk _ _ _ fields => fieldsWritable fields

def fieldsWritable : List Field → Bool
  | [] => true
  | field :: fields => fieldWritable field && fieldsWritable fields

def fieldWritable : Field → Bool
  | .value _ value => value.fits
  | .child _ node => isWritable node
  | .children _ nodes => nodesWritable nodes
  | .keyed _ entries => entriesWritable entries

def nodesWritable : List Outline → Bool
  | [] => true
  | node :: nodes => isWritable node && nodesWritable nodes

def entriesWritable : List Entry → Bool
  | [] => true
  | entry :: entries => entryWritable entry && entriesWritable entries

def entryWritable : Entry → Bool
  | .mk key node => key.fits && isWritable node

end

/-- The listing as one text; none beyond the digit limit. -/
def render? (node : Outline) : Option String :=
  if node.isWritable then some (Text.joinLines (node.listing 0)) else none

end Outline

end Stepwise
