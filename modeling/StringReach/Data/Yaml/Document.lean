import StringReach.Data.Yaml.Node

/-!
# YAML documents

In a document every alias refers to a node with an anchor in front of it. An anchor gets as its
number how many names of anchors there are before it; a name stands for the last number it got, and
a number for the last node that got it.
-/

namespace StringReach.Yaml

/-- A node whose anchors are numbers. -/
abbrev NumberedNode := Node Nat

/-- A computation that knows the numbers of the names so far. -/
abbrev Numbering := StateT (List (String × Nat)) Option

namespace Numbering

/-- Number an anchor, if there is one. -/
def define : Option String → Numbering (Option Nat)
  | none => pure none
  | some name => do
      let numbers ← get
      set ((name, numbers.length) :: numbers.filter (·.1 ≠ name))
      pure (some numbers.length)

/-- The number of a name, which has to have one. -/
def find (name : String) : Numbering Nat := do
  let numbers ← get
  match numbers.lookup name with
  | some number => pure number
  | none => failure

end Numbering

namespace Node

mutual

/-- Number the anchors of a node in the order of the text. -/
def number : NamedNode → Numbering NumberedNode
  | reference name => do
      let target ← Numbering.find name
      pure (reference target)
  | scalar anchor content => do
      let anchor ← Numbering.define anchor
      pure (scalar anchor content)
  | list anchor tag items => do
      let anchor ← Numbering.define anchor
      let items ← numberItems items
      pure (list anchor tag items)
  | record anchor tag entries => do
      let anchor ← Numbering.define anchor
      let entries ← numberEntries entries
      pure (record anchor tag entries)

/-- Number the anchors of the items of a list. -/
def numberItems : List NamedNode → Numbering (List NumberedNode)
  | [] => pure []
  | item :: rest => do
      let item ← number item
      let rest ← numberItems rest
      pure (item :: rest)

/-- Number the anchors of the entries of a record. -/
def numberEntries : List (NamedNode × NamedNode) → Numbering (List (NumberedNode × NumberedNode))
  | [] => pure []
  | (key, item) :: rest => do
      let key ← number key
      let item ← number item
      let rest ← numberEntries rest
      pure ((key, item) :: rest)

end

/-- The anchor of a node. -/
def anchor? {α : Type} : Node α → Option α
  | reference _ => none
  | scalar anchor _ => anchor
  | list anchor _ _ => anchor
  | record anchor _ _ => anchor

mutual

/-- A node and all nodes inside of it, in the order of the text, in front of others. -/
def walk {α : Type} (node : Node α) (others : List (Node α)) : List (Node α) :=
  match node with
  | list anchor tag items => list anchor tag items :: walkItems items others
  | record anchor tag entries => record anchor tag entries :: walkEntries entries others
  | leaf => leaf :: others

/-- The items of a list and all nodes inside of them. -/
def walkItems {α : Type} (items others : List (Node α)) : List (Node α) :=
  match items with
  | [] => others
  | item :: rest => walk item (walkItems rest others)

/-- The entries of a record and all nodes inside of them. -/
def walkEntries {α : Type} (entries : List (Node α × Node α)) (others : List (Node α)) :
    List (Node α) :=
  match entries with
  | [] => others
  | (key, item) :: rest => walk key (walk item (walkEntries rest others))

end

/-- The number of places at which a node starts or ends: one for a scalar or an alias, two for a
list or record. -/
def edges {α : Type} : Node α → Nat
  | list _ _ _ => 2
  | record _ _ _ => 2
  | _ => 1

end Node

/-- A document. -/
structure Document where
  root : NumberedNode
  /-- The nodes that aliases may refer to, by their numbers, the last one first. -/
  targets : List (Nat × NumberedNode)
  /-- How many aliases may be followed to read it. -/
  allowance : Nat

namespace Document

/-- How many aliases may be followed for each place at which a node starts or ends. -/
def aliasesPerEdge : Nat := 100

/-- The document of a node; none if an alias refers to nothing. -/
def ofNode? (node : NamedNode) : Option Document := do
  let (root, _) ← (node.number).run []
  let nodes := root.walk []
  let targets := nodes.filterMap fun node => node.anchor?.map (·, node)
  let allowance := aliasesPerEdge * (nodes.map Node.edges).foldr (· + ·) 0
  pure { root, targets := targets.reverse, allowance }

/-- Read a text that holds one document. Nothing but lines that end it may follow it. -/
def read? (text : String) : Option Document := do
  let tokens ← tokens? text
  let (node, rest) ← document? tokens
  if rest.all (· = .documentEnd) then ofNode? node else none

end Document

end StringReach.Yaml
