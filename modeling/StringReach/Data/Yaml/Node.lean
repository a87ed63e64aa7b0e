import StringReach.Data.Yaml.Token

/-!
# YAML nodes

The nodes of a document as they are written: scalars, lists, records, and aliases of other nodes. A
node that is left out is an absent scalar.
-/

namespace StringReach.Yaml

/-- A node, with anchors and aliases of some kind. -/
inductive Node (α : Type) where
  | reference (target : α)
  | scalar (anchor : Option α) (scalar : Scalar)
  | list (anchor : Option α) (tag : Option Tag) (items : List (Node α))
  | record (anchor : Option α) (tag : Option Tag) (entries : List (Node α × Node α))

/-- A node that is left out. -/
def Node.absent {α : Type} : Node α := .scalar none Scalar.absent

/-- A node whose anchors are names. -/
abbrev NamedNode := Node String

/-- Whether one of some tokens or nothing comes next. -/
def ends (among tokens : List Token) : Bool :=
  tokens.head?.all among.contains

/-- The anchor and the tag in front of a node. -/
structure Properties where
  anchor : Option String := none
  tag : Option Tag := none

namespace Properties

/-- Read an anchor, if there is one. -/
def anchor? : List Token → Option String × List Token
  | .anchor name :: rest => (some name, rest)
  | tokens => (none, tokens)

/-- Read a tag, if there is one; its handle has to be declared. -/
def tag? (handles : Handles) : List Token → Option (Option Tag × List Token)
  | .tag name :: rest => (name.resolve? handles).map (some ·, rest)
  | tokens => some (none, tokens)

/-- Read an anchor and a tag in any order, each at most once. -/
def read? (handles : Handles) (tokens : List Token) : Option (Properties × List Token) := do
  let (before, tokens) := anchor? tokens
  let (tag, tokens) ← tag? handles tokens
  let (after, tokens) := if before.isNone && tag.isSome then anchor? tokens else (none, tokens)
  pure ({ anchor := before.or after, tag }, tokens)

/-- A scalar with its properties. -/
def scalar (properties : Properties) (style : Style) (text : String) : NamedNode :=
  .scalar properties.anchor { text, style, tag := properties.tag }

/-- A list with its properties. -/
def list (properties : Properties) (items : List NamedNode) : NamedNode :=
  .list properties.anchor properties.tag items

/-- A record with its properties. -/
def record (properties : Properties) (entries : List (NamedNode × NamedNode)) : NamedNode :=
  .record properties.anchor properties.tag entries

/-- A node of which there are only properties; none if there are none. -/
def alone? (properties : Properties) : Option NamedNode :=
  if properties.anchor.isSome || properties.tag.isSome then
    some (properties.scalar .plain "")
  else none

end Properties

mutual

/-- Read a node. Without `block` it stands in brackets; with `dashes` it is the value of a key,
whose items need no indentation. -/
def node? (handles : Handles) (fuel : Nat) (block dashes : Bool) (tokens : List Token) :
    Option (NamedNode × List Token) :=
  match fuel, tokens with
  | 0, _ => none
  | _, .reference name :: rest => some (.reference name, rest)
  | fuel + 1, tokens => do
      let (properties, tokens) ← Properties.read? handles tokens
      content? handles fuel block dashes properties tokens

/-- Read a node after its properties. -/
def content? (handles : Handles) (fuel : Nat) (block dashes : Bool) (properties : Properties)
    (tokens : List Token) : Option (NamedNode × List Token) :=
  match fuel, tokens with
  | 0, _ => none
  | _, .scalar style text :: rest => some (properties.scalar style text, rest)
  | fuel + 1, .flowListStart :: rest => do
      let (items, rest) ← flowItems? handles fuel rest
      pure (properties.list items, rest)
  | fuel + 1, .flowRecordStart :: rest => do
      let (entries, rest) ← flowEntries? handles fuel rest
      pure (properties.record entries, rest)
  | fuel + 1, tokens =>
      match dashes, block, tokens with
      | true, _, .blockEntry :: _ => do
          let (items, rest) ← dashedItems? handles fuel tokens
          pure (properties.list items, rest)
      | _, true, .blockListStart :: rest => do
          let (items, rest) ← blockItems? handles fuel rest
          pure (properties.list items, rest)
      | _, true, .blockRecordStart :: rest => do
          let (entries, rest) ← blockEntries? handles fuel rest
          pure (properties.record entries, rest)
      | _, _, _ => properties.alone?.map (·, tokens)

/-- Read a node unless one of some tokens comes next. -/
def optionalNode? (handles : Handles) (fuel : Nat) (block dashes : Bool)
    (among tokens : List Token) : Option (NamedNode × List Token) :=
  match fuel with
  | 0 => none
  | fuel + 1 =>
      if ends among tokens then some (.absent, tokens)
      else node? handles fuel block dashes tokens

/-- Read the value of a key, of which the colon may be missing. -/
def valueAfterColon? (handles : Handles) (fuel : Nat) (block dashes : Bool)
    (among tokens : List Token) : Option (NamedNode × List Token) :=
  match fuel, tokens with
  | 0, _ => none
  | fuel + 1, .value :: rest => optionalNode? handles fuel block dashes among rest
  | _, _ => some (.absent, tokens)

/-- Read the items of an indented list up to its end. -/
def blockItems? (handles : Handles) (fuel : Nat) (tokens : List Token) :
    Option (List NamedNode × List Token) :=
  match fuel, tokens with
  | 0, _ => none
  | fuel + 1, .blockEntry :: rest => do
      let (item, rest) ← optionalNode? handles fuel true false [.blockEntry, .blockEnd] rest
      let (items, rest) ← blockItems? handles fuel rest
      pure (item :: items, rest)
  | _, .blockEnd :: rest => some ([], rest)
  | _, _ => none

/-- Read the items of a list that is not indented. -/
def dashedItems? (handles : Handles) (fuel : Nat) (tokens : List Token) :
    Option (List NamedNode × List Token) :=
  match fuel, tokens with
  | 0, _ => none
  | fuel + 1, .blockEntry :: rest => do
      let (item, rest) ←
        optionalNode? handles fuel true false [.blockEntry, .key, .value, .blockEnd] rest
      let (items, rest) ← dashedItems? handles fuel rest
      pure (item :: items, rest)
  | _, _ => some ([], tokens)

/-- Read the entries of an indented record up to its end. -/
def blockEntries? (handles : Handles) (fuel : Nat) (tokens : List Token) :
    Option (List (NamedNode × NamedNode) × List Token) :=
  match fuel, tokens with
  | 0, _ => none
  | fuel + 1, .key :: rest => do
      let among := [.key, .value, .blockEnd]
      let (key, rest) ← optionalNode? handles fuel true true among rest
      let (item, rest) ← valueAfterColon? handles fuel true true among rest
      let (entries, rest) ← blockEntries? handles fuel rest
      pure ((key, item) :: entries, rest)
  | _, .blockEnd :: rest => some ([], rest)
  | _, _ => none

/-- Read the key of an item in brackets. A key that is left out takes the token after it along. -/
def flowItemKey? (handles : Handles) (fuel : Nat) (tokens : List Token) :
    Option (NamedNode × List Token) :=
  match fuel, tokens with
  | 0, _ => none
  | _, .value :: rest => some (.absent, rest)
  | _, .flowEntry :: rest => some (.absent, rest)
  | _, .flowListEnd :: rest => some (.absent, rest)
  | fuel + 1, tokens => node? handles fuel false false tokens

/-- Read an item of a list in brackets; a key and a value without braces are a record. -/
def flowItem? (handles : Handles) (fuel : Nat) (tokens : List Token) :
    Option (NamedNode × List Token) :=
  match fuel, tokens with
  | 0, _ => none
  | fuel + 1, .key :: rest => do
      let (key, rest) ← flowItemKey? handles fuel rest
      let (item, rest) ←
        valueAfterColon? handles fuel false false [.flowEntry, .flowListEnd] rest
      pure (.record none none [(key, item)], rest)
  | fuel + 1, tokens => node? handles fuel false false tokens

/-- Read the items of a list in brackets and the closing bracket. -/
def flowItems? (handles : Handles) (fuel : Nat) (tokens : List Token) :
    Option (List NamedNode × List Token) :=
  match fuel, tokens with
  | 0, _ => none
  | _, .flowListEnd :: rest => some ([], rest)
  | fuel + 1, tokens => do
      let (item, rest) ← flowItem? handles fuel tokens
      match rest with
      | .flowEntry :: rest => do
          let (items, rest) ← flowItems? handles fuel rest
          pure (item :: items, rest)
      | .flowListEnd :: rest => some ([item], rest)
      | _ => none

/-- Read an entry of a record in braces; a node without a colon is a key without a value. -/
def flowEntry? (handles : Handles) (fuel : Nat) (tokens : List Token) :
    Option ((NamedNode × NamedNode) × List Token) :=
  match fuel, tokens with
  | 0, _ => none
  | fuel + 1, .key :: rest => do
      let (key, rest) ←
        optionalNode? handles fuel false false [.value, .flowEntry, .flowRecordEnd] rest
      let (item, rest) ←
        valueAfterColon? handles fuel false false [.flowEntry, .flowRecordEnd] rest
      pure ((key, item), rest)
  | fuel + 1, tokens => do
      let (key, rest) ← node? handles fuel false false tokens
      pure ((key, .absent), rest)

/-- Read the entries of a record in braces and the closing brace. -/
def flowEntries? (handles : Handles) (fuel : Nat) (tokens : List Token) :
    Option (List (NamedNode × NamedNode) × List Token) :=
  match fuel, tokens with
  | 0, _ => none
  | _, .flowRecordEnd :: rest => some ([], rest)
  | fuel + 1, tokens => do
      let (entry, rest) ← flowEntry? handles fuel tokens
      match rest with
      | .flowEntry :: rest => do
          let (entries, rest) ← flowEntries? handles fuel rest
          pure (entry :: entries, rest)
      | .flowRecordEnd :: rest => some ([entry], rest)
      | _ => none

end

/-- Take up directives: at most one version, which has to be known, and each handle once. -/
def declared? (version : Bool) (handles : Handles) : List Token → Option (Handles × List Token)
  | .directive (.version major minor) :: rest =>
      if !version && major = 1 && (minor = 1 || minor = 2) then declared? true handles rest
      else none
  | .directive (.handle name start) :: rest =>
      if (handles.lookup name).isNone then declared? version ((name, start) :: handles) rest
      else none
  | tokens => some (handles, tokens)

/-- Whether a directive or a document's rule or nothing comes next. -/
def atDocumentEdge : List Token → Bool
  | .directive _ :: _ => true
  | tokens => ends [.documentStart, .documentEnd] tokens

/-- Read the document at the start of the tokens. Between two tokens the reader descends at most
five levels. -/
def document? (tokens : List Token) : Option (NamedNode × List Token) := do
  let fuel := 6 * tokens.length + 6
  let (handles, rest) ← declared? false [] tokens
  match rest with
  | [] => if tokens.isEmpty then some (.absent, []) else none
  | .documentStart :: rest =>
      if atDocumentEdge rest then some (.absent, rest)
      else node? (handles ++ standardHandles) fuel true false rest
  | rest =>
      if rest.length = tokens.length then node? standardHandles fuel true false rest else none

end StringReach.Yaml
