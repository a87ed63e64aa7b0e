import StringReach.Data.Yaml.Marks

/-!
# YAML tags, anchors and directives

A node may have an anchor, by which aliases refer to it, and a tag, which names its type. A tag is
given in full or by a handle that stands for the start of it. Directives in front of a document say
its version and declare handles.
-/

namespace StringReach.Yaml

/-- A tag, as the octets that its escapes stand for. -/
abbrev Tag := List UInt8

namespace Tag

/-- The octets of a text. -/
def ofString (text : String) : Tag :=
  text.toUTF8.toList

/-- The tag that is an exclamation mark alone. -/
def nonspecific : Tag := ofString "!"

/-- The start of the tags that everybody shares. -/
def sharedStart : Tag := ofString "tag:yaml.org,2002:"

/-- A tag that everybody shares. -/
def shared (name : String) : Tag :=
  sharedStart ++ ofString name

/-- Whether a tag starts with an exclamation mark. -/
def isMarked (tag : Tag) : Bool :=
  tag.head? = some 33

/-- Whether a tag has a meaning in its document only. -/
def isLocal (tag : Tag) : Bool :=
  tag.isMarked && (ByteArray.mk tag.toArray).validateUTF8

end Tag

/-- Handles and the starts of tags that they stand for. -/
abbrev Handles := List (String × Tag)

/-- The handles that need no declaration. -/
def standardHandles : Handles :=
  [("!", Tag.nonspecific), ("!!", Tag.sharedStart)]

/-- A tag as it is written. Without a handle it is given in full. -/
structure TagName where
  handle : Option String
  suffix : Tag
deriving DecidableEq, Repr

/-- The tag of a name; none if its handle is not declared. -/
def TagName.resolve? (name : TagName) (handles : Handles) : Option Tag :=
  match name.handle with
  | none => some name.suffix
  | some handle => (handles.lookup handle).map (· ++ name.suffix)

/-- Whether a character may stand in a tag; some of them only if no other node can follow. -/
def isTagChar (full : Bool) (c : Char) : Bool :=
  isWordChar c || ";/?:@&=+$.!~*'()".toList.contains c || (full && ",[]".toList.contains c)

/-- How many octets continue the sequence that an octet starts. -/
def continuations? (octet : Nat) : Option Nat :=
  if octet < 0x80 then some 0
  else if octet < 0xc0 then none
  else if octet < 0xe0 then some 1
  else if octet < 0xf0 then some 2
  else if octet < 0xf8 then some 3
  else none

/-- Read the octets of a tag. Escapes are complete sequences, of which `pending` octets are still
to come. -/
def octets? (full : Bool) (pending : Nat) : List Mark → Option (Tag × List Mark)
  | [] => if pending = 0 then some ([], []) else none
  | mark :: rest =>
      if mark.char = '%' then
        match rest with
        | high :: low :: rest => do
            let octet ← Digits.number? 16 [high.char, low.char]
            let pending ←
              if pending = 0 then continuations? octet
              else if 0x80 ≤ octet && octet < 0xc0 then some (pending - 1)
              else none
            let (octets, rest) ← octets? full pending rest
            pure (UInt8.ofNat octet :: octets, rest)
        | _ => none
      else if pending ≠ 0 then none
      else if isTagChar full mark.char then do
        let (octets, rest) ← octets? full 0 rest
        pure (UInt8.ofNat mark.char.toNat :: octets, rest)
      else some ([], mark :: rest)

/-- Read at least one octet of a tag. What follows an octet zero is no part of the tag. -/
def someOctets? (full : Bool) (text : List Mark) : Option (Tag × List Mark) := do
  let (octets, rest) ← octets? full 0 text
  if octets.isEmpty then none else some (octets.takeWhile (· ≠ 0), rest)

/-- Read the name of a tag after its exclamation mark. -/
def tagName? (text : List Mark) : Option (TagName × List Mark) :=
  if atAny ['<'] text then do
    let (octets, rest) ← someOctets? true (text.drop 1)
    if atAny ['>'] rest then some (⟨none, octets⟩, rest.drop 1) else none
  else
    let (word, rest) := splitWord text
    if atAny ['!'] rest then do
      let (octets, rest) ← someOctets? false (rest.drop 1)
      pure (⟨some ("!" ++ word ++ "!"), octets⟩, rest)
    else do
      let (octets, rest) ← octets? false 0 rest
      let suffix := Tag.ofString word ++ octets.takeWhile (· ≠ 0)
      if suffix.isEmpty then pure (⟨none, Tag.nonspecific⟩, rest)
      else pure (⟨some "!", suffix⟩, rest)

/-- Read a tag after its exclamation mark. White space follows it, or a comma inside brackets. -/
def tag? (inFlow : Bool) (text : List Mark) : Option (TagName × List Mark) := do
  let (name, rest) ← tagName? text
  if atSpace rest || (inFlow && atAny [','] rest) then some (name, rest) else none

/-- Read the name of an anchor. -/
def anchor? (text : List Mark) : Option (String × List Mark) :=
  let (name, rest) := splitWord text
  let ends := atSpace rest || atAny ['?', ':', ',', ']', '\x7d', '%', '@', '\x60'] rest
  if name ≠ "" && ends then some (name, rest) else none

/-- A line in front of a document. -/
inductive Directive where
  | version (major minor : Nat)
  | handle (name : String) (start : Tag)
deriving DecidableEq, Repr

namespace Directive

/-- The most digits of a version number. -/
def maxDigits : Nat := 9

/-- Read a number of a version. -/
def number? (text : List Mark) : Option (Nat × List Mark) := do
  let digits := text.takeWhile (·.char.isDigit)
  let value ← Digits.number? 10 (digits.map (·.char))
  if digits.length ≤ maxDigits then some (value, text.drop digits.length) else none

/-- Read a version. -/
def version? (text : List Mark) : Option (Directive × List Mark) := do
  let (major, rest) ← number? text
  if atAny ['.'] rest then do
    let (minor, rest) ← number? (rest.drop 1)
    pure (version major minor, rest)
  else none

/-- Read a handle that is to be declared. -/
def handleName? (text : List Mark) : Option (String × List Mark) :=
  if atAny ['!'] text then
    let (word, rest) := splitWord (text.drop 1)
    if atAny ['!'] rest then some ("!" ++ word ++ "!", rest.drop 1)
    else if word = "" then some ("!", rest)
    else none
  else none

/-- Read a handle and the start of tags that it stands for. -/
def handle? (text : List Mark) : Option (Directive × List Mark) := do
  let (name, rest) ← handleName? text
  if atSpace rest && !atLineEnd rest then do
    let (start, rest) ← someOctets? true (skipBlanks rest)
    if atSpace rest then some (handle name start, rest) else none
  else none

/-- Read a directive after its percent sign to the end of its line. -/
def read? (text : List Mark) : Option (Directive × List Mark) := do
  let (name, rest) := splitWord text
  let (directive, rest) ←
    if !atSpace rest then none
    else if name = "YAML" then version? (skipBlanks rest)
    else if name = "TAG" then handle? (skipBlanks rest)
    else none
  let rest ← skipLine? rest
  pure (directive, rest)

end Directive

end StringReach.Yaml
