import StringReach.Data.Yaml.Block
import StringReach.Data.Yaml.Inline
import StringReach.Data.Yaml.Scalar

/-!
# YAML tokens

Tokens make the structure explicit that a YAML text shows by columns. A block collection starts
where its first entry stands and ends before a line that is indented less. A node turns out to be a
key only when the colon after it is met, so the token that announces a key is put in afterwards.
-/

namespace StringReach.Yaml

/-- A unit of a YAML text. -/
inductive Token where
  | directive (directive : Directive)
  | documentStart
  | documentEnd
  | blockListStart
  | blockRecordStart
  | blockEnd
  | flowListStart
  | flowListEnd
  | flowRecordStart
  | flowRecordEnd
  /-- A comma inside brackets. -/
  | flowEntry
  /-- The dash of an item. -/
  | blockEntry
  | key
  | value
  | reference (name : String)
  | anchor (name : String)
  | tag (name : TagName)
  | scalar (style : Style) (text : String)
deriving Repr, DecidableEq

/-- A node that is a key if a colon follows it. -/
structure Candidate where
  /-- The number of tokens before it. -/
  position : Nat
  /-- Its first character. -/
  start : Mark
  /-- Whether nothing else than a key may stand where it stands. -/
  required : Bool

/-- The most bytes from the start of a key to its colon. -/
def maxKeyLength : Nat := 1024

/-- Whether a colon at a place comes too late: a key stands on one line and has a limited length. -/
def Candidate.isStale (candidate : Candidate) (mark : Mark) : Bool :=
  candidate.start.line < mark.line || candidate.start.offset + maxKeyLength < mark.offset

/-- Give up a candidate that comes to nothing; none if it had to be a key. -/
def Candidate.giveUp? : Option Candidate → Option (Option Candidate)
  | some candidate => if candidate.required then none else some none
  | none => some none

/-- What is known of a text that has been read in part. -/
structure Tokenizer where
  /-- The tokens found, the last one first. -/
  tokens : List Token := []
  /-- How many tokens there are. -/
  count : Nat := 0
  /-- The first column for a node inside the innermost block collection. -/
  margin : Nat := 0
  /-- The margins of the collections around it. -/
  outerMargins : List Nat := []
  /-- Whether a key may start here. -/
  keyAllowed : Bool := true
  /-- The candidate inside the innermost brackets. -/
  candidate : Option Candidate := none
  /-- The candidates outside of them, one for each pair of brackets. -/
  outerCandidates : List (Option Candidate) := []

namespace Tokenizer

/-- Whether brackets are open. -/
def inFlow (state : Tokenizer) : Bool :=
  !state.outerCandidates.isEmpty

/-- Add a token. -/
def emit (state : Tokenizer) (token : Token) : Tokenizer :=
  { state with tokens := token :: state.tokens, count := state.count + 1 }

/-- Put tokens in after the first `position` ones. -/
def insert (state : Tokenizer) (position : Nat) (tokens : List Token) : Tokenizer :=
  let (later, earlier) := state.tokens.splitAt (state.count - position)
  { state with
    tokens := later ++ tokens.reverse ++ earlier, count := state.count + tokens.length }

/-- The state with no candidate inside the innermost brackets. -/
def dropCandidate? (state : Tokenizer) : Option Tokenizer := do
  let candidate ← Candidate.giveUp? state.candidate
  pure { state with candidate }

/-- Give up all candidates for which a colon would come too late. -/
def expire? (state : Tokenizer) (mark : Mark) : Option Tokenizer := do
  let expireOne (candidate : Option Candidate) : Option (Option Candidate) :=
    if candidate.any (·.isStale mark) then Candidate.giveUp? candidate else some candidate
  let candidate ← expireOne state.candidate
  let outerCandidates ← state.outerCandidates.mapM expireOne
  pure { state with candidate, outerCandidates }

/-- Note that a node starts which may be a key. -/
def announce? (state : Tokenizer) (mark : Mark) : Option Tokenizer :=
  if state.keyAllowed then do
    let state ← state.dropCandidate?
    let required := !state.inFlow && state.margin = mark.column + 1
    let candidate := some ⟨state.count, mark, required⟩
    pure { state with candidate }
  else some state

/-- Of a margin and the margins around it, those that are left when every block collection ends to
which a column does not belong, or all of them without a column. -/
def remaining (column : Option Nat) : Nat → List Nat → Nat × List Nat
  | margin, [] => (margin, [])
  | margin, outer :: others =>
      if column.all (· + 1 < margin) then remaining column outer others
      else (margin, outer :: others)

/-- End the block collections that do not reach to a column, or all of them. -/
def closeBlocks (state : Tokenizer) (column : Option Nat) : Tokenizer :=
  if state.inFlow then state
  else
    let (margin, outerMargins) := remaining column state.margin state.outerMargins
    let closed := state.outerMargins.length - outerMargins.length
    { state with
      margin, outerMargins
      tokens := List.replicate closed .blockEnd ++ state.tokens
      count := state.count + closed }

/-- Start a block collection at a column unless it is already open, with its first tokens put in
after the first `position` ones. -/
def openBlock (state : Tokenizer) (column position : Nat) (start : Token) : Tokenizer :=
  if !state.inFlow && state.margin ≤ column then
    { state.insert position [start] with
      margin := column + 1, outerMargins := state.margin :: state.outerMargins }
  else state

/-- Start a block collection here, where a key has to be allowed. -/
def openBlockHere? (state : Tokenizer) (column : Nat) (start : Token) : Option Tokenizer :=
  if state.inFlow then some state
  else if state.keyAllowed then some (state.openBlock column state.count start)
  else none

/-- A directive, or a line that begins or ends a document. -/
def rule? (state : Tokenizer) (token : Token) : Option Tokenizer := do
  let state ← (state.closeBlocks none).dropCandidate?
  pure ({ state with keyAllowed := false }.emit token)

/-- An opening bracket. -/
def openFlow? (state : Tokenizer) (mark : Mark) (token : Token) : Option Tokenizer := do
  let state ← state.announce? mark
  pure ({ state with
    keyAllowed := true
    candidate := none
    outerCandidates := state.candidate :: state.outerCandidates }.emit token)

/-- A closing bracket. -/
def closeFlow? (state : Tokenizer) (token : Token) : Option Tokenizer := do
  let state ← state.dropCandidate?
  let (candidate, outerCandidates) := match state.outerCandidates with
    | candidate :: others => (candidate, others)
    | [] => (none, [])
  pure ({ state with keyAllowed := false, candidate, outerCandidates }.emit token)

/-- A comma inside brackets. -/
def comma? (state : Tokenizer) : Option Tokenizer := do
  let state ← state.dropCandidate?
  pure ({ state with keyAllowed := true }.emit .flowEntry)

/-- The dash of an item. -/
def dash? (state : Tokenizer) (mark : Mark) : Option Tokenizer := do
  let state ← state.openBlockHere? mark.column .blockListStart
  let state ← state.dropCandidate?
  pure ({ state with keyAllowed := true }.emit .blockEntry)

/-- The question mark before a key. -/
def question? (state : Tokenizer) (mark : Mark) : Option Tokenizer := do
  let state ← state.openBlockHere? mark.column .blockRecordStart
  let state ← state.dropCandidate?
  pure ({ state with keyAllowed := !state.inFlow }.emit .key)

/-- The colon before a value. -/
def colon? (state : Tokenizer) (mark : Mark) : Option Tokenizer := do
  match state.candidate with
  | some candidate =>
      let state := state.insert candidate.position [.key]
      let state := state.openBlock candidate.start.column candidate.position .blockRecordStart
      pure ({ state with candidate := none, keyAllowed := false }.emit .value)
  | none =>
      let state ← state.openBlockHere? mark.column .blockRecordStart
      pure ({ state with keyAllowed := !state.inFlow }.emit .value)

/-- A scalar, an alias, or an anchor or tag in front of a node: a key may start with it, and none
after it unless the line has been left. -/
def leaf? (state : Tokenizer) (mark : Mark) (token : Token) (leftLine : Bool) :
    Option Tokenizer := do
  let state ← state.announce? mark
  pure ({ state with keyAllowed := leftLine }.emit token)

/-- A block scalar, which is no key. -/
def blockScalar? (state : Tokenizer) (token : Token) : Option Tokenizer := do
  let state ← state.dropCandidate?
  pure ({ state with keyAllowed := true }.emit token)

/-- Pass over white space, ends of lines and comments, and over a byte order mark at the start of a
line. A key may start on a new line, except inside brackets; where one may start, a tab may not
stand. -/
def skip (inFlow : Bool) : Bool → Bool → List Mark → Bool × List Mark
  | keyAllowed, _, [] => (keyAllowed, [])
  | keyAllowed, inComment, mark :: rest =>
      if isBreak mark.char then skip inFlow (keyAllowed || !inFlow) false rest
      else if inComment || mark.char = ' ' || (mark.char = '\t' && (inFlow || !keyAllowed)) then
        skip inFlow keyAllowed inComment rest
      else if mark.char = '\ufeff' && mark.column = 0 then skip inFlow keyAllowed false rest
      else if mark.char = '#' then skip inFlow keyAllowed true rest
      else (keyAllowed, mark :: rest)

/-- Whether a plain scalar cannot start with a character. -/
def isIndicator (c : Char) : Bool :=
  [',', '[', ']', '\x7b', '\x7d', '#', '&', '*', '!', '|', '>', '\'', '"', '%', '@',
    '\x60'].contains c

/-- Read the token that starts at a mark. -/
def token? (state : Tokenizer) (mark : Mark) (rest : List Mark) :
    Option (Tokenizer × List Mark) :=
  let text := mark :: rest
  let indicated := state.inFlow || atSpace rest
  if mark.column = 0 && mark.char = '%' then do
    let (directive, rest) ← Directive.read? rest
    let state ← state.rule? (.directive directive)
    pure (state, rest)
  else if atRule '-' text then (state.rule? .documentStart).map (·, rest.drop 2)
  else if atRule '.' text then (state.rule? .documentEnd).map (·, rest.drop 2)
  else match mark.char with
    | '[' => (state.openFlow? mark .flowListStart).map (·, rest)
    | '\x7b' => (state.openFlow? mark .flowRecordStart).map (·, rest)
    | ']' => (state.closeFlow? .flowListEnd).map (·, rest)
    | '\x7d' => (state.closeFlow? .flowRecordEnd).map (·, rest)
    | ',' => state.comma?.map (·, rest)
    | '*' => do
        let (name, rest) ← anchor? rest
        let state ← state.leaf? mark (.reference name) false
        pure (state, rest)
    | '&' => do
        let (name, rest) ← anchor? rest
        let state ← state.leaf? mark (.anchor name) false
        pure (state, rest)
    | '!' => do
        let (name, rest) ← tag? state.inFlow rest
        let state ← state.leaf? mark (.tag name) false
        pure (state, rest)
    | '"' => do
        let (text, rest) ← doubleQuoted? rest {} []
        let state ← state.leaf? mark (.scalar .quoted text) false
        pure (state, rest)
    | '\'' => do
        let (text, rest) ← singleQuoted? rest {} []
        let state ← state.leaf? mark (.scalar .quoted text) false
        pure (state, rest)
    | c =>
        if c = '-' && atSpace rest then (state.dash? mark).map (·, rest)
        else if c = '?' && indicated then (state.question? mark).map (·, rest)
        else if c = ':' && indicated then (state.colon? mark).map (·, rest)
        else if (c = '|' || c = '>') && !state.inFlow then do
          let (text, rest) ← Yaml.blockScalar? (c = '|') state.margin rest
          let style := if c = '|' then Style.literal else Style.folded
          let state ← state.blockScalar? (.scalar style text)
          pure (state, rest)
        else if isSpace c || isIndicator c then none
        else do
          let scalar ← plain? state.inFlow state.margin text {} []
          let state ← state.leaf? mark (.scalar .plain scalar.value) scalar.leftLine
          pure (state, scalar.rest)

/-- The tokens of a text of which all has been read. -/
def finish? (state : Tokenizer) : Option (List Token) := do
  let state ← (state.closeBlocks none).dropCandidate?
  pure state.tokens.reverse

/-- Read all tokens. Each takes a character, so the length of the text is enough fuel. -/
def run? (fuel : Nat) (state : Tokenizer) (text : List Mark) : Option (List Token) :=
  let (keyAllowed, text) := skip state.inFlow state.keyAllowed false text
  let state := { state with keyAllowed }
  match fuel, text with
  | _, [] => state.finish?
  | 0, _ => none
  | fuel + 1, mark :: rest => do
      let state ← state.expire? mark
      let (state, rest) ← (state.closeBlocks (some mark.column)).token? mark rest
      run? fuel state rest

end Tokenizer

/-- The tokens of a text. -/
def tokens? (text : String) : Option (List Token) := do
  let marks ← marks? text
  Tokenizer.run? marks.length {} marks

end StringReach.Yaml
