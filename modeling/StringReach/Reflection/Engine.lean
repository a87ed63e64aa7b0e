/-!
# Engines for regular expressions

Strings are matched by an engine for regular expressions, which comes from elsewhere: nothing here
depends on how it works. The small engine at the end serves where no other is given.
-/

namespace StringReach

/-- An engine for regular expressions. -/
structure Engine where
  /-- The expression that stands for a text. -/
  escape : String → String
  /-- The test whether an expression is found in a text, or the reason why there is none. -/
  compile : String → Except String (String → Bool)

namespace Engine

/-- A part of an expression. -/
inductive Part where
  /-- The place where a text begins. -/
  | start
  /-- The place where a text ends. -/
  | stop
  /-- Any text without a line break. -/
  | run
  /-- The text itself. -/
  | literal (text : String)
deriving DecidableEq, Repr

/-! ## Reading an expression -/

/-- The characters that do not stand for themselves in an expression. -/
def special : List Char :=
  ['\\', '.', '+', '*', '?', '(', ')', '|', '[', ']', '\x7b', '\x7d', '^', '$', '#', '&', '-', '~']

/-- A character as it is written in an expression in which it stands for itself. -/
def escapeChar (c : Char) : List Char :=
  if special.contains c then ['\\', c] else [c]

/-- The part that a single character stands for. -/
def ofChar (c : Char) : Part :=
  .literal (String.singleton c)

/-- The parts of an expression, if it has no others. -/
def parts? : List Char → Option (List Part)
  | [] => some []
  | '^' :: rest => (parts? rest).map (.start :: ·)
  | '$' :: rest => (parts? rest).map (.stop :: ·)
  | '.' :: '*' :: rest => (parts? rest).map (.run :: ·)
  | '\\' :: c :: rest => if special.contains c then (parts? rest).map (ofChar c :: ·) else none
  | c :: rest => if special.contains c then none else (parts? rest).map (ofChar c :: ·)

/-! ## Finding an expression

A table says for each place in a text, from the first to the last, whether parts match from there
on. -/

/-- The table of a character, given that of the parts after it. -/
def charTable (c : Char) : List Char → List Bool → List Bool
  | d :: text, _ :: rest => (c == d && rest.headD false) :: charTable c text rest
  | _, _ => [false]

/-- The table of a run, given that of the parts after it. -/
def runTable : List Char → List Bool → List Bool
  | d :: text, here :: rest =>
      let later := runTable text rest
      (here || (d != '\n' && later.headD false)) :: later
  | _, rest => rest

/-- The table of the end of a text, given that of the parts after it. -/
def stopTable : List Char → List Bool → List Bool
  | _ :: text, _ :: rest => false :: stopTable text rest
  | _, rest => rest

/-- The table of the beginning of a text, given that of the parts after it. -/
def startTable : List Bool → List Bool
  | [] => []
  | here :: rest => here :: rest.map fun _ => false

/-- The table of some parts. -/
def table (text : List Char) : List Part → List Bool
  | [] => true :: text.map fun _ => true
  | .start :: rest => startTable (table text rest)
  | .stop :: rest => stopTable text (table text rest)
  | .run :: rest => runTable text (table text rest)
  | .literal word :: rest => word.toList.foldr (charTable · text ·) (table text rest)

/-! ## The engine -/

/-- The size of what a part is compiled to, in bytes. -/
def Part.size : Part → Nat
  | .start => 32
  | .stop => 32
  | .run => 464
  | .literal text => 32 * text.utf8ByteSize

/-- The largest size that an expression may have. -/
def sizeLimit : Nat := 10485760

/-- An engine for expressions that have no other parts than the ones above. -/
def standard : Engine where
  escape text := String.ofList (text.toList.flatMap escapeChar)
  compile expression :=
    match parts? expression.toList with
    | none => .error "Unsupported expression."
    | some parts =>
        if sizeLimit < (parts.map Part.size).foldr (· + ·) 0 then
          .error ("Compiled regex exceeds size limit of " ++ sizeLimit.repr ++ " bytes.")
        else
          .ok fun text => (table text.toList parts).any id

end Engine

end StringReach
