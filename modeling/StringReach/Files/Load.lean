import StringReach.Analysis.Encoding
import StringReach.Files.Format
import StringReach.Files.Path

/-!
# Loading programs and settings

A program or settings are loaded from a file whose extension says what format it has. For a program
the extension is looked at first and its case does not matter; for settings the file is read first
and its case does.
-/

namespace StringReach

/-- Access to the files around the program. -/
structure FileAccess (m : Type → Type) where
  read (path : String) : m (Except FileFault ByteArray)
  write (path text : String) : m (Except FileFault Unit)

variable {m : Type → Type} [Monad m]

/-- Read the text of a file. -/
def FileAccess.readText (files : FileAccess m) (path : String) : ExceptT Error m String := do
  match ← files.read path with
  | .error fault => throw (.file fault)
  | .ok bytes =>
      match String.fromUTF8? bytes with
      | some text => pure text
      | none => throw (.file .notUtf8)

/-- Read a value of a shape from a text of a format. -/
def FileFormat.decode {α : Type} (format : FileFormat) (shape : Shape) (value? : Data → Option α)
    (text : String) : Except Error α :=
  match (format.read? shape text).bind value? with
  | some value => .ok value
  | none => .error .malformed

/-- Load a program. -/
def Program.load (files : FileAccess m) (path : String) : ExceptT Error m Program := do
  let extension := (Path.extension? path).getD ""
  match FileFormat.ofExtension? extension.toLower with
  | none => throw (.unknownFormat extension)
  | some format => do
      let text ← files.readText path
      liftExcept (format.decode Program.shape Program.ofData? text)

/-- Load settings, and refuse those under which nothing could run. -/
def Settings.load (files : FileAccess m) (path : String) : ExceptT Error m Settings := do
  let text ← files.readText path
  let extension := Path.extension? path
  match extension.bind FileFormat.ofExtension? with
  | none => throw (.unsupportedFormat extension)
  | some format => do
      let settings ← liftExcept (format.decode Settings.shape Settings.ofData? text)
      liftExcept settings.validate
      pure settings

end StringReach
