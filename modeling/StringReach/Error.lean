import StringReach.Term.Basic
import StringReach.Text.Quoted

/-!
# Causes of failure

Every failure of the library is one of the causes below. The wording of each is given once, by
`Violation.message`, `FileFault.message` and `Error.message`.
-/

namespace StringReach

/-- A promise broken between the parts that build terms and the parts that read them. Imprecision
is never one of these: it shows as wildcards and warnings. -/
inductive Violation where
  /-- A box without content was to be evaluated. -/
  | pendingReached (node : Handle)
  /-- A term with a cycle was handed to the solver of acyclic terms. -/
  | recursiveTerm (root : Handle)
  /-- A call was met although calls are taken to be inlined. -/
  | callFollowed (node : Handle) (callee : String)
  /-- A box that already has content was to be filled. -/
  | illegalMutation (node : Handle) (found : Term)
  /-- A handle names no box. -/
  | danglingBox (node : Handle)
deriving DecidableEq, Repr

/-- The wording of a violation. -/
def Violation.message : Violation → String
  | .pendingReached node => "pending term reached at " ++ node.text
  | .recursiveTerm root => "unbounded solver applied to recursive term rooted at " ++ root.text
  | .callFollowed node callee =>
      "call to " ++ callee ++ " reached at " ++ node.text ++ " while calls are followed"
  | .illegalMutation node found =>
      "cannot refine " ++ node.text ++ ": slot holds " ++ found.kindName
  | .danglingBox node => "dangling box handle " ++ node.text

/-- Why a file could not be read or written. -/
inductive FileFault where
  | notFound
  | notDirectory
  | isDirectory
  | notUtf8
  /-- Any other refusal of the system, in its own words. -/
  | refused (reason : String)
deriving DecidableEq, Repr

/-- The wording of a file fault. -/
def FileFault.message : FileFault → String
  | .notFound => "No such file or directory (os error 2)"
  | .notDirectory => "Not a directory (os error 20)"
  | .isDirectory => "Is a directory (os error 21)"
  | .notUtf8 => "stream did not contain valid UTF-8"
  | .refused reason => reason

/-- Everything that can go wrong. -/
inductive Error where
  | file (fault : FileFault)
  /-- A text that is not a value of the expected shape. -/
  | malformed
  /-- A program file whose extension names no format. -/
  | unknownFormat (extension : String)
  /-- A settings file whose extension names no format. -/
  | unsupportedFormat (extension : Option String)
  /-- Settings that allow no iteration at all. -/
  | noIterations
  /-- A whole-program analysis gave up, for a reason of its own. -/
  | analysis (reason : String)
  | violation (broken : Violation)
  /-- A string that cannot be read as a pattern. -/
  | invalidPattern (source reason : String)
deriving DecidableEq, Repr

namespace Error

/-- The wording of an error. A malformed text has no further wording. -/
def message : Error → String
  | file fault => "IO error: " ++ fault.message
  | malformed => "Parse error"
  | unknownFormat extension => "Parse error: Unknown program format: " ++ extension
  | unsupportedFormat extension =>
      "Configuration error: unsupported configuration format: " ++ extension.getD "<none>"
  | noIterations => "Configuration error: max_iterations must be at least 1"
  | analysis reason => "Analysis error: " ++ reason
  | violation broken => "Contract violation: " ++ broken.message
  | invalidPattern source reason => "invalid pattern " ++ Text.quoted source ++ ": " ++ reason

/-- The wordings of the deeper causes of an error, outermost first. -/
def causes : Error → List String
  | file fault => [fault.message]
  | violation broken => [broken.message]
  | _ => []

end Error

instance : Coe Violation Error := ⟨Error.violation⟩

end StringReach
