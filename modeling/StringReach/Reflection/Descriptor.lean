import StringReach.Analysis.Results
import StringReach.Reflection.Kind
import StringReach.Reflection.Spelling
import Std.Data.ExtTreeMap

/-!
# Descriptors

A descriptor says which classes and members a reflective call may mean, by the strings resolved for
its operands.
-/

namespace StringReach

/-- A class, and a member of it, that a reflective call may mean. -/
structure Target where
  cls : Option String
  name : Option String
deriving DecidableEq, Repr, Inhabited

namespace Target

/-- Targets are ordered by class, then by name, absent ones first. -/
instance : Ord Target where
  compare := compareLex (compareOn cls) (compareOn name)

instance : Std.TransOrd Target :=
  inferInstanceAs (Std.TransCmp (compareLex (compareOn cls) (compareOn name)))

instance : Std.LawfulEqOrd Target where
  compare_self := Std.ReflCmp.compare_self
  eq_of_compare {a b} h := by
    change compareLex (compareOn cls) (compareOn name) a b = .eq at h
    simp only [compareLex_eq_eq, compareOn, Std.compare_eq_iff_eq] at h
    cases a
    cases b
    simp_all

/-- The target meant by a class string and a member string. A class of which nothing is known gives
none. A call for a new instance names the class itself. -/
def ofStrings? (kind : ReflectionKind) (cls : String) (member : Option String) : Option Target :=
  if Wildcard.isUnconstrained cls then
    none
  else
    let name := match kind with
      | .methodCall => member
      | .fieldCall => member
      | .classNewInstance => some cls
      | .constructorCall => none
      | .classCall => none
    some { cls := some (Spelling.plainClass cls), name := name.map Spelling.plainName }

end Target

/-- What a reflective call may mean. -/
structure Descriptor where
  site : Point
  kind : ReflectionKind
  targets : Std.ExtTreeSet Target
  /-- The warnings at the operands. -/
  warnings : Nat
deriving DecidableEq

namespace Descriptor

/-- The member strings to pair with each class string: none at all stands for an absent member. -/
def memberChoices (results : Results) (site : Point) (kind : ReflectionKind) :
    List (Option String) :=
  match kind.hasMember, results.stringsAt (site.operand Point.memberSlot) with
  | true, first :: rest => (first :: rest).map some
  | _, _ => [none]

/-- The targets of a site. -/
def targetsAt (results : Results) (site : Point) (kind : ReflectionKind) : List Target :=
  (results.stringsAt (site.operand Point.classSlot)).flatMap fun cls =>
    (memberChoices results site kind).filterMap fun member => Target.ofStrings? kind cls member

/-- The warnings at the operands of a site. -/
def warningsAt (results : Results) (site : Point) : Nat :=
  ([Point.classSlot, Point.memberSlot].filterMap fun slot =>
    (results.find? (site.operand slot)).map (·.warnings)).foldr (· + ·) 0

/-- The descriptor of a site, if it has a target. -/
def ofSite? (results : Results) (site : Point) (kind : ReflectionKind) : Option Descriptor :=
  let targets := targetsAt results site kind
  if targets.isEmpty then
    none
  else
    some { site, kind, targets := .ofList targets, warnings := warningsAt results site }

/-- The descriptors of all sites, in the order of the sites. -/
def ofSites (sites : Std.ExtTreeMap Point ReflectionKind) (results : Results) : List Descriptor :=
  sites.toList.filterMap fun entry => ofSite? results entry.1 entry.2

end Descriptor

end StringReach
