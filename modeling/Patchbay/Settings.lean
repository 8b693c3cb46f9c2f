import Patchbay.Program.Parser
import Patchbay.Report

/-!
# Settings of an analysis
-/

namespace Patchbay

/-- What callers may choose about an analysis. -/
structure Settings where
  /-- How many seconds it may take. -/
  timeout : Option Binary64
  /-- How deeply expressions may be nested. -/
  maxDepth : Int
  /-- How many quick fixes a report has at most. -/
  fixLimit : Int
  detail : Detail
  /-- The libraries that can be imported; none stands for the standard ones. -/
  dictionary : Option Libraries
deriving Inhabited

namespace Settings

/-- Settings without choices, and without a bound on time. -/
def standard : Settings := ⟨none, defaultDepth, defaultFixLimit, .basic, none⟩

/-- The libraries that can be imported. -/
def libraries (s : Settings) : Libraries := s.dictionary.getD standardLibraries

/-- The bound on time if it has passed before the analysis starts: one below a microsecond always has. -/
def expired? (s : Settings) : Option Binary64 :=
  s.timeout.filter fun seconds => seconds.lt (Binary64.ofDecimal false 1 (-6))

/-- A positive float. -/
def checkPositive (datum : Datum) : Checked Binary64 :=
  match datum.checkFloat with
  | .ok value => if (Binary64.ofNat 0).lt value then .ok value else Checked.refuse .greaterThan
  | refused => refused

/-- Settings from a record; what is absent has its standard value. -/
def check (datum : Datum) : Checked Settings := do
  let fields ← datum.checkRecord
  let (timeout, maxDepth, fixLimit, detail, dictionary) ←
    Checked.zip (Datum.defaulted "timeout_seconds" none (Datum.checkOption checkPositive) fields)
      (Checked.zip (Datum.defaulted "max_nesting_depth" defaultDepth (Datum.checkIntFrom 8) fields)
        (Checked.zip (Datum.defaulted "quick_fix_limit" defaultFixLimit (Datum.checkIntFrom 0) fields)
          (Checked.zip
            (Datum.defaulted "detail_level" .basic (Datum.checkNamed Detail.all Detail.name) fields)
            (Datum.defaulted "import_dictionary" none
              (Datum.checkOption (Datum.checkTable Library.check)) fields))))
  return ⟨timeout, maxDepth, fixLimit, detail, dictionary⟩

end Settings

end Patchbay
