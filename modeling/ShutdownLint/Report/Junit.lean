import ShutdownLint.Decimal.Digits
import ShutdownLint.Finding
/-!
Findings as a JUnit test suite.

Each finding is a test case, which has failed if the finding is an error. It is named for the rule
and the beginning of the message; its class is the file.
-/

set_option autoImplicit false

namespace ShutdownLint.Report

/-- The name under which the program appears in reports. -/
def displayName : String := "DrainGuard"

namespace Junit

/-- A text as the value of an attribute. Ampersands come first, so that those of the entities stay
as they are. -/
def escape (s : String) : String :=
  s |> Text.replace "&" "&amp;" |> Text.replace "\"" "&quot;" |> Text.replace "<" "&lt;"
    |> Text.replace ">" "&gt;"

/-- How many characters of a message are part of a name. -/
def messageLimit : Nat := 60

/-- The beginning of a message. -/
def shorten (message : String) : String :=
  String.ofList (message.toList.take messageLimit)

/-- An attribute with the space in front of it. -/
def attr (name value : String) : String :=
  " " ++ name ++ "=\"" ++ value ++ "\""

def failure (f : Finding) : String :=
  if f.severity = .error then "<failure" ++ attr "message" (escape f.message) ++ "/>" else ""

def testCase (f : Finding) : String :=
  "    <testcase" ++ attr "name" (f.rule ++ ": " ++ escape (shorten f.message)) ++
    attr "classname" (escape f.file) ++ ">" ++ failure f ++ "</testcase>\n"

def header (fs : List Finding) : String :=
  "<?xml version=\"1.0\"?>\n<testsuites>\n  <testsuite" ++ attr "name" displayName ++
    attr "tests" (Decimal.text fs.length) ++
    attr "failures" (Decimal.text (fs.countP (·.severity == .error))) ++ ">\n"

def footer : String := "  </testsuite>\n</testsuites>\n"

end Junit

def renderJunit (fs : List Finding) : String :=
  Junit.header fs ++ String.join (fs.map Junit.testCase) ++ Junit.footer

end ShutdownLint.Report
