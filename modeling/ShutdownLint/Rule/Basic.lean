import ShutdownLint.Text.Lines
import ShutdownLint.Text.WhiteSpace
/-!
The rules of the linter: one constructor each, with its identifier, its severity, the kind of file
it looks at and the wording of its findings.

Rules that concern a container have a place for its name in their wording. `Rule.ofSpelling?` is
the reading of identifiers that people type: case and surrounding white space do not matter.
-/

set_option autoImplicit false

namespace ShutdownLint

inductive Severity where
  | info
  | warning
  | error
  deriving DecidableEq, Inhabited, Repr

namespace Severity

def name : Severity → String
  | info => "info"
  | warning => "warning"
  | error => "error"

def ofName? : String → Option Severity
  | "info" => some info
  | "warning" => some warning
  | "error" => some error
  | _ => none

theorem ofName?_name (s : Severity) : ofName? s.name = some s := by
  cases s <;> rfl

end Severity

/-- The kinds of files that are analyzed. -/
inductive ArtifactKind where
  | buildFile
  | manifest
  deriving DecidableEq, Inhabited, Repr

namespace ArtifactKind

/-- How a kind is called in a text. -/
def name : ArtifactKind → String
  | buildFile => "build file"
  | manifest => "manifest"

end ArtifactKind

inductive Rule where
  /-- `ENTRYPOINT` runs its command through a shell. -/
  | shellEntrypoint
  /-- `CMD` runs its command through a shell. -/
  | shellCommand
  /-- A pod leaves its termination grace period to the default. -/
  | unsetGracePeriod
  /-- A container has no `preStop` hook. -/
  | missingPreStop
  /-- A container has no readiness probe. -/
  | missingReadinessProbe
  deriving DecidableEq, Inhabited, Repr

namespace Rule

/-- All rules, in the order of their identifiers. -/
def all : List Rule :=
  [shellEntrypoint, shellCommand, unsetGracePeriod, missingPreStop, missingReadinessProbe]

theorem mem_all (r : Rule) : r ∈ all := by
  cases r <;> decide

def id : Rule → String
  | shellEntrypoint => "DG001"
  | shellCommand => "DG002"
  | unsetGracePeriod => "DG101"
  | missingPreStop => "DG102"
  | missingReadinessProbe => "DG103"

/-- The identifiers that settings and overrides may name, in their order. -/
def allIds : List String :=
  ["DG001", "DG002", "DG101", "DG102", "DG103"]

/-- Whether this is one of the identifiers, exactly as it is written. -/
def isKnown (id : String) : Bool :=
  allIds.contains id

/-- The rule with exactly this identifier. -/
def ofId? (s : String) : Option Rule :=
  all.find? (·.id == s)

theorem ofId?_id (r : Rule) : ofId? r.id = some r := by
  cases r <;> decide

theorem id_of_ofId? {s : String} {r : Rule} (h : ofId? s = some r) : r.id = s := by
  simpa using List.find?_some h

/-- The form of an identifier in which it is looked up. -/
def normalize (s : String) : String :=
  Text.upper (Text.trim s)

/-- The rule that is meant by what somebody typed. -/
def ofSpelling? (s : String) : Option Rule :=
  ofId? (normalize s)

/-- Only a shell in front of the process that is to be stopped is an error. -/
def severity : Rule → Severity
  | shellEntrypoint => .error
  | _ => .warning

def target : Rule → ArtifactKind
  | shellEntrypoint => .buildFile
  | shellCommand => .buildFile
  | _ => .manifest

/-- Where the name of a container goes. -/
def placeholder : String := "\x7bcontainer\x7d"

/-- The wording of a finding. -/
def template : Rule → String
  | shellEntrypoint =>
    "ENTRYPOINT uses shell form: SIGTERM will NOT reach your process. " ++
      "Use exec form: ENTRYPOINT [\"executable\", \"arg\"]"
  | shellCommand =>
    "CMD uses shell form: signals may not propagate correctly. " ++
      "Prefer exec form: CMD [\"executable\", \"arg\"]"
  | unsetGracePeriod =>
    "terminationGracePeriodSeconds not set: defaults to 30s. " ++
      "Set it explicitly to match your actual shutdown duration."
  | missingPreStop =>
    "Container \"" ++ placeholder ++ "\": no preStop hook. Add \"sleep 5\" to let kube-proxy " ++
      "propagate iptables rule removal before SIGTERM."
  | missingReadinessProbe =>
    "Container \"" ++ placeholder ++ "\": no readinessProbe. Without it, the endpoint won't be " ++
      "removed from Service during shutdown."

/-- The wording for a container. -/
def messageFor (r : Rule) (container : String) : String :=
  Text.replace placeholder container r.template

end Rule

end ShutdownLint
