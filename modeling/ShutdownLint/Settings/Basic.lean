import ShutdownLint.Toml.Parser
/-!
The settings file: which rules are switched on or off.

A settings file is a TOML table. Its `rules` are a table with an entry for each rule that is set,
under any spelling, and entries of other names do not count. The entry of a rule is a table with the
switch `enabled`, or an array with nothing but this switch.
-/

set_option autoImplicit false

namespace ShutdownLint

/-- What the settings say about one rule. -/
structure RuleSetting where
  enabled : Option Bool
  deriving DecidableEq, Inhabited, Repr

structure Settings where
  /-- Identifies the shape of the file. -/
  schema : Option String
  /-- By rules as they are spelled in the file, each spelling once. -/
  rules : List (String × RuleSetting)
  deriving DecidableEq, Inhabited, Repr

namespace RuleSetting

def ofSwitch? : Option Toml.Value → Option RuleSetting
  | none => some ⟨none⟩
  | some (.boolean b) => some ⟨some b⟩
  | some _ => none

/-- Reads the entry of a rule. A date is a table without a switch. -/
def ofToml? : Toml.Value → Option RuleSetting
  | .table _ entries => ofSwitch? (entries.lookup "enabled")
  | .array _ [] => ofSwitch? none
  | .array _ [switch] => ofSwitch? (some switch)
  | .datetime _ => ofSwitch? none
  | _ => none

end RuleSetting

namespace Settings

/-- Settings that say nothing. -/
def empty : Settings :=
  ⟨none, []⟩

def schemaOfToml? : Option Toml.Value → Option (Option String)
  | none => some none
  | some (.string s) => some (some s)
  | some _ => none

def rulesOfToml? : Option Toml.Value → Option (List (String × RuleSetting))
  | none => some []
  | some (.table _ entries) =>
    entries.mapM fun (spelling, v) ↦ (RuleSetting.ofToml? v).map (spelling, ·)
  | some _ => none

def parse? (text : String) : Option Settings := do
  let document ← Toml.parse? text
  let schema ← schemaOfToml? (document.get? "schema")
  let rules ← rulesOfToml? (document.get? "rules")
  return { schema, rules }

end Settings

end ShutdownLint
