import ShutdownLint.Rule.Basic
/-!
What a rule means, why it matters and how to follow it.

`Explanation.render` lays an explanation out for a terminal. Its heading is underlined to its
length; the severity and the language of the examples are those of the rule, if there is one with
the identifier in the heading.
-/

set_option autoImplicit false

namespace ShutdownLint

structure Explanation where
  title : String
  description : String
  remediation : String
  /-- A text that violates the rule. -/
  before : String
  /-- The same text after it has been mended. -/
  after : String
  deriving DecidableEq, Inhabited

/-- Lines joined by line feeds. -/
def paragraphs (ls : List String) : String :=
  "\n".intercalate ls

namespace Rule

def explanation : Rule → Explanation
  | shellEntrypoint =>
    { title := "ENTRYPOINT Uses Shell Form"
      description := paragraphs [
        "Detects `ENTRYPOINT` instructions written in shell form (a bare command line).",
        "",
        "Shell form runs the command as `/bin/sh -c \"...\"`, which makes the shell PID 1:",
        "- The shell does not forward SIGTERM to its child process",
        "- The orchestrator waits for the full grace period, then sends SIGKILL",
        "- In-flight requests are dropped instead of drained"]
      remediation := paragraphs [
        "Rewrite the instruction in exec form (a JSON array of strings):",
        "",
        "    ENTRYPOINT [\"node\", \"server.js\"]",
        "",
        "If you need shell features such as variable expansion, use `exec` in a wrapper",
        "script so the real process replaces the shell."]
      before := paragraphs ["FROM node:20", "ENTRYPOINT node server.js"]
      after := paragraphs ["FROM node:20", "ENTRYPOINT [\"node\", \"server.js\"]"] }
  | shellCommand =>
    { title := "CMD Uses Shell Form"
      description := paragraphs [
        "Detects `CMD` instructions written in shell form.",
        "",
        "When `CMD` is the process launcher it has the same signal problem as a shell-form",
        "`ENTRYPOINT`. It is reported as a warning because `CMD` is commonly overridden at",
        "run time or only supplies arguments to an exec-form `ENTRYPOINT`."]
      remediation := paragraphs [
        "Prefer exec form:",
        "",
        "    CMD [\"python\", \"app.py\"]"]
      before := paragraphs ["FROM python:3.12", "CMD python app.py"]
      after := paragraphs ["FROM python:3.12", "CMD [\"python\", \"app.py\"]"] }
  | unsetGracePeriod =>
    { title := "Termination Grace Period Not Set"
      description := paragraphs [
        "Detects pod specs without an explicit `terminationGracePeriodSeconds`.",
        "",
        "Kubernetes silently applies a 30 second default. Workloads that drain long-lived",
        "connections or flush queues often need more; fast services may want less so that",
        "rollouts are not slowed down. Only the absence of the key is reported: an explicit",
        "value (including `0`) is treated as a deliberate choice."]
      remediation := paragraphs [
        "Set the grace period to the real worst-case shutdown duration of the workload,",
        "including the preStop delay:",
        "",
        "    spec:",
        "      terminationGracePeriodSeconds: 60"]
      before := paragraphs [
        "spec:",
        "  template:",
        "    spec:",
        "      containers:",
        "        - name: api"]
      after := paragraphs [
        "spec:",
        "  template:",
        "    spec:",
        "      terminationGracePeriodSeconds: 60",
        "      containers:",
        "        - name: api"] }
  | missingPreStop =>
    { title := "Container Has No preStop Hook"
      description := paragraphs [
        "Detects containers without a `lifecycle.preStop` hook.",
        "",
        "Endpoint removal and SIGTERM happen concurrently. Without a short preStop delay,",
        "the process may stop accepting connections before kube-proxy and ingress",
        "controllers have stopped routing traffic to the pod."]
      remediation := paragraphs [
        "Add a preStop hook that sleeps long enough for endpoint removal to propagate:",
        "",
        "    lifecycle:",
        "      preStop:",
        "        exec:",
        "          command: [\"sh\", \"-c\", \"sleep 5\"]"]
      before := paragraphs [
        "containers:",
        "  - name: api",
        "    image: myapp:1.0"]
      after := paragraphs [
        "containers:",
        "  - name: api",
        "    image: myapp:1.0",
        "    lifecycle:",
        "      preStop:",
        "        exec:",
        "          command: [\"sh\", \"-c\", \"sleep 5\"]"] }
  | missingReadinessProbe =>
    { title := "Container Has No readinessProbe"
      description := paragraphs [
        "Detects containers without a `readinessProbe`.",
        "",
        "The readiness probe is how a terminating pod signals that it should no longer",
        "receive traffic. Without it the endpoint stays in the Service until the pod is",
        "gone, so requests keep arriving while the process shuts down."]
      remediation := paragraphs [
        "Add a readiness probe that fails once the application starts shutting down:",
        "",
        "    readinessProbe:",
        "      httpGet:",
        "        path: /healthz",
        "        port: 8080"]
      before := paragraphs [
        "containers:",
        "  - name: api",
        "    image: myapp:1.0"]
      after := paragraphs [
        "containers:",
        "  - name: api",
        "    image: myapp:1.0",
        "    readinessProbe:",
        "      httpGet:",
        "        path: /healthz",
        "        port: 8080"] }

end Rule

namespace Explanation

/-- The explanation of the rule that is meant by what somebody typed. -/
def ofSpelling? (s : String) : Option Explanation :=
  match Rule.normalize s with
  | "DG001" => some Rule.shellEntrypoint.explanation
  | "DG002" => some Rule.shellCommand.explanation
  | "DG101" => some Rule.unsetGracePeriod.explanation
  | "DG102" => some Rule.missingPreStop.explanation
  | "DG103" => some Rule.missingReadinessProbe.explanation
  | _ => none

/-- The name of the language in which the examples for a rule are written. -/
def fence : Option Rule → String
  | none => "text"
  | some r =>
    match r.target with
    | .buildFile => "dockerfile"
    | .manifest => "yaml"

/-- A section title with its underline. -/
def sectionHead (title : String) : String :=
  title ++ "\n" ++ String.ofList (title.toList.map fun _ ↦ '-') ++ "\n"

def codeExample (title language body : String) : String :=
  title ++ ":\n```" ++ language ++ "\n" ++ body ++ "\n```\n"

/-- The explanation as a page, headed by an identifier. -/
def render (e : Explanation) (id : String) : String :=
  let rule := Rule.ofId? id
  let heading := id ++ ": " ++ e.title
  let language := fence rule
  heading ++ "\n" ++ String.ofList (heading.toList.map fun _ ↦ '=') ++ "\n\n" ++
    (match rule with
      | some r => "Severity: " ++ r.severity.name ++ "\n\n"
      | none => "") ++
    e.description ++ "\n\n" ++
    sectionHead "Remediation" ++ e.remediation ++ "\n\n" ++
    sectionHead "Examples" ++ "\n" ++
    codeExample "Before (violation)" language e.before ++ "\n" ++
    codeExample "After (fixed)" language e.after

end Explanation

/-- An explanation with the identifier of the rule that it is about. -/
structure ExplainedRule where
  id : String
  explanation : Explanation
  deriving DecidableEq, Inhabited

/-- The answer to the question what a rule means. -/
inductive Answer where
  | found (rule : ExplainedRule)
  /-- What was asked for is none of the identifiers that are available. -/
  | notFound {available : List String} (asked : String)
  deriving DecidableEq, Inhabited

namespace Answer

/-- A rule is found if there is one of this identifier and an explanation of it, too. -/
def ofQuestion (s : String) : Answer :=
  let id := Rule.normalize s
  match Rule.ofId? id, Explanation.ofSpelling? id with
  | some r, some e => found ⟨r.id, e⟩
  | _, _ => @notFound Rule.allIds s

/-- The message that names what was asked for and what could have been. -/
def unknownRule (asked : String) (available : List String) : String :=
  "Unknown rule: " ++ asked ++ "\n\nAvailable rules:\n" ++
    String.join (available.map fun id ↦ "  - " ++ id ++ "\n")

def render : Answer → String
  | found r => r.explanation.render r.id
  | @notFound available asked => unknownRule asked available

end Answer

end ShutdownLint
