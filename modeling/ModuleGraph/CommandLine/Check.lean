import ModuleGraph.Access.Checker
import ModuleGraph.Layer.Boot
import ModuleGraph.CommandLine.Graph
import ModuleGraph.CommandLine.Style

/-! # Checking an access -/

namespace ModuleGraph.CommandLine

def Subject.packageName : Subject → String
  | package p => p
  | type t => packageOf t

def requesterOf : Option String → ModuleRef
  | some n => .named n
  | none => (Boot.unnamed {}).1.ref

def verdictSpans (requester target : ModuleRef) (package : String) (a : Access) : List Span :=
  match a.denial? requester target package with
  | none =>
    [⟨.success, "permitted"⟩,
      plain (": " ++ requester.text ++ " may access " ++ package ++ " in " ++ target.text), newline]
  | some denial => [⟨.failure, "denied"⟩, plain (": " ++ denial), newline]

def check (files : Files) (g : GraphOptions) (requester? : Option String) (target : String)
    (subject : Subject) : Except Failure (Bool × List Span) := do
  let l ← buildLayer files g
  let query : AccessQuery := ⟨requesterOf requester?, .named target, subject.packageName⟩
  let checker : Checker := { configuration := l.configuration }
  let verdict := (checker.check query).1
  return (verdict.isPermitted,
    verdictSpans query.requester query.target query.package verdict)

end ModuleGraph.CommandLine
