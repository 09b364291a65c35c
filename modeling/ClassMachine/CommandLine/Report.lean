import ClassMachine.Text.Split

/-!
# Reports of failure

A report shows what failed and, below a heading, its causes from the outside in. They are numbered
when there is more than one, and further lines of a cause stand under its first.
-/

namespace ClassMachine.Report

/-- A text with `first` before its first line and `others` before every other. -/
def indent (first others text : String) : String :=
  match Text.split '\n' text with
  | [] => first
  | line :: lines => first ++ line ++ String.join (lines.map fun l => "\n" ++ others ++ l)

def numbered (number : Nat) (cause : String) : String :=
  let digits := toString number
  indent ("".pushn ' ' (5 - digits.length) ++ digits ++ ": ") "       " cause

def causes : List String → String
  | [] => ""
  | [only] => "\n\nCaused by:\n" ++ indent "    " "    " only
  | many =>
    "\n\nCaused by:" ++
      String.join (many.zipIdx.map fun (cause, number) => "\n" ++ numbered number cause)

/-- The report of a failure and of its causes. -/
def render (failure : String) (chain : List String) : String :=
  "Error: " ++ failure ++ causes chain ++ "\n"

end ClassMachine.Report
