import SplatLisp.Error
import SplatLisp.Sink

/-!
# Diagnostics

What is done with an error once it has been made. The policy `report` hands it back; `abort`, meant
for debugging, writes it to a sink and stops everything with its text.
-/

namespace SplatLisp

/-- How errors are delivered. -/
inductive Policy where
  | report
  | abort
deriving DecidableEq, Inhabited

def Policy.ofDebug (debug : Bool) : Policy := if debug then abort else report

def Policy.aborts : Policy → Bool
  | report => false
  | abort => true

/-- Why a computation stops before it has a value. -/
inductive Stop where
  | failed (error : Error)
  /-- An error has aborted everything, with its text. -/
  | aborted (text : String)
  /-- The computation nests deeper than it was allowed to. -/
  | exhausted
  /-- A primitive ran with fewer forms, or a function with fewer arguments, than it takes; or there
  is no primitive of a code. -/
  | broken

/-- A policy and a handle to the sink to which errors that abort are written. -/
structure Diagnostics where
  policy : Policy
  sink : SinkRef
deriving Inhabited

namespace Diagnostics

/-- Errors are handed back, and the sink is the standard error stream. -/
def default : Diagnostics := ⟨.report, .stderr⟩

/-- Delivers an error as the policy demands. -/
def raise (diagnostics : Diagnostics) (error : Error) (sinks : Sinks) : Stop × Sinks :=
  match diagnostics.policy with
  | .report => (.failed error, sinks)
  | .abort => (.aborted error.text, sinks.writeLine diagnostics.sink error.text)

end Diagnostics

end SplatLisp
