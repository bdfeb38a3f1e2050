import BindScript.Globals
import BindScript.Tracking.Proxy
import BindScript.Variables.Resolve
import BindScript.Proofs.Dependency.Watched
import BindScript.Proofs.Dependency.FreeNames
import BindScript.Proofs.Frozen.Runs
import BindScript.Proofs.Frozen.Freeze
import BindScript.Proofs.Tracking.Announced
import BindScript.Proofs.Control.Jumps
import BindScript.Proofs.Variables.Chains
import BindScript.Proofs.Variables.Frame
import BindScript.Proofs.Variables.TwoPasses
import BindScript.Proofs.Variables.Expansion
import BindScript.Proofs.Parsing.Statements
import BindScript.Proofs.Dependency.ReadBack
import BindScript.Proofs.Parsing.Scans
import BindScript.Proofs.JsonText.Shown
import BindScript.Proofs.JsonText.Parsed
import BindScript.Proofs.JsonText.RoundTrip
import BindScript.Proofs.Regime.Basic
import BindScript.Proofs.Regime.Step
import BindScript.Proofs.Regime.Binding
import BindScript.Proofs.Regime.Method
import BindScript.Proofs.Regime.Expression
import BindScript.Proofs.Regime.Run
import BindScript.Proofs.Regime.Caps
import BindScript.Proofs.Nesting.Sources
import BindScript.Proofs.Lockstep.Termination
import BindScript.Proofs.Lockstep.CallDepth
import BindScript.Proofs.Lockstep.Interrupts
import BindScript.Proofs.Tracking.Identity
import BindScript.Proofs.Dependency.Merge
import BindScript.Proofs.Dependency.Registered
import BindScript.Proofs.Parsing.Positions
import BindScript.Proofs.Environment.Refinement
import BindScript.Proofs.Number.Shortest
import BindScript.Proofs.JsonText.Numerals
import BindScript.Proofs.JsonText.Unambiguous
import BindScript.Proofs.Tracking.Silent
import BindScript.Proofs.Watch.Grammatical
import BindScript.Proofs.Watch.Constants
import BindScript.Proofs.Tracking.Listeners
import BindScript.Proofs.Tracking.Appended
import BindScript.Proofs.Parsing.Precedence
import BindScript.Proofs.Parsing.Braces
import BindScript.Proofs.Reserved.Heads
import BindScript.Proofs.Dependency.Registration
import BindScript.Proofs.Dependency.Recorded
import BindScript.Proofs.Access.ShortCircuit
import BindScript.Proofs.Access.Deletion
import BindScript.Proofs.Access.Compound
import BindScript.Proofs.Control.Hoisting
import BindScript.Proofs.Scope.Turns
import BindScript.Proofs.Scope.Selected
import BindScript.Proofs.Value.Stores
import BindScript.Proofs.Tracking.Scripted
import BindScript.Proofs.Value.Characters
import BindScript.Proofs.Value.ListText
import BindScript.Proofs.JsonText.Depth
import BindScript.Proofs.JsonText.Rebuilt
import BindScript.Proofs.Parsing.Separators
import BindScript.Proofs.Parsing.LineBreaks
import BindScript.Proofs.Parsing.NumberTexts
import BindScript.Proofs.Value.Pieces
import BindScript.Proofs.Parsing.Spellings
import BindScript.Proofs.Shorthand.Sources
import BindScript.Proofs.Value.Equality
import BindScript.Proofs.Progress.Inputs
import BindScript.Proofs.Number.Prefix
