import DiceTray.Main
import DiceTray.Play
import DiceTray.Pool.Bounds
import DiceTray.Pool.Canonical
import DiceTray.Pool.Reading
import DiceTray.Script
import DiceTray.Session
import DiceTray.Shaker.Tape
import DiceTray.Shaker.Words
import DiceTray.Style
import DiceTray.Proofs.Pool.Grammar
import DiceTray.Proofs.Pool.Canonical
import DiceTray.Proofs.Section.Aside
import DiceTray.Proofs.Section.Items
import DiceTray.Proofs.Section.Tidy
import DiceTray.Proofs.Section.WellFormed
import DiceTray.Proofs.Section.RoundTrip
import DiceTray.Proofs.Script.RoundTrip
import DiceTray.Proofs.Group.Tidy
import DiceTray.Proofs.Script.Replay
import DiceTray.Proofs.Shaker.Yields
import DiceTray.Proofs.Group.Rules
import DiceTray.Proofs.Group.Throwing
import DiceTray.Proofs.Group.Extent
import DiceTray.Proofs.Section.Evaluation
import DiceTray.Proofs.Throw.Overflow
import DiceTray.Proofs.Throw.Tray
import DiceTray.Proofs.Group.Worth
import DiceTray.Proofs.Script.Arithmetic
import DiceTray.Proofs.Script.Evaluation
import DiceTray.Proofs.Script.Dice
import DiceTray.Proofs.Group.Loops
import DiceTray.Proofs.Script.Limits
import DiceTray.Proofs.Script.Draws
import DiceTray.Proofs.Script.Joining
import DiceTray.Proofs.Section.LetterCase
import DiceTray.Proofs.Script.Layout
import DiceTray.Proofs.Group.Ranking
import DiceTray.Proofs.Script.SingleWord
import DiceTray.Proofs.Script.Proper
import DiceTray.Proofs.Session.Submissions
import DiceTray.Proofs.Group.Choice
import DiceTray.Proofs.Group.Exploding
import DiceTray.Proofs.Group.Bounds
import DiceTray.Proofs.Pool.Places
import DiceTray.Proofs.Pool.Rereading
import DiceTray.Proofs.Shaker.Words
import DiceTray.Proofs.Pool.Interchange
import DiceTray.Proofs.Section.Totals
import DiceTray.Proofs.Pool.Stages
import DiceTray.Proofs.Pool.Checking
import DiceTray.Proofs.Pool.Spans
import DiceTray.Proofs.Pool.FirstFault
import DiceTray.Proofs.Number.Rounding
import DiceTray.Proofs.Pool.Average
import DiceTray.Proofs.Style.Group
import DiceTray.Proofs.Style.Outcome
