import ClassGraft.Archive.Basic
import ClassGraft.Archive.Layout
import ClassGraft.Archive.Deflate
import ClassGraft.Archive.Listing
import ClassGraft.Archive.Reader
import ClassGraft.Archive.Writer
import ClassGraft.Bytes.BigEndian
import ClassGraft.Bytes.Counted
import ClassGraft.Graft.Report
import ClassGraft.Bytes.Reader
import ClassGraft.Class.Basic
import ClassGraft.Class.Listing
import ClassGraft.Class.Read
import ClassGraft.Class.Refresh
import ClassGraft.Class.Refusal
import ClassGraft.Class.Verification
import ClassGraft.Class.Write
import ClassGraft.Code.Body
import ClassGraft.Code.Bytecode
import ClassGraft.Code.CallKind
import ClassGraft.Code.Opcode
import ClassGraft.Code.Instruction
import ClassGraft.Code.Layout
import ClassGraft.Code.Listing
import ClassGraft.Code.Mark
import ClassGraft.Code.Read
import ClassGraft.Code.Write
import ClassGraft.Command.Apply
import ClassGraft.Command.Arguments
import ClassGraft.Command.Basic
import ClassGraft.Command.Check
import ClassGraft.Command.Setup
import ClassGraft.Command.Verify
import ClassGraft.Decimal.Binary
import ClassGraft.Decimal.Integer
import ClassGraft.Decimal.Shortest
import ClassGraft.Descriptor
import ClassGraft.Digest.Sha256
import ClassGraft.Engine.Basic
import ClassGraft.Engine.Schedule
import ClassGraft.Fault
import ClassGraft.Files.Tree
import ClassGraft.Files.Workplace
import ClassGraft.Frame.Basic
import ClassGraft.Frame.DeadCode
import ClassGraft.Frame.Effect
import ClassGraft.Frame.Execution
import ClassGraft.Frame.Fault
import ClassGraft.Frame.Flow
import ClassGraft.Frame.Merge
import ClassGraft.Frame.Table
import ClassGraft.Frame.Type
import ClassGraft.Graft.Basic
import ClassGraft.Graft.Edits
import ClassGraft.Hierarchy
import ClassGraft.Json.Printer
import ClassGraft.Json.Decoder
import ClassGraft.Json.Reader
import ClassGraft.Main
import ClassGraft.Patch.Basic
import ClassGraft.Patch.Decoding
import ClassGraft.Patch.Encoding
import ClassGraft.Patch.Fault
import ClassGraft.Patch.Validation
import ClassGraft.Pool.Basic
import ClassGraft.Pool.Entry
import ClassGraft.Pool.File
import ClassGraft.Pool.Intern
import ClassGraft.Pool.Kind
import ClassGraft.Pool.Lookup
import ClassGraft.Proofs.Bytes.Reading
import ClassGraft.Proofs.Bytes.Restoring
import ClassGraft.Proofs.Class.FrameTable
import ClassGraft.Proofs.Class.Reanalysis
import ClassGraft.Proofs.Class.Refreshed
import ClassGraft.Proofs.Class.Refreshing
import ClassGraft.Proofs.Class.Restoring
import ClassGraft.Proofs.Code.Decoding
import ClassGraft.Proofs.Code.Drafts
import ClassGraft.Proofs.Code.Forms
import ClassGraft.Proofs.Code.RoundTrip
import ClassGraft.Proofs.Frame.Changes
import ClassGraft.Proofs.Frame.Consistency
import ClassGraft.Proofs.Frame.Construction
import ClassGraft.Proofs.Frame.Entries
import ClassGraft.Proofs.Frame.Executed
import ClassGraft.Proofs.Frame.Invariants
import ClassGraft.Proofs.Frame.Needs
import ClassGraft.Proofs.Frame.Order
import ClassGraft.Proofs.Frame.Reached
import ClassGraft.Proofs.Frame.Rerun
import ClassGraft.Proofs.Frame.Setting
import ClassGraft.Proofs.Frame.Slots
import ClassGraft.Proofs.Frame.WorkList
import ClassGraft.Proofs.Hierarchy.Extends
import ClassGraft.Proofs.Outcome
import ClassGraft.Proofs.Pool.Growth
import ClassGraft.Template.Basic
import ClassGraft.Template.Fault
import ClassGraft.Template.Printer
import ClassGraft.Template.Reader
import ClassGraft.Template.Steps
import ClassGraft.Text.Characters
import ClassGraft.Text.ModifiedUtf8
import ClassGraft.Text.Quoted
import ClassGraft.Text.Utf8
import ClassGraft.Proofs.Graft.Weaving
import ClassGraft.Proofs.Graft.Arrangement
import ClassGraft.Proofs.Graft.Reporting
import ClassGraft.Proofs.Graft.Precedence
import ClassGraft.Proofs.Graft.Turns
import ClassGraft.Proofs.Graft.Grafted
import ClassGraft.Proofs.Graft.Retention
import ClassGraft.Proofs.Class.Sizes
import ClassGraft.Proofs.Bytes.Rereading
import ClassGraft.Proofs.Code.Relocated
import ClassGraft.Proofs.Code.Shown
import ClassGraft.Proofs.Code.Rewritten
import ClassGraft.Proofs.Template.Proper
import ClassGraft.Proofs.Graft.Tidied
import ClassGraft.Proofs.Pool.Rereading
import ClassGraft.Proofs.Class.Rereading
import ClassGraft.Proofs.Graft.Legibility
import ClassGraft.Proofs.Pool.Numbering
import ClassGraft.Proofs.Bytes.Demanding
import ClassGraft.Proofs.Class.Extent
import ClassGraft.Proofs.Class.Packed
import ClassGraft.Proofs.Code.Mentions
import ClassGraft.Proofs.Graft.Succession
import ClassGraft.Proofs.Graft.Lifetimes
import ClassGraft.Proofs.Graft.Remainder
import ClassGraft.Proofs.Graft.Agreement
import ClassGraft.Proofs.Engine.Outcomes
import ClassGraft.Proofs.Engine.Scheduling
import ClassGraft.Proofs.Hierarchy.Dimensions
import ClassGraft.Proofs.Frame.Ranks
import ClassGraft.Proofs.Frame.Extents
import ClassGraft.Proofs.Frame.Termination
import ClassGraft.Proofs.Engine.Fingerprints
import ClassGraft.Proofs.Frame.Gathering
import ClassGraft.Proofs.Class.DeadCode
import ClassGraft.Proofs.Frame.Halves
import ClassGraft.Proofs.Hierarchy.Ancestry
import ClassGraft.Proofs.Code.Coverage
import ClassGraft.Proofs.Frame.Words
import ClassGraft.Proofs.Frame.Heights
import ClassGraft.Proofs.Text.Descriptors
import ClassGraft.Proofs.Graft.Origins
import ClassGraft.Proofs.Graft.Redirecting
import ClassGraft.Proofs.Text.ModifiedUtf8
import ClassGraft.Proofs.Text.Grammar
import ClassGraft.Proofs.Class.Naming
import ClassGraft.Proofs.Template.Reading
import ClassGraft.Proofs.Template.Resolving
import ClassGraft.Proofs.Template.Repeating
import ClassGraft.Proofs.Graft.Placing
import ClassGraft.Proofs.Template.Reusing
import ClassGraft.Proofs.Class.Repeating
import ClassGraft.Proofs.Class.Reencoding
import ClassGraft.Proofs.Code.Positions
import ClassGraft.Proofs.Graft.Counting
import ClassGraft.Proofs.Text.Forms
import ClassGraft.Proofs.Class.Distinct
import ClassGraft.Proofs.Graft.Refusing
