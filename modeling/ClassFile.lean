import ClassFile.Access
import ClassFile.Adapter
import ClassFile.Adapter.EntryHook
import ClassFile.Adapter.MethodBuffer
import ClassFile.AttributeKind
import ClassFile.Bytes.Hex
import ClassFile.Bytes.Input
import ClassFile.Bytes.Output
import ClassFile.Code.Layout
import ClassFile.Constant
import ClassFile.Consumer
import ClassFile.Descriptor
import ClassFile.Descriptor.Rename
import ClassFile.Draft
import ClassFile.Draft.Annotations
import ClassFile.Draft.Attributes
import ClassFile.Draft.Class
import ClassFile.Draft.Code
import ClassFile.Draft.Frames
import ClassFile.Draft.Members
import ClassFile.Error
import ClassFile.Event
import ClassFile.Event.Labels
import ClassFile.Image
import ClassFile.Image.Annotations
import ClassFile.Image.Code
import ClassFile.Image.Story
import ClassFile.InstructionList.Arena
import ClassFile.InstructionList
import ClassFile.InstructionList.Cursor
import ClassFile.InstructionList.Workspace
import ClassFile.Listing
import ClassFile.Listing.Events
import ClassFile.Listing.Values
import ClassFile.Opcode
import ClassFile.Opcode.Operands
import ClassFile.Opcode.StackEffect
import ClassFile.Pool
import ClassFile.Pool.Builder
import ClassFile.Recording
import ClassFile.Renaming
import ClassFile.Script
import ClassFile.Text
import ClassFile.Text.Modified
import ClassFile.Transcript
import ClassFile.Tree.Class
import ClassFile.Tree.Element
import ClassFile.Tree.Equality
import ClassFile.Tree.Maxs
import ClassFile.Tree.Member
import ClassFile.Tree.Method
import ClassFile.Tree.Module
import ClassFile.TypeAnnotation
import ClassFile.Version
import ClassFile.Proofs.Access
import ClassFile.Proofs.Bytes
import ClassFile.Proofs.Code.Offsets
import ClassFile.Proofs.Code.Pieces
import ClassFile.Proofs.Code.Widths
import ClassFile.Proofs.Code.Encoding
import ClassFile.Proofs.Code.Control
import ClassFile.Proofs.Code.Faithful
import ClassFile.Proofs.Pool.Keys
import ClassFile.Proofs.Pool.Records
import ClassFile.Proofs.Pool.Constants
import ClassFile.Proofs.Pool.Content
import ClassFile.Proofs.Pool.Copy
import ClassFile.Proofs.Pool.Adding
import ClassFile.Proofs.Pool.Items
import ClassFile.Proofs.Pool.Steps
import ClassFile.Proofs.Pool.Runs
import ClassFile.Proofs.Pool.Failures
import ClassFile.Proofs.Image.Instructions
import ClassFile.Proofs.Script
import ClassFile.Proofs.Image.Passes
import ClassFile.Proofs.Code.Decoding
import ClassFile.Proofs.Draft.Instructions
import ClassFile.Proofs.Draft.Attributes
import ClassFile.Proofs.Draft.Methods
import ClassFile.Proofs.Code.Heard
import ClassFile.Proofs.RoundTrip
import ClassFile.Proofs.Image.Marks
import ClassFile.Proofs.Image.Visits
import ClassFile.Proofs.Image.Boundaries
import ClassFile.Proofs.Image.Methods
import ClassFile.Proofs.InstructionList.Arenas
import ClassFile.Proofs.InstructionList.Links
import ClassFile.Proofs.InstructionList.Changes
import ClassFile.Proofs.InstructionList.Walks
import ClassFile.Proofs.InstructionList.Contents
import ClassFile.Proofs.InstructionList.Workspaces
import ClassFile.Proofs.InstructionList.Refinement
import ClassFile.Proofs.Safety.Outcomes
import ClassFile.Proofs.Safety.Pool
import ClassFile.Proofs.Safety.Image
import ClassFile.Proofs.Safety.Annotations
import ClassFile.Proofs.Safety.Instructions
import ClassFile.Proofs.Safety.Bodies
import ClassFile.Proofs.Safety.Story
import ClassFile.Proofs.Safety.Decoding
import ClassFile.Proofs.Draft.Telling
import ClassFile.Proofs.Rewriting.Slots
import ClassFile.Proofs.Rewriting.Told
import ClassFile.Proofs.Rewriting.Values
import ClassFile.Proofs.Emits
import ClassFile.Proofs.Story.Fitting
import ClassFile.Proofs.Story.Turns
import ClassFile.Proofs.Tree.Elements
import ClassFile.Proofs.Tree.Heights
import ClassFile.Proofs.Story.Bodies
import ClassFile.Proofs.Story.Classes
import ClassFile.Proofs.Tree.Selections
import ClassFile.Proofs.Tree.Methods
import ClassFile.Proofs.Tree.Classes
import ClassFile.Proofs.Story.Listening
import ClassFile.Proofs.Tree.Recordings
import ClassFile.Proofs.Image.Attributes
import ClassFile.Proofs.Rewriting.Annotations
import ClassFile.Proofs.Rewriting.OpenValues
import ClassFile.Proofs.Rewriting.Attributes
import ClassFile.Proofs.Rewriting.Bodies
import ClassFile.Proofs.Rewriting.Members
import ClassFile.Proofs.Rewriting.Methods
import ClassFile.Proofs.Gating.Constructs
import ClassFile.Proofs.Gating.Pruning
import ClassFile.Proofs.Gating.Following
import ClassFile.Proofs.Gating.FirstPass
import ClassFile.Proofs.Gating.Bodies
import ClassFile.Proofs.Gating.Classes
import ClassFile.Proofs.Gating.Reading
import ClassFile.Proofs.Gating.Trees
import ClassFile.Proofs.Gating.Logs
import ClassFile.Proofs.Gating.Refusals
import ClassFile.Proofs.Renaming
import ClassFile.Proofs.Gating.Chains
import ClassFile.Proofs.Code.Rounds
import ClassFile.Proofs.Code.Narrowing
import ClassFile.Proofs.Frames.Spelling
import ClassFile.Proofs.Frames.Places
import ClassFile.Proofs.Frames.Writing
import ClassFile.Proofs.Frames.RoundTrip
import ClassFile.Proofs.Frames.Targets
import ClassFile.Proofs.Frames.Tables
import ClassFile.Proofs.Frames.Steps
import ClassFile.Proofs.Frames.Told
import ClassFile.Proofs.Streams.Declining
import ClassFile.Proofs.Streams.Settling
import ClassFile.Proofs.Streams.Deleting
import ClassFile.Proofs.Streams.Filtering
import ClassFile.Proofs.Members.Growing
import ClassFile.Proofs.Members.Callers
import ClassFile.Proofs.Members.Framing
import ClassFile.Proofs.Members.Standing
import ClassFile.Proofs.Members.Writing
import ClassFile.Proofs.Members.Buffering
import ClassFile.Proofs.Pool.Defining
import ClassFile.Proofs.Code.Stepping
import ClassFile.Proofs.Draft.Stepping
import ClassFile.Proofs.Tables.Ordering
import ClassFile.Proofs.Tables.Recording
import ClassFile.Proofs.Tables.Writing
import ClassFile.Proofs.Tables.Reading
import ClassFile.Proofs.Tables.RoundTrip
import ClassFile.Proofs.Descriptors.Types
import ClassFile.Proofs.Descriptors.Renaming
import ClassFile.Proofs.Descriptors.Signatures
import ClassFile.Proofs.Descriptors.SignatureScans
import ClassFile.Proofs.Descriptors.SignatureRenaming
import ClassFile.Proofs.Gating.Hearings
import ClassFile.Proofs.Gating.Checking
import ClassFile.Proofs.Rewriting.Reencoding
import ClassFile.Proofs.Pool.Tiling
import ClassFile.Proofs.InstructionList.Cursors
import ClassFile.Proofs.InstructionList.Revisions
import ClassFile.Proofs.Image.Sparing
import ClassFile.Proofs.Image.Replay
import ClassFile.Proofs.Image.Agreement
