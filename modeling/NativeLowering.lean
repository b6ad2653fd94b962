import NativeLowering.Command.Args
import NativeLowering.Command.Files
import NativeLowering.Command.Path
import NativeLowering.Command.Run
import NativeLowering.Emit.Decl
import NativeLowering.Emit.Expr
import NativeLowering.Emit.Session
import NativeLowering.Emit.Stmt
import NativeLowering.Error
import NativeLowering.Generate
import NativeLowering.Json.Basic
import NativeLowering.Json.Reader
import NativeLowering.Json.Record
import NativeLowering.Json.Writer
import NativeLowering.Layout.Buffer
import NativeLowering.Layout.Record
import NativeLowering.Locals
import NativeLowering.Main
import NativeLowering.Model.Basic
import NativeLowering.Model.Encode
import NativeLowering.Model.Items
import NativeLowering.Model.Kind
import NativeLowering.Model.Symbol
import NativeLowering.Model.Table
import NativeLowering.Model.Traits
import NativeLowering.Model.Type
import NativeLowering.Model.Typing
import NativeLowering.Naming
import NativeLowering.Options
import NativeLowering.Pass.Address
import NativeLowering.Pass.Cleanup
import NativeLowering.Pass.Receiver
import NativeLowering.Pass.Run
import NativeLowering.Pass.Selection
import NativeLowering.Pass.Walk
import NativeLowering.Proofs.Address.Annotation
import NativeLowering.Proofs.Address.Complete
import NativeLowering.Proofs.Address.Fresh
import NativeLowering.Proofs.Address.Rewriting
import NativeLowering.Proofs.Address.Typing
import NativeLowering.Proofs.Cleanup.Bracing
import NativeLowering.Proofs.Cleanup.Capture
import NativeLowering.Proofs.Cleanup.Insertion
import NativeLowering.Proofs.Cleanup.Invisible
import NativeLowering.Proofs.Cleanup.Lifetime
import NativeLowering.Proofs.Cleanup.Marked
import NativeLowering.Proofs.Cleanup.Paths
import NativeLowering.Proofs.Emit.Balance
import NativeLowering.Proofs.Emit.Calls
import NativeLowering.Proofs.Emit.ClassPrint
import NativeLowering.Proofs.Emit.Concatenation
import NativeLowering.Proofs.Emit.Draft
import NativeLowering.Proofs.Emit.Faults
import NativeLowering.Proofs.Emit.Hoisting
import NativeLowering.Proofs.Emit.Intact
import NativeLowering.Proofs.Emit.Internal
import NativeLowering.Proofs.Emit.Legible
import NativeLowering.Proofs.Emit.LegibleText
import NativeLowering.Proofs.Emit.LineEndings
import NativeLowering.Proofs.Emit.MemberAccess
import NativeLowering.Proofs.Emit.Operators
import NativeLowering.Proofs.Emit.Plain
import NativeLowering.Proofs.Emit.Records
import NativeLowering.Proofs.Emit.Shadowing
import NativeLowering.Proofs.Emit.Shapes
import NativeLowering.Proofs.Emit.Steps
import NativeLowering.Proofs.Emit.Strings
import NativeLowering.Proofs.Emit.WrittenNames
import NativeLowering.Proofs.Json.Faithful
import NativeLowering.Proofs.Json.Fields
import NativeLowering.Proofs.Layout.ClassBlock
import NativeLowering.Proofs.Layout.Format
import NativeLowering.Proofs.Layout.Literals
import NativeLowering.Proofs.Layout.Replay
import NativeLowering.Proofs.Layout.Sections
import NativeLowering.Proofs.Located.Program
import NativeLowering.Proofs.Model.Build
import NativeLowering.Proofs.Model.Consistent
import NativeLowering.Proofs.Model.Flat
import NativeLowering.Proofs.Model.Kept
import NativeLowering.Proofs.Model.Order
import NativeLowering.Proofs.Parens.Transparent
import NativeLowering.Proofs.Pass.Repeat
import NativeLowering.Proofs.Pass.Replacing
import NativeLowering.Proofs.Pass.Run
import NativeLowering.Proofs.Pass.Transport
import NativeLowering.Proofs.Pass.Variables
import NativeLowering.Proofs.Receiver.Argument
import NativeLowering.Proofs.Receiver.Binding
import NativeLowering.Proofs.Receiver.Capture
import NativeLowering.Proofs.Receiver.Defined
import NativeLowering.Proofs.Receiver.Drafts
import NativeLowering.Proofs.Receiver.Injection
import NativeLowering.Proofs.Receiver.Origin
import NativeLowering.Proofs.Receiver.Passes
import NativeLowering.Proofs.Receiver.SameBody
import NativeLowering.Proofs.Receiver.Text
import NativeLowering.Proofs.Receiver.Typing
import NativeLowering.Proofs.Receiver.Word
import NativeLowering.Proofs.Scoping.Agreement
import NativeLowering.Proofs.Scoping.Operands
import NativeLowering.Proofs.Scoping.Pairing
import NativeLowering.Proofs.Scoping.Reframed
import NativeLowering.Proofs.Success
import NativeLowering.Proofs.Surface.Build
import NativeLowering.Proofs.Surface.Conservative
import NativeLowering.Proofs.Surface.Passes
import NativeLowering.Proofs.Surface.Spared
import NativeLowering.Proofs.Surface.Text
import NativeLowering.Proofs.Surface.Writing
import NativeLowering.Proofs.Syntax.Bodies
import NativeLowering.Proofs.Syntax.Format
import NativeLowering.Proofs.Syntax.Induction
import NativeLowering.Proofs.Syntax.Position
import NativeLowering.Proofs.Syntax.Respelling
import NativeLowering.Proofs.Syntax.RoundTrip
import NativeLowering.Syntax.Build
import NativeLowering.Syntax.Decl
import NativeLowering.Syntax.Decode
import NativeLowering.Syntax.Encode
import NativeLowering.Syntax.Expr
import NativeLowering.Syntax.Span
import NativeLowering.Syntax.Stmt
import NativeLowering.Text.Blank
import NativeLowering.Text.Lines
import NativeLowering.TypeText
import NativeLowering.Vocabulary.Builtin
import NativeLowering.Vocabulary.Decorator
import NativeLowering.Vocabulary.Entry
import NativeLowering.Vocabulary.Operator
import NativeLowering.Vocabulary.Spelling
