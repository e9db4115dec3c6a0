import Unwinding.Memory.Snapshot
import Unwinding.Memory.Own
import Unwinding.Memory.Lemmas
import Unwinding.Thread.Session
import Unwinding.Thread.Reaction
import Unwinding.Walker.Restoring
import Unwinding.Walker.Registered
import Unwinding.Proofs.Protocol.Raise
import Unwinding.Proofs.Protocol.Registered
import Unwinding.Proofs.Registers.Restored
import Unwinding.Proofs.CallFrame.Table
import Unwinding.Proofs.Exception.Handlers
import Unwinding.Proofs.Exception.Counting
import Unwinding.Proofs.Exception.Bracket
import Unwinding.Proofs.Lookup.Agreement
import Unwinding.Proofs.Lookup.Course
import Unwinding.Proofs.Lookup.Probes
import Unwinding.Proofs.Lookup.Stride
import Unwinding.Proofs.Cursor.Coverage
import Unwinding.Proofs.Cursor.Fallback
import Unwinding.Proofs.Compact.Agreement
import Unwinding.Proofs.Compact.Reach
import Unwinding.Proofs.Compact.Arranged
import Unwinding.Proofs.Compact.FramePointer
import Unwinding.Proofs.Compact.Pairs
import Unwinding.Proofs.Expression.Refinement
import Unwinding.Proofs.Expression.Term
import Unwinding.Proofs.Expression.Postfix
import Unwinding.Proofs.Expression.Shift
import Unwinding.Proofs.Reading.Overflow
import Unwinding.Proofs.Reading.Window
import Unwinding.Proofs.CallFrame.RoundTrip
import Unwinding.Proofs.CallFrame.Language
import Unwinding.Proofs.CallFrame.Saved
import Unwinding.Proofs.CallFrame.Operands
import Unwinding.Proofs.Protocol.Forced
import Unwinding.Proofs.Protocol.Resumption
import Unwinding.Proofs.Protocol.Place
import Unwinding.Proofs.Protocol.Exactness
import Unwinding.Proofs.Protocol.Landing
import Unwinding.Proofs.CallFrame.Rounds
import Unwinding.Proofs.CallFrame.Named
import Unwinding.Proofs.Registers.Cookie
import Unwinding.Proofs.Registers.Signature
import Unwinding.Proofs.Registers.Writes
import Unwinding.Proofs.Cursor.Outermost
