import RemoteEval.Main
import RemoteEval.Session
import RemoteEval.Proofs.Framing.Lines
import RemoteEval.Proofs.Framing.Events
import RemoteEval.Proofs.Framing.Bound
import RemoteEval.Proofs.Framing.Slices
import RemoteEval.Proofs.Framing.Truncated
import RemoteEval.Proofs.Framing.Guarded
import RemoteEval.Proofs.Request.Partial
import RemoteEval.Proofs.Client.Finishing
import RemoteEval.Proofs.Client.Answers
import RemoteEval.Proofs.Client.Wire
import RemoteEval.Proofs.Client.Closure
import RemoteEval.Proofs.Client.Files
import RemoteEval.Proofs.Client.Balance
import RemoteEval.Proofs.Client.Refusals
import RemoteEval.Proofs.Client.Listing
import RemoteEval.Proofs.Client.Delivery
import RemoteEval.Proofs.Client.Blocks
import RemoteEval.Proofs.CommandLine.Verdict
import RemoteEval.Proofs.Repl.Transcript
import RemoteEval.Proofs.Repl.Words
import RemoteEval.Proofs.Repl.Continuations
import RemoteEval.Proofs.Bootstrap.Deadline
import RemoteEval.Proofs.Client.Paths
import RemoteEval.Proofs.Response.Descent
import RemoteEval.Proofs.Table.Conservation
