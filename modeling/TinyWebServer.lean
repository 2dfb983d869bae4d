import TinyWebServer.Proofs.BufferQueue
import TinyWebServer.Proofs.PoolPartition
import TinyWebServer.Proofs.Isolation
import TinyWebServer.Proofs.Framing
import TinyWebServer.Proofs.StaticResponse
import TinyWebServer.Proofs.FileAgreement
import TinyWebServer.Proofs.Containment
import TinyWebServer.Proofs.Segmentation
import TinyWebServer.Proofs.Ownership
import TinyWebServer.Proofs.Stranded
import TinyWebServer.Proofs.PoolWakeups
import TinyWebServer.Proofs.ThreadPool
import TinyWebServer.Proofs.BlockDeque
import TinyWebServer.Proofs.DequeClose
import TinyWebServer.Proofs.PoolForeign
import TinyWebServer.Proofs.ReadFD
import TinyWebServer.Proofs.UserCount
import TinyWebServer.Proofs.LoginPool
import TinyWebServer.Proofs.FormStream
import TinyWebServer.Proofs.Abort
import TinyWebServer.Proofs.RoundTrip
import TinyWebServer.Proofs.Malformed
import TinyWebServer.Proofs.BadRequest
import TinyWebServer.Proofs.Transfer
import TinyWebServer.Proofs.Credentials
import TinyWebServer.Proofs.FormPairs
import TinyWebServer.Proofs.FormBounds
import TinyWebServer.Proofs.Completion
import TinyWebServer.Proofs.ReadClose
import TinyWebServer.Model.Backlog
import TinyWebServer.Proofs.AcceptDrain
import TinyWebServer.Proofs.FormSegments
import TinyWebServer.Proofs.Conversation
import TinyWebServer.Proofs.Faults
import TinyWebServer.Proofs.Capacity
import TinyWebServer.Proofs.LogSections
import TinyWebServer.Proofs.LoginRest
import TinyWebServer.Proofs.Pages
import TinyWebServer.Proofs.Passwords
import TinyWebServer.Proofs.Rest
import TinyWebServer.Proofs.Served
import TinyWebServer.Proofs.Startup
import TinyWebServer.Proofs.Visits
