import Stele.Fwdsec.ForwardSecurity
import Stele.Witness.SplitView
import Stele.Witness.FalseAlarms
import Stele.Witness.Authorisation
import Stele.Fwdsec.Downgrade
import Stele.Core.Revocation
import Stele.Core.SignedEnrollments
import Stele.Tripwire.Alarm
import Stele.Witness.Retention
import Stele.Operator.Threshold
import Stele.Enroll.Lifetimes
import Stele.Journals.Faults
import Stele.Journals.History
import Stele.Journals.Requests
import Stele.Mirror.Convergence
import Stele.Keys.Recovery
import Stele.Audit.Soundness
import Stele.Api.Handlers
import Stele.Api.Ingest
import Stele.Core.Witnesses
import Stele.Vectors.Reference
import Stele.Verify.Panics
import Stele.Watcher.Watcher
import Stele.Witness.Alerts
import Stele.Trustdns.Record
import Stele.Attest.Sdk
import Stele.Anchor.FileLog
import Stele.Merkle.Subtrees
