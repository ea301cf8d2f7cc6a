import Pkgexec.EvidenceIdentity
import Pkgexec.ControlThreads
import Pkgexec.ControlRuns
import Pkgexec.Paths
import Pkgexec.ProfileCodec
import Pkgexec.TwoRuns
import Pkgexec.Names
import Pkgexec.EncodingSize
import Pkgexec.ReaderBounds
import Pkgexec.ControlCalls
import Pkgexec.StoredEvidence
import Pkgexec.IdentityDomains
import Pkgexec.Declarations
import Pkgexec.IdentityFaults
import Pkgexec.Reports
import Pkgexec.ControlMemory
