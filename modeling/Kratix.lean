import Kratix.Controllers.Counting
import Kratix.Controllers.Failures
import Kratix.Controllers.Installation
import Kratix.Controllers.JobSelection
import Kratix.Controllers.Lifecycle
import Kratix.Controllers.OnePromise
import Kratix.Controllers.Readiness
import Kratix.Controllers.Versions
import Kratix.DestinationWebhook
import Kratix.Rbac.Names
import Kratix.Scheduling.Distinct
import Kratix.Scheduling.Precedence
import Kratix.Scheduling.Resurrection
import Kratix.WorkCreator.Partition
import Kratix.WorkCreator.StatusUpdater
import Kratix.Workflow.DeleteRun
import Kratix.Workflow.Once
import Kratix.Workflow.Reporting
import Kratix.Workflow.Retention
import Kratix.Writers.Containment
import Kratix.Writers.S3
