import RunnerOrchestrator.Runner.Flow
import RunnerOrchestrator.System.PublicFifo
import RunnerOrchestrator.System.Draining
import RunnerOrchestrator.System.Bound
import RunnerOrchestrator.Controller.Order
import RunnerOrchestrator.Controller.Status
import RunnerOrchestrator.Controller.Shutdown
import RunnerOrchestrator.Controller.UserTable
import RunnerOrchestrator.System.Accounts
import RunnerOrchestrator.System.Orchestra
import RunnerOrchestrator.Controller.Waiting
import RunnerOrchestrator.Controller.SingleUser
import RunnerOrchestrator.Controller.Schedules
import RunnerOrchestrator.Controller.Crashes
import RunnerOrchestrator.Controller.Influence
import RunnerOrchestrator.Controller.Failures
import RunnerOrchestrator.Controller.Main
import RunnerOrchestrator.System.Network
import RunnerOrchestrator.System.Attendance
import RunnerOrchestrator.System.Processes
import RunnerOrchestrator.Controller.Reports
import RunnerOrchestrator.Runner.Releases
import RunnerOrchestrator.Runner.Spacing
