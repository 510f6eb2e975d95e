import HrtimerStudy.CpuLoad.Lifecycle
import HrtimerStudy.Report.DocxCovered
import HrtimerStudy.Report.Summarise
import HrtimerStudy.Report.Validation
import HrtimerStudy.Runner.Loaded
import HrtimerStudy.Runner.Reaped
import HrtimerStudy.TimerBenchmark.Bounds
import HrtimerStudy.TimerBenchmark.Summary
import HrtimerStudy.Hrtimer.Base
import HrtimerStudy.Hrtimer.Machine
import HrtimerStudy.Hrtimer.Inversion
import HrtimerStudy.Hrtimer.Queues
import HrtimerStudy.Hrtimer.Exclusive
import HrtimerStudy.Hrtimer.Cancel
import HrtimerStudy.Hrtimer.Sorted
import HrtimerStudy.Hrtimer.Tidy
import HrtimerStudy.Hrtimer.Armed
import HrtimerStudy.Hrtimer.OnTime
import HrtimerStudy.Hrtimer.Deadlines
import HrtimerStudy.Hrtimer.Early
import HrtimerStudy.Hrtimer.Nanosleep
import HrtimerStudy.Hrtimer.Slept
import HrtimerStudy.Hrtimer.Wakeups
import HrtimerStudy.TimerBenchmark.OnKernel
