import Asyncr.Time.TimerRefinement
import Asyncr.Time.ClockRuns
import Asyncr.Time.IntervalRuns
import Asyncr.Time.TimeoutRuns
import Asyncr.Executor.Abandoned
import Asyncr.Executor.Admission
import Asyncr.Executor.Wrapping
import Asyncr.Program.Service
import Asyncr.Program.Waiting
import Asyncr.Program.SpawnJoinRuns
import Asyncr.Program.ShutdownRuns
import Asyncr.Program.JoinOnce
import Asyncr.Program.ContextRuns
import Asyncr.Program.VirtualRuns
import Asyncr.Program.Places
import Asyncr.Time.SharedInterval
import Asyncr.Program.Notified
import Asyncr.Program.Control
import Asyncr.Program.Current
import Asyncr.Program.TimerStorage
import Asyncr.Program.OwnPanics
import Asyncr.Program.Deadlock
import Asyncr.Program.ScriptMeaning
import Asyncr.Program.ScriptEnds
