import InfraDemo.Lib.Prog
import InfraDemo.Lib.Run
import InfraDemo.Lib.Steps
import InfraDemo.Lib.WorkQueue
import InfraDemo.Lib.Hysteresis
import InfraDemo.Lib.Blocks
import InfraDemo.Lib.Contract
import InfraDemo.Lib.Unwinding
import InfraDemo.Lib.Pool
import InfraDemo.Lib.Crew
import InfraDemo.Lib.Registers
import InfraDemo.Lib.Ranks
import InfraDemo.Go.Text
import InfraDemo.Go.Strconv
import InfraDemo.Go.Layout
import InfraDemo.Python.Builtins
import InfraDemo.Prometheus.Exposition
import InfraDemo.Operator.Types
import InfraDemo.Operator.Conditions
import InfraDemo.Operator.Metrics
import InfraDemo.Operator.Reference
import InfraDemo.Operator.Scrape
import InfraDemo.Operator.Stub
import InfraDemo.Operator.Scaling
import InfraDemo.Operator.Controller
import InfraDemo.Operator.Numeric
import InfraDemo.Operator.Cluster
import InfraDemo.Operator.Exits
import InfraDemo.Operator.Events
import InfraDemo.Operator.Writes
import InfraDemo.Operator.Status
import InfraDemo.Operator.Step
import InfraDemo.Operator.Bounds
import InfraDemo.Operator.Flapping
import InfraDemo.Operator.Pressure
import InfraDemo.Operator.Evidence
import InfraDemo.Operator.Quotes
import InfraDemo.Operator.Admissible
import InfraDemo.Operator.Trace
import InfraDemo.Operator.Recovery
import InfraDemo.Operator.Retry
import InfraDemo.Operator.History
import InfraDemo.Operator.Effects
import InfraDemo.Operator.Coherence
import InfraDemo.Operator.Interleave
import InfraDemo.Operator.Fleet
import InfraDemo.LoadTest.Session
import InfraDemo.LoadTest.Conversation
import InfraDemo.LoadTest.Stopping
import InfraDemo.LoadTest.Collector
import InfraDemo.LoadTest.Report
import InfraDemo.LoadTest.Percentile
import InfraDemo.LoadTest.Shutdown
import InfraDemo.LoadTest.Kinds
import InfraDemo.LoadTest.Streaming
import InfraDemo.LoadTest.Ollama
import InfraDemo.Operator.Atomic
import InfraDemo.Operator.Settling
import InfraDemo.Operator.Polling
import InfraDemo.LoadTest.Table
import InfraDemo.LoadTest.Live
import InfraDemo.LoadTest.Completions
import InfraDemo.LoadTest.ColdPrompt
import InfraDemo.Operator.Memory
import InfraDemo.Lib.Heap
import InfraDemo.LoadTest.Rounding
import InfraDemo.Operator.Crd
import InfraDemo.Operator.LocalTest
import InfraDemo.LoadTest.Batch
import InfraDemo.LoadTest.Measuring
import InfraDemo.LoadTest.Ramp
import InfraDemo.Operator.Permissions
import InfraDemo.Go.Rfc3339
