import RakshaQuant.Lib.Effect
import RakshaQuant.Oms.PositionBook
import RakshaQuant.Oms.Accounting
import RakshaQuant.Lib.Fifo
import RakshaQuant.Oms.Fifo
import RakshaQuant.Brokers.Base
import RakshaQuant.Brokers.Simulated.State
import RakshaQuant.Domain.Events
import RakshaQuant.Store.Journal
import RakshaQuant.Oms.Oms
import RakshaQuant.Oms.Effects
import RakshaQuant.Oms.Lifecycle
import RakshaQuant.Oms.Headroom
import RakshaQuant.Oms.Concurrency
import RakshaQuant.Brokers.Simulated.Broker
import RakshaQuant.Desk.System
import RakshaQuant.Desk.Steps
import RakshaQuant.Desk.Operations
import RakshaQuant.Desk.Books
import RakshaQuant.Desk.Coupling
import RakshaQuant.Desk.ReduceOnly
import RakshaQuant.Desk.Resting
import RakshaQuant.Desk.Rebuild
import RakshaQuant.Store.Projections
import RakshaQuant.Brokers.Simulated.Accounts
import RakshaQuant.Desk.InSync
import RakshaQuant.Lib.Caps
import RakshaQuant.Risk.Limits
import RakshaQuant.Risk.Sizing
import RakshaQuant.Risk.Checks
import RakshaQuant.Risk.Openings
import RakshaQuant.Risk.Soundness
import RakshaQuant.Risk.Exits
import RakshaQuant.Risk.Batch
import RakshaQuant.Risk.Overcommit
import RakshaQuant.Lib.Fault
import RakshaQuant.Risk.State
import RakshaQuant.Engine.Lifecycle
import RakshaQuant.Risk.Gate
import RakshaQuant.Risk.Working
import RakshaQuant.Risk.Session
import RakshaQuant.Risk.Latch
import RakshaQuant.Risk.Rearm
import RakshaQuant.Risk.Monitor
import RakshaQuant.Risk.Breaches
import RakshaQuant.Brokers.Simulated.Rows
import RakshaQuant.Desk.Recovery
import RakshaQuant.Oms.Booking
import RakshaQuant.Store.Tables
import RakshaQuant.Oms.Reported
import RakshaQuant.Oms.Crash
import RakshaQuant.Risk.Days
import RakshaQuant.Risk.DayRuns
import RakshaQuant.Lib.Blocks
import RakshaQuant.Risk.Streaks
import RakshaQuant.Brokers.Simulated.Steps
import RakshaQuant.Brokers.Simulated.Changes
import RakshaQuant.Brokers.Simulated.Conservation
import RakshaQuant.Brokers.Simulated.Solvency
import RakshaQuant.Brokers.Simulated.Delivery
import RakshaQuant.Lib.Relate
import RakshaQuant.Brokers.Simulated.Alike
import RakshaQuant.Brokers.Simulated.Lockstep
import RakshaQuant.Brokers.Simulated.Saved
import RakshaQuant.Brokers.Simulated.Restart
import RakshaQuant.Engine.Session
import RakshaQuant.Engine.Closing
import RakshaQuant.Lib.Log
import RakshaQuant.Web.Stream
import RakshaQuant.Web.Balance
import RakshaQuant.Web.Interleaving
import RakshaQuant.Web.Resubscribe
import RakshaQuant.Web.Drain
import RakshaQuant.Web.Delivery
import RakshaQuant.Web.Replacement
import RakshaQuant.Web.Noticing
import RakshaQuant.Web.Following
import RakshaQuant.Llm.Durations
import RakshaQuant.Llm.Pricing
import RakshaQuant.Llm.Router
import RakshaQuant.Llm.Attempts
import RakshaQuant.Llm.Accounting
import RakshaQuant.Decision.Signals
import RakshaQuant.Decision.Cycle
import RakshaQuant.Decision.Proposing
import RakshaQuant.Decision.Dispositions
import RakshaQuant.Decision.Veto
import RakshaQuant.Evaluation.ShadowLedger
import RakshaQuant.Evaluation.LifeCycle
import RakshaQuant.Lib.Segments
import RakshaQuant.Store.PartFiles
import RakshaQuant.Store.TapeSteps
import RakshaQuant.Store.TapeCrash
import RakshaQuant.Brokers.Simulated.Modify
import RakshaQuant.Brokers.Simulated.AmendedRuns
import RakshaQuant.Brokers.Simulated.Brokerage
import RakshaQuant.Brokers.Simulated.Participation
import RakshaQuant.Oms.Allocation
import RakshaQuant.Risk.EventWindows
import RakshaQuant.Risk.Utilisation
import RakshaQuant.Desk.Beside
import RakshaQuant.Exits.Manager
import RakshaQuant.Exits.Steps
import RakshaQuant.Exits.Ratchet
import RakshaQuant.Exits.Managed
import RakshaQuant.Risk.FlattenOnce
import RakshaQuant.Backtesting.Bars
import RakshaQuant.Backtesting.Session
import RakshaQuant.DecisionModels.Cascade
import RakshaQuant.DecisionModels.Trust
import RakshaQuant.Engine.Timetable
import RakshaQuant.Lib.Products
import RakshaQuant.Marketdata.Bhavcopy
import RakshaQuant.Marketdata.History
import RakshaQuant.Marketdata.Validation
import RakshaQuant.DecisionModels.Announcements
import RakshaQuant.DecisionModels.Pipeline
import RakshaQuant.Web.Browser
import RakshaQuant.Web.Continuing
import RakshaQuant.Web.Resuming
import RakshaQuant.Backtesting.BarPath
import RakshaQuant.Backtesting.Edge
import RakshaQuant.DecisionModels.Calibration
import RakshaQuant.Evaluation.DailyReport
import RakshaQuant.Evaluation.NoLookAhead
import RakshaQuant.Features.Regime
import RakshaQuant.Lib.Steps
import RakshaQuant.Marketdata.HistoryTape
import RakshaQuant.Marketdata.QuoteRecovery
import RakshaQuant.Oms.Duplicates
import RakshaQuant.Risk.SessionShifts
import RakshaQuant.Lib.Agenda
import RakshaQuant.Domain.Clock
import RakshaQuant.Domain.ClockRuns
import RakshaQuant.Lib.AsOf
import RakshaQuant.Lib.Frame
import RakshaQuant.Marketdata.Replay
import RakshaQuant.Lib.Views
import RakshaQuant.Store.EventStore
import RakshaQuant.Store.Ledger
import RakshaQuant.Store.Projectors
import RakshaQuant.Lib.Renaming
import RakshaQuant.Engine.Canonical
import RakshaQuant.Lib.Memo
import RakshaQuant.DecisionModels.Cache
import RakshaQuant.DecisionModels.Replayed
import RakshaQuant.Domain.Json
import RakshaQuant.Llm.Evidence
import RakshaQuant.Lib.Replace
import RakshaQuant.Llm.Prompts
import RakshaQuant.Llm.Origins
import RakshaQuant.Decision.Reviews
import RakshaQuant.Decision.LlmVeto
