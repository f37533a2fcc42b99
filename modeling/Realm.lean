import Realm.Account.Authenticator
import Realm.Account.Basic
import Realm.Account.Login
import Realm.Account.Pool
import Realm.Account.Repository
import Realm.Account.Schedule
import Realm.Account.Storage
import Realm.Bounded
import Realm.Entity.Basic
import Realm.Entity.Handle
import Realm.Entity.Kind
import Realm.Entity.Mask
import Realm.Entity.Store
import Realm.Main
import Realm.Message.Catalog
import Realm.Message.Command
import Realm.Message.Event
import Realm.Message.Inbound
import Realm.Message.Topic
import Realm.Net.Address
import Realm.Net.Connection
import Realm.Net.Connections
import Realm.Number.Single
import Realm.Proofs.Account.Answer
import Realm.Proofs.Account.Conclusion
import Realm.Proofs.Account.Crew
import Realm.Proofs.Account.Duty
import Realm.Proofs.Account.Fates
import Realm.Proofs.Account.Inquiry
import Realm.Proofs.Account.Judgement
import Realm.Proofs.Account.Lateness
import Realm.Proofs.Account.Line
import Realm.Proofs.Account.Petition
import Realm.Proofs.Account.Promptness
import Realm.Proofs.Account.Reception
import Realm.Proofs.Account.Service
import Realm.Proofs.Account.Standing
import Realm.Proofs.Entity.KindSet
import Realm.Proofs.Entity.Mask
import Realm.Proofs.Entity.Record
import Realm.Proofs.Message.Grammar
import Realm.Proofs.Message.RoundTrip
import Realm.Proofs.Net.Ages
import Realm.Proofs.Net.Dealings
import Realm.Proofs.Net.Table
import Realm.Proofs.Net.Use
import Realm.Proofs.Router.Answers
import Realm.Proofs.Router.Board
import Realm.Proofs.Router.Broadcast
import Realm.Proofs.Router.Calls
import Realm.Proofs.Router.Draining
import Realm.Proofs.Router.Ending
import Realm.Proofs.Router.Lists
import Realm.Proofs.Router.Passage
import Realm.Proofs.Router.Post
import Realm.Proofs.Router.Progress
import Realm.Proofs.Router.Refinement
import Realm.Proofs.Router.Stock
import Realm.Proofs.Router.Straddling
import Realm.Proofs.Router.Upkeep
import Realm.Proofs.Router.Visits
import Realm.Proofs.Server.Accounts
import Realm.Proofs.Server.Act
import Realm.Proofs.Server.Authentic
import Realm.Proofs.Server.Closing
import Realm.Proofs.Server.Crowding
import Realm.Proofs.Server.Handling
import Realm.Proofs.Server.Holders
import Realm.Proofs.Server.Intake
import Realm.Proofs.Server.Ledger
import Realm.Proofs.Server.Mailing
import Realm.Proofs.Server.Outlet
import Realm.Proofs.Server.Reading
import Realm.Proofs.Session.Attendance
import Realm.Proofs.Session.Events
import Realm.Proofs.Session.Feed
import Realm.Proofs.Session.Handover
import Realm.Proofs.Session.Link
import Realm.Proofs.Session.Lookup
import Realm.Proofs.Session.Queueing
import Realm.Proofs.Session.Roll
import Realm.Proofs.Session.Turnover
import Realm.Proofs.Simulation.Admission
import Realm.Proofs.Simulation.Announcement
import Realm.Proofs.Simulation.CommandPass
import Realm.Proofs.Simulation.Conclusion
import Realm.Proofs.Simulation.Course
import Realm.Proofs.Simulation.Deed
import Realm.Proofs.Simulation.Departure
import Realm.Proofs.Simulation.Drainage
import Realm.Proofs.Simulation.Draining
import Realm.Proofs.Simulation.Enrolment
import Realm.Proofs.Simulation.Footing
import Realm.Proofs.Simulation.Heading
import Realm.Proofs.Simulation.Isolation
import Realm.Proofs.Simulation.Lifetime
import Realm.Proofs.Simulation.Movement
import Realm.Proofs.Simulation.Obedience
import Realm.Proofs.Simulation.Pairing
import Realm.Proofs.Simulation.Peopled
import Realm.Proofs.Simulation.Phases
import Realm.Proofs.Simulation.Pushing
import Realm.Proofs.Simulation.Round
import Realm.Proofs.Simulation.Run
import Realm.Proofs.Simulation.Serving
import Realm.Proofs.Simulation.Tick
import Realm.Proofs.Simulation.Unfailing
import Realm.Proofs.Store.Apply
import Realm.Proofs.Store.Effect
import Realm.Proofs.Store.History
import Realm.Proofs.Store.Identities
import Realm.Proofs.Store.Ledger
import Realm.Proofs.Store.Living
import Realm.Proofs.Store.Queue
import Realm.Proofs.Store.Refinement
import Realm.Proofs.Store.Replay
import Realm.Proofs.Store.Roster
import Realm.Proofs.Store.Steady
import Realm.Proofs.Store.Stray
import Realm.Proofs.Store.Tenure
import Realm.Proofs.Store.Tidy
import Realm.Proofs.Store.Visible
import Realm.Proofs.Time.Moment
import Realm.Proofs.Time.Spacing
import Realm.Proofs.Time.Stopping
import Realm.Proofs.Wire.Agreement
import Realm.Proofs.Wire.Cursor
import Realm.Proofs.Wire.Frame
import Realm.Proofs.Wire.Framing
import Realm.Proofs.Wire.Grammar
import Realm.Proofs.Wire.Payload
import Realm.Proofs.Wire.Sequence
import Realm.Proofs.Wire.Spelling
import Realm.Proofs.Wire.Stream
import Realm.Proofs.Wire.Varint
import Realm.Proofs.World.Attend
import Realm.Proofs.World.Interval
import Realm.Proofs.World.Isolation
import Realm.Proofs.World.Keep
import Realm.Proofs.World.Run
import Realm.Proofs.World.Schedule
import Realm.Proofs.World.Subscription
import Realm.Proofs.World.Turns
import Realm.Proofs.World.Work
import Realm.Router.Basic
import Realm.Router.Delivery
import Realm.Router.Mailbox
import Realm.Server.Admission
import Realm.Server.Basic
import Realm.Server.Downlink
import Realm.Server.Error
import Realm.Server.Handler
import Realm.Server.Routing
import Realm.Server.Uplink
import Realm.Session.Basic
import Realm.Session.Registry
import Realm.Settings.App
import Realm.Settings.CommandLine
import Realm.Settings.Launch
import Realm.Settings.Section
import Realm.Settings.Server
import Realm.Simulation.Basic
import Realm.Simulation.Component
import Realm.Simulation.Lobby
import Realm.Simulation.Loop
import Realm.Simulation.Systems
import Realm.Text.CodeRange
import Realm.Text.Extending
import Realm.Text.Invisible
import Realm.Text.Quoted
import Realm.Time.Clock
import Realm.Time.Duration
import Realm.Time.Instant
import Realm.Time.Pulse
import Realm.Time.Shutdown
import Realm.Toml.Document
import Realm.Toml.Number
import Realm.Toml.Scan
import Realm.Toml.Value
import Realm.Wire.Error
import Realm.Wire.Field
import Realm.Wire.Packet
import Realm.Wire.Stream
import Realm.Wire.Varint
import Realm.World.Basic
import Realm.World.Error
import Realm.World.Policy
import Realm.World.Script
import Realm.World.System
