import BearerSession.Authorization.Manager
import BearerSession.Authorization.Outcome
import BearerSession.Command.Footprint
import BearerSession.Command.Line
import BearerSession.Command.Option
import BearerSession.Command.Run
import BearerSession.Command.Session
import BearerSession.Config.Basic
import BearerSession.Config.File
import BearerSession.Config.Resolve
import BearerSession.Config.Storage
import BearerSession.Config.Update
import BearerSession.Credential.Cell
import BearerSession.Credential.Logging
import BearerSession.Credential.Store
import BearerSession.Disk.AtomicWrite
import BearerSession.Disk.Basic
import BearerSession.Disk.Path
import BearerSession.Durable.Basic
import BearerSession.Durable.CacheDirectory
import BearerSession.Durable.Memory
import BearerSession.Durable.Mount
import BearerSession.Durable.SessionFile
import BearerSession.Error
import BearerSession.Exchange
import BearerSession.Grant
import BearerSession.Header.Authorization
import BearerSession.Header.Challenge
import BearerSession.Header.Fields
import BearerSession.Identity
import BearerSession.Json.Reader
import BearerSession.Json.Writer
import BearerSession.Log
import BearerSession.Machine
import BearerSession.Main
import BearerSession.Number.Binary64
import BearerSession.Number.Decimal
import BearerSession.Number.Digits
import BearerSession.Number.Seconds
import BearerSession.Number.Word
import BearerSession.Output
import BearerSession.Output.Display
import BearerSession.Output.Markup
import BearerSession.Policy
import BearerSession.Proofs.Command.Answer
import BearerSession.Proofs.Command.Check
import BearerSession.Proofs.Command.Forgetting
import BearerSession.Proofs.Command.OnFile
import BearerSession.Proofs.Command.Secrecy
import BearerSession.Proofs.Command.SetConfig
import BearerSession.Proofs.Command.Streams
import BearerSession.Proofs.Config.Looking
import BearerSession.Proofs.Config.OneSetting
import BearerSession.Proofs.Config.Precedence
import BearerSession.Proofs.Config.Settings
import BearerSession.Proofs.Config.Veiled
import BearerSession.Proofs.Config.Written
import BearerSession.Proofs.Credential.Alongside
import BearerSession.Proofs.Credential.Clearing
import BearerSession.Proofs.Credential.Consistent
import BearerSession.Proofs.Credential.Effect
import BearerSession.Proofs.Credential.Forgetting
import BearerSession.Proofs.Credential.Frame
import BearerSession.Proofs.Credential.GivenBack
import BearerSession.Proofs.Credential.HeaderOrigin
import BearerSession.Proofs.Credential.Identities
import BearerSession.Proofs.Credential.IdentityText
import BearerSession.Proofs.Credential.InForce
import BearerSession.Proofs.Credential.Installation
import BearerSession.Proofs.Credential.Interruption
import BearerSession.Proofs.Credential.LeftCopy
import BearerSession.Proofs.Credential.Listed
import BearerSession.Proofs.Credential.Logging
import BearerSession.Proofs.Credential.NotedAlongside
import BearerSession.Proofs.Credential.OwnErrors
import BearerSession.Proofs.Credential.PolicyChange
import BearerSession.Proofs.Credential.Reached
import BearerSession.Proofs.Credential.Refusal
import BearerSession.Proofs.Credential.Representation
import BearerSession.Proofs.Credential.Restart
import BearerSession.Proofs.Credential.Rollback
import BearerSession.Proofs.Credential.Settled
import BearerSession.Proofs.Credential.Snapshot
import BearerSession.Proofs.Credential.Tokens
import BearerSession.Proofs.Credential.Undisturbed
import BearerSession.Proofs.Disk.Alike
import BearerSession.Proofs.Disk.Files
import BearerSession.Proofs.Disk.Writing
import BearerSession.Proofs.Durable.Corrupted
import BearerSession.Proofs.Durable.FailedWrite
import BearerSession.Proofs.Durable.Fallible
import BearerSession.Proofs.Durable.GivesBack
import BearerSession.Proofs.Durable.LawfulFile
import BearerSession.Proofs.Durable.SessionFile
import BearerSession.Proofs.Durable.SharedFile
import BearerSession.Proofs.Durable.Veiled
import BearerSession.Proofs.Header.Attached
import BearerSession.Proofs.Header.Challenge
import BearerSession.Proofs.Header.Fields
import BearerSession.Proofs.Header.Request
import BearerSession.Proofs.Identity.Stored
import BearerSession.Proofs.Identity.Survival
import BearerSession.Proofs.Json.Accepted
import BearerSession.Proofs.Json.Grammar
import BearerSession.Proofs.Json.Limits
import BearerSession.Proofs.Json.Number
import BearerSession.Proofs.Json.Plain
import BearerSession.Proofs.Json.Reread
import BearerSession.Proofs.Json.RoundTrip
import BearerSession.Proofs.Json.Text
import BearerSession.Proofs.Managed.Basic
import BearerSession.Proofs.Managed.Closing
import BearerSession.Proofs.Managed.Completion
import BearerSession.Proofs.Managed.Delivery
import BearerSession.Proofs.Managed.FirstCompletion
import BearerSession.Proofs.Managed.Flow
import BearerSession.Proofs.Managed.Membership
import BearerSession.Proofs.Managed.Notification
import BearerSession.Proofs.Managed.Raising
import BearerSession.Proofs.Managed.Record
import BearerSession.Proofs.Managed.Rest
import BearerSession.Proofs.Managed.Roster
import BearerSession.Proofs.Managed.Serial
import BearerSession.Proofs.Managed.SingleFlight
import BearerSession.Proofs.Managed.Site
import BearerSession.Proofs.Managed.Staff
import BearerSession.Proofs.Managed.Steps
import BearerSession.Proofs.Managed.Turns
import BearerSession.Proofs.Managed.Working
import BearerSession.Proofs.Number.Digits
import BearerSession.Proofs.Number.Nearest
import BearerSession.Proofs.Number.Shortest
import BearerSession.Proofs.Number.Word
import BearerSession.Proofs.Realm.LastBinding
import BearerSession.Proofs.Text.Ascii
import BearerSession.Proofs.Text.Utf8
import BearerSession.Proofs.Value.Entries
import BearerSession.Proofs.Value.Stored
import BearerSession.Realm.Registry
import BearerSession.Simulation.Run
import BearerSession.Simulation.Script
import BearerSession.Simulation.Shared
import BearerSession.Simulation.Table
import BearerSession.Simulation.World
import BearerSession.Text.Basic
import BearerSession.Text.CaseTable
import BearerSession.Text.Literal
import BearerSession.Text.PrintTable
import BearerSession.Text.Utf8
import BearerSession.Validation
import BearerSession.Value.Basic
import BearerSession.Value.Display
import BearerSession.Value.Same
import BearerSession.Value.Stored
import BearerSession.Workplace
