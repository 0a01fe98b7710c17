import Fastrak.Library.Transaction
import Fastrak.Library.Run
import Fastrak.Library.Rounding
import Fastrak.Library.Table
import Fastrak.Library.Grouping
import Fastrak.Library.Text
import Fastrak.Library.Base64
import Fastrak.Library.Literal
import Fastrak.Order.Record
import Fastrak.Order.Environment
import Fastrak.Order.Invoice
import Fastrak.Order.InvoiceEffect
import Fastrak.Order.Operation
import Fastrak.Order.Payment
import Fastrak.Order.Controller
import Fastrak.Order.System
import Fastrak.Order.JsonRequest
import Fastrak.Order.CallEffect
import Fastrak.Order.UpdateCheck
import Fastrak.Order.InvoiceRebuild
import Fastrak.Order.UpdateRun
import Fastrak.Order.UpdateEffect
import Fastrak.Order.RequestEffect
import Fastrak.Order.Step
import Fastrak.Order.Frame
import Fastrak.Order.Ledger
import Fastrak.Order.CallFrame
import Fastrak.Order.Computation
import Fastrak.Order.Posting
import Fastrak.GroupInvoice.Operation
import Fastrak.GroupInvoice.Effect
import Fastrak.GroupInvoice.Penalty
import Fastrak.GroupInvoice.PenaltyEffect
import Fastrak.Withdraw.Operation
import Fastrak.Account.Chart
import Fastrak.Auth.User
import Fastrak.Auth.Header
import Fastrak.Auth.Effect
import Fastrak.Auth.Calls
import Fastrak.Auth.Log
import Fastrak.TrialBalance.Ledger
import Fastrak.TrialBalance.Report
import Fastrak.TrialBalance.Merge
import Fastrak.TrialBalance.Sums
import Fastrak.Property.TripAgreement
import Fastrak.Property.SingleInvoice
import Fastrak.Property.Billing
import Fastrak.Property.Delivery
import Fastrak.Property.Collection
import Fastrak.Property.Closing
import Fastrak.Property.ClosedFields
import Fastrak.Property.ShippingLine
import Fastrak.Property.Refusal
import Fastrak.Property.CustomerMoney
import Fastrak.Property.TokenOwner
import Fastrak.Property.TrialBalance
import Fastrak.Property.GroupInvoiceLine
import Fastrak.Property.GroupInvoiceTotal
import Fastrak.Withdraw.Effect
import Fastrak.Property.Withdrawal
import Fastrak.Property.PaymentStatus
import Fastrak.Property.LogSecrecy
import Fastrak.Property.FlaggedAccount
import Fastrak.Property.InvoiceCharge
import Fastrak.Property.VatSplit
import Fastrak.Property.Invoicing
import Fastrak.Property.EntryRounding
import Fastrak.Property.TripEdit
import Fastrak.Property.GroupInvoiceResidual
import Fastrak.Property.WizardDiscount
import Fastrak.Property.NightlyPenalty
import Fastrak.Property.PenaltyInvoice
import Fastrak.Property.Rebuild
import Fastrak.Withdraw.Commission
import Fastrak.Property.CommissionSchedule
import Fastrak.Property.CommissionLimits
import Fastrak.Withdraw.Fee
import Fastrak.Property.WithdrawalFee
import Fastrak.Crm.Target
import Fastrak.Property.SalesTarget
import Fastrak.Crm.TargetReport
import Fastrak.Property.TargetReport
import Fastrak.Auth.Wrapper
import Fastrak.Property.WrapperAnswer
import Fastrak.ElectronicInvoice.Report
import Fastrak.Property.CreditReference
import Fastrak.Property.ElectronicInvoice
import Fastrak.Order.MoveRun
import Fastrak.Account.AuditLock
import Fastrak.Property.AuditLock
import Fastrak.ElectronicInvoice.Company
import Fastrak.Property.Documents
import Fastrak.Property.ReportRows
import Fastrak.Property.TripBatch
import Fastrak.Auth.TokenLoop
import Fastrak.Property.TokenCollision
import Fastrak.JobRunner.PriorityQueue
import Fastrak.JobRunner.Channel
import Fastrak.JobRunner.ChannelEffect
import Fastrak.JobRunner.Yield
import Fastrak.JobRunner.Place
import Fastrak.JobRunner.Poll
import Fastrak.JobRunner.Job
import Fastrak.JobRunner.JobSystem
import Fastrak.JobRunner.JobEffect
import Fastrak.JobRunner.Manager
import Fastrak.JobRunner.ChannelName
import Fastrak.JobRunner.ManagerEffect
import Fastrak.JobRunner.Wakeup
import Fastrak.JobRunner.Runner
import Fastrak.Property.LazyRemoval
import Fastrak.Property.JobPlace
import Fastrak.Property.HandOut
import Fastrak.Property.ChannelCapacity
import Fastrak.Property.PollOrder
import Fastrak.Property.WakeupTime
import Fastrak.Property.JobDependency
import Fastrak.Property.JobRetry
import Fastrak.Property.DatabaseCapacity
import Fastrak.JobRunner.Graph
import Fastrak.JobRunner.Delayable
import Fastrak.JobRunner.DelayableEffect
import Fastrak.Property.ConnectedGraph
import Fastrak.Property.GraphOrder
import Fastrak.Property.GraphPaths
import Fastrak.Asset.Date
import Fastrak.Asset.Board
import Fastrak.Asset.Lifecycle
import Fastrak.Property.DepreciationBoard
import Fastrak.Property.Depreciation
