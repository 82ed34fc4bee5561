import KwAwards.Lib.Run
import KwAwards.Lib.Linearize
import KwAwards.Voting.AppendOnly
import KwAwards.Voting.OneVote
import KwAwards.Voting.Results
import KwAwards.Voting.AuditReplay
import KwAwards.Voting.Closing
import KwAwards.Events.Serializers
import KwAwards.Events.Views
import KwAwards.Nominations.Services
import KwAwards.Voting.Denormalised
import KwAwards.Events.ConcurrentEdits
import KwAwards.Voting.PhoneKeys
import KwAwards.Voting.Otp
import KwAwards.Lib.Since
import KwAwards.Voting.OtpHistory
import KwAwards.Voting.OtpConcurrent
import KwAwards.Voting.GuessBound
import KwAwards.Voting.NewestCode
import KwAwards.Events.StatusTrail
import KwAwards.Events.OpenWindow
import KwAwards.Settings.Backends
import KwAwards.Lib.Counting
import KwAwards.Common.BudgetConcurrent
import KwAwards.Settings.SharedCaches
import KwAwards.Nominations.Submission
import KwAwards.Voting.Authentication
import KwAwards.Voting.Purge
import KwAwards.Voting.Entries
import KwAwards.Platform
import KwAwards.Audit.PhoneSearch
import KwAwards.Voting.RequestView
import KwAwards.Events.Reads
import KwAwards.Nominations.Reads
import KwAwards.PublicReads
import KwAwards.Lib.Ranking
import KwAwards.Voting.Ranking
import KwAwards.Voting.EventStats
import KwAwards.Voting.ResultTotals
import KwAwards.Events.Deletion
import KwAwards.Nominations.Duplicates
import KwAwards.Nominations.ReviewOnce
import KwAwards.Common.WindowLimit
import KwAwards.Common.ErrorResponse
import KwAwards.Accounts.Authentication
import KwAwards.Common.Rates
import KwAwards.Nominations.Admin
import KwAwards.Events.Windows
import KwAwards.Lib.Words
import KwAwards.Common.Text
import KwAwards.Common.PlainText
import KwAwards.Nominations.TextColumns
import KwAwards.Lib.Printf
import KwAwards.Common.LogFilters
import KwAwards.Accounts.Permissions
import KwAwards.Api.Dispatch
import KwAwards.Api.Actions
import KwAwards.Accounts.Login
import KwAwards.Api.Guards
import KwAwards.Audit.Attribution
import KwAwards.Api.Accountability
import KwAwards.Api.Provenance
import KwAwards.Api.Revocation
import KwAwards.References
import KwAwards.Api.Integrity
import KwAwards.Api.Journal
import KwAwards.Api.StaffLogin
import KwAwards.Voting.FinalResults
import KwAwards.Api.Finality
import KwAwards.Api.RateLimits
import KwAwards.Api.GuessLimits
import KwAwards.Lib.Ballots
import KwAwards.Voting.BallotBox
import KwAwards.Api.Ballots
