import Optiflow.Lib.Assoc
import Optiflow.Lib.Ledger
import Optiflow.Lib.RelyGuarantee
import Optiflow.Lib.Family
import Optiflow.Lib.ParentGraph
import Optiflow.Model.Models
import Optiflow.Model.Hub
import Optiflow.Model.NotificationSocket
import Optiflow.Model.ApiTokens
import Optiflow.Lib.Keyed
import Optiflow.Model.NotificationCache
import Optiflow.Model.Database
import Optiflow.Model.Statement
import Optiflow.Model.GoPath
import Optiflow.Model.UploadSvc
import Optiflow.Model.ApiSvc
import Optiflow.Model.Workers
import Optiflow.Model.Services
import Optiflow.Model.DatabaseSpec
import Optiflow.Lib.Transaction
import Optiflow.Model.DeleteFolder
import Optiflow.Proof.KnownCalls
import Optiflow.Proof.Rows
import Optiflow.Proof.Jobs
import Optiflow.Proof.Finished
import Optiflow.Proof.Lineages
import Optiflow.Proof.Folders
import Optiflow.Proof.Moves
import Optiflow.Proof.Tidy
import Optiflow.Proof.Browsing
import Optiflow.Proof.Deleted
import Optiflow.Proof.Quota
import Optiflow.Proof.ShareBodies
import Optiflow.Proof.ShareExpiry
import Optiflow.Proof.Shares
import Optiflow.Proof.FanOut
import Optiflow.Proof.SocketRuns
import Optiflow.Proof.SessionTokens
import Optiflow.Proof.NotificationList
import Optiflow.Proof.Passwords
import Optiflow.Proof.ResetTokens
import Optiflow.Proof.Completion
import Optiflow.Proof.CreateShare
import Optiflow.Lib.Alone
import Optiflow.Lib.TwoRuns
import Optiflow.Lib.Part
import Optiflow.Proof.Links
import Optiflow.Proof.OwnCalls
import Optiflow.Proof.Subtree
import Optiflow.Proof.Rooted
import Optiflow.Proof.Smoothly
import Optiflow.Proof.Versions
import Optiflow.Lib.MachineInt
import Optiflow.Proof.QuotaSums
import Optiflow.Proof.AlikeStores
import Optiflow.Proof.Isolation
import Optiflow.Proof.UploadStart
import Optiflow.Proof.Admission
import Optiflow.Proof.TusUploads
import Optiflow.Proof.UploadPaths
import Optiflow.Proof.StoredSizes
import Optiflow.Lib.History
import Optiflow.Model.Sessions
import Optiflow.Proof.Sessions
import Optiflow.Proof.Playlists
import Optiflow.Proof.Manifest
import Optiflow.Proof.ObjectKeys
import Optiflow.Proof.Backed
import Optiflow.Proof.BackedCalls
import Optiflow.Proof.Cleanup
import Optiflow.Proof.CleanPaths
import Optiflow.Proof.WorkerCalls
import Optiflow.Proof.HlsAssets
import Optiflow.Proof.KeysApart
import Optiflow.Proof.TransientFailures
import Optiflow.Lib.Runes
import Optiflow.Lib.JsonText
import Optiflow.Lib.JsonStrings
import Optiflow.Model.Messages
import Optiflow.Proof.Messages
import Optiflow.Proof.Payloads
import Optiflow.Lib.Custody
import Optiflow.Proof.Deliveries
import Optiflow.Proof.Notices
import Optiflow.Lib.Later
import Optiflow.Model.Notifications
import Optiflow.Proof.Notifications
import Optiflow.Proof.HubRequests
import Optiflow.Proof.DeadLinks
import Optiflow.Proof.ErrorAnswers
import Optiflow.Proof.Confinement
import Optiflow.Proof.ConfinedCalls
import Optiflow.Proof.Accounts
import Optiflow.Proof.SharedURLs
