import PennCloud.Lib.Runs
import PennCloud.Backend.Tablet
import PennCloud.Backend.Serializer
import PennCloud.Backend.Logger
import PennCloud.Backend.Coordinator
import PennCloud.Backend.Worker
import PennCloud.Backend.Recovery
import PennCloud.Backend.Durability
import PennCloud.Backend.Crash
import PennCloud.Backend.Cluster
import PennCloud.Backend.Outage
import PennCloud.Backend.Convergence
import PennCloud.Backend.Failover
import PennCloud.Backend.Survival
import PennCloud.Backend.Exclusive
import PennCloud.Lib.Calls
import PennCloud.Lib.Text
import PennCloud.Frontend.Client
import PennCloud.Frontend.Accounts
import PennCloud.Frontend.AccountRaces
import PennCloud.Frontend.Sessions
import PennCloud.Frontend.SessionRaces
import PennCloud.Frontend.Dispatch
import PennCloud.Frontend.Storage.Names
import PennCloud.Frontend.Storage.Service
import PennCloud.Frontend.Storage.Rows
import PennCloud.Frontend.Storage.Trees
import PennCloud.Frontend.Storage.Requests
import PennCloud.Frontend.Storage.Collisions
import PennCloud.Frontend.Storage.Listing
import PennCloud.Frontend.Storage.Effects
import PennCloud.Frontend.Storage.Visible
import PennCloud.Frontend.Storage.Subtrees
import PennCloud.Frontend.Storage.Complete
import PennCloud.Frontend.Storage.Additions
import PennCloud.Frontend.Mail.Mailbox
import PennCloud.Frontend.Mail.Smtp
import PennCloud.Frontend.Mail.Connection
import PennCloud.Frontend.Mail.Transactions
import PennCloud.Frontend.Mail.Service
import PennCloud.Frontend.Mail.Handoff
import PennCloud.Frontend.Mail.Deliveries
import PennCloud.Frontend.Mail.Readable
import PennCloud.Frontend.Admin
import PennCloud.Frontend.Mail.Ownership
import PennCloud.Frontend.Storage.Forms
import PennCloud.Frontend.Storage.Methods
import PennCloud.Frontend.Storage.Ending
import PennCloud.Backend.Copies
import PennCloud.Lib.Worklist
import PennCloud.Frontend.Storage.Deletion
import PennCloud.Frontend.Storage.Contents
import PennCloud.Frontend.Storage.Uploads
import PennCloud.Frontend.Storage.FileMoves
import PennCloud.Frontend.Storage.Multipart
import PennCloud.Frontend.Storage.MoveWalks
import PennCloud.Frontend.Storage.FolderMoves
import PennCloud.Frontend.Storage.FolderRenames
import PennCloud.Frontend.Storage.OwnLists
import PennCloud.Frontend.Storage.MoveEnding
import PennCloud.Frontend.Mail.FormFields
import PennCloud.Frontend.Mail.Records
import PennCloud.Frontend.Mail.DataMode
import PennCloud.Frontend.ActiveUsers
import PennCloud.Frontend.Mail.Lists
import PennCloud.Frontend.Mail.Links
import PennCloud.Frontend.Storage.FormFields
import PennCloud.Frontend.Mail.Transparency
import PennCloud.Frontend.Mail.Submissions
import PennCloud.Frontend.Storage.Arrivals
import PennCloud.Backend.LogFile
import PennCloud.Backend.Agreement
import PennCloud.Backend.Outcomes
import PennCloud.Frontend.LoadBalancer
import PennCloud.Frontend.Storage.ListColumns
import PennCloud.Lib.Receive
import PennCloud.Frontend.Storage.ChunkedTransfer
import PennCloud.Backend.Heartbeats
import PennCloud.Backend.LogBound
import PennCloud.Backend.SingleNode
import PennCloud.Frontend.Storage.FileSystem
import PennCloud.Frontend.Storage.TreeSteps
import PennCloud.Frontend.Storage.Refinement
import PennCloud.Frontend.Authority
import PennCloud.Frontend.Cloud
import PennCloud.Frontend.CloudRuns
import PennCloud.Frontend.Deployment
