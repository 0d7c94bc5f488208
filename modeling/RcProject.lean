import RcProject.Server.Strangers
import RcProject.Server.Deletions
import RcProject.Server.Roster
import RcProject.AvlTree.History
import RcProject.AvlTree.HeapCalls
import RcProject.Server.Passwords
import RcProject.Client.GroupChat
import RcProject.Client.Liveness
import RcProject.Client.Chat
import RcProject.Client.Terminal
import RcProject.Client.Script
import RcProject.Client.Options
import RcProject.Server.ServiceLives
import RcProject.ThreadPool.Workers
import RcProject.Queue.Removal
import RcProject.AvlTree.Size
import RcProject.AvlTree.Rotations
import RcProject.Client.Delivery
import RcProject.Client.Multicast
import RcProject.Server.Flags
import RcProject.Server.AdminSession
import RcProject.Server.ClientPointer
import RcProject.Server.Receive
import RcProject.Server.TornFile
import RcProject.Server.Refusals
import RcProject.Server.Grammar
import RcProject.Client.GroupNames
import RcProject.Client.LockStep
import RcProject.Server.Leftover
import RcProject.Server.Relay
import RcProject.Server.AdminStream
import RcProject.Server.Sessions
import RcProject.Server.UserTree
import RcProject.Server.AdminBuffer
import RcProject.Server.Groups
import RcProject.Server.Routing
import RcProject.Server.Authentication
import RcProject.Server.Restart
import RcProject.Server.Records
import RcProject.Server.Runs
import RcProject.Server.Startup
import RcProject.Server.Administration
import RcProject.Server.Requests
import RcProject.Server.Changes
import RcProject.Server.Lookups
import RcProject.Server.Valid
import RcProject.Server.Index
import RcProject.Server.Main
import RcProject.Server.ClientCommands
import RcProject.Server.Structs
import RcProject.Server.Strings
import RcProject.Server.Memory
import RcProject.Library.Blocks
import RcProject.Library.Scanf
import RcProject.AvlTree.Balance
import RcProject.AvlTree.Calls
import RcProject.Library.SearchTree
import RcProject.Library.Transition
import RcProject.Library.LinkedTree
