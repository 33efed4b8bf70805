import Gitgres.Bytes
import Gitgres.Schema
import Gitgres.Git
import Gitgres.OidType
import Gitgres.OidOrder
import Gitgres.Sql.Utf8
import Gitgres.Codec.Tree
import Gitgres.Codec.TreeSafety
import Gitgres.Codec.LsTree
import Gitgres.Sql.Statement
import Gitgres.Sql.Text
import Gitgres.Codec.Commit
import Gitgres.Sql.Eval
import Gitgres.Sql.Session
import Gitgres.Sql.Runs
import Gitgres.Sql.Locks
import Gitgres.Sql.Scope
import Gitgres.Refdb.Read
import Gitgres.Refdb.Write
import Gitgres.Refdb.RefUpdate
import Gitgres.Refdb.WriteRuns
import Gitgres.Refdb.Reflog
import Gitgres.Refdb.ReadPaths
import Gitgres.Refdb.Glob
import Gitgres.Refdb.Locking
import Gitgres.Refdb.DelRuns
import Gitgres.Refdb.RenameRuns
import Gitgres.Refdb.ReflogRuns
import Gitgres.Odb.Backend
import Gitgres.Odb.ObjectHash
import Gitgres.Odb.Prefix
import Gitgres.Odb.Writes
import Gitgres.Odb.WriteSessions
import Gitgres.Helper.Lines
import Gitgres.Helper.Commands
import Gitgres.Helper.Main
import Gitgres.Helper.FastForward
import Gitgres.Helper.Transcript
import Gitgres.Helper.PushList
import Gitgres.Helper.PushFetch
import Gitgres.Cli.PushClone
import Gitgres.Isolation
import Gitgres.Codec.TreeView
