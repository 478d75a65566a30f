import SqlMcpServer.Tool.WriteCheck
import SqlMcpServer.Tool.TransactionOutcomes
import SqlMcpServer.Workspace.ConcurrentWrites
import SqlMcpServer.Workspace.Publishes
import SqlMcpServer.Workspace.Delta
import SqlMcpServer.Workspace.Commits
import SqlMcpServer.Tool.Tenants
import SqlMcpServer.Bootstrap
import SqlMcpServer.Tool.Paging
import SqlMcpServer.Cost.Matches
import SqlMcpServer.Configapp.Roles
import SqlMcpServer.Configplan.Grants
import SqlMcpServer.Rbac.Subject
import SqlMcpServer.Cost.Explain
import SqlMcpServer.Budget.Accounting
import SqlMcpServer.Runtime.Lifetime
import SqlMcpServer.Tool.Expansion
import SqlMcpServer.Leasing.Moves
import SqlMcpServer.Codegen.Injection
import SqlMcpServer.Workspace.Patterns
import SqlMcpServer.Workspace.Presence
import SqlMcpServer.Engine.Singleflight
import SqlMcpServer.Bus.Lanes
import SqlMcpServer.Engine.Breaker
import SqlMcpServer.Tool.EntityRef
import SqlMcpServer.Revision.BasedOn
import SqlMcpServer.Lib.GoRegexp
import SqlMcpServer.Sql.Like
