import SynaMcp.Access.Identifiers
import SynaMcp.Access.Laws
import SynaMcp.Access.Views
import SynaMcp.Auth.GrantedScope
import SynaMcp.Auth.Groups
import SynaMcp.Auth.Lockout
import SynaMcp.Auth.LoginSessions
import SynaMcp.Auth.Postgres
import SynaMcp.Client.Canonical
import SynaMcp.Http.Objects
import SynaMcp.Http.TokenRotation
import SynaMcp.Knowledge.Comeback
import SynaMcp.Knowledge.JobClaims
import SynaMcp.Knowledge.Ownership
import SynaMcp.Knowledge.Retries
import SynaMcp.Mcp.Dispatch
import SynaMcp.Mcp.Sessions
import SynaMcp.Proxy.Discovery
import SynaMcp.Services.Authority
import SynaMcp.Services.BusTransactions
import SynaMcp.Services.Challenges
import SynaMcp.Services.CounterRaces
import SynaMcp.Services.Firings
import SynaMcp.Services.GitReplicas
import SynaMcp.Services.LogRotation
import SynaMcp.Services.PathsAgree
import SynaMcp.Services.QueuePaths
import SynaMcp.Services.Readers
import SynaMcp.Services.SignedBytes
import SynaMcp.Services.TableChain
import SynaMcp.Services.TableDelivery
import SynaMcp.Services.Thresholds
import SynaMcp.Services.Timers
import SynaMcp.Store.Deletes
