import FastServer.Basic
import FastServer.RouteSpec
import FastServer.Radix
import FastServer.Fast
import FastServer.Response
import FastServer.Request
import FastServer.Context
import FastServer.Middleware
import FastServer.Protocol
import FastServer.Compiled
import FastServer.Pools
import FastServer.Parser
import FastServer.Core
import FastServer.ConnTable
import FastServer.Pipelining
import FastServer.Ledger
import FastServer.RateLimiter
import FastServer.Websocket
import FastServer.Decimal
import FastServer.Observability
import FastServer.BytePool
import FastServer.WebsocketConn
import FastServer.Sse
import FastServer.Simd
import FastServer.RadixTermination
import FastServer.RadixStatic
import FastServer.RpcServer
import FastServer.RpcClient
import FastServer.FileCache
import FastServer.PipelinedConn
import FastServer.SseBroker
