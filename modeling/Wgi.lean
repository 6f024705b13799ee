import Wgi.Fallible
import Wgi.Machine
import Wgi.Loop
import Wgi.Process
import Wgi.Memo
import Wgi.Segments
import Wgi.Utf8
import Wgi.Lossy
import Wgi.Text
import Wgi.Grouping
import Wgi.HashMap
import Wgi.Base64
import Wgi.Urlencoded
import Wgi.Basic
import Wgi.LogForwarder
import Wgi.LogFile
import Wgi.TracingLogger
import Wgi.Http
import Wgi.PathSplits
import Wgi.Search
import Wgi.Request
import Wgi.CgiResponse
import Wgi.CgiOutput
import Wgi.CgiHandler
import Wgi.CgiVars
import Wgi.LambdaResponse
import Wgi.LambdaRequest
import Wgi.LambdaQuery
import Wgi.HeaderOrder
import Wgi.LambdaEnv
import Wgi.JsRuntime
import Wgi.Jsmn
import Wgi.LastIndex
import Wgi.JsmnSpec
import Wgi.JsmnRefine
import Wgi.JsmnTokens
import Wgi.JsmnCalls
import Wgi.JsmnJson
import Wgi.LambdaHandler
import Wgi.ResponseHeaders
import Wgi.Handlers
import Wgi.ModuleCache
import Wgi.ConcurrentCache
import Wgi.RunCgi
import Wgi.RunLambda
import Wgi.Server
import Wgi.CgiGuests
import Wgi.LambdaExample
import Wgi.JsBootstrap
import Wgi.LambdaJs
import Wgi.Containment
