import WebPipe.Theorems.CacheAccounting
import WebPipe.Theorems.CacheRefinement
import WebPipe.Theorems.SingleRefresher
import WebPipe.Theorems.ShortCircuit
import WebPipe.Theorems.IfCondition
import WebPipe.Theorems.Handlers
import WebPipe.Theorems.Escapes
import WebPipe.Lemmas.History
import WebPipe.Lemmas.RunCalls
import WebPipe.Theorems.RefreshSlots
import WebPipe.Theorems.Replay
import WebPipe.Theorems.FlagAnalysis
import WebPipe.Theorems.FlagElision
import WebPipe.Theorems.JoinTargets
import WebPipe.Theorems.AsyncTransparency
import WebPipe.Theorems.TaskDelivery
import WebPipe.Theorems.JoinedResults
import WebPipe.Theorems.ImportLoading
import WebPipe.Theorems.RateLimiting
import WebPipe.Theorems.AutoNaming
import WebPipe.Theorems.LastStep
import WebPipe.Theorems.NamedResults
import WebPipe.Theorems.Foreach
import WebPipe.Theorems.StaticServing
import WebPipe.Theorems.Disconnect
import WebPipe.Theorems.DebuggerTransparency
import WebPipe.Lemmas.Reports
import WebPipe.Theorems.ContentType
import WebPipe.Theorems.TagNegation
import WebPipe.Theorems.RejectedPut
import WebPipe.Lib.Framing
import WebPipe.Theorems.CacheKeys
import WebPipe.Theorems.LimitOverflow
import WebPipe.Lib.Template
import WebPipe.Theorems.KeyTemplates
import WebPipe.Lib.Nom
import WebPipe.Lib.Guarded
import WebPipe.Parser.Tokens
import WebPipe.Theorems.CommentSkipping
import WebPipe.Parser.InlineArgs
import WebPipe.Theorems.InlineArgs
import WebPipe.Parser.Tags
import WebPipe.Lemmas.Tokens
import WebPipe.Lemmas.TagText
import WebPipe.Lemmas.TagGroups
import WebPipe.Lemmas.TagChains
import WebPipe.Theorems.TagRoundTrip
import WebPipe.Parser.Steps
import WebPipe.Lib.Utf8
import WebPipe.Http.Request
import WebPipe.Lemmas.Steps
import WebPipe.Theorems.CookieHeaders
import WebPipe.Theorems.FormBodies
import WebPipe.Slices
import WebPipe.Migrations
import WebPipe.Lib.Front
import WebPipe.Theorems.MigrationUndo
import WebPipe.Theorems.MigrationFiles
import WebPipe.Theorems.Validation
import WebPipe.Theorems.RuleTexts
import WebPipe.Theorems.FailedLoads
import WebPipe.Lib.HashTable
import WebPipe.Testing.Mocks
import WebPipe.Theorems.ScopedMocks
import WebPipe.JsonEquality
import WebPipe.Middleware.Lua
import WebPipe.Lemmas.LuaTables
import WebPipe.Theorems.LuaRoundTrip
import WebPipe.Middleware.Assert
import WebPipe.Theorems.AssertParser
import WebPipe.Theorems.AssertLiterals
import WebPipe.Testing.Containment
import WebPipe.Theorems.Containment
import WebPipe.Theorems.SplitArgs
import WebPipe.Parser.Config
import WebPipe.Theorems.ConfigRoundTrip
import WebPipe.Lib.Segments
import WebPipe.Debugger.Wire
import WebPipe.Theorems.MessageFraming
import WebPipe.Debugger.Variables
import WebPipe.Lemmas.References
import WebPipe.Theorems.VariableReferences
import WebPipe.Debugger.Places
import WebPipe.Lemmas.Pointers
import WebPipe.Theorems.SetVariable
import WebPipe.Lib.Brackets
import WebPipe.Debugger.Stepping
import WebPipe.Lemmas.Stepping
import WebPipe.Theorems.Stepping
import WebPipe.Lib.Total
import WebPipe.Lemmas.Halting
import WebPipe.Theorems.Termination
import WebPipe.Theorems.ProfilerStack
import WebPipe.Lemmas.KeyTexts
import WebPipe.Graphql.Loader
import WebPipe.Lemmas.LoadGroups
import WebPipe.Theorems.LoaderBatches
import WebPipe.Theorems.StepNames
import WebPipe.Lib.NomLoops
import WebPipe.Parser.Tests
import WebPipe.Parser.Program
import WebPipe.Lemmas.Program
import WebPipe.Theorems.ProgramParsing
import WebPipe.Lib.Entries
import WebPipe.Server.Modules
import WebPipe.Lemmas.Modules
import WebPipe.Lemmas.Environments
import WebPipe.Theorems.ModuleScopes
import WebPipe.Theorems.TestEnvironment
import WebPipe.Theorems.ModuleOrder
import WebPipe.Lib.Memo
import WebPipe.Runtime.Jq
import WebPipe.Theorems.FilterCaches
import WebPipe.Middleware.Handlebars
import WebPipe.Theorems.TemplateRenders
import WebPipe.Theorems.RetryAfter
import WebPipe.Theorems.MigrationRuns
import WebPipe.Debugger.Sends
import WebPipe.Theorems.ConcurrentSends
