import WebPipe.Ast

/-!
# Programs

`Program` of `ast/types.rs`, as far as loading and merging modules read it: imports, pipelines, variables, routes and GraphQL
resolvers. Configurations and `describe` blocks are read by neither the executor nor the resolution of names.
-/

namespace WebPipe

/-- An import: a path relative to the file, and the alias for what it imports. -/
structure Import where
  path : String
  «alias» : String
deriving DecidableEq, Repr

structure NamedPipeline where
  name : String
  pipeline : Pipeline

/-- A variable as it is declared; its type is the middleware that it is for. -/
structure VariableDecl where
  varType : String
  name : String
  value : String
deriving DecidableEq, Repr

structure QueryResolver where
  name : String
  pipeline : Pipeline

structure MutationResolver where
  name : String
  pipeline : Pipeline

structure TypeResolver where
  typeName : String
  fieldName : String
  pipeline : Pipeline

/-- The pipeline of a route: its own, or a named one. -/
inductive PipelineRef where
  | inline (pipeline : Pipeline)
  | named (name : String)

structure Route where
  method : String
  path : String
  pipeline : PipelineRef

/-- A parsed file. -/
structure Program where
  imports : List Import := []
  pipelines : List NamedPipeline := []
  «variables» : List VariableDecl := []
  routes : List Route := []
  /-- The text of the GraphQL schema. -/
  graphqlSchema : Option String := none
  queries : List QueryResolver := []
  mutations : List MutationResolver := []
  resolvers : List TypeResolver := []
  featureFlags : Option Pipeline := none

end WebPipe
