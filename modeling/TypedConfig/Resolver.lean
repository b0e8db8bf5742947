import TypedConfig.Resolution.Engine
import TypedConfig.Schema.Reader

/-!
# Resolvers

A resolver is a schema with settings; it resolves any number of configurations, each on its own.
-/

namespace TypedConfig

/-- A schema with settings. -/
structure Resolver where
  schema : Schema
  settings : Settings

/-- The settings to start from: no variables, no overrides, interpolation, and `this` as the name
of the configuration for itself. -/
def Settings.initial : Settings :=
  { externals := .null, parsers := .none, dialect := .interpolation, selfName := "this" }

/-- Variables must be a mapping, or null, and must leave the name of the configuration alone. -/
def Settings.checkVariables (s : Settings) : Except Error Unit :=
  match s.externals with
  | .null => .ok ()
  | .object entries =>
    if (entries.lookup s.selfName).isSome then .error (.reservedVariable s.selfName) else .ok ()
  | j => .error (.externals j.kind)

namespace Resolver

/-- The resolver for a schema, with the settings to start from. -/
def ofSchema (schema : Schema) : Resolver := ⟨schema, .initial⟩

/-- The outcome of a resolution and what was done on the way. -/
def run (r : Resolver) (raw : Json) : Except Error Value × List Event :=
  match r.settings.checkVariables with
  | .error e => (.error e, [])
  | .ok () =>
    match Node.ofConfig r.schema raw with
    | .error e => (.error (.shape e), [])
    | .ok root =>
      match Resolution.resolveTree r.settings root .start with
      | .ok v p => (.ok v, p.trace)
      | .error e p => (.error e, p.trace)

/-- The value that a configuration resolves to. -/
def resolve (r : Resolver) (raw : Json) : Except Error Value := (r.run raw).1

/-- What was looked up and parsed, in order, up to the end or the error. -/
def trace (r : Resolver) (raw : Json) : List Event := (r.run raw).2

end Resolver

/-- The schema that a document defines. -/
def schemaOf (definition : Json) : Except Error Schema :=
  match Schema.ofJson definition with
  | .ok schema => .ok schema
  | .error e => .error (.schema e)

end TypedConfig
