import Evald.Price
import Evald.EvalEvent
import Evald.Logs.ClaudeCode
import Evald.Logs.Codex
import Evald.Logs.GeminiCli

/-! # The traces door

An export request becomes the list of its spans, each normalized under its resource
and scope, fixed up when it is a coding agent's, and priced.
-/

namespace Evald.Traces

open Evald.Lib Evald.Otlp Evald.Normalize Evald.Logs

variable (deps : Deps)

def serviceName (resource : Option Resource) : Option String :=
  resource.bind (fun r => attrStr deps r.attributes "service.name")

def scopeOf (scope : Option Scope) : Option String × Option String :=
  (scope.bind (fun s => nonEmpty s.name), scope.bind (fun s => nonEmpty s.version))

/-- A coding agent's spans need its dialect's fix-up. -/
def fixFor (serviceName scopeName : Option String) : NormalizedSpan → NormalizedSpan :=
  if scopeName = some ClaudeCode.tracingScope then ClaudeCode.fixTraceSpan deps
  else if Codex.isTraceScope serviceName then Codex.fixTraceSpan
  else if GeminiCli.isTraceScope serviceName then GeminiCli.fixTraceSpan
  else id

/-- The version of the conventions, as an attribute unless the span has one. -/
def addSchemaUrl (schema : Option String) (n : NormalizedSpan) : NormalizedSpan :=
  match schema with
  | some url =>
    if n.rawAttributes.contains "otel.schema_url" then n
    else { n with rawAttributes := n.rawAttributes.insert "otel.schema_url" (.str url) }
  | none => n

def normalizeScoped (prices : Pricing.PriceTable) (service : Option String)
    (resourceSchema : Option String) (scopeSpans : ScopeSpans) (span : Span) : NormalizedSpan :=
  let (name, version) := scopeOf scopeSpans.scope
  let normalized := normalizeSpan deps span service name version
  let normalized := addSchemaUrl ((nonEmpty scopeSpans.schemaUrl).or resourceSchema) normalized
  Pricing.apply deps.float prices (fixFor deps service name normalized)

def normalizeRequest (prices : Pricing.PriceTable) (req : ExportTraceServiceRequest) :
    List NormalizedSpan :=
  req.resourceSpans.flatMap (fun resourceSpans =>
    let service := serviceName deps resourceSpans.resource
    resourceSpans.scopeSpans.flatMap (fun scopeSpans =>
      scopeSpans.spans.map
        (normalizeScoped deps prices service (nonEmpty resourceSpans.schemaUrl) scopeSpans)))

end Evald.Traces
