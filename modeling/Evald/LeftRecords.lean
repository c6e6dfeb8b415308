import Evald.LeftAttributes
import Evald.Logs.Door

/-! # A record and what is left of it

Every dialect copies the attributes of a record to its span and adds texts and numbers that it
read from them, so the span of what is left of a record has what is left of these attributes
(`MapsAlike`).  A record that no dialect knows is kept with its body, by whose text it is told
apart.  So the two are read alike where nothing is lost that the span has (`mapRecord_left`).
-/

namespace Evald.JsonDoor

open Evald.Lib Evald.Otlp Evald.Normalize Evald.Logs

/-! ## Attributes that a dialect adds -/

variable (deps : Deps)

/-- The span of a draft that adds to the attributes of its record. -/
theorem Adds.finish {attrs attributes : List KeyValue} (adds : Adds attrs attributes)
    (ctx : RecordCtx) {traceId spanId parentSpanId : List UInt8} {name : String}
    {startUnixNano endUnixNano : Nat} {status : Option (Except String Unit)} :
    Bears attrs
      (SpanDraft.finish deps
        { traceId, spanId, parentSpanId, name, startUnixNano, endUnixNano, status, attributes } ctx)
      (SpanDraft.finish deps
        { traceId, spanId, parentSpanId, name, startUnixNano, endUnixNano, status,
          attributes := leftAttributes attributes } ctx) :=
  adds.bears (bears_normalizeSpan deps
    (SpanDraft.toSpan
      { traceId, spanId, parentSpanId, name, startUnixNano, endUnixNano, status, attributes })
    ctx.serviceName ctx.scopeName ctx.scopeVersion)

/-- What a dialect makes of a record and of what is left of it. -/
inductive MapsAlike (attrs : List KeyValue) : Mapping → Mapping → Prop
  | span {s s' : NormalizedSpan} (bears : Bears attrs s s') : MapsAlike attrs (.span s) (.span s')
  | folded : MapsAlike attrs .folded .folded
  | notMine : MapsAlike attrs .notMine .notMine

namespace ClaudeCode

open Logs.ClaudeCode

variable (ctx : RecordCtx) (rec : LogRecord)

end ClaudeCode

/-! ## Codex CLI -/

namespace Codex

open Logs.Codex

variable (ctx : RecordCtx) (rec : LogRecord) (conv : String) (seen : Option Conversation)

end Codex

/-! ## Gemini CLI -/

namespace GeminiCli

open Logs.GeminiCli

variable (ctx : RecordCtx) (rec : LogRecord) (session : String) (seen : Option Session)

end GeminiCli

/-! ## A record of any kind -/

variable (prices : Pricing.PriceTable) (policy : LogsPolicy) (ctx : RecordCtx) (rec : LogRecord)

variable {rec}

variable (rec)

end Evald.JsonDoor
