import OpenProxy.Observation

/-!
# Token counters (`record_tokens`, `record_observations` of `proxy.rs`)

A finalized response increments the counters of its client and model. Whether a completion count was measured or
estimated is in the labels; of a prompt count it is not.
-/

namespace OpenProxy.Provenance

open Observer

structure Ctx where
  client : String
  model : String
  deriving DecidableEq, Repr

/-- A counter: its name and its labels. -/
structure Series where
  name : String
  labels : List (String × String)
  deriving DecidableEq, Repr

structure Increment where
  series : Series
  amount : ℕ
  deriving DecidableEq, Repr

def counter (name : String) (labels : List (String × String)) (amount : ℕ) : Increment := ⟨⟨name, labels⟩, amount⟩

/-! ### What a response increments -/

def resultLabel : Observation → String
  | .measured _ => "measured"
  | .estimated _ => "estimated"
  | .unavailable => "unavailable"
  | .invalid => "invalid"

/-- The field and the result of each metric. -/
def usageObservationMetrics (usage : UsageObservations) : List (String × String) :=
  [("prompt_tokens", resultLabel usage.promptTokens), ("completion_tokens", resultLabel usage.completionTokens),
    ("total_tokens", resultLabel usage.totalTokens), ("cached_tokens", resultLabel usage.cachedTokens),
    ("reasoning_tokens", resultLabel usage.reasoningTokens)]

def metricLabel : FinishReason → String
  | .contentFilter => "content_filter"
  | .functionCall => "function_call"
  | .length => "length"
  | .other => "other"
  | .stop => "stop"
  | .toolCalls => "tool_calls"

def recordTokens (ctx : Ctx) (prompt completion : Option ℕ) (source : String) : List Increment :=
  (prompt.map (counter "nimproxy_prompt_tokens_total" [("client", ctx.client), ("model", ctx.model)])).toList ++
    (completion.map (counter "nimproxy_completion_tokens_total"
      [("client", ctx.client), ("model", ctx.model), ("source", source)])).toList

/-- A counter of the model, for a measured number above zero. -/
def recordPositive (name : String) (ctx : Ctx) : Observation → List Increment
  | .measured n => if n > 0 then [counter name [("model", ctx.model)] n] else []
  | _ => []

/-- The increments, and the completion with its source. -/
def recordObservations (ctx : Ctx) (observations : ResponseObservations) : List Increment × Option (ℕ × String) :=
  let usage := (usageObservationMetrics observations.usage).map fun (field, result) =>
    counter "nimproxy_usage_observations_total" [("field", field), ("result", result)] 1
  let prompt :=
    match observations.usage.promptTokens with
    | .measured value => some value
    | .estimated value => some value
    | _ => none
  let (completion, source) :=
    match observations.usage.completionTokens with
    | .measured value => (some value, "usage")
    | .estimated value => (some value, "estimate")
    | .unavailable | .invalid => (none, "usage")
  let finish := observations.finishReasons.flatMap fun finish =>
    match finish.result with
    | .measured reason =>
      [counter "nimproxy_finish_reason_total" [("model", ctx.model), ("reason", metricLabel reason)] 1]
    | _ => []
  (usage ++ recordTokens ctx prompt completion source ++ finish ++
      recordPositive "nimproxy_reasoning_tokens_total" ctx observations.usage.reasoningTokens ++
      recordPositive "nimproxy_tool_calls_total" ctx observations.toolCalls,
    completion.map fun value => (value, source))

/-! ### Mixed series -/

/-- A finalized response. -/
structure Finalized where
  ctx : Ctx
  observations : ResponseObservations
  deriving DecidableEq, Repr

inductive TokenField where
  | prompt
  | completion

namespace TokenField

def metric : TokenField → String
  | prompt => "nimproxy_prompt_tokens_total"
  | completion => "nimproxy_completion_tokens_total"

def observation (usage : UsageObservations) : TokenField → Observation
  | prompt => usage.promptTokens
  | completion => usage.completionTokens

end TokenField

/-- Some response adds to the series a value of the field that it saw as `seen`. -/
def Receives (responses : List Finalized) (field : TokenField) (seen : ℕ → Observation) (series : Series) : Prop :=
  ∃ r ∈ responses, ∃ n, field.observation r.observations.usage = seen n ∧
    ⟨series, n⟩ ∈ (recordObservations r.ctx r.observations).1

/-- No token counter adds up measured and estimated values. -/
def Unmixed (responses : List Finalized) : Prop :=
  ∀ (field : TokenField) (series : Series), series.name = field.metric →
    ¬ (Receives responses field .measured series ∧ Receives responses field .estimated series)

/-- For each client and model the prompt counts are all measured or all estimated. -/
def PromptsAgree (responses : List Finalized) : Prop :=
  ∀ r ∈ responses, ∀ r' ∈ responses, r.ctx = r'.ctx → ∀ m n, r.observations.usage.promptTokens = .measured m →
    r'.observations.usage.promptTokens ≠ .estimated n

/-- The labels of a token counter. -/
def tokenLabels (ctx : Ctx) (source : String) : TokenField → List (String × String)
  | .prompt => [("client", ctx.client), ("model", ctx.model)]
  | .completion => [("client", ctx.client), ("model", ctx.model), ("source", source)]

theorem mem_recordObservations {ctx : Ctx} {observations : ResponseObservations} {field : TokenField} {series : Series}
    {n : ℕ} (hname : series.name = field.metric) :
    ⟨series, n⟩ ∈ (recordObservations ctx observations).1 ↔
      (field.observation observations.usage = .measured n ∧ series.labels = tokenLabels ctx "usage" field) ∨
        (field.observation observations.usage = .estimated n ∧ series.labels = tokenLabels ctx "estimate" field) := by
  obtain ⟨name, labels⟩ := series
  obtain rfl := hname
  have hpositive (observation : Observation) (name : String) (hname : name ≠ field.metric) :
      ⟨⟨field.metric, labels⟩, n⟩ ∉ recordPositive name ctx observation := by
    unfold recordPositive
    split
    · split
      · simpa [counter] using fun h => absurd h.symm hname
      · exact List.not_mem_nil
    · exact List.not_mem_nil
  have husage : ⟨⟨field.metric, labels⟩, n⟩ ∉ (usageObservationMetrics observations.usage).map fun (field, result) =>
      counter "nimproxy_usage_observations_total" [("field", field), ("result", result)] 1 := by
    cases field <;> simp [usageObservationMetrics, counter, TokenField.metric]
  have hreason : ⟨⟨field.metric, labels⟩, n⟩ ∉ observations.finishReasons.flatMap fun finish =>
      match finish.result with
      | .measured reason =>
        [counter "nimproxy_finish_reason_total" [("model", ctx.model), ("reason", metricLabel reason)] 1]
      | _ => [] := by
    rw [List.mem_flatMap]
    rintro ⟨f, -, hmem⟩
    revert hmem
    cases f.result <;> cases field <;> simp [counter, TokenField.metric]
  have hreasoning := hpositive observations.usage.reasoningTokens "nimproxy_reasoning_tokens_total" (by cases field <;> decide)
  have htools := hpositive observations.toolCalls "nimproxy_tool_calls_total" (by cases field <;> decide)
  unfold recordObservations
  simp only [List.mem_append, husage, hreason, hreasoning, htools, or_false, false_or]
  cases field with
  | prompt =>
    cases hprompt : observations.usage.promptTokens <;> cases observations.usage.completionTokens <;>
      simp [recordTokens, counter, TokenField.metric, TokenField.observation, tokenLabels, hprompt, eq_comm, and_comm]
  | completion =>
    cases observations.usage.promptTokens <;> cases hcompletion : observations.usage.completionTokens <;>
      simp [recordTokens, counter, TokenField.metric, TokenField.observation, tokenLabels, hcompletion, eq_comm, and_comm]

theorem Receives.measured_iff {responses : List Finalized} {field : TokenField} {series : Series}
    (hname : series.name = field.metric) :
    Receives responses field .measured series ↔
      ∃ r ∈ responses, ∃ n, field.observation r.observations.usage = .measured n ∧
        series.labels = tokenLabels r.ctx "usage" field := by
  unfold Receives
  simp only [mem_recordObservations hname]
  constructor
  · rintro ⟨r, hr, n, hseen, ⟨-, hlabels⟩ | ⟨hseen', -⟩⟩
    · exact ⟨r, hr, n, hseen, hlabels⟩
    · rw [hseen] at hseen'
      cases hseen'
  · rintro ⟨r, hr, n, hseen, hlabels⟩
    exact ⟨r, hr, n, hseen, .inl ⟨hseen, hlabels⟩⟩

theorem Receives.estimated_iff {responses : List Finalized} {field : TokenField} {series : Series}
    (hname : series.name = field.metric) :
    Receives responses field .estimated series ↔
      ∃ r ∈ responses, ∃ n, field.observation r.observations.usage = .estimated n ∧
        series.labels = tokenLabels r.ctx "estimate" field := by
  unfold Receives
  simp only [mem_recordObservations hname]
  constructor
  · rintro ⟨r, hr, n, hseen, ⟨hseen', -⟩ | ⟨-, hlabels⟩⟩
    · rw [hseen] at hseen'
      cases hseen'
    · exact ⟨r, hr, n, hseen, hlabels⟩
  · rintro ⟨r, hr, n, hseen, hlabels⟩
    exact ⟨r, hr, n, hseen, .inr ⟨hseen, hlabels⟩⟩

theorem tokenLabels_prompt_injective {ctx ctx' : Ctx} {source source' : String}
    (h : tokenLabels ctx source .prompt = tokenLabels ctx' source' .prompt) : ctx = ctx' := by
  obtain ⟨client, model⟩ := ctx
  obtain ⟨client', model'⟩ := ctx'
  simpa [tokenLabels] using h

/-- The source is in the labels of a completion. -/
theorem tokenLabels_completion_ne (ctx ctx' : Ctx) :
    tokenLabels ctx "usage" .completion ≠ tokenLabels ctx' "estimate" .completion := by
  simp [tokenLabels]

/-- Token counters are unmixed exactly if the prompt counts of each client and model have one provenance. -/
theorem unmixed_iff (responses : List Finalized) : Unmixed responses ↔ PromptsAgree responses := by
  constructor
  · intro h r hr r' hr' hctx m n hm hn
    refine h .prompt ⟨TokenField.metric .prompt, tokenLabels r.ctx "usage" .prompt⟩ rfl ⟨?_, ?_⟩
    · exact (Receives.measured_iff rfl).2 ⟨r, hr, m, hm, rfl⟩
    · exact (Receives.estimated_iff rfl).2 ⟨r', hr', n, hn, by rw [hctx]; rfl⟩
  · rintro h field series hname ⟨hmeasured, hestimated⟩
    obtain ⟨r, hr, m, hm, hlabels⟩ := (Receives.measured_iff hname).1 hmeasured
    obtain ⟨r', hr', n, hn, hlabels'⟩ := (Receives.estimated_iff hname).1 hestimated
    cases field with
    | prompt => exact h r hr r' hr' (tokenLabels_prompt_injective (hlabels.symm.trans hlabels')) m n hm hn
    | completion => exact tokenLabels_completion_ne r.ctx r'.ctx (hlabels.symm.trans hlabels')

/-- A body that reports its usage. -/
def usageDocument : Json.Value := .object [("usage", .object [("prompt_tokens", .number (.posInt 11))])]

/-- One response reports its usage; another of the same client and model does not. -/
theorem not_unmixed_silentUsage :
    ¬ Unmixed [⟨⟨"alice", "m"⟩, observeBuffered (fun _ => some usageDocument) [] (some 3)⟩,
      ⟨⟨"alice", "m"⟩, observeBuffered (fun _ => some (.object [])) [] (some 3)⟩] := by
  intro h
  refine h .prompt ⟨"nimproxy_prompt_tokens_total", [("client", "alice"), ("model", "m")]⟩ rfl ⟨?_, ?_⟩
  · exact ⟨_, List.mem_cons_self, 11, by decide, by decide⟩
  · exact ⟨_, List.mem_cons_of_mem _ List.mem_cons_self, 3, by decide, by decide⟩

end OpenProxy.Provenance
