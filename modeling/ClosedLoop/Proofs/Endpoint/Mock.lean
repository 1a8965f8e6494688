import ClosedLoop.Proofs.Engine.Uniform
import ClosedLoop.Proofs.Single
import ClosedLoop.Proofs.ThroughSeconds

namespace ClosedLoop

/-!
# Mock endpoints that answer all calls alike

Without jitter all calls to a mock endpoint take the base latency. Where its rates are zero none of
them fails, and where the rate of errors is one all of them do.

* `MockEndpoint.answer_of_steady` — the itinerary of a call without jitter;
* `MockEndpoint.uniform_fixed`, `MockEndpoint.uniform_instant`,
  `MockEndpoint.uniform_alwaysFailing` — **the endpoints used for measurements answer all calls
  alike**, whatever they are seeded with;
* `MockEndpoint.fixed_latency` — **how close the time of a call comes to a fixed latency**: it is
  that latency up to `2 ^ 23` seconds and for whole seconds, and off by one part in `2 ^ 50` else;
* `MockEndpoint.fixed_latency_fails` — the first latency that is missed.
-/

namespace MockEndpoint

variable {e : MockEndpoint} {σ : Type} [WordSource σ]

/-- Without jitter all calls take the base latency, and no word is drawn for it. -/
theorem delay_of_steady (hsteady : (e.jitter == 0) = true) (words : σ) :
    e.delay words = (Span.ofSeconds e.baseLatency, words) := by
  simp only [delay, hsteady, if_true]
  rfl

/-- Where both rates are zero no call fails, and no word is drawn for its outcome. -/
theorem outcome_of_calm (htimeout : e.timeoutRate ≤ 0) (herror : e.errorRate ≤ 0) (served : Span)
    (words : σ) : e.outcome served words = (.ok ⟨some served⟩, words) := by
  simp only [outcome, htimeout, herror]
  rfl

/-- The itinerary of a call without jitter that does not time out. -/
theorem answer_of_steady (hsteady : (e.jitter == 0) = true) {words later : σ} {reply : Reply}
    (houtcome : e.outcome (Span.ofSeconds e.baseLatency) words = (reply, later))
    (hreply : reply.outcome ≠ .timeout) :
    e.answer words = (⟨[⟨none, [Span.ofSeconds e.baseLatency]⟩], some reply⟩, later) := by
  simp only [answer, bind, StateT.bind, delay_of_steady hsteady, houtcome]
  -- Without a timeout the delay of the call is all that is waited for.
  cases reply with
  | ok completion => rfl
  | error err =>
    have hnot : err.isTimeout = false := by
      cases htimeout : err.isTimeout with
      | false => rfl
      | true => simp [Reply.outcome, htimeout] at hreply
    simp only [hnot, Bool.false_eq_true, if_false]
    rfl

/-- Without jitter and with both rates at zero, a call goes well after the base latency and draws no
word. -/
theorem answer_of_calm (hsteady : (e.jitter == 0) = true) (htimeout : e.timeoutRate ≤ 0)
    (herror : e.errorRate ≤ 0) (words : σ) :
    e.answer words =
      (⟨[⟨none, [Span.ofSeconds e.baseLatency]⟩],
        some (.ok ⟨some (Span.ofSeconds e.baseLatency)⟩)⟩, words) :=
  answer_of_steady hsteady (outcome_of_calm htimeout herror _ words) (by simp [Reply.outcome])

/-- Without jitter and with both rates at zero, all calls go well after the same time. -/
theorem uniform_of_calm (hsteady : (e.jitter == 0) = true) (htimeout : e.timeoutRate ≤ 0)
    (herror : e.errorRate ≤ 0) (seed : UInt64) :
    (e.behaviour seed).Uniform (Span.ofSeconds e.baseLatency)
      (.ok ⟨some (Span.ofSeconds e.baseLatency)⟩) := by
  intro client cost (words : Xoshiro)
  exact congrArg Prod.fst (answer_of_calm hsteady htimeout herror words)

/-- A call to an endpoint with a fixed latency goes well after the latency in floating-point
seconds. -/
theorem answer_fixed (latency : Span) (words : σ) :
    (fixed latency).answer words =
      (⟨[⟨none, [Span.ofSeconds latency.toSeconds]⟩],
        some (.ok ⟨some (Span.ofSeconds latency.toSeconds)⟩)⟩, words) :=
  answer_of_calm (e := fixed latency) (by decide +kernel : ((0 : Float) == 0) = true)
    (by decide +kernel : (0 : Float32) ≤ 0) (by decide +kernel : (0 : Float32) ≤ 0) words

/-- An endpoint of fixed latency answers all calls alike. -/
theorem uniform_fixed (latency : Span) (seed : UInt64) :
    ((fixed latency).behaviour seed).Uniform (Span.ofSeconds latency.toSeconds)
      (.ok ⟨some (Span.ofSeconds latency.toSeconds)⟩) := by
  intro client cost (words : Xoshiro)
  exact congrArg Prod.fst (answer_fixed latency words)

/-- **Every call to an endpoint with a fixed latency goes well after the same time.** That time is
the latency if it is at most `2 ^ 23` seconds or whole seconds below `2 ^ 53`, and it is off by one
part in `2 ^ 50` at most. -/
theorem fixed_latency (latency : Span) :
    ∃ served : Span,
      (∀ {σ : Type} [WordSource σ] (words : σ), (fixed latency).answer words =
        (⟨[⟨none, [served]⟩], some (.ok ⟨some served⟩)⟩, words)) ∧
      (latency.nanos ≤ 2 ^ 23 * 10 ^ 9 → served = latency) ∧
      (latency.nanos < 2 ^ 53 * 10 ^ 9 → latency.nanos % 10 ^ 9 = 0 → served = latency) ∧
      served.nanos ≤ latency.nanos + latency.nanos / 2 ^ 50 ∧
      latency.nanos ≤ served.nanos + latency.nanos / 2 ^ 50 := by
  refine ⟨Span.ofSeconds latency.toSeconds, fun words => answer_fixed latency words, ?_⟩
  exact ⟨Span.ofSeconds_toSeconds_of_le, Span.ofSeconds_toSeconds_of_whole,
    latency.ofSeconds_toSeconds_le, latency.le_ofSeconds_toSeconds⟩

/-- A nanosecond beyond `2 ^ 23` seconds. -/
def missedLatency : Span := ⟨8388608000000001, by decide⟩

/-- Calls take a nanosecond longer than a latency of `2 ^ 23` seconds and one nanosecond. -/
theorem fixed_latency_fails :
    missedLatency.nanos = 2 ^ 23 * 10 ^ 9 + 1 ∧
      ∃ served : Span, served.nanos = missedLatency.nanos + 1 ∧
        ∀ words : Xoshiro, (fixed missedLatency).answer words =
          (⟨[⟨none, [served]⟩], some (.ok ⟨some served⟩)⟩, words) :=
  ⟨rfl, Span.ofSeconds missedLatency.toSeconds, by decide +kernel,
    fun words => answer_fixed missedLatency words⟩

/-- An endpoint that answers at once answers all calls alike. -/
theorem uniform_instant (seed : UInt64) : (instant.behaviour seed).Uniform
    (Span.ofSeconds 0) (.ok ⟨some (Span.ofSeconds 0)⟩) :=
  uniform_of_calm (e := instant) (by decide +kernel) (by decide +kernel) (by decide +kernel) seed

/-- Every drawn number is below the rate of errors, and none is below that of timeouts. -/
theorem outcomeAt_alwaysFailing (w : UInt64) (served : Span) :
    alwaysFailing.outcomeAt (unit32OfWord w) served =
      .error (.failure "mock request failed") := by
  have htimeout : ¬unit32OfWord w < alwaysFailing.timeoutRate := not_unit32OfWord_lt w
  have hfails : unit32OfWord w < alwaysFailing.timeoutRate + alwaysFailing.errorRate :=
    unit32OfWord_lt w
  rw [outcomeAt, if_neg htimeout, if_pos hfails]

/-- An endpoint that always fails answers all calls alike. -/
theorem uniform_alwaysFailing (seed : UInt64) : (alwaysFailing.behaviour seed).Uniform
    (Span.ofSeconds 0) (.error (.failure "mock request failed")) := by
  intro client cost (words : Xoshiro)
  have hrates : (alwaysFailing.timeoutRate ≤ 0 && alwaysFailing.errorRate ≤ 0) = false := by
    decide +kernel
  have houtcome : alwaysFailing.outcome (Span.ofSeconds alwaysFailing.baseLatency) words =
      (.error (.failure "mock request failed"), (WordSource.next words).2) := by
    simp only [outcome, hrates, Bool.false_eq_true, if_false]
    exact congrArg (·, (WordSource.next words).2) (outcomeAt_alwaysFailing _ _)
  exact congrArg Prod.fst (answer_of_steady (e := alwaysFailing) (by decide +kernel) houtcome
    (by simp [Reply.outcome, EndpointError.isTimeout, EndpointError.failure]))

end MockEndpoint

end ClosedLoop
