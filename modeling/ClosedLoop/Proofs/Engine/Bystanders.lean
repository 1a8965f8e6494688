import ClosedLoop.Proofs.Endpoint.Mock
import ClosedLoop.Proofs.Engine.Arriving
import ClosedLoop.Proofs.Engine.Isolation

namespace ClosedLoop

/-!
# Runs with more clients

More profiles behind those of a run change nothing about it, if the endpoint answers all calls
alike: at every instant the engine of the run is its part of the larger one, and the report of the
larger run tells of its clients what their own report does.

* `Simulation.Beside` — the runs over a list of profiles and over more of them, up to an instant and
  stopped there;
* `Simulation.exists_beside` — both get there and come to their reports;
* `Simulation.clients_isolated` — **clients keep to themselves**.
-/

namespace Simulation

variable {b : Behaviour} {delay : Span} {reply : Reply} {target : Nat} {config : EngineConfig}
  {ps qs : List Profile}

/-- The runs over the profiles `ps ++ qs` and over `ps` alone, when an instant has come and when
    they have been told to end there. -/
structure Beside (b : Behaviour) (config : EngineConfig) (ps qs : List Profile) (target : Nat)
    (whole last alone last' : Simulation b) : Prop where
  /-- The runs get there, if they may take long enough. -/
  returns : ∃ enough, ∀ fuel, enough ≤ fuel →
    runUntil target fuel (start b config (ps ++ qs)) = some whole ∧
      runUntil target fuel (whole.told true) = some last ∧
        runUntil target fuel (start b config ps) = some alone ∧
          runUntil target fuel (alone.told true) = some last'
  now : whole.engine.now = target
  /-- The run over `ps` alone is a part of the other one. -/
  engine : alone.engine = whole.engine.part (Part.of ps)
  /-- The report of the run over `ps` alone is what the other report tells of its clients. -/
  report : ∃ report, last.engine.report? = some report ∧
    last'.engine.report? = some (report.part (Part.of ps).own)

/-- A run is told to end, which is part of it. -/
theorem reaches_told (s : Simulation b) (flushes : Bool) :
    s.engine.Reaches (s.told flushes).engine :=
  reaches_act { s with traffic := Traffic.idle b.capacity } (.stop flushes)

/-- At the start the simulation over the first profiles is the part of the other one. -/
theorem partOf_start (accepted : Engine.check (ps ++ qs) = .ok ()) :
    PartOf (Part.of ps) (start b config (ps ++ qs)) (start b config ps) where
  engine := (Engine.part_start accepted).symm
  calls := rfl

/-- **Both runs get there**, and come to their reports when they are told to end. -/
theorem exists_beside (accepted : Engine.check (ps ++ qs) = .ok ())
    (uniform : b.Uniform delay reply)
    (lively : ∀ p ∈ ps ++ qs, 0 < delay.nanos + p.thinkPeriod.nanos)
    (hrange : target ≤ Clock.range) :
    ∃ whole last alone last', Beside b config ps qs target whole last alone last' := by
  have hgoing : (start b config (ps ++ qs)).Going config (ps ++ qs) delay reply := going_start
  obtain ⟨whole, hwhole, hthere, hnow⟩ :=
    exists_goes uniform lively hrange hgoing (Nat.zero_le target)
  obtain ⟨alone, halone, hpart⟩ := hwhole.part accepted uniform hrange (.refl _)
    hgoing.awaited.plain (partOf_start accepted)
  -- The larger run is told to end and comes to its report, and the other one goes along.
  obtain ⟨enough₁, hwhole⟩ := hwhole.runUntil
  have hdriven : whole.Driven b config (ps ++ qs) := .sleeps .start (hwhole enough₁ (Nat.le_refl _))
  obtain ⟨htold, hends⟩ := hdriven.ends hthere.runs
  obtain ⟨last, hlast, hreport⟩ :=
    report_of_ends target htold hends (Nat.lt_succ_self _)
  have hstopped := goes_of_runUntil hlast
  have hplain : (whole.told true).traffic.Plain reply := by
    rw [told, act_eq]
    exact fun c hc => absurd hc List.not_mem_nil
  obtain ⟨last', hlast', hparts⟩ := hstopped.part accepted uniform hrange
    (hthere.reaches.trans (reaches_told whole true)) hplain (hpart.told true)
  obtain ⟨enough₂, hlast⟩ := hstopped.runUntil
  obtain ⟨enough₃, halone⟩ := halone.runUntil
  obtain ⟨enough₄, hlast'⟩ := hlast'.runUntil
  obtain ⟨report, hreport⟩ := Option.isSome_iff_exists.mp hreport
  refine ⟨whole, last, alone, last', ⟨enough₁ + enough₂ + enough₃ + enough₄, fun fuel hfuel => ?_⟩,
    hnow, hpart.engine, report, hreport, ?_⟩
  · exact ⟨hwhole fuel (by omega), hlast fuel (by omega), halone fuel (by omega),
      hlast' fuel (by omega)⟩
  · rw [hparts.engine, Engine.report?_part, hreport]
    rfl

/-- **Clients keep to themselves.** For accepted profiles `ps ++ qs`, whatever the calls return and
    in whatever order things happen, the part of `ps` in a run is a run over `ps` alone. Against an
    endpoint that answers all calls alike, as those used for measurements do, and if every round
    takes time, the simulations over `ps ++ qs` and over `ps` come to every instant. The second one
    is the part of the first one then, and if both are told to end there, the report of the first
    one tells of the clients of `ps` what the report of the second one does. -/
theorem clients_isolated (accepted : Engine.check (ps ++ qs) = .ok ()) :
    (∀ {e : Engine}, (Engine.start config (ps ++ qs)).Reaches e →
      (Engine.start config ps).Reaches (e.part (Part.of ps))) ∧
    (∀ seed, (∀ latency, ∃ delay reply,
        ((MockEndpoint.fixed latency).behaviour seed).Uniform delay reply) ∧
      (∃ delay reply, (MockEndpoint.instant.behaviour seed).Uniform delay reply) ∧
        ∃ delay reply, (MockEndpoint.alwaysFailing.behaviour seed).Uniform delay reply) ∧
    ∀ {b : Behaviour} {delay : Span} {reply : Reply} {target : Nat}, b.Uniform delay reply →
      (∀ p ∈ ps ++ qs, 0 < delay.nanos + p.thinkPeriod.nanos) → target ≤ Clock.range →
        ∃ whole last alone last', Beside b config ps qs target whole last alone last' := by
  refine ⟨Engine.reaches_part accepted, fun seed => ⟨fun latency => ?_, ?_, ?_⟩,
    fun uniform lively hrange => exists_beside accepted uniform lively hrange⟩
  -- Each of the endpoints for measurements answers all calls alike.
  · exact ⟨_, _, MockEndpoint.uniform_fixed latency seed⟩
  · exact ⟨_, _, MockEndpoint.uniform_instant seed⟩
  · exact ⟨_, _, MockEndpoint.uniform_alwaysFailing seed⟩

/-- A third instance that thinks for one millisecond and ticks every two. -/
def bystander : Profile :=
  { Profile.blank 4 "b" with thinkTime := 0.001, monitorInterval := 0.002 }

/-- The profiles are accepted. -/
theorem check_bystander : Engine.check ([Engine.thinkingPair] ++ [bystander]) = .ok () := by
  rw [Engine.check, validateAll_ok_iff]
  refine ⟨fun p hp => ?_, by decide⟩
  rcases List.mem_cons.mp hp with rfl | hp
  · rw [Profile.validate_ok_iff]
    decide +kernel
  · rw [List.mem_singleton.mp hp, Profile.validate_ok_iff]
    decide +kernel

/-- Calls that take two milliseconds. -/
def steady : Behaviour := (MockEndpoint.fixed (Span.ofMillis 2)).behaviour 7

/-- How many snapshots a run shows that is stopped at an instant. -/
def snapshotsAt? (b : Behaviour) (profiles : List Profile) (target fuel : Nat) : Option Nat := do
  let s ← runUntil target fuel (start b (.standard 1) profiles)
  let last ← runUntil target fuel (s.told true)
  let report ← last.engine.report?
  return report.snapshots.length

/-- Two instances that think for five milliseconds, stopped after fifteen: there is one snapshot of
    them, beside the five of a third instance that ticks every two. -/
theorem clients_isolated_bystander :
    Engine.check ([Engine.thinkingPair] ++ [bystander]) = .ok () ∧
      (∀ p ∈ [Engine.thinkingPair] ++ [bystander],
        0 < (Span.ofSeconds (Span.ofMillis 2).toSeconds).nanos + p.thinkPeriod.nanos) ∧
      snapshotsAt? steady ([Engine.thinkingPair] ++ [bystander]) 15000000 100 = some 6 ∧
      snapshotsAt? steady [Engine.thinkingPair] 15000000 100 = some 1 ∧
      ∃ whole last alone last', Beside steady (.standard 1) [Engine.thinkingPair] [bystander]
        15000000 whole last alone last' := by
  -- What the two simulations show is computed. That they lie beside each other follows in general.
  obtain ⟨-, -, hbeside⟩ := @clients_isolated (.standard 1) _ _ check_bystander
  have hlively : ∀ p ∈ [Engine.thinkingPair] ++ [bystander],
      0 < (Span.ofSeconds (Span.ofMillis 2).toSeconds).nanos + p.thinkPeriod.nanos := by
    decide +kernel
  exact ⟨check_bystander, hlively, by decide +kernel, by decide +kernel,
    hbeside (MockEndpoint.uniform_fixed (Span.ofMillis 2) 7) hlively (by decide +kernel)⟩

end Simulation

end ClosedLoop
