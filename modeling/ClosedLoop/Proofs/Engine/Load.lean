import ClosedLoop.Proofs.Engine.Pace
import ClosedLoop.Proofs.Stats.Totals
import Mathlib.Algebra.Group.Action.Defs
import Mathlib.Data.Set.Card

namespace ClosedLoop

/-!
# The load of calls that all take the same time

Where all instances keep the same pace, their rounds can be counted: when the run is told to end,
the totals of a client have one request for every return of a call before, and no other.

* `returnsBefore` — how many calls of an instance return before an instant;
* `Profile.Between` — an instant between two returns of a client;
* `RunReport.Loaded` — a report tells of one request for every return before an instant;
* `Engine.run?_sumsUp` — the totals are those of the records that were counted;
* `Engine.run?_even` — so they are known while the run is open, between two returns;
* `Engine.loaded_of_stop` — and that is what is reported, once the run was told to end.
-/

/-- How many calls of an instance return before an instant, if they take `latency` and the instance
    rests for `rest` in between. -/
noncomputable def returnsBefore (latency rest now : Nat) : Nat :=
  {j : Nat | j * (latency + rest) + latency < now}.ncard

/-- How many returns there were before is known by when they come. -/
theorem returnsBefore_eq {latency rest now done : Nat}
    (h : ∀ j, j * (latency + rest) + latency < now ↔ j < done) :
    returnsBefore latency rest now = done := by
  have hset : {j : Nat | j * (latency + rest) + latency < now} = Set.Iio done := Set.ext h
  rw [returnsBefore, hset, Set.ncard_eq_toFinset_card', Set.toFinset_Iio, Nat.card_Iio]

/-- No call of a client returns at an instant, and its instances were not there for longer together
    than any span. -/
structure Profile.Between (delay : Span) (now : Nat) (p : Profile) : Prop where
  off : ∀ j, now ≠ j * (Clock.pause delay + Clock.pause p.thinkPeriod) + Clock.pause delay
  fits : p.instances.toNat * now < UInt64.size * 1000000000

/-- The totals of a client in a report have one request of each of its instances for every return
    before an instant, and all of them went well after the same time. -/
def RunReport.Loaded (delay : Span) (now : Nat) (p : Profile) (report : RunReport) : Prop :=
  ∃ totals, report.totals.lookup p.id = some totals ∧
    totals.Even (Clock.pause delay) (p.instances.toNat *
      returnsBefore (Clock.pause delay) (Clock.pause p.thinkPeriod) now)

/-! ### Counted records -/

/-- What is counted was handed over. -/
theorem exists_of_mem_counted {events : List Event} {r : Record}
    (h : r ∈ (journalOf events).counted) : ∃ i result, .recorded i r result ∈ events := by
  induction events with
  | nil => cases h
  | cons event rest ih =>
    rw [journalOf_cons, Journal.counted_append, List.mem_append] at h
    rcases h with hfirst | hrest
    · cases event with
      | recorded i record result =>
        -- Only what the ledger has taken in is counted.
        rcases result with fault | (_ | _)
        · cases hfirst
        · cases hfirst
        · obtain rfl := List.mem_singleton.mp hfirst
          exact ⟨i, .ok true, List.mem_cons_self⟩
      | _ => cases hfirst
    · obtain ⟨i, result, hmem⟩ := ih hrest
      exact ⟨i, result, List.mem_cons_of_mem _ hmem⟩

namespace Engine

variable {config : EngineConfig} {profiles : List Profile} {delay : Span} {e e' mid : Engine}
  {a : Action} {as as₁ as₂ : List Action} {told new before after : List Event} {p : Profile}

/-- Every step keeps the sums, with the events it shows. -/
theorem Steps.sumsUp (h : Steps e a e' new) (hb : e.Books told)
    (hsums : e.ledger.SumsUp (journalOf told)) : e'.ledger.SumsUp (journalOf (told ++ new)) := by
  rw [journalOf_append]
  cases h with
  | record found turn kept | crash found turn kept =>
    rw [journalOf_singleton, Event.entry, ← kept]
    exact hsums.record _
  | cutNothing | cut | cutFails =>
    rw [journalOf_singleton, Event.entry]
    exact (hsums.take _).append_ofSnapshots _
  | flush drains ripe kept =>
    rw [journalOf_singleton, Event.entry]
    exact (hsums.flush kept).append_ofSnapshots _
  -- The windows of right books can be flushed.
  | flushFails drains ripe kept =>
    exact absurd kept (hb.flush_ne_error _)
  | send | leave | advance | stop | sendFlushed => exact hsums.append_ofSnapshots []
  | issue | reply | quit | receive | finish =>
    rw [journalOf_singleton]
    exact hsums.append_ofSnapshots []

/-- The totals of a run are those of its journal. -/
theorem run?_sumsUp (h : (start config profiles).run? as = some (e, told)) :
    e.ledger.SumsUp (journalOf told) :=
  run?_induction_along (motive := fun mid told => mid.ledger.SumsUp (journalOf told)) h
    (Ledger.sumsUp_openFor profiles Span.zero)
    fun hbefore hsums hstep => hstep.sumsUp (run?_books hbefore) hsums

/-! ### While the run is open -/

/-- An open run is clean. -/
theorem isClean_of_isOpen {status : Status} (h : status.isOpen = true) : status.isClean = true := by
  cases status with
  | running | draining => rfl
  | _ => cases h

/-- An instance of a client has the profile of the client. -/
theorem profile_eq_of_client (accepted : Engine.check profiles = .ok ())
    (h : (start config profiles).run? as = some (e, told)) (hp : p ∈ profiles) {i : Nat}
    {inst : Instance} (found : e.instances[i]? = some inst) (hclient : inst.client = p.id) :
    inst.profile = p :=
  List.inj_on_of_nodup_map ((validateAll_ok_iff profiles).mp accepted).2
    (profile_of_run? h found).1 hp hclient

/-- Between two returns, an instance has handed over one record for every return before. -/
theorem recordsIn_eq (accepted : Engine.check profiles = .ok ())
    (h : (start config profiles).run? as = some (e, told)) (hopen : e.status.isOpen = true)
    (hpaced : e.Paced delay told) (hp : p ∈ profiles)
    (hbetween : p.Between delay e.now) {i : Nat} (hi : i ∈ e.placesOf p.id) :
    recordsIn (eventsOf i told) =
      returnsBefore (Clock.pause delay) (Clock.pause p.thinkPeriod) e.now := by
  obtain ⟨inst, found, hclient⟩ := exists_of_mem_placesOf hi
  have hprofile := profile_eq_of_client accepted h hp found hclient
  -- Before so many calls that their latencies do not fit no instance has crashed.
  have hgoes : inst.phase.isCrashed = false := by
    rw [← Bool.not_eq_true]
    intro hcrashed
    have hlong := size_le_of_crashed accepted h (isClean_of_isOpen hopen) hp
      (List.mem_of_getElem? found) hclient hcrashed
    have hfits := hbetween.fits
    omega
  have hpace := hpaced.instances i inst found
  rw [hprofile] at hpace
  exact (returnsBefore_eq (hpace.lt_iff hgoes hbetween.off)).symm

/-- The counted records of a client are those that its instances have handed over. -/
theorem length_counted (accepted : Engine.check profiles = .ok ())
    (h : (start config profiles).run? as = some (e, told)) (hopen : e.status.isOpen = true)
    (hp : p ∈ profiles) (hbetween : p.Between delay e.now) :
    ((journalOf told).of p.id).counted.length =
      ∑ i ∈ e.placesOf p.id, recordsIn (eventsOf i told) := by
  have hclean := isClean_of_isOpen hopen
  -- For the same reason no record is lost.
  have hnone : ((journalOf told).of p.id).lost = [] := by
    by_contra hlost
    have hlong := size_le_of_lost accepted h hclean hp hlost
    have hfits := hbetween.fits
    omega
  have hsum := sum_onRecord (fun _ => 1) p.id (fun _ _ _ => client_of_recorded h)
    (run?_taken h hclean)
  rw [sum_eventsFor, hnone, List.map_nil, List.sum_nil, Nat.add_zero, List.map_const',
    List.sum_replicate, smul_eq_mul, Nat.mul_one] at hsum
  exact hsum.symm

/-- **The totals are known** while the run is open, between two returns. -/
theorem run?_even (accepted : Engine.check profiles = .ok ())
    (h : (start config profiles).run? as = some (e, told))
    (hserves : (start config profiles).Throughout (Serves delay) as)
    (hopen : e.status.isOpen = true) (hp : p ∈ profiles) (hbetween : p.Between delay e.now)
    {account : Account} (ha : e.ledger.account? p.id = some account) :
    account.totals.Even (Clock.pause delay) (p.instances.toNat *
      returnsBefore (Clock.pause delay) (Clock.pause p.thinkPeriod) e.now) := by
  have hpaced := run?_paced h hserves hopen
  have hcount : ((journalOf told).of p.id).counted.length = p.instances.toNat *
      returnsBefore (Clock.pause delay) (Clock.pause p.thinkPeriod) e.now := by
    rw [length_counted accepted h hopen hp hbetween,
      Finset.sum_congr rfl fun i hi => recordsIn_eq accepted h hopen hpaced hp hbetween hi,
      Finset.sum_const, placesOf_run? h, card_placesOf accepted hp, smul_eq_mul]
  rw [← hcount]
  -- Every record that was counted was made by an instance that keeps its pace.
  refine (run?_sumsUp h p.id account ha).even fun r hr => ?_
  obtain ⟨i, result, hmem⟩ := exists_of_mem_counted (List.mem_of_mem_filter hr)
  exact hpaced.records i r result hmem

/-! ### After the flush -/

/-- After the flush the totals stay. -/
theorem Steps.totals_of_isOver (h : Steps e a e' new) (hover : e.status.isOver = true)
    (hspent : e.ledger.Spent) : e'.ledger.totals = e.ledger.totals := by
  cases h with
  | record found turn kept | crash found turn kept =>
    show (e.ledger.record _).1.totals = _
    rw [hspent.record]
  | cutNothing | cut | cutFails => exact (hspent.take _ _).2.1
  | flush drains | flushFails drains => rw [drains] at hover; cases hover
  | _ => rfl

/-- Once a run was told to end and the ledger was flushed, the totals are those of the instant at
    which it was told. -/
theorem run?_even_over (accepted : Engine.check profiles = .ok ())
    (hbefore : (start config profiles).run? as₁ = some (mid, before))
    (hafter : mid.run? (.stop true :: as₂) = some (e, after))
    (hserves : (start config profiles).Throughout (Serves delay) (as₁ ++ .stop true :: as₂))
    (hover : e.status.isOver = true) (hp : p ∈ profiles) (hbetween : p.Between delay mid.now) :
    ∃ totals, e.ledger.totals.lookup p.id = some totals ∧
      totals.Even (Clock.pause delay) (p.instances.toNat *
        returnsBefore (Clock.pause delay) (Clock.pause p.thinkPeriod) mid.now) := by
  obtain ⟨hearlier, hlater⟩ := (throughout_append hbefore).mp hserves
  obtain ⟨first, shown, others, hstop, hrest, -⟩ := run?_cons_iff.mp hafter
  refine run?_induction_throughout (motive := fun mid' _ => mid'.status.isOver = true →
    ∃ totals, mid'.ledger.totals.lookup p.id = some totals ∧ totals.Even _ _) hrest
    (hlater.2 first shown hstop) (fun hover => ?_) ?_ hover
  · cases steps_of_step? hstop with
    | stop => cases hover
  intro since mid' next a told new hsince hsuits hmid hstep hsuit hover
  -- What is reached after the stop is reached from the start.
  have hagain : mid.run? (.stop true :: since) = some (mid', shown ++ told) :=
    run?_cons_iff.mpr ⟨first, shown, told, hstop, hsince, rfl⟩
  have hrun := run?_append hbefore hagain
  have hall : (start config profiles).Throughout (Serves delay) (as₁ ++ .stop true :: since) := by
    refine (throughout_append hbefore).mpr ⟨hearlier, hlater.1, fun other events hother => ?_⟩
    rw [hstop] at hother
    cases hother
    exact hsuits
  by_cases hdone : mid'.status.isOver = true
  · rw [hstep.totals_of_isOver hdone (run?_spent hrun hdone)]
    exact hmid hdone
  -- The flush comes at the instant of the stop, for no time has passed since.
  obtain ⟨account, ha⟩ := Option.isSome_iff_exists.mp ((mid'.ledger.account?_isSome_iff p.id).mpr
    ((run?_clients hrun p.id).mpr (List.mem_map.mpr ⟨p, hp, rfl⟩)))
  cases hstep with
  | @flush clean told' left drains ripe kept =>
    have hat := (toldAt_of_stop hagain).2
    rw [ToldAt, drains] at hat
    have hontime := onTime_iff.mpr (hall.mono fun _ _ hsuits => hsuits.timely)
    have hnow : mid'.now = mid.now := (now_of_draining hrun hontime drains).trans hat
    have heven := run?_even accepted hrun hall (by rw [drains]; rfl) hp (hnow ▸ hbetween) ha
    rw [hnow] at heven
    refine ⟨_, ?_, Account.even_renew heven mid'.reading⟩
    rw [Ledger.lookup_totals, Ledger.account?_flush kept, ha]
    rfl
  | flushFails | stop => cases hover
  | sendFlushed flushes | finish flushes => rw [flushes] at hdone; exact absurd rfl hdone
  | _ => exact absurd hover hdone

/-- **The report tells of the returns before the stop**, and of nothing else. -/
theorem loaded_of_stop (accepted : Engine.check profiles = .ok ())
    (hbefore : (start config profiles).run? as₁ = some (mid, before))
    (hafter : mid.run? (.stop true :: as₂) = some (e, after))
    (hserves : (start config profiles).Throughout (Serves delay) (as₁ ++ .stop true :: as₂))
    {report : RunReport} (hreport : e.report? = some report) (hp : p ∈ profiles)
    (hbetween : p.Between delay mid.now) : report.Loaded delay mid.now p := by
  obtain ⟨elapsed, hstatus, hat⟩ := report?_eq_some hreport
  rw [hat]
  exact run?_even_over accepted hbefore hafter hserves (by rw [hstatus]; rfl) hp hbetween

end Engine

end ClosedLoop
