import ClosedLoop.Proofs.Service.Settling
import Mathlib.Algebra.Group.Action.Defs

namespace ClosedLoop

/-!
# The service time of a request

A request reports the time of its stages, which does not depend on other requests or on the data
node that it reads from. It takes as long at least, and alone hardly longer.

* `Itinerary.nanos_serviceTime`, `Itinerary.cutTime` — the sum of the times of all stages, and what
  is left of it if no single wait is too long;
* `ResourceModel.holds_itinerary`, `ResourceModel.length_holds_le` — the times of a request,
  whatever its data node;
* `Arrivals.returned?_alone` — a request that is alone is not held up;
* `ResourceModel.service_time` — **a request reports the time of its stages, takes as long at
  least, and alone less than six milliseconds longer**.
-/

/-! ### Sums of times -/

namespace Span

/-- Sums that stop at the longest span. -/
theorem nanos_foldl_addSaturating (times : List Span) (a : Span) :
    (times.foldl addSaturating a).nanos =
      min (a.nanos + (times.map nanos).sum) longest.nanos := by
  induction times generalizing a with
  | nil =>
    have hlt := a.nanos_lt
    show a.nanos = min (a.nanos + 0) (UInt64.size * 1000000000 - 1)
    omega
  | cons d rest ih =>
    rw [List.foldl_cons, ih, List.map_cons, List.sum_cons, addSaturating, nanos_clamp]
    show min (min _ longest.nanos + _) _ = _
    omega

end Span

namespace Itinerary

/-- The service time is the sum of all holds, as far as it is a span. -/
theorem nanos_serviceTime (i : Itinerary) :
    i.serviceTime.nanos = min (i.holds.map Span.nanos).sum Span.longest.nanos := by
  rw [serviceTime, Span.nanos_foldl_addSaturating, Span.nanos_zero, Nat.zero_add]

/-- The times of all stages, each cut to the longest single wait. -/
def cutTime (i : Itinerary) : Nat := (i.holds.map fun d => min d.nanos Clock.longestWait).sum

/-- Times that are not too long are not cut. -/
theorem serviceTime_le_cutTime {i : Itinerary} (h : ∀ d ∈ i.holds, d.nanos ≤ Clock.longestWait) :
    i.serviceTime.nanos ≤ i.cutTime := by
  have hsame : i.holds.map (fun d => min d.nanos Clock.longestWait) = i.holds.map Span.nanos :=
    List.map_congr_left fun d hd => Nat.min_eq_left (h d hd)
  rw [nanos_serviceTime, cutTime, hsame]
  exact Nat.min_le_left _ _

/-- A few times, each cut to the longest single wait, are within the range of spans. -/
theorem cutTime_le_serviceTime {i : Itinerary} (h : i.holds.length ≤ 6) :
    i.cutTime ≤ i.serviceTime.nanos := by
  have hsum : i.cutTime ≤ i.holds.length * Clock.longestWait := by
    have hle := List.sum_le_card_nsmul (i.holds.map fun d => min d.nanos Clock.longestWait)
      Clock.longestWait fun x hx => by
        obtain ⟨d, -, rfl⟩ := List.mem_map.mp hx
        exact Nat.min_le_right _ _
    rwa [List.length_map, smul_eq_mul] at hle
  have hrange : 6 * Clock.longestWait ≤ Span.longest.nanos := by decide
  have hmul := Nat.mul_le_mul_right Clock.longestWait h
  rw [nanos_serviceTime]
  exact Nat.le_min.mpr ⟨List.sum_le_sum fun d _ => Nat.min_le_left _ _, by omega⟩

/-- From a whole millisecond on, each time takes less than a millisecond more than it should. -/
theorem work_add_length_le (i : Itinerary) :
    i.work + i.holds.length ≤ i.cutTime + i.holds.length * Clock.tick := by
  rw [work, cutTime]
  induction i.holds with
  | nil => exact Nat.le_refl _
  | cons d rest ih =>
    have hfirst := Clock.pause_lt d
    simp only [List.map_cons, List.sum_cons, List.length_cons, Nat.add_mul, Nat.one_mul]
    omega

end Itinerary

/-! ### The times of a request -/

namespace ResourceModel

/-- The times of a request in order, whatever its data node. -/
def times (m : ResourceModel) (c : Cost) : List Span :=
  (if 0 < c.lookupTime then [Span.ofSeconds c.lookupTime] else []) ++
  (m.rpcTime c :: (if 0 < c.memWrite || 0 < c.logWrite then [m.writeTime c] else [])) ++
  (if 0 < c.localRead then [m.localReadTime c] else []) ++
  (if 0 < c.remoteRead then [m.remoteReadTime c] else []) ++ [m.transferTime c.response]

/-- The holds of an itinerary are the times of the request. -/
theorem holds_itinerary (m : ResourceModel) (cost : Cost) (node : Nat) :
    (m.itinerary cost node).holds = m.times cost := by
  simp only [itinerary, Itinerary.holds, stages, times, List.flatMap_append,
    apply_ite (List.flatMap fun s : Stage => s.holds), List.flatMap_cons, List.flatMap_nil,
    List.append_nil]

/-- There is one at least, and there are six at most. -/
theorem length_times (m : ResourceModel) (cost : Cost) :
    0 < (m.times cost).length ∧ (m.times cost).length ≤ 6 := by
  have hif (P : Prop) [Decidable P] (d : Span) : (if P then [d] else []).length ≤ 1 := by
    split
    · exact Nat.le_refl 1
    · exact Nat.zero_le 1
  have hlookup := hif (0 < cost.lookupTime) (Span.ofSeconds cost.lookupTime)
  have hwrite := hif ((0 < cost.memWrite || 0 < cost.logWrite) = true) (m.writeTime cost)
  have hlocal := hif (0 < cost.localRead) (m.localReadTime cost)
  have hremote := hif (0 < cost.remoteRead) (m.remoteReadTime cost)
  simp only [times, List.length_append, List.length_cons, List.length_nil]
  omega

/-- The time of the stages is the same with any data node. -/
theorem serviceTime_itinerary (m : ResourceModel) (cost : Cost) (node other : Nat) :
    (m.itinerary cost other).serviceTime = (m.itinerary cost node).serviceTime := by
  rw [Itinerary.serviceTime, Itinerary.serviceTime, holds_itinerary, holds_itinerary]

/-- A request reports the time of its stages, whatever its data node. -/
theorem reply_itinerary (m : ResourceModel) (cost : Cost) (node other : Nat) :
    (m.itinerary cost node).reply = some (.ok ⟨some (m.itinerary cost other).serviceTime⟩) := by
  rw [m.serviceTime_itinerary cost node other]
  rfl

/-- Alone, a request takes less than six milliseconds longer than the time of its stages. -/
theorem work_itinerary_lt (m : ResourceModel) (cost : Cost) (node : Nat) :
    (m.itinerary cost node).work <
      (m.itinerary cost node).serviceTime.nanos + 6 * Clock.tick := by
  have hlength : 0 < (m.itinerary cost node).holds.length ∧
      (m.itinerary cost node).holds.length ≤ 6 := by
    rw [holds_itinerary]
    exact m.length_times cost
  have hlong := (m.itinerary cost node).work_add_length_le
  have hcut := Itinerary.cutTime_le_serviceTime hlength.2
  have hticks := Nat.mul_le_mul_right Clock.tick hlength.2
  omega

end ResourceModel

namespace Arrivals

variable {config : ResourceConfig} {m : ResourceModel}

/-- **A request that is alone is not held up**: it returns when its times are over. -/
theorem returned?_alone (hbuild : ResourceModel.build config = .ok m) {i : Itinerary}
    (hserves : m.Serves i) {instant limit : Nat} (hinstant : Clock.tick ∣ instant)
    (hlimit : instant + i.work ≤ limit) (call : Nat) :
    ∃ reply, i.reply = some reply ∧
      (run m.capacity limit [⟨instant, call, i⟩]).returned? call =
        some (instant + i.work, reply) := by
  have hgets : m.Gets [⟨instant, call, i⟩] := by
    refine ⟨List.nodup_singleton _, fun a ha => ?_⟩
    obtain rfl := List.mem_singleton.mp ha
    exact hserves
  have hticks : ∀ a ∈ [Arrival.mk instant call i], Clock.tick ∣ a.instant := by
    intro a ha
    obtain rfl := List.mem_singleton.mp ha
    exact hinstant
  have hend : lastInstant [⟨instant, call, i⟩] + offered [⟨instant, call, i⟩] =
      instant + i.work := by
    rw [offered_cons]
    rfl
  obtain ⟨n, hn, hpending, hcalls⟩ := settled_run hbuild hgets hticks (hend.symm ▸ hlimit)
  obtain ⟨t, reply, hreturned, hreply, hfinish, hpast⟩ :=
    exists_returned hgets hn hpending hcalls List.mem_cons_self
  have hnow := hn.now_le hbuild hgets hticks
  rw [Itinerary.finishOf_eq hinstant] at hfinish
  -- It returns before the end of all work, and not before its own, which is the same.
  have hexact : t = instant + i.work := by
    refine Nat.le_antisymm ?_ hfinish
    omega
  exact ⟨reply, hreply, hexact ▸ hreturned⟩

end Arrivals

namespace ResourceModel

variable {config : ResourceConfig} {m : ResourceModel} {arrivals : List Arrival}

/-- **A request reports the time of its stages.** However the requests hinder each other, one that
returns reports what the same cost reports alone, with any data node; alone it takes less than six
milliseconds longer than that. It takes as long as it reports at least, unless one of its times is
longer than anybody waits at once. -/
theorem service_time (hbuild : build config = .ok m) (hgets : m.Gets arrivals) {n : Nat}
    {s : Arrivals} (h : Arrivals.Leads (Arrivals.start m.capacity arrivals) n s) {t id : Nat}
    {reply : Reply} (hreturned : (t, .returns id reply) ∈ s.log) :
    ∃ a ∈ arrivals, a.id = id ∧ reply = .ok ⟨some a.itinerary.serviceTime⟩ ∧
      a.instant + a.itinerary.cutTime ≤ t ∧
      ((∀ d ∈ a.itinerary.holds, d.nanos ≤ Clock.longestWait) →
        a.instant + a.itinerary.serviceTime.nanos ≤ t) ∧
      ∀ cost node, a.itinerary = m.itinerary cost node → ∀ other < m.config.dataNodes,
        ∀ instant call limit, Clock.tick ∣ instant →
          instant + a.itinerary.serviceTime.nanos + 6 * Clock.tick ≤ limit →
            ∃ u, (Arrivals.run m.capacity limit
                [⟨instant, call, m.itinerary cost other⟩]).returned? call = some (u, reply) ∧
              u < instant + a.itinerary.serviceTime.nanos + 6 * Clock.tick := by
  obtain ⟨a, ha, hsettles⟩ :=
    (h.punctual hgets.distinct).returns t id reply (Arrivals.mem_returns.mpr hreturned)
  obtain ⟨cost, node, -, hitinerary⟩ := hgets.serves a ha
  have hreply : reply = .ok ⟨some a.itinerary.serviceTime⟩ := by
    have hown := hsettles.reply
    rw [hitinerary, m.reply_itinerary cost node node, ← hitinerary] at hown
    exact (Option.some.inj hown).symm
  have hleast : a.instant + a.itinerary.cutTime ≤ t :=
    Nat.le_trans (Itinerary.wait_le_finishOf _ _) hsettles.finish
  refine ⟨a, ha, hsettles.id.symm, hreply, hleast, fun hwaits => ?_, ?_⟩
  · have hcut := Itinerary.serviceTime_le_cutTime hwaits
    omega
  · intro cost node hsame other hother instant call limit hinstant hlimit
    -- the time of the stages is the same with any data node
    have hserved : (m.itinerary cost other).serviceTime = a.itinerary.serviceTime := by
      rw [hsame, m.serviceTime_itinerary cost node other]
    have hwork := m.work_itinerary_lt cost other
    rw [hserved] at hwork
    obtain ⟨r, hr, halone⟩ := Arrivals.returned?_alone hbuild ⟨cost, other, hother, rfl⟩ hinstant
      (by omega : instant + (m.itinerary cost other).work ≤ limit) call
    rw [m.reply_itinerary cost other node, ← hsame] at hr
    rw [hreply, Option.some.inj hr]
    exact ⟨_, halone, by omega⟩

/-- The second of two look-ups at once waits for the first, but does not report that. -/
theorem service_time_twoLookups :
    ∃ t reply, (t, .returns 2 reply) ∈
        (Arrivals.run (capacity ⟨ResourceConfig.standard⟩) 200000000 twoLookups).log ∧
      ∃ a ∈ twoLookups, a.id = 2 ∧ reply = .ok ⟨some a.itinerary.serviceTime⟩ ∧
        a.instant + a.itinerary.cutTime ≤ t := by
  have hbuild : build ResourceConfig.standard = .ok ⟨ResourceConfig.standard⟩ := rfl
  have hlimit : Arrivals.lastInstant twoLookups + Arrivals.offered twoLookups ≤ 200000000 := by
    decide +kernel
  -- Both have returned once the endpoint is idle again.
  obtain ⟨n, hn, hpending, hcalls⟩ :=
    Arrivals.settled_run hbuild gets_twoLookups ticks_twoLookups hlimit
  obtain ⟨t, reply, hmem⟩ := hn.returned_of_not gets_twoLookups.distinct
    (List.mem_cons_of_mem _ List.mem_cons_self) (by rw [hpending]; exact List.not_mem_nil)
    (by rw [Traffic.ids, hcalls]; exact List.not_mem_nil)
  have hlog := Arrivals.mem_returns.mp hmem
  obtain ⟨a, ha, hid, hreply, hleast, -⟩ := service_time hbuild gets_twoLookups hn hlog
  exact ⟨t, reply, hlog, a, ha, hid, hreply, hleast⟩

/-- A request that takes the processor for a billion seconds. -/
def longRequest : Itinerary :=
  itinerary ⟨ResourceConfig.standard⟩ { Cost.none with cpuTime := 1e9 } 0

/-- The long request reports its time, but returns after thirty years already. -/
theorem service_time_fails :
    ∃ t served, (Arrivals.run (capacity ⟨ResourceConfig.standard⟩) 1000000000000000000
        [⟨0, 1, longRequest⟩]).returned? 1 = some (t, .ok ⟨some served⟩) ∧
      t < 0 + served.nanos := by
  have hbuild : build ResourceConfig.standard = .ok ⟨ResourceConfig.standard⟩ := rfl
  have hserves : Serves ⟨ResourceConfig.standard⟩ longRequest := ⟨_, 0, by decide, rfl⟩
  -- The wait ends after thirty years, and the service time tells of more.
  have hwork : longRequest.work = 946080000000000000 := by decide +kernel
  have hserved : longRequest.serviceTime.nanos = 1000000000000000000 := by decide +kernel
  have hlimit : 0 + longRequest.work ≤ 1000000000000000000 := by omega
  obtain ⟨reply, hreply, halone⟩ :=
    Arrivals.returned?_alone hbuild hserves (Nat.dvd_zero _) hlimit 1
  have hown : longRequest.reply = some (.ok ⟨some longRequest.serviceTime⟩) :=
    reply_itinerary _ _ 0 0
  obtain rfl := Option.some.inj (hown.symm.trans hreply)
  exact ⟨_, _, halone, by omega⟩

end ResourceModel

end ClosedLoop
