import ClosedLoop.Proofs.Seconds
import ClosedLoop.Proofs.Service.ServiceTime

namespace ClosedLoop

/-!
# What a request is charged

The time of a stage is a quotient of a cost and a bandwidth, or a sum of such quotients. These keep
the order of the costs, and so does the conversion of seconds, as long as it does not meet infinity:
infinitely many seconds are no time at all. A finite cost over a small bandwidth can be infinite, so
a costlier request is charged no less only as long as its times stay within the range of numbers.

* `Cost.Plain`, `Cost.AtMost` — costs that make sense, and their order;
* `ResourceModel.seconds` — the seconds that a request is charged for, one number for each part;
* `ResourceModel.grows_seconds` — the parts of a costlier request that are finite are no shorter;
* `ResourceModel.KeepsFinite` — no part that is positive and finite becomes infinite;
* `ResourceModel.costlier_request` — **a costlier request is charged no less** unless a part of it
  becomes infinite.
-/

/-! ### Costs -/

namespace Cost

/-- All components are finite and none is negative. -/
def Plain (c : Cost) : Prop := ∀ x ∈ c.components, 0 ≤ x ∧ x.isFinite = true

instance (c : Cost) : Decidable c.Plain :=
  inferInstanceAs (Decidable (∀ x ∈ c.components, 0 ≤ x ∧ x.isFinite = true))

/-- No component is larger than the one of the other. -/
def AtMost (c d : Cost) : Prop := List.Forall₂ (· ≤ ·) c.components d.components

instance (c d : Cost) : Decidable (c.AtMost d) :=
  inferInstanceAs (Decidable (List.Forall₂ (· ≤ ·) c.components d.components))

/-- In order, the components that are not negative grow. -/
theorem Plain.grows {c d : Cost} (hc : c.Plain) (hle : c.AtMost d) :
    Double.Grows c.cpuTime d.cpuTime ∧ Double.Grows c.memWrite d.memWrite ∧
      Double.Grows c.logWrite d.logWrite ∧ Double.Grows c.lookupTime d.lookupTime ∧
      Double.Grows c.localRead d.localRead ∧ Double.Grows c.remoteRead d.remoteRead ∧
      Double.Grows c.request d.request ∧ Double.Grows c.response d.response := by
  have hgrows : List.Forall₂ Double.Grows c.components d.components :=
    ((List.forall₂_and_left _ _).mpr ⟨fun x hx => (hc x hx).1, hle⟩).imp fun _ _ h => ⟨h.1, h.2⟩
  simpa [components] using hgrows

end Cost

namespace Span

/-- Longer times add up to no less. -/
theorem addSaturating_le {a b c d : Span} (hac : a ≤ c) (hbd : b ≤ d) :
    a.addSaturating b ≤ c.addSaturating d := by
  rw [le_def] at hac hbd ⊢
  rw [addSaturating, addSaturating, nanos_clamp, nanos_clamp]
  exact min_le_min_right _ (Nat.add_le_add hac hbd)

end Span

namespace ResourceModel

variable {config : ResourceConfig} {m : ResourceModel}

/-! ### Bandwidths -/

/-- A model is built with capacities that make sense. -/
theorem check_of_build (hbuild : build config = .ok m) : check config = .ok () := by
  rw [build] at hbuild
  cases hcheck : check config with
  | ok _ => rfl
  | error cause => rw [hcheck] at hbuild; cases hbuild

/-- The bandwidths of a model that was built are positive and finite. -/
theorem bandwidth_of_build (hbuild : build config = .ok m) {name : String} {x : Float}
    (hx : (name, x) ∈ bandwidths m.config) : 0 < x ∧ x.isFinite = true := by
  obtain ⟨hconfig, -⟩ := config_of_build hbuild
  have hcheck := check_of_build hbuild
  rw [hconfig] at hx
  -- The check has gone over every bandwidth before the model was built.
  rw [check] at hcheck
  split at hcheck
  next => cases hcheck
  next =>
    split at hcheck
    next => cases hcheck
    next hnone =>
      have hgood := List.find?_eq_none.mp hnone _ hx
      simp only [isBandwidth, Bool.not_eq_true', Bool.not_eq_false, Bool.and_eq_true,
        decide_eq_true_eq] at hgood
      exact ⟨hgood.2, hgood.1⟩

/-! ### Seconds -/

/-- The time of a node is positive. -/
theorem nodeTime_pos : 0 < nodeTime ∧ nodeTime.isFinite = true := by decide +kernel

/-- The share of an acknowledgement is positive. -/
theorem ackShare_pos : 0 < ackShare ∧ ackShare.isFinite = true := by decide +kernel

/-- How many replicas are written. -/
theorem replicas_pos (m : ResourceModel) : 0 < Binary.ofWhole (max m.config.replication 1) := by
  have hone := Binary.Format.unitsPerOne_pos Binary.double
  have hmagnitude : Binary.double.magnitude 1 = 1 := by decide
  have hnearest : 1 ≤ Binary.double.nearest (max m.config.replication 1) 1 := by
    refine Binary.Format.le_nearest Nat.one_pos (by decide) (by decide) ?_
    rw [hmagnitude]
    exact Nat.mul_pos (Nat.lt_of_lt_of_le Nat.one_pos (Nat.le_max_right _ _)) hone
  exact Double.zero_lt_iff.mpr ⟨_, hnearest, Double.hasPattern_ofWhole _⟩

/-- Finite seconds of a log that is written tell that the number of replicas is finite. -/
theorem replicas_finite {x : Float} (hx : 0 < x) (h : (m.logSeconds x).isFinite = true) :
    (Binary.ofWhole (max m.config.replication 1)).isFinite = true := by
  simp only [logSeconds, if_pos hx] at h
  have hnode := (Double.isFinite_of_add (Double.isFinite_of_add h).1).2
  obtain ⟨p, hpos, hp⟩ := Double.zero_lt_iff.mp nodeTime_pos.1
  have hr := Double.hasPattern_ofWhole (max m.config.replication 1)
  rcases Nat.lt_or_eq_of_le hr.1 with hlt | heq
  · exact hr.isFinite_iff.mpr hlt
  · rw [heq] at hr
    have hinfinite := (hp.mul_infinite hr hpos).isFinite_iff.mp hnode
    exact absurd hinfinite (Nat.lt_irrefl _)

/-- Zero grows to zero. -/
theorem grows_zero : Double.Grows 0 0 := ⟨by decide, by decide⟩

/-- The seconds of a log keep the order as far as they are finite. -/
theorem grows_logSeconds (hbuild : build config = .ok m) {x y : Float} (h : Double.Grows x y)
    (hfinite : (m.logSeconds y).isFinite = true) :
    Double.Grows (m.logSeconds x) (m.logSeconds y) := by
  have hlog := bandwidth_of_build hbuild (List.mem_of_getElem? (i := 4) rfl)
  have hnetwork := bandwidth_of_build hbuild (List.mem_of_getElem? (i := 0) rfl)
  -- Each part of the sum grows with what is written.
  by_cases hy : 0 < y
  · have hreplicas := And.intro m.replicas_pos (replicas_finite hy hfinite)
    have hwritten := h.div hlog
    have hnode := (Double.Grows.refl_of_pos nodeTime_pos.1).mul hreplicas
    have hack := ((h.mul ackShare_pos).mul hreplicas).div hnetwork
    have hsum := (hwritten.add hnode).add hack
    by_cases hx : 0 < x
    · simp only [logSeconds, if_pos hx, if_pos hy]
      exact hsum
    · -- nothing is written, which takes no time
      simp only [logSeconds, if_neg hx, if_pos hy]
      exact hsum.zero_left
  · have hx : ¬ 0 < x := fun hpos => hy (h.pos hpos)
    simp only [logSeconds, if_neg hx, if_neg hy]
    exact grows_zero

/-- The seconds that a request is charged for, one number for each part: looking up, receiving,
processing, writing, reading locally, reading from a data node, receiving from it, and
responding. -/
def seconds (m : ResourceModel) (c : Cost) : List Float :=
  [c.lookupTime, c.request / m.config.networkBandwidth, c.cpuTime,
    c.memWrite / m.config.memtableBandwidth + m.logSeconds c.logWrite,
    c.localRead / m.config.localReadBandwidth, c.remoteRead / m.config.remoteReadBandwidth,
    c.remoteRead / m.config.networkBandwidth, c.response / m.config.networkBandwidth]

/-- No part that takes a finite time for the first request takes an infinite one for the other. -/
def KeepsFinite (m : ResourceModel) (c d : Cost) : Prop :=
  List.Forall₂ (fun x y => 0 < x → x.isFinite = true → y.isFinite = true)
    (m.seconds c) (m.seconds d)

instance (m : ResourceModel) (c d : Cost) : Decidable (m.KeepsFinite c d) :=
  inferInstanceAs (Decidable (List.Forall₂ _ _ _))

/-- **The parts of a costlier request that are finite are no shorter.** -/
theorem grows_seconds (hbuild : build config = .ok m) {c d : Cost} (hc : c.Plain)
    (hle : c.AtMost d) :
    List.Forall₂ (fun x y => y.isFinite = true → Double.Grows x y) (m.seconds c) (m.seconds d) := by
  have hnetwork := bandwidth_of_build hbuild (List.mem_of_getElem? (i := 0) rfl)
  have hlocal := bandwidth_of_build hbuild (List.mem_of_getElem? (i := 1) rfl)
  have hremote := bandwidth_of_build hbuild (List.mem_of_getElem? (i := 2) rfl)
  have hmemtable := bandwidth_of_build hbuild (List.mem_of_getElem? (i := 3) rfl)
  obtain ⟨hcpu, hmem, hlog, hlookup, hread, hfar, hrequest, hresponse⟩ := hc.grows hle
  refine .cons (fun _ => hlookup) (.cons (fun _ => hrequest.div hnetwork) (.cons (fun _ => hcpu)
    (.cons (fun hfinite => ?_) (.cons (fun _ => hread.div hlocal) (.cons (fun _ => hfar.div hremote)
      (.cons (fun _ => hfar.div hnetwork) (.cons (fun _ => hresponse.div hnetwork) .nil)))))))
  exact (hmem.div hmemtable).add (grows_logSeconds hbuild hlog (Double.isFinite_of_add hfinite).2)

/-- The parts of a costlier request are charged no less. -/
theorem spans_le (hbuild : build config = .ok m) {c d : Cost} (hc : c.Plain)
    (hle : c.AtMost d) (hkeeps : m.KeepsFinite c d) :
    List.Forall₂ (fun x y => Span.ofSeconds x ≤ Span.ofSeconds y) (m.seconds c) (m.seconds d) := by
  refine List.Forall₂.mp (fun x y hkeep hgrows => ?_) hkeeps (grows_seconds hbuild hc hle)
  cases hy : y.isFinite with
  | true => exact Span.ofSeconds_le (hgrows hy) hy
  | false =>
    have hx : 0 < x → x.isFinite = false := fun hpos => by
      cases hx : x.isFinite with
      | false => rfl
      | true => rw [hkeep hpos hx] at hy; cases hy
    rw [Span.ofSeconds_eq_zero hx]
    exact Nat.zero_le _

/-! ### Charges -/

/-- What is done for the first request only if it is done for the other takes no longer. -/
theorem sum_optional_le {P Q : Prop} [Decidable P] [Decidable Q] {s t : Span} (himp : P → Q)
    (hle : s ≤ t) : ((if P then [s] else []).map Span.nanos).sum ≤
      ((if Q then [t] else []).map Span.nanos).sum := by
  by_cases hp : P
  · rw [if_pos hp, if_pos (himp hp)]
    simpa [Span.le_def] using hle
  · rw [if_neg hp]
    exact Nat.zero_le _

/-- All times of a costlier request together are no shorter. -/
theorem sum_times_le (hbuild : build config = .ok m) {c d : Cost} (hc : c.Plain)
    (hle : c.AtMost d) (hkeeps : m.KeepsFinite c d) :
    ((m.times c).map Span.nanos).sum ≤ ((m.times d).map Span.nanos).sum := by
  obtain ⟨-, hmem, hlog, hlookup, hread, hfar, -, -⟩ := hc.grows hle
  have hspans := spans_le hbuild hc hle hkeeps
  simp only [seconds, List.forall₂_cons, List.Forall₂.nil, and_true] at hspans
  obtain ⟨hlookup', hreceive, hprocess, hwrite, hread', hfar', hcopy, hrespond⟩ := hspans
  -- Whoever writes less may skip the write, which then takes no time.
  have hwritten : (0 < c.memWrite || 0 < c.logWrite) = true →
      (0 < d.memWrite || 0 < d.logWrite) = true := by
    simp only [Bool.or_eq_true, decide_eq_true_eq]
    exact Or.imp hmem.pos hlog.pos
  have hrpc : m.rpcTime c ≤ m.rpcTime d := Span.addSaturating_le hreceive hprocess
  have hremote : m.remoteReadTime c ≤ m.remoteReadTime d :=
    Span.addSaturating_le (Span.addSaturating_le (Nat.le_refl _) hfar') hcopy
  simp only [times, List.map_append, List.sum_append, List.map_cons, List.sum_cons, List.map_nil,
    List.sum_nil]
  -- The stages come in the same order for both, so the times are compared one by one.
  refine Nat.add_le_add (Nat.add_le_add (Nat.add_le_add (Nat.add_le_add ?_ (Nat.add_le_add ?_ ?_))
    ?_) ?_) (Nat.add_le_add ?_ (Nat.le_refl 0))
  · exact sum_optional_le hlookup.pos hlookup'
  · exact hrpc
  · exact sum_optional_le hwritten hwrite
  · exact sum_optional_le hread.pos hread'
  · exact sum_optional_le hfar.pos hremote
  · exact hrespond

/-- **A costlier request is charged no less**: for every model that can be built, every two costs
without negative or infinite components and every data nodes, if each component of the first cost
is at most that of the other and no part of the other request becomes infinite, the service time
that the first request reports is at most that of the other. -/
theorem costlier_request (hbuild : build config = .ok m) {c d : Cost} (hc : c.Plain)
    (hle : c.AtMost d) (hkeeps : m.KeepsFinite c d) (node other : Nat) :
    ∃ s t, (m.itinerary c node).reply = some (.ok ⟨some s⟩) ∧
      (m.itinerary d other).reply = some (.ok ⟨some t⟩) ∧ s ≤ t := by
  refine ⟨_, _, m.reply_itinerary c node node, m.reply_itinerary d other other, ?_⟩
  rw [Span.le_def, Itinerary.nanos_serviceTime, Itinerary.nanos_serviceTime, holds_itinerary,
    holds_itinerary]
  exact min_le_min_right _ (sum_times_le hbuild hc hle hkeeps)

/-- A cluster with a network for a tenth of a megabyte per second. -/
def slowNetwork : ResourceConfig := { ResourceConfig.standard with networkBandwidth := 0.1 }

/-- A request that is all data to send. -/
def transferOf (megabytes : Float) : Cost := { Cost.none with request := megabytes }

/-- Two megabytes are charged no less than one. -/
theorem costlier_request_twoMegabytes :
    ∃ s t, (itinerary ⟨slowNetwork⟩ (transferOf 1) 0).reply = some (.ok ⟨some s⟩) ∧
      (itinerary ⟨slowNetwork⟩ (transferOf 2) 0).reply = some (.ok ⟨some t⟩) ∧ s ≤ t :=
  have hbuild : build slowNetwork = .ok ⟨slowNetwork⟩ := rfl
  costlier_request hbuild (by decide +kernel) (by decide +kernel) (by decide +kernel) 0 0

/-- One megabyte takes ten seconds; the seconds of as many megabytes as there can be are infinite
and no time at all. -/
theorem costlier_request_fails :
    build slowNetwork = .ok ⟨slowNetwork⟩ ∧ (transferOf 1).Plain ∧ (transferOf 1e308).Plain ∧
      (transferOf 1).AtMost (transferOf 1e308) ∧
      (itinerary ⟨slowNetwork⟩ (transferOf 1) 0).reply =
        some (.ok ⟨some (Span.ofMillis 10000)⟩) ∧
      (itinerary ⟨slowNetwork⟩ (transferOf 1e308) 0).reply = some (.ok ⟨some Span.zero⟩) := by
  have hreply {megabytes : Float} {s : Span}
      (h : (itinerary ⟨slowNetwork⟩ (transferOf megabytes) 0).serviceTime = s) :
      (itinerary ⟨slowNetwork⟩ (transferOf megabytes) 0).reply = some (.ok ⟨some s⟩) := by
    rw [reply_itinerary _ _ 0 0, h]
  exact ⟨rfl, by decide +kernel, by decide +kernel, by decide +kernel,
    hreply (by decide +kernel), hreply (by decide +kernel)⟩

end ResourceModel

end ClosedLoop
