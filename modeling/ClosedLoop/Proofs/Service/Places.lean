import ClosedLoop.Proofs.Service.Courses
import ClosedLoop.Proofs.Service.Custody

namespace ClosedLoop

/-!
# Where the work of a request takes place

In every course a call in service is at one stage of an itinerary that may come. Inside a stage that
needs a pool it has a place in that pool. In the resource model names are looked up under the lock,
everything that a request asks of the server is done by a handler, and a remote read takes a
connection of its data node; only a local read and the response need no place.

* `Position.Of`, `Call.Follows` — a call is at a stage, with the later ones still to come;
* `Course.Reachable.follows` — **so is every call in service**, by cases on how it moves;
* `ResourceModel.mem_stages_iff` — the stages of a request with their pools;
* `ResourceModel.works_in_place` — **no work is done without its place**.
-/

/-- The position belongs to a stage: the call waits for the pool of the stage, or is inside it. -/
def Position.Of (s : Stage) : Position → Prop
  | .queued pool holds => s.pool = some pool ∧ holds = s.holds
  | .timed pool _ holds => s.pool = pool ∧ holds <:+ s.holds
  | .unanswered => False

/-- What is entered belongs to the stage of these times. -/
theorem Position.of_enter (now : Nat) (s : Stage) {pool : Option Pool} (hpool : s.pool = pool) :
    (Position.enter now pool s.holds).Of s := by
  -- The first time is being spent, and the others are still to come.
  unfold enter
  split
  · exact ⟨hpool, List.nil_suffix⟩
  · rename_i d rest hholds
    exact ⟨hpool, by rw [hholds]; exact List.suffix_cons d rest⟩

namespace Call

variable {now id : Nat} {reply : Option Reply} {stages : List Stage} {i : Itinerary} {c d : Call}

/-- A call is at one stage of an itinerary, and the later ones are still to come, or it has passed
them all and never returns. -/
def Follows (i : Itinerary) (c : Call) : Prop :=
  (∃ s, c.position.Of s ∧ s :: c.later <:+ i.stages) ∨ c.position = .unanswered

/-- A call that is placed is at the first of the stages that it is sent to. -/
theorem Placed.follows (h : Placed now id reply stages d) (hstages : stages <:+ i.stages) :
    d.Follows i := by
  cases h with
  | enters s later => exact .inl ⟨s, Position.of_enter now s rfl, hstages⟩
  | waits s later hpool => exact .inl ⟨s, ⟨hpool, rfl⟩, hstages⟩
  | stays => exact .inr rfl

/-- A call that is admitted is at the stage that it has waited for. -/
theorem Admitted.follows (h : c.Admitted now d) (hc : c.Follows i) : d.Follows i := by
  cases h with
  | stays => exact hc
  | @enters pool holds hwaits =>
    rcases hc with ⟨s, hof, hstages⟩ | hpast
    · rw [hwaits] at hof
      obtain ⟨hpool, rfl⟩ := hof
      exact .inl ⟨s, Position.of_enter now s hpool, hstages⟩
    · rw [hwaits] at hpast
      cases hpast

/-- A call whose timer has fired is still inside its stage, or at the next one. -/
theorem Goes.follows (h : c.Goes now d) (hc : c.Follows i) : d.Follows i := by
  rcases hc with ⟨s, hof, hstages⟩ | hpast
  · cases h with
    | renews htimed =>
      rw [htimed] at hof
      exact .inl ⟨s, ⟨hof.1, (List.suffix_cons _ _).trans hof.2⟩, hstages⟩
    | passes htimed _ hplaced =>
      exact hplaced.follows ((List.suffix_cons s c.later).trans hstages)
  · cases h with
    | renews htimed | passes htimed => rw [htimed] at hpast; cases hpast

end Call

namespace Course

variable {capacity : Pool → Nat} {Comes : Itinerary → Prop} {s : Course}

/-- **Every call in service is at a stage of an itinerary that may come.** -/
theorem Reachable.follows (hpools : ∀ i, Comes i → ∀ p ∈ i.pools, 0 < capacity p)
    (h : Reachable capacity Comes s) :
    ∀ c ∈ s.traffic.calls, ∃ i, Comes i ∧ c.Follows i := by
  induction h with
  | start => exact fun c hc => absurd hc List.not_mem_nil
  | wait _ _ ih => exact ih
  | @submit s _ id _ i hi ih =>
    intro c hc
    rcases s.traffic.place_cases s.now id i.reply i.stages with
      ⟨d, hplaced, hcalls, -⟩ | ⟨r, -, -, hcalls, -⟩
    · have hmem : c ∈ s.traffic.calls ++ [d] := hcalls ▸ hc
      rcases List.mem_append.mp hmem with hold | hnew
      · exact ih c hold
      · rw [List.mem_singleton.mp hnew]
        exact ⟨i, hi, hplaced.follows List.suffix_rfl⟩
    · have hmem : c ∈ s.traffic.calls := hcalls ▸ hc
      exact ih c hmem
  | @expire s hs c hc hdue ih =>
    intro e he
    -- The call that moves is at its next stage, and others may have been admitted meanwhile.
    obtain ⟨others, admitted, hperm, hadmitted, hmoves⟩ :=
      Traffic.expire_cases (hs.sound hpools).orderly.distinct hc hdue
    have hothers : ∀ d ∈ admitted, ∃ i, Comes i ∧ d.Follows i := by
      intro d hd
      obtain ⟨b, hb, hadmits⟩ := Arrivals.exists_of_mem_admitted hadmitted hd
      obtain ⟨i, hi, hfollows⟩ := ih b (hperm.mem_iff.mpr (List.mem_cons_of_mem c hb))
      exact ⟨i, hi, hadmits.follows hfollows⟩
    rcases hmoves with ⟨d, hgoes, hcalls, -⟩ | ⟨r, -, hcalls, -⟩
    · rcases List.mem_cons.mp (hcalls.mem_iff.mp he) with rfl | hrest
      · obtain ⟨i, hi, hfollows⟩ := ih c hc
        exact ⟨i, hi, hgoes.follows hfollows⟩
      · exact hothers e hrest
    · exact hothers e (hcalls.mem_iff.mp he)

end Course

namespace ResourceModel

variable {config : ResourceConfig} {m : ResourceModel} {s : Course}

/-- **The stages of a request with their pools.** Names are looked up under the lock if that takes
time; a handler receives and processes every request, and writes if there is anything to write; a
remote read, if any, takes a connection of the data node. A local read and the response need no
place. -/
theorem mem_stages_iff (m : ResourceModel) (c : Cost) (node : Nat) (stage : Stage) :
    stage ∈ m.stages c node ↔
      0 < c.lookupTime ∧ stage = ⟨some .namespaceLock, [Span.ofSeconds c.lookupTime]⟩ ∨
      stage = ⟨some .handlers,
        m.rpcTime c :: if 0 < c.memWrite ∨ 0 < c.logWrite then [m.writeTime c] else []⟩ ∨
      0 < c.localRead ∧ stage = ⟨none, [m.localReadTime c]⟩ ∨
      0 < c.remoteRead ∧ stage = ⟨some (.xceivers node), [m.remoteReadTime c]⟩ ∨
      stage = ⟨none, [m.transferTime c.response]⟩ := by
  -- A stage that may be missing is there under its condition.
  have hoptional : ∀ {p : Prop} [Decidable p] {t : Stage},
      stage ∈ (if p then [t] else []) ↔ p ∧ stage = t := by
    intro p _ t
    split <;> simp_all
  simp only [stages, List.mem_append, hoptional, List.mem_singleton, Bool.or_eq_true,
    decide_eq_true_eq, or_assoc]

/-- **No work is done without its place.** In every course, a call whose timer runs is at a stage of
some request with a data node of the model, and the timer is one of that stage. If the stage needs a
pool, the call has one of its places. -/
theorem works_in_place (hbuild : build config = .ok m)
    (hs : Course.Reachable m.capacity m.Serves s) {c : Call} (hc : c ∈ s.traffic.calls)
    {pool : Option Pool} {wake : Nat} {holds : List Span}
    (htimed : c.position = .timed pool wake holds) :
    ∃ cost node, node < config.dataNodes ∧ ∃ stage ∈ m.stages cost node,
      stage.pool = pool ∧ holds <:+ stage.holds ∧ ∀ p, stage.pool = some p → c.occupies p := by
  obtain ⟨i, ⟨cost, node, hnode, rfl⟩, hfollows⟩ :=
    hs.follows (fun _ hi => capacity_pos hbuild hi) c hc
  -- The call is at one of its stages, or has passed them all and its timer has stopped.
  rcases hfollows with ⟨stage, hof, hstages⟩ | hpast
  · rw [htimed] at hof
    obtain ⟨hpool, hholds⟩ := hof
    rw [(config_of_build hbuild).1] at hnode
    refine ⟨cost, node, hnode, stage, hstages.subset List.mem_cons_self, hpool, hholds, ?_⟩
    intro p hp
    rw [Traffic.occupies_of_timed htimed, ← hpool, hp]
    exact decide_eq_true rfl
  · rw [htimed] at hpast
    cases hpast

end ResourceModel

end ClosedLoop
