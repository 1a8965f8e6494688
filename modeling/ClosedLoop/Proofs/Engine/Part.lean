import ClosedLoop.Proofs.Engine.Delivery
import ClosedLoop.Proofs.Engine.Outcomes
import ClosedLoop.Proofs.Stats.Part

namespace ClosedLoop

/-!
# The part of an engine

The instances and monitors of the first profiles of a run make up a part of its engine, with their
share of the ledger and of all snapshots. An action of the part does to it what it does to the whole
engine, and an action of the others does nothing to it.

* `Part` — some clients, and how many instances and monitors at the front are theirs;
* `Engine.part` — what an engine has of a part;
* `Engine.Parted` — the instances and monitors at the front are those of the clients;
* `Engine.part_step`, `Engine.part_of_not` — **a step of the part is one of the part alone, and any
  other step leaves the part as it is**;
* `Engine.run?_parted` — every run over two lists of profiles is parted.
-/

/-- Some clients, whose instances and monitors are the first ones of an engine. -/
structure Part where
  own : ClientId → Bool
  instances : Nat
  monitors : Nat

/-- What a status has of some clients. -/
def Status.part (own : ClientId → Bool) : Status → Status
  | .flushing clean elapsed left => .flushing clean elapsed (left.filter fun s => own s.client)
  | status => status

namespace Engine

variable {t : Part} {e e' : Engine} {a : Action} {shown : List Event}

/-- What an engine has of a part. -/
def part (t : Part) (e : Engine) : Engine where
  now := e.now
  instances := e.instances.take t.instances
  monitors := e.monitors.take t.monitors
  ledger := e.ledger.part t.own
  grace := e.grace
  room := e.room
  channel := e.channel.filter fun s => t.own s.client
  board := e.board.filter fun s => t.own s.client
  latest := e.latest.filter fun entry => t.own entry.1
  status := e.status.part t.own

/-- Is this an action of the part? The passing of time and the end of the run are so for every
    part. -/
def isFor (t : Part) (e : Engine) : Action → Bool
  | .issue i => i < t.instances
  | .reply i _ => i < t.instances
  | .record i => i < t.instances
  | .quit i => i < t.instances
  | .cut m => m < t.monitors
  | .send m => m < t.monitors
  | .leave m => m < t.monitors
  | .receive => e.channel.head?.any fun s => t.own s.client
  | .sendFlushed => e.status.left.head?.any fun s => t.own s.client
  | _ => true

/-- The first instances and monitors are those of the clients of the part, each with its own records
    and snapshots. -/
structure Parted (t : Part) (e : Engine) : Prop where
  instances : ∀ i inst, e.instances[i]? = some inst → t.own inst.client = decide (i < t.instances)
  records : ∀ inst ∈ e.instances, ∀ record, inst.phase = .recording record →
    record.client = inst.client
  monitors : ∀ m monitor, e.monitors[m]? = some monitor →
    t.own monitor.client = decide (m < t.monitors)
  owned : Owned e.monitors

/-! ### Views -/

@[simp] theorem reading_part : (e.part t).reading = e.reading := rfl

@[simp] theorem isRunning_part : (e.part t).isRunning = e.isRunning := by
  unfold isRunning part Status.part
  cases e.status <;> rfl

/-- The instances of the part are those of the whole. -/
theorem getElem?_instances_part {i : Nat} (hi : i < t.instances) :
    (e.part t).instances[i]? = e.instances[i]? := by
  rw [part, List.getElem?_take, if_pos hi]

/-- The monitors of the part are those of the whole. -/
theorem getElem?_monitors_part {m : Nat} (hm : m < t.monitors) :
    (e.part t).monitors[m]? = e.monitors[m]? := by
  rw [part, List.getElem?_take, if_pos hm]

/-- Where the whole channel has room, that of the part has. -/
theorem hasRoom_part (h : e.hasRoom) : (e.part t).hasRoom := by
  have hless : e.channel.length < e.room := of_decide_eq_true h
  exact decide_eq_true (Nat.lt_of_le_of_lt (List.length_filter_le _ _) hless)

/-- Where everything has ended, everything in the part has. -/
theorem isQuiet_part (h : e.isQuiet) : (e.part t).isQuiet := by
  rw [isQuiet, Bool.and_eq_true] at h ⊢
  refine ⟨List.all_eq_true.mpr fun inst hinst => ?_, List.all_eq_true.mpr fun m hm => ?_⟩
  · exact List.all_eq_true.mp h.1 inst (List.mem_of_mem_take hinst)
  · exact List.all_eq_true.mp h.2 m (List.mem_of_mem_take hm)

/-! ### Updates -/

/-- An instance of the part may be replaced before or after the part is taken. -/
theorem setInstance_part (i : Nat) (inst : Instance) :
    (e.part t).setInstance i inst = (e.setInstance i inst).part t := by
  simp only [setInstance, part, List.take_set]

/-- Replacing an instance of the others does not change the part. -/
theorem part_setInstance_of_le {i : Nat} (hi : t.instances ≤ i) (inst : Instance) :
    (e.setInstance i inst).part t = e.part t := by
  simp only [setInstance, part, List.take_set_of_le hi]

/-- A monitor of the part may be replaced before or after the part is taken. -/
theorem setMonitor_part (m : Nat) (monitor : Monitor) :
    (e.part t).setMonitor m monitor = (e.setMonitor m monitor).part t := by
  simp only [setMonitor, part, List.take_set]

/-- Replacing a monitor of the others does not change the part. -/
theorem part_setMonitor_of_le {m : Nat} (hm : t.monitors ≤ m) (monitor : Monitor) :
    (e.setMonitor m monitor).part t = e.part t := by
  simp only [setMonitor, part, List.take_set_of_le hm]

/-- A snapshot of the part may be sent before or after the part is taken. -/
theorem push_part {s : Snapshot} (hown : t.own s.client = true) :
    (e.part t).push s = (e.push s).part t := by
  simp [push, part, hown]

/-- Sending a snapshot of the others does not change the part. -/
theorem part_push_of_not {s : Snapshot} (hother : t.own s.client = false) :
    (e.push s).part t = e.part t := by
  simp [push, part, hother]

/-- A snapshot of the part may be reported before or after the part is taken. -/
theorem report_part {s : Snapshot} (hown : t.own s.client = true) :
    (e.part t).report s = (e.report s).part t := by
  simp [report, part, hown, List.filter_filter, Bool.and_comm]

/-- Reporting a snapshot of the others does not change the part. -/
theorem part_report_of_not {s : Snapshot} (hother : t.own s.client = false) :
    (e.report s).part t = e.part t := by
  -- The entry that is replaced is one of the others.
  have hlatest : (e.latest.filter fun entry => decide (entry.1 ≠ s.client)).filter
      (fun entry => t.own entry.1) = e.latest.filter fun entry => t.own entry.1 := by
    rw [List.filter_filter]
    refine List.filter_congr fun entry _ => ?_
    cases hentry : t.own entry.1 with
    | false => rfl
    | true =>
      have hne : entry.1 ≠ s.client := fun heq => by
        rw [heq, hother] at hentry
        cases hentry
      simp [hne]
  simp only [report, part, List.filter_append, List.filter_cons, List.filter_nil, hother,
    Bool.false_eq_true, if_false, List.append_nil, hlatest]

/-! ### Whose records and snapshots these are -/

/-- A record that is handed over belongs to the part if its instance does. -/
theorem Parted.own_record (h : e.Parted t) {i : Nat} {inst next : Instance} {record : Record}
    (found : e.instances[i]? = some inst) (turn : inst.handOver? e.now = some (next, record)) :
    t.own record.client = decide (i < t.instances) := by
  obtain ⟨holds, -⟩ := Instance.handOver?_eq_some turn
  rw [h.records inst (List.mem_of_getElem? found) record holds, h.instances i inst found]

/-- A snapshot that is sent belongs to the part if its monitor does. -/
theorem Parted.own_snapshot (h : e.Parted t) {m tick : Nat} {monitor : Monitor} {s : Snapshot}
    (found : e.monitors[m]? = some monitor) (holds : monitor.phase = .sending tick s) :
    t.own s.client = decide (m < t.monitors) := by
  have hheld : s ∈ monitor.held := by
    rw [Monitor.held_sending holds]
    exact List.mem_singleton_self s
  rw [h.owned monitor (List.mem_of_getElem? found) s hheld, h.monitors m monitor found]

/-- The ledger of the part keeps the records of its instances as the whole ledger does. -/
theorem Parted.record_part (h : e.Parted t) {i : Nat} {inst next : Instance} {record : Record}
    (found : e.instances[i]? = some inst) (hi : i < t.instances)
    (turn : inst.handOver? e.now = some (next, record)) :
    (e.part t).ledger.record (record.completedBy (e.part t).reading) =
      ((e.ledger.record (record.completedBy e.reading)).1.part t.own,
        (e.ledger.record (record.completedBy e.reading)).2) := by
  refine Ledger.record_part ?_
  show t.own record.client = true
  rw [h.own_record found turn, decide_eq_true hi]

/-- The ledger of the part cuts the windows of its monitors as the whole ledger does. -/
theorem Parted.take_part (h : e.Parted t) {m : Nat} {monitor : Monitor}
    (found : e.monitors[m]? = some monitor) (hm : m < t.monitors) :
    (e.part t).ledger.take (e.part t).reading monitor.client =
      ((e.ledger.take e.reading monitor.client).1.part t.own,
        (e.ledger.take e.reading monitor.client).2) := by
  refine Ledger.take_part ?_ e.reading
  rw [h.monitors m monitor found, decide_eq_true hm]

/-! ### Steps -/

/-- An instance of the part hands over its record, or crashes over it, in the part alone. -/
theorem part_record {i : Nat} (h : Steps e (.record i) e' shown) (hparted : e.Parted t)
    (hi : i < t.instances) : Steps (e.part t) (.record i) (e'.part t) shown := by
  cases h with
  | record found turn kept =>
    -- The ledger of the part answers as the whole one, so the same kind of step is possible.
    have hpart := hparted.record_part found hi turn
    have hstep := Steps.record (e := e.part t) ((getElem?_instances_part hi).trans found) turn
      (by rw [hpart]; exact kept)
    rw [hpart] at hstep
    rw [← setInstance_part]
    exact hstep
  | crash found turn kept =>
    have hpart := hparted.record_part found hi turn
    have hstep := Steps.crash (e := e.part t) ((getElem?_instances_part hi).trans found) turn
      (by rw [hpart]; exact kept)
    rw [hpart] at hstep
    rw [← setInstance_part]
    exact hstep

/-- A monitor of the part cuts in the part alone, with the same result. -/
theorem part_cut {m : Nat} (h : Steps e (.cut m) e' shown) (hparted : e.Parted t)
    (hm : m < t.monitors) : Steps (e.part t) (.cut m) (e'.part t) shown := by
  cases h with
  | cutNothing found due waits kept =>
    -- The ledger of the part cuts as the whole one, and each of the three results is the same
    -- there.
    have hpart := hparted.take_part found hm
    have hstep := Steps.cutNothing (e := e.part t) ((getElem?_monitors_part hm).trans found) due
      waits (by rw [hpart]; exact kept)
    rw [hpart] at hstep
    rw [← setMonitor_part]
    exact hstep
  | cut found due waits kept =>
    have hpart := hparted.take_part found hm
    have hstep := Steps.cut (e := e.part t) ((getElem?_monitors_part hm).trans found) due
      waits (by rw [hpart]; exact kept)
    rw [hpart] at hstep
    rw [← setMonitor_part]
    exact hstep
  | cutFails found due waits kept =>
    have hpart := hparted.take_part found hm
    have hstep := Steps.cutFails (e := e.part t) ((getElem?_monitors_part hm).trans found) due
      waits (by rw [hpart]; exact kept)
    rw [hpart] at hstep
    rw [← setMonitor_part]
    exact hstep

/-- A monitor of the part sends in the part alone, where the channel has room all the more. -/
theorem part_send {m : Nat} (h : Steps e (.send m) e' shown) (hparted : e.Parted t)
    (hm : m < t.monitors) : Steps (e.part t) (.send m) (e'.part t) shown := by
  cases h with
  | @send _ tick monitor s room found holds =>
    have hown : t.own s.client = true := by
      rw [hparted.own_snapshot found holds, decide_eq_true hm]
    rw [← setMonitor_part, ← push_part hown]
    exact .send (hasRoom_part room) ((getElem?_monitors_part hm).trans found) holds

/-- A snapshot of the part at the front of the channel is at the front in the part, too. -/
theorem part_receive (h : Steps e .receive e' shown) (hfor : e.isFor t .receive = true) :
    Steps (e.part t) .receive (e'.part t) shown := by
  cases h with
  | @receive s rest front =>
    have hown : t.own s.client = true := by simpa [isFor, front] using hfor
    have hchannel : (e.part t).channel = s :: rest.filter fun s => t.own s.client := by
      rw [part, front, List.filter_cons, if_pos hown]
    rw [← report_part hown]
    exact .receive hchannel

/-- The part flushes the windows of its clients when the whole engine flushes all. -/
theorem part_flush {clean : Bool} {since : Nat} {left : List Snapshot}
    (drains : e.status = .draining true since)
    (ripe : (if clean then e.isQuiet else e.isGraceOver since) = true)
    (kept : (e.ledger.flush e.reading).2 = .ok left) :
    Steps (e.part t) (.flush clean)
      (({ e with
        ledger := (e.ledger.flush e.reading).1
        status := .flushing clean e.now left } : Engine).part t)
      [.flushed (left.filter fun s => t.own s.client)] := by
  have hpart : (e.part t).ledger.flush (e.part t).reading =
      ((e.ledger.flush e.reading).1.part t.own, .ok (left.filter fun s => t.own s.client)) :=
    Ledger.flush_part t.own kept
  have hdrains : (e.part t).status = .draining true since := by
    rw [part, drains]
    rfl
  -- What is quiet as a whole is quiet in part, and both have the same grace.
  have hripe : (if clean then (e.part t).isQuiet else (e.part t).isGraceOver since) = true := by
    cases clean with
    | true => exact isQuiet_part ripe
    | false => exact ripe
  have hstep := Steps.flush hdrains hripe (congrArg Prod.snd hpart)
  rw [hpart] at hstep
  exact hstep

/-- A flushed snapshot of the part is sent by the part alone. -/
theorem part_sendFlushed (h : Steps e .sendFlushed e' shown)
    (hfor : e.isFor t .sendFlushed = true) : Steps (e.part t) .sendFlushed (e'.part t) shown := by
  cases h with
  | @sendFlushed clean elapsed s left flushes room =>
    have hown : t.own s.client = true := by simpa [isFor, flushes, Status.left] using hfor
    have hstatus : (e.part t).status =
        .flushing clean elapsed (s :: left.filter fun s => t.own s.client) := by
      rw [part, flushes, Status.part, List.filter_cons, if_pos hown]
    have hstep := Steps.sendFlushed hstatus (hasRoom_part room)
    rw [push_part hown] at hstep
    exact hstep

/-- Where all monitors have stopped, those of the part have. -/
theorem part_finish (h : Steps e .finish e' shown) :
    ∃ events, Steps (e.part t) .finish (e'.part t) events := by
  cases h with
  | @finish clean elapsed flushes drained left =>
    refine ⟨_, .finish (by rw [part, flushes]; rfl) (by rw [part, drained]; rfl) ?_⟩
    exact List.all_eq_true.mpr fun m hm =>
      List.all_eq_true.mp left m (List.mem_of_mem_take hm)

/-- **A step of the part is a step of the part alone.** -/
theorem part_step {told : List Event} (h : Steps e a e' shown) (hparted : e.Parted t)
    (hbooks : e.Books told) (hfor : e.isFor t a = true) :
    ∃ events, Steps (e.part t) a (e'.part t) events := by
  cases a with
  | issue i =>
    have hi : i < t.instances := of_decide_eq_true hfor
    cases h with
    | issue found turn =>
      rw [← setInstance_part]
      exact ⟨_, .issue ((getElem?_instances_part hi).trans found) turn⟩
  | reply i answer =>
    have hi : i < t.instances := of_decide_eq_true hfor
    cases h with
    | reply found turn =>
      rw [← setInstance_part]
      exact ⟨_, .reply ((getElem?_instances_part hi).trans found) turn⟩
  | quit i =>
    have hi : i < t.instances := of_decide_eq_true hfor
    cases h with
    | quit told found turn =>
      rw [← setInstance_part]
      exact ⟨_, .quit (isRunning_part.trans told) ((getElem?_instances_part hi).trans found) turn⟩
  | leave m =>
    have hm : m < t.monitors := of_decide_eq_true hfor
    cases h with
    | leave told found turn =>
      rw [← setMonitor_part]
      exact ⟨_, .leave (isRunning_part.trans told) ((getElem?_monitors_part hm).trans found) turn⟩
  | record i => exact ⟨_, part_record h hparted (of_decide_eq_true hfor)⟩
  | cut m => exact ⟨_, part_cut h hparted (of_decide_eq_true hfor)⟩
  | send m => exact ⟨_, part_send h hparted (of_decide_eq_true hfor)⟩
  | receive => exact ⟨_, part_receive h hfor⟩
  | advance target =>
    cases h with
    | advance later range => exact ⟨_, .advance later range⟩
  | stop flushes =>
    cases h with
    | stop runs => exact ⟨_, .stop (by rw [part, runs]; rfl)⟩
  | flush clean =>
    cases h with
    | flush drains ripe kept => exact ⟨_, part_flush drains ripe kept⟩
    -- The windows of right books can be flushed.
    | flushFails drains ripe kept => exact absurd kept (hbooks.flush_ne_error _)
  | sendFlushed => exact ⟨_, part_sendFlushed h hfor⟩
  | finish => exact part_finish h

/-- **Any other step leaves the part as it is.** -/
theorem part_of_not (h : Steps e a e' shown) (hparted : e.Parted t)
    (hfor : e.isFor t a = false) : e'.part t = e.part t := by
  -- Nothing of the part is touched; what touches all parts alike is an action of every part.
  cases h with
  | issue | reply | quit =>
    exact part_setInstance_of_le (Nat.not_lt.mp (of_decide_eq_false hfor)) _
  | @record i inst next record taken found turn | @crash i inst next record fault found turn =>
    have hi : t.instances ≤ i := Nat.not_lt.mp (of_decide_eq_false hfor)
    have hother : t.own (record.completedBy e.reading).client = false := by
      show t.own record.client = false
      rw [hparted.own_record found turn, decide_eq_false (Nat.not_lt.mpr hi)]
    rw [part_setInstance_of_le hi]
    simp only [part, Ledger.part_record_of_not hother]
  | @cutNothing m tick monitor found | @cut m tick monitor s found
  | @cutFails m tick monitor fault found =>
    have hm : t.monitors ≤ m := Nat.not_lt.mp (of_decide_eq_false hfor)
    have hother : t.own monitor.client = false := by
      rw [hparted.monitors m monitor found, decide_eq_false (Nat.not_lt.mpr hm)]
    rw [part_setMonitor_of_le hm]
    simp only [part, Ledger.part_take_of_not hother]
  | @send m tick monitor s room found holds =>
    have hm : t.monitors ≤ m := Nat.not_lt.mp (of_decide_eq_false hfor)
    have hother : t.own s.client = false := by
      rw [hparted.own_snapshot found holds, decide_eq_false (Nat.not_lt.mpr hm)]
    rw [part_setMonitor_of_le hm, part_push_of_not hother]
  | leave => exact part_setMonitor_of_le (Nat.not_lt.mp (of_decide_eq_false hfor)) _
  | @receive s rest front =>
    have hother : t.own s.client = false := by simpa [isFor, front] using hfor
    rw [part_report_of_not hother]
    simp [part, front, hother]
  | @sendFlushed clean elapsed s left flushes room =>
    have hother : t.own s.client = false := by simpa [isFor, flushes, Status.left] using hfor
    simp [part, push, flushes, Status.part, hother]
  | advance | stop | flush | flushFails | finish => cases hfor

/-! ### The part of the first profiles -/

/-- There is one instance for each that a profile asks for. -/
theorem length_instancesFrom (seed : UInt64) (profiles : List Profile) :
    (instancesFrom seed profiles).length = (profiles.map fun p => p.instances.toNat).sum := by
  induction profiles generalizing seed with
  | nil => rfl
  | cons p rest ih =>
    rw [instancesFrom, List.length_append, List.length_map, List.length_range, ih, List.map_cons,
      List.sum_cons]

/-- More profiles behind do not change the instances of those before, nor their seeds. -/
theorem instancesFrom_append (seed : UInt64) (ps qs : List Profile) :
    ∃ later, instancesFrom seed (ps ++ qs) = instancesFrom seed ps ++ instancesFrom later qs := by
  induction ps generalizing seed with
  | nil => exact ⟨seed, rfl⟩
  | cons p rest ih =>
    obtain ⟨later, hrest⟩ := ih (seed + p.instances)
    refine ⟨later, ?_⟩
    rw [List.cons_append, instancesFrom, hrest, instancesFrom, List.append_assoc]

end Engine

/-- The part of the first profiles of a run. -/
def Part.of (ps : List Profile) : Part where
  own c := decide (c ∈ ps.map Profile.id)
  instances := (ps.map fun p => p.instances.toNat).sum
  monitors := ps.length

namespace Engine

section Runs

variable {config : EngineConfig} {ps qs : List Profile}

/-- Profiles of different ids are those of the part or not. -/
theorem own_of_accepted (accepted : Engine.check (ps ++ qs) = .ok ()) :
    (∀ p ∈ ps, (Part.of ps).own p.id = true) ∧ ∀ q ∈ qs, (Part.of ps).own q.id = false := by
  have hnodup := ((validateAll_ok_iff (ps ++ qs)).mp accepted).2
  rw [List.map_append, List.nodup_append] at hnodup
  refine ⟨fun p hp => decide_eq_true (List.mem_map_of_mem hp), fun q hq => ?_⟩
  exact decide_eq_false fun hmem => hnodup.2.2 q.id hmem q.id (List.mem_map_of_mem hq) rfl

/-- **The part of a run at its start is the run of the first profiles alone.** -/
theorem part_start (accepted : Engine.check (ps ++ qs) = .ok ()) :
    (start config (ps ++ qs)).part (Part.of ps) = start config ps := by
  obtain ⟨hps, hqs⟩ := own_of_accepted accepted
  obtain ⟨later, hinstances⟩ := instancesFrom_append config.seed ps qs
  have hledger := Ledger.part_openFor hps hqs Span.zero
  -- Monitors and instances are in the order of the profiles, so those of the part come first.
  have hmonitors : ((ps ++ qs).map Monitor.start).take ps.length = ps.map Monitor.start := by
    rw [List.map_append, List.take_left' (List.length_map _)]
  have htake : (instancesFrom config.seed (ps ++ qs)).take (Part.of ps).instances =
      instancesFrom config.seed ps := by
    rw [hinstances]
    exact List.take_left' (length_instancesFrom config.seed ps)
  simp only [start, part, hledger, htake]
  rw [show (Part.of ps).monitors = ps.length from rfl, hmonitors]
  rfl

/-- **Every run over two lists of profiles is parted.** -/
theorem run?_parted (accepted : Engine.check (ps ++ qs) = .ok ()) {as : List Action}
    {events : List Event} (h : (start config (ps ++ qs)).run? as = some (e, events)) :
    e.Parted (Part.of ps) where
  instances i inst found := by
    obtain ⟨hps, hqs⟩ := own_of_accepted accepted
    obtain ⟨later, hinstances⟩ := instancesFrom_append config.seed ps qs
    -- The instances are those at the start, in their order.
    have hclient : (start config (ps ++ qs)).clientAt? i = some inst.client := by
      rw [← clientAt?_run? h, clientAt?, List.getElem?_map, found]
      rfl
    rw [clientAt?, List.getElem?_map, start, hinstances] at hclient
    obtain ⟨first, hfirst, hsame⟩ := Option.map_eq_some_iff.mp hclient
    have hlength : (instancesFrom config.seed ps).length = (Part.of ps).instances :=
      length_instancesFrom config.seed ps
    rw [← hsame, ← hlength]
    by_cases hi : i < (instancesFrom config.seed ps).length
    · rw [List.getElem?_append_left hi] at hfirst
      rw [Instance.client, hps _ (profile_mem_of_instancesFrom (List.mem_of_getElem? hfirst))]
      exact (decide_eq_true hi).symm
    · rw [List.getElem?_append_right (Nat.not_lt.mp hi)] at hfirst
      rw [Instance.client, hqs _ (profile_mem_of_instancesFrom (List.mem_of_getElem? hfirst))]
      exact (decide_eq_false hi).symm
  records inst hinst record holds := by
    obtain ⟨i, found⟩ := List.mem_iff_getElem?.mp hinst
    exact (run?_settles h found).holds record holds
  monitors m monitor found := by
    obtain ⟨hps, hqs⟩ := own_of_accepted accepted
    have hclient : ((ps ++ qs).map Profile.id)[m]? = some monitor.client := by
      rw [← run?_monitors_of_start h, List.getElem?_map, found]
      rfl
    rw [List.getElem?_map] at hclient
    obtain ⟨p, hp, hid⟩ := Option.map_eq_some_iff.mp hclient
    rw [← hid]
    by_cases hm : m < ps.length
    · rw [List.getElem?_append_left hm] at hp
      rw [hps p (List.mem_of_getElem? hp)]
      exact (decide_eq_true hm).symm
    · rw [List.getElem?_append_right (Nat.not_lt.mp hm)] at hp
      rw [hqs p (List.mem_of_getElem? hp)]
      exact (decide_eq_false hm).symm
  owned := run?_owned h

end Runs

end Engine

end ClosedLoop
