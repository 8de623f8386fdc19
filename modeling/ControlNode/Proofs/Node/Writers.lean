import ControlNode.Proofs.Node.Tasks

/-!
# The writer of a port

The task that carries out the writes of a port takes a write out, begins to write it and ends it, in
this order (`WriterStep`). A run of the task is as many of these steps as it can take before it has
to wait, and leaves all other ports and their writers alone (`pollWriter_steps`).
-/

namespace ControlNode

/-! ### Waiting -/

namespace Agenda

variable (a : Agenda)

@[simp] theorem wake_tasks (t : TaskId) : (a.wake t).tasks = a.tasks := by
  unfold wake
  split <;> rfl

@[simp] theorem wakeIf_tasks (t : TaskId) (w : Wait) : (a.wakeIf t w).tasks = a.tasks := by
  unfold wakeIf
  split <;> simp

@[simp] theorem wakeWriteOf_tasks (ticket : Ticket) : (a.wakeWriteOf ticket).tasks = a.tasks := by
  have hwake (es : List (TaskId × Wait)) (b : Agenda) :
      (es.foldl (fun a e => a.wake e.1) b).tasks = b.tasks := by
    induction es generalizing b with
    | nil => rfl
    | cons e es ih => simp [ih]
  exact hwake _ a

@[simp] theorem release_tasks (r : Resource) : (a.release r).tasks = a.tasks := by
  unfold release
  repeat' split
  · rfl
  · rfl
  · unfold wakeParty
    split <;> simp

@[simp] theorem acquire_tasks (r : Resource) (p : Party) :
    (a.acquire r p).2.tasks = a.tasks := by
  unfold acquire
  repeat' split
  all_goals rfl

variable {a} {t u : TaskId} {w : Wait}

theorem waitOf?_setWait (h : a.waitOf? t = some w) (w' : Wait) :
    (a.setWait t w').waitOf? t = some w' := by
  revert h
  simp only [waitOf?, setWait]
  induction a.tasks with
  | nil => exact fun h => nomatch h
  | cons e es ih =>
    obtain ⟨u, v⟩ := e
    by_cases hu : u = t
    · simp [hu]
    · have hne : (t == u) = false := by simp [Ne.symm hu]
      simpa [List.lookup_cons, hu, hne] using ih

theorem waitOf?_setWait_of_ne (h : u ≠ t) (w' : Wait) :
    (a.setWait t w').waitOf? u = a.waitOf? u := by
  simp only [waitOf?, setWait]
  induction a.tasks with
  | nil => rfl
  | cons e es ih =>
    obtain ⟨v, x⟩ := e
    by_cases hv : v = t
    · have hne : (u == t) = false := by simpa using h
      simpa [List.lookup_cons, hv, hne] using ih
    · simp only [List.map_cons, hv, if_false, List.lookup_cons, ih]

theorem waitOf?_endTask (t : TaskId) : (a.endTask t).waitOf? t = none := by
  simp only [waitOf?, endTask]
  induction a.tasks with
  | nil => rfl
  | cons e es ih =>
    obtain ⟨u, v⟩ := e
    by_cases hu : u = t
    · simpa [hu] using ih
    · have hne : (t == u) = false := by simp [Ne.symm hu]
      simpa [hu, List.lookup_cons, hne] using ih

theorem waitOf?_endTask_of_ne (h : u ≠ t) : (a.endTask t).waitOf? u = a.waitOf? u := by
  simp only [waitOf?, endTask]
  induction a.tasks with
  | nil => rfl
  | cons e es ih =>
    obtain ⟨v, x⟩ := e
    by_cases hv : v = t
    · have hne : (u == t) = false := by simpa using h
      simpa [List.lookup_cons, hv, hne] using ih
    · rw [List.filter_cons_of_pos (by simpa using hv), List.lookup_cons, ih, List.lookup_cons]

theorem waitOf?_congr {b : Agenda} (h : b.tasks = a.tasks) (t : TaskId) :
    b.waitOf? t = a.waitOf? t := by
  simp only [waitOf?, h]

theorem waitOf?_spawn_of_ne (h : u ≠ t) : (a.spawn t).waitOf? u = a.waitOf? u := by
  have hne : (u == t) = false := by simpa using h
  have htasks : (a.spawn t).tasks = a.tasks ++ [(t, .start)] := wake_tasks _ t
  simp [waitOf?, htasks, List.lookup_append, List.lookup_cons, hne]

theorem waitOf?_spawn (h : a.waitOf? t = none) : (a.spawn t).waitOf? t = some .start := by
  have htasks : (a.spawn t).tasks = a.tasks ++ [(t, .start)] := wake_tasks _ t
  simp only [waitOf?] at h ⊢
  simp [htasks, List.lookup_append, h]

end Agenda

/-! ### Steps of a writer -/

/-- How far the writer of a port has come with a write. -/
inductive WriteStage where
  | idle
  /-- A write has been taken out; the writer waits for the device. -/
  | taken
  /-- The device is being written. -/
  | begun
  deriving DecidableEq

def Wait.stage : Wait → WriteStage
  | .device => .taken
  | .timer _ => .begun
  | _ => .idle

inductive WriterStep : Port × WriteStage → Port × WriteStage → Prop
  | takes {p q : Port} (hopen : p.writes.queue.closed = false) (h : p.takeWrite = some q) :
    WriterStep (p, .idle) (q, .taken)
  | begins (p : Port) : WriterStep (p, .taken) (p, .begun)
  | finishes (p : Port) : WriterStep (p, .begun) (p.carryOut.2, .idle)

namespace Node

open Relation Port

variable {n m k : Node} {key : PortKey} {p : Port} {w : Wait}

/-- A writer that has ended has nothing in hand. -/
def writeStage (n : Node) (key : PortKey) : WriteStage :=
  (n.agenda.waitOf? (.writer key)).elim .idle Wait.stage

theorem writeStage_congr (h : m.agenda.tasks = n.agenda.tasks) (key : PortKey) :
    m.writeStage key = n.writeStage key := by
  rw [writeStage, Agenda.waitOf?_congr h, writeStage]

theorem emitAll_frame (n : Node) (key : PortKey) (signals : List Signal) :
    n.emitAll key signals = { n with
      results := (n.emitAll key signals).results
      agenda := (n.emitAll key signals).agenda } ∧
    (n.emitAll key signals).agenda.tasks = n.agenda.tasks := by
  unfold emitAll
  induction signals generalizing n with
  | nil => exact ⟨rfl, rfl⟩
  | cons s signals ih =>
    obtain ⟨hframe, htasks⟩ := ih (emit key n s)
    rw [List.foldl_cons]
    refine ⟨?_, htasks.trans ?_⟩
    · rw [hframe]
      cases s <;> rfl
    · cases s <;> simp [emit]

/-- All is as in the node `n` but for a port and its writer, which waits for `w` or has ended. -/
structure Holds (n m : Node) (key : PortKey) (p : Port) (w : Option Wait) : Prop where
  services : m.services = []
  port : m.portOf? key = some p
  wait : m.agenda.waitOf? (.writer key) = w
  ports : ∀ other, other ≠ key → m.portOf? other = n.portOf? other
  waits : ∀ other, other ≠ key →
    m.agenda.waitOf? (.writer other) = n.agenda.waitOf? (.writer other)
  nextTicket : m.nextTicket = n.nextTicket

namespace Holds

theorem congr (h : Holds n m key p (some w)) (hserv : k.services = m.services)
    (hports : k.ports = m.ports) (hgone : k.gone = m.gone)
    (htasks : k.agenda.tasks = m.agenda.tasks) (hticket : k.nextTicket = m.nextTicket) :
    Holds n k key p (some w) := by
  have hportOf (other : PortKey) : k.portOf? other = m.portOf? other := by
    unfold portOf? port?
    rw [hports, hgone]
  exact ⟨hserv.trans h.services, (hportOf key).trans h.port,
    (Agenda.waitOf?_congr htasks _).trans h.wait,
    fun other hne => (hportOf other).trans (h.ports other hne),
    fun other hne => (Agenda.waitOf?_congr htasks _).trans (h.waits other hne),
    hticket.trans h.nextTicket⟩

theorem putPort {q : Port} (h : Holds n m key p (some w)) (hq : q.key = p.key) :
    Holds n (m.putPort q) key q (some w) := by
  obtain rfl : q.key = key := hq.trans (key_of_portOf? h.port)
  refine ⟨?_, portOf?_putPort_self h.port, ?_, fun other hne => ?_, fun other hne => ?_, ?_⟩
  · rw [putPort_frame]
    exact h.services
  · rw [putPort_frame]
    exact h.wait
  · rw [portOf?_putPort, if_neg hne]
    exact h.ports other hne
  · rw [putPort_frame]
    exact h.waits other hne
  · rw [putPort_frame]
    exact h.nextTicket

theorem setWait (h : Holds n m key p (some w)) (w' : Wait) :
    Holds n (m.setWait (.writer key) w') key p (some w') :=
  ⟨h.services, h.port, Agenda.waitOf?_setWait h.wait w', h.ports, fun other hne =>
    (Agenda.waitOf?_setWait_of_ne (by simpa using hne) w').trans (h.waits other hne),
    h.nextTicket⟩

theorem endTask (h : Holds n m key p (some w)) :
    Holds n (m.endTask (.writer key)) key p none :=
  ⟨h.services, h.port, Agenda.waitOf?_endTask _, h.ports, fun other hne =>
    (Agenda.waitOf?_endTask_of_ne (by simpa using hne)).trans (h.waits other hne), h.nextTicket⟩

theorem finishWrite (h : Holds n m key p (some w)) :
    Holds n (m.finishWrite p) key p.carryOut.2 (some w) := by
  have hfree : Holds n { m with agenda := m.agenda.release (.device p.carryOut.2.key) } key p
      (some w) := h.congr rfl rfl rfl (Agenda.release_tasks ..) rfl
  have hput := hfree.putPort (show p.carryOut.2.key = p.key by rw [carryOut_frame])
  obtain ⟨hframe, htasks⟩ := emitAll_frame
    ({ m with agenda := m.agenda.release (.device p.carryOut.2.key) }.putPort p.carryOut.2)
    p.carryOut.2.key p.carryOut.1
  unfold Node.finishWrite
  dsimp only
  rw [nudge_eq (by rw [hframe]; exact hput.services)]
  exact hput.congr (by rw [hframe]) (by rw [hframe]) (by rw [hframe]) htasks (by rw [hframe])

theorem beginWrite (h : Holds n m key p (some w)) :
    ∃ q v, Holds n (m.beginWrite p).2 key q (some v) ∧
      ReflTransGen WriterStep (p, .taken) (q, v.stage) := by
  have hkey := key_of_portOf? h.port
  unfold Node.beginWrite
  dsimp only
  rw [hkey]
  split
  · exact ⟨_, _, h.finishWrite.setWait .start, .tail (.single (.begins p)) (.finishes p)⟩
  · have hset : Holds n { m with agenda :=
        (m.agenda.setTimer (.writer key) (m.agenda.clock + p.device.writeTime)).2 } key p
        (some w) := h.congr rfl rfl rfl rfl rfl
    exact ⟨_, _, hset.setWait (.timer m.agenda.nextTimer), .single (.begins p)⟩

theorem claimDevice (h : Holds n m key p (some w)) :
    ∃ q v, Holds n (m.claimDevice p).2 key q (some v) ∧
      ReflTransGen WriterStep (p, .taken) (q, v.stage) := by
  have hkey := key_of_portOf? h.port
  have htasks := m.agenda.acquire_tasks (.device p.key) (.task (.writer p.key))
  unfold Node.claimDevice
  dsimp only
  rw [hkey] at htasks ⊢
  split
  · rename_i a ha
    rw [ha] at htasks
    have hclaim : Holds n { m with agenda := a } key p (some w) := h.congr rfl rfl rfl htasks rfl
    exact hclaim.beginWrite
  · rename_i a ha
    rw [ha] at htasks
    have hclaim : Holds n { m with agenda := a } key p (some w) := h.congr rfl rfl rfl htasks rfl
    exact ⟨_, _, hclaim.setWait .device, .refl⟩

theorem nextWrite (h : Holds n m key p (some w)) :
    ∃ q v, Holds n (m.nextWrite p).2 key q v ∧
      ReflTransGen WriterStep (p, .idle) (q, v.elim .idle Wait.stage) := by
  have hkey := key_of_portOf? h.port
  unfold Node.nextWrite
  dsimp only
  rw [hkey]
  split
  · exact ⟨p, none, h.endTask, .refl⟩
  · rename_i hopen
    split
    · exact ⟨p, _, h.setWait .queue, .refl⟩
    · rename_i q htake
      obtain ⟨r, v, hclaimed, hsteps⟩ := (h.putPort (Work.takeWrite htake).setup.key).claimDevice
      exact ⟨r, _, hclaimed, .head (.takes (by simpa using hopen) htake) hsteps⟩

end Holds

theorem pollWriter_of_none (hp : n.portOf? key = none) :
    n.pollWriter key = (.waits, n.endTask (.writer key)) := by
  unfold pollWriter
  rw [hp]

/-- A run of the writer of a port does nothing but steps of the writer. -/
theorem pollWriter_steps (hs : n.services = []) (hp : n.portOf? key = some p) :
    ∃ q v, Holds n (n.pollWriter key).2 key q v ∧
      ReflTransGen WriterStep (p, n.writeStage key) (q, (n.pollWriter key).2.writeStage key) := by
  suffices hrun : ∃ q v, Holds n (n.pollWriter key).2 key q v ∧
      ReflTransGen WriterStep (p, n.writeStage key) (q, v.elim .idle Wait.stage) by
    obtain ⟨q, v, hq, hsteps⟩ := hrun
    have hstage : (n.pollWriter key).2.writeStage key = v.elim .idle Wait.stage := by
      rw [writeStage, hq.wait]
    exact ⟨q, v, hq, hstage ▸ hsteps⟩
  have hself (v : Option Wait) (hv : n.agenda.waitOf? (.writer key) = v) : Holds n n key p v :=
    ⟨hs, hp, hv, fun _ _ => rfl, fun _ _ => rfl, rfl⟩
  unfold pollWriter writeStage
  dsimp only
  rw [hp]
  cases hw : n.agenda.waitOf? (.writer key) with
  | none => exact ⟨p, none, hself none hw, .refl⟩
  | some w =>
    have h := hself (some w) hw
    cases w with
    | device =>
      obtain ⟨q, v, hclaimed, hsteps⟩ := h.claimDevice
      exact ⟨q, some v, hclaimed, hsteps⟩
    | timer number =>
      dsimp only
      split
      · exact ⟨p, _, h, .refl⟩
      · exact ⟨_, _, h.finishWrite.setWait .start, .single (.finishes p)⟩
    | start => exact h.nextWrite
    | queue => exact h.nextWrite
    | write t => exact h.nextWrite

end Node

end ControlNode
