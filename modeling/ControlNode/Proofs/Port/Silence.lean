import ControlNode.Node.Registry
import ControlNode.Proofs.Port.Switching
import Mathlib.Data.List.Infix

/-!
# Disabled ports

While a port is disabled, no write is queued and no tick plans to read it. What was taken on
before still comes through: the writes that wait, in their order, and the one read of a tick
that is under way (`uses_while_disabled`).
-/

namespace ControlNode

/-! ### Calls of devices -/

inductive DeviceUse where
  | read
  | write (v : Value)
  | restore (v : Value)
  deriving DecidableEq

/-- A port with the calls of its device so far, each with whether the port was enabled when it
began. -/
structure Attended where
  port : Port
  /-- A tick that has not ended is to read the port. -/
  planned : Bool := false
  /-- The device is being written. -/
  calling : Bool := false
  uses : List (DeviceUse × Bool) := []

inductive PortStep where
  | enqueue (v : Value) (t : Ticket)
  | setValue (v : Value) (t : Ticket) (now : Int)
  | queueEval (c : EvalContext)
  | evaluate (t : Ticket) (now : Int)
  /-- The worker takes the next write. -/
  | takeWrite
  /-- The worker has the device to itself. -/
  | beginWrite
  | endWrite
  /-- A tick begins; ports whose last read has failed are left out. -/
  | openTick (backingOff : Bool)
  | readTick (now : Int)
  | takeValue (v : Value)
  | load (g : DepGraph) (r : Record)
  | setAttr (g : DepGraph) (name : String) (value : Json)

namespace Attended

def writes (s : Attended) : WritePipe := s.port.writes

def usesWith (s : Attended) (u : DeviceUse) : List (DeviceUse × Bool) :=
  s.uses ++ [(u, s.port.enabled)]

def takeWrite (s : Attended) : Attended :=
  if s.writes.queue.closed || s.writes.current.isSome || s.calling then s
  else { s with port := s.port.takeWrite.getD s.port }

def beginWrite (s : Attended) : Attended :=
  match s.writes.current with
  | some r =>
    if s.calling then s else { s with calling := true, uses := s.usesWith (.write r.value) }
  | none => s

def readTick (s : Attended) (now : Int) : Attended :=
  if s.planned then
    { s with port := (s.port.readValue now).2, planned := false, uses := s.usesWith .read }
  else s

def load (s : Attended) (g : DepGraph) (r : Record) : Attended :=
  let s := { s with port := (s.port.loadAttrs g r).1 }
  match Node.storedValue? s.port r with
  | none => s
  | some v => { s with
      port := s.port.restore v
      uses := if s.port.writable then s.usesWith (.restore (s.port.domain.adapt v)) else s.uses }

def step (s : Attended) : PortStep → Attended
  | .enqueue v t => { s with port := (s.port.enqueueWrite v t).2 }
  | .setValue v t now => match s.port.checkValue v with
    | .error _ => s
    | .ok () => { s with port := (s.port.submit v t now).2 }
  | .queueEval c => { s with port := (s.port.enqueueEval c).2 }
  | .evaluate t now => match s.port.takeEval with
    | none => s
    | some (c, p) => { s with port := (p.evaluate c t now).2 }
  | .takeWrite => s.takeWrite
  | .beginWrite => s.beginWrite
  | .endWrite => if s.calling then { s with port := s.port.carryOut.2, calling := false } else s
  | .openTick backingOff =>
    if s.planned then s else { s with planned := s.port.enabled && !backingOff }
  | .readTick now => s.readTick now
  | .takeValue v => { s with port := { s.port with lastRead := some v } }
  | .load g r => s.load g r
  | .setAttr g name value => { s with port := (s.port.setAttr g name value).port }

def run (s : Attended) (steps : List PortStep) : Attended := steps.foldl step s

/-- The values that the device has not been called with yet. -/
def outstanding (s : Attended) : List Value :=
  (if s.calling then [] else s.writes.current.toList.map WriteRequest.value) ++
    s.writes.queue.items.map WriteRequest.value

end Attended

/-- The values that are written in some calls. -/
def DeviceUse.writesIn (uses : List (DeviceUse × Bool)) : List Value :=
  uses.filterMap fun
    | (.write v, _) => some v
    | _ => none

def DeviceUse.readsIn (uses : List (DeviceUse × Bool)) : Nat :=
  uses.countP fun u => u.1 == .read

def DeviceUse.isRestore : DeviceUse → Bool
  | .restore _ => true
  | _ => false

def DeviceUse.restoresIn (uses : List (DeviceUse × Bool)) : Nat :=
  uses.countP fun u => u.1.isRestore

def PortStep.isLoad : PortStep → Bool
  | .load .. => true
  | _ => false

namespace Attended

open DeviceUse

/-! ### One step -/

variable {s s' : Attended}

/-- The calls that are added while a port is disabled: writes that were outstanding, planned
reads, and restored values. -/
structure Leftover (s s' : Attended) (loads : Nat) (new : List (DeviceUse × Bool)) : Prop where
  uses : s'.uses = s.uses ++ new
  writes : writesIn new ++ s'.outstanding = s.outstanding
  reads : readsIn new + s'.planned.toNat = s.planned.toNat
  restores : restoresIn new ≤ loads

theorem Leftover.refl (s : Attended) (loads : Nat) : Leftover s s loads [] := by
  refine ⟨(List.append_nil _).symm, rfl, ?_, Nat.zero_le _⟩
  simp [readsIn]

/-- What changes nothing but the port and leaves its writes calls for nothing. -/
theorem Leftover.withPort {p : Port} (hp : p.writes = s.port.writes) (loads : Nat) :
    Leftover s { s with port := p } loads [] := by
  refine ⟨(List.append_nil _).symm, ?_, by simp [readsIn], Nat.zero_le _⟩
  have hwrites : Attended.writes { s with port := p } = s.writes := hp
  simp only [writesIn, List.filterMap_nil, List.nil_append, outstanding, hwrites]

theorem Leftover.trans {s'' : Attended} {m k : Nat} {first rest : List (DeviceUse × Bool)}
    (h : Leftover s s' m first) (h' : Leftover s' s'' k rest) :
    Leftover s s'' (m + k) (first ++ rest) := by
  refine ⟨by rw [h'.uses, h.uses, List.append_assoc], ?_, ?_, ?_⟩
  · rw [← h.writes, ← h'.writes, writesIn, writesIn, writesIn, List.filterMap_append,
      List.append_assoc]
  · have h₁ := h.reads
    have h₂ := h'.reads
    simp only [readsIn, List.countP_append] at h₁ h₂ ⊢
    omega
  · have h₁ := h.restores
    have h₂ := h'.restores
    simp only [restoresIn, List.countP_append] at h₁ h₂ ⊢
    omega

theorem takeWrite_leftover (s : Attended) (loads : Nat) : Leftover s s.takeWrite loads [] := by
  unfold takeWrite
  split
  · exact .refl s loads
  · rename_i hidle
    simp only [Bool.or_eq_true, not_or, Bool.not_eq_true, Option.isSome_eq_false_iff,
      Option.isNone_iff_eq_none] at hidle
    obtain ⟨⟨-, hcurrent⟩, hcalling⟩ := hidle
    cases htake : s.port.takeWrite with
    | none => exact .refl s loads
    | some p =>
      obtain ⟨⟨r, w⟩, hw, rfl⟩ := Option.map_eq_some_iff.mp htake
      obtain ⟨⟨r', q⟩, hpop, heq⟩ := Option.map_eq_some_iff.mp hw
      cases heq
      have hitems : s.writes.queue.items = r :: q.items := BoundedQueue.items_of_pop _ _ _ hpop
      refine ⟨(List.append_nil _).symm, ?_, by simp [readsIn], Nat.zero_le _⟩
      have houtstanding : s.outstanding = r.value :: q.items.map WriteRequest.value := by
        simp [outstanding, hcalling, hcurrent, hitems]
      rw [houtstanding]
      simp [outstanding, writes, hcalling, writesIn]

theorem beginWrite_leftover (s : Attended) (loads : Nat) :
    ∃ new, Leftover s s.beginWrite loads new := by
  unfold beginWrite
  split
  · rename_i r hcurrent
    split
    · exact ⟨[], .refl s loads⟩
    · rename_i hcalling
      refine ⟨[(.write r.value, s.port.enabled)], rfl, ?_, by simp [readsIn], Nat.zero_le _⟩
      have houtstanding : s.outstanding =
          r.value :: s.writes.queue.items.map WriteRequest.value := by
        simp [outstanding, hcalling, hcurrent]
      rw [houtstanding]
      rfl
  · exact ⟨[], .refl s loads⟩

theorem carryOut_writes (p : Port) : p.carryOut.2.writes.current = none ∧
    p.carryOut.2.writes.queue = p.writes.queue := by
  refine ⟨?_, Port.carryOut_queue p⟩
  unfold Port.carryOut
  cases hcurrent : p.writes.current with
  | none => exact hcurrent
  | some r => simp [WritePipe.finish, hcurrent, WritePipe.showHead]

theorem endWrite_leftover (hcalling : s.calling = true) (loads : Nat) :
    Leftover s { s with port := s.port.carryOut.2, calling := false } loads [] := by
  obtain ⟨hcurrent, hqueue⟩ := carryOut_writes s.port
  refine ⟨(List.append_nil _).symm, ?_, by simp [readsIn], Nat.zero_le _⟩
  simp [outstanding, writes, hcalling, hcurrent, hqueue, writesIn]

theorem readTick_leftover (s : Attended) (now : Int) (loads : Nat) :
    ∃ new, Leftover s (s.readTick now) loads new := by
  unfold readTick
  split
  · rename_i hplanned
    have hwrites : (s.port.readValue now).2.writes = s.port.writes := by
      rw [(Port.readValue_upkeep s.port now).frame]
    refine ⟨[(.read, s.port.enabled)], rfl, ?_, by simp [readsIn, hplanned], Nat.zero_le _⟩
    simp [outstanding, writes, hwrites, writesIn]
  · exact ⟨[], .refl s loads⟩

theorem restore_writes (p : Port) (v : Value) : (p.restore v).writes = p.writes := by
  simp only [Port.restore]
  repeat' split
  all_goals rfl

theorem load_leftover (s : Attended) (g : DepGraph) (r : Record) :
    ∃ new, Leftover s (s.load g r) 1 new := by
  have hloaded := (Port.loadAttrs_switched s.port g r).writes
  simp only [load]
  split
  · exact ⟨[], .withPort hloaded 1⟩
  · rename_i v hv
    have hwrites := (restore_writes (s.port.loadAttrs g r).1 v).trans hloaded
    split
    · refine ⟨[(.restore _, (s.port.loadAttrs g r).1.enabled)], rfl, ?_, by simp [readsIn],
        Nat.le_refl 1⟩
      simp [outstanding, writes, hwrites, writesIn]
    · exact ⟨[], .withPort hwrites 1⟩

theorem step_disabled (hoff : s.port.enabled = false) (a : PortStep) :
    ∃ new, Leftover s (s.step a) (if a.isLoad then 1 else 0) new := by
  have hcheck : s.port.checkWritable = .error .disabled := by simp [Port.checkWritable, hoff]
  cases a with
  | enqueue v t =>
    have hsame : (s.port.enqueueWrite v t).2 = s.port := by
      simp only [Port.enqueueWrite, hcheck]
    exact ⟨[], .withPort (congrArg Port.writes hsame) _⟩
  | setValue v t now =>
    have hrefused : s.port.checkValue v = .error .disabled := by
      simp only [Port.checkValue, hcheck]
    simp only [step, hrefused]
    exact ⟨[], .refl s _⟩
  | queueEval c =>
    refine ⟨[], .withPort ?_ _⟩
    unfold Port.enqueueEval
    repeat' split
    all_goals rfl
  | evaluate t now =>
    simp only [step]
    cases htake : s.port.takeEval with
    | none => exact ⟨[], .refl s _⟩
    | some cp =>
      obtain ⟨⟨c, evals⟩, -, rfl⟩ := Option.map_eq_some_iff.mp htake
      refine ⟨[], .withPort ?_ _⟩
      simp only [Port.evaluate, hoff]
  | takeWrite => exact ⟨[], takeWrite_leftover s _⟩
  | beginWrite => exact beginWrite_leftover s _
  | endWrite =>
    simp only [step]
    split
    · rename_i hcalling
      exact ⟨[], endWrite_leftover hcalling _⟩
    · exact ⟨[], .refl s _⟩
  | openTick backingOff =>
    simp only [step]
    split
    · exact ⟨[], .refl s _⟩
    · rename_i hplanned
      have hunplanned : s.planned = (s.port.enabled && !backingOff) := by simp [hoff, hplanned]
      rw [← hunplanned]
      exact ⟨[], .refl s _⟩
  | readTick now => exact readTick_leftover s now _
  | takeValue v => exact ⟨[], .withPort (p := { s.port with lastRead := some v }) rfl _⟩
  | load g r => exact load_leftover s g r
  | setAttr g name value =>
    exact ⟨[], .withPort (Port.setAttr_switched s.port g name value).writes _⟩

/-! ### Runs -/

theorem leftover_run (s : Attended) (steps : List PortStep)
    (hoff : ∀ before, before <+: steps → (s.run before).port.enabled = false) :
    ∃ new, Leftover s (s.run steps) (steps.countP PortStep.isLoad) new := by
  induction steps generalizing s with
  | nil => exact ⟨[], .refl s _⟩
  | cons a steps ih =>
    obtain ⟨first, hfirst⟩ := step_disabled (hoff [] (List.nil_prefix ..)) a
    obtain ⟨rest, hrest⟩ := ih (s.step a) fun before hbefore =>
      hoff (a :: before) (List.cons_prefix_cons.mpr ⟨rfl, hbefore⟩)
    refine ⟨first ++ rest, ?_⟩
    rw [List.countP_cons, Nat.add_comm]
    exact hfirst.trans hrest

theorem length_eq_uses (uses : List (DeviceUse × Bool)) :
    uses.length = (writesIn uses).length + readsIn uses + restoresIn uses := by
  induction uses with
  | nil => rfl
  | cons u uses ih =>
    obtain ⟨u, enabled⟩ := u
    cases u <;> simp [writesIn, readsIn, restoresIn, isRestore] at ih ⊢ <;> omega

/-- While a port stays disabled, its device is called for what was outstanding before only:
the writes that waited, in their order, and the read of a tick under way. Beside that, a record
that is loaded can bring a restored value. With nothing outstanding the device is left alone. -/
theorem uses_while_disabled (s : Attended) (steps : List PortStep)
    (hoff : ∀ before, before <+: steps → (s.run before).port.enabled = false) :
    ∃ new, (s.run steps).uses = s.uses ++ new ∧
      writesIn new ++ (s.run steps).outstanding = s.outstanding ∧
      readsIn new + (s.run steps).planned.toNat = s.planned.toNat ∧
      restoresIn new ≤ steps.countP PortStep.isLoad ∧
      (s.outstanding = [] → s.planned = false → (∀ a ∈ steps, a.isLoad = false) → new = []) := by
  obtain ⟨new, h⟩ := leftover_run s steps hoff
  refine ⟨new, h.uses, h.writes, h.reads, h.restores, ?_⟩
  intro houtstanding hplanned hloads
  have hwrites := h.writes
  rw [houtstanding, List.append_eq_nil_iff] at hwrites
  have hreads := h.reads
  rw [hplanned] at hreads
  have hnone : steps.countP PortStep.isLoad = 0 :=
    List.countP_eq_zero.mpr fun a ha => by simp [hloads a ha]
  have hrestores := h.restores
  have hlength := length_eq_uses new
  rw [hwrites.1, List.length_nil] at hlength
  simp only [Bool.toNat_false] at hreads
  exact List.eq_nil_of_length_eq_zero (by omega)

def switchOn : Attended :=
  { port := .create ⟨"switch", 0⟩ (.memory { type := .boolean, writable := true }) false 1 }

/-- A switch that was disabled while a write waited. -/
def switchedOff : Attended :=
  switchOn.run [.enqueue (.bool true) 0, .setAttr [] "enabled" (.bool false)]

def drain : List PortStep := [.takeWrite, .beginWrite, .endWrite]

theorem uses_while_disabled_drain :
    (∀ before, before <+: drain → (switchedOff.run before).port.enabled = false) ∧
    ∃ new, (switchedOff.run drain).uses = switchedOff.uses ++ new ∧
      writesIn new ++ (switchedOff.run drain).outstanding = switchedOff.outstanding := by
  have hoff : ∀ before, before <+: drain → (switchedOff.run before).port.enabled = false := by
    intro before hbefore
    have hinits : ∀ before ∈ drain.inits, (switchedOff.run before).port.enabled = false := by
      simp only [drain, List.inits, List.map_cons, List.map_nil, List.forall_mem_cons]
      decide +kernel
    exact hinits before ((List.mem_inits before drain).mpr hbefore)
  obtain ⟨new, huses, hwrites, -⟩ := uses_while_disabled switchedOff drain hoff
  exact ⟨hoff, new, huses, hwrites⟩

def storedOff : Record :=
  [("enabled", .bool false), ("persisted", .bool true), ("value", .bool true)]

/-- A disabled port is not silent: a write that waited is carried out, a tick that began before
reads, and a stored value is restored. -/
theorem uses_begun_while_disabled :
    (switchedOff.run drain).uses = [(.write (.bool true), false)] ∧
    (switchOn.run [.openTick false, .setAttr [] "enabled" (.bool false), .readTick 0]).uses =
      [(.read, false)] ∧
    (switchOn.run [.load [] storedOff]).uses = [(.restore (.bool true), false)] := by
  decide +kernel

end Attended

end ControlNode
