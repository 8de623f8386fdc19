import ControlNode.Proofs.Port.Settled
import ControlNode.Proofs.Port.Switching

/-!
# What passes between a port and its surroundings

A port hands values to its device, takes over values that have been read, is called on to
evaluate its expression, and queues values for its device (`Contact`). After any steps a value
that it shows has its type, or has come in as it is, and so has a value that it is going to write
(`Lives.follows`). If what comes in fits, so does what the device is handed (`Lives.fits`).
-/

namespace ControlNode

/-! ### Writes that are not completed -/

theorem BoundedQueue.mem_of_mem_push {α : Type} {q : BoundedQueue α} {a b : α}
    (h : b ∈ (q.push a).2.items) : b ∈ q.items ∨ b = a := by
  cases hclosed : q.closed with
  | true =>
    rw [push_of_closed q a hclosed] at h
    exact .inl h
  | false =>
    have hmem := List.mem_append_right (q.push a).1.dropped h
    rw [dropped_append_items_push q a hclosed] at hmem
    simpa using hmem

namespace WritePipe

variable {w w' : WritePipe} {r s : WriteRequest}

/-- A write that waits or is carried out. -/
def Holds (w : WritePipe) (r : WriteRequest) : Prop := r ∈ w.queue.items ∨ w.current = some r

theorem holds_of_take (h : w.take = some (r, w')) (hs : w'.Holds s) : w.Holds s := by
  obtain ⟨⟨r', q⟩, hpop, heq⟩ := Option.map_eq_some_iff.mp h
  cases heq
  have hitems := BoundedQueue.items_of_pop _ _ _ hpop
  rw [Holds, hitems]
  rcases hs with hwaits | hcurrent
  · exact .inl (List.mem_cons_of_mem _ hwaits)
  · cases hcurrent
    exact .inl (List.mem_cons_self ..)

theorem holds_of_enqueue (hs : (w.enqueue r).2.Holds s) : w.Holds s ∨ s = r := by
  rw [Holds, enqueue_queue, enqueue_current] at hs
  rcases hs with hwaits | hcurrent
  · exact (BoundedQueue.mem_of_mem_push hwaits).imp_left .inl
  · exact .inl (.inr hcurrent)

theorem holds_of_finish {result : Except PortError Unit} (hs : (w.finish result).2.Holds s) :
    w.Holds s := by
  unfold finish at hs
  split at hs
  · exact .inl (hs.resolve_right nofun)
  · exact hs

theorem holds_of_close (hs : w.close.2.Holds s) : w.Holds s := .inr (hs.resolve_left nofun)

end WritePipe

/-! ### Devices that are kept -/

namespace Device

/-- What has been written to the device, as far as it holds on to it: devices in memory record
all of it, those made of software the last value. -/
def record : Device → List Value
  | .memory d => d.written
  | .software d => d.value.toList
  | .scripted _ | .unit => []

/-- A device that keeps its type and its record. -/
structure Kept (d d' : Device) : Prop where
  type : d'.type = d.type
  record : d'.record = d.record

variable {d d' d'' : Device}

theorem Kept.refl (d : Device) : Kept d d := ⟨rfl, rfl⟩

theorem Kept.trans (h : Kept d d') (h' : Kept d' d'') : Kept d d'' :=
  ⟨h'.type.trans h.type, h'.record.trans h.record⟩

theorem Touched.kept (h : Touched d d') : Kept d d' := by
  cases h with
  | same => exact .refl d
  | scripted htype _ => exact ⟨htype, rfl⟩

theorem switch_kept (d : Device) (enabled : Bool) :
    Kept d (if enabled then d.enable else d.disable).2 := by
  cases enabled <;> cases d <;> exact ⟨rfl, rfl⟩

theorem setAttr_kept (d : Device) (name : String) (value : Json) :
    Kept d (d.setAttr name value).2 := by
  refine ⟨(d.setAttr_type name value).1, ?_⟩
  cases d with
  | memory m =>
    simp only [setAttr]
    repeat' split
    all_goals rfl
  | scripted s =>
    simp only [setAttr]
    split <;> rfl
  | software | unit => rfl

theorem mem_record_write {v w : Value} (h : w ∈ (d.write v).2.record) : w ∈ d.record ∨ w = v := by
  cases d with
  | memory m =>
    simp only [write] at h
    split at h
    · exact (List.mem_cons.mp h).symm
    · exact .inl h
  | software s => exact .inr (by simpa [write, record] using h)
  | scripted s =>
    simp only [write] at h
    split at h <;> cases h
  | unit => cases h

end Device

namespace Port

variable {p q r : Port}

theorem setEnabled_kept (p : Port) (enabled : Bool) :
    p.device.Kept (p.setEnabled enabled).port.device := by
  unfold setEnabled
  split
  · exact .refl p.device
  · dsimp only
    split
    · exact p.device.switch_kept enabled
    · split
      · exact p.device.switch_kept true
      · exact p.device.switch_kept false

theorem applyAttr_kept (p : Port) (g : DepGraph) (name : String) (value : Json) :
    p.device.Kept (p.applyAttr g name value).port.device := by
  unfold applyAttr
  split
  · exact p.device.setAttr_kept name value
  · split
    · exact p.setEnabled_kept _
    · split
      · unfold setExpression
        repeat' split
        all_goals exact .refl p.device
      · split
        · rename_i q hq
          rw [setPlain_frame hq]
          exact .refl p.device
        · exact .refl p.device

theorem setAttr_kept (p : Port) (g : DepGraph) (name : String) (value : Json) :
    p.device.Kept (p.setAttr g name value).port.device := by
  unfold setAttr
  split
  · exact .refl p.device
  · split
    · exact .refl p.device
    · split
      · exact .refl p.device
      · dsimp only
        split <;> exact applyAttr_kept ..

theorem loadAttrs_kept (p : Port) (g : DepGraph) (record : Record) :
    p.device.Kept (p.loadAttrs g record).1.device := by
  refine @loadAttrs_induction _ (fun q => p.device.Kept q.device) g record ?_ (fun _ hq => hq)
    (.refl p.device)
  intro q name value hq
  refine hq.trans ?_
  unfold loadAttr
  repeat' split
  all_goals first | exact .refl q.device | exact applyAttr_kept ..

/-! ### Contacts -/

/-- What passes between a port and what lies around it. -/
inductive Contact where
  /-- The device is handed a value: one that was queued, with its ticket, or a stored one. -/
  | handed (v : Value) (t : Option Ticket)
  /-- A value that has been read becomes the value of the port. -/
  | taken (v : Value)
  /-- The expression is to be evaluated on values of ports. -/
  | called (c : EvalContext)
  /-- A value is queued for the device as it is. -/
  | queued (r : WriteRequest)

namespace Contact

def isHandover : Contact → Bool
  | .handed .. => true
  | _ => false

/-- Values have the type of the port, and those that are called out are known. Values that were
queued as they are need not fit. -/
def Fits (raw : WriteRequest → Prop) (known : String → Value → Prop) (type : PortType) :
    Contact → Prop
  | .handed v t => Domain.HasType type v ∨ ∃ ticket, t = some ticket ∧ raw ⟨v, ticket⟩
  | .taken v => Domain.HasType type v
  | .called c => ∀ e ∈ c.values, known e.1 e.2
  | .queued r => raw r

theorem Fits.mono {raw : WriteRequest → Prop} {known known' : String → Value → Prop}
    {type : PortType} {c : Contact} (hknown : ∀ id v, known id v → known' id v)
    (h : c.Fits raw known type) : c.Fits raw known' type := by
  cases c with
  | called c => exact fun e he => hknown e.1 e.2 (h e he)
  | _ => exact h

end Contact

/-! ### Steps -/

/-- Whatever can be done to a port, and what passes between it and its surroundings meanwhile. -/
inductive Step (p : Port) : List Contact → Port → Prop
  | takeWrite {q : Port} (h : p.takeWrite = some q) : Step p [] q
  | carryOut : Step p
      (p.writes.current.toList.map fun r => .handed r.value (some r.ticket)) p.carryOut.2
  | evaluate {q : Port} {c : EvalContext} (h : p.takeEval = some (c, q)) (t : Ticket) (now : Int) :
      Step p [] (q.evaluate c t now).2
  | sequence (s : Option RunningSequence) (next : Nat) :
      Step p [] { p with sequence := s, nextSequence := next }
  | submit (v : Value) (t : Ticket) (now : Int) : Step p [] (p.submit v t now).2
  | enqueueWrite (v : Value) (t : Ticket) : Step p [.queued ⟨v, t⟩] (p.enqueueWrite v t).2
  | upkeep {q : Port} (h : Upkeep p q) : Step p [] q
  | take (v : Value) : Step p [.taken v] { p with lastRead := some v }
  | enqueueEval (c : EvalContext) : Step p [.called c] (p.enqueueEval c).2
  | setAttr (g : DepGraph) (name : String) (value : Json) : Step p [] (p.setAttr g name value).port
  | loadAttrs (g : DepGraph) (record : Record) : Step p [] (p.loadAttrs g record).1
  | restore (v : Value) :
      Step p (if p.writable then [.handed (p.domain.adapt v) none] else []) (p.restore v)
  | halt : Step p [] p.halt.2
  | clearPending : Step p [] p.clearPending
  | change {device : Device} (h : p.device.Kept device) : Step p [] { p with device := device }

/-- What is new in a port after it has been in contact: values of its type, or what has come in. -/
structure Follows (p : Port) (cs : List Contact) (q : Port) : Prop where
  key : q.key = p.key
  type : q.type = p.type
  value : ∀ v, q.lastRead = some v →
    p.lastRead = some v ∨ Domain.HasType p.type v ∨ .taken v ∈ cs
  requests : ∀ r, q.writes.Holds r →
    p.writes.Holds r ∨ Domain.HasType p.type r.value ∨ .queued r ∈ cs
  record : ∀ v ∈ q.device.record, v ∈ p.device.record ∨ ∃ t, .handed v t ∈ cs

variable {cs cs' log : List Contact}

namespace Follows

theorem of_kept (hkey : q.key = p.key) (hdevice : p.device.Kept q.device)
    (hvalue : q.lastRead = p.lastRead) (hwrites : q.writes = p.writes) : Follows p cs q :=
  ⟨hkey, hdevice.type, fun _ hv => .inl (hvalue ▸ hv), fun _ hr => .inl (hwrites ▸ hr),
    fun _ hv => .inl (hdevice.record ▸ hv)⟩

theorem of_eq (hkey : q.key = p.key) (hdevice : q.device = p.device)
    (hvalue : q.lastRead = p.lastRead) (hwrites : q.writes = p.writes) : Follows p cs q :=
  of_kept hkey (hdevice ▸ .refl p.device) hvalue hwrites

theorem refl (p : Port) : Follows p cs p := of_eq rfl rfl rfl rfl

theorem trans (h : Follows p cs q) (h' : Follows q cs' r) : Follows p (cs ++ cs') r := by
  refine ⟨h'.key.trans h.key, h'.type.trans h.type, fun v hv => ?_, fun s hs => ?_, fun v hv => ?_⟩
  · rcases h'.value v hv with hold | htype | hnew
    · exact (h.value v hold).imp_right (Or.imp_right (List.mem_append_left _))
    · exact .inr (.inl (h.type ▸ htype))
    · exact .inr (.inr (List.mem_append_right _ hnew))
  · rcases h'.requests s hs with hold | htype | hnew
    · exact (h.requests s hold).imp_right (Or.imp_right (List.mem_append_left _))
    · exact .inr (.inl (h.type ▸ htype))
    · exact .inr (.inr (List.mem_append_right _ hnew))
  · rcases h'.record v hv with hold | ⟨t, hnew⟩
    · exact (h.record v hold).imp_right fun ⟨t, ht⟩ => ⟨t, List.mem_append_left _ ht⟩
    · exact .inr ⟨t, List.mem_append_right _ hnew⟩

theorem of_switched (h : Switched p q) (hdevice : p.device.Kept q.device) : Follows p cs q := by
  refine ⟨h.key, hdevice.type, fun v hv => .inl (h.toLasting.value_eq hv).1,
    fun r hr => .inl (h.writes ▸ hr), fun v hv => .inl (hdevice.record ▸ hv)⟩

end Follows

/-! ### Writes -/

theorem transform_hasType {t : Option Expr} {v w : Value} {now : Int}
    (h : (p.transform t v now).1 = .ok w) : Domain.HasType p.type w := by
  unfold transform at h
  split at h
  · cases h
    exact p.domain.adapt_hasType v
  · dsimp only at h
    split at h
    · cases h
      exact p.domain.adapt_hasType _
    · cases h

theorem readValue_hasType {v : Value} {now : Int} (h : (p.readValue now).1 = .ok v) :
    Domain.HasType p.type v := by
  unfold readValue at h
  dsimp only at h
  split at h
  · cases h
  · have hread := transform_hasType (p := { p with device := p.device.read.2 }) h
    rw [type, p.device.read_touched.type_eq] at hread
    exact hread

theorem enqueueWrite_follows {v : Value} {t : Ticket}
    (hv : Domain.HasType p.type v ∨ .queued ⟨v, t⟩ ∈ cs) :
    Follows p cs (p.enqueueWrite v t).2 := by
  unfold enqueueWrite
  split
  · exact .refl p
  · refine ⟨rfl, rfl, fun _ hw => .inl hw, fun r hr => ?_, fun _ hw => .inl hw⟩
    rcases WritePipe.holds_of_enqueue hr with hold | hnew
    · exact .inl hold
    · cases hnew
      exact .inr hv

theorem submit_follows (p : Port) (v : Value) (t : Ticket) (now : Int) :
    Follows p cs (p.submit v t now).2 := by
  unfold submit
  dsimp only
  split
  · exact .of_eq rfl rfl rfl rfl
  · rename_i raw hraw
    have hstored :
      Follows p [] { p with transformWrite := (p.transform p.transformWrite v now).2 } :=
      .of_eq rfl rfl rfl rfl
    exact hstored.trans (enqueueWrite_follows (.inl (transform_hasType hraw)))

theorem evaluate_follows (p : Port) (c : EvalContext) (t : Ticket) (now : Int) :
    Follows p cs (p.evaluate c t now).2 := by
  unfold evaluate
  split
  · rename_i e _ _
    have hstored : Follows p [] { p with expression := some (e.eval (c.forPort p.id p.zone)).2 } :=
      .of_eq rfl rfl rfl rfl
    dsimp only
    split
    · exact .of_eq rfl rfl rfl rfl
    · split
      · exact .of_eq rfl rfl rfl rfl
      · exact hstored.trans (submit_follows ..)
  · exact .refl p

theorem carryOut_follows (p : Port) :
    Follows p (p.writes.current.toList.map fun r => .handed r.value (some r.ticket))
      p.carryOut.2 := by
  unfold Port.carryOut
  split
  · exact .refl p
  · rename_i r hr
    refine ⟨rfl, Device.write_type .., fun _ hv => .inl hv,
      fun s hs => .inl (WritePipe.holds_of_finish hs), fun v hv => ?_⟩
    rcases Device.mem_record_write hv with hold | rfl
    · exact .inl hold
    · exact .inr ⟨some r.ticket, by simp [hr]⟩

theorem restore_follows (p : Port) (v : Value) :
    Follows p (if p.writable then [.handed (p.domain.adapt v) none] else []) (p.restore v) := by
  have hfits : Domain.HasType p.type (p.domain.adapt v) := p.domain.adapt_hasType v
  have hshown {cs : List Contact} : ∀ w, some (p.domain.adapt v) = some w →
      p.lastRead = some w ∨ Domain.HasType p.type w ∨ .taken w ∈ cs := by
    intro w hw
    cases hw
    exact .inr (.inl hfits)
  unfold Port.restore
  dsimp only
  cases p.writable with
  | false => exact ⟨rfl, rfl, hshown, fun _ hr => .inl hr, fun _ hw => .inl hw⟩
  | true =>
    have hrecord : ∀ w ∈ (p.device.write (p.domain.adapt v)).2.record,
        w ∈ p.device.record ∨ ∃ t, .handed w t ∈ [Contact.handed (p.domain.adapt v) none] := by
      intro w hw
      rcases Device.mem_record_write hw with hold | rfl
      · exact .inl hold
      · exact .inr ⟨none, List.mem_singleton_self _⟩
    rw [if_pos rfl, if_pos rfl]
    split
    · exact ⟨rfl, Device.write_type .., hshown, fun _ hr => .inl hr, hrecord⟩
    · exact ⟨rfl, Device.write_type .., fun _ hw => .inl hw, fun _ hr => .inl hr, hrecord⟩

/-! ### Runs -/

theorem Step.follows (h : Step p cs q) : Follows p cs q := by
  cases h with
  | takeWrite h =>
    obtain ⟨⟨r, w⟩, htake, rfl⟩ := Option.map_eq_some_iff.mp h
    exact ⟨rfl, rfl, fun _ hv => .inl hv, fun s hs => .inl (WritePipe.holds_of_take htake hs),
      fun _ hv => .inl hv⟩
  | carryOut => exact carryOut_follows p
  | evaluate h t now =>
    obtain ⟨⟨_, evals⟩, -, heq⟩ := Option.map_eq_some_iff.mp h
    cases heq
    have htaken : Follows p [] { p with evals := evals, evalPending := false } :=
      .of_eq rfl rfl rfl rfl
    exact htaken.trans (evaluate_follows ..)
  | sequence => exact .of_eq rfl rfl rfl rfl
  | submit v t now => exact submit_follows p v t now
  | enqueueWrite v t => exact enqueueWrite_follows (.inr (List.mem_singleton_self _))
  | upkeep h => exact .of_kept h.setup.key h.device.kept h.lastRead (by rw [h.frame])
  | take v =>
    refine ⟨rfl, rfl, fun w hw => ?_, fun _ hr => .inl hr, fun _ hw => .inl hw⟩
    cases hw
    exact .inr (.inr (List.mem_singleton_self _))
  | enqueueEval c =>
    unfold Port.enqueueEval
    split
    · exact .refl p
    · split <;> exact .of_eq rfl rfl rfl rfl
  | setAttr g name value => exact .of_switched (setAttr_switched ..) (setAttr_kept ..)
  | loadAttrs g record => exact .of_switched (loadAttrs_switched ..) (loadAttrs_kept ..)
  | restore v => exact restore_follows p v
  | halt =>
    exact ⟨rfl, rfl, fun _ hv => .inl hv, fun r hr => .inl (WritePipe.holds_of_close hr),
      fun _ hv => .inl hv⟩
  | clearPending =>
    exact ⟨rfl, rfl, fun _ hv => .inl hv, fun _ hr => .inl hr, fun _ hv => .inl hv⟩
  | change h => exact .of_kept rfl h rfl rfl

/-- A port after any steps, and its contacts in order. -/
inductive Lives (p : Port) : List Contact → Port → Prop
  | refl : Lives p [] p
  | tail {q r : Port} {log cs : List Contact} (h : Lives p log q) (hs : Step q cs r) :
      Lives p (log ++ cs) r

namespace Lives

theorem single (h : Step p cs q) : Lives p cs q := .tail .refl h

theorem trans {log' : List Contact} (h : Lives p log q) (h' : Lives q log' r) :
    Lives p (log ++ log') r := by
  induction h' with
  | refl => rwa [List.append_nil]
  | tail _ hs ih =>
    rw [← List.append_assoc]
    exact ih.tail hs

theorem follows (h : Lives p log q) : Follows p log q := by
  induction h with
  | refl => exact .refl _
  | tail _ hs ih => exact ih.trans hs.follows

end Lives

/-! ### Types -/

/-- The value of the port and the values that are going to be written have its type, unless they
were queued as they are. -/
structure Typed (raw : WriteRequest → Prop) (p : Port) : Prop where
  value : ∀ v, p.lastRead = some v → Domain.HasType p.type v
  requests : ∀ r, p.writes.Holds r → Domain.HasType p.type r.value ∨ raw r

variable {raw : WriteRequest → Prop} {known : String → Value → Prop}

theorem typed_create (key : PortKey) (device : Device) (isVirtual : Bool) (capacity : Nat)
    (zone : Zone) :
    (create key device isVirtual capacity zone).Typed raw := by
  refine ⟨nofun, fun r hr => ?_⟩
  rcases hr with hwaits | hcurrent
  · cases hwaits
  · cases hcurrent

theorem Follows.typed (h : Follows p cs q) (hp : p.Typed raw)
    (hcs : ∀ c ∈ cs, c.isHandover = false → c.Fits raw known p.type) : q.Typed raw := by
  constructor
  · intro v hv
    rw [h.type]
    rcases h.value v hv with hold | htype | htaken
    · exact hp.value v hold
    · exact htype
    · exact hcs _ htaken rfl
  · intro r hr
    rw [h.type]
    rcases h.requests r hr with hold | htype | hqueued
    · exact hp.requests r hold
    · exact .inl htype
    · exact .inr (hcs _ hqueued rfl)

/-- What a port hands to its device in one step is what it was going to write, or a stored value
that has been made to fit. -/
theorem Step.fits (h : Step p cs q) (hp : p.Typed raw)
    (hcs : ∀ c ∈ cs, c.isHandover = false → c.Fits raw known p.type) :
    ∀ c ∈ cs, c.Fits raw known p.type := by
  intro c hc
  cases hhanded : c.isHandover with
  | false => exact hcs c hc hhanded
  | true =>
    cases h with
    | carryOut =>
      obtain ⟨r, hr, rfl⟩ := List.mem_map.mp hc
      rcases hp.requests r (.inr (Option.mem_toList.mp hr)) with htype | hraw
      · exact .inl htype
      · exact .inr ⟨r.ticket, rfl, hraw⟩
    | restore v =>
      split at hc
      · cases List.mem_singleton.mp hc
        exact .inl (p.domain.adapt_hasType v)
      · cases hc
    | enqueueWrite | take | enqueueEval =>
      cases List.mem_singleton.mp hc
      cases hhanded
    | _ => cases hc

theorem Lives.fits (h : Lives p log q) (hp : p.Typed raw)
    (hlog : ∀ c ∈ log, c.isHandover = false → c.Fits raw known p.type) :
    q.Typed raw ∧ ∀ c ∈ log, c.Fits raw known p.type := by
  induction h with
  | refl => exact ⟨hp, nofun⟩
  | @tail q r log cs h hs ih =>
    obtain ⟨hq, hfits⟩ := ih fun c hc => hlog c (List.mem_append_left _ hc)
    have htype := h.follows.type
    have hcs : ∀ c ∈ cs, c.isHandover = false → c.Fits raw known q.type := fun c hc => by
      rw [htype]
      exact hlog c (List.mem_append_right _ hc)
    refine ⟨hs.follows.typed hq hcs, fun c hc => ?_⟩
    rcases List.mem_append.mp hc with hold | hnew
    · exact hfits c hold
    · exact htype ▸ hs.fits hq hcs c hnew

/-! ### Ports that are left alone -/

/-- Nothing but what the port has handed to its device has passed. -/
def Alone (p q : Port) : Prop := ∃ log, Lives p log q ∧ ∀ c ∈ log, c.isHandover = true

namespace Alone

theorem refl (p : Port) : Alone p p := ⟨[], .refl, nofun⟩

theorem trans (h : Alone p q) (h' : Alone q r) : Alone p r := by
  obtain ⟨log, hlog, hout⟩ := h
  obtain ⟨log', hlog', hout'⟩ := h'
  exact ⟨log ++ log', hlog.trans hlog', List.forall_mem_append.mpr ⟨hout, hout'⟩⟩

theorem of_silent (h : Step p [] q) : Alone p q := ⟨[], .single h, nofun⟩

theorem restore (p : Port) (v : Value) : Alone p (p.restore v) := by
  refine ⟨_, .single (.restore v), fun c hc => ?_⟩
  split at hc
  · cases List.mem_singleton.mp hc
    rfl
  · cases hc

theorem setSequence (p : Port) (s : Option Sequence) : Alone p (p.setSequence s).2 := by
  unfold Port.setSequence
  dsimp only
  repeat' split
  all_goals exact of_silent (.sequence _ _)

end Alone

theorem Work.alone (h : Work p q) : Alone p q := by
  cases h with
  | takeWrite h => exact .of_silent (.takeWrite h)
  | carryOut =>
    refine ⟨_, .single .carryOut, fun c hc => ?_⟩
    obtain ⟨r, -, rfl⟩ := List.mem_map.mp hc
    rfl
  | evaluate h t now => exact .of_silent (.evaluate h t now)
  | endSequence => exact .of_silent (.sequence none p.nextSequence)
  | stepSequence _ next v t now =>
    have hnext : Alone p { p with sequence := some next } :=
      .of_silent (.sequence (some next) p.nextSequence)
    exact hnext.trans (.of_silent (.submit v t now))

theorem Moves.alone (h : Moves p q) : Alone p q := by
  induction h with
  | refl => exact .refl p
  | tail _ hstep ih =>
    cases hstep with
    | work hwork => exact ih.trans hwork.alone
    | upkeep hkept => exact ih.trans (.of_silent (.upkeep hkept))

end Port

end ControlNode
