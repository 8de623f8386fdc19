import ControlNode.Proofs.Node.Invariants
import ControlNode.Proofs.Port.Caches

/-!
# Caches of the ports of a node

As long as the attributes of devices change through their ports only, no one can tell that ports
remember attributes that have been looked up (`after_answersFreshly`). Whatever is done to a node,
the caches of its ports stay faithful (`Transparent`).
-/

namespace ControlNode.Node

open Port

variable {n m : Node} {key : PortKey} {p q : Port}

/-- No service runs, and the caches of all ports, registered or gone, say what would be found. -/
structure Transparent (n : Node) : Prop where
  services : n.services = []
  ports : ∀ key p, n.portOf? key = some p → p.Faithful

theorem use_of_handling (h : Handling p q) : Use p q := by
  cases h with
  | evaluate h t now => exact .work (.evaluate h t now)
  | cancelSequence => exact .work (.endSequence p)
  | stepSequence h next v t now => exact .work (.stepSequence p h next v t now)
  | submit v t now => exact .submit v t now
  | enqueueWrite v t => exact .enqueueWrite v t
  | enqueueEval c => exact .enqueueEval c
  | readValue now => exact .readValue now
  | beat => exact .beat
  | take v dirty => exact .take v dirty
  | mark dirty => exact .mark dirty
  | sample now => exact .sample now
  | dropAttrCache => exact .dropAttrCache
  | getAttr name => exact .getAttr name
  | attrsJson => exact .attrsJson
  | setAttr g name value => exact .setAttr g name value
  | loadAttrs g record => exact .loadAttrs g record
  | restore v => exact .restore v
  | halt => exact .halt
  | clearPending => exact .clearPending

theorem faithful_invariant : Invariant fun p _ => p.Faithful where
  create _ _ _ _ _ _ := .of_empty rfl
  handling h hq := h.use (use_of_handling hq)
  writer h hstep := by
    cases hstep with
    | takes _ htake => exact h.use (.work (.takeWrite htake))
    | begins => exact h
    | finishes => exact h.use (.work (.carryOut _))

theorem transparent_create (config : NodeConfig) (backend : Backend) (wall : Int) (zone : Zone) :
    (create config backend wall zone).Transparent :=
  have h := maintains_create faithful_invariant config backend wall zone
  ⟨h.services, h.ports⟩

theorem Transparent.maintains (h : n.Transparent) : n.Maintains fun p _ => p.Faithful :=
  ⟨faithful_invariant, h.services, h.ports⟩

/-! ### Histories -/

/-- The attributes of devices change through their ports only. -/
def SparesAttrs (n : Node) : Operation → Prop
  | .device key value failReads failures => ∀ p, n.portOf? key = some p →
    (p.device.change value failReads failures).getAttr = p.device.getAttr
  | _ => True

/-- So it is with all operations of a history, where they come. -/
def AttrsThroughPorts (n : Node) : List Operation → Prop
  | [] => True
  | op :: ops => n.SparesAttrs op ∧ (n.perform op).AttrsThroughPorts ops

theorem Transparent.perform (h : n.Transparent) (hf : Filed n) {op : Operation}
    (hop : n.SparesAttrs op) : (n.perform op).Transparent := by
  have hrespects : n.Respects (fun p _ => p.Faithful) op := by
    cases op with
    | setSequence key s => exact fun p hp => (h.ports key p hp).use (.setSequence s)
    | device key value failReads failures =>
      exact fun p hp => (h.ports key p hp).use (.change (change_sameAttrs (hop p hp)))
    | _ => trivial
  have hkept := h.maintains.perform hf hrespects
  exact ⟨hkept.services, hkept.ports⟩

theorem Transparent.after {ops : List Operation} (h : n.Transparent) (hs : Sound n)
    (hops : n.AttrsThroughPorts ops) : (n.after ops).Transparent := by
  induction ops generalizing n with
  | nil => exact h
  | cons op ops ih => exact ih (h.perform hs.filed hops.1) (perform_sound hs op) hops.2

/-- What callers find out about attributes of ports, registered or gone: an answer is what it would
be without the cache, and a change of an attribute that goes through is seen in no other one. -/
structure AnswersFreshly (n : Node) : Prop where
  asked : ∀ key p, n.portOf? key = some p → ∀ name,
    (p.getAttr name).1 = (p.dropAttrCache.getAttr name).1
  changed : ∀ key p, n.portOf? key = some p → ∀ g name value,
    (p.setAttr g name value).result = .ok () → ∀ other, other ≠ name →
      ((p.setAttr g name value).port.getAttr other).1 = (p.getAttr other).1
  set : ∀ id name value, (n.setAttr id name value).1 = .ok () →
    ∃ p q, n.port? id = some p ∧ (n.setAttr id name value).2.port? id = some q ∧
      ∀ other, other ≠ name → (q.getAttr other).1 = (p.getAttr other).1

theorem publishUpdate_port? (hs : n.services = []) (hp : n.port? p.id = some p) :
    (n.publishUpdate p).port? p.id = some p.attrsJson.2 := by
  have hkey : p.attrsJson.2.key = p.key := by rw [attrsJson_frame]
  have hserv : (n.putPort p.attrsJson.2).services = [] := by
    rw [putPort_frame]
    exact hs
  unfold publishUpdate
  dsimp only
  rw [publish_eq hserv]
  exact (port?_putPort hp hkey p.id).trans (if_pos (congrArg PortKey.id hkey))

/-- A change of an attribute that goes through is one to a port, announced with its attributes. -/
theorem setAttr_port? (hs : n.services = []) (hf : Filed n) {id name : String} {value : Json}
    (hdone : (n.setAttr id name value).1 = .ok ()) :
    ∃ p, n.port? id = some p ∧ (p.setAttr n.graph name value).result = .ok () ∧
      (n.setAttr id name value).2.port? id =
        some (p.setAttr n.graph name value).port.attrsJson.2 := by
  unfold Node.setAttr at hdone ⊢
  split
  · rename_i hnone
    rw [hnone] at hdone
    cases hdone
  · rename_i p hp
    rw [hp] at hdone
    dsimp only at hdone ⊢
    cases hresult : (p.setAttr n.graph name value).result with
    | error e =>
      rw [hresult] at hdone
      cases hdone
    | ok =>
      obtain ⟨r, hr⟩ : ∃ r, r = (p.setAttr n.graph name value).port := ⟨_, rfl⟩
      have hkey : r.key = p.key := hr ▸ (setAttr_switched p n.graph name value).key
      have hid : r.id = id := (congrArg PortKey.id hkey).trans (hf.ids id p hp)
      have hput : (n.putPort r).port? r.id = some r := by
        rw [port?_putPort (by rwa [hf.ids id p hp]) hkey, if_pos rfl]
      have hserv : (n.putPort r).services = [] := by
        rw [putPort_frame]
        exact hs
      refine ⟨p, hp, hresult, ?_⟩
      dsimp only
      rw [← hr, ← hid]
      split
      · refine publishUpdate_port? ?_ ?_
        · rw [forceEval_frame]
          exact hserv
        · rw [forceEval_frame]
          exact hput
      · exact publishUpdate_port? hserv hput

/-- As long as the attributes of devices change through their ports only, whatever is done to a
node, no one can tell what its ports remember of attributes. -/
theorem after_answersFreshly (config : NodeConfig) (backend : Backend) (wall : Int) (zone : Zone)
    {ops : List Operation} (hops : (create config backend wall zone).AttrsThroughPorts ops) :
    ((create config backend wall zone).after ops).AnswersFreshly := by
  have hsound := sound_create config backend wall zone
  have h := (transparent_create config backend wall zone).after hsound hops
  have hfiled := (after_sound hsound ops).filed
  constructor
  · intro key p hp name
    have hempty : p.dropAttrCache.Faithful := .of_empty rfl
    rw [(h.ports key p hp).getAttr_fst, hempty.getAttr_fst]
    rfl
  · intro key p hp g name value hdone other hne
    exact (h.ports key p hp).setAttr_getAttr_of_ne hdone hne
  · intro id name value hdone
    obtain ⟨p, hp, hresult, hq⟩ := setAttr_port? h.services hfiled hdone
    have hport := h.ports p.key p (portOf?_of_port? hp (hfiled.ids id p hp))
    have hchanged := hport.setAttr ((create config backend wall zone).after ops).graph name value
    refine ⟨p, _, hp, hq, fun other hne => ?_⟩
    rw [hchanged.attrsJson.getAttr_fst, (attrsJson_sameRecord _).lookUp, ← hchanged.getAttr_fst]
    exact hport.setAttr_getAttr_of_ne hresult hne

theorem change_getAttr {d : Device} {value : Option Value} {failReads : Bool}
    {failures : List (DeviceCall × PortError)}
    (h : d.getAttr "fail_reads" = some (.bool failReads)) :
    (d.change value failReads failures).getAttr = d.getAttr := by
  cases d with
  | memory m =>
    obtain rfl : m.failReads = failReads := by simpa [Device.getAttr] using h
    rfl
  | _ => rfl

/-- An attribute of a device is looked up before and after a change of it, while the device gets
another value and a tick comes by. -/
def lookedUp : List Operation := [
  .add "tank" (.memory { type := .number, value := some (.num 3) }),
  .getAttr ⟨"tank", 0⟩ "fail_reads",
  .setAttr "tank" "fail_reads" (.bool true),
  .getAttr ⟨"tank", 0⟩ "fail_reads",
  .device ⟨"tank", 0⟩ (some (.num 4)) true [],
  .update 1000]

theorem after_answersFreshly_lookedUp :
    (create {} (.recordsOnly true {}) 0).AttrsThroughPorts lookedUp ∧
      ((create {} (.recordsOnly true {}) 0).after lookedUp).AnswersFreshly := by
  have hswitch : (((create {} (.recordsOnly true {}) 0).after (lookedUp.take 4)).portOf?
      ⟨"tank", 0⟩).bind (fun p => (p.device.getAttr "fail_reads").bind Json.asBool?) =
        some true := by decide +kernel
  have hops : (create {} (.recordsOnly true {}) 0).AttrsThroughPorts lookedUp := by
    refine ⟨trivial, trivial, trivial, trivial, fun p hp => ?_, trivial, trivial⟩
    obtain ⟨q, hq, hbool⟩ := Option.bind_eq_some_iff.mp hswitch
    obtain rfl : q = p := Option.some.inj (hq.symm.trans hp)
    obtain ⟨j, hj, htrue⟩ := Option.bind_eq_some_iff.mp hbool
    cases j with
    | bool b =>
      obtain rfl : b = true := Option.some.inj htrue
      exact change_getAttr hj
    | _ => cases htrue
  exact ⟨hops, after_answersFreshly {} (.recordsOnly true {}) 0 .utc hops⟩

end ControlNode.Node
