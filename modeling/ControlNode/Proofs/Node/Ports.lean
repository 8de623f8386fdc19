import ControlNode.Node.Basic
import ControlNode.Proofs.Dict
import ControlNode.Proofs.Expr.LoopSearch
import ControlNode.Proofs.Port.Moves
import Mathlib.Data.Option.Basic

/-!
# Ports of nodes

The laws of looking up and changing ports, and the relation `PortsRel R` between two nodes with
the same registry whose ports are related by `R` one by one.
-/

namespace ControlNode.Node

variable {n m : Node} {R S T : Port → Port → Prop}

/-! ### Lookup and change -/

def keyAt (n : Node) (id : String) : Option PortKey := (n.port? id).map Port.key

theorem keyAt_putPort (n : Node) (p : Port) (id : String) :
    (n.putPort p).keyAt id = n.keyAt id := by
  unfold putPort
  split
  · rename_i h
    obtain ⟨q, hq, hkey⟩ := (Option.any_eq_true ..).mp h
    simp only [decide_eq_true_eq] at hkey
    unfold keyAt port?
    rw [Dict.get?_insert]
    split
    · rename_i hid
      subst hid
      rw [port?] at hq
      rw [hq]
      exact congrArg some hkey.symm
    · rfl
  · rfl

theorem portOf?_of_port? {id : String} {p : Port} (h : n.port? id = some p) (hid : p.id = id) :
    n.portOf? p.key = some p := by
  have hp : n.port? p.key.id = some p := by rw [← h, ← hid]; rfl
  simp only [portOf?, hp, if_true]

theorem key_of_portOf? {key : PortKey} {p : Port} (h : n.portOf? key = some p) :
    p.key = key := by
  unfold portOf? at h
  split at h
  · split at h
    · rename_i hkey
      cases h
      exact hkey
    · simpa using List.find?_some h
  · simpa using List.find?_some h

theorem find?_replace (ps : List Port) (p : Port) (key : PortKey) :
    (ps.map fun q => if q.key = p.key then p else q).find? (fun q => q.key = key) =
      if key = p.key then (ps.find? fun q => q.key = key).map fun _ => p
      else ps.find? fun q => q.key = key := by
  induction ps with
  | nil => simp
  | cons q qs ih =>
    by_cases hqp : q.key = p.key
    · by_cases hk : key = p.key
      · simp [hqp, hk]
      · have hpk : ¬p.key = key := fun h => hk h.symm
        simpa [hqp, hk, hpk] using ih
    · by_cases hqk : q.key = key
      · have hk : ¬key = p.key := fun h => hqp (hqk.trans h)
        simp [hqk, hk]
      · simpa [hqp, hqk] using ih

theorem portOf?_putPort (n : Node) (p : Port) (key : PortKey) :
    (n.putPort p).portOf? key =
      if key = p.key then (n.portOf? key).map fun _ => p else n.portOf? key := by
  unfold putPort
  split
  · rename_i h
    obtain ⟨q, hq, hkey⟩ := (Option.any_eq_true ..).mp h
    simp only [decide_eq_true_eq] at hkey
    by_cases hk : key = p.key
    · subst hk
      have hput : Dict.get? (Dict.insert n.ports p.id p) p.key.id = some p := by
        rw [Dict.get?_insert]
        exact if_pos rfl
      have hold : n.port? p.key.id = some q := hq
      simp only [portOf?, port?] at hold ⊢
      simp [hput, hold, hkey]
    · rw [if_neg hk]
      unfold portOf? port?
      simp only [Dict.get?_insert]
      by_cases hid : p.id = key.id
      · rw [if_pos hid, ← hid]
        have hold : Dict.get? n.ports p.id = some q := hq
        have hpk : ¬p.key = key := fun h => hk h.symm
        have hqk : ¬q.key = key := fun h => hpk (hkey ▸ h)
        simp only [hold, if_neg hpk, if_neg hqk]
      · rw [if_neg hid]
  -- the port is not registered any more
  · rename_i h
    unfold portOf?
    simp only [find?_replace]
    cases hq : n.port? key.id with
    | none =>
      have hq' : Dict.get? n.ports key.id = none := hq
      simp only [port?, hq']
    | some q =>
      have hq' : Dict.get? n.ports key.id = some q := hq
      simp only [port?, hq']
      by_cases hqk : q.key = key
      · have hk : ¬key = p.key := by
          rintro rfl
          apply h
          have hport : n.port? p.id = some q := hq
          simp [hport, hqk]
        simp only [if_pos hqk, if_neg hk]
      · simp only [if_neg hqk]

theorem sorted_putPort (n : Node) (p : Port) (h : Dict.Sorted n.ports) :
    Dict.Sorted (n.putPort p).ports := by
  unfold putPort
  split
  · exact Dict.sorted_insert p.id p h
  · exact h

theorem putPort_frame (n : Node) (p : Port) :
    n.putPort p = { n with ports := (n.putPort p).ports, gone := (n.putPort p).gone } := by
  unfold putPort
  split <;> rfl

/-! ### Nodes with related ports -/

/-- The same keys are registered, and the ports of each key are related. -/
structure PortsRel (R : Port → Port → Prop) (n m : Node) : Prop where
  keys : ∀ id, m.keyAt id = n.keyAt id
  ports : ∀ key, Option.Rel R (n.portOf? key) (m.portOf? key)
  sorted : Dict.Sorted n.ports → Dict.Sorted m.ports

namespace PortsRel

theorem refl (hR : ∀ p, R p p) (n : Node) : PortsRel R n n := by
  refine ⟨fun _ => rfl, ?_, id⟩
  intro key
  cases n.portOf? key with
  | none => exact .none
  | some p => exact .some (hR p)

theorem trans {k : Node} (hRST : ∀ p q r, R p q → S q r → T p r) (h : PortsRel R n m)
    (h' : PortsRel S m k) : PortsRel T n k := by
  refine ⟨fun id => (h'.keys id).trans (h.keys id), ?_, fun hs => h'.sorted (h.sorted hs)⟩
  intro key
  have h₁ := h.ports key
  have h₂ := h'.ports key
  revert h₁ h₂
  generalize n.portOf? key = a
  generalize m.portOf? key = b
  generalize k.portOf? key = c
  intro h₁ h₂
  cases h₁ with
  | none =>
    cases h₂
    exact .none
  | some hab =>
    cases h₂ with
    | some hbc => exact .some (hRST _ _ _ hab hbc)

theorem mono (hRS : ∀ p q, R p q → S p q) (h : PortsRel R n m) : PortsRel S n m := by
  refine ⟨h.keys, ?_, h.sorted⟩
  intro key
  have hkey := h.ports key
  revert hkey
  generalize n.portOf? key = a
  generalize m.portOf? key = b
  intro hkey
  cases hkey with
  | none => exact .none
  | some hab => exact .some (hRS _ _ hab)

theorem putPort {p : Port} (hR : ∀ q, q.key ≠ p.key → R q q)
    (h : ∀ q, n.portOf? p.key = some q → R q p) : PortsRel R n (n.putPort p) := by
  refine ⟨keyAt_putPort n p, ?_, sorted_putPort n p⟩
  intro key
  rw [portOf?_putPort]
  split
  · rename_i hk
    subst hk
    cases hq : n.portOf? p.key with
    | none => exact .none
    | some q => exact .some (h q hq)
  · rename_i hk
    cases hq : n.portOf? key with
    | none => exact .none
    | some q => exact .some (hR q (by rw [key_of_portOf? hq]; exact hk))

theorem exists_of_portOf? (h : PortsRel R n m) {key : PortKey} {p : Port}
    (hp : n.portOf? key = some p) : ∃ q, m.portOf? key = some q ∧ R p q := by
  have hkey := h.ports key
  rw [hp] at hkey
  cases hq : m.portOf? key with
  | none =>
    rw [hq] at hkey
    cases hkey
  | some q =>
    rw [hq] at hkey
    cases hkey with
    | some hpq => exact ⟨q, rfl, hpq⟩

theorem exists_of_port? (h : PortsRel R n m) {id : String} {p : Port}
    (hp : n.port? id = some p) (hid : p.id = id) :
    ∃ q, m.port? id = some q ∧ q.key = p.key ∧ R p q := by
  have hkeys := h.keys id
  unfold keyAt at hkeys
  rw [hp] at hkeys
  obtain ⟨q, hq, hqp⟩ := Option.map_eq_some_iff.mp hkeys
  have hqid : q.id = id := by rw [Port.id, hqp]; exact hid
  obtain ⟨q', hq', hR⟩ := h.exists_of_portOf? (portOf?_of_port? hp hid)
  have hof := portOf?_of_port? hq hqid
  rw [hqp, hq'] at hof
  cases hof
  exact ⟨_, hq, hqp, hR⟩

theorem port?_eq_none (h : PortsRel R n m) {id : String} (hp : n.port? id = none) :
    m.port? id = none := by
  have hkeys := h.keys id
  unfold keyAt at hkeys
  rw [hp] at hkeys
  exact Option.map_eq_none_iff.mp hkeys

end PortsRel

theorem PortsRel.congr {m' : Node} (h : PortsRel R n m) (hports : m'.ports = m.ports)
    (hgone : m'.gone = m.gone) : PortsRel R n m' := by
  have hport (id : String) : m'.port? id = m.port? id := by rw [port?, port?, hports]
  have hportOf (key : PortKey) : m'.portOf? key = m.portOf? key := by
    simp only [portOf?, hport, hgone]
  refine ⟨?_, ?_, ?_⟩
  · intro id
    rw [← h.keys id, keyAt, keyAt, hport]
  · intro key
    rw [hportOf]
    exact h.ports key
  · intro hs
    rw [hports]
    exact h.sorted hs

/-! ### Changes beside configuration -/

/-- Only the ports, as `R` says, and what belongs to tasks and storage has changed. -/
structure Evolves (R : Port → Port → Prop) (n m : Node) : Prop where
  ports : PortsRel R n m
  rest : m = { n with
    ports := m.ports
    gone := m.gone
    backend := m.backend
    storageBusy := m.storageBusy
    results := m.results
    nextTicket := m.nextTicket
    agenda := m.agenda }

namespace Evolves

theorem refl (hR : ∀ p, R p p) (n : Node) : Evolves R n n := ⟨.refl hR n, rfl⟩

theorem trans {k : Node} (hR : ∀ p q r, R p q → R q r → R p r) (h : Evolves R n m)
    (h' : Evolves R m k) : Evolves R n k := by
  refine ⟨h.ports.trans hR h'.ports, ?_⟩
  have hm := h.rest
  have hk := h'.rest
  rw [hm] at hk
  exact hk

theorem mono (hRS : ∀ p q, R p q → S p q) (h : Evolves R n m) : Evolves S n m :=
  ⟨h.ports.mono hRS, h.rest⟩

theorem putPort (hR : ∀ p, R p p) {p : Port}
    (h : ∀ q, n.portOf? p.key = some q → R q p) : Evolves R n (n.putPort p) := by
  refine ⟨.putPort (fun q _ => hR q) h, ?_⟩
  rw [putPort_frame]

/-- Of two ports that are put in place of `p` one after the other the last one counts. -/
theorem replace (hR : ∀ p, R p p) {p q r : Port} (hp : n.portOf? p.key = some p)
    (hq : q.key = p.key) (hr : r.key = p.key) (h : R p r) (t : Ticket) :
    Evolves R n ({ n.putPort q with nextTicket := t }.putPort r) := by
  have hsame (key : PortKey) :
      { n.putPort q with nextTicket := t }.portOf? key = (n.putPort q).portOf? key := rfl
  refine ⟨⟨?_, ?_, ?_⟩, ?_⟩
  · intro id
    rw [keyAt_putPort]
    exact keyAt_putPort n q id
  · intro key
    rw [portOf?_putPort, hsame, portOf?_putPort, hq, hr]
    split
    · rename_i hk
      rw [hk, hp]
      exact .some h
    · exact (PortsRel.refl hR n).ports key
  · intro hs
    exact sorted_putPort _ _ (sorted_putPort n q hs)
  · rw [putPort_frame, putPort_frame n q]

/-- Tasks and storage may change by themselves. -/
theorem beside {m' : Node} (h : Evolves R n m) (hports : m'.ports = m.ports)
    (hgone : m'.gone = m.gone) (hrest : m' = { m with
      backend := m'.backend
      storageBusy := m'.storageBusy
      results := m'.results
      nextTicket := m'.nextTicket
      agenda := m'.agenda }) : Evolves R n m' := by
  refine ⟨h.ports.congr hports hgone, ?_⟩
  have hm := h.rest
  rw [hrest, hm]

theorem services (h : Evolves R n m) : m.services = n.services := by rw [h.rest]

end Evolves

/-! ### Graphs -/

theorem graph_get? (h : Dict.Sorted n.ports) (id : String) :
    n.graph.get? id = (n.port? id).bind Port.deps? :=
  Dict.get?_filterMap h Port.deps? id

end ControlNode.Node
