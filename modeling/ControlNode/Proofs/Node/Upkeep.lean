import ControlNode.Node.Storage
import ControlNode.Proofs.Node.Ports

/-!
# Upkeep by ticks and saves

Storing ports and samples, heart beats and reads leave everything about a node but the upkeep
of its ports and its storage (`Tended`).
-/

namespace ControlNode.Node

open Port

/-- Ports have been looked after; no task has moved. -/
structure Tended (n m : Node) : Prop where
  evolves : Evolves Upkeep n m
  agenda : m.agenda = n.agenda

variable {n m : Node}

namespace Tended

theorem refl (n : Node) : Tended n n := ⟨.refl Upkeep.refl n, rfl⟩

theorem trans {k : Node} (h : Tended n m) (h' : Tended m k) : Tended n k :=
  ⟨h.evolves.trans (fun _ _ _ => Upkeep.trans) h'.evolves, h'.agenda.trans h.agenda⟩

theorem putPort {p q : Port} (hq : n.portOf? p.key = some q) (h : Upkeep q p) :
    Tended n (n.putPort p) := by
  refine ⟨.putPort Upkeep.refl ?_, by rw [putPort_frame]⟩
  intro r hr
  rw [hq] at hr
  cases hr
  exact h

theorem update {key : PortKey} {p : Port} (hp : n.portOf? key = some p) {q : Port}
    (h : Upkeep p q) : Tended n (n.putPort q) := by
  have hkey : q.key = key := h.setup.key.trans (key_of_portOf? hp)
  exact .putPort (by rw [hkey]; exact hp) h

end Tended

theorem foldl_tended {α : Type} {f : Node → α → Node} (hf : ∀ n a, Tended n (f n a))
    (as : List α) : Tended n (as.foldl f n) := by
  induction as generalizing n with
  | nil => exact .refl n
  | cons a as ih => exact (hf n a).trans ih

/-! ### Storage -/

theorem access_tended {α : Type} (writes : Bool) (op : Backend.Outcome α) :
    Tended n (n.access writes op).2 :=
  ⟨(Evolves.refl Upkeep.refl n).beside rfl rfl rfl, rfl⟩

theorem savePort_tended (force : Bool) (key : PortKey) : Tended n (savePort force n key).2 := by
  unfold savePort
  split
  · exact .refl n
  · rename_i p hp
    split
    · have hclean : Tended n (n.putPort { p with dirty := false }) :=
        .update hp ⟨rfl, .same _, rfl⟩
      have hstored := hclean.trans (access_tended true
        ((n.putPort { p with dirty := false }).backend.replace portsCollection p.id
          (toRecord { p with dirty := false })))
      dsimp only
      split
      · exact hstored
      · dsimp only
        split
        · rename_i q hq
          exact hstored.trans (.update hq ⟨rfl, .same _, rfl⟩)
        · exact hstored
    · exact .refl n

/-! ### Samples -/

theorem pruneHistory_tended (p : Port) (now : Int) : Tended n (n.pruneHistory p now) := by
  unfold pruneHistory
  split
  · exact access_tended ..
  · exact .refl n

theorem saveHistory_tended (key : PortKey) (v : Value) (now : Int) :
    Tended n (n.saveHistory key v now) := by
  unfold saveHistory
  split
  · exact .refl n
  · rename_i p hp
    split
    · have hstored : Tended n (n.access true
          (n.backend.saveSample historyCollection p.id ⟨now, v.toJson⟩)).2 := access_tended ..
      dsimp only
      split
      · exact hstored
      · have hnoted (m : Node) (hm : m.portOf? key = some p) :
            Tended m (m.putPort { p with historyLast := now, dirty := true }) :=
          .update hm ⟨rfl, .same _, rfl⟩
        exact (hstored.trans (hnoted _ hp)).trans (pruneHistory_tended ..)
    · exact .refl n

theorem sampleIfDue_tended (now : Int) (key : PortKey) :
    Tended n (sampleIfDue now n key) := by
  unfold sampleIfDue
  split
  · exact .refl n
  · split
    · split
      · exact saveHistory_tended ..
      · exact .refl n
    · exact .refl n

/-! ### Heart beats and caches -/

theorem beat_tended (key : PortKey) : Tended n (n.beat key) := by
  unfold beat
  split
  · exact .refl n
  · rename_i p hp
    exact .update hp ⟨rfl, Device.beat_touched _, rfl⟩

/-! ### Reads -/

theorem readPort_tended (key : PortKey) : Tended n (n.readPort key).2 := by
  unfold readPort
  split
  · exact .refl n
  · rename_i p hp
    exact .update hp (readValue_upkeep p n.wall)

end ControlNode.Node
