import ControlNode.Proofs.Node.Histories
import Mathlib.Order.Bounds.Basic
import Mathlib.Order.ConditionallyCompleteLattice.Basic
import Mathlib.Order.Lattice.Nat

/-!
# Chains of expressions

Expressions that depend on each other one after the other. Without circles and references of ports
to themselves a chain passes no port twice, so that there is a longest one (`exists_longest`).
-/

namespace ControlNode.Node

open Relation Port

variable {n m : Node}

def HasExpression (n : Node) (id : String) : Prop :=
  ∃ p, n.port? id = some p ∧ p.expression.isSome

/-- Ports with expressions, each of which depends on the next port. -/
structure Chain (n : Node) (ids : List String) : Prop where
  linked : ids.IsChain n.LeadsTo
  expressions : ∀ id ∈ ids, n.HasExpression id

/-- No chain that begins with the port is longer than `d`. -/
def Depth (n : Node) (d : Nat) (id : String) : Prop :=
  ∀ ids, n.Chain (id :: ids) → ids.length < d

theorem LeadsTo.hasExpression {p q : String} (h : n.LeadsTo p q) : n.HasExpression p := by
  obtain ⟨port, e, hport, he, _⟩ := h
  exact ⟨port, hport, by rw [he]; rfl⟩

theorem Depth.next {d : Nat} {p q : String} (h : n.Depth d p) (hpq : n.LeadsTo p q) :
    n.Depth (d - 1) q := by
  intro ids hids
  have hlong : n.Chain (p :: q :: ids) := by
    refine ⟨List.isChain_cons_cons.mpr ⟨hpq, hids.linked⟩, ?_⟩
    intro id hid
    rcases List.mem_cons.mp hid with rfl | hid
    · exact hpq.hasExpression
    · exact hids.expressions id hid
  have hlt := h _ hlong
  rw [List.length_cons] at hlt
  omega

theorem Depth.pos {d : Nat} {id : String} (h : n.Depth d id) (hid : n.HasExpression id) :
    0 < d := by
  refine h [] ⟨List.isChain_singleton _, ?_⟩
  intro other hother
  rw [List.mem_singleton.mp hother]
  exact hid

theorem Chain.depth {k : Nat} (h : ∀ ids, n.Chain ids → ids.length ≤ k) (id : String) :
    n.Depth k id := by
  intro ids hids
  exact h _ hids

/-- No port depends on itself. -/
def NoSelfReference (n : Node) : Prop := ∀ id, ¬n.LeadsTo id id

theorem Chain.nodup {ids : List String} (h : n.Chain ids) (hcircle : n.NoCircle)
    (hself : n.NoSelfReference) : ids.Nodup := by
  have hfar : ids.Pairwise (TransGen n.LeadsTo) :=
    (h.linked.imp fun _ _ => TransGen.single).pairwise
  refine hfar.imp ?_
  rintro p q hpq rfl
  obtain ⟨q, hstep, hback⟩ := TransGen.head'_iff.mp hpq
  rcases reflTransGen_iff_eq_or_transGen.mp hback with heq | hback
  · exact hself q (heq ▸ hstep)
  · have heq := hcircle p q (.single hstep) hback
    exact hself q (heq ▸ hstep)

theorem Chain.length_le {ids : List String} (h : n.Chain ids) (hcircle : n.NoCircle)
    (hself : n.NoSelfReference) : ids.length ≤ n.ports.length := by
  have hsub : ids ⊆ n.ports.map Prod.fst := by
    intro id hid
    obtain ⟨p, hp, _⟩ := h.expressions id hid
    exact List.mem_map_of_mem (Dict.mem_of_get? hp)
  have hle := (List.subperm_of_subset (h.nodup hcircle hself) hsub).length_le
  rwa [List.length_map] at hle

theorem exists_longest (hcircle : n.NoCircle) (hself : n.NoSelfReference) :
    ∃ k, IsGreatest {k | ∃ ids, n.Chain ids ∧ ids.length = k} k := by
  have hnil : n.Chain [] := ⟨List.isChain_nil, fun id hid => absurd hid List.not_mem_nil⟩
  have hbounded : BddAbove {k | ∃ ids, n.Chain ids ∧ ids.length = k} := by
    refine ⟨n.ports.length, ?_⟩
    rintro k ⟨ids, hids, rfl⟩
    exact hids.length_le hcircle hself
  exact ⟨_, Nat.sSup_mem ⟨0, [], hnil, rfl⟩ hbounded, fun k hk => le_csSup hbounded hk⟩

end ControlNode.Node
