import ControlNode.Proofs.Expr.LoopSearch
import Mathlib.Logic.Relation

/-!
# Graphs without circular references

An expression that closes no loop closes no cycle of any shape: where the dependencies of one
port change and the search finds nothing, a graph without cycles stays without
(`Acyclic.replace`).
-/

namespace ControlNode.DepGraph

open Relation

/-- No two ports lead to each other. -/
def Acyclic (g : DepGraph) : Prop :=
  ∀ p q, TransGen g.Refers p q → TransGen g.Refers q p → p = q

theorem acyclic_nil : Acyclic [] := by
  intro p q hpq
  obtain ⟨_, ⟨_, hnone, _⟩, _⟩ := TransGen.head'_iff.mp hpq
  cases hnone

theorem Acyclic.mono {g g' : DepGraph} (h : g.Acyclic)
    (hle : ∀ p q, g'.Refers p q → g.Refers p q) : g'.Acyclic := by
  intro p q hpq hqp
  exact h p q (hpq.lift id hle) (hqp.lift id hle)

theorem reaches_origin_of_isChain {g : DepGraph} {origin p : String} {ps : List String}
    (h : (p :: ps ++ [origin]).IsChain g.Refers) : TransGen g.Refers p origin := by
  induction ps generalizing p with
  | nil => exact .single (List.isChain_pair.mp h)
  | cons q qs ih =>
    obtain ⟨hstep, htail⟩ := List.isChain_cons_cons.mp h
    exact .head hstep (ih htail)

/-- In a graph without cycles no port closes a loop with the dependencies that it has. -/
theorem Acyclic.not_isLoop {g : DepGraph} {origin : String} {deps : DepSet} (h : g.Acyclic)
    (hdeps : g.get? origin = some deps) : ¬∃ ps, IsLoop g origin deps ps := by
  rintro ⟨ps, hloop⟩
  obtain ⟨p, qs, rfl⟩ := List.exists_cons_of_ne_nil hloop.ne_nil
  have hout : g.Refers origin p := ⟨deps, hdeps, hloop.first p rfl⟩
  have hback := reaches_origin_of_isChain hloop.chain
  have heq := h origin p (.single hout) hback
  exact hloop.avoids (heq ▸ List.mem_cons_self ..)

/-! ### New dependencies of one port -/

def RefersBeside (g : DepGraph) (origin p q : String) : Prop := p ≠ origin ∧ g.Refers p q

variable {g g' : DepGraph} {origin : String} {deps : DepSet}

/-- What leads beside the origin to the origin is the end of a loop. -/
theorem exists_path_of_reaches {p : String} (hp : p ≠ origin)
    (h : ReflTransGen (g.RefersBeside origin) p origin) :
    ∃ ps, ps.head? = some p ∧ (ps ++ [origin]).IsChain g.Refers ∧ origin ∉ ps := by
  induction h using ReflTransGen.head_induction_on with
  | refl => exact absurd rfl hp
  | @head a b hstep _ ih =>
    by_cases hb : b = origin
    · subst hb
      refine ⟨[a], rfl, ?_, ?_⟩
      · exact List.isChain_pair.mpr hstep.2
      · simpa using Ne.symm hp
    · obtain ⟨ps, hhead, hchain, havoids⟩ := ih hb
      refine ⟨a :: ps, rfl, ?_, ?_⟩
      · refine List.isChain_cons.mpr ⟨?_, hchain⟩
        intro q hq
        have hqb : b = q := by simpa [List.head?_append, hhead] using hq
        exact hqb ▸ hstep.2
      · simpa using ⟨Ne.symm hp, havoids⟩

section Replace

variable (hsame : ∀ p, p ≠ origin → g'.get? p = g.get? p)
variable (hdeps : ∀ d, g'.get? origin = some d → d = deps)

include hsame

theorem refersBeside_of_ne {p q : String} (hp : p ≠ origin) (h : g'.Refers p q) :
    g.RefersBeside origin p q := by
  obtain ⟨d, hd, hq⟩ := h
  rw [hsame p hp] at hd
  exact ⟨hp, d, hd, hq⟩

theorem refers_of_beside {p q : String} (h : g.RefersBeside origin p q) : g'.Refers p q := by
  obtain ⟨hp, d, hd, hq⟩ := h
  exact ⟨d, by rw [hsame p hp, hd], hq⟩

/-- A way that uses the new references comes to the origin first. -/
theorem beside_or_through_origin {p q : String} (h : TransGen g'.Refers p q) :
    TransGen (g.RefersBeside origin) p q ∨
      ReflTransGen (g.RefersBeside origin) p origin ∧ TransGen g'.Refers origin q := by
  induction h using TransGen.head_induction_on with
  | @single a hlast =>
    by_cases ha : a = origin
    · subst ha
      exact Or.inr ⟨.refl, .single hlast⟩
    · exact Or.inl (.single (refersBeside_of_ne hsame ha hlast))
  | @head a b hstep htail ih =>
    by_cases ha : a = origin
    · subst ha
      exact Or.inr ⟨.refl, .head hstep htail⟩
    · have hbeside := refersBeside_of_ne hsame ha hstep
      rcases ih with ih | ⟨hto, hfrom⟩
      · exact Or.inl (.head hbeside ih)
      · exact Or.inr ⟨.head hbeside hto, hfrom⟩

include hdeps

/-- A way from the origin leaves it for the last time through one of its dependencies. -/
theorem exists_beside_of_origin {q : String} (hq : q ≠ origin)
    (h : TransGen g'.Refers origin q) :
    ∃ p, p ≠ origin ∧ .port p ∈ deps ∧ ReflTransGen (g.RefersBeside origin) p q := by
  have hfirst (p : String) (hstep : g'.Refers origin p) : .port p ∈ deps := by
    obtain ⟨d, hd, hp⟩ := hstep
    rw [hdeps d hd] at hp
    exact hp
  induction h with
  | single hstep => exact ⟨_, hq, hfirst _ hstep, .refl⟩
  | @tail a b _ hstep ih =>
    by_cases ha : a = origin
    · subst ha
      exact ⟨b, hq, hfirst b hstep, .refl⟩
    · obtain ⟨p, hp, hport, hway⟩ := ih ha
      exact ⟨p, hp, hport, hway.tail (refersBeside_of_ne hsame ha hstep)⟩

/-- No way leads from the origin to another port and back. -/
theorem not_around_origin (hloop : ¬∃ ps, IsLoop g origin deps ps) {p : String}
    (hp : p ≠ origin) (hfrom : TransGen g'.Refers origin p) (hto : TransGen g'.Refers p origin) :
    False := by
  obtain ⟨q, hq, hport, hway⟩ := exists_beside_of_origin hsame hdeps hp hfrom
  have hback : ReflTransGen (g.RefersBeside origin) p origin := by
    rcases beside_or_through_origin hsame hto with h | ⟨h, _⟩
    · exact h.to_reflTransGen
    · exact h
  obtain ⟨ps, hhead, hchain, havoids⟩ := exists_path_of_reaches hq (hway.trans hback)
  refine hloop ⟨ps, ?_, ?_, hchain, havoids⟩
  · rintro rfl
    cases hhead
  · intro r hr
    rw [hhead] at hr
    cases hr
    exact hport

/-- New dependencies of one port that close no loop close no cycle. -/
theorem Acyclic.of_no_loop (h : g.Acyclic) (hloop : ¬∃ ps, IsLoop g origin deps ps) :
    g'.Acyclic := by
  have hold {p q : String} (hpq : TransGen (g.RefersBeside origin) p q) :
      TransGen g.Refers p q := hpq.lift id fun _ _ hstep => hstep.2
  -- of two ports on a way through the origin one is not the origin itself
  have hthrough {p q : String} (hne : p ≠ q)
      (hto : ReflTransGen (g.RefersBeside origin) p origin)
      (hfrom : TransGen g'.Refers origin q) (hqp : TransGen g'.Refers q p) : False := by
    by_cases hp : p = origin
    · subst hp
      exact not_around_origin hsame hdeps hloop (Ne.symm hne) hfrom hqp
    · have hway : TransGen (g.RefersBeside origin) p origin :=
        (reflTransGen_iff_eq_or_transGen.mp hto).resolve_left (Ne.symm hp)
      have hback : TransGen g'.Refers p origin :=
        hway.lift id fun _ _ hstep => refers_of_beside hsame hstep
      exact not_around_origin hsame hdeps hloop hp (hfrom.trans hqp) hback
  intro p q hpq hqp
  by_contra hne
  rcases beside_or_through_origin hsame hpq with hpq' | ⟨hto, hfrom⟩
  · rcases beside_or_through_origin hsame hqp with hqp' | ⟨hto, hfrom⟩
    · exact hne (h p q (hold hpq') (hold hqp'))
    · exact hthrough (Ne.symm hne) hto hfrom hpq
  · exact hthrough hne hto hfrom hqp

end Replace

/-- Taking the expression of one port away closes no cycle, nor does one that closes no loop. -/
theorem Acyclic.replace (h : g.Acyclic) (hsame : ∀ id, id ≠ origin → g'.get? id = g.get? id)
    (hloop : ∀ deps, g'.get? origin = some deps → ¬∃ ps, IsLoop g origin deps ps) :
    g'.Acyclic := by
  cases hdeps : g'.get? origin with
  | none =>
    apply h.mono
    rintro p q ⟨deps, hp, hq⟩
    have hne : p ≠ origin := by
      rintro rfl
      rw [hdeps] at hp
      cases hp
    rw [hsame p hne] at hp
    exact ⟨deps, hp, hq⟩
  | some deps =>
    apply Acyclic.of_no_loop hsame _ h (hloop deps hdeps)
    intro d hd
    rw [hdeps] at hd
    cases hd
    rfl

end ControlNode.DepGraph
