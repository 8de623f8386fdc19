import ControlNode.Proofs.Expr.Held
import ControlNode.Proofs.Node.Backends
import ControlNode.Proofs.Node.Histories
import ControlNode.Proofs.Store.Entries

/-!
# Retention

A sample that is stored for a port drives out the samples of the port that are older than its
retention. The limit is computed in 64 bits: where it lies within them the samples before it go
and no others do (`saveHistory_prunes`), and where it does not it comes out too late, so that even
the sample just stored can go (`fresh_sample_pruned`).
-/

namespace ControlNode.Node

variable {n : Node} {key : PortKey} {p : Port} {v : Value} {now time : Int} {other : String}

/-! ### The limit -/

theorem pruneLimit_eq (now retention : Int) :
    pruneLimit now retention = Binary64.wrapInt64 (now - retention * 1000) := by
  unfold pruneLimit Binary64.wrapInt64
  rw [Int.sub_bmod_bmod]

/-- The limit of a date is computed without an overflow exactly if it has 64 bits. -/
theorem pruneLimit_eq_iff (hnow : Calendar.inRange now = true) {retention : Int}
    (hr : 0 < retention) : pruneLimit now retention = now - retention * 1000 ↔
      Binary64.minInt64 ≤ now - retention * 1000 := by
  rw [pruneLimit_eq]
  constructor
  · intro h
    rw [← h]
    exact Int.le_bmod (by decide)
  · intro hmin
    have hmax : now ≤ Calendar.maxMs := by
      simp only [Calendar.inRange, Bool.and_eq_true, decide_eq_true_eq] at hnow
      exact hnow.2
    refine Binary64.wrapInt64_of_range hmin ?_
    simp only [Calendar.maxMs, Binary64.maxInt64] at hmax ⊢
    omega

/-! ### Saving -/

/-- The storage accepts a sample of a value of a port. -/
def Accepts (n : Node) (p : Port) (v : Value) (now : Int) : Prop :=
  (n.backend.saveSample historyCollection p.id ⟨now, v.toJson⟩).1 = .ok ()

theorem samplesSupported_of_accepts (h : n.Accepts p v now) :
    n.backend.samplesSupported = true := by
  unfold Accepts at h
  cases hb : n.backend with
  | recordsOnly =>
    rw [hb] at h
    cases h
  | _ => rfl

theorem pruneHistory_backend (n : Node) (p : Port) (now : Int) :
    (n.pruneHistory p now).backend =
      if 0 < p.historyRetention then
        (n.backend.removeSamples historyCollection (some [p.id])
          { stop := some (pruneLimit now p.historyRetention) }).2
      else n.backend := by
  unfold pruneHistory
  split <;> rfl

/-- A sample that is accepted is stored, noted and followed by a pruning. -/
theorem saveHistory_eq (hp : n.portOf? key = some p) (h : n.Accepts p v now) :
    n.saveHistory key v now =
      ((n.access true (n.backend.saveSample historyCollection p.id ⟨now, v.toJson⟩)).2.putPort
        { p with historyLast := now, dirty := true }).pruneHistory
          { p with historyLast := now, dirty := true } now := by
  unfold Accepts at h
  unfold saveHistory
  simp only [hp, samplesSupported_of_accepts h, if_true]
  rw [show (n.access true (n.backend.saveSample historyCollection p.id ⟨now, v.toJson⟩)).1 =
    .ok () from h]

theorem contains_before (stop time : Int) :
    ({ stop := some stop } : SampleRange).contains time = decide (time < stop) := rfl

theorem sample?_saveHistory (hp : n.portOf? key = some p) (h : n.Accepts p v now)
    (hc : n.backend.Catalogued historyCollection) (hid : n.backend.Locates p.id now)
    (ht : n.backend.Locates other time) :
    (n.saveHistory key v now).backend.sample? historyCollection other time =
      if other = p.id ∧ 0 < p.historyRetention ∧ time < pruneLimit now p.historyRetention then none
      else if other = p.id ∧ time = now then some v.toJson
      else n.backend.sample? historyCollection other time := by
  have htakes := Backend.takesSamples_of_saved h
  have hsaved : (n.backend.saveSample historyCollection p.id ⟨now, v.toJson⟩).2.sample?
      historyCollection other time = if other = p.id ∧ time = now then some v.toJson
        else n.backend.sample? historyCollection other time :=
          Backend.sample?_saveSample htakes hid ht
  rw [saveHistory_eq hp h, pruneHistory_backend, putPort_backend]
  by_cases hr : 0 < p.historyRetention
  · rw [if_pos hr]
    refine (Backend.sample?_removeSamples ?_ (hc.saveSample p.id ⟨now, v.toJson⟩) ?_ _ _).trans ?_
    · exact (Backend.takesSamples_saveSample ..).trans htakes
    · exact (Backend.locates_saveSample ..).mpr ht
    · refine if_congr ?_ rfl hsaved
      simp [Store.wanted, contains_before, Port.id, hr]
  · rw [if_neg hr, if_neg fun h => hr h.2.1]
    exact hsaved

/-- Storing a sample of a port prunes the samples of this port before the limit and no others;
the sample just stored stays if the limit has 64 bits. -/
theorem saveHistory_prunes (hp : n.portOf? key = some p) (hr : 0 < p.historyRetention)
    (hnow : Calendar.inRange now = true) (hc : n.backend.Catalogued historyCollection)
    (hid : n.backend.Locates p.id now) (h : n.Accepts p v now) :
    let limit := pruneLimit now p.historyRetention
    let found := (n.saveHistory key v now).backend.sample? historyCollection
    (limit = now - p.historyRetention * 1000 ↔
      Binary64.minInt64 ≤ now - p.historyRetention * 1000) ∧
    (∀ time, n.backend.Locates p.id time → found p.id time =
      if time < limit then none
      else if time = now then some v.toJson
      else n.backend.sample? historyCollection p.id time) ∧
    (Binary64.minInt64 ≤ now - p.historyRetention * 1000 → found p.id now = some v.toJson) ∧
    ∀ other time, other ≠ p.id → n.backend.Locates other time →
      found other time = n.backend.sample? historyCollection other time := by
  intro limit found
  have hlimit := pruneLimit_eq_iff hnow hr
  have hown (time : Int) (ht : n.backend.Locates p.id time) : found p.id time =
      if time < limit then none
      else if time = now then some v.toJson
      else n.backend.sample? historyCollection p.id time := by
    have hfound := sample?_saveHistory hp h hc hid ht
    simpa only [true_and, hr] using hfound
  refine ⟨hlimit, hown, fun hmin => ?_, fun other time hne ht => ?_⟩
  · have hle : ¬now < limit := by
      have heq := hlimit.mpr hmin
      omega
    rw [hown now hid, if_neg hle, if_pos rfl]
  · have hfound := sample?_saveHistory hp h hc hid ht
    rwa [if_neg fun hf => hne hf.1, if_neg fun hf => hne hf.1] at hfound

/-- A cellar door that keeps its samples for a minute and has one of the first second. -/
def cellar : Node :=
  { create {} (.memory { samples := [(historyCollection, [("cellar", [(1000, .bool true)])])] }) 0
    with ports :=
      [("cellar", { Port.create ⟨"cellar", 0⟩ (.memory { type := .boolean }) false 1 with
      historyRetention := 60 })] }

theorem saveHistory_prunes_minute :
    let found := (cellar.saveHistory ⟨"cellar", 0⟩ (.bool false) 62000).backend.sample?
      historyCollection "cellar"
    found 1000 = none ∧ found 62000 = some (.bool false) := by
  have hdate : Calendar.inRange 62000 = true := by decide
  have hport : cellar.portOf? ⟨"cellar", 0⟩ = cellar.port? "cellar" := rfl
  obtain ⟨hlimit, hown, hfresh, -⟩ := saveHistory_prunes (v := .bool false) hport (by decide) hdate
    (List.pairwise_singleton ..) trivial rfl
  have hmin : Binary64.minInt64 ≤ 62000 - 60 * 1000 := by decide
  have hbefore : (1000 : Int) < pruneLimit 62000 60 := by
    have heq : pruneLimit 62000 60 = 62000 - 60 * 1000 := hlimit.mpr hmin
    omega
  exact ⟨(hown 1000 trivial).trans (if_pos hbefore), hfresh hmin⟩

/-- A retention of ten to the sixteen seconds is accepted; the sample of the next change is stored
and noted, and is not there after the tick. -/
theorem fresh_sample_pruned :
    let n := (create {} (.memory {}) 0).after [
      .add "door" (.memory { type := .boolean, value := some (.bool true) }),
      .setAttr "door" "history_interval" (.int (-1))]
    let m := (n.setAttr "door" "history_retention" (.int 10000000000000000)).2
    (n.setAttr "door" "history_retention" (.int 10000000000000000)).1.toOption.isSome = true ∧
      (m.port? "door").map Port.historyRetention = some 10000000000000000 ∧
      ((m.update 1000).port? "door").map (fun p => (p.lastRead, p.historyLast)) =
        some (some (.bool true), 1000) ∧
      1000 - 10000000000000000 * (1000 : Int) ≤ 1000 ∧
      ((m.update 1000).backend.sample? historyCollection "door" 1000).isSome = false := by
  decide +kernel

end ControlNode.Node
