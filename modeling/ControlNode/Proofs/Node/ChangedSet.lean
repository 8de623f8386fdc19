import ControlNode.Proofs.Node.Lasting

/-!
# The changed set

Of two ticks in a row, the later one finds each value changed that the earlier one has not seen,
and calls the ports that depend on it (`update_notes_new_values`). Values that ports bring along
as they are added are the exception: such a value is there before any tick could read it
(`Preset`). The invariant over a history is that a disabled port with a value is preset.
-/

namespace ControlNode

def Value.Alike (u v : Value) : Prop := u = v ∨ u.same v = true

/-- The value is seen for the port. -/
def EvalContext.Shows (c : EvalContext) (id : String) (v : Value) : Prop :=
  ∃ u, c.values.get? id = some u ∧ u.Alike v

namespace Node

open Port

variable {start n m : Node} {key : PortKey} {p q r : Port} {v w : Value}

/-- The change is in the set of the tick, and ports that depend on it have an evaluation to take
up: one that sees the values of the tick, or one that was waiting already. -/
structure Notes (n : Node) (now : Int) (f : Findings) (id : String) : Prop where
  changed : .port id ∈ f.changed
  served : ∀ key p, n.Registered key p → p.enabled = true → p.expression.isSome →
    .port id ∈ p.expressionDeps →
      ∃ q r, f.arrived.Registered key q ∧ (n.update now).Registered key r ∧
        (Enqueues q r f.snapshot ∨ ∃ c, Keeps q r c)

/-- After the history the port has the value that it has had since it was added, and no tick has
found it enabled. -/
inductive Preset (start : Node) (key : PortKey) (w : Value) : List Operation → Prop
  | added {ops : List Operation} {op : Operation} {q : Port} (hop : op.isAddition = true)
      (hnew : ∀ p, ¬(start.after ops).Registered key p)
      (hq : (start.after (ops ++ [op])).Registered key q) (hw : q.lastRead = some w) :
      Preset start key w (ops ++ [op])
  | later {ops : List Operation} {op : Operation} {p q : Port} (h : Preset start key w ops)
      (hp : (start.after ops).Registered key p) (hoff : op.isTick = true → p.enabled = false)
      (hq : (start.after (ops ++ [op])).Registered key q) (hw : q.lastRead = some w) :
      Preset start key w (ops ++ [op])

theorem Registered.unique (hp : n.Registered key p) (hq : n.Registered key q) : p = q := by
  have heq := hp.1
  rw [hq.1] at heq
  cases heq
  rfl

/-! ### One tick -/

theorem Findings.Of.origin {f : Findings} {now : Int} (h : f.Of n now) (hn : Sound n)
    (hr : (n.update now).Registered key r) :
    ∃ p q, n.Registered key p ∧ f.arrived.Registered key q ∧ p.enabled = r.enabled ∧
      q.enabled = r.enabled ∧ q.lastRead = r.lastRead ∧
      ((∀ v, (key, some (.ok v)) ∉ f.reads) → q.lastRead = p.lastRead) := by
  obtain ⟨p, hp, hcontinues⟩ := (update_proceeds hn now).registered_of hr
  obtain ⟨q, hq, hsetup, -, -, hunread⟩ := h.values key p hp
  obtain ⟨r', hr', hvalue⟩ := h.lasting key q hq
  cases hr.unique hr'
  have henabled := hcontinues.setup.enabled
  exact ⟨p, q, hp, hq, henabled.symm, hsetup.enabled.trans henabled.symm, hvalue.symm, hunread⟩

/-- A tick leaves the value of a disabled port alone. -/
theorem update_off (hn : Sound n) {now : Int} (hr : (n.update now).Registered key r)
    (hoff : r.enabled = false) :
    ∃ p, n.Registered key p ∧ p.enabled = false ∧ p.lastRead = r.lastRead := by
  obtain ⟨t, ids, m, hcall⟩ := exists_calling hn.filed hn.services now
  have hfound := hcall.findings hn
  obtain ⟨p, q, hp, -, hpenabled, -, hvalue, hunread⟩ := hfound.origin hn hr
  refine ⟨p, hp, hpenabled.trans hoff, ?_⟩
  rw [← hvalue, hunread]
  intro v hv
  obtain ⟨p', hp', hon⟩ := hfound.enabled _ hv
  cases hp.unique hp'
  rw [hpenabled, hoff] at hon
  cases hon

theorem Findings.Of.shown {f : Findings} {now : Int} (h : f.Of n now) (hn : Sound n)
    (hr : (n.update now).Registered key r) (hon : r.enabled = true) (hw : r.lastRead = some w) :
    f.snapshot.values.get? key.id = some w := by
  obtain ⟨-, q, -, hq, -, henabled, hvalue, -⟩ := h.origin hn hr
  exact (h.snapshotValues key.id w).mpr ⟨q, hq.1, henabled.trans hon, hvalue.trans hw⟩

/-- A value that is seen in a tick has been found changed, or the port had it before. -/
theorem Findings.Of.changed_or_had {f : Findings} {now : Int} (h : f.Of n now) (hn : Sound n)
    (hports : PortsRel (Arrived f.reads) n f.arrived) {id : String}
    (hv : f.snapshot.values.get? id = some v) :
    .port id ∈ f.changed ∨ ∃ key p w, n.Registered key p ∧ key.id = id ∧
      p.lastRead = some w ∧ w.Alike v := by
  obtain ⟨q, hq, -, hqv⟩ := (h.snapshotValues id v).mp hv
  have hid : q.key.id = id := (hn.filed.of_portsRel hports).ids id q hq
  obtain ⟨p, hp, harrived⟩ := hports.registered_of ⟨hid.symm ▸ hq, rfl⟩
  by_cases hread : ∃ u, (p.key, some (.ok u)) ∈ f.reads
  · obtain ⟨u, hu⟩ := hread
    have huv : u = v := by
      have heq := harrived.read u hu
      rw [hqv] at heq
      cases heq
      rfl
    cases hsame : Value.sameOption p.lastRead (some v) with
    | false =>
      refine .inl ((h.changed _).mpr (.inr (.inr (.inr ⟨id, rfl, ?_⟩))))
      exact ⟨p.key, v, p, by rw [hp.2, hid], huv ▸ hu, hp.2 ▸ hp, hsame⟩
    | true =>
      cases hw : p.lastRead with
      | none =>
        rw [hw] at hsame
        cases hsame
      | some w =>
        rw [hw] at hsame
        exact .inr ⟨q.key, p, w, hp, hid, hw, .inr hsame⟩
  · have hkept := harrived.unread fun u hu => hread ⟨u, hu⟩
    exact .inr ⟨q.key, p, v, hp, hid, hkept.symm.trans hqv, .inl rfl⟩

theorem Serves.enqueues_or_keeps {f : Findings} {now : Int} (h : Serves n now f p q r)
    (hcalled : n.IsCalled now f.changed p) :
    Enqueues q r f.snapshot ∨ ∃ c, Keeps q r c := by
  by_cases hwaits : q.evalPending = true
  · have hpos := List.length_pos_iff.mpr (h.pending.mp hwaits)
    have hone := h.one
    obtain ⟨c, hc⟩ := List.length_eq_one_iff.mp (show q.evals.items.length = 1 by omega)
    refine .inr ⟨c, hc, ?_⟩
    rw [h.otherwise fun hyes => by simp [hwaits] at hyes]
    exact hc
  · exact .inl (h.enqueues.mpr ⟨hcalled, by simpa using hwaits⟩)

/-! ### Histories -/

theorem preset_of_disabled (hs : Sound start) (hempty : ∀ p, ¬start.Registered key p)
    (ops : List Operation) (hq : (start.after ops).Registered key q) (hoff : q.enabled = false)
    (hw : q.lastRead = some w) : Preset start key w ops := by
  induction ops using List.reverseRecOn generalizing q with
  | nil => exact absurd hq (hempty q)
  | append_singleton ops op ih =>
    have hsound := after_sound hs ops
    have hstep : (start.after (ops ++ [op])) = (start.after ops).perform op :=
      after_append start ops [op]
    cases hop : op.isTick with
    | true =>
      cases op <;> cases hop
      rename_i now
      obtain ⟨p, hp, hpoff, hvalue⟩ := update_off hsound (hstep ▸ hq) hoff
      exact .later (ih hp hpoff (hvalue.trans hw)) hp (fun _ => hpoff) hq hw
    | false =>
      rcases perform_lasting hsound hop (hstep ▸ hq) hw with ⟨hadd, hnew⟩ | ⟨p, hp, hpw, hon⟩
      · exact .added hadd hnew hq hw
      -- the port has kept its value, so the operation has not disabled it
      · have hpoff : p.enabled = false := by
          cases hp : p.enabled with
          | false => rfl
          | true =>
            rw [hon hp] at hoff
            cases hoff
        exact .later (ih hp hpoff hpw) hp (fun _ => hpoff) hq hw

/-- Without ticks in between, a value that a port has was there before on an enabled port or is
preset. -/
theorem had_or_preset (hs : Sound start) (hempty : ∀ p, ¬start.Registered key p)
    (ops between : List Operation) (hno : ∀ op ∈ between, op.isTick = false)
    (hq : (start.after (ops ++ between)).Registered key q) (hw : q.lastRead = some w) :
    (∃ p, (start.after ops).Registered key p ∧ p.enabled = true ∧ p.lastRead = some w) ∨
      Preset start key w (ops ++ between) := by
  induction between using List.reverseRecOn generalizing q with
  | nil =>
    rw [List.append_nil] at hq ⊢
    -- the snapshot of a tick leaves disabled ports out, but their values are preset
    cases hon : q.enabled with
    | true => exact .inl ⟨q, hq, hon, hw⟩
    | false => exact .inr (preset_of_disabled hs hempty ops hq hon hw)
  | append_singleton between op ih =>
    rw [← List.append_assoc] at hq ⊢
    have hsound := after_sound hs (ops ++ between)
    have hop : op.isTick = false := hno op (by simp)
    have hstep := after_append start (ops ++ between) [op]
    rcases perform_lasting hsound hop (hstep ▸ hq) hw with ⟨hadd, hnew⟩ | ⟨p, hp, hpw, -⟩
    · exact .inr (.added hadd hnew hq hw)
    · rcases ih (fun op hmem => hno op (by simp [hmem])) hp hpw with hhad | hpreset
      · exact .inl hhad
      · exact .inr (.later hpreset hp (fun htick => by rw [hop] at htick; cases htick) hq hw)

/-- The changed set is complete but for preset values. After any history, a value that a tick sees
and the tick before it has not seen is noted, or the port has had the value since it was added and
no tick has found the port enabled. -/
theorem update_notes_new_values (config : NodeConfig) (backend : Backend) (wall : Int) (zone : Zone)
    (ops between : List Operation) (earlier later : Int)
    (hno : ∀ op ∈ between, op.isTick = false) :
    ∃ f g : Findings,
      f.Of ((create config backend wall zone).after ops) earlier ∧
      g.Of ((create config backend wall zone).after (ops ++ [.update earlier] ++ between)) later ∧
      ∀ id v, g.snapshot.values.get? id = some v → ¬f.snapshot.Shows id v →
        Notes ((create config backend wall zone).after (ops ++ [.update earlier] ++ between))
          later g
          id ∨
        ∃ key w, key.id = id ∧ w.Alike v ∧
          Preset (create config backend wall zone) key w (ops ++ [.update earlier] ++ between) := by
  have hs := sound_create config backend wall zone
  have hempty (key : PortKey) (p : Port) : ¬(create config backend wall zone).Registered key p := by
    intro hp
    cases hp.1
  generalize create config backend wall zone = start at hs hempty ⊢
  have hn := after_sound hs ops
  have hm := after_sound hs (ops ++ [.update earlier] ++ between)
  obtain ⟨t, ids, k, hcall⟩ := exists_calling hn.filed hn.services earlier
  obtain ⟨t', ids', l, hcall'⟩ := exists_calling hm.filed hm.services later
  have hf := hcall.findings hn
  have hg := hcall'.findings hm
  refine ⟨_, _, hf, hg, ?_⟩
  intro id v hv hunseen
  rcases hg.changed_or_had hm hcall'.ports hv with hchanged | ⟨key, q, w, hq, hid, hw, halike⟩
  · refine .inl ⟨hchanged, ?_⟩
    intro key p hp hon hsome hdep
    obtain ⟨q, r, hq, hr, hserves⟩ := hcall'.serves hm hp
    exact ⟨q, r, hq, hr, hserves.enqueues_or_keeps
      (isCalled_of_change later hon hsome hdep hchanged)⟩
  · rcases had_or_preset hs (hempty key) _ between hno hq hw with ⟨p, hp, hon, hpw⟩ | hpreset
    · rw [after_append] at hp
      exact absurd ⟨w, hid ▸ hf.shown hn hp hon hpw, halike⟩ hunseen
    · exact .inr ⟨key, w, hid, halike, hpreset⟩

def stocked : Backend :=
  .memory { collections := [("ports", [("in",
    [("id", .str "in"), ("persisted", .bool true), ("value", .bool true)])])] }

/-- A port waits for another one, which is added after the first tick. -/
def awaiting : List Operation :=
  [.add "out" (.memory { type := .boolean, writable := true }),
    .setAttr "out" "expression" (.str "$in")]

def arriving : List Operation :=
  [.run (.evaluator ⟨"out", 0⟩), .add "in" (.memory { type := .boolean, writable := true })]

theorem update_notes_new_values_arriving :
    (∀ op ∈ arriving, op.isTick = false) ∧ ∃ f g : Findings,
      f.Of ((create {} stocked 0).after awaiting) 1000 ∧
      g.Of ((create {} stocked 0).after (awaiting ++ [.update 1000] ++ arriving)) 1050 ∧
      ∀ id v, g.snapshot.values.get? id = some v → ¬f.snapshot.Shows id v →
        Notes ((create {} stocked 0).after (awaiting ++ [.update 1000] ++ arriving)) 1050 g id ∨
        ∃ key w, key.id = id ∧ w.Alike v ∧
          Preset (create {} stocked 0) key w (awaiting ++ [.update 1000] ++ arriving) :=
  ⟨by decide, update_notes_new_values {} stocked 0 .utc awaiting arriving 1000 1050 (by decide)⟩

theorem Findings.Of.differs {f : Findings} {now : Int} (h : f.Of n now) {id : String}
    (hchanged : .port id ∈ f.changed) :
    ∃ key p r, key.id = id ∧ n.Registered key p ∧ (n.update now).Registered key r ∧
      Value.sameOption p.lastRead r.lastRead = false := by
  rcases (h.changed _).mp hchanged with hasap | hms | ⟨hsecond, -⟩ | ⟨id', hid, hanew⟩
  · cases hasap
  · cases hms
  · cases hsecond
  · cases hid
    obtain ⟨key, v, p, hkey, hv, hp, hdiff⟩ := hanew
    obtain ⟨q, hq, -, -, hread, -⟩ := h.values key p hp
    obtain ⟨r, hr, hvalue⟩ := h.lasting key q hq
    exact ⟨key, p, r, hkey, hp, hr, by rw [hvalue, hread v hv, hdiff]⟩

/-- The second tick sees the stored value for the first time and does not find it changed. The
port that waits for it is not called. -/
theorem update_misses_stored_value :
    (∃ f g : Findings,
      f.Of ((create {} stocked 0).after awaiting) 1000 ∧
      g.Of ((create {} stocked 0).after (awaiting ++ [.update 1000] ++ arriving)) 1050 ∧
      g.snapshot.values.get? "in" = some (.bool true) ∧
      ¬f.snapshot.Shows "in" (.bool true) ∧ .port "in" ∉ g.changed) ∧
    ((((create {} stocked 0).after (awaiting ++ [.update 1000] ++ arriving)).update 1050).port?
      "out").map (fun p => (p.enabled, p.expression.isSome,
        p.expressionDeps.contains (.port "in"), p.evals.items.length)) =
      some (true, true, true, 0) := by
  have hs := sound_create {} stocked 0 .utc
  have hn := after_sound hs awaiting
  have hm := after_sound hs (awaiting ++ [.update 1000] ++ arriving)
  obtain ⟨t, ids, k, hcall⟩ := exists_calling hn.filed hn.services 1000
  obtain ⟨t', ids', l, hcall'⟩ := exists_calling hm.filed hm.services 1050
  have hbefore : (((create {} stocked 0).after (awaiting ++ [.update 1000] ++ arriving)).port?
      "in").map Port.lastRead = some (some (.bool true)) := by decide +kernel
  have hafter : ((((create {} stocked 0).after
      (awaiting ++ [.update 1000] ++ arriving)).update 1050).port? "in").map
        (fun r => (r.key, r.enabled, r.lastRead)) =
      some (⟨"in", 1⟩, true, some (.bool true)) := by decide +kernel
  obtain ⟨p, hp, hpvalue⟩ := Option.map_eq_some_iff.mp hbefore
  obtain ⟨r, hr, hrfields⟩ := Option.map_eq_some_iff.mp hafter
  simp only [Prod.mk.injEq] at hrfields
  obtain ⟨hkey, hon, hrvalue⟩ := hrfields
  refine ⟨⟨_, _, hcall.findings hn, hcall'.findings hm, ?_, ?_, ?_⟩, by decide +kernel⟩
  · have hin : (((create {} stocked 0).after
        (awaiting ++ [.update 1000] ++ arriving)).update 1050).Registered ⟨"in", 1⟩ r := ⟨hr, hkey⟩
    exact (hcall'.findings hm).shown hm hin hon hrvalue
  · intro hshown
    obtain ⟨u, hu, -⟩ := hshown
    obtain ⟨q, hq, -⟩ := ((hcall.findings hn).snapshotValues "in" u).mp hu
    have hfree : (((create {} stocked 0).after awaiting).port? "in").map Port.key = none := by
      decide +kernel
    rw [hcall.ports.port?_eq_none (Option.map_eq_none_iff.mp hfree)] at hq
    cases hq
  · intro hchanged
    obtain ⟨key, p', r', hid, hp', hr', hdiff⟩ := (hcall'.findings hm).differs hchanged
    have hpp := hp'.1
    rw [hid, hp] at hpp
    cases hpp
    have hrr := hr'.1
    rw [hid, hr] at hrr
    cases hrr
    rw [hpvalue, hrvalue] at hdiff
    cases hdiff

end Node

end ControlNode
