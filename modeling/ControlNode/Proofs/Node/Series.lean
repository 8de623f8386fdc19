import ControlNode.Proofs.Node.Removals
import ControlNode.Proofs.Store.Holdings

/-!
# What leaves the samples of a port alone

Between ticks no operation touches the samples that a memory or a data file holds of a port that
is registered before and after it (`perform_keepsSeries`).
-/

namespace ControlNode.Node

open Port

variable {n m k : Node} {object : String} {series : Series}

/-- The node is over a memory or a data file that lists each object once and holds these samples of
one. -/
abbrev HasSeries (n : Node) (object : String) (series : Series) : Prop :=
  n.backend.Holds historyCollection object series

/-- The samples of an object stay. -/
def KeepsSeries (object : String) (n m : Node) : Prop :=
  ∀ series, n.HasSeries object series → m.HasSeries object series

namespace KeepsSeries

theorem of_backend (h : m.backend = n.backend) : KeepsSeries object n m := by
  intro series hn
  rwa [HasSeries, h]

theorem refl (n : Node) : KeepsSeries object n n := fun _ hn => hn

theorem trans (h : KeepsSeries object n m) (h' : KeepsSeries object m k) :
    KeepsSeries object n k := fun series hn => h' series (h series hn)

end KeepsSeries

/-! ### Access -/

theorem accessAwait_backend {α : Type} (hs : n.services = []) (writes : Bool)
    (op : Backend.Outcome α) : (n.access writes op).2.awaitStorage.backend = op.2 :=
  awaitStorage_backend (n := (n.access writes op).2) hs

theorem thenAccess_keepsSeries {r : Except PersistError Unit × Node} (hs : r.2.services = [])
    {op : Node → Backend.Outcome Nat} (hop : ∀ m series, m.HasSeries object series →
      (op m).2.Holds historyCollection object series) :
    KeepsSeries object r.2 (thenAccess r op).2 := by
  unfold thenAccess
  split
  · exact .refl _
  · rename_i m
    intro series hm
    rw [HasSeries, accessAwait_backend hs]
    exact hop m series hm

/-! ### Calls -/

theorem withPort_backend {key : PortKey} {f : Port → Node} (h : ∀ p, (f p).backend = n.backend) :
    (n.withPort key f).backend = n.backend :=
  withPort_induction (motive := fun m => m.backend = n.backend) rfl fun p _ => h p

theorem writeValue_backend (hs : n.services = []) (p : Port) (v : Value) :
    (n.writeValue p v).2.backend = n.backend := by
  have hsubmit := withTicket_backend n fun t => p.submit v t n.wall
  have hserv := (withTicket_services (n := n) fun t => p.submit v t n.wall).trans hs
  unfold writeValue
  split
  · rename_i e m hm
    rwa [hm] at hsubmit
  · rename_i t m hm
    rw [hm] at hsubmit hserv
    exact (waitFor_backend hserv _).trans hsubmit

theorem setValue_backend (hs : n.services = []) (p : Port) (v : Value) :
    (n.setValue p v).2.backend = n.backend := by
  unfold setValue
  split
  · rfl
  · exact writeValue_backend hs p v

theorem setSequence_backend (n : Node) (p : Port) (s : Option Sequence) :
    (n.setSequence p s).2.backend = n.backend := by
  unfold Node.setSequence
  dsimp only
  split <;> exact putPort_backend ..

theorem readValue_backend (hs : n.services = []) (key : PortKey) :
    (n.readValue key).2.backend = n.backend :=
  (readPort_backend _ key).trans
    (waitFor_backend (n := { n with agenda := (n.agenda.acquire (.device key) .caller).2 }) hs _)

theorem forceEval_backend (n : Node) (id : String) : (n.forceEval id).backend = n.backend := by
  rw [forceEval_frame]

theorem publish_backend (hs : n.services = []) (e : Event) :
    (n.publish e).backend = n.backend := by
  rw [publish_eq hs]

theorem setAttr_backend (hs : n.services = []) (id name : String) (value : Json) :
    (n.setAttr id name value).2.backend = n.backend := by
  have hannounce (m : Node) (p : Port) (hm : m.services = []) :
      (m.publishUpdate p).backend = m.backend := by
    have hput : (m.putPort p.attrsJson.2).services = [] := by rw [putPort_frame, hm]
    exact (publish_backend hput _).trans (putPort_backend ..)
  unfold setAttr
  split
  · rfl
  · rename_i p _
    have hput := putPort_backend n (p.setAttr n.graph name value).port
    have hserv : (n.putPort (p.setAttr n.graph name value).port).services = [] := by
      rw [putPort_frame, hs]
    dsimp only
    split
    · exact hput
    · split
      · refine (hannounce _ _ ?_).trans ((forceEval_backend ..).trans hput)
        rw [forceEval_frame, hserv]
      · exact (hannounce _ _ hserv).trans hput

theorem reloadAttrs_backend (n : Node) (id : String) (r : Record) :
    (n.reloadAttrs id r).backend = n.backend := by
  unfold reloadAttrs
  split
  · rfl
  · exact (putPort_backend ..).trans (loadAttrs_backend ..)

/-! ### Saving -/

theorem savePort_keepsSeries (force : Bool) (n : Node) (key : PortKey) :
    KeepsSeries object n (savePort force n key).2 := by
  intro series hn
  unfold savePort
  split
  · exact hn
  · rename_i p _
    dsimp only
    split
    · have hstored : ((n.putPort { p with dirty := false }).backend.replace portsCollection p.id
          p.toRecord).2.Holds historyCollection object series := by
        rw [putPort_backend]
        exact Backend.Holds.replace hn ..
      split
      · exact hstored
      · split
        · rw [HasSeries, putPort_backend]
          exact hstored
        · exact hstored
    · exact hn

theorem savePortList_keepsSeries (hs : n.services = []) (force : Bool) (keys : List PortKey) :
    KeepsSeries object n (n.savePortList force awaitStorage keys).2 := by
  induction keys generalizing n with
  | nil => exact .refl n
  | cons key keys ih =>
    have hsave : KeepsSeries object n (savePort force n key).2 := savePort_keepsSeries force n key
    have hserv := (savePort_tended (n := n) force key).evolves.services.trans hs
    have hwait := hsave.trans (.of_backend (awaitStorage_backend hserv))
    exact hwait.trans (ih ((awaitStorage_worked hserv).services.trans hserv))

/-! ### Adding -/

theorem add_backend (hs : n.services = []) (id : String) (device : Device) (isVirtual : Bool)
    (defaults : Record) : (n.add id device isVirtual defaults).2.backend = n.backend := by
  cases hfault : n.idFault? id with
  | some fault => rw [add_of_fault hfault]
  | none =>
    obtain ⟨attrs, m, q, hadd, hbackend, -⟩ := add_setUp hs hfault device isVirtual defaults
    rw [hadd]
    exact hbackend

theorem addVirtual_keepsSeries (hs : n.services = []) (d : VirtualPortDef) :
    KeepsSeries object n (n.addVirtual d).2 := by
  have hadd : (n.addDefined d).2.backend = n.backend := add_backend hs ..
  have hserv : (n.addDefined d).2.services = n.services := (add_extends hs ..).services
  intro series hn
  unfold addVirtual
  split
  · rename_i e m hm
    rw [hm] at hadd
    rwa [HasSeries, hadd]
  · rename_i attrs m hm
    rw [hm] at hadd hserv
    have hstored : (m.access true (m.backend.replace definitionsCollection d.id
        d.toRecord)).2.awaitStorage.HasSeries object series := by
      rw [HasSeries, accessAwait_backend (hserv.trans hs), hadd]
      exact Backend.Holds.replace hn ..
    split
    · rename_i r l hl
      rwa [hl] at hstored
    · rename_i e l hl
      rwa [hl] at hstored

theorem loadEach_backend {α : Type} {add : Node → α → Option NodeError × Node}
    (hext : ∀ n a, n.services = [] → Extends n (add n a).2)
    (hadd : ∀ n a, n.services = [] → (add n a).2.backend = n.backend) (hs : n.services = [])
    (as : List α) : (loadEach add n as).2.backend = n.backend := by
  induction as generalizing n with
  | nil => rfl
  | cons a as ih => exact (ih ((hext n a hs).services.trans hs)).trans (hadd n a hs)

theorem loadPort_backend (mappings : Dict String String) (hs : n.services = []) (c : PortConfig) :
    (loadPort mappings n c).2.backend = n.backend := by
  unfold loadPort
  split
  · rfl
  · rename_i id _
    split
    · rfl
    · rename_i device _
      have hadd := add_backend hs id device false []
      split
      · rename_i e m hm
        rwa [hm] at hadd
      · rename_i attrs m hm
        rwa [hm] at hadd

theorem loadDefined_backend (hs : n.services = []) (r : Record) :
    (loadDefined n r).2.backend = n.backend := by
  unfold loadDefined
  split
  · rfl
  · rename_i d _
    have hadd : (n.addDefined d).2.backend = n.backend := add_backend hs ..
    split
    · rename_i e m hm
      rwa [hm] at hadd
    · rename_i attrs m hm
      rwa [hm] at hadd

theorem load_keepsSeries (hs : n.services = []) (configs : List PortConfig)
    (mappings : Dict String String) : KeepsSeries object n (n.load configs mappings).2 := by
  have hindex (m : Node) (hm : m.services = []) :
      KeepsSeries object m (m.access false m.backend.ensureIndex).2.awaitStorage := by
    intro series hn
    rw [HasSeries, accessAwait_backend hm]
    exact Backend.Holds.ensureIndex hn
  have hserv (m : Node) (hm : m.services = []) :
      (m.access false m.backend.ensureIndex).2.awaitStorage.services = [] :=
    (accessAwait_lasts hm false m.backend.ensureIndex).services.trans hm
  have hfirst := hserv n hs
  have hsecond := hserv _ hfirst
  have hready := (hindex n hs).trans (hindex _ hfirst)
  have hports := loadEach_extends (fun _ c hk => loadPort_extends mappings hk c) hsecond configs
  have hloaded := loadEach_backend (fun _ c hk => loadPort_extends mappings hk c)
    (fun _ c hk => loadPort_backend mappings hk c) hsecond configs
  unfold load
  dsimp only
  generalize loadEach (loadPort mappings) _ configs = loaded at hports hloaded
  obtain ⟨errors, l⟩ := loaded
  have hl : l.services = [] := hports.services.trans hsecond
  have hquery := accessAwait_lasts hl false
    (l.backend.query definitionsCollection {}, l.backend)
  have hdefined := loadEach_backend (fun _ r hk => loadDefined_extends hk r)
    (fun _ r hk => loadDefined_backend hk r) (hquery.services.trans hl)
  exact hready.trans (.of_backend
    ((hdefined _).trans ((accessAwait_backend hl _ _).trans hloaded)))

/-! ### Removing -/

theorem purge_keepsSeries (hs : n.services = []) {p : Port} (hne : p.id ≠ object) :
    KeepsSeries object n (n.purge p).2 := by
  have hdrop (r : Except PersistError Unit × Node) (hr : r.2.services = []) (name : String) :
      KeepsSeries object r.2
        (thenAccess r fun n => n.backend.remove name (Filter.byId p.id)).2 :=
    thenAccess_keepsSeries hr fun m series hm => Backend.Holds.remove hm ..
  have hserv {r : Except PersistError Unit × Node} (hr : r.2.services = [])
      (op : Node → Backend.Outcome Nat) : (thenAccess r op).2.services = [] :=
    (thenAccess_lasts hr op).services.trans hr
  obtain ⟨r, hrecord⟩ : ∃ r, r = thenAccess (.ok (), n) fun n =>
    n.backend.remove portsCollection (Filter.byId p.id) := ⟨_, rfl⟩
  obtain ⟨r', hdefinition⟩ : ∃ r', r' = if p.isVirtual then
    thenAccess r fun n => n.backend.remove definitionsCollection (Filter.byId p.id) else r :=
    ⟨_, rfl⟩
  have hr : r.2.services = [] ∧ KeepsSeries object n r.2 := by
    rw [hrecord]
    exact ⟨hserv hs _, hdrop (.ok (), n) hs portsCollection⟩
  have hr' : r'.2.services = [] ∧ KeepsSeries object n r'.2 := by
    rw [hdefinition]
    split
    · exact ⟨hserv hr.1 _, hr.2.trans (hdrop r hr.1 definitionsCollection)⟩
    · exact hr
  have hpurge : n.purge p = if n.backend.samplesSupported then
      thenAccess r' fun n => n.backend.removeSamples historyCollection (some [p.id]) {}
      else r' := by
    rw [hdefinition, hrecord]
    rfl
  rw [hpurge]
  split
  · exact hr'.2.trans (thenAccess_keepsSeries hr'.1 fun m series hm =>
      Backend.Holds.removeSamples_of_ne hm hne _)
  · exact hr'.2

/-- A removal takes out the port and may drop what is stored of it. -/
theorem remove_lasts (hs : n.services = []) {p : Port} (hp : n.port? p.id = some p)
    (purged : Bool) : Lasts (n.detach p) (n.remove p.id purged).2 ∧
      ∀ object, p.id ≠ object → KeepsSeries object n (n.remove p.id purged).2 := by
  have hdetached := detach_services hs p
  have hstep :
    Lasts (n.detach p) (if purged then (n.detach p).purge p else (.ok (), n.detach p)).2 ∧
      ∀ object, p.id ≠ object → KeepsSeries object n
        (if purged then (n.detach p).purge p else (.ok (), n.detach p)).2 := by
    cases purged with
    | true =>
      exact ⟨purge_lasts hdetached p, fun object hne =>
        (KeepsSeries.of_backend (detach_backend hs p)).trans (purge_keepsSeries hdetached hne)⟩
    | false => exact ⟨.refl _, fun object _ => .of_backend (detach_backend hs p)⟩
  rw [remove_eq hp]
  revert hstep
  generalize (if purged then (n.detach p).purge p else (.ok (), n.detach p)) = r
  obtain ⟨_ | _, m⟩ := r
  · exact id
  · rintro ⟨hlasts, hkeeps⟩
    have hm := hlasts.services.trans hdetached
    exact ⟨hlasts.trans (publish_lasts hm _), fun object hne =>
      (hkeeps object hne).trans (.of_backend (publish_backend hm _))⟩

theorem remove_keepsSeries (h : Sound n) (id : String) (purged : Bool) {key : PortKey} {q : Port}
    (hq : (n.remove id purged).2.Registered key q) :
    KeepsSeries key.id n (n.remove id purged).2 := by
  cases hp : n.port? id with
  | none =>
    simp only [remove, hp]
    exact .refl n
  | some p =>
    obtain rfl := h.filed.ids id p hp
    obtain ⟨hlasts, hkeeps⟩ := remove_lasts h.services hp purged
    refine hkeeps key.id fun hid => ?_
    -- nothing is registered under the id any more
    have hport : (n.remove p.id purged).2.port? p.id = some q := (congrArg _ hid).trans hq.1
    have hgone := hlasts.keys p.id
    rw [detach_keyAt h.services, Function.update_self, keyAt, hport] at hgone
    cases hgone

theorem not_registered_cleanup (h : Sound n) (key : PortKey) (q : Port) :
    ¬n.cleanup.Registered key q := by
  have hsave : Moved n (n.savePorts true awaitStorage).2 := savePortList_moved h.services true _
  unfold cleanup
  dsimp only
  obtain ⟨l, hl⟩ : ∃ l, l = (n.savePorts true awaitStorage).2 := ⟨_, rfl⟩
  rw [← hl] at hsave ⊢
  intro hq
  have hstop := stopPorts_lasts (n := { l with ports := [], gone := Dict.values l.ports ++ l.gone })
    (hsave.services.trans h.services) ((Dict.values l.ports).map Port.key)
  obtain ⟨p, ⟨hp, -⟩, -⟩ := hstop.registered_of hq
  cases hp

/-! ### One operation -/

/-- Between ticks nothing happens to the samples of a port that stays registered. -/
theorem perform_keepsSeries (h : Sound n) {op : Operation} (hno : op.isTick = false)
    (hstorage : ∀ b, op ≠ .storage b) {key : PortKey} {q : Port}
    (hq : (n.perform op).Registered key q) : KeepsSeries key.id n (n.perform op) := by
  have hs := h.services
  cases op with
  | load configs mappings => exact load_keepsSeries hs configs mappings
  | add id device => exact .of_backend (add_backend hs ..)
  | addVirtual d => exact addVirtual_keepsSeries hs d
  | remove id purged => exact remove_keepsSeries h id purged hq
  | cleanup => exact absurd hq (not_registered_cleanup h key q)
  | setAttr id name value => exact .of_backend (setAttr_backend hs ..)
  | loadAttrs id r => exact .of_backend (reloadAttrs_backend ..)
  | getAttr key name => exact .of_backend (withPort_backend fun p => putPort_backend ..)
  | attrs key => exact .of_backend (withPort_backend fun p => putPort_backend ..)
  | update now => cases hno
  | forceEval id => exact .of_backend (forceEval_backend ..)
  | forceEvalAll => exact .of_backend rfl
  | pauseAsap limit => exact .of_backend rfl
  | save force => exact savePortList_keepsSeries hs force _
  | setValue key v => exact .of_backend (withPort_backend fun p => setValue_backend hs p v)
  | writeValue key v => exact .of_backend (withPort_backend fun p => writeValue_backend hs p v)
  | enqueueValue key v => exact .of_backend (withPort_backend fun p => withTicket_backend ..)
  | await t => exact .of_backend (waitFor_backend hs _)
  | readValue key => exact .of_backend (readValue_backend hs key)
  | setSequence key s => exact .of_backend (withPort_backend fun p => setSequence_backend n p s)
  | run t => exact .of_backend (runReadyTask_backend hs t)
  | elapse time => exact .of_backend rfl
  | wall time => exact .of_backend rfl
  | device key value failReads failures =>
    exact .of_backend (withPort_backend fun p => putPort_backend ..)
  | storage b => exact absurd rfl (hstorage b)

end ControlNode.Node
