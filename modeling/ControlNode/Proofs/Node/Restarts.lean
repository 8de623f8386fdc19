import ControlNode.Proofs.Node.Additions

/-!
# Restarts

A cleanup stores ports as they are and leaves everything else that is stored alone
(`recordAt?_cleanup`, `collection_cleanup`). The node that follows is calm, so that a port that is
added to it is set up from what has been stored.
-/

namespace ControlNode.Node

open Port Backend

variable {n m k : Node}

/-! ### Saves -/

/-- Ports may have been stored, but their records are what they were. -/
structure Saves (n m : Node) : Prop where
  services : m.services = n.services
  ports : PortsRel SameRecord n m
  others : ∀ name, name ≠ portsCollection → m.backend.collection name = n.backend.collection name

namespace Saves

theorem refl (n : Node) : Saves n n := ⟨rfl, .refl .refl n, fun _ _ => rfl⟩

theorem trans (h : Saves n m) (h' : Saves m k) : Saves n k :=
  ⟨h'.services.trans h.services,
    h.ports.trans (T := SameRecord) (fun _ _ _ hpq hqr => hpq.trans hqr) h'.ports,
    fun name hname => (h'.others name hname).trans (h.others name hname)⟩

theorem putPort {key : PortKey} {p : Port} (hp : n.portOf? key = some p) (dirty : Bool) :
    Saves n (n.putPort { p with dirty := dirty }) := by
  refine ⟨by rw [putPort_frame], .putPort (fun q _ => .refl q) fun q hq => ?_,
    fun _ _ => by rw [putPort_backend]⟩
  have hkey : p.key = key := key_of_portOf? hp
  rw [show ({ p with dirty := dirty } : Port).key = key from hkey, hp] at hq
  cases hq
  exact .of_frame rfl

end Saves

theorem awaitStorage_saves (hs : n.services = []) : Saves n n.awaitStorage := by
  have hworked := awaitStorage_worked hs
  refine ⟨hworked.services, hworked.ports.mono fun p q hpq => ?_,
    fun _ _ => by rw [awaitStorage_backend hs]⟩
  induction hpq with
  | refl => exact .refl p
  | tail _ hstep ih => exact ih.trans hstep.sameRecord

theorem savePort_saves (force : Bool) (n : Node) (key : PortKey) :
    Saves n (savePort force n key).2 := by
  unfold savePort
  split
  · exact .refl n
  · rename_i p hp
    split
    · have hclean := Saves.putPort hp false
      obtain ⟨k, hk⟩ : ∃ k, k = n.putPort { p with dirty := false } := ⟨_, rfl⟩
      rw [← hk] at hclean
      have hstored : Saves n (k.access true
          (k.backend.replace portsCollection p.id p.toRecord)).2 :=
        hclean.trans ⟨rfl, (PortsRel.refl SameRecord.refl k).congr rfl rfl, fun name hname =>
          k.backend.collection_replace_of_ne _ _ hname⟩
      dsimp only
      rw [← hk]
      split
      · exact hstored
      · dsimp only
        split
        · rename_i q hq
          exact hstored.trans (.putPort hq true)
        · exact hstored
    · exact .refl n

theorem recordAt?_savePort (force : Bool) {key : PortKey} {p : Port} (hp : n.Registered key p) :
    ((savePort force n key).1 = true →
        (savePort force n key).2.storedPort? key.id = some p.toRecord) ∧
      ∀ id, key.id ≠ id → (savePort force n key).2.storedPort? id = n.storedPort? id := by
  have hid : p.id = key.id := congrArg PortKey.id hp.2
  unfold savePort
  rw [hp.portOf?]
  dsimp only
  split
  · rw [hid, putPort_backend]
    have hothers (id : String) (hne : key.id ≠ id) :
        (n.backend.replace portsCollection key.id p.toRecord).2.recordAt? portsCollection id =
          n.storedPort? id := recordAt?_replace_of_ne _ _ _ hne
    split
    · rename_i found hok
      refine ⟨fun _ => ?_, hothers⟩
      have hstored := recordAt?_replace hok
      rw [← hid] at hstored
      rw [← hid]
      exact hstored.trans (congrArg some p.toRecord_withId)
    · refine ⟨fun h => (by cases h), fun id hne => ?_⟩
      dsimp only
      split
      · rw [storedPort?, putPort_backend]
        exact hothers id hne
      · exact hothers id hne
  · exact ⟨fun h => (by cases h), fun _ _ => rfl⟩

theorem savePortList_saves (hs : n.services = []) (force : Bool) (keys : List PortKey) :
    Saves n (n.savePortList force awaitStorage keys).2 := by
  induction keys generalizing n with
  | nil => exact .refl n
  | cons key keys ih =>
    have hsave := savePort_saves force n key
    have hwait := hsave.trans (awaitStorage_saves (hsave.services.trans hs))
    exact hwait.trans (ih (hwait.services.trans hs))

/-- What is stored under an id stays while ports of other ids are stored. -/
theorem recordAt?_savePortList_of_ne (hs : n.services = []) (force : Bool) {keys : List PortKey}
    (hkeys : ∀ key ∈ keys, n.keyAt key.id = some key) {id : String}
    (hid : ∀ key ∈ keys, key.id ≠ id) :
    (n.savePortList force awaitStorage keys).2.storedPort? id = n.storedPort? id := by
  induction keys generalizing n with
  | nil => rfl
  | cons key keys ih =>
    obtain ⟨p, hp⟩ := registered_of_keyAt (hkeys key List.mem_cons_self)
    have hsave := savePort_saves force n key
    have hwait := hsave.trans (awaitStorage_saves (hsave.services.trans hs))
    refine (ih (hwait.services.trans hs) (fun other ho => ?_) fun other ho =>
      hid other (List.mem_cons_of_mem _ ho)).trans ?_
    · rw [hwait.ports.keys]
      exact hkeys other (List.mem_cons_of_mem _ ho)
    · rw [storedPort?, awaitStorage_backend (hsave.services.trans hs)]
      exact (recordAt?_savePort force hp).2 id (hid key List.mem_cons_self)

theorem recordAt?_savePortList (hs : n.services = []) (force : Bool) {keys : List PortKey}
    (hkeys : ∀ key ∈ keys, n.keyAt key.id = some key) (hnodup : keys.Nodup) {key : PortKey}
    {p : Port} (hp : n.Registered key p) (hkey : key ∈ savedKeys force awaitStorage n keys) :
    (n.savePortList force awaitStorage keys).2.storedPort? key.id = some p.toRecord := by
  induction keys generalizing n p with
  | nil => cases hkey
  | cons first keys ih =>
    obtain ⟨r, hr⟩ := registered_of_keyAt (hkeys first List.mem_cons_self)
    have hsave := savePort_saves force n first
    have hservices := hsave.services.trans hs
    have hwait := hsave.trans (awaitStorage_saves hservices)
    have hkeys' : ∀ other ∈ keys,
        (savePort force n first).2.awaitStorage.keyAt other.id = some other := by
      intro other ho
      rw [hwait.ports.keys]
      exact hkeys other (List.mem_cons_of_mem _ ho)
    have hrest
      (hmem : key ∈ savedKeys force awaitStorage (savePort force n first).2.awaitStorage keys) :
        (n.savePortList force awaitStorage (first :: keys)).2.storedPort? key.id =
          some p.toRecord := by
      obtain ⟨q, hq, hsame⟩ := hwait.ports.registered hp
      rw [← hsame.toRecord]
      exact ih (hwait.services.trans hs) hkeys' (List.nodup_cons.mp hnodup).2 hq hmem
    unfold savedKeys at hkey
    split at hkey
    · rename_i hsaved
      rcases List.mem_cons.mp hkey with rfl | hmem
      · obtain rfl : r = p := Option.some.inj (hr.1.symm.trans hp.1)
        -- the other keys have other ids
        have hid (other : PortKey) (ho : other ∈ keys) : other.id ≠ key.id := by
          intro hid
          have hother := hkeys other (List.mem_cons_of_mem _ ho)
          rw [hid, hkeys key List.mem_cons_self] at hother
          cases hother
          exact (List.nodup_cons.mp hnodup).1 ho
        refine (recordAt?_savePortList_of_ne (hwait.services.trans hs) force hkeys' hid).trans ?_
        rw [storedPort?, awaitStorage_backend hservices]
        exact (recordAt?_savePort force hr).1 hsaved
      · exact hrest hmem
    · exact hrest hkey

theorem savePort_labelled (force : Bool) (key : PortKey) (h : n.backend.Labelled) :
    (savePort force n key).2.backend.Labelled := by
  unfold savePort
  split
  · exact h
  · rename_i p _
    split
    · have hclean : (n.putPort { p with dirty := false }).backend.Labelled := by
        rwa [putPort_backend]
      dsimp only
      split
      · exact hclean.replace portsCollection p.id p.toRecord
      · dsimp only
        split
        · rw [putPort_backend]
          exact hclean.replace portsCollection p.id p.toRecord
        · exact hclean.replace portsCollection p.id p.toRecord
    · exact h

theorem savePortList_labelled (hs : n.services = []) (force : Bool) (keys : List PortKey)
    (h : n.backend.Labelled) : (n.savePortList force awaitStorage keys).2.backend.Labelled := by
  induction keys generalizing n with
  | nil => exact h
  | cons key keys ih =>
    have hsave := savePort_saves force n key
    have hservices := hsave.services.trans hs
    have hlabels : (savePort force n key).2.awaitStorage.backend.Labelled := by
      rw [awaitStorage_backend hservices]
      exact savePort_labelled force key h
    exact ih ((awaitStorage_saves hservices).services.trans hservices) hlabels

/-! ### Cleaning up -/

theorem stopPorts_backend (hs : n.services = []) (keys : List PortKey) :
    (n.stopPorts keys).backend = n.backend := by
  have hhalt (n : Node) (key : PortKey) : (n.haltPort key).backend = n.backend := by
    unfold haltPort
    split
    · rfl
    · exact (emitAll_backend ..).trans (putPort_backend ..)
  have hfold {f : Node → PortKey → Node} (hf : ∀ n key, (f n key).backend = n.backend) (n : Node) :
      (keys.foldl f n).backend = n.backend := by
    induction keys generalizing n with
    | nil => rfl
    | cons key keys ih => exact (ih (f n key)).trans (hf n key)
  have hservices : (keys.foldl haltPort n).services = [] :=
    (foldl_marks hs (fun m key _ => haltPort_marks m key) keys).services.trans hs
  refine (hfold (fun m key => ?_) _).trans ((waitFor_backend hservices _).trans (hfold hhalt n))
  split
  · rfl
  · exact putPort_backend ..

theorem cleanup_backend (h : Sound n) :
    n.cleanup.backend = (n.savePorts true awaitStorage).2.backend := by
  obtain ⟨k, hk⟩ : ∃ k, k = (n.savePorts true awaitStorage).2 := ⟨_, rfl⟩
  have hservices : k.services = [] := by
    rw [hk]
    exact (savePortList_saves h.services true _).services.trans h.services
  unfold cleanup
  dsimp only
  rw [← hk]
  exact stopPorts_backend (by exact hservices) _

theorem nodup_keys (h : Filed n) : (n.ports.map fun e => e.2.key).Nodup := by
  have hid (e : String × Port) (he : e ∈ n.ports) : e.2.key.id = e.1 :=
    h.ids e.1 e.2 (Dict.get?_of_mem h.sorted he)
  refine List.pairwise_map.mpr (h.sorted.imp_of_mem fun he hf hlt hkey => ?_)
  rw [← hid _ he, ← hid _ hf, hkey] at hlt
  exact lt_irrefl _ hlt

theorem recordAt?_cleanup (h : Sound n) {key : PortKey} {p : Port} (hp : n.Registered key p)
    (hsaved : key ∈ n.savedBy .cleanup) :
    n.cleanup.backend.recordAt? portsCollection key.id = some p.toRecord := by
  rw [cleanup_backend h]
  exact recordAt?_savePortList h.services true (keyAt_of_mem_ports h.filed) (nodup_keys h.filed) hp
    hsaved

theorem cleanup_labelled (h : Sound n) (hlabels : n.backend.Labelled) :
    n.cleanup.backend.Labelled := by
  rw [cleanup_backend h]
  exact savePortList_labelled h.services true _ hlabels

theorem collection_cleanup (h : Sound n) {name : String} (hname : name ≠ portsCollection) :
    n.cleanup.backend.collection name = n.backend.collection name := by
  rw [cleanup_backend h]
  exact (savePortList_saves h.services true _).others name hname

/-! ### Beginning anew -/

theorem restart_calm (h : Sound n) : n.restart.Calm := by
  refine ⟨(cleanup_sound h).services, fun e he => (by cases he), fun key p hp => ?_⟩
  cases hp

theorem recordOf?_restart (h : Sound n) {key : PortKey} {p : Port} (hp : n.Registered key p)
    (hsaved : key ∈ n.savedBy .cleanup)
    (hgives : GivesBack n.cleanup.backend n.restart.backend portsCollection key.id) :
    n.restart.recordOf? key.id = some p.toRecord :=
  hgives.record.trans (recordAt?_cleanup h hp hsaved)

/-- A data file gives back all that has been saved if its document is read as it was written. -/
theorem givesBack_of_file (h : Sound n) (hlabels : n.backend.Labelled) {files : DataFiles}
    {s : Store} (hfile : n.cleanup.backend = .file files s) (hdirectory : files.directory = true)
    (hnormal : s.Normal) (hs : s.ReadsBack) (id : String) :
    GivesBack n.cleanup.backend n.restart.backend portsCollection id := by
  have hreopens : Reopens n.cleanup.backend n.restart.backend := by
    change Reopens n.cleanup.backend (reopenBackend n.cleanup.backend)
    rw [hfile]
    exact reopens_file hdirectory hnormal hs
  exact hreopens.givesBack (cleanup_labelled h hlabels portsCollection) id

end ControlNode.Node
