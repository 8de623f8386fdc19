import ControlNode.Proofs.Node.Additions
import ControlNode.Proofs.Node.Changes

/-!
# Loading

Configured ports are sorted by what is wrong with them (`triage`). Those that are sorted out leave
no trace but an error each: the others are added in the order of the list, to the node to which
they are added without them (`load_isolates`).
-/

namespace ControlNode.Node

open Port

variable {n m : Node}

/-! ### What is wrong with a configured port -/

def PortConfig.target (mappings : Dict String String) (c : PortConfig) : String :=
  (Dict.get? mappings c.id).getD c.id

def idFlaw? (taken : List String) (id : String) : Option LoadFault :=
  if Text.allBlank id.toList then some .emptyId
  else if id ∈ taken then some .duplicateId
  else none

/-- Why a configured port is left out where the given ids are taken. -/
def PortConfig.flaw? (mappings : Dict String String) (taken : List String) (c : PortConfig) :
    Option NodeError :=
  let id := c.target mappings
  if (Dict.get? mappings c.id).any fun mapped => Text.allBlank mapped.toList then
    some (.portLoad c.id .emptyMapping)
  else match Device.builtIn.build c.driver c.settings with
    | .error (.unknownDriver name) => some (.portLoad id (.unknownDriver name))
    | .error (.settings cause) => some (.portLoad id (.settings cause))
    | .ok _ => (idFlaw? taken id).map (.portLoad id)

/-- Configured ports with nothing wrong, the ids that they take, and what is wrong with the
others. -/
structure Triage where
  accepted : List PortConfig := []
  ids : List String := []
  errors : List NodeError := []

/-- Sorts configured ports in turn, of which each one takes its id. -/
def triage (mappings : Dict String String) : (taken : List String) → List PortConfig → Triage
  | _, [] => {}
  | taken, c :: rest =>
    match c.flaw? mappings taken with
    | some e =>
      let t := triage mappings taken rest
      { t with errors := e :: t.errors }
    | none =>
      let id := c.target mappings
      let t := triage mappings (taken ++ [id]) rest
      { t with accepted := c :: t.accepted, ids := id :: t.ids }

/-! ### One port -/

theorem mappedId_eq (mappings : Dict String String) (c : PortConfig) : mappedId mappings c =
    if (Dict.get? mappings c.id).any fun mapped => Text.allBlank mapped.toList then
      .error (.portLoad c.id .emptyMapping)
    else .ok (c.target mappings) := by
  unfold mappedId PortConfig.target
  cases Dict.get? mappings c.id <;> rfl

def HasIds (n : Node) (ids : List String) : Prop := ∀ id, n.port? id = none ↔ id ∉ ids

theorem HasIds.idFault? {taken : List String} (h : n.HasIds taken) (id : String) :
    n.idFault? id = idFlaw? taken id := by
  have htaken : (n.port? id).isSome = true ↔ id ∈ taken := by
    rw [← not_iff_not, ← h id, Option.not_isSome_iff_eq_none]
  simp only [Node.idFault?, idFlaw?, htaken]

/-- A port with a flaw leaves the node as it is. Any other port is added under the id to which it
is mapped. -/
theorem loadPort_cases {taken : List String} (h : n.HasIds taken) (mappings : Dict String String)
    (c : PortConfig) :
    (∃ e, c.flaw? mappings taken = some e ∧ loadPort mappings n c = (some e, n)) ∨
      ∃ device, c.flaw? mappings taken = none ∧ n.idFault? (c.target mappings) = none ∧
        loadPort mappings n c = (none, (n.add (c.target mappings) device).2) := by
  unfold PortConfig.flaw? loadPort buildDevice
  rw [mappedId_eq]
  dsimp only
  by_cases hmapped : (Dict.get? mappings c.id).any fun mapped => Text.allBlank mapped.toList
  · simp only [if_pos hmapped]
    exact .inl ⟨_, rfl, rfl⟩
  · simp only [if_neg hmapped]
    rcases Device.builtIn.build c.driver c.settings with (_ | _) | device
    case error.unknownDriver => exact .inl ⟨_, rfl, rfl⟩
    case error.settings => exact .inl ⟨_, rfl, rfl⟩
    case ok =>
      dsimp only
      rw [← h.idFault?]
      cases hfault : n.idFault? (c.target mappings) with
      | some fault =>
        rw [add_of_fault hfault]
        exact .inl ⟨_, rfl, rfl⟩
      | none =>
        refine .inr ⟨device, rfl, rfl, ?_⟩
        rw [add_of_no_fault hfault]

/-! ### All ports -/

theorem add_nextSerial (hs : n.services = []) {id : String} (hfault : n.idFault? id = none)
    (device : Device) (isVirtual : Bool) (defaults : Record) :
    (n.add id device isVirtual defaults).2.nextSerial = n.nextSerial + 1 := by
  obtain ⟨-, hmarks⟩ := prepare_marks hs id device isVirtual defaults
  rw [add_of_no_fault hfault, startWorkers_frame, register_frame (hmarks.services.trans hs)]
  exact hmarks.nextSerial

/-- The ports of the given ids have been added to a node in this order, and nothing has been
stored. -/
structure Loaded (n : Node) (ids : List String) (m : Node) : Prop where
  services : m.services = []
  backend : m.backend = n.backend
  nextSerial : m.nextSerial = n.nextSerial + ids.length
  keys : ∀ id, m.keyAt id = (ids.idxOf? id).map fun i => ⟨id, n.nextSerial + i⟩

namespace Loaded

variable {k : Node} {ids : List String}

theorem none (hs : n.services = []) (hports : n.ports = []) : Loaded n [] n := by
  refine ⟨hs, rfl, rfl, fun id => ?_⟩
  rw [keyAt, port?, hports]
  rfl

theorem hasIds (h : Loaded n ids m) : m.HasIds ids := by
  intro id
  have hkey := h.keys id
  rw [keyAt] at hkey
  rw [← Option.map_eq_none_iff, hkey, Option.map_eq_none_iff, List.idxOf?_eq_none_iff]

/-- A query is answered, and no port is added meanwhile. -/
theorem accessAwait {α : Type} (h : Loaded n ids m) {op : Backend.Outcome α}
    (hop : op.2 = m.backend) : Loaded n ids (m.access false op).2.awaitStorage := by
  have hmoved := accessAwait_moved h.services false op
  refine ⟨hmoved.services.trans h.services, ?_, ?_, fun id => ?_⟩
  · exact (awaitStorage_backend (n := (m.access false op).2) h.services).trans (hop.trans h.backend)
  · rw [hmoved.rest]
    exact h.nextSerial
  · exact (hmoved.ports.keys id).trans (h.keys id)

theorem add (h : Loaded n ids m) {id : String} (hfault : m.idFault? id = Option.none)
    (device : Device) : Loaded n (ids ++ [id]) (m.add id device).2 := by
  obtain ⟨attrs, k, q, hadd, hbackend, -⟩ := add_setUp h.services hfault device false []
  have hkeys := keyAt_add h.services hfault device false []
  have hserial := add_nextSerial h.services hfault device false []
  have hservices := (add_extends h.services id device false []).services
  rw [hadd] at hkeys hserial hservices ⊢
  refine ⟨hservices.trans h.services, hbackend.trans h.backend, ?_, fun other => ?_⟩
  · rw [hserial, h.nextSerial, List.length_append]
    rfl
  · have hfree : ids.idxOf? id = Option.none :=
      List.idxOf?_eq_none_iff.mpr ((h.hasIds id).mp (port?_of_idFault? hfault))
    have hlast : (ids ++ [id]).idxOf? other =
        (ids.idxOf? other).or (([id].idxOf? other).map (· + ids.length)) := List.findIdx?_append
    rw [hkeys, h.nextSerial, hlast, List.idxOf?_singleton]
    by_cases hother : other = id
    · rw [hother, Function.update_self, hfree]
      simp
    · rw [Function.update_of_ne hother, h.keys, if_neg (by simpa using Ne.symm hother)]
      simp

end Loaded

/-- The accepted ports are added in turn, with or without the others. -/
theorem loadEach_triage {taken : List String} (h : Loaded n taken m) (mappings : Dict String String)
    (configs : List PortConfig) :
    let t := triage mappings taken configs
    (loadEach (loadPort mappings) m configs).1 = t.errors ∧
      loadEach (loadPort mappings) m t.accepted =
        ([], (loadEach (loadPort mappings) m configs).2) ∧
      Loaded n (taken ++ t.ids) (loadEach (loadPort mappings) m configs).2 := by
  induction configs generalizing taken m with
  | nil => exact ⟨rfl, rfl, (List.append_nil taken).symm ▸ h⟩
  | cons c rest ih =>
    rcases loadPort_cases h.hasIds mappings c with
      ⟨e, hflaw, hload⟩ | ⟨device, hflaw, hfault, hload⟩
    · obtain ⟨herrors, haccepted, hloaded⟩ := ih h
      simp only [triage, hflaw, loadEach, hload]
      exact ⟨congrArg (e :: ·) herrors, haccepted, hloaded⟩
    · obtain ⟨herrors, haccepted, hloaded⟩ := ih (h.add hfault device)
      rw [List.append_assoc] at hloaded
      simp only [triage, hflaw, loadEach, hload, haccepted]
      exact ⟨herrors, rfl, hloaded⟩

/-! ### Loading -/

/-- Records that define no port are passed over. -/
theorem loadEach_malformed {rs : List Record} (h : ∀ r ∈ rs, VirtualPortDef.ofRecord? r = none) :
    loadEach loadDefined n rs = ([], n) := by
  induction rs with
  | nil => rfl
  | cons r rs ih =>
    have hstep : loadDefined n r = (none, n) := by
      rw [loadDefined, h r List.mem_cons_self]
    simp only [loadEach, hstep, ih fun r hr => h r (List.mem_cons_of_mem _ hr)]
    rfl

/-- A node with its collections prepared. -/
def indexed (n : Node) : Node :=
  let m := (n.access false n.backend.ensureIndex).2.awaitStorage
  (m.access false m.backend.ensureIndex).2.awaitStorage

/-- No port is defined in storage. -/
def Undefined (b : Backend) : Prop :=
  ∀ rs, b.query definitionsCollection {} = .ok rs → ∀ r ∈ rs, VirtualPortDef.ofRecord? r = none

theorem load_undefined (hdefs : Undefined n.backend) {configs : List PortConfig}
    {mappings : Dict String String} {errors : List NodeError}
    (hports : loadEach (loadPort mappings) n.indexed configs = (errors, m))
    (hbackend : m.backend = n.backend) :
    n.load configs mappings = (errors,
      (m.access false (m.backend.query definitionsCollection {}, m.backend)).2.awaitStorage) := by
  have hstored : ∀ r ∈ (m.backend.query definitionsCollection {}).toOption.getD [],
      VirtualPortDef.ofRecord? r = none := by
    rw [hbackend]
    cases hquery : n.backend.query definitionsCollection {} with
    | error e => exact fun _ hr => absurd hr List.not_mem_nil
    | ok rs => exact hdefs rs hquery
  have hpassed (k : Node) := loadEach_malformed (n := k) hstored
  unfold load
  dsimp only
  rw [← indexed, hports]
  dsimp only [access]
  rw [hpassed, List.append_nil]

/-- Loading leaves out the ports that have a flaw, with an error each, and no other; to the node
it makes no difference whether they are in the list. -/
theorem load_isolates (hs : n.services = []) (hports : n.ports = []) (hdefs : Undefined n.backend)
    (configs : List PortConfig) (mappings : Dict String String) :
    let t := triage mappings [] configs
    (n.load configs mappings).1 = t.errors ∧
      (∀ id, (n.load configs mappings).2.keyAt id =
        (t.ids.idxOf? id).map fun i => ⟨id, n.nextSerial + i⟩) ∧
      n.load t.accepted mappings = ([], (n.load configs mappings).2) := by
  have hopen : Loaded n [] n := .none hs hports
  have hindexed : Loaded n [] n.indexed :=
    (hopen.accessAwait n.backend.ensureIndex_snd).accessAwait (Backend.ensureIndex_snd _)
  obtain ⟨herrors, haccepted, hloaded⟩ := loadEach_triage hindexed mappings configs
  have hall := load_undefined hdefs (Prod.ext rfl rfl) hloaded.backend
  have hfew := load_undefined hdefs haccepted hloaded.backend
  dsimp only
  rw [hall, hfew]
  exact ⟨herrors, (hloaded.accessAwait rfl).keys, rfl⟩

/-- Ports of which two can be added: the others are of an unknown kind, refuse their settings, or
come to an id that is blank or taken. -/
def unsorted : List PortConfig :=
  [⟨"dummy", "old", [("type", .str "number")]⟩, ⟨"gpio", "pin4", []⟩, ⟨"dummy", "other", []⟩,
    ⟨"dummy", "new", []⟩, ⟨"virtual", "bare", []⟩, ⟨"dummy", "lost", []⟩, ⟨"dummy", " ", []⟩]

theorem load_isolates_unsorted :
    let n := create {} (.memory {}) 0
    let mappings := [("lost", "\t"), ("old", "new")]
    let loaded := n.load unsorted mappings
    loaded.1.map NodeError.message =
      ["Failed to load port pin4: unknown driver gpio",
        "Failed to load port new: duplicate port id",
        "Failed to load port bare: malformed settings",
        "Failed to load port lost: empty mapping target",
        "Failed to load port  : empty port id"] ∧
      loaded.2.keyAt "new" = some ⟨"new", 0⟩ ∧ loaded.2.keyAt "other" = some ⟨"other", 1⟩ ∧
      loaded.2.keyAt "pin4" = none ∧
      ∃ accepted, accepted.map PortConfig.id = ["old", "other"] ∧
        n.load accepted mappings = ([], loaded.2) := by
  intro n mappings loaded
  have hdefs : Undefined n.backend := by
    intro rs hrs
    have hall := Backend.query_all (b := n.backend) rfl definitionsCollection
    have hnone : rs = [] := Except.ok.inj (hrs.symm.trans hall)
    exact fun _ hr => absurd (hnone ▸ hr) List.not_mem_nil
  obtain ⟨herrors, hkeys, hsame⟩ := load_isolates rfl rfl hdefs unsorted mappings
  have hids : (triage mappings [] unsorted).ids = ["new", "other"] := by decide +kernel
  rw [hids] at hkeys
  refine ⟨?_, hkeys "new", hkeys "other", hkeys "pin4", _, ?_, hsame⟩
  · rw [herrors]
    decide +kernel
  · decide +kernel

end ControlNode.Node
