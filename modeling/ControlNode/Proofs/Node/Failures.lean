import ControlNode.Proofs.Node.Removals

/-!
# Additions and removals that fail

The registry is changed before anything is stored or dropped, and nothing is undone when storage
fails: a virtual port whose definition cannot be stored stays registered, and a port whose records
cannot be dropped stays away. Every other failure leaves the node as it was (`registry_of_failed`).
-/

namespace ControlNode.Node

open Port

variable {n m : Node}

/-! ### Adding -/

theorem addVirtual_of_error (hs : n.services = []) {d : VirtualPortDef} {e : NodeError}
    (h : n.addVirtual d = (.error e, m)) :
    (∃ fault, e = .portLoad d.id fault ∧ m = n) ∨
      ∃ cause, e = .persist cause ∧ n.keyAt d.id = none ∧
        m.keyAt = Function.update n.keyAt d.id (some ⟨d.id, n.nextSerial⟩) := by
  cases hfault : n.idFault? d.id with
  | some fault =>
    rw [addVirtual, addDefined, add_of_fault hfault] at h
    cases h
    exact .inl ⟨fault, rfl, rfl⟩
  | none =>
    have hfree : n.keyAt d.id = none := by
      rw [keyAt, port?_of_idFault? hfault]
      rfl
    obtain ⟨attrs, k, -, hadd, -⟩ := add_setUp hs hfault d.device true d.attrs
    have hkeys := keyAt_add hs hfault d.device true d.attrs
    have hlasts := add_extends hs d.id d.device true d.attrs
    rw [hadd] at hkeys hlasts
    have hstored := accessAwait_lasts (hlasts.services.trans hs) true
      (k.backend.replace definitionsCollection d.id d.toRecord)
    rw [addVirtual, addDefined, hadd] at h
    dsimp only at h
    split at h
    · cases h
    · rename_i cause j hj
      rw [hj] at hstored
      cases h
      exact .inr ⟨cause, rfl, hfree, (funext hstored.keys).trans hkeys⟩

/-! ### Removing -/

theorem remove_of_error (hn : Sound n) {id : String} {purged : Bool} {e : NodeError}
    (h : n.remove id purged = (.error e, m)) :
    (e = .noSuchPort id ∧ m = n) ∨
      ∃ cause, e = .persist cause ∧ purged = true ∧ (n.keyAt id).isSome ∧
        m.keyAt = Function.update n.keyAt id none := by
  cases hp : n.port? id with
  | none =>
    rw [remove, hp] at h
    cases h
    exact .inl ⟨rfl, rfl⟩
  | some p =>
    obtain rfl := hn.filed.ids id p hp
    have hregistered : (n.keyAt p.id).isSome := by
      rw [keyAt, hp]
      rfl
    have hkeys := detach_keyAt hn.services p
    have hpurge := purge_lasts (detach_services hn.services p) p
    rw [remove_eq hp] at h
    cases purged with
    | false => cases h
    | true =>
      rw [if_pos rfl] at h
      generalize (n.detach p).purge p = r at h hpurge
      obtain ⟨cause | _, k⟩ := r
      · cases h
        exact .inr ⟨cause, rfl, rfl, hregistered, (funext hpurge.keys).trans hkeys⟩
      · cases h

/-! ### Both -/

/-- Whatever the backend refuses, an addition or a removal that fails leaves the node as it was,
unless storage has failed: then the registry is what it would be after a success. -/
theorem registry_of_failed (h : Sound n) :
    (∀ d e m, n.addVirtual d = (.error e, m) → (∃ fault, e = .portLoad d.id fault ∧ m = n) ∨
      ∃ cause, e = .persist cause ∧ n.keyAt d.id = none ∧
        m.keyAt = Function.update n.keyAt d.id (some ⟨d.id, n.nextSerial⟩)) ∧
    (∀ id purged e m, n.remove id purged = (.error e, m) → (e = .noSuchPort id ∧ m = n) ∨
      ∃ cause, e = .persist cause ∧ purged = true ∧ (n.keyAt id).isSome ∧
        m.keyAt = Function.update n.keyAt id none) :=
  ⟨fun _ _ _ hfailed => addVirtual_of_error h.services hfailed,
    fun _ _ _ _ hfailed => remove_of_error h hfailed⟩

/-- A virtual port that has been stored, before storage fails. -/
def forsaken : List Operation :=
  [.addVirtual { id := "lamp", type := .boolean }, .storage (.recordsOnly true {})]

def lacksStorage {α : Type} : Except NodeError α → Bool
  | .error (.persist _) => true
  | _ => false

theorem exists_of_lacksStorage {α : Type} {r : Except NodeError α × Node}
    (h : lacksStorage r.1 = true) : ∃ cause m, r = (.error (.persist cause), m) := by
  obtain ⟨(_ | _ | _ | cause) | _, m⟩ := r
  case error.persist => exact ⟨cause, m, rfl⟩
  all_goals cases h

/-- Another virtual port cannot be stored, and the records of the first one cannot be dropped. -/
theorem registry_of_failed_storage :
    let n := (create {} (.recordsOnly false {}) 0).after forsaken
    (∃ cause m, n.addVirtual { id := "fan", type := .boolean } = (.error (.persist cause), m) ∧
      m.keyAt = Function.update n.keyAt "fan" (some ⟨"fan", 1⟩)) ∧
    ∃ cause m, n.remove "lamp" true = (.error (.persist cause), m) ∧
      m.keyAt = Function.update n.keyAt "lamp" none := by
  intro n
  have hsound : Sound n := after_sound (sound_create _ _ _ _) _
  obtain ⟨hadd, hremove⟩ := registry_of_failed hsound
  have hunstored : lacksStorage (n.addVirtual { id := "fan", type := .boolean }).1 = true := by
    decide +kernel
  have hundropped : lacksStorage (n.remove "lamp" true).1 = true := by decide +kernel
  have hserial : n.nextSerial = 1 := by decide +kernel
  rw [← hserial]
  refine ⟨?_, ?_⟩
  · obtain ⟨cause, m, hfailed⟩ := exists_of_lacksStorage hunstored
    rcases hadd _ _ _ hfailed with ⟨_, he, -⟩ | ⟨_, -, -, hkeys⟩
    · cases he
    · exact ⟨cause, m, hfailed, hkeys⟩
  · obtain ⟨cause, m, hfailed⟩ := exists_of_lacksStorage hundropped
    rcases hremove _ _ _ _ hfailed with ⟨he, -⟩ | ⟨_, -, -, -, hkeys⟩
    · cases he
    · exact ⟨cause, m, hfailed, hkeys⟩

/-- A virtual port whose addition has failed is registered. -/
theorem addVirtual_not_undone :
    let n := create {} (.recordsOnly true {}) 0
    ∃ d e m, n.addVirtual d = (.error e, m) ∧ m.keyAt ≠ n.keyAt := by
  intro n
  have hunstored : lacksStorage (n.addVirtual { id := "fan", type := .boolean }).1 = true := by
    decide +kernel
  have hkey : (n.addVirtual { id := "fan", type := .boolean }).2.keyAt "fan" =
      some ⟨"fan", 0⟩ := by decide +kernel
  obtain ⟨cause, m, hfailed⟩ := exists_of_lacksStorage hunstored
  refine ⟨_, _, m, hfailed, fun hsame => ?_⟩
  rw [hfailed, hsame] at hkey
  cases hkey

end ControlNode.Node
