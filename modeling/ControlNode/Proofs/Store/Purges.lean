import ControlNode.Proofs.Store.Lookups
import ControlNode.Proofs.Store.Samples

/-!
# Dropping what is stored of one object

A store in memory drops the records of an id or the samples of an object and keeps all others
(`remove_byId`, `series_removeSamples_of_object`).
-/

namespace ControlNode

theorem Dict.get?_map_entries {κ α β : Type} [DecidableEq κ] (d : Dict κ α) (f : κ × α → β)
    (key : κ) :
    get? (d.map fun e => (e.1, f e)) key = (d.get? key).map fun a => f (key, a) := by
  induction d with
  | nil => rfl
  | cons e d ih =>
    rw [List.map_cons, get?, get?]
    split
    · rename_i hk
      subst hk
      rfl
    · exact ih

namespace Store

variable {s : Store}

theorem remove_byId (s : Store) (name id : String) :
    (∃ count, (s.remove name (Filter.byId id)).1 = .ok count) ∧
      (s.remove name (Filter.byId id)).2.collection = Function.update s.collection name
        ((s.collection name).filter fun e => !e.2.hasId id) := by
  obtain ⟨hresult, hcollection⟩ := s.remove_eq name (Filter.byId id)
  rw [Collection.remove_eq, Filter.select_byId] at hresult hcollection
  rw [← Filter.finds_byId id]
  exact ⟨⟨_, hresult⟩, hcollection⟩

theorem samples_remove (s : Store) (name : String) (f : Filter) :
    (s.remove name f).2.samples = s.samples := by
  unfold remove
  split <;> rfl

/-! ### Samples -/

/-- A removal thins the series of the wanted objects, if each object is listed once. -/
theorem series_removeSamples {name : String} (hs : Dict.Sorted (s.objects name))
    (ids : Option (List String)) (r : SampleRange) (other object : String) :
    (s.removeSamples name ids r).2.series other object =
      if other = name then
        (s.series other object).filter fun x => !(wanted ids object && r.contains x.1)
      else s.series other object := by
  rw [series_eq, objects_removeSamples]
  by_cases hname : other = name
  · subst hname
    have hkept : Dict.Sorted (remaining (s.objects other) ids r) := List.pairwise_map.mpr hs
    have hfind : (remaining (s.objects other) ids r).get? object =
        ((s.objects other).get? object).map fun series =>
          series.filter fun x => !(wanted ids object && r.contains x.1) := by
      rw [remaining, Dict.get?_map_entries]
    rw [if_pos rfl, if_pos rfl, Dict.get?_filter hkept (fun series => !series.isEmpty), hfind,
      series_eq]
    cases hget : (s.objects other).get? object with
    | none => rfl
    | some series =>
      simp only [Option.map_some, Option.getD_some]
      generalize series.filter (fun x => !(wanted ids object && r.contains x.1)) = left
      cases left <;> rfl
  · rw [if_neg fun h => hname h.symm, series_eq, if_neg hname]

theorem series_removeSamples_of_object {name : String} (hs : Dict.Sorted (s.objects name))
    (id other object : String) :
    (s.removeSamples name (some [id]) {}).2.series other object =
      if other = name ∧ object = id then [] else s.series other object := by
  have hall (time : Int) : ({} : SampleRange).contains time = true := rfl
  rw [series_removeSamples hs]
  by_cases hname : other = name
  · by_cases hid : object = id <;> simp [wanted, hall, hname, hid]
  · rw [if_neg hname, if_neg fun h => hname h.1]

end Store

end ControlNode
