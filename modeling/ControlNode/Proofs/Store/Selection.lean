import ControlNode.Proofs.Store.Effects
import ControlNode.Proofs.Store.Rejections

/-!
# What a filter selects

A query, an update and a removal look at the same records. A removal takes what a query finds
and an update changes it, and both leave everything else alone
(`Backend.scans_take_what_query_finds`). Tables are the exception in one respect: a record that
was filed under the empty id is found by queries only (`Backend.empty_id_is_passed_over`).
-/

namespace ControlNode

/-- A merged record has the fields of `part`, its id apart, and those of the record else. -/
theorem Record.get?_merge (r : Record) {part : Record} (hpart : Dict.Sorted part)
    (field : String) :
    Dict.get? (r.merge part) field =
      if field = "id" then Dict.get? r field
      else (Dict.get? part field).or (Dict.get? r field) := by
  by_cases hid : field = "id"
  · rw [if_pos hid, hid, get?_id_merge]
  · rw [if_neg hid]
    unfold merge
    induction part generalizing r with
    | nil => rfl
    | cons e part ih =>
      obtain ⟨hhead, htail⟩ := List.pairwise_cons.mp hpart
      rw [List.foldl_cons, ih _ htail, Dict.get?]
      by_cases hfield : e.1 = field
      · have hnone : Dict.get? part field = none :=
          Dict.get?_eq_none_of_forall_ne fun x hx => hfield ▸ (ne_of_lt (hhead x hx)).symm
        rw [if_pos hfield, hnone, if_neg fun h => hid (hfield ▸ h), Dict.get?_insert,
          if_pos hfield]
        rfl
      · rw [if_neg hfield]
        split
        · rfl
        · rw [Dict.get?_insert, if_neg hfield]

theorem Filter.select_of_valid {f : Filter} {rs : List Record} (h : ∀ r ∈ rs, ¬ f.FailsAt r) :
    f.select rs = .ok (rs.filter f.finds) := by
  cases hs : f.select rs with
  | error e =>
    obtain ⟨r, hr, hfail⟩ := (select_fails_iff f rs).mp ⟨e, hs⟩
    exact absurd hfail (h r hr)
  | ok found => rw [select_eq hs]

theorem Collection.values_having (p : Record → Bool) (c : Collection) :
    Dict.values (c.having p) = (Dict.values c).filter p := by
  rw [Dict.values, Dict.values, having, List.filter_map]
  rfl

theorem Collection.length_having (p : Record → Bool) (c : Collection) :
    (c.having p).length = ((Dict.values c).filter p).length := by
  rw [← values_having, Dict.values, List.length_map]

namespace Backend

variable {b : Backend} {name : String}

/-- Only tables pass records over, and of those that they hold only the one of the empty id. -/
theorem empty_id_of_passesOver (hc : (b.collection name).Labelled) {r : Record}
    (hr : r ∈ Dict.values (b.collection name)) (h : b.passesOver r = true) :
    b.name = "redb" ∧ Dict.get? r "id" = some (.str "") := by
  obtain ⟨e, he, rfl⟩ := List.mem_map.mp hr
  cases b with
  | tables isOpen t =>
    have hnone : e.2.id? = none := Option.isNone_iff_eq_none.mp h
    rw [hc.keyed.id_eq e he] at hnone
    have hid : e.1 = "" := by
      by_contra hne
      rw [if_neg hne] at hnone
      cases hnone
    exact ⟨rfl, by rw [hc.label e he, hid]⟩
  | _ => cases h

/-- A removal takes the records that a query has found and an update merges its fields into
them; both answer with their number, and all other records stay as they are. Left out are only
records of the empty id in tables. -/
theorem scans_take_what_query_finds (h : b.Reached) (name : String) {f : Filter}
    (hf : ∀ r ∈ Dict.values (b.collection name), ¬ f.FailsAt r) {part : Record}
    (hpart : Dict.Sorted part) :
    ∃ found, b.query name { filter := f } = .ok found ∧
      found = (Dict.values (b.collection name)).filter f.finds ∧
      (∀ r ∈ found, b.passesOver r = true →
        b.name = "redb" ∧ Dict.get? r "id" = some (.str "")) ∧
      ((b.remove name f).1 = .ok (found.filter fun r => !b.passesOver r).length ∧
        (b.remove name f).2.query name { filter := f } = .ok (found.filter b.passesOver) ∧
        ∀ other id, (b.remove name f).2.recordAt? other id =
          if other = name then (b.recordAt? other id).filter fun r => !b.takes f r
          else b.recordAt? other id) ∧
      ((b.update name part f).1 = .ok (found.filter fun r => !b.passesOver r).length ∧
        ∀ other id, (b.update name part f).2.recordAt? other id =
          if other = name then
            (b.recordAt? other id).map fun r => if b.takes f r then r.merge part else r
          else b.recordAt? other id) ∧
      ∀ (r : Record) (field : String), Dict.get? (r.merge part) field =
        if field = "id" then Dict.get? r field
        else (Dict.get? part field).or (Dict.get? r field) := by
  have ho := h.orderly
  have hc := ho.labelled name
  have hselect := Filter.select_of_valid hf
  have hcount : ((b.collection name).having (b.takes f)).length =
      (((Dict.values (b.collection name)).filter f.finds).filter
        fun r => !b.passesOver r).length := by
    rw [Collection.length_having, List.filter_filter]
    rfl
  have hremove := remove_applied ho.writable hc f
  have hupdate := update_applied ho.writable hc part f
  simp only [Collection.scan, hselect, hcount] at hremove hupdate
  have hleft : Dict.values ((b.remove name f).2.collection name) =
      (Dict.values (b.collection name)).filter fun r => !b.takes f r := by
    rw [hremove.collection, Function.update_self, Collection.values_having]
  have hvalid : ∀ r ∈ Dict.values ((b.remove name f).2.collection name), ¬ f.FailsAt r := by
    rw [hleft]
    exact fun r hr => hf r (List.mem_filter.mp hr).1
  refine ⟨_, ?_, rfl, ?_, ⟨hremove.answer, ?_, fun other id => ?_⟩,
    ⟨hupdate.answer, fun other id => ?_⟩, fun r field => r.get?_merge hpart field⟩
  · rw [query_filter (isReady_of_isWritable ho.writable), hselect]
    rfl
  · exact fun r hr hover => empty_id_of_passesOver hc (List.mem_filter.mp hr).1 hover
  · rw [query_filter (isReady_of_isWritable hremove.writable), Filter.select_of_valid hvalid, hleft,
      List.filter_filter, List.filter_filter, Except.mapError]
    refine congrArg Except.ok (List.filter_congr fun r _ => ?_)
    unfold takes
    cases f.finds r <;> cases b.passesOver r <;> rfl
  · rw [recordAt?_applied hremove]
    split
    · rename_i hname
      rw [hname]
      exact Dict.get?_filter hc.sorted (fun r => !b.takes f r) id
    · rfl
  · rw [recordAt?_applied hupdate]
    split
    · rename_i hname
      rw [hname]
      exact Dict.get?_map hc.sorted (fun r => if b.takes f r then Record.merge r part else r) id
    · rfl

/-- Tables with a switch that is on, and with another one that was filed under the empty id. -/
def switches : Backend :=
  ((RecordRequest.replace "switches" "" [("on", .bool true)]).run
    ((RecordRequest.insert "switches" [("id", .str "hall"), ("on", .bool true)]).run
      (init (.tables false {})).2).2).2

def isOn : Filter := [("on", .bool true)]

theorem scans_take_what_query_finds_switches :
    switches.Reached ∧ (∀ r ∈ Dict.values (switches.collection "switches"), ¬ isOn.FailsAt r) ∧
    Dict.Sorted [("seen", Json.bool true)] ∧
    (∃ found, switches.query "switches" { filter := isOn } = .ok found ∧ found.length = 2) ∧
    (switches.remove "switches" isOn).1 = .ok 1 ∧
    (switches.remove "switches" isOn).2.query "switches" { filter := isOn } =
      .ok [[("id", .str ""), ("on", .bool true)]] ∧
    (switches.update "switches" [("seen", .bool true)] isOn).1 = .ok 1 ∧
    (switches.update "switches" [("seen", .bool true)] isOn).2.recordAt? "switches" "hall" =
      some [("id", .str "hall"), ("on", .bool true), ("seen", .bool true)] := by
  have hopened : ofName "redb" = .ok (.tables false {}) := rfl
  have hreached : switches.Reached := .answered (.answered (.opened hopened) _) _
  have hvalid : ∀ r ∈ Dict.values (switches.collection "switches"), ¬ isOn.FailsAt r := by
    rintro r - ⟨e, he⟩
    simp only [isOn, Filter.matchesRecord, Filter.Condition.ofJson, Filter.Condition.matches, bind,
      Except.bind] at he
    split at he <;> cases he
  have hpart : Dict.Sorted [("seen", Json.bool true)] := by decide
  obtain ⟨found, hquery, rfl, -, ⟨hremove, hafter, -⟩, ⟨hupdate, hmerged⟩, -⟩ :=
    scans_take_what_query_finds hreached "switches" hvalid hpart
  exact ⟨hreached, hvalid, hpart, ⟨_, hquery, rfl⟩, hremove, hafter, hupdate,
    hmerged "switches" "hall"⟩

/-- A record that was filed under the empty id: a memory drops it when asked to drop all
records, tables answer that there was none to drop or to change, and still find it. -/
theorem empty_id_is_passed_over :
    (((init (.memory {})).2.replace "t" "" []).2.remove "t" []).1 = .ok 1 ∧
    ((init (.tables false {})).2.replace "t" "" []).2.query "t" {} = .ok [[("id", .str "")]] ∧
    (((init (.tables false {})).2.replace "t" "" []).2.update "t" [("on", .bool true)] []).1 =
      .ok 0 ∧
    (((init (.tables false {})).2.replace "t" "" []).2.remove "t" []).1 = .ok 0 ∧
    (((init (.tables false {})).2.replace "t" "" []).2.remove "t" []).2.query "t" {} =
      .ok [[("id", .str "")]] :=
  ⟨rfl, query_all rfl "t", rfl, rfl, query_all rfl "t"⟩

end Backend

end ControlNode
