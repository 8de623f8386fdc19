import ControlNode.Proofs.Dict
import ControlNode.Store.Basic

/-!
# Invalid filters

A filter is read field by field and only as far as its conditions hold. One that has been found
to hold of some record has been read to its end, so it is valid for every other record too: a
scan that meets an invalid condition has not matched anything before.
-/

namespace ControlNode

namespace Filter

theorem holds_valid {op : Operator} {actual operand : Json} {hit : Bool}
    (h : holds op actual operand = .ok hit) (other : Json) :
    ∃ hit', holds op other operand = .ok hit' := by
  cases op with
  | isIn =>
    cases operand with
    | arr items => exact ⟨_, rfl⟩
    | _ => cases h
  | _ => cases operand <;> exact ⟨_, rfl⟩

theorem allHold_valid {ops : List (Operator × Json)} {actual : Json}
    (h : allHold actual ops = .ok true) (other : Json) :
    ∃ hit, allHold other ops = .ok hit := by
  induction ops with
  | nil => exact ⟨true, rfl⟩
  | cons e ops ih =>
    obtain ⟨op, operand⟩ := e
    cases hop : holds op actual operand with
    | error e => simp [allHold, hop, bind, Except.bind] at h
    | ok hit =>
      cases hit with
      | false => simp [allHold, hop, bind, Except.bind] at h
      | true =>
        have hrest : allHold actual ops = .ok true := by
          simpa [allHold, hop, bind, Except.bind] using h
        obtain ⟨hit', hother⟩ := holds_valid hop other
        cases hit' with
        | false => exact ⟨false, by simp [allHold, hother, bind, Except.bind]⟩
        | true =>
          obtain ⟨last, hlast⟩ := ih hrest
          exact ⟨last, by simpa [allHold, hother, bind, Except.bind] using hlast⟩

theorem Condition.matches_valid {c : Condition} {actual : Json}
    (h : c.matches actual = .ok true) (other : Json) : ∃ hit, c.matches other = .ok hit := by
  cases c with
  | equals value => exact ⟨_, rfl⟩
  | operators ops => exact allHold_valid h other

theorem matchesRecord_valid {f : Filter} {r : Record} (h : matchesRecord r f = .ok true)
    (other : Record) : ∃ hit, matchesRecord other f = .ok hit := by
  induction f with
  | nil => exact ⟨true, rfl⟩
  | cons e rest ih =>
    obtain ⟨field, cond⟩ := e
    cases hc : Condition.ofJson cond with
    | error e => simp [matchesRecord, hc, bind, Except.bind] at h
    | ok c =>
      cases hm : c.matches ((Dict.get? r field).getD .null) with
      | error e => simp [matchesRecord, hc, hm, bind, Except.bind] at h
      | ok hit =>
        cases hit with
        | false => simp [matchesRecord, hc, hm, bind, Except.bind] at h
        | true =>
          have hrest : matchesRecord r rest = .ok true := by
            simpa [matchesRecord, hc, hm, bind, Except.bind] using h
          obtain ⟨hit', hother⟩ := c.matches_valid hm ((Dict.get? other field).getD .null)
          cases hit' with
          | false => exact ⟨false, by simp [matchesRecord, hc, hother, bind, Except.bind]⟩
          | true =>
            obtain ⟨last, hlast⟩ := ih hrest
            exact ⟨last, by simpa [matchesRecord, hc, hother, bind, Except.bind] using hlast⟩

def finds (f : Filter) (r : Record) : Bool := matchesRecord r f matches .ok true

theorem matchesRecord_eq {f : Filter} {r : Record} {hit : Bool}
    (h : matchesRecord r f = .ok hit) : hit = f.finds r := by
  cases hit <;> simp [finds, h]

theorem select_cons {f : Filter} {r : Record} {hit : Bool} (h : matchesRecord r f = .ok hit)
    (rs : List Record) :
    f.select (r :: rs) = (f.select rs).map fun rest => if hit then r :: rest else rest := by
  cases hs : f.select rs <;> simp [select, h, hs, bind, Except.bind, Except.map]

theorem select_valid {f : Filter} {r : Record} (h : matchesRecord r f = .ok true)
    (rs : List Record) : ∃ found, f.select rs = .ok found := by
  induction rs with
  | nil => exact ⟨[], rfl⟩
  | cons other rs ih =>
    obtain ⟨hit, hhit⟩ := matchesRecord_valid h other
    obtain ⟨found, hfound⟩ := ih
    exact ⟨if hit then other :: found else found, by rw [select_cons hhit, hfound]; rfl⟩

theorem select_eq {f : Filter} {rs found : List Record} (h : f.select rs = .ok found) :
    found = rs.filter f.finds := by
  induction rs generalizing found with
  | nil => cases h; rfl
  | cons r rs ih =>
    cases hm : matchesRecord r f with
    | error e => simp [select, hm, bind, Except.bind] at h
    | ok hit =>
      rw [select_cons hm] at h
      cases hs : f.select rs with
      | error e => simp [hs, Except.map] at h
      | ok rest =>
        have hfound : found = if hit then r :: rest else rest := by
          simpa [hs, Except.map] using h.symm
        rw [hfound, matchesRecord_eq hm, ih hs, List.filter_cons]

end Filter

/-! ### Scans of a collection -/

namespace Collection

/-- The collection with `part` merged into the records that a filter finds. -/
def merged (part : Record) (f : Filter) (c : Collection) : Collection :=
  c.map fun e => (e.1, if f.finds e.2 then e.2.merge part else e.2)

/-- Where a condition turns out to be invalid, no record has been changed. -/
theorem update_eq (part : Record) (f : Filter) (c : Collection) :
    c.update part f = match f.select (Dict.values c) with
      | .error e => (.error (.invalidFilter e), c)
      | .ok found => (.ok found.length, c.merged part f) := by
  induction c with
  | nil => rfl
  | cons x c ih =>
    obtain ⟨id, r⟩ := x
    cases hm : f.matchesRecord r with
    | error e => simp [update, Dict.values, Filter.select, hm, bind, Except.bind]
    | ok hit =>
      have hfinds := Filter.matchesRecord_eq hm
      have hsel := Filter.select_cons hm (Dict.values c)
      cases hs : f.select (Dict.values c) with
      | error e =>
        have hmiss : hit = false := by
          cases hit with
          | false => rfl
          | true =>
            obtain ⟨found, hfound⟩ := Filter.select_valid hm (Dict.values c)
            rw [hs] at hfound
            cases hfound
        simp [update, hm, ih, hmiss, hsel, hs, Except.map]
      | ok rest =>
        cases hit <;> simp [update, hm, ih, hsel, hs, Except.map, merged, ← hfinds]

theorem partition_eq (f : Filter) (c : Collection) :
    partition f c = match f.select (Dict.values c) with
      | .error e => .error (.invalidFilter e)
      | .ok _ => .ok (c.filter fun e => f.finds e.2, c.filter fun e => !f.finds e.2) := by
  induction c with
  | nil => rfl
  | cons x c ih =>
    obtain ⟨id, r⟩ := x
    cases hm : f.matchesRecord r with
    | error e => simp [partition, Dict.values, Filter.select, hm, bind, Except.bind]
    | ok hit =>
      have hfinds := Filter.matchesRecord_eq hm
      have hsel := Filter.select_cons hm (Dict.values c)
      cases hs : f.select (Dict.values c) with
      | error e =>
        simp [partition, hm, ih, hsel, hs, Except.map]
      | ok rest =>
        cases hit <;> simp [partition, hm, ih, hsel, hs, Except.map, ← hfinds]

theorem length_found {f : Filter} {c : Collection} {found : List Record}
    (h : f.select (Dict.values c) = .ok found) :
    (c.filter fun e => f.finds e.2).length = found.length := by
  rw [Filter.select_eq h, Dict.values, List.filter_map, List.length_map]
  rfl

theorem remove_eq (f : Filter) (c : Collection) :
    c.remove f = match f.select (Dict.values c) with
      | .error e => (.error (.invalidFilter e), c)
      | .ok found => (.ok found.length, c.filter fun e => !f.finds e.2) := by
  cases hs : f.select (Dict.values c) with
  | error e => simp [remove, partition_eq, hs]
  | ok found => simp [remove, partition_eq, hs, length_found hs]

/-! ### Scans of chosen records -/

/-- The records that satisfy `p`. -/
def having (p : Record → Bool) (c : Collection) : Collection := c.filter fun e => p e.2

/-- The collection with `part` merged into the records that satisfy `p`. -/
def mergedWhere (p : Record → Bool) (part : Record) (c : Collection) : Collection :=
  c.map fun e => (e.1, if p e.2 then e.2.merge part else e.2)

theorem having_congr {p q : Record → Bool} {c : Collection} (h : ∀ e ∈ c, p e.2 = q e.2) :
    c.having p = c.having q :=
  List.filter_congr h

theorem mergedWhere_congr {p q : Record → Bool} {c : Collection} (h : ∀ e ∈ c, p e.2 = q e.2)
    (part : Record) : c.mergedWhere p part = c.mergedWhere q part :=
  List.map_congr_left fun e he => by rw [h e he]

/-- Counts the records that satisfy `p` and makes a change, unless the filter is invalid for
some record. -/
def scan (f : Filter) (p : Record → Bool) (change : Collection → Collection) (c : Collection) :
    Except StoreError Nat × Collection :=
  match f.select (Dict.values c) with
  | .error e => (.error (.invalidFilter e), c)
  | .ok _ => (.ok (c.having p).length, change c)

theorem update_eq_scan (part : Record) (f : Filter) (c : Collection) :
    c.update part f = c.scan f f.finds (mergedWhere f.finds part) := by
  rw [update_eq, scan]
  cases hs : f.select (Dict.values c) with
  | error e => rfl
  | ok found =>
    simp only [← length_found hs]
    rfl

theorem remove_eq_scan (f : Filter) (c : Collection) :
    c.remove f = c.scan f f.finds (having fun r => !f.finds r) := by
  rw [remove_eq, scan]
  cases hs : f.select (Dict.values c) with
  | error e => rfl
  | ok found =>
    simp only [← length_found hs]
    rfl

/-! ### Scans that change nothing -/

theorem insert_unchanged {r : Record} {c : Collection} (h : ∀ id, (c.insert r).1 ≠ .ok id) :
    (c.insert r).2 = c := by
  by_cases hc : Dict.contains c (r.id?.getD (nextId (Dict.keys c)))
  · simp [insert, hc]
  · exact absurd (by simp [insert, hc]) (h (r.id?.getD (nextId (Dict.keys c))))

/-- Where nothing is found, a scan changes nothing. -/
theorem update_unchanged {part : Record} {f : Filter} {c : Collection}
    (h : ∀ n, (c.update part f).1 = .ok n → n = 0) : (c.update part f).2 = c := by
  rw [update_eq] at h ⊢
  cases hs : f.select (Dict.values c) with
  | error e => rfl
  | ok found =>
    rw [hs] at h
    have hnone := List.eq_nil_of_length_eq_zero ((length_found hs).trans (h _ rfl))
    have hsame : ∀ e ∈ c, (e.1, if f.finds e.2 then e.2.merge part else e.2) = e := by
      intro e he
      rw [if_neg (List.filter_eq_nil_iff.mp hnone e he)]
    exact (List.map_congr_left hsame).trans (List.map_id' c)

theorem remove_unchanged {f : Filter} {c : Collection}
    (h : ∀ n, (c.remove f).1 = .ok n → n = 0) : (c.remove f).2 = c := by
  rw [remove_eq] at h ⊢
  cases hs : f.select (Dict.values c) with
  | error e => rfl
  | ok found =>
    rw [hs] at h
    have hnone := List.eq_nil_of_length_eq_zero ((length_found hs).trans (h _ rfl))
    refine List.filter_eq_self.mpr fun e he => ?_
    rw [Bool.not_eq_true', Bool.eq_false_iff]
    exact List.filter_eq_nil_iff.mp hnone e he

end Collection

end ControlNode
