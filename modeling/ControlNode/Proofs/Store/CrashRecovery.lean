import ControlNode.Proofs.Store.Durability

/-!
# Crashes while a data file is replaced

The process can die after any step of a replacement. Here a backend has carried out calls in any
order, the replacement of the next one is cut after `k` steps, and a new backend is made ready over
the files left behind. It holds what was there before the call or what the call leaves, except
between the last two steps, where it starts empty (`reopened_at_cut`).
-/

namespace ControlNode

/-! ### Replacements cut short -/

/-- The old document counts until it is retired, the new one once it is published. In between no
document is found. -/
theorem DataFiles.load?_cut (f : DataFiles) {text : String} {s : Store}
    (h : Store.ofFileText? text = some s) (k : Nat) : (f.cut text k).load? =
      if k ≤ 1 then f.load? else if k = 2 ∧ f.data.isSome then some {} else some s := by
  have hnew {g : DataFiles} (hg : g.data = some text) : g.load? = some s := by
    rw [load?, hg]
    simp only [h]
  cases hdata : f.data with
  | none =>
    rcases k with _ | _ | k
    · rfl
    · simp [cut, replaceSteps, run, step, load?, hdata]
    · rw [if_neg (by omega), if_neg (by simp)]
      exact hnew (by simp [cut, replaceSteps, run, step, hdata])
  | some old =>
    rcases k with _ | _ | _ | k
    · rfl
    · simp [cut, replaceSteps, run, step, load?, hdata]
    · simp [cut, replaceSteps, run, step, load?, hdata]
    · rw [if_neg (by omega), if_neg (by omega)]
      exact hnew (by simp [cut, replaceSteps, run, step, hdata])

/-! ### Crashes -/

namespace Backend

/-- What a new backend holds once it is made ready over the files that are there, or none where
it cannot be. -/
def reopened? (files : DataFiles) : Option Store :=
  match init (.file files {}) with
  | (.ok (), b) => some b.store
  | (.error _, _) => none

theorem reopened?_eq_load? (files : DataFiles) : reopened? files = files.load? := by
  have hload : ({ files with directory := true } : DataFiles).load? = files.load? := rfl
  unfold reopened? init
  dsimp only
  rw [hload]
  cases files.load? <;> rfl

/-- After any calls, the replacement of the data file by the next one is cut after `k` steps. A new
backend holds the contents before the call as long as the old document is the data file, and those
after it once the new one is. Between the two it starts empty, although the old document is in the
backup. -/
theorem reopened_at_cut (files : DataFiles) (b : Backend)
    (hb : init (.file files {}) = (.ok (), b)) (calls : List Call) (c : Call)
    (hc : ∀ c' ∈ calls ++ [c], c'.Normal) (hr : ∀ s ∈ written b (calls ++ [c]), s.ReadsBack)
    (hw : (c.writes? (calls.foldl (fun b c => c.perform b) b).store).isSome) (k : Nat) :
    let before := calls.foldl (fun b c => c.perform b) b
    ∃ held, reopened? (before.files.cut (c.perform before).store.fileText k) = some held ∧
      if k ≤ 1 then held.Alike before.store
      else if k = 2 ∧ before.files.data.isSome then held = {}
      else held.Alike (c.perform before).store := by
  rw [written_append] at hr
  obtain ⟨left, s, hbefore, hdurable⟩ := calls_durable (durable_of_init hb) calls
    (fun c' hmem => hc c' (List.mem_append_left _ hmem))
    (fun s hmem => hr s (List.mem_append_left _ hmem))
  simp only [hbefore] at hr hw ⊢
  obtain ⟨after, ha⟩ := Option.isSome_iff_exists.mp hw
  have hstore : (c.perform (.file left s)).store = after := store_of_writes? ha
  have hafter : after.ReadsBack := by
    have hs : c.writes? s = some after := ha
    refine hr after (List.mem_append_right _ ?_)
    simp [written, store, hs]
  have hnormal : after.Normal := by
    obtain ⟨left', s', hperform, hdurable'⟩ := perform_durable hdurable c (hc c (by simp))
      fun s' hs' => by
        obtain rfl := Option.some.inj (ha.symm.trans hs')
        exact hafter
    rw [hperform] at hstore
    exact hstore ▸ hdurable'.normal
  obtain ⟨saved, hload, halike⟩ := hdurable.saved
  have hcut := left.load?_cut (Store.ofFileText?_fileText hnormal hafter) k
  rw [hload] at hcut
  rw [hstore, reopened?_eq_load?]
  change ∃ held, (left.cut after.fileText k).load? = some held ∧ if k ≤ 1 then held.Alike s
    else if k = 2 ∧ left.data.isSome then held = {} else held.Alike after
  rw [hcut]
  split
  · exact ⟨saved, rfl, halike.symm⟩
  · split
    · exact ⟨{}, rfl, rfl⟩
    · exact ⟨after, rfl, .refl after⟩

/-- A backend whose data file has been written once. -/
def firstRecord : List Call := [.insert "ports" [("id", .str "a")]]

def secondRecord : Call := .insert "ports" [("id", .str "b"), ("value", .int 5)]

/-- What is found of the records of the first two calls after a crash. -/
def idsFound (files : DataFiles) : Option (List String) :=
  (reopened? files).map fun s => Dict.keys (s.collection "ports")

theorem reopened_at_cut_second :
    let before := firstRecord.foldl (fun b c => c.perform b) (init (.file {} {})).2
    ∃ held, reopened? (before.files.cut (secondRecord.perform before).store.fileText 3) =
      some held ∧ held.Alike (secondRecord.perform before).store := by
  intro before
  have hcalls : ∀ c ∈ firstRecord ++ [secondRecord], c.Normal := by
    have hfirst : Record.Normal [("id", .str "a")] := Dict.Ordered.nil.insert "id" rfl
    have hsecond : Record.Normal [("id", .str "b"), ("value", .int 5)] :=
      ⟨by decide, by simp [Json.normalize]⟩
    simp only [firstRecord, secondRecord, Call.Normal, List.cons_append, List.nil_append,
      List.forall_mem_cons]
    exact ⟨hfirst, hsecond, by simp⟩
  have hplain : (written (init (.file {} {})).2 (firstRecord ++ [secondRecord])).all
      (fun s => s.toJson.isPlain Json.maxDepth) = true := by decide +kernel
  have hwritten : ∀ s ∈ written (init (.file {} {})).2 (firstRecord ++ [secondRecord]),
      s.ReadsBack := fun s hs => Store.readsBack_of_isPlain (List.all_eq_true.mp hplain s hs)
  have hwrites : (secondRecord.writes? before.store).isSome := by decide +kernel
  exact reopened_at_cut {} _ rfl firstRecord secondRecord hcalls hwritten hwrites 3

/-- Both records are lost: neither what was there before the call nor what it was to leave. -/
theorem both_records_lost :
    let before := firstRecord.foldl (fun b c => c.perform b) (init (.file {} {})).2
    idsFound before.files = some ["a"] ∧
      idsFound (secondRecord.perform before).files = some ["a", "b"] ∧
      idsFound (before.files.cut (secondRecord.perform before).store.fileText 2) = some [] := by
  decide +kernel

end Backend

end ControlNode
