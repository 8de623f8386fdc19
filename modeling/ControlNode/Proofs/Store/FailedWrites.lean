import ControlNode.Proofs.Store.Calls
import ControlNode.Proofs.Store.Effects
import ControlNode.Proofs.Store.Rejections

/-!
# Data files that cannot be written

A store that lives in a data file is changed in memory first and written afterwards. Here the
disk is arbitrary: it may fail at any step of a replacement and leave any files behind. A call
that the store refuses changes nothing; one whose change could not be written returns an error
as well, but the change stays in memory (`Backend.Edit.refused_or_kept`).
-/

namespace ControlNode

/-! ### Disks -/

/-- How a disk takes a text that is to replace the data file: whether it could, and the files
that it leaves. -/
abbrev Disk := DataFiles → String → Bool × DataFiles

namespace Disk

def sound : Disk := fun files text => (true, files.run (files.replaceSteps text))

/-- Writing needs the directory and nothing else. -/
def plain : Disk := fun files text =>
  match files.replace? text with
  | some after => (true, after)
  | none => (false, files)

/-- The step after the first `k` ones fails. -/
def failingAfter (k : Nat) : Disk := fun files text => (false, files.cut text k)

end Disk

namespace Backend

/-! ### Edits -/

inductive Edit where
  | insert (name : String) (r : Record)
  | update (name : String) (part : Record) (f : Filter)
  | replace (name id : String) (r : Record)
  | remove (name : String) (f : Filter)
  | saveSample (name object : String) (x : Sample)
  | removeSamples (name : String) (objects : Option (List String)) (r : SampleRange)

structure SameAnswers (b b' : Backend) : Prop where
  query : ∀ name q, b.query name q = b'.query name q
  slice : ∀ name object r, b.sampleSlice name object r = b'.sampleSlice name object r
  times : ∀ name object ts, b.samplesAt name object ts = b'.samplesAt name object ts

/-- An outcome without what the call returns when it succeeds. -/
def completion (o : Outcome α) : Outcome Unit := (o.1.map fun _ => (), o.2)

/-- The outcome of a change in memory that says whether it is to be written. -/
def saveOn (disk : Disk) (files : DataFiles) (r : Except StoreError Bool × Store) :
    Outcome Unit :=
  match r with
  | (.error cause, s) => (.error (.store cause), .file files s)
  | (.ok false, s) => (.ok (), .file files s)
  | (.ok true, s) =>
    match disk files s.fileText with
    | (true, after) => (.ok (), .file after s)
    | (false, left) => (.error .io, .file left s)

namespace Edit

def run (e : Edit) (b : Backend) : Outcome Unit :=
  match e with
  | insert name r => completion (b.insert name r)
  | update name part f => completion (b.update name part f)
  | replace name id r => completion (b.replace name id r)
  | remove name f => completion (b.remove name f)
  | saveSample name object x => completion (b.saveSample name object x)
  | removeSamples name objects r => completion (b.removeSamples name objects r)

/-- The change in memory, and whether the data file is to be written after it. -/
def change (e : Edit) (s : Store) : Except StoreError Bool × Store :=
  match e with
  | insert name r => ((s.insert name r).1.map fun _ => true, (s.insert name r).2)
  | update name part f =>
    ((s.update name part f).1.map fun n => decide (n > 0), (s.update name part f).2)
  | replace name id r => (.ok true, (s.replace name id r).2)
  | remove name f => ((s.remove name f).1.map fun n => decide (n > 0), (s.remove name f).2)
  | saveSample name object x => (.ok true, s.saveSample name object x)
  | removeSamples name objects r =>
    (.ok (decide ((s.removeSamples name objects r).1 > 0)), (s.removeSamples name objects r).2)

/-- An edit of a store whose data file is on a given disk. -/
def runOn (disk : Disk) (e : Edit) (files : DataFiles) (s : Store) : Outcome Unit :=
  saveOn disk files (e.change s)

/-- Edits one after another, each with the disk that it meets. -/
def runAll (calls : List (Disk × Edit)) (b : Backend) : Backend :=
  calls.foldl (fun b c => (c.2.runOn c.1 b.files b.store).2) b

/-! ### The disk of the backend -/

theorem completion_flush (files : DataFiles) (s : Store) (a : α) :
    completion (flush files s a) = saveOn Disk.plain files (.ok true, s) := by
  simp only [completion, flush, saveOn, Disk.plain]
  cases files.replace? s.fileText <;> rfl

theorem completion_inFile (files : DataFiles) (dirty : α → Bool)
    (r : Except StoreError α × Store) :
    completion (inFile files dirty r) = saveOn Disk.plain files (r.1.map dirty, r.2) := by
  obtain ⟨e | a, s⟩ := r
  · rfl
  · simp only [inFile, Except.map]
    cases hd : dirty a with
    | false => rfl
    | true => exact completion_flush files s a

theorem run_eq_runOn (e : Edit) (files : DataFiles) (s : Store) :
    e.run (.file files s) = e.runOn Disk.plain files s := by
  cases e with
  | insert name r => exact completion_inFile files _ (s.insert name r)
  | update name part f => exact completion_inFile files _ (s.update name part f)
  | replace name id r =>
    exact completion_inFile files (fun _ => true)
      (.ok (s.replace name id r).1, (s.replace name id r).2)
  | remove name f => exact completion_inFile files _ (s.remove name f)
  | saveSample name object x => exact completion_flush files _ ()
  | removeSamples name objects r =>
    exact completion_inFile files _
      (.ok (s.removeSamples name objects r).1, (s.removeSamples name objects r).2)

/-! ### What memory holds -/

theorem saveOn_store (disk : Disk) (files : DataFiles) (r : Except StoreError Bool × Store) :
    ∃ left, (saveOn disk files r).2 = .file left r.2 := by
  obtain ⟨_ | dirty, s⟩ := r
  · exact ⟨files, rfl⟩
  · cases dirty with
    | false => exact ⟨files, rfl⟩
    | true =>
      rw [saveOn]
      split
      · exact ⟨_, rfl⟩
      · exact ⟨_, rfl⟩

/-- Whatever is written, memory takes every change. -/
theorem runAll_store (calls : List (Disk × Edit)) (files : DataFiles) (s : Store) :
    ∃ left, runAll calls (.file files s) =
      .file left (calls.foldl (fun s c => (c.2.change s).2) s) := by
  induction calls generalizing files s with
  | nil => exact ⟨files, rfl⟩
  | cons c calls ih =>
    obtain ⟨left, hleft⟩ := saveOn_store c.1 files (c.2.change s)
    obtain ⟨last, hlast⟩ := ih left (c.2.change s).2
    refine ⟨last, ?_⟩
    change runAll calls (saveOn c.1 files (c.2.change s)).2 = _
    rw [hleft, hlast]
    rfl

theorem sameAnswers_runAll (calls : List (Disk × Edit)) (files files' : DataFiles) (s : Store) :
    SameAnswers (runAll calls (.file files s)) (runAll calls (.file files' s)) := by
  obtain ⟨left, hleft⟩ := runAll_store calls files s
  obtain ⟨left', hleft'⟩ := runAll_store calls files' s
  rw [hleft, hleft']
  exact ⟨fun _ _ => rfl, fun _ _ _ => rfl, fun _ _ _ => rfl⟩

/-! ### Errors -/

theorem insert_refused {s : Store} (hs : Dict.Sorted s.collections) {name : String} {r : Record}
    {cause : StoreError} (h : (s.insert name r).1 = .error cause) : (s.insert name r).2 = s := by
  have hfail : ((s.collection name).insert r).1 = .error cause := h
  have hsame : ((s.collection name).insert r).2 = s.collection name := by
    refine Collection.insert_unchanged fun id hid => ?_
    rw [hfail] at hid
    cases hid
  change s.setCollection name ((s.collection name).insert r).2 = s
  rw [hsame]
  cases hc : s.collections.get? name with
  | none =>
    -- nothing can be refused by a collection that is not there
    rw [Store.collection, hc] at hfail
    cases hfail
  | some c =>
    rw [Store.collection, hc]
    exact Store.setCollection_self hs hc

theorem change_refused {s : Store} (hs : Dict.Sorted s.collections) {e : Edit}
    {cause : StoreError} (h : (e.change s).1 = .error cause) : (e.change s).2 = s := by
  have hmap : ∀ {α : Type} {x : Except StoreError α} {f : α → Bool},
      x.map f = .error cause → x = .error cause := by
    intro α x f hx
    cases x with
    | error e => exact congrArg _ (Except.error.inj hx)
    | ok a => cases hx
  cases e with
  | insert name r => exact insert_refused hs (hmap h)
  | update name part f => exact Store.update_unchanged hs (hmap h)
  | remove name f => exact Store.remove_unchanged hs (hmap h)
  | _ => cases h

theorem saveOn_error {disk : Disk} {files : DataFiles} {r : Except StoreError Bool × Store}
    {err : PersistError} (h : (saveOn disk files r).1 = .error err) :
    (∃ cause, err = .store cause ∧ r.1 = .error cause ∧ (saveOn disk files r).2 = .file files r.2) ∨
      err = .io ∧ r.1 = .ok true := by
  obtain ⟨cause | dirty, s⟩ := r
  · cases h
    exact Or.inl ⟨cause, rfl, rfl, rfl⟩
  · cases dirty with
    | false => cases h
    | true =>
      rw [saveOn] at h
      split at h
      · cases h
      · cases h
        exact Or.inr ⟨rfl, rfl⟩

theorem insert_again {s : Store} {name id : String} {r : Record} (hid : r.id? = some id)
    (h : ((insert name r).change s).1 = .ok true) (disk : Disk) (files : DataFiles) :
    ((insert name r).runOn disk files ((insert name r).change s).2).1 =
      .error (.store (.duplicateId id)) := by
  change ((s.insert name r).1.map fun _ => true) = .ok true at h
  by_cases hc : Dict.contains (s.collection name) id = true
  · simp [Store.insert, Collection.insert, hid, hc, Except.map] at h
  · have hafter : (s.insert name r).2 =
        s.setCollection name (Dict.insert (s.collection name) id (r.withId id)) := by
      simp [Store.insert, Collection.insert, hid, hc]
    have hthere : Dict.contains (Dict.insert (s.collection name) id (r.withId id)) id = true := by
      rw [Dict.contains, Dict.get?_insert, if_pos rfl, Option.isSome_some]
    have hrefused : ((s.insert name r).2.insert name r).1 = .error (.duplicateId id) := by
      rw [hafter, Store.insert, Store.collection_setCollection, Function.update_self,
        Collection.insert, hid, Option.getD_some, if_pos hthere]
    change (saveOn disk files (((s.insert name r).2.insert name r).1.map fun _ => true, _)).1 = _
    rw [hrefused]
    rfl

/-- An edit that returns an error has been refused and changed nothing, or could not be written;
then it is found ever after, just as if it had succeeded. -/
theorem refused_or_kept (disk : Disk) (files : DataFiles) {s : Store}
    (hs : Dict.Sorted s.collections) (e : Edit) {err : PersistError}
    (h : (e.runOn disk files s).1 = .error err) :
    e.run (.file files s) = e.runOn Disk.plain files s ∧
    ((∃ cause, err = .store cause ∧ (e.runOn disk files s).2 = .file files s) ∨
      err = .io ∧ (e.runOn Disk.sound files s).1 = .ok () ∧
        (∀ later, SameAnswers (runAll later (e.runOn disk files s).2)
          (runAll later (e.runOn Disk.sound files s).2)) ∧
        ∀ name r id, e = insert name r → r.id? = some id → ∀ other,
          (e.runOn other (e.runOn disk files s).2.files (e.runOn disk files s).2.store).1 =
            .error (.store (.duplicateId id))) := by
  refine ⟨run_eq_runOn e files s, ?_⟩
  unfold runOn at h ⊢
  rcases saveOn_error h with ⟨cause, rfl, hcause, hfiles⟩ | ⟨rfl, hok⟩
  · left
    exact ⟨cause, rfl, by rw [hfiles, change_refused hs hcause]⟩
  · right
    obtain ⟨left, hleft⟩ := saveOn_store disk files (e.change s)
    obtain ⟨after, hafter⟩ := saveOn_store Disk.sound files (e.change s)
    have hdone : e.change s = (.ok true, (e.change s).2) := by rw [← hok]
    refine ⟨rfl, by rw [hdone]; rfl, fun later => ?_, ?_⟩
    · rw [hleft, hafter]
      exact sameAnswers_runAll later left after _
    · rintro name r id rfl hid other
      rw [hleft]
      exact insert_again hid hok other left

/-- The process had written the new document, and the old one was out of its way. -/
theorem kept_after_second_step :
    let insertion := insert "lamps" [("id", .str "c")]
    let files : DataFiles := { directory := true, data := some Store.lamps.fileText }
    (insertion.runOn (.failingAfter 2) files Store.lamps).1 = .error .io ∧
      ∀ later, SameAnswers (runAll later (insertion.runOn (.failingAfter 2) files Store.lamps).2)
        (runAll later (insertion.runOn .sound files Store.lamps).2) := by
  intro insertion files
  have hfailed : (insertion.runOn (.failingAfter 2) files Store.lamps).1 = .error .io := rfl
  rcases (refused_or_kept (.failingAfter 2) files (by decide) insertion hfailed).2 with
    ⟨cause, hcause, -⟩ | ⟨-, -, hkept, -⟩
  · cases hcause
  · exact ⟨hfailed, hkept⟩

/-- Without a directory nothing is written; the record is found all the same, and it cannot be
inserted once more. -/
theorem unwritten_record_is_found :
    let b : Backend := .file {} {}
    let insertion := insert "t" [("id", .str "a")]
    b.query "t" {} = .ok [] ∧ (insertion.run b).1 = .error .io ∧
      (insertion.run b).2.query "t" {} = .ok [[("id", .str "a")]] ∧
      (insertion.run (insertion.run b).2).1 = .error (.store (.duplicateId "a")) :=
  ⟨query_all rfl "t", rfl, query_all rfl "t", rfl⟩

end Edit

end Backend

end ControlNode
