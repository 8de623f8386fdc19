import ControlNode.Store.Backend

/-!
# Requests to a backend

The calls that a backend answers, as data: those on records, and those on samples. Two backends
answer a list of requests alike as soon as some relation between them makes each single answer
the same and survives each request.
-/

namespace ControlNode

/-! ### Records -/

inductive RecordRequest where
  | query (name : String) (q : Query)
  | insert (name : String) (r : Record)
  | update (name : String) (part : Record) (f : Filter)
  | replace (name id : String) (r : Record)
  | remove (name : String) (f : Filter)

inductive RecordAnswer where
  | records (result : Except PersistError (List Record))
  | id (result : Except PersistError String)
  | count (result : Except PersistError Nat)
  | replaced (result : Except PersistError Bool)

namespace RecordRequest

def run (b : Backend) : RecordRequest → RecordAnswer × Backend
  | query name q => (.records (b.query name q), b)
  | insert name r => ((b.insert name r).map .id id)
  | update name part f => ((b.update name part f).map .count id)
  | replace name key r => ((b.replace name key r).map .replaced id)
  | remove name f => ((b.remove name f).map .count id)

/-- A record is put in the place of another one under an id that is not empty. -/
def NamesRecord : RecordRequest → Prop
  | replace _ key _ => key ≠ ""
  | _ => True

end RecordRequest

/-! ### Samples -/

inductive SampleRequest where
  | save (name object : String) (x : Sample)
  | slice (name object : String) (r : SampleRange)
  | readAt (name object : String) (times : List Int)
  | remove (name : String) (objects : Option (List String)) (r : SampleRange)

inductive SampleAnswer where
  | done (result : Except PersistError Unit)
  | samples (result : Except PersistError (List Sample))
  | found (result : Except PersistError (List (Option Sample)))
  | count (result : Except PersistError Nat)

namespace SampleRequest

def run (b : Backend) : SampleRequest → SampleAnswer × Backend
  | save name object x => ((b.saveSample name object x).map .done id)
  | slice name object r => (.samples (b.sampleSlice name object r), b)
  | readAt name object times => (.found (b.samplesAt name object times), b)
  | remove name objects r => ((b.removeSamples name objects r).map .count id)

end SampleRequest

/-! ### Lists of requests -/

namespace Backend

def answers (run : Backend → ρ → α × Backend) (b : Backend) : List ρ → List α
  | [] => []
  | q :: qs => (run b q).1 :: answers run (run b q).2 qs

theorem answers_eq {run : Backend → ρ → α × Backend} {Admitted : ρ → Prop}
    {Agree : Backend → Backend → Prop}
    (step : ∀ q b b', Admitted q → Agree b b' →
      (run b q).1 = (run b' q).1 ∧ Agree (run b q).2 (run b' q).2)
    {qs : List ρ} (hq : ∀ q ∈ qs, Admitted q) {b b' : Backend} (h : Agree b b') :
    answers run b qs = answers run b' qs := by
  induction qs generalizing b b' with
  | nil => rfl
  | cons q qs ih =>
    obtain ⟨hsame, hnext⟩ := step q b b' (hq q (List.mem_cons_self ..)) h
    have hrest := ih (fun q hmem => hq q (List.mem_cons_of_mem _ hmem)) hnext
    rw [answers, answers, hsame, hrest]

end Backend

end ControlNode
