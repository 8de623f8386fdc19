import ControlNode.Proofs.Decimal.Digits
import ControlNode.Proofs.Store.Effects

/-!
# Generated ids

A record without an id is filed under a number that is greater than those of all ids in the
collection, as long as there is a greater one of 64 bits; behind the greatest one the ids start
again with zero, which may be taken (`Backend.insert_generates_fresh_id`).
-/

namespace ControlNode

/-! ### Numbers among the ids -/

namespace Decimal

theorem readUInt64?_lt {cs : List Char} {n : Nat} (h : readUInt64? cs = some n) :
    n < Binary64.wordCount := by
  unfold readUInt64? at h
  extract_lets ds at h
  split at h
  · obtain ⟨hlt, heq⟩ := Option.ite_none_right_eq_some.mp h
    exact Option.some.inj heq ▸ hlt
  · cases h

theorem readUInt64?_toString {n : Nat} (h : n < Binary64.wordCount) :
    readUInt64? (toString n).toList = some n := by
  have hdigits : (toString n).toList = Nat.toDigits 10 n := by
    show (Nat.repr n).toList = Nat.toDigits 10 n
    simp [Nat.repr]
  have hvalue := valueFrom_toDigits n
  rw [hdigits,
    readUInt64?_of_isDigit Nat.toDigits_ne_nil (fun _ => isDigit_toDigits) (by rwa [hvalue]),
    hvalue]

end Decimal

namespace Collection

def numbers (ids : List String) : List Nat :=
  ids.filterMap fun id => Decimal.readUInt64? id.toList

theorem lt_of_mem_numbers {ids : List String} {n : Nat} (h : n ∈ numbers ids) :
    n < Binary64.wordCount := by
  obtain ⟨id, -, hread⟩ := List.mem_filterMap.mp h
  exact Decimal.readUInt64?_lt hread

theorem mem_numbers {ids : List String} {id : String} {n : Nat} (hid : id ∈ ids)
    (hread : Decimal.readUInt64? id.toList = some n) : n ∈ numbers ids :=
  List.mem_filterMap.mpr ⟨id, hid, hread⟩

theorem le_foldl_max (ns : List Nat) (acc : Nat) :
    acc ≤ ns.foldl max acc ∧ ∀ n ∈ ns, n ≤ ns.foldl max acc := by
  induction ns generalizing acc with
  | nil => simp
  | cons k ns ih =>
    obtain ⟨hacc, hns⟩ := ih (max acc k)
    refine ⟨(Nat.le_max_left acc k).trans hacc, fun n hn => ?_⟩
    rcases List.mem_cons.mp hn with rfl | hn
    · exact (Nat.le_max_right acc n).trans hacc
    · exact hns n hn

theorem foldl_max_lt {ns : List Nat} {acc bound : Nat} (hacc : acc < bound)
    (h : ∀ n ∈ ns, n < bound) : ns.foldl max acc < bound := by
  induction ns generalizing acc with
  | nil => exact hacc
  | cons k ns ih =>
    have hk := h k List.mem_cons_self
    exact ih (Nat.max_lt.mpr ⟨hacc, hk⟩) fun n hn => h n (List.mem_cons_of_mem _ hn)

/-- The greatest number of 64 bits. -/
def lastNumber : Nat := Binary64.wordCount - 1

theorem nextId_fresh {ids : List String}
    (h : ∀ id ∈ ids, Decimal.readUInt64? id.toList ≠ some lastNumber) :
    ∃ n, Decimal.readUInt64? (nextId ids).toList = some n ∧
      ∀ id ∈ ids, ∀ m, Decimal.readUInt64? id.toList = some m → m < n := by
  have hbelow : ∀ n ∈ numbers ids, n < lastNumber := by
    intro n hn
    have hlt := lt_of_mem_numbers hn
    obtain ⟨id, hid, hread⟩ := List.mem_filterMap.mp hn
    have hne : n ≠ lastNumber := fun heq => h id hid (heq ▸ hread)
    unfold lastNumber at hne ⊢
    omega
  have hmax : (numbers ids).foldl max 0 < lastNumber := foldl_max_lt (by decide) hbelow
  have hnext : (numbers ids).foldl max 0 + 1 < Binary64.wordCount := by
    unfold lastNumber at hmax
    omega
  refine ⟨(numbers ids).foldl max 0 + 1, ?_, fun id hid m hread => ?_⟩
  · have hid : nextId ids = toString ((numbers ids).foldl max 0 + 1) := by
      rw [nextId, ← numbers, Nat.mod_eq_of_lt hnext]
    rw [hid, Decimal.readUInt64?_toString hnext]
  · exact Nat.lt_succ_of_le ((le_foldl_max _ 0).2 m (mem_numbers hid hread))

theorem nextId_of_last {ids : List String} {id : String} (hid : id ∈ ids)
    (hread : Decimal.readUInt64? id.toList = some lastNumber) : nextId ids = "0" := by
  have hlt : (numbers ids).foldl max 0 < Binary64.wordCount :=
    foldl_max_lt (by decide) fun _ => lt_of_mem_numbers
  have hle := (le_foldl_max (numbers ids) 0).2 _ (mem_numbers hid hread)
  have hmax : (numbers ids).foldl max 0 + 1 = Binary64.wordCount := by
    unfold lastNumber at hle
    omega
  rw [nextId, ← numbers, hmax, Nat.mod_self]
  rfl

end Collection

/-! ### Insertion without an id -/

theorem Record.id?_eq_none {r : Record}
    (h : ∀ id, Dict.get? r "id" = some (.str id) → id = "") : r.id? = none := by
  unfold id?
  split
  · rename_i id hid
    rw [if_pos (h id hid)]
  · rfl

namespace Backend

variable {b : Backend} {name : String}

/-- A record whose id is missing, empty or no text is filed under a number that is not there
yet and greater than those of all ids there, unless one of these is the last number; then the
number is zero, and the record is refused if zero is there. -/
theorem insert_generates_fresh_id (h : b.Reached) (name : String) {r : Record}
    (hr : ∀ id, Dict.get? r "id" = some (.str id) → id = "") :
    ((∀ id ∈ Dict.keys (b.collection name),
        Decimal.readUInt64? id.toList ≠ some Collection.lastNumber) →
      ∃ id n, (b.insert name r).1 = .ok id ∧ id ∉ Dict.keys (b.collection name) ∧
        Decimal.readUInt64? id.toList = some n ∧
        ∀ other ∈ Dict.keys (b.collection name), ∀ m,
          Decimal.readUInt64? other.toList = some m → m < n) ∧
    ∀ last ∈ Dict.keys (b.collection name),
      Decimal.readUInt64? last.toList = some Collection.lastNumber →
      (b.insert name r).1 = if "0" ∈ Dict.keys (b.collection name)
        then .error (.store (.duplicateId "0")) else .ok "0" := by
  have ho := h.orderly
  have happ := (insert_applied ho.writable (ho.labelled name) r).answer
  simp only [Collection.insert, Record.id?_eq_none hr, Option.getD_none,
    ← Dict.contains_keys] at happ
  constructor
  · intro hids
    obtain ⟨n, hread, hgreater⟩ := Collection.nextId_fresh hids
    have hnew : Collection.nextId (Dict.keys (b.collection name)) ∉ Dict.keys (b.collection name) :=
      fun hmem => absurd (hgreater _ hmem n hread) (Nat.lt_irrefl n)
    rw [if_neg (by simpa using hnew)] at happ
    exact ⟨_, n, happ, hnew, hread, hgreater⟩
  · intro last hlast hread
    rw [Collection.nextId_of_last hlast hread] at happ
    by_cases hzero : "0" ∈ Dict.keys (b.collection name)
    · rw [if_pos (List.contains_iff_mem.mpr hzero)] at happ
      rw [if_pos hzero]
      exact happ
    · rw [if_neg (by simpa using hzero)] at happ
      rw [if_neg hzero]
      exact happ

/-- Numbers with a zero and with a sign in front, and an id that is no number. -/
def numbered : Backend :=
  ((RecordRequest.insert "t" [("id", .str "abc")]).run
    ((RecordRequest.insert "t" [("id", .str "+200")]).run
      ((RecordRequest.insert "t" [("id", .str "0300")]).run (init (.tables false {})).2).2).2).2

theorem insert_generates_fresh_id_numbered :
    numbered.Reached ∧
    (∀ id, Dict.get? [("id", Json.int 7)] "id" = some (.str id) → id = "") ∧
    (∀ id ∈ Dict.keys (numbered.collection "t"),
      Decimal.readUInt64? id.toList ≠ some Collection.lastNumber) ∧
    ∃ id n, (numbered.insert "t" [("id", .int 7)]).1 = .ok id ∧ id = "301" ∧
      Decimal.readUInt64? id.toList = some n ∧ 300 < n := by
  have hopened : ofName "redb" = .ok (.tables false {}) := rfl
  have hreached : numbered.Reached :=
    .answered (.answered (.answered (.opened hopened) _) _) _
  have hid : ∀ id, Dict.get? [("id", Json.int 7)] "id" = some (.str id) → id = "" := nofun
  have hids : ∀ id ∈ Dict.keys (numbered.collection "t"),
      Decimal.readUInt64? id.toList ≠ some Collection.lastNumber := by decide +kernel
  obtain ⟨id, n, hinsert, -, hread, hgreater⟩ :=
    (insert_generates_fresh_id hreached "t" hid).1 hids
  have hshown : (numbered.insert "t" [("id", .int 7)]).1 = .ok "301" := by rfl
  rw [hshown] at hinsert
  exact ⟨hreached, hid, hids, id, n, hshown.trans hinsert, (Except.ok.inj hinsert).symm, hread,
    hgreater "0300" (by decide +kernel) 300 (by decide +kernel)⟩

/-- Behind the last number a memory and tables generate zero, which is not greater, and refuse
the record where zero is taken. -/
theorem generated_id_is_taken :
    (((init (.memory {})).2.insert "t" [("id", .str "18446744073709551615")]).2.insert "t" []).1 =
      .ok "0" ∧
    ((((init (.memory {})).2.insert "t" [("id", .str "0")]).2.insert "t"
      [("id", .str "18446744073709551615")]).2.insert "t" []).1 =
      .error (.store (.duplicateId "0")) ∧
    ((((init (.tables false {})).2.insert "t" [("id", .str "0")]).2.insert "t"
      [("id", .str "18446744073709551615")]).2.insert "t" []).1 =
      .error (.store (.duplicateId "0")) :=
  ⟨by rfl, by rfl, by rfl⟩

end Backend

end ControlNode
