import ControlNode.Proofs.Dict
import ControlNode.Proofs.Json.Texts
import ControlNode.Proofs.Json.WellFormed
import ControlNode.Proofs.Store.SampleKeys
import ControlNode.Store.TableFile

/-!
# Documents of stores

A store that lists everything in key order is read back from its document as it is, and what is
read from a document is such a store. Key tables are read back from theirs in the same way
(`KeyTables.ofFileText?_fileText`).
-/

namespace ControlNode

/-! ### Values in normal form -/

namespace Json

theorem normalizeFields_of_normal {fields : List (String × Json)}
    (h : ∀ e ∈ fields, e.2.normalize = e.2) : normalizeFields fields = fields := by
  rw [normalizeFields_eq]
  have hsame : ∀ e ∈ fields, (e.1, e.2.normalize) = e := fun e he => Prod.ext rfl (h e he)
  exact (List.map_congr_left hsame).trans (List.map_id' fields)

mutual

theorem normalize_normalize (j : Json) : j.normalize.normalize = j.normalize := by
  cases j with
  | arr items => simp only [normalize, normalizeItems_normalizeItems items]
  | obj fields =>
    have hfields : ∀ e ∈ Dict.ofList (normalizeFields fields), e.2.normalize = e.2 :=
      fun e he => normal_of_mem fields e (Dict.mem_ofList he)
    rw [normalize, normalize, normalizeFields_of_normal hfields,
      Dict.ofList_of_sorted (Dict.sorted_ofList _)]
  | float x =>
    rw [normalize, ofFloat]
    split
    · rename_i hx
      rw [normalize, ofFloat, if_pos hx]
    · rfl
  | _ => rfl

theorem normalizeItems_normalizeItems (items : List Json) :
    normalizeItems (normalizeItems items) = normalizeItems items := by
  cases items with
  | nil => rfl
  | cons j items =>
    simp only [normalizeItems, normalize_normalize j, normalizeItems_normalizeItems items]

theorem normal_of_mem (fields : List (String × Json)) :
    ∀ e ∈ normalizeFields fields, e.2.normalize = e.2 := by
  cases fields with
  | nil => simp [normalizeFields]
  | cons x fields =>
    obtain ⟨k, j⟩ := x
    intro e he
    rcases List.mem_cons.mp he with rfl | he
    · exact normalize_normalize j
    · exact normal_of_mem fields e he

end

end Json

/-! ### Times -/

namespace Store

theorem readTime?_toString {n : Int} (h : SampleKey.InRange n) :
    readTime? (toString n) = some n := by
  have hmax : n < Binary64.wordCount := by
    have hle : n ≤ 9223372036854775807 := h.2
    unfold Binary64.wordCount
    omega
  have hend : Json.Ends [] := by simp [Json.Ends]
  have hread := Json.readNumber?_toString h.1 hmax hend
  rw [List.append_nil] at hread
  rw [readTime?, hread]
  exact if_pos h.2

theorem inRange_of_readTime? {key : String} {t : Int} (h : readTime? key = some t) :
    SampleKey.InRange t := by
  unfold readTime? at h
  split at h
  · rename_i n hread
    simp only [Option.ite_none_right_eq_some, Option.some.injEq] at h
    obtain ⟨hmax, rfl⟩ := h
    cases Json.wellFormed_of_readNumber? hread with
    | int hmin _ => exact ⟨hmin, hmax⟩
  · cases h

/-! ### Objects -/

theorem mapM_eq_some {l : List α} {f : α → Option β} {g : α → β} (h : ∀ x ∈ l, f x = some (g x)) :
    l.mapM f = some (l.map g) := by
  induction l with
  | nil => rfl
  | cons x l ih =>
    have hhead := h x (List.mem_cons_self ..)
    have hrest := ih fun y hy => h y (List.mem_cons_of_mem _ hy)
    simp [List.mapM_cons, hhead, hrest]

theorem exists_of_mapM {l : List α} {f : α → Option β} {ys : List β} (h : l.mapM f = some ys)
    {y : β} (hy : y ∈ ys) : ∃ x ∈ l, f x = some y := by
  induction l generalizing ys with
  | nil =>
    cases h
    cases hy
  | cons x l ih =>
    cases hhead : f x with
    | none => simp [List.mapM_cons, hhead] at h
    | some z =>
      cases hrest : l.mapM f with
      | none => simp [List.mapM_cons, hhead, hrest] at h
      | some zs =>
        have hys : ys = z :: zs := by simpa [List.mapM_cons, hhead, hrest] using h.symm
        rw [hys] at hy
        rcases List.mem_cons.mp hy with rfl | hy
        · exact ⟨x, List.mem_cons_self .., hhead⟩
        · obtain ⟨x, hx, hfx⟩ := ih hrest hy
          exact ⟨x, List.mem_cons_of_mem _ hx, hfx⟩

theorem readMap?_map {f : Json → Option α} {g : α → Json} {d : Dict String α}
    (h : d.Ordered fun a => f (g a) = some a) :
    readMap? f (.obj (d.map fun e => (e.1, g e.2))) = some d := by
  have hread : (d.map fun e => (e.1, g e.2)).mapM (fun e => (f e.2).map fun a => (e.1, a)) =
      some d := by
    rw [List.mapM_map, mapM_eq_some (g := id), List.map_id]
    intro e he
    simp [h.entries e he]
  rw [readMap?, hread, Option.map_some, Dict.ofList_of_sorted h.sorted]

theorem of_readMap? {f : Json → Option α} {j : Json} {d : Dict String α}
    (h : readMap? f j = some d) : d.Ordered fun a => ∃ j, f j = some a := by
  cases j with
  | obj fields =>
    obtain ⟨pairs, hpairs, rfl⟩ := Option.map_eq_some_iff.mp h
    refine ⟨Dict.sorted_ofList pairs, fun e he => ?_⟩
    obtain ⟨x, -, hx⟩ := exists_of_mapM hpairs (Dict.mem_ofList he)
    obtain ⟨a, ha, rfl⟩ := Option.map_eq_some_iff.mp hx
    exact ⟨x.2, ha⟩
  | _ => cases h

/-! ### Stores -/

end Store

/-- A record that lists its fields in order, with values in normal form. -/
def Record.Normal (r : Record) : Prop := Dict.Ordered (fun j : Json => j.normalize = j) r

/-- A series in the order of its times, with values in normal form. -/
structure Series.Normal (s : Series) : Prop where
  ordered : Dict.Ordered (fun j : Json => j.normalize = j) s
  inRange : ∀ x ∈ s, SampleKey.InRange x.1

/-- A store that lists everything in order, with values in normal form. -/
structure Store.Normal (s : Store) : Prop where
  collections : s.collections.Ordered (Dict.Ordered Record.Normal)
  samples : s.samples.Ordered (Dict.Ordered Series.Normal)

namespace Store

theorem readRecord?_obj {r : Record} (h : r.Normal) : readRecord? (.obj r) = some r := by
  rw [readRecord?, Json.normalize, Json.normalizeFields_of_normal h.entries,
    Dict.ofList_of_sorted h.sorted]
  rfl

theorem normal_of_readRecord? {j : Json} {r : Record} (h : readRecord? j = some r) : r.Normal := by
  cases j with
  | obj fields =>
    cases h
    exact ⟨Dict.sorted_ofList _, fun e he => Json.normal_of_mem fields e (Dict.mem_ofList he)⟩
  | float x =>
    rw [readRecord?, Json.normalize, Json.ofFloat] at h
    split at h <;> cases h
  | _ => cases h

theorem readSeries?_obj {s : Series} (h : s.Normal) :
    readSeries? (.obj (s.map fun x => (toString x.1, x.2))) = some s := by
  have hread : (s.map fun x => (toString x.1, x.2)).mapM
      (fun e => (readTime? e.1).map fun t => (t, e.2.normalize)) = some s := by
    rw [List.mapM_map, mapM_eq_some (g := id), List.map_id]
    intro x hx
    show (readTime? (toString x.1)).map (fun t => (t, x.2.normalize)) = some x
    rw [readTime?_toString (h.inRange x hx), h.ordered.entries x hx]
    rfl
  rw [readSeries?, hread, Option.map_some, Dict.ofList_of_sorted h.ordered.sorted]

theorem normal_of_readSeries? {j : Json} {s : Series} (h : readSeries? j = some s) : s.Normal := by
  cases j with
  | obj fields =>
    obtain ⟨pairs, hpairs, rfl⟩ := Option.map_eq_some_iff.mp h
    have hread : ∀ x ∈ Dict.ofList pairs, SampleKey.InRange x.1 ∧ x.2.normalize = x.2 := by
      intro x hx
      obtain ⟨e, -, he⟩ := exists_of_mapM hpairs (Dict.mem_ofList hx)
      obtain ⟨t, ht, rfl⟩ := Option.map_eq_some_iff.mp he
      exact ⟨inRange_of_readTime? ht, Json.normalize_normalize e.2⟩
    exact ⟨⟨Dict.sorted_ofList pairs, fun x hx => (hread x hx).2⟩, fun x hx => (hread x hx).1⟩
  | _ => cases h

/-- One of the two parts of a document, empty where it is missing. -/
def readPart? (f : Json → Option (Dict String α)) : Option Json → Option (Dict String α)
  | none => some []
  | some j => f j

theorem readParts?_eq (collections samples : Option Json) :
    readParts? collections samples =
      (readPart? (readMap? (readMap? readRecord?)) collections).bind fun cs =>
        (readPart? (readMap? (readMap? readSeries?)) samples).bind fun ss => some ⟨cs, ss⟩ := by
  cases collections <;> cases samples <;> rfl

/-- The document of a store is read back as the store. -/
theorem ofJson?_toJson {s : Store} (h : s.Normal) : ofJson? s.toJson = some s := by
  have hcollections : readMap? (readMap? readRecord?) (.obj (s.collections.map fun e =>
      (e.1, .obj (e.2.map fun r => (r.1, .obj r.2))))) = some s.collections := by
    refine readMap?_map (g := fun c => .obj (c.map fun r => (r.1, .obj r.2)))
      (h.collections.imp fun c hc => ?_)
    exact readMap?_map (hc.imp fun r hr => readRecord?_obj hr)
  have hsamples : readMap? (readMap? readSeries?) (.obj (s.samples.map fun e =>
      (e.1, .obj (e.2.map fun o => (o.1, .obj (o.2.map fun x => (toString x.1, x.2))))))) =
      some s.samples := by
    refine readMap?_map (g := fun c =>
      .obj (c.map fun o => (o.1, .obj (o.2.map fun x => (toString x.1, x.2)))))
      (h.samples.imp fun c hc => ?_)
    exact readMap?_map (g := fun s => .obj (List.map (fun x => (toString x.1, x.2)) s))
      (hc.imp fun s hs => readSeries?_obj hs)
  have hparts (cs ss : Json) :
      documentPart? [("collections", cs), ("samples", ss)] "collections" = some (some cs) ∧
        documentPart? [("collections", cs), ("samples", ss)] "samples" = some (some ss) := by
    simp [documentPart?]
  simp only [ofJson?, toJson, hparts, Option.bind_eq_bind, Option.bind_some, readParts?_eq,
    readPart?, hcollections, hsamples]

theorem of_readPart? {f : Json → Option α} {part : Option Json} {d : Dict String (Dict String α)}
    (h : readPart? (readMap? (readMap? f)) part = some d) :
    d.Ordered (Dict.Ordered fun a => ∃ j, f j = some a) := by
  cases part with
  | none =>
    cases h
    exact .nil
  | some j => exact (of_readMap? h).imp fun _ ⟨_, hj⟩ => of_readMap? hj

theorem normal_of_readParts? {collections samples : Option Json} {s : Store}
    (h : readParts? collections samples = some s) : s.Normal := by
  rw [readParts?_eq] at h
  obtain ⟨cs, hcs, h⟩ := Option.bind_eq_some_iff.mp h
  obtain ⟨ss, hss, h⟩ := Option.bind_eq_some_iff.mp h
  cases h
  have hrecords := (of_readPart? hcs).imp fun c hc => hc.imp fun r ⟨_, hr⟩ =>
    normal_of_readRecord? hr
  have hseries := (of_readPart? hss).imp fun c hc => hc.imp fun s ⟨_, hs⟩ =>
    normal_of_readSeries? hs
  exact ⟨hrecords, hseries⟩

theorem normal_of_ofJson? {j : Json} {s : Store} (h : ofJson? j = some s) : s.Normal := by
  unfold ofJson? at h
  split at h
  · obtain ⟨cs, -, h⟩ := Option.bind_eq_some_iff.mp h
    obtain ⟨ss, -, h⟩ := Option.bind_eq_some_iff.mp h
    exact normal_of_readParts? h
  · exact normal_of_readParts? h
  · exact normal_of_readParts? h
  · exact normal_of_readParts? h
  · cases h

theorem normal_empty : Normal {} := ⟨.nil, .nil⟩

/-- Records in order, with plain values that hold no others, and no samples. -/
def isFlat (s : Store) : Bool :=
  s.samples.isEmpty && decide (Dict.Sorted s.collections) && s.collections.all fun c =>
    decide (Dict.Sorted c.2) && c.2.all fun r =>
      decide (Dict.Sorted r.2) && r.2.all fun field => field.2.isPlain 0

theorem normal_of_isFlat {s : Store} (h : s.isFlat = true) : s.Normal := by
  have hvalue {j : Json} (hj : j.isPlain 0 = true) : j.normalize = j := by
    cases j with
    | arr | obj | float => simp [Json.isPlain] at hj
    | _ => rfl
  simp only [isFlat, Bool.and_eq_true, decide_eq_true_eq, List.all_eq_true,
    List.isEmpty_iff] at h
  obtain ⟨⟨hsamples, hsorted⟩, hcollections⟩ := h
  refine ⟨⟨hsorted, fun c hc => ?_⟩, hsamples ▸ .nil⟩
  obtain ⟨hids, hrecords⟩ := hcollections c hc
  refine ⟨hids, fun r hr => ?_⟩
  obtain ⟨hnames, hfields⟩ := hrecords r hr
  exact ⟨hnames, fun field hfield => hvalue (hfields field hfield)⟩

theorem normal_of_ofFileText? {text : String} {s : Store} (h : ofFileText? text = some s) :
    s.Normal := by
  unfold ofFileText? at h
  split at h
  · cases h
    exact normal_empty
  · obtain ⟨j, -, h⟩ := Option.bind_eq_some_iff.mp h
    exact normal_of_ofJson? h

def ReadsBack (s : Store) : Prop := Json.parseRaw? s.fileText = some s.toJson

theorem readsBack_of_isPlain {s : Store} (h : s.toJson.isPlain Json.maxDepth = true) :
    s.ReadsBack :=
  Json.parseRaw?_pretty h

theorem ofFileText?_fileText {s : Store} (h : s.Normal) (hr : s.ReadsBack) :
    ofFileText? s.fileText = some s := by
  have hsolid : s.fileText.toList.all isFileBlank = false := by
    have hopen : ∃ cs, s.fileText.toList = '\x7b' :: cs := by
      simp [fileText, toJson, Json.pretty, Json.indented]
    obtain ⟨cs, hcs⟩ := hopen
    rw [hcs, List.all_cons]
    rfl
  rw [ofFileText?, hsolid, hr]
  exact ofJson?_toJson h

end Store

/-! ### Key tables -/

namespace KeyTables

/-- A table of samples in the order of its keys, each of which joins an object and the time of the
sample, with values in normal form. -/
structure NormalSamples (d : Dict String Sample) : Prop where
  sorted : Dict.Sorted d
  keys : ∀ e ∈ d, ∃ object, SampleKey.Unseparated object ∧
    e.1 = SampleKey.ofSample object e.2.time ∧ SampleKey.InRange e.2.time
  values : ∀ e ∈ d, e.2.value.normalize = e.2.value

structure Normal (t : KeyTables) : Prop where
  records : t.records.Ordered (Dict.Ordered Record.Normal)
  samples : t.samples.Ordered NormalSamples

theorem readSamples?_obj {d : Dict String Sample} (h : NormalSamples d) :
    readSamples? (.obj (d.map fun e => (e.1, e.2.value))) = some d := by
  have hread : (d.map fun e => (e.1, e.2.value)).mapM (fun e => (SampleKey.split? e.1).map fun k =>
      (e.1, ({ time := k.2, value := e.2.normalize } : Sample))) = some d := by
    rw [List.mapM_map, Store.mapM_eq_some (g := id), List.map_id]
    intro e he
    obtain ⟨object, hobject, hkey, hrange⟩ := h.keys e he
    show (SampleKey.split? e.1).map (fun k =>
      (e.1, ({ time := k.2, value := e.2.value.normalize } : Sample))) = some e
    have hsplit : SampleKey.split? e.1 = some (object, e.2.time) := by
      rw [hkey]
      exact SampleKey.split?_ofSample hobject hrange
    rw [hsplit, h.values e he]
    rfl
  rw [readSamples?, hread, Option.map_some, Dict.ofList_of_sorted h.sorted]

theorem ofJson?_toJson {t : KeyTables} (h : t.Normal) : ofJson? t.toJson = some t := by
  have hrecords : Store.readMap? (Store.readMap? Store.readRecord?) (.obj (t.records.map fun e =>
      (e.1, .obj (e.2.map fun r => (r.1, .obj r.2))))) = some t.records := by
    refine Store.readMap?_map (g := fun c => .obj (c.map fun r => (r.1, .obj r.2)))
      (h.records.imp fun c hc => ?_)
    exact Store.readMap?_map (hc.imp fun r hr => Store.readRecord?_obj hr)
  have hsamples : Store.readMap? readSamples? (.obj (t.samples.map fun e =>
      (e.1, .obj (e.2.map fun x => (x.1, x.2.value))))) = some t.samples :=
    Store.readMap?_map (g := fun d => .obj (List.map (fun x => (x.1, x.2.value)) d))
      (h.samples.imp fun d hd => readSamples?_obj hd)
  have hparts (rs ss : Json) :
      Store.documentPart? [("records", rs), ("samples", ss)] "records" = some (some rs) ∧
        Store.documentPart? [("records", rs), ("samples", ss)] "samples" = some (some ss) := by
    simp [Store.documentPart?]
  simp only [ofJson?, toJson, hparts, Option.bind_eq_bind, Option.bind_some, Option.join_some,
    hrecords, hsamples]

/-- The file of tables is read back as the tables, as far as the text of a document is. -/
theorem ofFileText?_fileText {t : KeyTables} (h : t.Normal)
    (hr : Json.parseRaw? t.fileText = some t.toJson) : ofFileText? t.fileText = some t := by
  have hsolid : t.fileText.isEmpty = false := by
    have hopen : ∃ cs, t.fileText.toList = '\x7b' :: cs := by
      simp [fileText, toJson, Json.pretty, Json.indented]
    obtain ⟨cs, hcs⟩ := hopen
    rw [← Bool.not_eq_true, String.isEmpty_iff]
    intro hempty
    rw [hempty] at hcs
    cases hcs
  rw [ofFileText?, hsolid, hr]
  exact ofJson?_toJson h

end KeyTables

namespace DataFiles

theorem normal_of_load? {f : DataFiles} {s : Store} (h : f.load? = some s) : s.Normal := by
  unfold load? at h
  split at h
  · cases h
    exact Store.normal_empty
  · split at h
    · cases h
      exact Store.normal_of_ofFileText? ‹_›
    · obtain ⟨text, -, h⟩ := Option.bind_eq_some_iff.mp h
      exact Store.normal_of_ofFileText? h

end DataFiles

end ControlNode
