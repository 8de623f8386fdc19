import ControlNode.Proofs.Dict
import ControlNode.Proofs.Store.Requests
import ControlNode.Proofs.Store.SampleKeys

/-!
# Samples in memory and in tables

A store keeps a series for each object of a collection; tables keep one list of keys. The list
is the series of all objects one behind the other, each time joined with its object. Saving,
reading a range of keys and removing then come to the same on either side.
-/

namespace ControlNode

/-! ### One key list for all objects -/

def Series.keyed (object : String) (series : Series) : Dict String Sample :=
  series.map fun x => (SampleKey.ofSample object x.1, ⟨x.1, x.2⟩)

def Series.keyedAll (objects : Dict String Series) : Dict String Sample :=
  objects.flatMap fun e => Series.keyed e.1 e.2

/-- Objects in order, with names that can be separated and times of 64 bits. -/
structure Separable (objects : Dict String Series) : Prop where
  sorted : Dict.Sorted objects
  unseparated : ∀ e ∈ objects, SampleKey.Unseparated e.1
  inRange : ∀ e ∈ objects, ∀ x ∈ e.2, SampleKey.InRange x.1

namespace Series

variable {object : String} {series : Series} {objects : Dict String Series}

@[simp] theorem keyed_nil : keyed object [] = [] := rfl

@[simp] theorem length_keyed : (keyed object series).length = series.length := List.length_map ..

@[simp] theorem values_keyed :
    (keyed object series).map Prod.snd = series.map fun x => ⟨x.1, x.2⟩ := by
  simp [keyed]

@[simp] theorem keyedAll_nil : keyedAll [] = [] := rfl

@[simp] theorem keyedAll_cons (e : String × Series) (objects : Dict String Series) :
    keyedAll (e :: objects) = keyed e.1 e.2 ++ keyedAll objects := rfl

theorem mem_keyed {e : String × Sample} (h : e ∈ keyed object series) :
    ∃ x ∈ series, e = (SampleKey.ofSample object x.1, ⟨x.1, x.2⟩) := by
  obtain ⟨x, hx, rfl⟩ := List.mem_map.mp h
  exact ⟨x, hx, rfl⟩

theorem keyed_insert (ho : SampleKey.Unseparated object)
    (hs : ∀ x ∈ series, SampleKey.InRange x.1) {x : Sample} (hx : SampleKey.InRange x.time) :
    keyed object (Dict.insert series x.time x.value) =
      Dict.insert (keyed object series) (SampleKey.ofSample object x.time) x := by
  induction series with
  | nil => rfl
  | cons y series ih =>
    obtain ⟨t, v⟩ := y
    have ht := hs _ (List.mem_cons_self ..)
    have hrest := ih fun y hy => hs y (List.mem_cons_of_mem _ hy)
    have heq := SampleKey.ofSample_inj ho ho ht hx
    have hlt := SampleKey.ofSample_lt_iff ho ho hx ht
    simp only [lt_irrefl, true_and, false_or] at heq hlt
    simp only [keyed, List.map_cons, Dict.insert, heq, hlt] at hrest ⊢
    split
    · rfl
    · split
      · rfl
      · simpa [keyed] using hrest

/-! ### Reading and removing -/

theorem filter_keyedAll {keep : String × Sample → Bool} (samples : String → Int → Bool)
    (h : ∀ e ∈ objects, ∀ x ∈ e.2,
      keep (SampleKey.ofSample e.1 x.1, ⟨x.1, x.2⟩) = samples e.1 x.1) :
    (keyedAll objects).filter keep =
      keyedAll (objects.map fun e => (e.1, e.2.filter fun x => samples e.1 x.1)) := by
  induction objects with
  | nil => rfl
  | cons e objects ih =>
    have hrest := ih fun o ho => h o (List.mem_cons_of_mem _ ho)
    have hhead : (keyed e.1 e.2).filter keep =
        keyed e.1 (e.2.filter fun x => samples e.1 x.1) := by
      rw [keyed, List.filter_map, keyed]
      exact congrArg _ (List.filter_congr fun x hx => h e (List.mem_cons_self ..) x hx)
    rw [keyedAll_cons, List.filter_append, hhead, hrest, List.map_cons, keyedAll_cons]

theorem keyedAll_of_ne {p : Int → Bool} (h : ∀ e ∈ objects, e.1 ≠ object) :
    keyedAll (objects.map fun e =>
      (e.1, e.2.filter fun x => decide (e.1 = object) && p x.1)) = [] := by
  induction objects with
  | nil => rfl
  | cons e objects ih =>
    have hhead := h e (List.mem_cons_self ..)
    have hrest := ih fun o ho => h o (List.mem_cons_of_mem _ ho)
    simp [hhead, hrest]

theorem values_keyedAll (h : Dict.Sorted objects) (p : Int → Bool) :
    (keyedAll (objects.map fun e =>
        (e.1, e.2.filter fun x => decide (e.1 = object) && p x.1))).map Prod.snd =
      (((Dict.get? objects object).getD []).filter fun x => p x.1).map fun x => ⟨x.1, x.2⟩ := by
  induction objects with
  | nil => rfl
  | cons e objects ih =>
    obtain ⟨o, series⟩ := e
    obtain ⟨hhead, htail⟩ := List.pairwise_cons.mp h
    by_cases ho : o = object
    · subst ho
      have hrest := keyedAll_of_ne (p := p) fun e he => (ne_of_gt (hhead e he))
      simp [Dict.get?, hrest]
    · simpa [Dict.get?, ho] using ih htail

theorem keyedAll_nonempty (objects : Dict String Series) :
    keyedAll (objects.filter fun e => !e.2.isEmpty) = keyedAll objects := by
  induction objects with
  | nil => rfl
  | cons e objects ih =>
    obtain ⟨o, series⟩ := e
    cases series <;> simp [ih]

theorem length_keyedAll (objects : Dict String Series) (n : Nat) :
    objects.foldl (fun n e => n + e.2.length) n = n + (keyedAll objects).length := by
  induction objects generalizing n with
  | nil => rfl
  | cons e objects ih =>
    rw [List.foldl_cons, ih]
    simp [Nat.add_assoc]

end Series

namespace Separable

variable {objects : Dict String Series} {object : String}

theorem nil : Separable [] := ⟨Dict.sorted_nil, by simp, by simp⟩

theorem tail {e : String × Series} (h : Separable (e :: objects)) : Separable objects :=
  ⟨(List.pairwise_cons.mp h.sorted).2, fun x hx => h.unseparated x (List.mem_cons_of_mem _ hx),
    fun x hx => h.inRange x (List.mem_cons_of_mem _ hx)⟩

theorem lt_of_mem_keyedAll (h : Separable objects) (ho : SampleKey.Unseparated object) {time : Int}
    (ht : SampleKey.InRange time) (hlt : ∀ e ∈ objects, object < e.1) :
    ∀ e ∈ Series.keyedAll objects, SampleKey.ofSample object time < e.1 := by
  intro e he
  obtain ⟨o, hmem, hkey⟩ := List.mem_flatMap.mp he
  obtain ⟨x, hx, rfl⟩ := Series.mem_keyed hkey
  rw [SampleKey.ofSample_lt_iff ho (h.unseparated o hmem) ht (h.inRange o hmem x hx)]
  exact Or.inl (hlt o hmem)

theorem keyedAll_insert (h : Separable objects) (ho : SampleKey.Unseparated object) {x : Sample}
    (hx : SampleKey.InRange x.time) :
    Series.keyedAll (Dict.insert objects object
        (Dict.insert ((Dict.get? objects object).getD []) x.time x.value)) =
      Dict.insert (Series.keyedAll objects) (SampleKey.ofSample object x.time) x := by
  induction objects with
  | nil => rfl
  | cons e objects ih =>
    obtain ⟨o, series⟩ := e
    obtain ⟨hhead, -⟩ := List.pairwise_cons.mp h.sorted
    have hou := h.unseparated _ (List.mem_cons_self ..)
    have hseries := h.inRange _ (List.mem_cons_self ..)
    by_cases heq : o = object
    · subst heq
      have hrest := h.tail.lt_of_mem_keyedAll ho hx hhead
      rw [Series.keyedAll_cons, Dict.insert_append_of_forall_lt hrest,
        ← Series.keyed_insert ho hseries hx]
      simp [Dict.insert, Dict.get?]
    · rcases lt_or_gt_of_ne heq with hlt | hgt
      · have hbefore : ∀ e ∈ Series.keyed o series, e.1 < SampleKey.ofSample object x.time := by
          intro e he
          obtain ⟨y, hy, rfl⟩ := Series.mem_keyed he
          rw [SampleKey.ofSample_lt_iff hou ho (hseries y hy) hx]
          exact Or.inl hlt
        rw [Series.keyedAll_cons, Dict.insert_append_of_forall_gt hbefore, ← ih h.tail]
        simp [Dict.insert, Dict.get?, heq, not_lt_of_gt hlt]
      · have hall : ∀ e ∈ (o, series) :: objects, object < e.1 := by
          intro e he
          rcases List.mem_cons.mp he with rfl | he
          · exact hgt
          · exact lt_trans hgt (hhead e he)
        have hnone : Dict.get? ((o, series) :: objects) object = none :=
          Dict.get?_eq_none_of_forall_ne fun e he => ne_of_gt (hall e he)
        rw [Dict.insert_of_forall_lt (h.lt_of_mem_keyedAll ho hx hall), hnone,
          Dict.insert_of_forall_lt hall]
        rfl

/-! ### What changes keep -/

theorem insert (h : Separable objects) (ho : SampleKey.Unseparated object) {series : Series}
    (hs : ∀ x ∈ series, SampleKey.InRange x.1) : Separable (Dict.insert objects object series) := by
  refine ⟨Dict.sorted_insert _ _ h.sorted, ?_, ?_⟩
  · intro e he
    rcases Dict.mem_insert he with rfl | he
    · exact ho
    · exact h.unseparated e he
  · intro e he
    rcases Dict.mem_insert he with rfl | he
    · exact hs
    · exact h.inRange e he

theorem save (h : Separable objects) (ho : SampleKey.Unseparated object) {x : Sample}
    (hx : SampleKey.InRange x.time) :
    Separable (Dict.insert objects object
      (Dict.insert ((Dict.get? objects object).getD []) x.time x.value)) := by
  refine h.insert ho ?_
  intro y hy
  rcases Dict.mem_insert hy with rfl | hy
  · exact hx
  · cases hget : Dict.get? objects object with
    | none => simp [hget] at hy
    | some series =>
      rw [hget, Option.getD_some] at hy
      exact h.inRange _ (Dict.mem_of_get? hget) y hy

theorem thin (h : Separable objects) (keep : String → Int → Bool) :
    Separable (objects.map fun e => (e.1, e.2.filter fun x => keep e.1 x.1)) := by
  refine ⟨List.pairwise_map.mpr h.sorted, ?_, ?_⟩
  · intro e he
    obtain ⟨o, ho, rfl⟩ := List.mem_map.mp he
    exact h.unseparated o ho
  · intro e he x hx
    obtain ⟨o, ho, rfl⟩ := List.mem_map.mp he
    exact h.inRange o ho x (List.mem_filter.mp hx).1

theorem filter (h : Separable objects) (p : String × Series → Bool) :
    Separable (objects.filter p) :=
  ⟨List.Pairwise.filter _ h.sorted, fun e he => h.unseparated e (List.mem_filter.mp he).1,
    fun e he => h.inRange e (List.mem_filter.mp he).1⟩

end Separable

/-! ### Agreement -/

namespace SampleRequest

/-- Objects that are named to save or to read have no separator in their names; times and
bounds have 64 bits. What is removed may be named and bounded in any way. -/
def Keyable : SampleRequest → Prop
  | save _ object x => SampleKey.Unseparated object ∧ SampleKey.InRange x.time
  | slice _ object r => SampleKey.Unseparated object ∧
      (∀ t ∈ r.start, SampleKey.InRange t) ∧ ∀ t ∈ r.stop, SampleKey.InRange t
  | readAt _ object times => SampleKey.Unseparated object ∧ ∀ t ∈ times, SampleKey.InRange t
  | remove .. => True

end SampleRequest

namespace Store

def objects (s : Store) (name : String) : Dict String Series := (s.samples.get? name).getD []

theorem objects_saveSample (s : Store) (name object : String) (x : Sample) (other : String) :
    (s.saveSample name object x).objects other =
      if name = other then
        Dict.insert (s.objects name) object
          (Dict.insert ((Dict.get? (s.objects name) object).getD []) x.time x.value)
      else s.objects other := by
  by_cases hn : name = other
  · subst hn
    simp [Store.objects, Store.saveSample, Dict.get?_insert]
  · simp [Store.objects, Store.saveSample, Dict.get?_insert, hn]

/-- The objects with the samples that a removal leaves, those without any included. -/
def remaining (all : Dict String Series) (ids : Option (List String)) (r : SampleRange) :
    Dict String Series :=
  all.map fun e => (e.1, e.2.filter fun x => !(wanted ids e.1 && r.contains x.1))

theorem remaining_eq (all : Dict String Series) (ids : Option (List String))
    (r : SampleRange) :
    (all.map fun e => (e.1,
      if wanted ids e.1 then e.2.filter fun x => !r.contains x.1 else e.2)) =
      remaining all ids r := by
  refine List.map_congr_left fun e _ => ?_
  cases hw : wanted ids e.1 <;> simp

theorem size_eq (all : Dict String Series) :
    all.foldl (fun n e => n + e.2.length) 0 = (Series.keyedAll all).length := by
  rw [Series.length_keyedAll, Nat.zero_add]

theorem count_removeSamples (s : Store) (name : String) (ids : Option (List String))
    (r : SampleRange) :
    (s.removeSamples name ids r).1 = (Series.keyedAll (s.objects name)).length -
      (Series.keyedAll (remaining (s.objects name) ids r)).length := by
  cases hget : s.samples.get? name with
  | none => simp [Store.objects, removeSamples, hget]
  | some all =>
    have hall : s.objects name = all := by simp [Store.objects, hget]
    simp only [removeSamples, hget, hall, remaining_eq, size_eq]

theorem objects_removeSamples (s : Store) (name : String) (ids : Option (List String))
    (r : SampleRange) (other : String) :
    (s.removeSamples name ids r).2.objects other =
      if name = other then (remaining (s.objects name) ids r).filter fun e => !e.2.isEmpty
      else s.objects other := by
  cases hget : s.samples.get? name with
  | none =>
    by_cases hn : name = other
    · subst hn
      simp [Store.objects, removeSamples, hget, remaining]
    · simp [Store.objects, removeSamples, hget, hn]
  | some all =>
    have hall : s.objects name = all := by simp [Store.objects, hget]
    by_cases hn : name = other
    · subst hn
      simp [Store.objects, removeSamples, hget, Dict.get?_insert, remaining_eq]
    · simp [Store.objects, removeSamples, hget, Dict.get?_insert, hn]

end Store

def SameSamples (t : KeyTables) (s : Store) : Prop :=
  ∀ name, Separable (s.objects name) ∧ t.series name = Series.keyedAll (s.objects name)

namespace KeyTables

/-- The key behind the range of keys of a slice. -/
def sliceEnd (object : String) (r : SampleRange) : String :=
  match r.stop with
  | some stop => SampleKey.ofSample object stop
  | none => SampleKey.endOf object

theorem sampleSlice_eq (t : KeyTables) (name object : String) (r : SampleRange) :
    t.sampleSlice name object r = r.takeFrom (((t.series name).filter fun e =>
      !(e.1 < SampleKey.ofSample object (r.start.getD Binary64.minInt64) : Bool) &&
        (e.1 < sliceEnd object r : Bool)).map Prod.snd) := rfl

theorem sampleAt_eq (t : KeyTables) (name object : String) (time : Int) :
    t.sampleAt name object time = (((t.series name).filter fun e =>
      !(e.1 < SampleKey.ofSample object Binary64.minInt64 : Bool) &&
        !(SampleKey.ofSample object time < e.1 : Bool)).map Prod.snd).getLast? :=
  List.getLast?_map.symm

def drops (objects : Option (List String)) (r : SampleRange) (key : String) : Bool :=
  match SampleKey.split? key with
  | some (object, time) => Store.wanted objects object && r.contains time
  | none => false

theorem removeSamples_eq (t : KeyTables) (name : String) (objects : Option (List String))
    (r : SampleRange) :
    t.removeSamples name objects r =
      (let kept := (t.series name).filter fun e => !drops objects r e.1
      ((t.series name).length - kept.length,
        { t with samples := t.samples.insert name kept })) := rfl

end KeyTables

namespace SameSamples

variable {t : KeyTables} {s : Store} {object : String}

/-- A range of keys from the first to the last time asked for holds the samples of the object
in the range of times, and nothing of other objects. -/
theorem between_iff {other : String} (ho : SampleKey.Unseparated object)
    (hp : SampleKey.Unseparated other) {r : SampleRange}
    (hstart : ∀ t ∈ r.start, SampleKey.InRange t) (hstop : ∀ t ∈ r.stop, SampleKey.InRange t)
    {time : Int} (ht : SampleKey.InRange time) :
    (¬ SampleKey.ofSample other time <
        SampleKey.ofSample object (r.start.getD Binary64.minInt64) ∧
      SampleKey.ofSample other time < KeyTables.sliceEnd object r) ↔
      other = object ∧ r.contains time := by
  have hlow : SampleKey.ofSample other time <
      SampleKey.ofSample object (r.start.getD Binary64.minInt64) ↔
      other < object ∨ other = object ∧ ¬ r.start.all (· ≤ time) := by
    cases hs : r.start with
    | none =>
      rw [Option.getD_none, SampleKey.ofSample_lt_iff hp ho ht (by decide)]
      simp [not_lt_of_ge ht.1]
    | some start =>
      rw [Option.getD_some, SampleKey.ofSample_lt_iff hp ho ht (hstart start hs)]
      simp
  have hhigh : SampleKey.ofSample other time < KeyTables.sliceEnd object r ↔
      other < object ∨ other = object ∧ r.stop.all (time < ·) := by
    unfold KeyTables.sliceEnd
    cases hs : r.stop with
    | none =>
      rw [SampleKey.ofSample_lt_endOf_iff hp ho, not_lt, le_iff_lt_or_eq]
      simp
    | some stop =>
      rw [SampleKey.ofSample_lt_iff hp ho ht (hstop stop hs)]
      simp
  rw [hlow, hhigh, SampleRange.contains, Bool.and_eq_true]
  rcases lt_trichotomy other object with h | rfl | h
  · simp [h, ne_of_lt h]
  · simp
  · simp [not_lt_of_gt h, ne_of_gt h]

theorem sampleSlice_eq (h : SameSamples t s) (name : String)
    (ho : SampleKey.Unseparated object) {r : SampleRange}
    (hstart : ∀ t ∈ r.start, SampleKey.InRange t) (hstop : ∀ t ∈ r.stop, SampleKey.InRange t) :
    t.sampleSlice name object r = s.sampleSlice name object r := by
  obtain ⟨hsep, hsame⟩ := h name
  rw [KeyTables.sampleSlice_eq, hsame,
    Series.filter_keyedAll fun other time => decide (other = object) && r.contains time]
  · rw [Series.values_keyedAll hsep.sorted]
    rfl
  · intro e he x hx
    rw [Bool.eq_iff_iff]
    simpa [-String.lt_iff_ltb] using
      between_iff ho (hsep.unseparated e he) hstart hstop (hsep.inRange e he x hx)

theorem sampleAt_eq (h : SameSamples t s) (name : String) (ho : SampleKey.Unseparated object)
    {time : Int} (ht : SampleKey.InRange time) :
    t.sampleAt name object time = s.sampleAt name object time := by
  obtain ⟨hsep, hsame⟩ := h name
  rw [KeyTables.sampleAt_eq, hsame,
    Series.filter_keyedAll fun other earlier => decide (other = object) && decide (earlier ≤ time)]
  · rw [Series.values_keyedAll hsep.sorted fun earlier => decide (earlier ≤ time),
      List.getLast?_map]
    rfl
  · intro e he x hx
    have hx := hsep.inRange e he x hx
    have he := hsep.unseparated e he
    have hlow :=
      SampleKey.ofSample_lt_iff he ho hx (by decide : SampleKey.InRange Binary64.minInt64)
    have hhigh := SampleKey.ofSample_lt_iff ho he ht hx
    rw [Bool.eq_iff_iff]
    rcases lt_trichotomy e.1 object with h | h | h
    · simp [hlow, h, ne_of_lt h]
    · rw [h] at hlow hhigh
      simp [-String.lt_iff_ltb, h, hlow, hhigh, hx.1]
    · simp [hhigh, h, ne_of_gt h]

theorem saveSample (h : SameSamples t s) (name : String) (ho : SampleKey.Unseparated object)
    {x : Sample} (hx : SampleKey.InRange x.time) :
    SameSamples (t.saveSample name object x) (s.saveSample name object x) := by
  intro other
  by_cases hn : name = other
  · subst hn
    obtain ⟨hsep, hsame⟩ := h name
    rw [Store.objects_saveSample, if_pos rfl]
    refine ⟨hsep.save ho hx, ?_⟩
    rw [hsep.keyedAll_insert ho hx, ← hsame]
    simp [KeyTables.series, KeyTables.saveSample, Dict.get?_insert]
  · have hseries : (t.saveSample name object x).series other = t.series other := by
      simp [KeyTables.series, KeyTables.saveSample, Dict.get?_insert, hn]
    rw [Store.objects_saveSample, if_neg hn, hseries]
    exact h other

theorem removeSamples (h : SameSamples t s) (name : String) (objects : Option (List String))
    (r : SampleRange) :
    (t.removeSamples name objects r).1 = (s.removeSamples name objects r).1 ∧
      SameSamples (t.removeSamples name objects r).2 (s.removeSamples name objects r).2 := by
  obtain ⟨hsep, hsame⟩ := h name
  have hseries : ((t.series name).filter fun e => !KeyTables.drops objects r e.1) =
      Series.keyedAll (Store.remaining (s.objects name) objects r) := by
    rw [hsame, Series.filter_keyedAll fun object time =>
      !(Store.wanted objects object && r.contains time)]
    · rfl
    · intro e he x hx
      rw [KeyTables.drops,
        SampleKey.split?_ofSample (hsep.unseparated e he) (hsep.inRange e he x hx)]
  rw [KeyTables.removeSamples_eq, hseries]
  constructor
  · rw [Store.count_removeSamples, hsame]
  · intro other
    rw [Store.objects_removeSamples]
    by_cases hn : name = other
    · subst hn
      rw [if_pos rfl, Series.keyedAll_nonempty]
      refine ⟨(hsep.thin fun object time =>
        !(Store.wanted objects object && r.contains time)).filter _, ?_⟩
      simp [KeyTables.series, Dict.get?_insert]
    · rw [if_neg hn]
      simpa [KeyTables.series, Dict.get?_insert, hn] using h other

end SameSamples

namespace Backend

/-- Open tables and a memory with the same samples. -/
inductive SampleTwins : Backend → Backend → Prop
  | intro (t : KeyTables) (s : Store) (same : SameSamples t s) :
      SampleTwins (.tables true t) (.memory s)

theorem sampleTwins_run (q : SampleRequest) (b b' : Backend) (hq : q.Keyable)
    (h : SampleTwins b b') :
    (q.run b).1 = (q.run b').1 ∧ SampleTwins (q.run b).2 (q.run b').2 := by
  obtain ⟨t, s, same⟩ := h
  cases q with
  | save name object x =>
    obtain ⟨ho, hx⟩ := hq
    exact ⟨rfl, .intro _ _ (same.saveSample name ho hx)⟩
  | slice name object r =>
    obtain ⟨ho, hstart, hstop⟩ := hq
    have hslice := same.sampleSlice_eq name ho hstart hstop
    exact ⟨by simp only [SampleRequest.run, sampleSlice, hslice], .intro t s same⟩
  | readAt name object times =>
    obtain ⟨ho, ht⟩ := hq
    have hfound : times.map (t.sampleAt name object) = times.map (s.sampleAt name object) :=
      List.map_congr_left fun time hmem => same.sampleAt_eq name ho (ht time hmem)
    exact ⟨by simp only [SampleRequest.run, samplesAt, hfound], .intro t s same⟩
  | remove name objects r =>
    obtain ⟨hcount, hsame⟩ := same.removeSamples name objects r
    exact ⟨congrArg (fun n => SampleAnswer.count (.ok n)) hcount, .intro _ _ hsame⟩

/-- Key tables and a memory that start empty give the same answers about samples: the same
samples in the same order, and the same counts of removed ones. -/
theorem tables_answer_samples_as_memory (requests : List SampleRequest)
    (h : ∀ q ∈ requests, q.Keyable) :
    answers SampleRequest.run (init (.tables false {})).2 requests =
      answers SampleRequest.run (init (.memory {})).2 requests := by
  have hempty : SampleTwins (init (.tables false {})).2 (init (.memory {})).2 :=
    .intro {} {} fun _ => ⟨Separable.nil, rfl⟩
  exact answers_eq sampleTwins_run h hempty

/-- Two objects of which one is the beginning of the other, with a gap before it and values at
the ends of the range of times. -/
def mixedSamples : List SampleRequest :=
  [.save "history" "a" ⟨Binary64.minInt64, .int 1⟩, .save "history" "ab" ⟨-5, .int 2⟩,
    .save "history" "a" ⟨Binary64.maxInt64, .int 3⟩,
    .slice "history" "a" { start := some (-10), limit := some 1, descending := true },
    .readAt "history" "a" [-1], .remove "history" (some ["ab"]) { stop := some 0 }]

theorem tables_answer_samples_as_memory_mixed :
    (∀ q ∈ mixedSamples, q.Keyable) ∧
    answers SampleRequest.run (init (.tables false {})).2 mixedSamples =
      answers SampleRequest.run (init (.memory {})).2 mixedSamples := by
  have h : ∀ q ∈ mixedSamples, q.Keyable := by
    have hends : SampleKey.InRange Binary64.minInt64 ∧ SampleKey.InRange Binary64.maxInt64 ∧
        SampleKey.InRange (-5) ∧ SampleKey.InRange (-10) ∧ SampleKey.InRange (-1) := by decide
    have hnames : SampleKey.Unseparated "a" ∧ SampleKey.Unseparated "ab" := by decide
    simp [mixedSamples, SampleRequest.Keyable, hends, hnames]
  exact ⟨h, tables_answer_samples_as_memory mixedSamples h⟩

end Backend

end ControlNode
