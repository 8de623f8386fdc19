import ControlNode.Expr.Loop
import Mathlib.Data.List.Chain
import Mathlib.Data.List.Nodup

/-!
# The search for circular references

The search is described without a bound on its depth by the derivations of `Walk`. Every
search has one, so the bound never decides; what a search looks up, finds and misses follows
by induction on it.
-/

namespace ControlNode.DepGraph

/-! ### Chains of references -/

/-- The expression of the port `p` depends on the port `q`. -/
def Refers (g : DepGraph) (p q : String) : Prop := ∃ deps, g.get? p = some deps ∧ .port q ∈ deps

/-- A circular reference through the ports `ps`: the dependencies `deps` of the origin contain
the first of them, each depends on the next and the last one depends on the origin. -/
structure IsLoop (g : DepGraph) (origin : String) (deps : DepSet) (ps : List String) : Prop where
  ne_nil : ps ≠ []
  first : ∀ p ∈ ps.head?, .port p ∈ deps
  chain : (ps ++ [origin]).IsChain g.Refers
  avoids : origin ∉ ps

/-! ### Searches of any depth -/

variable (g : DepGraph) (origin : String)

mutual

/-- `Walk g origin entered current calls chain?`: where the ports `entered` have been entered
before, the search from `current` looks up the dependencies of the ports `calls`, in this
order, and ends with `chain?`. -/
inductive Walk : (entered : List String) → (current : String) → (calls : List String) →
    (chain? : Option (List String)) → Prop
  | arrived {entered : List String} : Walk entered origin [] (some [origin])
  | again {entered : List String} {current : String} (hne : current ≠ origin)
      (h : current ∈ entered) : Walk entered current [] none
  | bare {entered : List String} {current : String} (hne : current ≠ origin)
      (hnew : current ∉ entered) (hg : g.get? current = none) :
      Walk entered current [current] none
  | enter {entered calls : List String} {current : String} {deps : DepSet}
      {chain? : Option (List String)} (hne : current ≠ origin) (hnew : current ∉ entered)
      (hg : g.get? current = some deps)
      (h : WalkAll (entered ++ [current]) (deps.portIds.filter (· ≠ current)) calls chain?) :
      Walk entered current (current :: calls) (chain?.map (current :: ·))

/-- The same for searches from several ports, one after another up to the first chain. -/
inductive WalkAll : (entered : List String) → (ids : List String) → (calls : List String) →
    (chain? : Option (List String)) → Prop
  | nil {entered : List String} : WalkAll entered [] [] none
  | found {entered calls ids chain : List String} {id : String}
      (h : Walk entered id calls (some chain)) : WalkAll entered (id :: ids) calls (some chain)
  | next {entered calls calls' ids : List String} {id : String} {chain? : Option (List String)}
      (h : Walk entered id calls none) (hrest : WalkAll (entered ++ calls) ids calls' chain?) :
      WalkAll entered (id :: ids) (calls ++ calls') chain?

end

variable {g : DepGraph} {origin : String}

/-! ### Termination -/

/-- The number of ports with an expression that have not been entered. -/
def unentered (g : DepGraph) (entered : List String) : Nat :=
  (g.keys.filter (· ∉ entered)).length

theorem unentered_append_le (entered calls : List String) :
    g.unentered (entered ++ calls) ≤ g.unentered entered := by
  apply List.Sublist.length_le
  apply List.monotone_filter_right
  intro p hp
  simp only [decide_eq_true_eq, List.mem_append, not_or] at hp ⊢
  exact hp.1

theorem mem_keys_of_get? {p : String} {deps : DepSet} (h : g.get? p = some deps) :
    p ∈ g.keys := by
  induction g with
  | nil => cases h
  | cons entry g ih =>
    obtain ⟨k, d⟩ := entry
    by_cases hk : k = p
    · exact List.mem_cons.mpr (Or.inl hk.symm)
    · rw [Dict.get?, if_neg hk] at h
      exact List.mem_cons_of_mem k (ih h)

theorem unentered_lt {entered : List String} {p : String} (hp : p ∈ g.keys)
    (hnew : p ∉ entered) : g.unentered (entered ++ [p]) < g.unentered entered := by
  have hsplit : g.keys.filter (· ∉ entered ++ [p]) =
      (g.keys.filter (· ∉ entered)).filter (· ≠ p) := by
    rw [List.filter_filter]
    apply List.filter_congr
    intro q _
    simp only [List.mem_append, List.mem_singleton, not_or, Bool.decide_and, Bool.and_comm, ne_eq]
  rw [unentered, unentered, hsplit, List.length_filter_lt_length_iff_exists]
  exact ⟨p, List.mem_filter.mpr ⟨hp, by simpa using hnew⟩, by simp⟩

/-- A search that ends without a bound ends in the same way under the bound. -/
def Ends (g : DepGraph) (origin : String) (depth : Nat) : Prop :=
  ∀ entered current, g.unentered entered < depth →
    ∃ calls chain?, Walk g origin entered current calls chain? ∧
      searchFrom g origin depth current entered = (chain?, entered ++ calls)

theorem walkAll_firstChain {depth : Nat} (hends : Ends g origin depth) (ids entered : List String)
    (hlt : g.unentered entered < depth) :
    ∃ calls chain?, WalkAll g origin entered ids calls chain? ∧
      firstChain (searchFrom g origin depth) ids entered = (chain?, entered ++ calls) := by
  induction ids generalizing entered with
  | nil => exact ⟨[], none, .nil, by rw [firstChain, List.append_nil]⟩
  | cons id ids ih =>
    obtain ⟨calls, chain?, hwalk, heq⟩ := hends entered id hlt
    cases chain? with
    | some chain =>
      exact ⟨calls, some chain, .found hwalk, by simp only [firstChain, heq]⟩
    | none =>
      have hle := unentered_append_le (g := g) entered calls
      obtain ⟨calls', chain?, hrest, heq'⟩ := ih (entered ++ calls) (by omega)
      refine ⟨calls ++ calls', chain?, .next hwalk hrest, ?_⟩
      simp only [firstChain, heq, heq', List.append_assoc]

theorem ends (depth : Nat) : Ends g origin depth := by
  -- every port that is entered uses up one of those that are left and one step of the bound
  induction depth with
  | zero =>
    intro entered current hlt
    exact absurd hlt (Nat.not_lt_zero _)
  | succ depth ih =>
    intro entered current hlt
    by_cases horigin : current = origin
    · subst horigin
      exact ⟨[], some [current], .arrived, by simp [searchFrom]⟩
    by_cases hnew : current ∈ entered
    · exact ⟨[], none, .again horigin hnew, by simp [searchFrom, horigin, hnew]⟩
    cases hg : g.get? current with
    | none =>
      refine ⟨[current], none, .bare horigin hnew hg, ?_⟩
      simp only [searchFrom, if_neg horigin, if_neg hnew, hg]
    | some deps =>
      have hless := unentered_lt (mem_keys_of_get? hg) hnew
      obtain ⟨calls, chain?, hall, heq⟩ := walkAll_firstChain ih
        (deps.portIds.filter (· ≠ current)) (entered ++ [current]) (by omega)
      refine ⟨current :: calls, chain?.map (current :: ·), .enter horigin hnew hg hall, ?_⟩
      simp only [searchFrom, if_neg horigin, if_neg hnew, hg, heq]
      cases chain? with
      | none => simp
      | some chain => simp

theorem unentered_le_length (entered : List String) : g.unentered entered ≤ g.length := by
  have hle := List.length_filter_le (fun p => decide (p ∉ entered)) g.keys
  rwa [Dict.keys, List.length_map] at hle

theorem search_eq (g : DepGraph) (origin : String) (deps : DepSet) :
    ∃ calls chain?, WalkAll g origin [] (deps.portIds.filter (· ≠ origin)) calls chain? ∧
      g.search origin deps = (chain?.map (origin :: ·), calls) := by
  have hlt : g.unentered [] < g.length + 2 := by
    have hle := unentered_le_length (g := g) []
    omega
  obtain ⟨calls, chain?, hall, heq⟩ := walkAll_firstChain (ends (g.length + 2))
    (deps.portIds.filter (· ≠ origin)) [] hlt
  refine ⟨calls, chain?, hall, ?_⟩
  rw [search, heq]
  cases chain? with
  | none => rfl
  | some chain => rfl

/-! ### What a search looks up -/

mutual

theorem Walk.fresh : ∀ {entered calls : List String} {current : String}
    {chain? : Option (List String)}, Walk g origin entered current calls chain? →
    calls.Nodup ∧ ∀ p ∈ calls, p ∉ entered ∧ p ≠ origin
  | _, _, _, _, .arrived => ⟨List.nodup_nil, by simp⟩
  | _, _, _, _, .again _ _ => ⟨List.nodup_nil, by simp⟩
  | _, _, _, _, .bare hne hnew _ => by
    refine ⟨List.nodup_singleton _, ?_⟩
    intro p hp
    rw [List.mem_singleton.mp hp]
    exact ⟨hnew, hne⟩
  | _, _, _, _, .enter hne hnew _ h => by
    obtain ⟨hnodup, hcalls⟩ := h.fresh
    refine ⟨List.nodup_cons.mpr ⟨?_, hnodup⟩, ?_⟩
    · intro hp
      exact (hcalls _ hp).1 (List.mem_append_right _ (List.mem_singleton_self _))
    · intro p hp
      rcases List.mem_cons.mp hp with rfl | hp
      · exact ⟨hnew, hne⟩
      · obtain ⟨hout, horigin⟩ := hcalls p hp
        exact ⟨fun hmem => hout (List.mem_append_left _ hmem), horigin⟩

theorem WalkAll.fresh : ∀ {entered ids calls : List String} {chain? : Option (List String)},
    WalkAll g origin entered ids calls chain? →
    calls.Nodup ∧ ∀ p ∈ calls, p ∉ entered ∧ p ≠ origin
  | _, _, _, _, .nil => ⟨List.nodup_nil, by simp⟩
  | _, _, _, _, .found h => h.fresh
  | _, _, _, _, .next h hrest => by
    obtain ⟨hnodup, hcalls⟩ := h.fresh
    obtain ⟨hnodup', hcalls'⟩ := hrest.fresh
    constructor
    · refine List.nodup_append.mpr ⟨hnodup, hnodup', ?_⟩
      intro p hp q hq hpq
      subst hpq
      exact (hcalls' p hq).1 (List.mem_append_right _ hp)
    · intro p hp
      rcases List.mem_append.mp hp with hp | hp
      · exact hcalls p hp
      · obtain ⟨hout, horigin⟩ := hcalls' p hp
        exact ⟨fun hmem => hout (List.mem_append_left _ hmem), horigin⟩

end

/-! ### What a search finds -/

mutual

/-- A chain that is found visits some of the ports that were looked up, in their order. -/
theorem Walk.sound : ∀ {entered calls : List String} {current : String}
    {chain? : Option (List String)}, Walk g origin entered current calls chain? →
    ∀ chain, chain? = some chain → ∃ ps, chain = ps ++ [origin] ∧ ps.Sublist calls ∧
      chain.head? = some current ∧ chain.IsChain g.Refers
  | _, _, _, _, .arrived => by
    intro chain hchain
    cases hchain
    exact ⟨[], rfl, List.Sublist.refl _, rfl, List.isChain_singleton _⟩
  | _, _, _, _, .again _ _ => by
    intro chain hchain
    cases hchain
  | _, _, _, _, .bare _ _ _ => by
    intro chain hchain
    cases hchain
  | _, _, _, _, @Walk.enter _ _ _ _ current deps _ _ _ hg h => by
    have hsound := h.sound
    intro chain hchain
    obtain ⟨tail, htail, rfl⟩ := Option.map_eq_some_iff.mp hchain
    obtain ⟨ps, rfl, hsub, id, hid, hhead, hlinks⟩ := hsound tail htail
    have hrefers : g.Refers current id :=
      ⟨deps, hg, (DepSet.mem_portIds id deps).mp (List.mem_filter.mp hid).1⟩
    refine ⟨current :: ps, rfl, hsub.cons_cons current, rfl, ?_⟩
    refine List.isChain_cons.mpr ⟨?_, hlinks⟩
    intro next hnext
    rw [hhead] at hnext
    cases hnext
    exact hrefers

theorem WalkAll.sound : ∀ {entered ids calls : List String} {chain? : Option (List String)},
    WalkAll g origin entered ids calls chain? →
    ∀ chain, chain? = some chain → ∃ ps, chain = ps ++ [origin] ∧ ps.Sublist calls ∧
      ∃ id ∈ ids, chain.head? = some id ∧ chain.IsChain g.Refers
  | _, _, _, _, .nil => by
    intro chain hchain
    cases hchain
  | _, _, _, _, .found h => by
    have hsound := h.sound
    intro chain hchain
    obtain ⟨ps, heq, hsub, hhead, hlinks⟩ := hsound chain hchain
    exact ⟨ps, heq, hsub, _, List.mem_cons_self .., hhead, hlinks⟩
  | _, _, _, _, .next _ hrest => by
    have hsound := hrest.sound
    intro chain hchain
    obtain ⟨ps, heq, hsub, id, hid, hhead, hlinks⟩ := hsound chain hchain
    exact ⟨ps, heq, hsub.trans (List.sublist_append_right _ _), id, List.mem_cons_of_mem _ hid,
      hhead, hlinks⟩

end

/-! ### What a search misses -/

/-- Whatever the ports `calls` depend on has been reached. -/
def Explored (g : DepGraph) (calls reached : List String) : Prop :=
  ∀ p ∈ calls, ∀ q, g.Refers p q → q ∈ reached

mutual

/-- A search without a chain has followed every reference. -/
theorem Walk.explored : ∀ {entered calls : List String} {current : String}
    {chain? : Option (List String)}, Walk g origin entered current calls chain? →
    chain? = none → current ∈ entered ++ calls ∧ Explored g calls (entered ++ calls)
  | _, _, _, _, .arrived => by
    intro hnone
    cases hnone
  | _, _, _, _, .again _ h => by
    intro _
    refine ⟨List.mem_append_left _ h, ?_⟩
    intro p hp
    cases hp
  | _, _, _, _, .bare _ _ hg => by
    intro _
    refine ⟨List.mem_append_right _ (List.mem_singleton_self _), ?_⟩
    intro p hp q ⟨deps, hdeps, _⟩
    rw [List.mem_singleton.mp hp, hg] at hdeps
    cases hdeps
  | _, _, _, _, @Walk.enter _ _ entered calls current deps _ _ _ hg h => by
    have hall := h.explored
    intro hnone
    obtain ⟨hids, hcalls⟩ := hall (Option.map_eq_none_iff.mp hnone)
    have hassoc : entered ++ [current] ++ calls = entered ++ current :: calls := by
      rw [List.append_assoc, List.singleton_append]
    rw [hassoc] at hids hcalls
    have hself : current ∈ entered ++ current :: calls :=
      List.mem_append_right _ (List.mem_cons_self ..)
    refine ⟨hself, ?_⟩
    intro p hp q hq
    rcases List.mem_cons.mp hp with rfl | hp
    -- a reference of the port to itself is not followed, but the port has been reached
    · by_cases hqp : q = p
      · rw [hqp]
        exact hself
      · obtain ⟨deps', hdeps, hmem⟩ := hq
        rw [hg] at hdeps
        cases hdeps
        have hport := (DepSet.mem_portIds q deps).mpr hmem
        exact hids q (List.mem_filter.mpr ⟨hport, by simpa using hqp⟩)
    · exact hcalls p hp q hq

theorem WalkAll.explored : ∀ {entered ids calls : List String} {chain? : Option (List String)},
    WalkAll g origin entered ids calls chain? → chain? = none →
    (∀ id ∈ ids, id ∈ entered ++ calls) ∧ Explored g calls (entered ++ calls)
  | _, _, _, _, .nil => by
    intro _
    refine ⟨?_, ?_⟩
    · intro id hid
      cases hid
    · intro p hp
      cases hp
  | _, _, _, _, .found _ => by
    intro hnone
    cases hnone
  | _, _, _, _, .next h hrest => by
    have hfirst := h.explored rfl
    have hall := hrest.explored
    intro hnone
    obtain ⟨hid, hcalls⟩ := hfirst
    obtain ⟨hids, hcalls'⟩ := hall hnone
    rw [List.append_assoc] at hids hcalls'
    constructor
    · intro id hmem
      rcases List.mem_cons.mp hmem with rfl | hmem
      · rw [← List.append_assoc]
        exact List.mem_append_left _ hid
      · exact hids id hmem
    · intro p hp q hq
      rcases List.mem_append.mp hp with hp | hp
      · rw [← List.append_assoc]
        exact List.mem_append_left _ (hcalls p hp q hq)
      · exact hcalls' p hp q hq

end

/-- Nothing leads out of ports whose references are all among them. -/
theorem mem_of_isChain {reached ps : List String} (h : Explored g reached reached)
    (hchain : ps.IsChain g.Refers) (hhead : ∀ p ∈ ps.head?, p ∈ reached) :
    ∀ p ∈ ps, p ∈ reached := by
  induction ps with
  | nil =>
    intro p hp
    cases hp
  | cons q qs ih =>
    have hq : q ∈ reached := hhead q rfl
    obtain ⟨hnext, htail⟩ := List.isChain_cons.mp hchain
    have hqs := ih htail fun r hr => h q hq r (hnext r hr)
    intro p hp
    rcases List.mem_cons.mp hp with rfl | hp
    · exact hq
    · exact hqs p hp

/-! ### Circular references -/

variable {deps : DepSet}

theorem isLoop_of_walkAll {calls chain : List String}
    (h : WalkAll g origin [] (deps.portIds.filter (· ≠ origin)) calls (some chain)) :
    ∃ ps, chain = ps ++ [origin] ∧ IsLoop g origin deps ps ∧ ps.Nodup := by
  obtain ⟨hnodup, hcalls⟩ := h.fresh
  obtain ⟨ps, rfl, hsub, id, hid, hhead, hlinks⟩ := h.sound chain rfl
  obtain ⟨hport, hne⟩ := List.mem_filter.mp hid
  have horigin : origin ∉ ps := by
    intro hmem
    exact (hcalls origin (hsub.subset hmem)).2 rfl
  refine ⟨ps, rfl, ⟨?_, ?_, hlinks, horigin⟩, hnodup.sublist hsub⟩
  · rintro rfl
    cases hhead
    simp at hne
  · intro p hp
    rw [List.head?_append, hp] at hhead
    cases hhead
    exact (DepSet.mem_portIds id deps).mp hport

theorem not_isLoop_of_walkAll {calls : List String}
    (h : WalkAll g origin [] (deps.portIds.filter (· ≠ origin)) calls none) (ps : List String) :
    ¬IsLoop g origin deps ps := by
  intro hloop
  obtain ⟨_, hcalls⟩ := h.fresh
  obtain ⟨hids, hexplored⟩ := h.explored rfl
  rw [List.nil_append] at hids hexplored
  have hhead : ∀ p ∈ (ps ++ [origin]).head?, p ∈ calls := by
    obtain ⟨p, qs, rfl⟩ := List.exists_cons_of_ne_nil hloop.ne_nil
    intro q hq
    cases hq
    have hport := (DepSet.mem_portIds p deps).mpr (hloop.first p rfl)
    have hne : p ≠ origin := by
      rintro rfl
      exact hloop.avoids (List.mem_cons_self ..)
    exact hids p (List.mem_filter.mpr ⟨hport, by simpa using hne⟩)
  have horigin := mem_of_isChain hexplored hloop.chain hhead origin
    (List.mem_append_right _ (List.mem_singleton_self _))
  exact (hcalls origin horigin).2 rfl

theorem isLoop_of_findLoop {path : List String} (h : g.findLoop origin deps = some path) :
    ∃ ps, path = origin :: ps ++ [origin] ∧ IsLoop g origin deps ps ∧ ps.Nodup := by
  obtain ⟨calls, chain?, hall, hsearch⟩ := search_eq g origin deps
  rw [findLoop, hsearch] at h
  obtain ⟨chain, rfl, rfl⟩ := Option.map_eq_some_iff.mp h
  obtain ⟨ps, rfl, hloop, hnodup⟩ := isLoop_of_walkAll hall
  exact ⟨ps, rfl, hloop, hnodup⟩

theorem findLoop_eq_none_iff (g : DepGraph) (origin : String) (deps : DepSet) :
    g.findLoop origin deps = none ↔ ¬∃ ps, IsLoop g origin deps ps := by
  constructor
  · intro h
    obtain ⟨calls, chain?, hall, hsearch⟩ := search_eq g origin deps
    rw [findLoop, hsearch] at h
    rw [Option.map_eq_none_iff.mp h] at hall
    rintro ⟨ps, hloop⟩
    exact not_isLoop_of_walkAll hall ps hloop
  · intro h
    cases hpath : g.findLoop origin deps with
    | none => rfl
    | some path =>
      obtain ⟨ps, _, hloop, _⟩ := isLoop_of_findLoop hpath
      exact absurd ⟨ps, hloop⟩ h

/-- The search ends without its bound, looks no port up twice and never the origin. It finds a
circular reference, through distinct ports, wherever there is one. -/
theorem findLoop_sound_and_complete (g : DepGraph) (origin : String) (deps : DepSet) :
    (∃ calls chain?, WalkAll g origin [] (deps.portIds.filter (· ≠ origin)) calls chain? ∧
      g.search origin deps = (chain?.map (origin :: ·), calls) ∧ calls.Nodup ∧
      origin ∉ calls) ∧
    (g.findLoop origin deps = none ↔ ¬∃ ps, IsLoop g origin deps ps) ∧
    ∀ path, g.findLoop origin deps = some path →
      ∃ ps, path = origin :: ps ++ [origin] ∧ IsLoop g origin deps ps ∧ ps.Nodup := by
  refine ⟨?_, findLoop_eq_none_iff g origin deps, fun _ => isLoop_of_findLoop⟩
  obtain ⟨calls, chain?, hall, hsearch⟩ := search_eq g origin deps
  obtain ⟨hnodup, hcalls⟩ := hall.fresh
  exact ⟨calls, chain?, hall, hsearch, hnodup, fun hmem => (hcalls origin hmem).2 rfl⟩

/-- Two ways to one port make no loop; a way back to the origin does. -/
example :
    findLoop [("b", [.port "c", .port "d"]), ("c", [.port "d"]), ("d", [.port "x"])] "a"
      [.port "a", .port "b"] = none ∧
    findLoop [("b", [.port "c", .port "d"]), ("c", [.port "d"]), ("d", [.port "a"])] "a"
      [.port "a", .port "b"] = some ["a", "b", "c", "d", "a"] := by
  decide

end ControlNode.DepGraph
