import ControlNode.Dict
import Mathlib.Data.List.Perm.Subperm
import Mathlib.Data.String.Basic

/-!
# Sorted dictionaries

Changes keep the keys in strictly ascending order. In such a dictionary each entry is the one
that looking up its key gives.
-/

namespace ControlNode.Dict

variable {κ α β : Type}

def Sorted [LT κ] (d : Dict κ α) : Prop := d.Pairwise fun a b => a.1 < b.1

instance [LT κ] [DecidableLT κ] (d : Dict κ α) : Decidable (Sorted d) :=
  inferInstanceAs (Decidable (d.Pairwise fun a b => a.1 < b.1))

@[simp] theorem values_cons (key : κ) (a : α) (d : Dict κ α) :
    values ((key, a) :: d) = a :: values d := rfl

theorem sorted_nil [LT κ] : Sorted ([] : Dict κ α) := List.Pairwise.nil

section Lookup

variable [DecidableEq κ]

theorem mem_of_get? {d : Dict κ α} {key : κ} {a : α} (h : d.get? key = some a) :
    (key, a) ∈ d := by
  induction d with
  | nil => cases h
  | cons e d ih =>
    obtain ⟨k, b⟩ := e
    by_cases hk : k = key
    · rw [get?, if_pos hk] at h
      cases h
      rw [hk]
      exact List.mem_cons_self ..
    · rw [get?, if_neg hk] at h
      exact List.mem_cons_of_mem _ (ih h)

theorem get?_eq_none_of_forall_ne {d : Dict κ α} {key : κ} (h : ∀ e ∈ d, e.1 ≠ key) :
    d.get? key = none := by
  cases hd : d.get? key with
  | none => rfl
  | some a => exact absurd rfl (h _ (mem_of_get? hd))

theorem contains_keys (d : Dict κ α) (key : κ) : (keys d).contains key = d.contains key := by
  induction d with
  | nil => rfl
  | cons e d ih =>
    obtain ⟨k, a⟩ := e
    rw [Dict.contains] at ih ⊢
    by_cases hk : k = key
    · simp [keys, get?, hk]
    · have hne : (key == k) = false := beq_eq_false_iff_ne.mpr (Ne.symm hk)
      simpa [keys, get?, hk, hne] using ih

theorem get?_foldl_erase (d : Dict κ α) (l : Dict κ β) (key : κ) :
    (l.foldl (fun d e => d.erase e.1) d).get? key =
      if l.contains key then none else d.get? key := by
  induction l generalizing d with
  | nil => rfl
  | cons e l ih =>
    obtain ⟨k, b⟩ := e
    rw [List.foldl_cons, ih, get?_erase]
    by_cases hk : k = key
    · simp [Dict.contains, get?, hk]
    · simp [Dict.contains, get?, hk]

/-- A filter that keeps the entry of a key keeps what looking it up gives. -/
theorem get?_filter_of_kept {d : Dict κ α} {key : κ} {a : α}
    (h : d.get? key = some a) {p : κ × α → Bool} (hp : p (key, a) = true) :
    Dict.get? (d.filter p) key = some a := by
  induction d with
  | nil => cases h
  | cons e d ih =>
    obtain ⟨k, b⟩ := e
    by_cases hk : k = key
    · rw [get?, if_pos hk] at h
      cases h
      rw [hk, List.filter_cons_of_pos hp, get?, if_pos rfl]
    · rw [get?, if_neg hk] at h
      rw [List.filter_cons]
      split
      · rw [get?, if_neg hk]
        exact ih h
      · exact ih h

end Lookup

section Order

variable [LinearOrder κ]

theorem mem_insert {d : Dict κ α} {key : κ} {a : α} {e : κ × α} (h : e ∈ d.insert key a) :
    e = (key, a) ∨ e ∈ d := by
  induction d with
  | nil => simpa [insert] using h
  | cons x d ih =>
    obtain ⟨k, b⟩ := x
    simp only [insert] at h
    split at h
    · rcases List.mem_cons.mp h with h | h
      · exact Or.inl h
      · exact Or.inr (List.mem_cons_of_mem _ h)
    · split at h
      · exact List.mem_cons.mp h
      · rcases List.mem_cons.mp h with h | h
        · exact Or.inr (h ▸ List.mem_cons_self ..)
        · exact (ih h).imp id (List.mem_cons_of_mem _)

theorem sorted_insert {d : Dict κ α} (key : κ) (a : α) (h : Sorted d) :
    Sorted (d.insert key a) := by
  induction d with
  | nil => exact List.pairwise_singleton _ _
  | cons x d ih =>
    obtain ⟨k, b⟩ := x
    obtain ⟨hhead, htail⟩ := List.pairwise_cons.mp h
    simp only [insert]
    split
    · rename_i hk
      subst hk
      exact List.pairwise_cons.mpr ⟨hhead, htail⟩
    · rename_i hk
      split
      · rename_i hlt
        refine List.pairwise_cons.mpr ⟨?_, h⟩
        intro e he
        rcases List.mem_cons.mp he with rfl | he
        · exact hlt
        · exact lt_trans hlt (hhead e he)
      · rename_i hlt
        have hkey : k < key := lt_of_le_of_ne (not_lt.mp hlt) hk
        refine List.pairwise_cons.mpr ⟨?_, ih htail⟩
        intro e he
        rcases mem_insert he with rfl | he
        · exact hkey
        · exact hhead e he

theorem sorted_erase {d : Dict κ α} (key : κ) (h : Sorted d) : Sorted (d.erase key) :=
  List.Pairwise.filter _ h

theorem get?_of_mem {d : Dict κ α} {key : κ} {a : α} (hs : Sorted d) (h : (key, a) ∈ d) :
    d.get? key = some a := by
  induction d with
  | nil => cases h
  | cons x d ih =>
    obtain ⟨k, b⟩ := x
    obtain ⟨hhead, htail⟩ := List.pairwise_cons.mp hs
    rcases List.mem_cons.mp h with h | h
    · cases h
      simp [get?]
    · have hk : k ≠ key := ne_of_lt (hhead _ h)
      rw [get?, if_neg hk]
      exact ih htail h

theorem get?_filterMap {d : Dict κ α} (hs : Sorted d) (f : α → Option β) (key : κ) :
    get? (d.filterMap fun e => (f e.2).map fun b => (e.1, b)) key = (d.get? key).bind f := by
  induction d with
  | nil => rfl
  | cons x d ih =>
    obtain ⟨k, b⟩ := x
    obtain ⟨hhead, htail⟩ := List.pairwise_cons.mp hs
    have hrest := ih htail
    cases hf : f b with
    | none =>
      by_cases hk : k = key
      · subst hk
        have hnone : get? d k = none :=
          get?_eq_none_of_forall_ne fun e he => (ne_of_lt (hhead e he)).symm
        rw [hnone] at hrest
        simpa [hf, get?] using hrest
      · simpa [List.filterMap_cons, hf, get?, hk] using hrest
    | some c =>
      by_cases hk : k = key
      · subst hk
        simp [hf, get?]
      · simpa [List.filterMap_cons, hf, get?, hk] using hrest

theorem get?_map {d : Dict κ α} (hs : Sorted d) (f : α → β) (key : κ) :
    get? (d.map fun e => (e.1, f e.2)) key = (d.get? key).map f := by
  have h := get?_filterMap hs (fun a => some (f a)) key
  simpa [List.filterMap_eq_map', Option.map_eq_bind, Function.comp_def] using h

theorem get?_filter {d : Dict κ α} (hs : Sorted d) (p : α → Bool) (key : κ) :
    get? (d.filter fun e => p e.2) key = (d.get? key).filter p := by
  have hf : (d.filter fun e => p e.2) =
      d.filterMap fun e => (Option.guard p e.2).map fun b => (e.1, b) := by
    rw [← List.filterMap_eq_filter]
    refine List.filterMap_congr fun e _ => ?_
    by_cases he : p e.2 <;> simp [Option.guard, he]
  rw [hf, get?_filterMap hs]
  cases d.get? key <;> simp [Option.guard, Option.filter]

theorem nodup_of_sorted {d : Dict κ α} (h : Sorted d) : d.Nodup :=
  List.Pairwise.imp (fun hab heq => absurd (heq ▸ hab) (lt_irrefl _)) h

theorem eq_of_perm {d d' : Dict κ α} (hs : Sorted d) (hs' : Sorted d') (h : d.Perm d') :
    d = d' :=
  h.eq_of_pairwise (fun _ _ _ _ hab hba => absurd hab (lt_asymm hba)) hs hs'

/-- A sorted dictionary is the list of what its keys look up. -/
theorem ext_get? {d d' : Dict κ α} (hs : Sorted d) (hs' : Sorted d')
    (h : ∀ key, d.get? key = d'.get? key) : d = d' := by
  have hmem : ∀ e, e ∈ d ↔ e ∈ d' := by
    rintro ⟨key, a⟩
    constructor
    · intro he
      exact mem_of_get? ((h key).symm.trans (get?_of_mem hs he))
    · intro he
      exact mem_of_get? ((h key).trans (get?_of_mem hs' he))
  exact eq_of_perm hs hs'
    ((List.perm_ext_iff_of_nodup (nodup_of_sorted hs) (nodup_of_sorted hs')).mpr hmem)

/-- Of two sorted dictionaries of one size neither has more entries than the other. -/
theorem eq_of_subset {d d' : Dict κ α} (hs : Sorted d) (hs' : Sorted d') (hsub : d ⊆ d')
    (hlen : d.length = d'.length) : d = d' :=
  eq_of_perm hs hs' ((List.subperm_of_subset (nodup_of_sorted hs) hsub).perm_of_length_le hlen.ge)

theorem insert_of_get? {d : Dict κ α} {key : κ} {a : α} (hs : Sorted d)
    (h : d.get? key = some a) : d.insert key a = d := by
  refine ext_get? (sorted_insert key a hs) hs fun other => ?_
  rw [get?_insert]
  split
  · rename_i hk
    rw [← hk, h]
  · rfl

/-- Later insertions under one key win; here each key is inserted once. -/
theorem get?_foldl_insert {d l : Dict κ α} (f : α → α) (hl : Sorted l) (key : κ) :
    (l.foldl (fun d e => d.insert e.1 (f e.2)) d).get? key =
      ((l.get? key).map f).or (d.get? key) := by
  induction l generalizing d with
  | nil => rfl
  | cons e l ih =>
    obtain ⟨k, a⟩ := e
    obtain ⟨hhead, htail⟩ := List.pairwise_cons.mp hl
    rw [List.foldl_cons, ih htail, get?_insert]
    by_cases hk : k = key
    · subst hk
      have hnone : get? l k = none :=
        get?_eq_none_of_forall_ne fun e he => (ne_of_lt (hhead e he)).symm
      simp [get?, hnone]
    · simp [get?, hk]

theorem sorted_foldl_insert {d : Dict κ α} (l : Dict κ β) (f : β → α) (hs : Sorted d) :
    Sorted (l.foldl (fun d e => d.insert e.1 (f e.2)) d) := by
  induction l generalizing d with
  | nil => exact hs
  | cons e l ih => exact ih (sorted_insert _ _ hs)

theorem sorted_foldl_erase {d : Dict κ α} (l : Dict κ β) (hs : Sorted d) :
    Sorted (l.foldl (fun d e => d.erase e.1) d) := by
  induction l generalizing d with
  | nil => exact hs
  | cons e l ih => exact ih (sorted_erase _ hs)

/-- Writing changed entries back under their keys changes them in place. -/
theorem foldl_insert_filter {d : Dict κ α} (hs : Sorted d) (p : α → Bool) (f : α → α) :
    (d.filter fun e => p e.2).foldl (fun d e => d.insert e.1 (f e.2)) d =
      d.map fun e => (e.1, if p e.2 then f e.2 else e.2) := by
  have hfound : Sorted (d.filter fun e => p e.2) := List.Pairwise.filter _ hs
  have hmapped : Sorted (d.map fun e => (e.1, if p e.2 then f e.2 else e.2)) :=
    List.pairwise_map.mpr hs
  refine ext_get? (sorted_foldl_insert _ f hs) hmapped fun key => ?_
  rw [get?_foldl_insert f hfound, get?_filter hs, get?_map hs fun a => if p a then f a else a]
  cases d.get? key with
  | none => rfl
  | some a => by_cases hp : p a <;> simp [Option.filter, hp]

theorem foldl_erase_filter {d : Dict κ α} (hs : Sorted d) (p : α → Bool) :
    (d.filter fun e => p e.2).foldl (fun d e => d.erase e.1) d = d.filter fun e => !p e.2 := by
  have hkept : Sorted (d.filter fun e => !p e.2) := List.Pairwise.filter _ hs
  refine ext_get? (sorted_foldl_erase _ hs) hkept fun key => ?_
  rw [get?_foldl_erase, contains, get?_filter hs, get?_filter hs fun a => !p a]
  cases d.get? key with
  | none => rfl
  | some a => by_cases hp : p a <;> simp [Option.filter, hp]

/-- What is inserted twice under one key need not be told apart. -/
theorem get?_ofList {pairs : List (κ × α)} (h : ∀ e ∈ pairs, ∀ f ∈ pairs, e.1 = f.1 → e = f)
    {key : κ} {a : α} : (Dict.ofList pairs).get? key = some a ↔ (key, a) ∈ pairs := by
  suffices hfold : ∀ (d : Dict κ α),
      (∀ e ∈ pairs, d.get? e.1 = none ∨ d.get? e.1 = some e.2) →
      ((pairs.foldl (fun d e => d.insert e.1 e.2) d).get? key = some a ↔
        d.get? key = some a ∨ (key, a) ∈ pairs) by
    have hnil := hfold [] fun _ _ => Or.inl rfl
    simpa [Dict.ofList, get?] using hnil
  induction pairs with
  | nil => simp
  | cons e pairs ih =>
    intro d hd
    have htail : ∀ e ∈ pairs, ∀ f ∈ pairs, e.1 = f.1 → e = f := fun x hx y hy =>
      h x (List.mem_cons_of_mem _ hx) y (List.mem_cons_of_mem _ hy)
    rw [List.foldl_cons, ih htail, get?_insert, List.mem_cons]
    · by_cases hk : e.1 = key
      · subst hk
        have he := hd e (List.mem_cons_self ..)
        constructor
        · rintro (hv | hv)
          · rw [if_pos rfl] at hv
            cases hv
            exact Or.inr (Or.inl rfl)
          · exact Or.inr (Or.inr hv)
        · rintro (hv | hv | hv)
          · rw [hv] at he
            rcases he with he | he
            · cases he
            · exact Or.inl (by rw [if_pos rfl]; exact he.symm)
          · exact Or.inl (by rw [if_pos rfl, ← hv])
          · exact Or.inr hv
      · have hne : (key, a) ≠ e := fun heq => hk (by rw [← heq])
        rw [if_neg hk]
        simp only [hne, false_or]
    · intro x hx
      rw [get?_insert]
      by_cases hk : e.1 = x.1
      · rw [if_pos hk, h e (List.mem_cons_self ..) x (List.mem_cons_of_mem _ hx) hk]
        exact Or.inr rfl
      · rw [if_neg hk]
        exact hd x (List.mem_cons_of_mem _ hx)

theorem insert_of_forall_lt {d : Dict κ α} {key : κ} {a : α}
    (h : ∀ e ∈ d, key < e.1) : d.insert key a = (key, a) :: d := by
  cases d with
  | nil => rfl
  | cons e d =>
    have hlt := h e (List.mem_cons_self ..)
    rw [insert, if_neg (ne_of_gt hlt), if_pos hlt]

theorem insert_append_of_forall_lt {d d' : Dict κ α} {key : κ} {a : α}
    (h : ∀ e ∈ d', key < e.1) :
    Dict.insert (d ++ d') key a = d.insert key a ++ d' := by
  induction d with
  | nil => exact insert_of_forall_lt h
  | cons e d ih =>
    obtain ⟨k, b⟩ := e
    simp only [List.cons_append, insert, ih]
    split
    · rfl
    · split <;> rfl

theorem insert_append_of_forall_gt {d d' : Dict κ α} {key : κ} {a : α}
    (h : ∀ e ∈ d, e.1 < key) :
    Dict.insert (d ++ d') key a = d ++ d'.insert key a := by
  induction d with
  | nil => rfl
  | cons e d ih =>
    obtain ⟨k, b⟩ := e
    have hlt : k < key := h _ (List.mem_cons_self ..)
    rw [List.cons_append, insert, if_neg (ne_of_lt hlt), if_neg (not_lt_of_gt hlt),
      ih fun e he => h e (List.mem_cons_of_mem _ he), List.cons_append]

theorem insert_of_forall_gt {d : Dict κ α} {key : κ} {a : α} (h : ∀ e ∈ d, e.1 < key) :
    d.insert key a = d ++ [(key, a)] := by
  have hnil : Dict.insert (d ++ []) key a = d ++ Dict.insert [] key a :=
    insert_append_of_forall_gt h
  rwa [List.append_nil] at hnil

/-! ### Lists of pairs -/

theorem sorted_ofList (pairs : List (κ × α)) : Sorted (Dict.ofList pairs) :=
  sorted_foldl_insert pairs id sorted_nil

theorem mem_foldl_insert {pairs : List (κ × α)} {d : Dict κ α} {e : κ × α}
    (h : e ∈ pairs.foldl (fun d e => d.insert e.1 e.2) d) : e ∈ d ∨ e ∈ pairs := by
  induction pairs generalizing d with
  | nil => exact Or.inl h
  | cons x pairs ih =>
    rcases ih h with he | he
    · rcases mem_insert he with rfl | he
      · exact Or.inr (List.mem_cons_self ..)
      · exact Or.inl he
    · exact Or.inr (List.mem_cons_of_mem _ he)

theorem mem_ofList {pairs : List (κ × α)} {e : κ × α} (h : e ∈ Dict.ofList pairs) : e ∈ pairs :=
  (mem_foldl_insert h).resolve_left List.not_mem_nil

/-- What is inserted under the key of an entry may be the entry itself. -/
theorem get?_foldl_insert_of_same {pairs : List (κ × α)} {d : Dict κ α} {key : κ} {a : α}
    (h : ∀ e ∈ pairs, e.1 = key → e.2 = a) (hd : d.get? key = some a) :
    Dict.get? (pairs.foldl (fun d e => d.insert e.1 e.2) d) key = some a := by
  induction pairs generalizing d with
  | nil => exact hd
  | cons e pairs ih =>
    apply ih fun x hx => h x (List.mem_cons_of_mem _ hx)
    rw [get?_insert]
    split
    · rename_i hk
      rw [h e (List.mem_cons_self ..) hk]
    · exact hd

theorem get?_ofList_of_mem {pairs : List (κ × α)} {key : κ} {a : α} (hmem : (key, a) ∈ pairs)
    (h : ∀ e ∈ pairs, e.1 = key → e.2 = a) : (Dict.ofList pairs).get? key = some a := by
  obtain ⟨front, rest, rfl⟩ := List.append_of_mem hmem
  rw [Dict.ofList, List.foldl_append, List.foldl_cons]
  refine get?_foldl_insert_of_same (fun e he => h e (by simp [he])) ?_
  rw [get?_insert, if_pos rfl]

theorem get?_ofList_eq_none {pairs : List (κ × α)} {key : κ} (h : ∀ e ∈ pairs, e.1 ≠ key) :
    (Dict.ofList pairs).get? key = none :=
  get?_eq_none_of_forall_ne fun e he => h e (mem_ofList he)

theorem ofList_of_sorted {d : Dict κ α} (h : Sorted d) : Dict.ofList d = d := by
  suffices hfold : ∀ before : Dict κ α, Sorted (before ++ d) →
      d.foldl (fun d e => d.insert e.1 e.2) before = before ++ d by
    exact hfold [] h
  induction d with
  | nil => simp
  | cons e d ih =>
    intro before hs
    have hgt : ∀ x ∈ before, x.1 < e.1 := fun x hx =>
      (List.pairwise_append.mp hs).2.2 x hx e (List.mem_cons_self ..)
    rw [List.foldl_cons, insert_of_forall_gt hgt,
      ih (List.pairwise_cons.mp h).2 _ (by simpa using hs)]
    simp

/-! ### Entries of one kind -/

/-- The keys ascend and each entry satisfies `P`. -/
structure Ordered (P : α → Prop) (d : Dict κ α) : Prop where
  sorted : Sorted d
  entries : ∀ e ∈ d, P e.2

namespace Ordered

variable {P : α → Prop} {d : Dict κ α}

theorem nil : Ordered P ([] : Dict κ α) := ⟨sorted_nil, by simp⟩

theorem imp {Q : α → Prop} (h : Ordered P d) (hPQ : ∀ a, P a → Q a) : Ordered Q d :=
  ⟨h.sorted, fun e he => hPQ _ (h.entries e he)⟩

theorem insert (h : Ordered P d) (key : κ) {a : α} (ha : P a) : Ordered P (d.insert key a) := by
  refine ⟨sorted_insert _ _ h.sorted, fun e he => ?_⟩
  rcases mem_insert he with rfl | he
  · exact ha
  · exact h.entries e he

theorem filter (h : Ordered P d) (p : κ × α → Bool) : Ordered P (d.filter p) :=
  ⟨List.Pairwise.filter _ h.sorted, fun e he => h.entries e (List.mem_filter.mp he).1⟩

theorem map (h : Ordered P d) {f : κ × α → α} (hf : ∀ e ∈ d, P (f e)) :
    Ordered P (d.map fun e => (e.1, f e)) := by
  refine ⟨List.pairwise_map.mpr h.sorted, fun e he => ?_⟩
  obtain ⟨x, hx, rfl⟩ := List.mem_map.mp he
  exact hf x hx

theorem get? (h : Ordered P d) {key : κ} {a : α} (ha : d.get? key = some a) : P a :=
  h.entries _ (mem_of_get? ha)

end Ordered

end Order

end ControlNode.Dict
