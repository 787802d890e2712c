import Mathlib.Data.List.Nodup
import Mathlib.Data.String.Basic
import ScreenDoc.KeyMap

/-!
# Look-up in maps from text keys

A look-up sees the first entry with its key. Where no key occurs twice, the order of the entries
does not matter to it, and a map that lists its keys in increasing order is determined by what
its look-ups answer. So sorting the entries of a text changes no look-up.
-/

namespace ScreenDoc

namespace KeyMap

variable {α β : Type}

@[simp] theorem keys_append (m n : KeyMap α) : keys (m ++ n) = keys m ++ keys n := by
  simp [keys]

theorem mem_keys {m : KeyMap α} {key : String} : key ∈ keys m ↔ ∃ value, (key, value) ∈ m := by
  simp [keys]

@[simp] theorem get?_nil (key : String) : get? ([] : KeyMap α) key = none := rfl

theorem get?_cons (k : String) (v : α) (m : KeyMap α) (key : String) :
    get? ((k, v) :: m) key = if key = k then some v else get? m key := by
  by_cases h : key = k
  · simp [get?, h]
  · have hb : (key == k) = false := beq_eq_false_iff_ne.mpr h
    simp [get?, List.lookup_cons, h, hb]

theorem get?_append (m n : KeyMap α) (key : String) :
    get? (m ++ n) key = (get? m key).or (get? n key) :=
  List.lookup_append

theorem get?_eq_none_iff {m : KeyMap α} {key : String} : get? m key = none ↔ key ∉ keys m := by
  simp only [get?, List.lookup_eq_none_iff, keys, List.mem_map, not_exists, not_and]
  constructor
  · intro h entry hentry heq
    have := h entry hentry
    simp [heq] at this
  · intro h entry hentry
    have := h entry hentry
    simpa using fun heq => this heq.symm

theorem get?_isSome_iff {m : KeyMap α} {key : String} :
    (get? m key).isSome ↔ key ∈ keys m := by
  rw [← not_iff_not, ← get?_eq_none_iff]
  cases get? m key <;> simp

theorem get?_of_mem {m : KeyMap α} {key : String} {value : α} (hm : m.keys.Nodup)
    (h : (key, value) ∈ m) : get? m key = some value := by
  induction m with
  | nil => cases h
  | cons entry m ih =>
    obtain ⟨k, v⟩ := entry
    obtain ⟨hk, hm⟩ := List.nodup_cons.mp hm
    rw [get?_cons]
    rcases List.mem_cons.mp h with heq | hmem
    · cases heq
      simp
    · have hne : key ≠ k := by
        rintro rfl
        exact hk (mem_keys.mpr ⟨value, hmem⟩)
      rw [if_neg hne, ih hm hmem]

theorem get?_eq_some_iff {m : KeyMap α} {key : String} {value : α} (hm : m.keys.Nodup) :
    get? m key = some value ↔ (key, value) ∈ m :=
  ⟨mem_of_get?, get?_of_mem hm⟩

private theorem get?_perm {m n : KeyMap α} (h : m.Perm n) (hm : m.keys.Nodup) (key : String) :
    get? m key = get? n key := by
  have hn : n.keys.Nodup := (h.map Prod.fst).nodup_iff.mp hm
  apply Option.ext
  intro value
  rw [get?_eq_some_iff hm, get?_eq_some_iff hn, h.mem_iff]

theorem get?_filter (keep : String → Bool) (m : KeyMap α) (key : String) :
    get? (m.filter fun entry => keep entry.1) key = if keep key then get? m key else none := by
  induction m with
  | nil => simp
  | cons entry m ih =>
    obtain ⟨k, v⟩ := entry
    rw [List.filter_cons]
    by_cases hkey : key = k
    · subst hkey
      cases hkeep : keep key <;> simp [hkeep, get?_cons, ih]
    · cases hkeep : keep k <;> simp [get?_cons, ih, hkey]

theorem mapValues_cons (f : α → β) (entry : String × α) (m : KeyMap α) :
    mapValues f (entry :: m) = (entry.1, f entry.2) :: mapValues f m := rfl

@[simp] theorem keys_mapValues (f : α → β) (m : KeyMap α) : keys (mapValues f m) = keys m := by
  simp [keys, mapValues, Function.comp_def]

theorem get?_mapValues (f : α → β) (m : KeyMap α) (key : String) :
    get? (mapValues f m) key = (get? m key).map f := by
  induction m with
  | nil => rfl
  | cons entry m ih =>
    obtain ⟨k, v⟩ := entry
    rw [mapValues_cons, get?_cons, get?_cons, ih]
    split <;> rfl

theorem repeats_eq_false_iff {m : KeyMap α} : repeats m = false ↔ m.keys.Nodup := by
  simp [repeats]

/-! ## Sorted maps -/

theorem Sorted.nodup {m : KeyMap α} (h : Sorted m) : m.keys.Nodup :=
  h.imp fun hlt => ne_of_lt hlt

private theorem get?_insert (m : KeyMap α) (key : String) (value : α) (k : String) :
    get? (insert m key value) k = if k = key then some value else get? m k := by
  induction m with
  | nil => simp [insert, get?_cons]
  | cons entry m ih =>
    obtain ⟨first, v⟩ := entry
    simp only [insert]
    split
    · rw [get?_cons]
    · split
      · rename_i heq
        rw [get?_cons, get?_cons, heq]
        split <;> rfl
      · rename_i hne
        rw [get?_cons, get?_cons, ih]
        by_cases hk : k = first
        · have hkey : k ≠ key := by
            rintro rfl
            exact hne hk
          rw [if_pos hk, if_neg hkey, if_pos hk]
        · rw [if_neg hk, if_neg hk]

theorem get?_insertAll {entries : List (String × α)} (hentries : KeyMap.keys entries |>.Nodup)
    (m : KeyMap α) (key : String) :
    get? (insertAll m entries) key = (get? entries key).or (get? m key) := by
  induction entries generalizing m with
  | nil => simp [insertAll]
  | cons entry entries ih =>
    obtain ⟨k, v⟩ := entry
    obtain ⟨hk, hentries⟩ := List.nodup_cons.mp hentries
    change get? (insertAll (insert m k v) entries) key = _
    rw [ih hentries, get?_insert, get?_cons]
    by_cases hkey : key = k
    · rw [hkey, get?_eq_none_iff.mpr hk]
      simp
    · simp [hkey]

theorem get?_ofList {entries : List (String × α)} (h : (KeyMap.keys entries).Nodup)
    (key : String) : get? (ofList entries) key = get? entries key := by
  rw [ofList, get?_insertAll h]
  simp

theorem get?_ofList_mapValues {f : α → β} {entries : List (String × α)}
    (h : (KeyMap.keys entries).Nodup) (key : String) :
    get? (ofList (mapValues f entries)) key = (get? entries key).map f := by
  rw [get?_ofList (by simpa using h), get?_mapValues]

theorem eq_of_get? {m n : KeyMap α} (hm : Sorted m) (hn : Sorted n)
    (h : ∀ key, get? m key = get? n key) : m = n := by
  induction m generalizing n with
  | nil =>
    cases n with
    | nil => rfl
    | cons entry n =>
      obtain ⟨l, w⟩ := entry
      have := h l
      simp [get?_cons] at this
  | cons entry m ih =>
    obtain ⟨k, v⟩ := entry
    cases n with
    | nil =>
      have := h k
      simp [get?_cons] at this
    | cons other n =>
      obtain ⟨l, w⟩ := other
      obtain ⟨hk, hms⟩ := sorted_cons.mp hm
      obtain ⟨hl, hns⟩ := sorted_cons.mp hn
      have hkl : k = l := by
        -- Otherwise each first key stands behind the other one.
        by_contra hne
        have h1 : k ∈ keys n := by
          have := h k
          rw [get?_cons, get?_cons, if_pos rfl, if_neg hne] at this
          exact get?_isSome_iff.mp (by simp [← this])
        have h2 : l ∈ keys m := by
          have := h l
          rw [get?_cons, get?_cons, if_pos rfl, if_neg (Ne.symm hne)] at this
          exact get?_isSome_iff.mp (by simp [this])
        exact lt_asymm (hk l h2) (hl k h1)
      subst hkl
      have hvw : v = w := by simpa [get?_cons] using h k
      subst hvw
      congr 1
      apply ih hms hns
      intro key
      by_cases hkey : key = k
      · rw [hkey, get?_eq_none_iff.mpr fun hmem => lt_irrefl _ (hk k hmem),
          get?_eq_none_iff.mpr fun hmem => lt_irrefl _ (hl k hmem)]
      · simpa [get?_cons, hkey] using h key

theorem ofList_of_sorted {m : KeyMap α} (h : Sorted m) : ofList m = m :=
  eq_of_get? (sorted_ofList m) h (get?_ofList h.nodup)

theorem ofList_perm {m n : KeyMap α} (h : m.Perm n) (hm : m.keys.Nodup) :
    ofList m = ofList n := by
  have hn : n.keys.Nodup := (h.map Prod.fst).nodup_iff.mp hm
  apply eq_of_get? (sorted_ofList m) (sorted_ofList n)
  intro key
  rw [get?_ofList hm, get?_ofList hn, get?_perm h hm]

theorem perm_ofList {m : KeyMap α} (hm : m.keys.Nodup) : (ofList m).Perm m := by
  have hs := (sorted_ofList m).nodup
  refine (List.perm_ext_iff_of_nodup (List.Nodup.of_map _ hs) (List.Nodup.of_map _ hm)).mpr ?_
  rintro ⟨key, value⟩
  rw [← get?_eq_some_iff hs, ← get?_eq_some_iff hm, get?_ofList hm]

end KeyMap

namespace SortedMap

variable {α : Type}

theorem nodup_keys (m : SortedMap α) : (KeyMap.keys m.entries).Nodup :=
  m.sorted.nodup

theorem ofList_perm {entries entries' : List (String × α)} (h : entries.Perm entries')
    (hkeys : (KeyMap.keys entries).Nodup) : ofList entries = ofList entries' :=
  SortedMap.ext (KeyMap.ofList_perm h hkeys)

@[simp] theorem ofList_entries (m : SortedMap α) : ofList m.entries = m :=
  SortedMap.ext (KeyMap.ofList_of_sorted m.sorted)

end SortedMap

end ScreenDoc
