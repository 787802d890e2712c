/-!
# Maps from text keys

Association lists by text key. Reading keeps the entries in text order, repeats included. A map
proper lists its keys in strictly increasing order of their code points: `KeyMap.insert` keeps that
order and `KeyMap.ofList` establishes it, the last of two entries with one key winning. A
`SortedMap` carries it.
-/

namespace ScreenDoc

/-- Entries by key, in some order. -/
abbrev KeyMap (α : Type) := List (String × α)

namespace KeyMap

variable {α β : Type}

def get? (m : KeyMap α) (key : String) : Option α :=
  List.lookup key m

def contains (m : KeyMap α) (key : String) : Bool :=
  m.any fun entry => entry.1 == key

def keys (m : KeyMap α) : List String :=
  m.map Prod.fst

/-- Puts an entry in its place among sorted ones, over an entry with the same key. -/
def insert : KeyMap α → String → α → KeyMap α
  | [], key, value => [(key, value)]
  | (k, v) :: rest, key, value =>
    if key < k then (key, value) :: (k, v) :: rest
    else if key = k then (key, value) :: rest
    else (k, v) :: insert rest key value

/-- Inserts entries from left to right, so that the last of a key wins. -/
def insertAll (m : KeyMap α) (entries : List (String × α)) : KeyMap α :=
  entries.foldl (fun m entry => insert m entry.1 entry.2) m

def ofList (entries : List (String × α)) : KeyMap α :=
  insertAll [] entries

def Sorted (m : KeyMap α) : Prop :=
  m.keys.Pairwise (· < ·)

def repeats (m : KeyMap α) : Bool :=
  !decide m.keys.Nodup

def mapValues (f : α → β) (m : KeyMap α) : KeyMap β :=
  m.map fun entry => (entry.1, f entry.2)

@[simp] theorem keys_nil : keys ([] : KeyMap α) = [] := rfl

@[simp] theorem keys_cons (entry : String × α) (m : KeyMap α) :
    keys (entry :: m) = entry.1 :: keys m := rfl

theorem mem_of_get? {m : KeyMap α} {key : String} {value : α} (h : m.get? key = some value) :
    (key, value) ∈ m := by
  induction m with
  | nil => simp [get?] at h
  | cons entry m ih =>
    obtain ⟨k, v⟩ := entry
    simp only [get?, List.lookup_cons] at h
    split at h
    · rename_i hk
      simp only [beq_iff_eq] at hk
      cases h
      subst hk
      exact List.mem_cons_self
    · exact List.mem_cons_of_mem _ (ih h)

theorem sorted_cons {entry : String × α} {m : KeyMap α} :
    Sorted (entry :: m) ↔ (∀ key ∈ m.keys, entry.1 < key) ∧ Sorted m :=
  List.pairwise_cons

theorem mem_keys_insert {m : KeyMap α} {key k : String} {value : α} :
    k ∈ keys (insert m key value) ↔ k = key ∨ k ∈ m.keys := by
  induction m with
  | nil => simp [insert]
  | cons entry m ih =>
    simp only [insert]
    split
    · simp
    · split
      · rename_i heq
        simp [heq]
      · simp only [keys_cons, List.mem_cons, ih, or_left_comm]

theorem sorted_insert {m : KeyMap α} (key : String) (value : α) (h : Sorted m) :
    Sorted (insert m key value) := by
  induction m with
  | nil => simp [insert, Sorted]
  | cons entry m ih =>
    obtain ⟨hlt, hm⟩ := sorted_cons.mp h
    simp only [insert]
    split
    · rename_i hbefore
      refine sorted_cons.mpr ⟨?_, h⟩
      intro k hk
      rcases List.mem_cons.mp hk with rfl | hk
      · exact hbefore
      · exact String.lt_trans hbefore (hlt k hk)
    · rename_i hbefore
      split
      · rename_i heq
        exact sorted_cons.mpr ⟨fun k hk => heq ▸ hlt k hk, hm⟩
      · rename_i hne
        refine sorted_cons.mpr ⟨?_, ih hm⟩
        intro k hk
        rcases mem_keys_insert.mp hk with rfl | hk
        · exact Decidable.byContradiction fun hafter =>
            hne (String.le_antisymm (String.not_lt.mp hafter) (String.not_lt.mp hbefore))
        · exact hlt k hk

theorem sorted_insertAll {m : KeyMap α} (entries : List (String × α)) (h : Sorted m) :
    Sorted (insertAll m entries) := by
  induction entries generalizing m with
  | nil => exact h
  | cons entry entries ih => exact ih (sorted_insert entry.1 entry.2 h)

theorem sorted_ofList (entries : List (String × α)) : Sorted (ofList entries) :=
  sorted_insertAll entries List.Pairwise.nil

theorem mem_of_mem_insert {m : KeyMap α} {key : String} {value : α} {entry : String × α}
    (h : entry ∈ insert m key value) : entry = (key, value) ∨ entry ∈ m := by
  induction m with
  | nil => exact .inl (List.mem_singleton.mp h)
  | cons first m ih =>
    simp only [insert] at h
    split at h
    · exact List.mem_cons.mp h
    · split at h
      · rcases List.mem_cons.mp h with h | h
        · exact .inl h
        · exact .inr (List.mem_cons_of_mem _ h)
      · rcases List.mem_cons.mp h with h | h
        · exact .inr (h ▸ List.mem_cons_self)
        · exact (ih h).imp_right (List.mem_cons_of_mem _)

theorem mem_of_mem_insertAll {entries : List (String × α)} {m : KeyMap α} {entry : String × α}
    (h : entry ∈ insertAll m entries) : entry ∈ entries ∨ entry ∈ m := by
  induction entries generalizing m with
  | nil => exact .inr h
  | cons first entries ih =>
    rcases ih h with h | h
    · exact .inl (List.mem_cons_of_mem _ h)
    · rcases mem_of_mem_insert h with rfl | h
      · exact .inl List.mem_cons_self
      · exact .inr h

theorem mem_of_mem_ofList {entries : List (String × α)} {entry : String × α}
    (h : entry ∈ ofList entries) : entry ∈ entries := by
  simpa using mem_of_mem_insertAll h

end KeyMap

@[ext]
structure SortedMap (α : Type) where
  entries : KeyMap α
  sorted : entries.Sorted

namespace SortedMap

variable {α : Type}

instance : EmptyCollection (SortedMap α) := ⟨⟨[], .nil⟩⟩

instance : Inhabited (SortedMap α) := ⟨∅⟩

def isEmpty (m : SortedMap α) : Bool :=
  m.entries.isEmpty

@[simp] theorem isEmpty_empty : (∅ : SortedMap α).isEmpty = true := rfl

theorem eq_empty {m : SortedMap α} (h : m.isEmpty) : m = ∅ :=
  SortedMap.ext (List.isEmpty_iff.mp h)

def insert (m : SortedMap α) (key : String) (value : α) : SortedMap α :=
  ⟨m.entries.insert key value, KeyMap.sorted_insert key value m.sorted⟩

def ofList (entries : List (String × α)) : SortedMap α :=
  ⟨KeyMap.ofList entries, KeyMap.sorted_ofList entries⟩

end SortedMap

end ScreenDoc
