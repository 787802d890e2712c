import ScreenDoc.Proofs.Json.InRange

/-!
# What a reader needs of a draft

Most readers take the whole of a draft, so what they accept is a value, and it fits into the room
they have. A record passes over keys that it does not know, whatever stands there: what it accepts
can be replaced by a value, without these keys, that is read alike.
-/

namespace ScreenDoc

namespace Draft

open Json (toDraft toItems toMembers)

/-! ## Readers of whole values -/

/-- A reader that accepts whole values only, and none that nest deeper than there is room. -/
def Exact {α : Type} (read : Nat → Draft → Except Failure α) : Prop :=
  ∀ (room : Nat) (d : Draft) (a : α), read room d = .ok a →
    ∃ j : Json, d = j.toDraft ∧ j.depth ≤ room

section Exact

variable {α β : Type}

theorem enter_eq_ok {room : Nat} {read : Nat → Except Failure α} {a : α} :
    enter room read = .ok a ↔ ∃ inner, room = inner + 1 ∧ read inner = .ok a := by
  cases room with
  | zero => simp [enter, malformed]
  | succ inner => simp [enter]

theorem unexpected_ne_ok {d : Draft} {a : α} : d.unexpected ≠ .ok a := by
  unfold unexpected
  split <;> simp [malformed, fail, mismatch]

theorem exact_value : Exact fun room d => d.value room :=
  fun _ _ _ h => ⟨_, eq_toDraft_of_value h⟩

theorem Exact.bind {read : Nat → Draft → Except Failure α} (h : Exact read)
    (next : α → Except Failure β) : Exact fun room d => read room d >>= next := by
  intro room d b hread
  obtain ⟨a, ha, -⟩ := bind_eq_ok.mp hread
  exact h _ _ _ ha

theorem eq_toItems_of_list {read : Nat → Draft → Except Failure α} (h : Exact read) {room : Nat}
    {items : Items} {results : List α} (hread : items.list (read room) = .ok results) :
    ∃ values, items = toItems values ∧ ∀ value ∈ values, value.depth ≤ room := by
  cases items with
  | close => exact ⟨[], rfl, List.forall_mem_nil _⟩
  | broken place => cases hread
  | item value rest =>
    obtain ⟨first, hfirst, hread⟩ := bind_eq_ok.mp hread
    obtain ⟨others, hothers, -⟩ := bind_eq_ok.mp hread
    obtain ⟨j, rfl, hdepth⟩ := h _ _ _ hfirst
    obtain ⟨values, rfl, hvalues⟩ := eq_toItems_of_list h hothers
    exact ⟨j :: values, rfl, List.forall_mem_cons.mpr ⟨hdepth, hvalues⟩⟩

theorem Exact.list {read : Nat → Draft → Except Failure α} (h : Exact read) :
    Exact fun room d => d.list read room := by
  intro room d results hread
  cases d with
  | array items =>
    obtain ⟨inner, rfl, hread⟩ := enter_eq_ok.mp hread
    obtain ⟨values, rfl, hvalues⟩ := eq_toItems_of_list h hread
    exact ⟨.array values, rfl, Json.depth_array.mpr hvalues⟩
  | _ => first | cases hread | exact (unexpected_ne_ok hread).elim

theorem eq_toMembers_of_entries {read : Nat → Draft → Except Failure α} (h : Exact read)
    {room : Nat} {members : Members} {results : List (String × α)}
    (hread : members.entries (read room) = .ok results) :
    ∃ fields, members = toMembers fields ∧ ∀ field ∈ fields, field.2.depth ≤ room := by
  cases members with
  | close => exact ⟨[], rfl, List.forall_mem_nil _⟩
  | broken place => cases hread
  | keyless place => cases hread
  | member key value rest =>
    obtain ⟨key, hkey, hread⟩ := bind_eq_ok.mp hread
    obtain ⟨first, hfirst, hread⟩ := bind_eq_ok.mp hread
    obtain ⟨others, hothers, -⟩ := bind_eq_ok.mp hread
    obtain rfl := whole_eq_ok.mp hkey
    obtain ⟨j, rfl, hdepth⟩ := h _ _ _ hfirst
    obtain ⟨fields, rfl, hfields⟩ := eq_toMembers_of_entries h hothers
    exact ⟨(key, j) :: fields, rfl, List.forall_mem_cons.mpr ⟨hdepth, hfields⟩⟩

theorem Exact.entries {read : Nat → Draft → Except Failure α} (h : Exact read) :
    Exact fun room d => d.entries read room := by
  intro room d results hread
  cases d with
  | object members =>
    obtain ⟨inner, rfl, hread⟩ := enter_eq_ok.mp hread
    obtain ⟨fields, rfl, hfields⟩ := eq_toMembers_of_entries h hread
    exact ⟨.object fields, rfl, Json.depth_object.mpr hfields⟩
  | _ => first | cases hread | exact (unexpected_ne_ok hread).elim

theorem Exact.optional {read : Nat → Draft → Except Failure α} (h : Exact read) :
    Exact fun room d => d.optional (read room) := by
  intro room d result hread
  cases d with
  | null => exact ⟨.null, rfl, Nat.zero_le _⟩
  | _ =>
    obtain ⟨a, ha, -⟩ := bind_eq_ok.mp hread
    exact h _ _ _ ha

theorem eq_string_of_text {d : Draft} {s : String} (h : d.text = .ok s) :
    d = (Json.string s).toDraft := by
  cases d with
  | string value =>
    obtain rfl := whole_eq_ok.mp h
    rfl
  | _ => first | cases h | exact (unexpected_ne_ok h).elim

theorem exact_name (named? : String → Option α) : Exact fun room d => d.name named? room := by
  intro room d result hread
  cases d with
  | string s =>
    obtain ⟨s, hs, -⟩ := bind_eq_ok.mp hread
    obtain rfl := whole_eq_ok.mp hs
    exact ⟨.string s, rfl, Nat.zero_le _⟩
  | object members =>
    obtain ⟨inner, rfl, hread⟩ := enter_eq_ok.mp hread
    cases members with
    | member key value rest =>
      obtain ⟨key, hkey, hnamed⟩ := bind_eq_ok.mp hread
      obtain rfl := whole_eq_ok.mp hkey
      obtain ⟨name, -, hvalue⟩ := bind_eq_ok.mp hnamed
      cases value with
      | null =>
        cases rest with
        | close =>
          exact ⟨.object [(key, .null)], rfl, Json.depth_object.mpr
            (List.forall_mem_singleton.mpr (Nat.zero_le _))⟩
        | _ => cases hvalue
      | _ => exact (unexpected_ne_ok hvalue).elim
    | _ => cases hread
  | _ => cases hread

theorem eq_toMembers_of_tagged {isTag : String → Bool} {room : Nat} {members : Members}
    {tag : Option String} {result : String × List (String × Json)}
    (hread : members.tagged isTag room tag = .ok result) :
    ∃ fields, members = toMembers fields ∧ ∀ field ∈ fields, field.2.depth ≤ room := by
  cases members with
  | close => exact ⟨[], rfl, List.forall_mem_nil _⟩
  | broken place => cases tag <;> cases hread
  | keyless place => cases tag <;> cases hread
  | member key value rest =>
    have hread : (do
        let key ← whole key
        if key = "type" then
          if tag.isSome then mismatch
          else
            let name ← value.text
            if isTag name then rest.tagged isTag room (some name) else mismatch
        else
          let value ← value.value room
          let others ← rest.tagged isTag room tag
          .ok (others.1, (key, value) :: others.2)) = .ok result := by
      cases tag <;> exact hread
    obtain ⟨key, hkey, hmember⟩ := bind_eq_ok.mp hread
    obtain rfl := whole_eq_ok.mp hkey
    by_cases htype : key = "type"
    · rw [if_pos htype] at hmember
      split at hmember
      · cases hmember
      obtain ⟨name, hname, hrest⟩ := bind_eq_ok.mp hmember
      split at hrest
      · obtain rfl := eq_string_of_text hname
        obtain ⟨fields, rfl, hfields⟩ := eq_toMembers_of_tagged hrest
        exact ⟨(key, .string name) :: fields, rfl,
          List.forall_mem_cons.mpr ⟨Nat.zero_le _, hfields⟩⟩
      · cases hrest
    · rw [if_neg htype] at hmember
      obtain ⟨j, hj, hrest⟩ := bind_eq_ok.mp hmember
      obtain ⟨others, hothers, -⟩ := bind_eq_ok.mp hrest
      obtain ⟨rfl, hdepth⟩ := eq_toDraft_of_value hj
      obtain ⟨fields, rfl, hfields⟩ := eq_toMembers_of_tagged hothers
      exact ⟨(key, j) :: fields, rfl, List.forall_mem_cons.mpr ⟨hdepth, hfields⟩⟩

theorem exact_tagged (isTag : String → Bool) : Exact fun room d => d.tagged isTag room := by
  intro room d result hread
  cases d with
  | object members =>
    obtain ⟨inner, rfl, hread⟩ := enter_eq_ok.mp hread
    obtain ⟨tagged, htagged, -⟩ := bind_eq_ok.mp hread
    obtain ⟨fields, rfl, hfields⟩ := eq_toMembers_of_tagged htagged
    exact ⟨.object fields, rfl, Json.depth_object.mpr hfields⟩
  | array items =>
    obtain ⟨inner, rfl, hread⟩ := enter_eq_ok.mp hread
    cases items with
    | item first rest =>
      obtain ⟨name, hname, hrest⟩ := bind_eq_ok.mp hread
      obtain rfl := eq_string_of_text hname
      split at hrest
      · obtain ⟨values, hvalues, -⟩ := bind_eq_ok.mp hrest
        obtain ⟨rfl, hdepth⟩ := eq_toItems_of_values hvalues
        exact ⟨.array (.string name :: values), rfl, Json.depth_array.mpr
          (List.forall_mem_cons.mpr ⟨Nat.zero_le _, hdepth⟩)⟩
      · cases hrest
    | _ => cases hread
  | _ => first | cases hread | exact (unexpected_ne_ok hread).elim

theorem toDraft_injective {j k : Json} (h : j.toDraft = k.toDraft) : j = k := by
  have hj := value_toDraft (le_max_left j.depth k.depth)
  have hk := value_toDraft (le_max_right j.depth k.depth)
  rw [h, hk] at hj
  exact (Except.ok.inj hj).symm

theorem Exact.depth {read : Nat → Draft → Except Failure α} (h : Exact read) {room : Nat}
    {j : Json} {a : α} (hread : read room j.toDraft = .ok a) : j.depth ≤ room := by
  obtain ⟨k, hk, hdepth⟩ := h _ _ _ hread
  rwa [toDraft_injective hk]

end Exact

/-! ## Records -/

section Records

variable {σ : Type}

/-- Reading goes on alike if a draft is replaced by some value that fits. -/
def Sifts {α : Type} (read : Nat → Draft → Except Failure α) : Prop :=
  ∀ (room : Nat) (d : Draft) (a : α), d.InRange → read room d = .ok a →
    ∃ j : Json, j.Fits room ∧ read room j.toDraft = .ok a

theorem Exact.sifts {α : Type} {read : Nat → Draft → Except Failure α} (h : Exact read) :
    Sifts read := by
  intro room d a hrange hread
  obtain ⟨j, rfl, hdepth⟩ := h _ _ _ hread
  exact ⟨j, ⟨hdepth, Json.inRange_of_toDraft hrange⟩, hread⟩

theorem Sifts.bind {α β : Type} {read : Nat → Draft → Except Failure α} (h : Sifts read)
    (next : α → Except Failure β) : Sifts fun room d => read room d >>= next := by
  intro room d b hrange hread
  obtain ⟨a, ha, hnext⟩ := bind_eq_ok.mp hread
  obtain ⟨j, hfits, hj⟩ := h _ _ _ hrange ha
  exact ⟨j, hfits, bind_eq_ok.mpr ⟨a, hj, hnext⟩⟩

variable {add : σ → String → Draft → Except Failure σ} {room : Nat}

/-- Keys that are passed over can be left out. -/
theorem fold_sifts (hadd : ∀ {state key d next}, d.InRange → add state key d = .ok next →
      ∃ j : Json, j.Fits room ∧ add state key j.toDraft = .ok next)
    {names seen : List String} {members : Members} (hrange : members.InRange) {state last : σ}
    (hread : members.fold add names seen state = .ok last) :
    ∃ fields : List (String × Json), (∀ field ∈ fields, field.2.Fits room)
      ∧ (toMembers fields).fold add names seen state = .ok last := by
  cases members with
  | close => exact ⟨[], List.forall_mem_nil _, hread⟩
  | broken place => cases hread
  | keyless place => cases hread
  | member key value rest =>
    obtain ⟨key, hkey, hmember⟩ := bind_eq_ok.mp hread
    obtain rfl := whole_eq_ok.mp hkey
    by_cases hname : key ∈ names
    · rw [if_pos hname] at hmember
      split at hmember
      · cases hmember
      rename_i hseen
      obtain ⟨next, hnext, hrest⟩ := bind_eq_ok.mp hmember
      obtain ⟨j, hfits, hj⟩ := hadd hrange.1 hnext
      obtain ⟨fields, hfields, hfold⟩ := fold_sifts hadd hrange.2 hrest
      refine ⟨(key, j) :: fields, List.forall_mem_cons.mpr ⟨hfits, hfields⟩, ?_⟩
      rw [toMembers, fold_known hname hseen, hj]
      exact hfold
    · -- What is passed over needs no field, however broken it is.
      rw [if_neg hname] at hmember
      obtain ⟨_, -, hrest⟩ := bind_eq_ok.mp hmember
      exact fold_sifts hadd hrange.2 hrest

theorem items_fold_sifts (hadd : ∀ {state key d next}, d.InRange → add state key d = .ok next →
      ∃ j : Json, j.Fits room ∧ add state key j.toDraft = .ok next)
    {names : List String} {items : Items} (hrange : items.InRange) {state last : σ}
    (hread : items.fold add names state = .ok last) :
    ∃ values : List Json, (∀ value ∈ values, value.Fits room)
      ∧ (toItems values).fold add names state = .ok last := by
  cases items with
  | close => exact ⟨[], List.forall_mem_nil _, hread⟩
  | broken place => cases names <;> cases hread
  | item value rest =>
    cases names with
    | nil => cases hread
    | cons name names =>
      obtain ⟨next, hnext, hread⟩ := bind_eq_ok.mp hread
      obtain ⟨j, hfits, hj⟩ := hadd hrange.1 hnext
      obtain ⟨values, hvalues, hfold⟩ := items_fold_sifts hadd hrange.2 hread
      refine ⟨j :: values, List.forall_mem_cons.mpr ⟨hfits, hvalues⟩, ?_⟩
      rw [toItems, Items.fold, hj]
      exact hfold

theorem sifts_record {names : List String} {add : Nat → σ → String → Draft → Except Failure σ}
    (hadd : ∀ state key, Sifts fun room d => add room state key d) (start : σ) :
    Sifts fun room d => d.record names add start room := by
  intro room d last hrange hread
  cases d with
  | object members =>
    obtain ⟨inner, rfl, hread⟩ := enter_eq_ok.mp hread
    obtain ⟨fields, hfields, hfold⟩ :=
      fold_sifts (fun hd hnext => hadd _ _ _ _ _ hd hnext) hrange hread
    exact ⟨.object fields, Json.fits_object.mpr hfields, hfold⟩
  | array items =>
    obtain ⟨inner, rfl, hread⟩ := enter_eq_ok.mp hread
    obtain ⟨values, hvalues, hfold⟩ :=
      items_fold_sifts (fun hd hnext => hadd _ _ _ _ _ hd hnext) hrange hread
    exact ⟨.array values, Json.fits_array.mpr hvalues, hfold⟩
  | _ => first | cases hread | exact (unexpected_ne_ok hread).elim

private theorem depth_of_fold {names seen : List String} {fields : List (String × Json)}
    (hkeys : ∀ field ∈ fields, field.1 ∈ names)
    (hadd : ∀ field ∈ fields, ∀ state next, add state field.1 field.2.toDraft = .ok next →
      field.2.depth ≤ room) {state last : σ}
    (hread : (toMembers fields).fold add names seen state = .ok last) :
    ∀ field ∈ fields, field.2.depth ≤ room := by
  induction fields generalizing seen state with
  | nil => exact List.forall_mem_nil _
  | cons field fields ih =>
    obtain ⟨hkey, hkeys⟩ := List.forall_mem_cons.mp hkeys
    obtain ⟨hfield, hfields⟩ := List.forall_mem_cons.mp hadd
    rw [toMembers] at hread
    by_cases hseen : field.1 ∈ seen
    · rw [fold_seen hkey hseen] at hread
      cases hread
    · rw [fold_known hkey hseen] at hread
      obtain ⟨next, hnext, hrest⟩ := bind_eq_ok.mp hread
      exact List.forall_mem_cons.mpr ⟨hfield state next hnext, ih hkeys hfields hrest⟩

theorem depth_of_record {names : List String} {add : Nat → σ → String → Draft → Except Failure σ}
    {fields : List (String × Json)} (hkeys : ∀ field ∈ fields, field.1 ∈ names)
    (hadd : ∀ room, ∀ field ∈ fields, ∀ state next,
      add room state field.1 field.2.toDraft = .ok next → field.2.depth ≤ room)
    {start last : σ} {room : Nat}
    (hread : (Json.object fields).toDraft.record names add start room = .ok last) :
    (Json.object fields).depth ≤ room := by
  obtain ⟨inner, rfl, hfold⟩ := enter_eq_ok.mp hread
  exact Json.depth_object.mpr (depth_of_fold hkeys (hadd inner) hfold)

end Records

end Draft

end ScreenDoc
