import ScreenDoc.Json.Draft
import ScreenDoc.Proofs.Except
import ScreenDoc.Proofs.Json.Record

/-!
# Readers on whole values

A reader of drafts that walks a whole value accepts what the matching function on values accepts
and gives the same result, as long as the value does not nest deeper than the reader has room for.
The kind of failure is forgotten on both sides.
-/

namespace ScreenDoc

namespace Json

mutual

def toDraft : Json → Draft
  | null => .null
  | bool b => .bool b
  | number n => .number (some n)
  | string s => .string (some s)
  | array items => .array (toItems items)
  | object fields => .object (toMembers fields)

def toItems : List Json → Items
  | [] => .close
  | item :: items => .item (toDraft item) (toItems items)

def toMembers : List (String × Json) → Members
  | [] => .close
  | (key, value) :: fields => .member (some key) (toDraft value) (toMembers fields)

end

end Json

namespace Draft

open Json (toDraft toItems toMembers)

@[simp] theorem toOption_fail {α : Type} (place : Break) :
    (fail place : Except Failure α).toOption = none := rfl

@[simp] theorem toOption_malformed {α : Type} :
    (malformed : Except Failure α).toOption = none := rfl

@[simp] theorem toOption_mismatch {α : Type} :
    (mismatch : Except Failure α).toOption = none := rfl

@[simp] theorem toOption_unexpected {α : Type} (d : Draft) :
    (d.unexpected : Except Failure α).toOption = none := by
  unfold unexpected
  split <;> rfl

theorem whole_eq_ok {α : Type} {o : Option α} {a : α} : whole o = .ok a ↔ o = some a := by
  cases o <;> simp [whole, malformed]

theorem depth_items {items : List Json} {room : Nat} (h : (Json.array items).depth ≤ room) :
    ∃ inner, room = inner + 1 ∧ ∀ item ∈ items, item.depth ≤ inner := by
  have hpos := Json.depth_array_pos items
  obtain ⟨inner, rfl⟩ : ∃ inner, room = inner + 1 := ⟨room - 1, by omega⟩
  exact ⟨inner, rfl, Json.depth_array.mp h⟩

theorem depth_fields {fields : List (String × Json)} {room : Nat}
    (h : (Json.object fields).depth ≤ room) :
    ∃ inner, room = inner + 1 ∧ ∀ field ∈ fields, field.2.depth ≤ inner := by
  have hpos := Json.depth_object_pos fields
  obtain ⟨inner, rfl⟩ : ∃ inner, room = inner + 1 := ⟨room - 1, by omega⟩
  exact ⟨inner, rfl, Json.depth_object.mp h⟩

/-! ## Values as they stand -/

theorem values_toItems {items : List Json} {room : Nat}
    (h : ∀ item ∈ items, item.toDraft.value room = .ok item) :
    (toItems items).values room = .ok items := by
  induction items with
  | nil => rfl
  | cons item items ih =>
    obtain ⟨hitem, hitems⟩ := List.forall_mem_cons.mp h
    rw [toItems, Items.values, hitem, ih hitems]
    rfl

private theorem values_toMembers {fields : List (String × Json)} {room : Nat}
    (h : ∀ field ∈ fields, field.2.toDraft.value room = .ok field.2) :
    (toMembers fields).values room = .ok fields := by
  induction fields with
  | nil => rfl
  | cons field fields ih =>
    obtain ⟨hfield, hfields⟩ := List.forall_mem_cons.mp h
    rw [toMembers, Members.values, hfield, ih hfields]
    rfl

theorem value_toDraft {j : Json} {room : Nat} (h : j.depth ≤ room) :
    j.toDraft.value room = .ok j := by
  induction j using Json.induction generalizing room with
  | null => rfl
  | bool b => rfl
  | number n => rfl
  | string s => rfl
  | array items ih =>
    obtain ⟨room, rfl, hitems⟩ := depth_items h
    rw [toDraft, Draft.value, enter, values_toItems fun item hitem =>
      ih item hitem (hitems item hitem)]
    rfl
  | object fields ih =>
    obtain ⟨room, rfl, hfields⟩ := depth_fields h
    rw [toDraft, Draft.value, enter, values_toMembers fun field hfield =>
      ih field hfield (hfields field hfield)]
    rfl

private theorem skip_toItems {items : List Json} (h : ∀ item ∈ items, item.toDraft.skip = .ok ()) :
    (toItems items).skip = .ok () := by
  induction items with
  | nil => rfl
  | cons item items ih =>
    obtain ⟨hitem, hitems⟩ := List.forall_mem_cons.mp h
    rw [toItems, Items.skip, hitem]
    exact ih hitems

private theorem skip_toMembers {fields : List (String × Json)}
    (h : ∀ field ∈ fields, field.2.toDraft.skip = .ok ()) :
    (toMembers fields).skip = .ok () := by
  induction fields with
  | nil => rfl
  | cons field fields ih =>
    obtain ⟨hfield, hfields⟩ := List.forall_mem_cons.mp h
    rw [toMembers, Members.skip, hfield]
    exact ih hfields

private theorem skip_toDraft (j : Json) : j.toDraft.skip = .ok () := by
  induction j using Json.induction with
  | null => rfl
  | bool b => rfl
  | number n => rfl
  | string s => rfl
  | array items ih => rw [toDraft, Draft.skip, skip_toItems ih]
  | object fields ih => rw [toDraft, Draft.skip, skip_toMembers ih]

mutual

/-- Whatever is read as a value is the whole of it: nothing in it is marked or broken off. -/
theorem eq_toDraft_of_value {d : Draft} {room : Nat} {j : Json} (h : d.value room = .ok j) :
    d = j.toDraft ∧ j.depth ≤ room :=
  match d with
  | .null => by
    cases h
    exact ⟨rfl, Nat.zero_le room⟩
  | .bool b => by
    cases h
    exact ⟨rfl, Nat.zero_le room⟩
  | .number n => by
    cases n <;> cases h
    exact ⟨rfl, Nat.zero_le room⟩
  | .string s => by
    cases s <;> cases h
    exact ⟨rfl, Nat.zero_le room⟩
  | .broken place => by cases h
  | .array items => by
    cases room with
    | zero => cases h
    | succ room =>
      obtain ⟨values, hvalues, heq⟩ := bind_eq_ok.mp h
      cases heq
      obtain ⟨rfl, hdepth⟩ := eq_toItems_of_values hvalues
      exact ⟨rfl, Json.depth_array.mpr hdepth⟩
  | .object members => by
    cases room with
    | zero => cases h
    | succ room =>
      obtain ⟨fields, hfields, heq⟩ := bind_eq_ok.mp h
      cases heq
      obtain ⟨rfl, hdepth⟩ := eq_toMembers_of_values hfields
      exact ⟨rfl, Json.depth_object.mpr hdepth⟩

theorem eq_toItems_of_values {items : Items} {room : Nat} {values : List Json}
    (h : items.values room = .ok values) :
    items = toItems values ∧ ∀ value ∈ values, value.depth ≤ room :=
  match items with
  | .close => by
    cases h
    exact ⟨rfl, List.forall_mem_nil _⟩
  | .broken place => by cases h
  | .item value rest => by
    obtain ⟨first, hfirst, h⟩ := bind_eq_ok.mp h
    obtain ⟨others, hothers, heq⟩ := bind_eq_ok.mp h
    cases heq
    obtain ⟨rfl, hdepth⟩ := eq_toDraft_of_value hfirst
    obtain ⟨rfl, hrest⟩ := eq_toItems_of_values hothers
    exact ⟨rfl, List.forall_mem_cons.mpr ⟨hdepth, hrest⟩⟩

theorem eq_toMembers_of_values {members : Members} {room : Nat} {fields : List (String × Json)}
    (h : members.values room = .ok fields) :
    members = toMembers fields ∧ ∀ field ∈ fields, field.2.depth ≤ room :=
  match members with
  | .close => by
    cases h
    exact ⟨rfl, List.forall_mem_nil _⟩
  | .broken place => by cases h
  | .keyless place => by cases h
  | .member key value rest => by
    obtain ⟨key, hkey, h⟩ := bind_eq_ok.mp h
    obtain ⟨first, hfirst, h⟩ := bind_eq_ok.mp h
    obtain ⟨others, hothers, heq⟩ := bind_eq_ok.mp h
    cases heq
    obtain rfl := whole_eq_ok.mp hkey
    obtain ⟨rfl, hdepth⟩ := eq_toDraft_of_value hfirst
    obtain ⟨rfl, hrest⟩ := eq_toMembers_of_values hothers
    exact ⟨rfl, List.forall_mem_cons.mpr ⟨hdepth, hrest⟩⟩

end

/-! ## Scalars, names and tags -/

theorem optional_toDraft {α : Type} {read : Draft → Except Failure α} {f : Json → Option α}
    {j : Json} (h : (read j.toDraft).toOption = f j) :
    (j.toDraft.optional read).toOption = j.nullable? f := by
  have hbind : (read j.toDraft >>= fun a => .ok (some a)).toOption = (f j).map some := by
    rw [toOption_bind, h]
    cases f j <;> rfl
  cases j with
  | null => rfl
  | _ => exact hbind

theorem pick_toOption {α : Type} (named? : String → Option α) (s : String) :
    (Draft.name.pick named? s).toOption = named? s := by
  rw [Draft.name.pick]
  cases named? s <;> rfl

theorem name_toDraft {α : Type} (named? : String → Option α) {j : Json} {room : Nat}
    (h : j.depth ≤ room) : (j.toDraft.name named? room).toOption = j.name? named? false := by
  cases j with
  | null => rfl
  | bool b => rfl
  | number n => rfl
  | string s => exact pick_toOption named? s
  | array items => rfl
  | object fields =>
    obtain ⟨room, rfl, hfields⟩ := depth_fields h
    match fields with
    | [] => rfl
    | [(key, value)] =>
      cases value with
      | object inner =>
        cases inner <;>
          simp [toDraft, toMembers, Draft.name, enter, whole, pick_toOption, Json.name?]
      | _ => simp [toDraft, toMembers, Draft.name, enter, whole, pick_toOption, Json.name?]
    | (key, value) :: other :: fields =>
      cases value <;>
        simp [toDraft, toMembers, Draft.name, enter, whole, pick_toOption, Json.name?]

theorem tag_toDraft {β : Type} (tags : List String) (j : Json) (next : String → Except Failure β) :
    (do
      let name ← j.toDraft.text
      if tags.contains name then next name else mismatch).toOption
      = (j.tag? tags false).bind fun name => (next name).toOption := by
  cases j with
  | number n => cases n <;> rfl
  | string s =>
    by_cases hs : s ∈ tags
    · simp [toDraft, text, whole, Json.tag?, hs]
    · simp [toDraft, text, whole, Json.tag?, hs]
  | _ => rfl

/-! ## Lists and maps -/

private theorem list_toItems {α : Type} {read : Draft → Except Failure α} {f : Json → Option α}
    {items : List Json} (h : ∀ item ∈ items, (read item.toDraft).toOption = f item) :
    ((toItems items).list read).toOption = items.mapM f := by
  induction items with
  | nil => rfl
  | cons item items ih =>
    obtain ⟨hitem, hitems⟩ := List.forall_mem_cons.mp h
    simp only [toItems, Items.list, toOption_bind, hitem, ih hitems, List.mapM_cons]
    rfl

theorem list_toDraft {α : Type} {read : Nat → Draft → Except Failure α} {f : Json → Option α}
    {j : Json} {room : Nat} (hdepth : j.depth ≤ room)
    (h : ∀ (item : Json) (room : Nat), item.depth ≤ room →
      (read room item.toDraft).toOption = f item) :
    (j.toDraft.list read room).toOption = j.list? f := by
  cases j with
  | array items =>
    obtain ⟨room, rfl, hitems⟩ := depth_items hdepth
    exact list_toItems fun item hitem => h item room (hitems item hitem)
  | _ => rfl

private theorem entries_toMembers {α : Type} {read : Draft → Except Failure α} {f : Json → Option α}
    {fields : List (String × Json)}
    (h : ∀ field ∈ fields, (read field.2.toDraft).toOption = f field.2) :
    ((toMembers fields).entries read).toOption
      = fields.mapM fun field => (f field.2).map fun value => (field.1, value) := by
  induction fields with
  | nil => rfl
  | cons field fields ih =>
    obtain ⟨hfield, hfields⟩ := List.forall_mem_cons.mp h
    simp only [toMembers, Members.entries, whole, toOption_bind, toOption_ok, hfield, ih hfields,
      List.mapM_cons]
    cases f field.2 <;> rfl

theorem entries_toDraft {α : Type} {read : Nat → Draft → Except Failure α} {f : Json → Option α}
    {fields : List (String × Json)} {room : Nat} (hdepth : (Json.object fields).depth ≤ room)
    (h : ∀ (value : Json) (room : Nat), value.depth ≤ room →
      (read room value.toDraft).toOption = f value) :
    ((Json.object fields).toDraft.entries read room).toOption
      = fields.mapM fun field => (f field.2).map fun value => (field.1, value) := by
  obtain ⟨room, rfl, hfields⟩ := depth_fields hdepth
  rw [toDraft, Draft.entries, enter,
    entries_toMembers fun field hfield => h field.2 room (hfields field hfield)]

/-! ## Tagged objects -/

private theorem tagged_of_tag {isTag : String → Bool} {fields : List (String × Json)} {room : Nat}
    (tag : String) (hdepth : ∀ field ∈ fields, field.2.depth ≤ room) :
    ((toMembers fields).tagged isTag room (some tag)).toOption
      = if "type" ∈ KeyMap.keys fields then none else some (tag, fields) := by
  induction fields with
  | nil => rfl
  | cons field fields ih =>
    obtain ⟨key, value⟩ := field
    obtain ⟨hvalue, hfields⟩ := List.forall_mem_cons.mp hdepth
    by_cases hkey : key = "type"
    · simp [toMembers, Members.tagged, whole, hkey]
    · simp only [toMembers, Members.tagged, whole, toOption_bind, toOption_ok, Option.bind_eq_bind,
        Option.bind_some, if_neg hkey, value_toDraft hvalue, ih hfields, KeyMap.keys_cons]
      by_cases hmem : "type" ∈ KeyMap.keys fields
      · simp [hmem]
      · simp [hmem, Ne.symm hkey]

def splitTag (tags : List String) (fields : List (String × Json)) :
    Option (String × List (String × Json)) :=
  match fields.filter fun field => field.1 == "type" with
  | [(_, value)] =>
    (value.tag? tags false).map fun tag => (tag, fields.filter fun field => field.1 != "type")
  | _ => none

private theorem splitTag_cons_type (tags : List String) (value : Json)
    (fields : List (String × Json)) : splitTag tags (("type", value) :: fields)
      = if "type" ∈ KeyMap.keys fields then none
        else (value.tag? tags false).map fun tag => (tag, fields) := by
  have hmem : "type" ∈ KeyMap.keys fields
      ↔ fields.filter (fun field => field.1 == "type") ≠ [] := by
    rw [ne_eq, List.filter_eq_nil_iff]
    simp [KeyMap.mem_keys]
  simp only [splitTag, List.filter_cons, beq_self_eq_true, bne_self_eq_false, if_pos, if_neg,
    Bool.false_eq_true, not_false_eq_true]
  by_cases hnil : fields.filter (fun field => field.1 == "type") = []
  · have hall : fields.filter (fun field => field.1 != "type") = fields := by
      rw [List.filter_eq_nil_iff] at hnil
      exact List.filter_eq_self.mpr fun field hfield => by simpa using hnil field hfield
    rw [if_neg (by rw [hmem, not_not]; exact hnil), hnil, hall]
  · rw [if_pos (hmem.mpr hnil)]
    cases hfilter : fields.filter (fun field => field.1 == "type") with
    | nil => exact absurd hfilter hnil
    | cons field rest => rfl

private theorem splitTag_cons_ne {key : String} (hkey : key ≠ "type") (tags : List String)
    (value : Json) (fields : List (String × Json)) :
    splitTag tags ((key, value) :: fields)
      = (splitTag tags fields).map fun split => (split.1, (key, value) :: split.2) := by
  have hbeq : (key == "type") = false := beq_eq_false_iff_ne.mpr hkey
  have hbne : (key != "type") = true := bne_iff_ne.mpr hkey
  simp only [splitTag, List.filter_cons, hbeq, hbne, if_true, Bool.false_eq_true, if_false]
  split
  · rw [Option.map_map]
    rfl
  · rfl

private theorem tagged_of_none (tags : List String) {fields : List (String × Json)} {room : Nat}
    (hdepth : ∀ field ∈ fields, field.2.depth ≤ room) :
    ((toMembers fields).tagged (tags.contains ·) room none).toOption = splitTag tags fields := by
  induction fields with
  | nil => rfl
  | cons field fields ih =>
    obtain ⟨key, value⟩ := field
    obtain ⟨hvalue, hfields⟩ := List.forall_mem_cons.mp hdepth
    by_cases hkey : key = "type"
    · subst hkey
      have htag := tag_toDraft tags value fun name =>
        (toMembers fields).tagged (tags.contains ·) room (some name)
      rw [splitTag_cons_type]
      refine Eq.trans htag ?_
      simp only [tagged_of_tag _ hfields]
      by_cases hmem : "type" ∈ KeyMap.keys fields
      · simp [hmem]
      · simp only [if_neg hmem]
        cases value.tag? tags false <;> rfl
    · rw [splitTag_cons_ne hkey, ← ih hfields]
      simp only [toMembers, Members.tagged, whole, toOption_bind, toOption_ok, Option.bind_eq_bind,
        Option.bind_some, if_neg hkey, value_toDraft hvalue]
      cases ((toMembers fields).tagged (tags.contains ·) room none).toOption <;> rfl

private theorem tagged?_object (tags : List String) (fields : List (String × Json)) :
    (Json.object fields).tagged? tags false
      = (splitTag tags fields).map fun split => (split.1, .object split.2) := by
  rcases hfilter : fields.filter (fun field => field.1 == "type") with _ | ⟨⟨key, value⟩, _ | _⟩
  · simp [Json.tagged?, splitTag, hfilter]
  · simp only [Json.tagged?, splitTag, hfilter]
    cases value.tag? tags false <;> rfl
  · simp [Json.tagged?, splitTag, hfilter]

theorem tagged_toDraft (tags : List String) {j : Json} {room : Nat} (h : j.depth ≤ room) :
    (j.toDraft.tagged (tags.contains ·) room).toOption = j.tagged? tags false := by
  cases j with
  | null => rfl
  | bool b => rfl
  | number n => rfl
  | string s => rfl
  | object fields =>
    obtain ⟨room, rfl, hfields⟩ := depth_fields h
    rw [tagged?_object, ← tagged_of_none tags hfields]
    simp only [toDraft, Draft.tagged, enter, toOption_bind]
    cases ((toMembers fields).tagged (tags.contains ·) room none).toOption <;> rfl
  | array items =>
    obtain ⟨room, rfl, hitems⟩ := depth_items h
    cases items with
    | nil => rfl
    | cons first items =>
      obtain ⟨-, hrest⟩ := List.forall_mem_cons.mp hitems
      refine (tag_toDraft tags first fun name => do
        .ok (name, Json.array (← (toItems items).values room))).trans ?_
      rw [values_toItems fun item hitem => value_toDraft (hrest item hitem)]
      rfl

/-! ## Records -/

section Records

variable {σ : Type} {add : σ → String → Draft → Except Failure σ} {f : σ → String → Json → Option σ}

theorem fold_seen {names seen : List String} {key : String} (hkey : key ∈ names)
    (hseen : key ∈ seen) (value : Draft) (rest : Members) (state : σ) :
    (Members.member (some key) value rest).fold add names seen state = mismatch := by
  rw [Members.fold, whole]
  exact (if_pos hkey).trans (if_pos hseen)

theorem fold_known {names seen : List String} {key : String} (hkey : key ∈ names)
    (hseen : key ∉ seen) (value : Draft) (rest : Members) (state : σ) :
    (Members.member (some key) value rest).fold add names seen state
      = add state key value >>= fun next => rest.fold add names (key :: seen) next := by
  rw [Members.fold, whole]
  exact (if_pos hkey).trans (if_neg hseen)

private theorem fold_unknown {names seen : List String} {key : String} (hkey : key ∉ names)
    (value : Draft) (rest : Members) (state : σ) :
    (Members.member (some key) value rest).fold add names seen state
      = value.skip >>= fun _ => rest.fold add names seen state := by
  rw [Members.fold, whole]
  exact if_neg hkey

/-- A field that is met twice refuses the record, whatever its values are. -/
theorem fold_toMembers {names : List String} {fields : List (String × Json)}
    (hadd : ∀ state key, ∀ field ∈ fields,
      (add state key field.2.toDraft).toOption = f state key field.2)
    (seen : List String) (state : σ) :
    ((toMembers fields).fold add names seen state).toOption
      = if (Json.known names fields).keys.Nodup ∧ ∀ key ∈ (Json.known names fields).keys, key ∉ seen
        then (Json.known names fields).foldlM (fun state field => f state field.1 field.2) state
        else none := by
  induction fields generalizing seen state with
  | nil => simp [toMembers, Members.fold, Json.known]
  | cons field fields ih =>
    obtain ⟨key, value⟩ := field
    have hvalue := fun state key => hadd state key (_, value) List.mem_cons_self
    have hfields := ih fun state key field hfield =>
      hadd state key field (List.mem_cons_of_mem _ hfield)
    rw [toMembers]
    by_cases hkey : key ∈ names
    · have hknown : Json.known names ((key, value) :: fields)
          = (key, value) :: Json.known names fields := by
        simp [Json.known, hkey]
      rw [hknown]
      by_cases hseen : key ∈ seen
      · rw [fold_seen hkey hseen, if_neg]
        · rfl
        · simp [hseen]
      · rw [fold_known hkey hseen, toOption_bind, hvalue, List.foldlM_cons]
        have hcond : (KeyMap.keys ((key, value) :: Json.known names fields)).Nodup
              ∧ (∀ k ∈ KeyMap.keys ((key, value) :: Json.known names fields), k ∉ seen)
            ↔ (Json.known names fields).keys.Nodup
              ∧ ∀ k ∈ (Json.known names fields).keys, k ∉ key :: seen := by
          simp only [KeyMap.keys_cons, List.nodup_cons, List.mem_cons]
          grind
        simp only [hfields, hcond]
        split
        · rfl
        · cases f state key value <;> rfl
    · have hknown : Json.known names ((key, value) :: fields) = Json.known names fields := by
        simp [Json.known, hkey]
      rw [fold_unknown hkey, skip_toDraft, hknown, ← hfields]
      rfl

private theorem fold_toItems {names : List String} {items : List Json}
    (hadd : ∀ state key, ∀ item ∈ items, (add state key item.toDraft).toOption = f state key item)
    (state : σ) :
    ((toItems items).fold add names state).toOption
      = if items.length ≤ names.length
        then (names.zip items).foldlM (fun state field => f state field.1 field.2) state
        else none := by
  induction items generalizing names state with
  | nil =>
    cases names <;> rfl
  | cons item items ih =>
    have hitem := fun state key => hadd state key item List.mem_cons_self
    have hitems := fun names => @ih names fun state key item hmem =>
      hadd state key item (List.mem_cons_of_mem _ hmem)
    cases names with
    | nil => rfl
    | cons name names =>
      simp only [toItems, Items.fold, toOption_bind, hitem, hitems, List.length_cons,
        Nat.add_le_add_iff_right, List.zip_cons_cons, List.foldlM_cons]
      split
      · rfl
      · cases f state name item <;> rfl

theorem record_toDraft {read : Nat → σ → String → Draft → Except Failure σ} {names : List String}
    {start : σ} {j : Json} {room : Nat} (hdepth : j.depth ≤ room)
    (hread : ∀ (value : Json) (room : Nat), value.depth ≤ room → ∀ state key,
      (read room state key value.toDraft).toOption = f state key value) :
    (j.toDraft.record names read start room).toOption
      = (j.record? names).bind fun fields =>
          fields.foldlM (fun state field => f state field.1 field.2) start := by
  cases j with
  | null => rfl
  | bool b => rfl
  | number n => rfl
  | string s => rfl
  | array items =>
    obtain ⟨room, rfl, hitems⟩ := depth_items hdepth
    have hfold : ((toItems items).fold (read room) names start).toOption = _ :=
      fold_toItems (fun state key item hitem =>
        hread item room (hitems item hitem) state key) start
    rw [toDraft, record, enter, hfold, Json.record?]
    split <;> rfl
  | object fields =>
    obtain ⟨room, rfl, hfields⟩ := depth_fields hdepth
    have hfold : ((toMembers fields).fold (read room) names [] start).toOption = _ :=
      fold_toMembers (fun state key field hfield =>
        hread field.2 room (hfields field hfield) state key) [] start
    rw [toDraft, record, enter, hfold, Json.record?_object]
    by_cases hnodup : (Json.known names fields).keys.Nodup
    · rw [if_pos ⟨hnodup, by simp⟩, if_pos hnodup]
      rfl
    · rw [if_neg fun h => hnodup h.1, if_neg hnodup]
      rfl

end Records

end Draft

end ScreenDoc
