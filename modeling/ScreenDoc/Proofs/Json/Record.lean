import ScreenDoc.Json.Record
import ScreenDoc.Proofs.Json.Canonical

/-!
# Records

A record takes the fields that it knows and refuses one that occurs twice. What is written with
some of a record's fields in their order is a record with just these fields, so a field that was
left out is absent again and a field that was written is found again.
-/

namespace ScreenDoc

namespace Json

/-- The fields of an object that a record with these names knows. -/
def known (names : List String) (fields : List (String × Json)) : KeyMap Json :=
  fields.filter fun field => names.contains field.1

theorem record?_object (names : List String) (fields : List (String × Json)) :
    (object fields).record? names
      = if (known names fields).keys.Nodup then some (known names fields) else none := by
  simp only [record?]
  change (if KeyMap.repeats (known names fields) = true then none
    else some (known names fields)) = _
  by_cases hnodup : (known names fields).keys.Nodup
  · rw [if_pos hnodup, KeyMap.repeats_eq_false_iff.mpr hnodup]
    rfl
  · rw [if_neg hnodup, if_pos]
    rw [← Bool.not_eq_false, KeyMap.repeats_eq_false_iff]
    exact hnodup

theorem record?_of_nodup {names : List String} {fields : List (String × Json)}
    (h : (KeyMap.keys fields).Nodup) :
    (object fields).record? names = some (known names fields) := by
  have hknown : (known names fields).keys.Nodup := h.sublist (List.filter_sublist.map Prod.fst)
  rw [record?_object, if_pos hknown]

theorem get?_known {names : List String} {fields : List (String × Json)} {key : String}
    (h : names.contains key = true) :
    KeyMap.get? (known names fields) key = KeyMap.get? fields key := by
  rw [known, KeyMap.get?_filter names.contains, if_pos h]

theorem get?_of_get?_known {names : List String} {fields : List (String × Json)} {key : String}
    {value : Json} (h : (known names fields).get? key = some value) :
    KeyMap.get? fields key = some value := by
  rw [known, KeyMap.get?_filter names.contains] at h
  split at h
  · exact h
  · cases h

theorem get?_of_record?_object {names : List String} {all : List (String × Json)}
    {fields : KeyMap Json} {key : String} {value : Json}
    (hrecord : (object all).record? names = some fields) (h : fields.get? key = some value) :
    KeyMap.get? all key = some value := by
  rw [record?_object] at hrecord
  split at hrecord
  · cases hrecord
    exact get?_of_get?_known h
  · cases hrecord

theorem record?_of_sublist {names : List String} {fields : List (String × Json)}
    (h : (KeyMap.keys fields).Sublist names) (hnames : names.Nodup) :
    (object fields).record? names = some fields := by
  have hknown : known names fields = fields := by
    refine List.filter_eq_self.mpr fun field hfield => ?_
    exact List.contains_iff_mem.mpr (h.subset (List.mem_map_of_mem hfield))
  rw [record?_of_nodup (hnames.sublist h), hknown]

private theorem keys_zip_sublist (names : List String) (items : List Json) :
    (KeyMap.keys (names.zip items)).Sublist names := by
  induction names generalizing items with
  | nil => simp
  | cons name names ih =>
    cases items with
    | nil => simp
    | cons item items => exact (ih items).cons_cons name

theorem keys_of_record? {names : List String} {j : Json} {fields : KeyMap Json}
    (hnames : names.Nodup) (h : j.record? names = some fields) :
    fields.keys.Nodup ∧ ∀ key ∈ fields.keys, key ∈ names := by
  cases j with
  | object all =>
    rw [record?_object] at h
    split at h
    · rename_i hnodup
      cases h
      refine ⟨hnodup, fun key hkey => ?_⟩
      obtain ⟨value, hvalue⟩ := KeyMap.mem_keys.mp hkey
      exact List.contains_iff_mem.mp (List.mem_filter.mp hvalue).2
    · cases h
  | array items =>
    simp only [record?] at h
    split at h
    · cases h
      have hsublist := keys_zip_sublist names items
      exact ⟨hnames.sublist hsublist, fun key hkey => hsublist.subset hkey⟩
    · cases h
  | _ => cases h

/-- What stands for the tag of a tagged object, and everything else in it. -/
def tagAndRest? : Json → Option (Json × Json)
  | object fields =>
    match fields.filter fun field => field.1 == "type" with
    | [(_, value)] => some (value, object (fields.filter fun field => field.1 != "type"))
    | _ => none
  | array (first :: rest) => some (first, array rest)
  | _ => none

private theorem tagged?_eq (tags : List String) (buffered : Bool) (j : Json) :
    j.tagged? tags buffered = j.tagAndRest?.bind fun parts =>
      (parts.1.tag? tags buffered).map fun tag => (tag, parts.2) := by
  have htag (value rest : Json) : (do
      let tag ← value.tag? tags buffered
      some (tag, rest)) = (value.tag? tags buffered).map fun tag => (tag, rest) := by
    cases value.tag? tags buffered <;> rfl
  cases j with
  | object fields =>
    rw [tagged?, tagAndRest?]
    generalize (fields.filter fun field => field.1 == "type") = tagged
    rcases tagged with _ | ⟨field, _ | ⟨other, more⟩⟩
    · rfl
    · exact htag field.2 (object (fields.filter fun field => field.1 != "type"))
    · rfl
  | array items =>
    cases items with
    | nil => rfl
    | cons first rest => exact htag first (array rest)
  | _ => rfl

theorem tagged?_mono {tags : List String} {b c : Bool} {j : Json} {tagged : String × Json}
    (htag : ∀ value rest tag, j.tagAndRest? = some (value, rest) →
      value.tag? tags b = some tag → value.tag? tags c = some tag)
    (h : j.tagged? tags b = some tagged) : j.tagged? tags c = some tagged := by
  rw [tagged?_eq] at h ⊢
  obtain ⟨⟨value, rest⟩, hparts, h⟩ := Option.bind_eq_some_iff.mp h
  obtain ⟨tag, hvalue, rfl⟩ := Option.map_eq_some_iff.mp h
  rw [hparts, Option.bind_some, htag value rest tag hparts hvalue, Option.map_some]

theorem content_of_tagged?_object {tags : List String} {buffered : Bool}
    {all : List (String × Json)} {tag : String} {content : Json}
    (h : (object all).tagged? tags buffered = some (tag, content)) :
    content = object (all.filter fun field => field.1 != "type") := by
  unfold tagged? at h
  dsimp only at h
  split at h
  · obtain ⟨_, -, heq⟩ := Option.bind_eq_some_iff.mp h
    cases heq
    rfl
  · cases h

/-- What may also be absent as `null`. -/
def nullable? {α : Type} (read : Json → Option α) : Json → Option (Option α)
  | null => some none
  | j => (read j).map some

end Json

namespace KeyMap

variable {α : Type}

theorem optional_of_none {fields : KeyMap Json} {key : String} (h : fields.get? key = none)
    (read : Json → Option α) : fields.optional key read = some none := by
  rw [optional, h]

theorem optional_of_null {fields : KeyMap Json} {key : String} (h : fields.get? key = some .null)
    (read : Json → Option α) : fields.optional key read = some none := by
  rw [optional, h]

theorem optional_of_get? {fields : KeyMap Json} {key : String} {value : Json}
    (h : fields.get? key = some value) (hnull : value ≠ .null) (read : Json → Option α) :
    fields.optional key read = (read value).map some := by
  rw [optional, h]
  cases value <;> trivial

theorem optional_eq_defaulted (fields : KeyMap Json) (key : String) (read : Json → Option α) :
    fields.optional key read = fields.defaulted key none (Json.nullable? read) := by
  unfold optional defaulted
  cases fields.get? key with
  | none => rfl
  | some value => cases value <;> rfl

theorem required_eq_defaulted (fields : KeyMap Json) (key : String) (read : Json → Option α) :
    fields.required key read
      = (fields.defaulted key none fun value => (read value).map some).bind id := by
  unfold required defaulted
  cases fields.get? key with
  | none => rfl
  | some value =>
    change read value = ((read value).map some).bind id
    cases read value <;> rfl

theorem exists_of_required {fields : KeyMap Json} {key : String} {read : Json → Option α} {a : α}
    (h : fields.required key read = some a) :
    ∃ value, (key, value) ∈ fields ∧ read value = some a := by
  obtain ⟨value, hvalue, hread⟩ := Option.bind_eq_some_iff.mp h
  exact ⟨value, mem_of_get? hvalue, hread⟩

theorem exists_of_defaulted {fields : KeyMap Json} {key : String} {absent : α}
    {read : Json → Option α} {a : α} (h : fields.defaulted key absent read = some a) :
    a = absent ∨ ∃ value, (key, value) ∈ fields ∧ read value = some a := by
  unfold defaulted at h
  split at h
  · cases h
    exact .inl rfl
  · rename_i value hvalue
    exact .inr ⟨value, mem_of_get? hvalue, h⟩

theorem defaulted_cons (k : String) (v : Json) (fields : KeyMap Json) (key : String) (absent : α)
    (read : Json → Option α) :
    defaulted ((k, v) :: fields) key absent read
      = if key = k then read v else defaulted fields key absent read := by
  unfold defaulted
  rw [get?_cons]
  by_cases h : key = k <;> simp [h]

theorem defaulted_of_not_mem {fields : KeyMap Json} {key : String} (h : key ∉ fields.keys)
    (absent : α) (read : Json → Option α) : fields.defaulted key absent read = some absent := by
  rw [defaulted, get?_eq_none_iff.mpr h]

/-! ## Reading fields one after another -/

theorem foldlM_slot {σ : Type} {g : α → σ} {f : σ → String × Json → Option σ} {k : String}
    {r : Json → Option α} (hf : ∀ a v, f (g a) (k, v) = (r v).map g)
    {fields : KeyMap Json} (hnodup : fields.keys.Nodup) (hkeys : ∀ key ∈ fields.keys, key = k)
    (a : α) : fields.foldlM f (g a) = (fields.defaulted k a r).map g := by
  match fields with
  | [] => rfl
  | [(key, v)] =>
    obtain rfl : key = k := hkeys key (by simp)
    rw [defaulted_cons, if_pos rfl, List.foldlM_cons, hf]
    cases r v <;> rfl
  | (key, v) :: (other, w) :: fields =>
    have hkey : key = k := hkeys key (by simp)
    have hother : other = k := hkeys other (by simp)
    simp [hkey, hother] at hnodup

theorem foldlM_slots {β γ σ : Type} {g : α → β → γ → σ} {f : σ → String × Json → Option σ}
    {k l m : String} (hdistinct : [k, l, m].Nodup) {r : Json → Option α} {s : Json → Option β}
    {t : Json → Option γ} (hk : ∀ a b c v, f (g a b c) (k, v) = (r v).map (g · b c))
    (hl : ∀ a b c v, f (g a b c) (l, v) = (s v).map (g a · c))
    (hm : ∀ a b c v, f (g a b c) (m, v) = (t v).map (g a b ·))
    {fields : KeyMap Json} (hnodup : fields.keys.Nodup)
    (hkeys : ∀ key ∈ fields.keys, key ∈ [k, l, m]) (a : α) (b : β) (c : γ) :
    fields.foldlM f (g a b c)
      = (fields.defaulted k a r).bind fun a => (fields.defaulted l b s).bind fun b =>
          (fields.defaulted m c t).map (g a b) := by
  induction fields generalizing a b c with
  | nil => rfl
  | cons field fields ih =>
    obtain ⟨key, v⟩ := field
    obtain ⟨hkey, hnodup⟩ := List.nodup_cons.mp hnodup
    obtain ⟨hmem, hkeys⟩ := List.forall_mem_cons.mp hkeys
    have hrest := ih hnodup hkeys
    simp only [List.nodup_cons, List.mem_cons, List.not_mem_nil, or_false, not_or] at hdistinct
    obtain ⟨⟨hkl, hkm⟩, hlm, -⟩ := hdistinct
    rw [List.foldlM_cons, defaulted_cons, defaulted_cons, defaulted_cons]
    simp only [List.mem_cons, List.not_mem_nil, or_false] at hmem
    rcases hmem with rfl | rfl | rfl
    · rw [hk, if_pos rfl, if_neg (Ne.symm hkl), if_neg (Ne.symm hkm)]
      cases r v with
      | none => rfl
      | some a => simp [hrest, defaulted_of_not_mem hkey]
    · rw [hl, if_neg hkl, if_pos rfl, if_neg (Ne.symm hlm)]
      cases s v with
      | none => simp
      | some b => simp [hrest, defaulted_of_not_mem hkey]
    · rw [hm, if_neg hkm, if_neg hlm, if_pos rfl]
      cases t v with
      | none => simp
      | some c => simp [hrest, defaulted_of_not_mem hkey]

end KeyMap

end ScreenDoc
