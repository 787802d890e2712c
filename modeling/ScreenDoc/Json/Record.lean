import ScreenDoc.Json.Value

/-!
# Records and tagged objects as JSON values

How the model's types are laid out in JSON. A record is an object with known fields, or an array
that gives them by position. A tagged object carries a tag under `type`; as an array it begins
with the tag. Inside a tagged object everything is a buffered value, where a tag may also be the
number of the tag in its list and a name may also be given an empty object.
-/

namespace ScreenDoc

namespace Json

/-- The known fields of a record; none if one occurs twice, or if the array is too long. -/
def record? (names : List String) : Json → Option (KeyMap Json)
  | object fields =>
    let known := fields.filter fun field => names.contains field.1
    if KeyMap.repeats known then none else some known
  | array items => if items.length ≤ names.length then some (names.zip items) else none
  | _ => none

/-- The tag that a value names. -/
def tag? (tags : List String) (buffered : Bool) : Json → Option String
  | string s => if tags.contains s then some s else none
  | number (.int n) => if buffered && 0 ≤ n then tags[n.toNat]? else none
  | _ => none

/-- The tag of a tagged object and everything else in it. -/
def tagged? (tags : List String) (buffered : Bool) : Json → Option (String × Json)
  | object fields =>
    match fields.filter fun field => field.1 == "type" with
    | [(_, value)] => do
      let tag ← value.tag? tags buffered
      some (tag, object (fields.filter fun field => field.1 != "type"))
    | _ => none
  | array (first :: rest) => do some (← first.tag? tags buffered, array rest)
  | _ => none

/-- A name of a closed set: a string, or an object that gives it `null`. -/
def name? {α : Type} (named? : String → Option α) (buffered : Bool) : Json → Option α
  | string s => named? s
  | object [(key, null)] => named? key
  | object [(key, object [])] => if buffered then named? key else none
  | _ => none

/-- What a tag without fields carries: any object, or an empty array. -/
def isEmptyContent : Json → Bool
  | object _ => true
  | array items => items.isEmpty
  | _ => false

def int32? : Json → Option Int32
  | number (.int n) =>
    if Int32.minValue.toInt ≤ n ∧ n ≤ Int32.maxValue.toInt then some (Int32.ofInt n) else none
  | _ => none

def uint32? : Json → Option UInt32
  | number (.int n) =>
    if 0 ≤ n ∧ n.toNat < UInt32.size then some (UInt32.ofNat n.toNat) else none
  | _ => none

/-- Any number, as a double, which is finite then. -/
def extended? : Json → Option Binary64.Extended
  | number n => n.toBinary64.map .finite
  | _ => none

def map? : Json → Option Map
  | object fields => some (.ofFields fields)
  | _ => none

def list? {α : Type} (read : Json → Option α) : Json → Option (List α)
  | array items => items.mapM read
  | _ => none

end Json

namespace KeyMap

def required {α : Type} (fields : KeyMap Json) (key : String) (read : Json → Option α) :
    Option α := do
  read (← fields.get? key)

def optional {α : Type} (fields : KeyMap Json) (key : String) (read : Json → Option α) :
    Option (Option α) :=
  match fields.get? key with
  | none => some none
  | some .null => some none
  | some value => (read value).map some

/-- A field that has a value of its own when absent. -/
def defaulted {α : Type} (fields : KeyMap Json) (key : String) (absent : α)
    (read : Json → Option α) : Option α :=
  match fields.get? key with
  | none => some absent
  | some value => read value

end KeyMap

namespace Json

theorem sizeFields_filter_le (keep : String × Json → Bool) (fields : List (String × Json)) :
    sizeFields (fields.filter keep) ≤ sizeFields fields := by
  induction fields with
  | nil => simp
  | cons field fields ih =>
    obtain ⟨key, value⟩ := field
    rw [List.filter_cons]
    split <;> simp [sizeFields] <;> omega

theorem exists_of_mem_mapM {α β : Type} {read : α → Option β} {items : List α} {results : List β}
    {b : β} (h : items.mapM read = some results) (hb : b ∈ results) :
    ∃ a ∈ items, read a = some b := by
  induction items generalizing results with
  | nil =>
    cases h
    cases hb
  | cons a items ih =>
    simp only [List.mapM_cons, Option.bind_eq_bind, Option.bind_eq_some_iff] at h
    obtain ⟨c, hc, rest, hrest, h⟩ := h
    cases h
    rcases List.mem_cons.1 hb with rfl | hb
    · exact ⟨a, List.mem_cons_self, hc⟩
    · obtain ⟨a, ha, h⟩ := ih hrest hb
      exact ⟨a, List.mem_cons_of_mem _ ha, h⟩

theorem size_le_of_tagged? {tags : List String} {buffered : Bool} {j content : Json} {tag : String}
    (h : j.tagged? tags buffered = some (tag, content)) : content.size ≤ j.size := by
  unfold tagged? at h
  split at h
  · split at h
    · simp only [Option.bind_eq_bind, Option.bind_eq_some_iff] at h
      obtain ⟨_, _, h⟩ := h
      cases h
      simp only [size]
      exact Nat.succ_le_succ (sizeFields_filter_le _ _)
    · cases h
  · simp only [Option.bind_eq_bind, Option.bind_eq_some_iff] at h
    obtain ⟨_, _, h⟩ := h
    cases h
    simp only [size, sizeItems]
    omega
  · cases h

theorem size_lt_of_record? {names : List String} {j value : Json} {fields : KeyMap Json}
    {key : String} (h : j.record? names = some fields) (hmem : (key, value) ∈ fields) :
    value.size < j.size := by
  unfold record? at h
  split at h
  · dsimp only at h
    split at h
    · cases h
    · cases h
      exact size_lt_of_mem_fields (List.mem_filter.1 hmem).1
  · split at h
    · cases h
      exact size_lt_of_mem_items (List.of_mem_zip hmem).2
    · cases h
  · cases h

theorem size_lt_of_field_of_record? {names : List String} {j value : Json} {fields : KeyMap Json}
    {key : String} (h : j.record? names = some fields)
    (hget : KeyMap.get? fields key = some value) : value.size < j.size :=
  size_lt_of_record? h (KeyMap.mem_of_get? hget)

def ofInt32 (n : Int32) : Json :=
  number (.int n.toInt)

def ofUInt32 (n : UInt32) : Json :=
  number (.int n.toNat)

/-- A field that is left out when it has no value. -/
def optionalField {α : Type} (key : String) (write : α → Json) (value : Option α) :
    List (String × Json) :=
  match value with
  | none => []
  | some value => [(key, write value)]

def tagged (tag : String) (fields : List (String × Json)) : Json :=
  object (("type", string tag) :: fields)

end Json

end ScreenDoc
