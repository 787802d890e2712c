import ScreenDoc.Json.Reader
import ScreenDoc.Proofs.Json.Draft
import ScreenDoc.Proofs.Json.Numeral
import ScreenDoc.Proofs.Json.StringLiteral

/-!
# Reading back written values

The draft of a written value is the value itself, part by part, and nothing of it is broken. The
reader's bound on its recursion is never met, since a value is no larger than its text is long.
-/

namespace ScreenDoc

namespace Json

mutual

def numbers : Json → List Number
  | number n => [n]
  | array items => numbersItems items
  | object fields => numbersFields fields
  | null => []
  | bool _ => []
  | string _ => []

def numbersItems : List Json → List Number
  | [] => []
  | item :: items => numbers item ++ numbersItems items

def numbersFields : List (String × Json) → List Number
  | [] => []
  | (_, value) :: fields => numbers value ++ numbersFields fields

end

theorem mem_numbers_array {items : List Json} {n : Number} :
    n ∈ (array items).numbers ↔ ∃ item ∈ items, n ∈ item.numbers := by
  rw [numbers]
  induction items with
  | nil => simp [numbersItems]
  | cons item items ih => simp [numbersItems, ih]

theorem mem_numbers_object {fields : List (String × Json)} {n : Number} :
    n ∈ (object fields).numbers ↔ ∃ field ∈ fields, n ∈ field.2.numbers := by
  rw [numbers]
  induction fields with
  | nil => simp [numbersFields]
  | cons field fields ih => simp [numbersFields, ih]

/-- Every number in the value is read back as it was written. -/
def ReadsBack (j : Json) : Prop :=
  ∀ n ∈ j.numbers, n.ReadsBack

end Json

namespace Reader

theorem skipBlank_cons {c : Char} (h : isBlank c = false) (cs : List Char) :
    skipBlank (c :: cs) = c :: cs := by
  simp [skipBlank, h]

theorem value_of_head {c : Char} (hblank : isBlank c = false) (hbracket : c ≠ '[')
    (hbrace : c ≠ '\x7b') (fuel : Nat) (cs : List Char) :
    value (fuel + 1) (c :: cs) = scalarValue (c :: cs) := by
  rw [value, skipBlank_cons hblank]
  split
  · rename_i heq
    exact absurd (List.cons.inj heq).1 hbracket
  · rename_i heq
    exact absurd (List.cons.inj heq).1 hbrace
  · rfl

theorem not_isBlank_of_isDigit {c : Char} (h : c.isDigit = true) :
    isBlank c = false ∧ c ≠ '[' ∧ c ≠ '\x7b' ∧ c ≠ ']' ∧ c ≠ '\x7d' ∧ c ≠ '"' ∧ c ≠ 'n' ∧ c ≠ 't'
      ∧ c ≠ 'f' := by
  have hne : ∀ d : Char, d.isDigit = false → c ≠ d := by
    rintro d hd rfl
    rw [h] at hd
    cases hd
  refine ⟨?_, hne _ (by decide), hne _ (by decide), hne _ (by decide), hne _ (by decide),
    hne _ (by decide), hne _ (by decide), hne _ (by decide), hne _ (by decide)⟩
  simp [isBlank, hne ' ' (by decide), hne '\n' (by decide), hne '\t' (by decide),
    hne '\r' (by decide)]

theorem renderNumber_append (n : Number) (rest : List Char) :
    Json.renderNumber n rest = Json.renderNumber n [] ++ rest := by
  cases n <;> simp [Json.renderNumber]

theorem scan_renderNumber {n : Number} (h : n.ReadsBack) {rest : List Char}
    (hrest : Numeral.Ends rest) :
    ∃ numeral, Numeral.scan (Json.renderNumber n rest) = .ok (numeral, rest)
      ∧ numeral.value = some n := by
  unfold Number.ReadsBack Number.ofText? at h
  split at h
  · rename_i numeral hscan
    exact ⟨numeral, by rw [renderNumber_append]; exact Numeral.scan_append hrest hscan, h⟩
  · cases h

theorem exists_head_renderNumber {n : Number} (h : n.ReadsBack) {rest : List Char}
    (hrest : Numeral.Ends rest) :
    ∃ c cs, Json.renderNumber n rest = c :: cs ∧ (c = '-' ∨ c.isDigit = true) := by
  obtain ⟨numeral, hscan, -⟩ := scan_renderNumber h hrest
  exact Numeral.exists_of_scan hscan

private theorem scalarValue_renderNumber {n : Number} (h : n.ReadsBack) {rest : List Char}
    (hrest : Numeral.Ends rest) :
    scalarValue (Json.renderNumber n rest) = (.number (some n), .ok rest) := by
  obtain ⟨numeral, hscan, hvalue⟩ := scan_renderNumber h hrest
  obtain ⟨c, cs, hcs, hc⟩ := exists_head_renderNumber h hrest
  rw [hcs] at hscan ⊢
  rw [scalarValue]
  · rw [if_pos hc, hscan, ← hvalue]
    rfl
  all_goals
    rintro rfl
    exact absurd hc (by decide)

private theorem exists_head_render {j : Json} (h : j.ReadsBack) {rest : List Char}
    (hrest : Numeral.Ends rest) :
    ∃ c cs, j.render rest = c :: cs ∧ isBlank c = false ∧ c ≠ ']' := by
  cases j with
  | null => exact ⟨_, _, rfl, by decide, by decide⟩
  | bool b => cases b <;> exact ⟨_, _, rfl, by decide, by decide⟩
  | string s => exact ⟨_, _, rfl, by decide, by decide⟩
  | array items => cases items <;> exact ⟨_, _, rfl, by decide, by decide⟩
  | object fields => cases fields <;> exact ⟨_, _, rfl, by decide, by decide⟩
  | number n =>
    obtain ⟨c, cs, hcs, hc⟩ := exists_head_renderNumber (h n (by simp [Json.numbers])) hrest
    refine ⟨c, cs, hcs, ?_⟩
    rcases hc with rfl | hc
    · exact ⟨by decide, by decide⟩
    · obtain ⟨hblank, -, -, hclose, -⟩ := not_isBlank_of_isDigit hc
      exact ⟨hblank, hclose⟩

theorem ends_renderItems (items : List Json) (rest : List Char) :
    Numeral.Ends (Json.renderItems items (']' :: rest)) := by
  cases items <;> simp [Json.renderItems, Numeral.Ends]

theorem ends_renderFields (fields : List (String × Json)) (rest : List Char) :
    Numeral.Ends (Json.renderFields fields ('\x7d' :: rest)) := by
  cases fields <;> simp [Json.renderFields, Numeral.Ends]

theorem item_of_ok {readValue : List Char → Draft × Rest} {readMore : List Char → Items × Rest}
    {cs behind : List Char} {v : Draft} {more : Items} {rest : Rest}
    (hvalue : readValue cs = (v, .ok behind)) (hmore : readMore behind = (more, rest)) :
    item readValue readMore cs = (.item v more, rest) := by
  rw [item, hvalue]
  dsimp only
  rw [hmore]

theorem member_renderString {readValue : List Char → Draft × Rest}
    {readMore : List Char → Members × Rest} (key : String) {cs behind : List Char} {v : Draft}
    {more : Members} {rest : Rest} (hvalue : readValue cs = (v, .ok behind))
    (hmore : readMore behind = (more, rest)) :
    member readValue readMore (Json.renderString key (':' :: cs))
      = (.member (some key) v more, rest) := by
  have hquote : isBlank '"' = false := by decide
  have hcolon : isBlank ':' = false := by decide
  simp only [member, Json.renderString, skipBlank_cons hquote, StringLiteral.read_renderString,
    skipBlank_cons hcolon, hvalue, hmore]

mutual

theorem value_render (j : Json) (fuel : Nat) (rest : List Char) (h : j.ReadsBack)
    (hrest : Numeral.Ends rest) (hfuel : 2 * j.size ≤ fuel) :
    value fuel (j.render rest) = (j.toDraft, .ok rest) :=
  -- The reader follows the writer, with two units of fuel for each value in it.
  match j, fuel with
  | j, 0 => by
    have := j.size_pos
    omega
  | .null, fuel + 1 => rfl
  | .bool true, fuel + 1 => rfl
  | .bool false, fuel + 1 => rfl
  | .number n, fuel + 1 => by
    have hn : n.ReadsBack := h n (by simp [Json.numbers])
    obtain ⟨c, cs, hcs, hc⟩ := exists_head_renderNumber hn hrest
    have hscalar := scalarValue_renderNumber hn hrest
    rw [Json.render, Json.toDraft, ← hscalar, hcs]
    rcases hc with rfl | hc
    · rfl
    · obtain ⟨hblank, hbracket, hbrace, -⟩ := not_isBlank_of_isDigit hc
      exact value_of_head hblank hbracket hbrace fuel cs
  | .string s, fuel + 1 => by
    rw [Json.render, Json.renderString, value_of_head (by decide) (by decide) (by decide),
      scalarValue, StringLiteral.read_renderString]
    rfl
  | .array [], fuel + 1 => by
    obtain ⟨fuel, rfl⟩ : ∃ f, fuel = f + 1 := ⟨fuel - 1, by simp [Json.size] at hfuel; omega⟩
    rfl
  | .object [], fuel + 1 => by
    obtain ⟨fuel, rfl⟩ : ∃ f, fuel = f + 1 := ⟨fuel - 1, by simp [Json.size] at hfuel; omega⟩
    rfl
  | .array (x :: xs), fuel + 1 => by
    obtain ⟨hx, hitems⟩ := List.forall_mem_append.mp h
    have hpos := x.size_pos
    simp only [Json.size, Json.sizeItems] at hfuel
    obtain ⟨fuel, rfl⟩ : ∃ f, fuel = f + 1 := ⟨fuel - 1, by omega⟩
    have hends := ends_renderItems xs rest
    have hvalue := value_render x fuel _ hx hends (by omega)
    have hmore := moreItems_render xs fuel rest hitems (by omega)
    obtain ⟨c, cs, hcs, hblank, hclose⟩ := exists_head_render hx hends
    have hitem := item_of_ok hvalue hmore
    have hopen : items (fuel + 1) (x.render (Json.renderItems xs (']' :: rest)))
        = (.item x.toDraft (Json.toItems xs), .ok rest) := by
      rw [hcs] at hitem ⊢
      rw [items, skipBlank_cons hblank]
      -- No item starts with a closing bracket, so the list is not taken for an empty one.
      split
      · rename_i heq
        exact absurd (List.cons.inj heq).1 hclose
      · exact hitem
    have hbracket : isBlank '[' = false := by decide
    simp only [Json.render, value, skipBlank_cons hbracket, hopen, Json.toDraft, Json.toItems]
  | .object ((key, v) :: fields), fuel + 1 => by
    obtain ⟨hv, hfields⟩ := List.forall_mem_append.mp h
    have hpos := v.size_pos
    simp only [Json.size, Json.sizeFields] at hfuel
    obtain ⟨fuel, rfl⟩ : ∃ f, fuel = f + 1 := ⟨fuel - 1, by omega⟩
    have hvalue := value_render v fuel _ hv (ends_renderFields fields rest) (by omega)
    have hmore := moreMembers_render fields fuel rest hfields (by omega)
    have hmember := member_renderString key hvalue hmore
    have hbrace : isBlank '\x7b' = false := by decide
    have hquote : isBlank '"' = false := by decide
    have hopen : members (fuel + 1)
        (Json.renderString key (':' :: v.render (Json.renderFields fields ('\x7d' :: rest))))
        = (.member key v.toDraft (Json.toMembers fields), .ok rest) := by
      rw [← hmember, members, Json.renderString, skipBlank_cons hquote]
      rfl
    simp only [Json.render, value, skipBlank_cons hbrace, hopen, Json.toDraft, Json.toMembers]

theorem moreItems_render (items : List Json) (fuel : Nat) (rest : List Char)
    (h : ∀ n ∈ Json.numbersItems items, n.ReadsBack) (hfuel : 2 * Json.sizeItems items + 1 ≤ fuel) :
    moreItems fuel (Json.renderItems items (']' :: rest)) = (Json.toItems items, .ok rest) :=
  match items, fuel with
  | _, 0 => by omega
  | [], fuel + 1 => rfl
  | x :: xs, fuel + 1 => by
    obtain ⟨hx, hitems⟩ := List.forall_mem_append.mp h
    have hpos := x.size_pos
    simp only [Json.sizeItems] at hfuel
    have hvalue := value_render x fuel _ hx (ends_renderItems xs rest) (by omega)
    have hmore := moreItems_render xs fuel rest hitems (by omega)
    exact item_of_ok hvalue hmore

theorem moreMembers_render (fields : List (String × Json)) (fuel : Nat) (rest : List Char)
    (h : ∀ n ∈ Json.numbersFields fields, n.ReadsBack)
    (hfuel : 2 * Json.sizeFields fields + 1 ≤ fuel) :
    moreMembers fuel (Json.renderFields fields ('\x7d' :: rest))
      = (Json.toMembers fields, .ok rest) :=
  match fields, fuel with
  | _, 0 => by omega
  | [], fuel + 1 => rfl
  | (key, v) :: fields, fuel + 1 => by
    obtain ⟨hv, hfields⟩ := List.forall_mem_append.mp h
    have hpos := v.size_pos
    simp only [Json.sizeFields] at hfuel
    have hvalue := value_render v fuel _ hv (ends_renderFields fields rest) (by omega)
    have hmore := moreMembers_render fields fuel rest hfields (by omega)
    exact member_renderString key hvalue hmore

end

theorem length_renderString (s : String) (rest : List Char) :
    rest.length + 2 ≤ (Json.renderString s rest).length := by
  simp only [Json.renderString, List.length_cons, List.length_append]
  omega

mutual

theorem length_render (j : Json) (rest : List Char) (h : j.ReadsBack) :
    j.size + rest.length ≤ (j.render rest).length :=
  match j with
  | .null => by simp [Json.render, Json.size]; omega
  | .bool true => by simp [Json.render, Json.size]; omega
  | .bool false => by simp [Json.render, Json.size]; omega
  | .string s => by
    have := length_renderString s rest
    simp only [Json.render, Json.size]
    omega
  | .number n => by
    have hn : n.ReadsBack := h n (by simp [Json.numbers])
    obtain ⟨c, cs, hcs, -⟩ := exists_head_renderNumber hn Numeral.ends_nil
    simp only [Json.render, Json.size, renderNumber_append n rest, hcs, List.length_append,
      List.length_cons]
    omega
  | .array [] => by simp [Json.render, Json.size, Json.sizeItems]; omega
  | .object [] => by simp [Json.render, Json.size, Json.sizeFields]; omega
  | .array (x :: items) => by
    obtain ⟨hx, hitems⟩ := List.forall_mem_append.mp h
    have hvalue := length_render x (Json.renderItems items (']' :: rest)) hx
    have hmore := length_renderItems items rest hitems
    simp only [Json.render, Json.size, Json.sizeItems, List.length_cons]
    omega
  | .object ((key, v) :: fields) => by
    obtain ⟨hv, hfields⟩ := List.forall_mem_append.mp h
    have hkey := length_renderString key
      (':' :: v.render (Json.renderFields fields ('\x7d' :: rest)))
    have hvalue := length_render v (Json.renderFields fields ('\x7d' :: rest)) hv
    have hmore := length_renderFields fields rest hfields
    simp only [Json.render, Json.size, Json.sizeFields, List.length_cons] at hkey ⊢
    omega

theorem length_renderItems (items : List Json) (rest : List Char)
    (h : ∀ n ∈ Json.numbersItems items, n.ReadsBack) :
    Json.sizeItems items + rest.length < (Json.renderItems items (']' :: rest)).length :=
  match items with
  | [] => by simp [Json.renderItems, Json.sizeItems]
  | x :: items => by
    obtain ⟨hx, hitems⟩ := List.forall_mem_append.mp h
    have hvalue := length_render x (Json.renderItems items (']' :: rest)) hx
    have hmore := length_renderItems items rest hitems
    simp only [Json.renderItems, Json.sizeItems, List.length_cons]
    omega

theorem length_renderFields (fields : List (String × Json)) (rest : List Char)
    (h : ∀ n ∈ Json.numbersFields fields, n.ReadsBack) :
    Json.sizeFields fields + rest.length
      < (Json.renderFields fields ('\x7d' :: rest)).length :=
  match fields with
  | [] => by simp [Json.renderFields, Json.sizeFields]
  | (key, v) :: fields => by
    obtain ⟨hv, hfields⟩ := List.forall_mem_append.mp h
    have hkey := length_renderString key
      (':' :: v.render (Json.renderFields fields ('\x7d' :: rest)))
    have hvalue := length_render v (Json.renderFields fields ('\x7d' :: rest)) hv
    have hmore := length_renderFields fields rest hfields
    simp only [Json.renderFields, Json.sizeFields, List.length_cons] at hkey ⊢
    omega

end

end Reader

theorem Draft.ofText_text {j : Json} (h : j.ReadsBack) :
    Draft.ofText j.text = (j.toDraft, true) := by
  have hsize := Reader.length_render j [] h
  have hvalue := Reader.value_render j (2 * (j.render []).length + 2) [] h Numeral.ends_nil
    (by simp at hsize; omega)
  simp only [Draft.ofText, Json.text, String.toList_ofList, hvalue]
  rfl

theorem Draft.readText_text {α : Type} {read : Draft → Except Failure α} {j : Json}
    (h : j.ReadsBack) : Draft.readText read j.text = read j.toDraft := by
  simp only [Draft.readText, Draft.ofText_text h]
  cases read j.toDraft <;> rfl

theorem Json.ofText_text {j : Json} (h : j.ReadsBack) (hdepth : j.depth ≤ Draft.roomAtTop) :
    Json.ofText j.text = .ok j.canonical := by
  rw [Json.ofText, Draft.readText_text h, Draft.value_toDraft hdepth]
  rfl

end ScreenDoc
