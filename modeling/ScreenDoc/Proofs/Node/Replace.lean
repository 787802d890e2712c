import ScreenDoc.Proofs.Node.Occurrence

/-!
# What a replacement leaves as it is

Replacing a node exchanges one block of consecutive rows: the rows behind it stay, and those before
it keep their depths and ids. The replacement gets an id that differs from the old one in nothing
but the type. At an address that is neither above nor below the replaced one, the same node stands
under the same id.
-/

namespace ScreenDoc

def Row.label (r : Row) : Nat × String :=
  (r.depth, r.id)

/-- Of the rows `old`, the rows `new` have others in place of one block; the rows before it agree in
depth and id, and the rows behind it are the same. -/
def SwapsBlock (old new block block' : List Row) : Prop :=
  ∃ before before' after, old = before ++ block ++ after ∧ new = before' ++ block' ++ after ∧
    before'.map Row.label = before.map Row.label

/-- Within a block that is exchanged, all but a smaller block may be the same. -/
theorem SwapsBlock.narrow {old new left left' block block' right : List Row}
    (h : SwapsBlock old new (left ++ block ++ right) (left' ++ block' ++ right))
    (hleft : left'.map Row.label = left.map Row.label) : SwapsBlock old new block block' := by
  obtain ⟨before, before', after, rfl, rfl, hbefore⟩ := h
  refine ⟨before ++ left, before' ++ left', right ++ after, by simp, by simp, ?_⟩
  rw [List.map_append, List.map_append, hbefore, hleft]

/-- The id that a node of this type has in the place of an occurrence. -/
def Occurrence.idAs (o : Occurrence) (type : NodeType) : String :=
  match o.above, o.address.getLast? with
  | parentId :: _, some position => type.childId parentId position
  | _, _ => o.id

theorem Occurrence.idAs_child (o : Occurrence) (position : Nat) (c : Node) (type : NodeType) :
    (o.child position c).idAs type = type.childId o.id position := by
  simp [idAs, child]

theorem not_prefix_of_cons {i : Nat} {a b : List Nat} (h : ¬i :: a <+: i :: b) : ¬a <+: b :=
  fun hab => h (List.cons_prefix_cons.mpr ⟨rfl, hab⟩)

namespace Node

/-- The rows of the trees below some children of a node with this depth and id. -/
def rowsOfChildren (children : List Node) (first depth : Nat) (id : String) : List Row :=
  (children.zipIdx first).flatMap fun child =>
    child.1.rows [] (depth + 1) (child.1.type.childId id child.2)

theorem rows_eq_cons (n : Node) (depth : Nat) (id : String) :
    n.rows [] depth id = ⟨depth, n, id⟩ :: rowsOfChildren n.children 0 depth id :=
  n.rows_eq depth id

theorem rowsOfChildren_append (left right : List Node) (first depth : Nat) (id : String) :
    rowsOfChildren (left ++ right) first depth id =
      rowsOfChildren left first depth id ++
        rowsOfChildren right (first + left.length) depth id := by
  rw [rowsOfChildren, List.zipIdx_append, List.flatMap_append]
  rfl

theorem rowsOfChildren_cons (c : Node) (right : List Node) (first depth : Nat) (id : String) :
    rowsOfChildren (c :: right) first depth id =
      c.rows [] (depth + 1) (c.type.childId id first) ++
        rowsOfChildren right (first + 1) depth id := rfl

theorem idAs_self {n : Node} {id : String} {address : List Nat} {o : Occurrence}
    (ho : n.occurrence? id address = some o) : o.idAs o.node.type = o.id := by
  cases address using List.reverseRecOn with
  | nil =>
    cases ho
    rfl
  | append_singleton address position =>
    obtain ⟨parent, -, c, -, rfl⟩ := occurrence?_concat_eq_some.mp ho
    exact parent.idAs_child position c c.type

private theorem rows_setChild {n c : Node} {position : Nat} (hc : n.children[position]? = some c)
    (depth : Nat) (id : String) :
    ∃ left right,
      n.rows [] depth id =
        ⟨depth, n, id⟩ :: left ++ c.rows [] (depth + 1) (c.type.childId id position) ++ right ∧
      ∀ c' : Node, (n.setChild position c').rows [] depth id =
        ⟨depth, n.setChild position c', id⟩ :: left ++
          c'.rows [] (depth + 1) (c'.type.childId id position) ++ right := by
  obtain ⟨hlt, rfl⟩ := List.getElem?_eq_some_iff.mp hc
  have hlength : (n.children.take position).length = position :=
    List.length_take_of_le (Nat.le_of_lt hlt)
  refine ⟨rowsOfChildren (n.children.take position) 0 depth id,
    rowsOfChildren (n.children.drop (position + 1)) (position + 1) depth id, ?_, fun c' => ?_⟩
  · have hsplit : n.children =
        n.children.take position ++ n.children[position] :: n.children.drop (position + 1) := by
      rw [← List.drop_eq_getElem_cons hlt, List.take_append_drop]
    conv_lhs => rw [rows_eq_cons, hsplit, rowsOfChildren_append, rowsOfChildren_cons, hlength,
      Nat.zero_add]
    simp
  · rw [rows_eq_cons, children_setChild, List.set_eq_take_append_cons_drop, if_pos hlt,
      rowsOfChildren_append, rowsOfChildren_cons, hlength, Nat.zero_add]
    simp

theorem rows_replaceAt? {n r t : Node} {id : String} {address : List Nat} {o : Occurrence}
    (ho : n.occurrence? id address = some o) (ht : n.replaceAt? address r = some t)
    (depth : Nat) :
    SwapsBlock (n.rows [] depth id) (t.rows [] depth id)
      (o.node.rows [] (depth + address.length) o.id)
      (r.rows [] (depth + address.length) (o.idAs r.type)) := by
  induction address using List.reverseRecOn generalizing o r with
  | nil =>
    cases ho
    cases ht
    exact ⟨[], [], [], by simp [Occurrence.top], by simp [Occurrence.top, Occurrence.idAs], rfl⟩
  | append_singleton address position ih =>
    obtain ⟨parent, hparent, c, hc, rfl⟩ := occurrence?_concat_eq_some.mp ho
    rw [replaceAt?_concat (at?_of_occurrence? hparent) hc] at ht
    have hswap := ih hparent ht
    rw [type_setChild, idAs_self hparent] at hswap
    obtain ⟨left, right, hold, hnew⟩ :=
      rows_setChild hc (depth + address.length) parent.id
    rw [hold, hnew] at hswap
    rw [List.length_append, List.length_singleton, ← Nat.add_assoc, Occurrence.idAs_child]
    exact hswap.narrow rfl

theorem occurrence?_replaceAt?_self {n r t : Node} {id : String} {address : List Nat}
    {o : Occurrence} (ho : n.occurrence? id address = some o)
    (ht : n.replaceAt? address r = some t) :
    t.occurrence? id address = some { o with node := r, id := o.idAs r.type } := by
  induction address using List.reverseRecOn generalizing o r with
  | nil =>
    cases ho
    cases ht
    rfl
  | append_singleton address position ih =>
    obtain ⟨parent, hparent, c, hc, rfl⟩ := occurrence?_concat_eq_some.mp ho
    rw [replaceAt?_concat (at?_of_occurrence? hparent) hc] at ht
    have hparent' := ih hparent ht
    rw [type_setChild, idAs_self hparent] at hparent'
    refine occurrence?_concat_eq_some.mpr
      ⟨_, hparent', r, getElem?_children_setChild hc r, ?_⟩
    rw [Occurrence.idAs_child]
    rfl

theorem occurrence?_setChild_self {n c : Node} {i : Nat} (hc : n.children[i]? = some c)
    (c' : Node) (id : String) (b : List Nat) :
    (n.setChild i c').occurrence? id (i :: b) =
      (c'.occurrence? (c'.type.childId id i) b).map (·.under i id) := by
  rw [occurrence?, getElem?_children_setChild hc, Option.bind_some]

theorem occurrence?_setChild_ne {n c : Node} {i j : Nat} (hij : i ≠ j) (id : String)
    (b : List Nat) : (n.setChild i c).occurrence? id (j :: b) = n.occurrence? id (j :: b) := by
  rw [occurrence?, occurrence?, getElem?_children_setChild_ne hij]

theorem type_of_replaceAt?_of_not_prefix {n r t : Node} {a b : List Nat}
    (ht : n.replaceAt? a r = some t) (hab : ¬ a <+: b) : t.type = n.type := by
  cases a with
  | nil => exact absurd List.nil_prefix hab
  | cons i a => exact type_of_replaceAt?_cons ht

/-- Outside the replaced tree every node keeps its id, also the nodes above it. -/
theorem map_id_occurrence?_replaceAt? {n r t : Node} {a b : List Nat}
    (ht : n.replaceAt? a r = some t) (hab : ¬ a <+: b) (id : String) :
    (t.occurrence? id b).map Occurrence.id = (n.occurrence? id b).map Occurrence.id := by
  induction a generalizing n t b id with
  | nil => exact absurd List.nil_prefix hab
  | cons i a ih =>
    cases b with
    | nil => rfl
    | cons j b =>
      obtain ⟨c, hc, c', hc', rfl⟩ := replaceAt?_cons_eq_some.mp ht
      by_cases hij : i = j
      · subst hij
        have hab' := not_prefix_of_cons hab
        rw [occurrence?_setChild_self hc, occurrence?, hc,
          Option.bind_some, type_of_replaceAt?_of_not_prefix hc' hab', Option.map_map,
          Option.map_map]
        exact ih hc' hab' _
      · rw [occurrence?_setChild_ne hij]

theorem occurrence?_replaceAt?_of_not_prefix {n r t : Node} {a b : List Nat}
    (ht : n.replaceAt? a r = some t) (hab : ¬ a <+: b) (hba : ¬ b <+: a) (id : String) :
    t.occurrence? id b = n.occurrence? id b := by
  induction a generalizing n t b id with
  | nil => exact absurd List.nil_prefix hab
  | cons i a ih =>
    cases b with
    | nil => exact absurd List.nil_prefix hba
    | cons j b =>
      obtain ⟨c, hc, c', hc', rfl⟩ := replaceAt?_cons_eq_some.mp ht
      by_cases hij : i = j
      · subst hij
        have hab' := not_prefix_of_cons hab
        have hba' := not_prefix_of_cons hba
        rw [occurrence?_setChild_self hc, occurrence?, hc,
          Option.bind_some, type_of_replaceAt?_of_not_prefix hc' hab', ih hc' hab' hba']
      · exact occurrence?_setChild_ne hij id b

end Node

end ScreenDoc
