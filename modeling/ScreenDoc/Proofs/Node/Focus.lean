import Mathlib.Data.List.Infix
import ScreenDoc.Proofs.Node.Lookup
import ScreenDoc.Proofs.Node.Replace
import ScreenDoc.Proofs.Node.Traverse

/-!
# Updates as a focus on one node

Replacing a node is a lawful way to look at one place of a tree: what is put there is found there,
putting back what was there changes nothing, and of two replacements at one place the second
counts. Replacements at places of which neither is below the other do not notice each other.
-/

namespace ScreenDoc

namespace Properties

variable {α β : Type}

private theorem shell_mapIdx (f : Nat → α → β) (p : Properties α) : (p.mapIdx f).shell = p.shell :=
  p.mapIdx_mapIdx f fun _ _ => ()

private theorem mapIdx_eq_self {f : Nat → α → α} {p : Properties α}
    (h : p.children.mapIdx f = p.children) : p.mapIdx f = p := by
  cases p with
  | column p => exact congrArg (fun children => column ⟨children, _, _⟩) h
  | row p => exact congrArg (fun children => row ⟨children, _, _⟩) h
  | box p => exact congrArg (fun children => box ⟨children, _⟩) h
  | button p =>
    obtain ⟨_ | child, onClick, enabled⟩ := p
    · rfl
    · simpa [mapIdx, children] using h
  | card p =>
    obtain ⟨_ | child, elevation, onClick⟩ := p
    · rfl
    · simpa [mapIdx, children] using h
  | scaffold p =>
    obtain ⟨_ | topBar, _ | bottomBar, _ | child⟩ := p <;> simp_all [mapIdx, children]
  | topAppBar p =>
    obtain ⟨_ | title, _ | icon, actions⟩ := p <;>
      simp_all [mapIdx, children, Nat.add_comm 1, Nat.add_comm 2]
  | alertDialog p =>
    obtain ⟨_ | title, _ | body, _ | confirm, _ | dismiss, onDismiss⟩ := p <;>
      simp_all [mapIdx, children]
  | _ => rfl

end Properties

namespace Node

open TreeIndex (build)

/-! ## One child -/

theorem mapChildren_mapChildren (n : Node) (f g : Nat → Node → Node) :
    (n.mapChildren f).mapChildren g = n.mapChildren fun i c => g i (f i c) := by
  obtain ⟨type, properties, modifier⟩ := n
  cases properties with
  | none => rfl
  | some p =>
    simp only [mapChildren, Option.map_some]
    rw [p.mapIdx_mapIdx f g]

theorem setChild_setChild (n : Node) (i : Nat) (x y : Node) :
    (n.setChild i x).setChild i y = n.setChild i y := by
  rw [setChild, setChild, mapChildren_mapChildren, setChild]
  congr 1
  ext j c : 2
  by_cases hj : j = i
  · rw [if_pos hj, if_pos hj]
  · rw [if_neg hj, if_neg hj, if_neg hj]

private theorem setChild_comm (n : Node) {i j : Nat} (hij : i ≠ j) (x y : Node) :
    (n.setChild i x).setChild j y = (n.setChild j y).setChild i x := by
  simp only [setChild, mapChildren_mapChildren]
  congr 1
  ext k c : 2
  by_cases hi : k = i
  · have hj : k ≠ j := fun hj => hij (hi.symm.trans hj)
    rw [if_pos hi, if_pos hi, if_neg hj]
  · rw [if_neg hi, if_neg hi]

private theorem setChild_self {n c : Node} {i : Nat} (hc : n.children[i]? = some c) :
    n.setChild i c = n := by
  have hset : n.children.set i c = n.children := by
    obtain ⟨hi, rfl⟩ := List.getElem?_eq_some_iff.mp hc
    exact List.set_getElem_self hi
  rw [← children_setChild, setChild, children_mapChildren] at hset
  obtain ⟨type, properties, modifier⟩ := n
  cases properties with
  | none => rfl
  | some p => exact congrArg (Node.mk type · modifier) (congrArg some (p.mapIdx_eq_self hset))

/-! ## What stands at an address -/

private theorem at?_replaceAt?_self {n r t : Node} {address : List Nat}
    (ht : n.replaceAt? address r = some t) : t.at? address = some r := by
  induction address generalizing n t with
  | nil => exact ht.symm
  | cons i rest ih =>
    obtain ⟨c, hc, c', hc', rfl⟩ := replaceAt?_cons_eq_some.mp ht
    exact at?_cons_eq_some.mpr ⟨c', getElem?_children_setChild hc c', ih hc'⟩

private theorem at?_replaceAt?_of_not_prefix {n r t : Node} {a b : List Nat}
    (ht : n.replaceAt? a r = some t) (hab : ¬a <+: b) (hba : ¬b <+: a) : t.at? b = n.at? b := by
  rw [← map_node_occurrence? t rootId, ← map_node_occurrence? n rootId,
    occurrence?_replaceAt?_of_not_prefix ht hab hba]

private theorem replaceAt?_self {n m : Node} {address : List Nat} (hm : n.at? address = some m) :
    n.replaceAt? address m = some n := by
  induction address generalizing n with
  | nil => exact hm.symm
  | cons i rest ih =>
    obtain ⟨c, hc, hm⟩ := at?_cons_eq_some.mp hm
    exact replaceAt?_cons_eq_some.mpr ⟨c, hc, c, ih hm, setChild_self hc⟩

private theorem replaceAt?_replaceAt? {n x t : Node} {address : List Nat}
    (ht : n.replaceAt? address x = some t) (y : Node) :
    t.replaceAt? address y = n.replaceAt? address y := by
  induction address generalizing n t with
  | nil => rfl
  | cons i rest ih =>
    obtain ⟨c, hc, c', hc', rfl⟩ := replaceAt?_cons_eq_some.mp ht
    have hsecond : (n.setChild i c').setChild i = n.setChild i :=
      funext fun d => n.setChild_setChild i c' d
    rw [replaceAt?_cons (getElem?_children_setChild hc c'), replaceAt?_cons hc, ih hc', hsecond]

/-- Replacements at addresses of which neither leads through the other can be made in any order. -/
theorem replaceAt?_comm {n s s' x y : Node} {a b : List Nat} (hab : ¬a <+: b) (hba : ¬b <+: a)
    (hs : n.replaceAt? a x = some s) (hs' : n.replaceAt? b y = some s') :
    ∃ t, s.replaceAt? b y = some t ∧ s'.replaceAt? a x = some t := by
  induction a generalizing n s s' b with
  | nil => exact absurd List.nil_prefix hab
  | cons i a ih =>
    cases b with
    | nil => exact absurd List.nil_prefix hba
    | cons j b =>
      obtain ⟨c, hc, c', hc', rfl⟩ := replaceAt?_cons_eq_some.mp hs
      obtain ⟨d, hd, d', hd', rfl⟩ := replaceAt?_cons_eq_some.mp hs'
      by_cases hij : i = j
      · subst hij
        obtain rfl : c = d := Option.some.inj (hc.symm.trans hd)
        have hab' := not_prefix_of_cons hab
        have hba' := not_prefix_of_cons hba
        obtain ⟨u, hu, hu'⟩ := ih hab' hba' hc' hd'
        refine ⟨n.setChild i u, ?_, ?_⟩
        · rw [replaceAt?_cons (getElem?_children_setChild hc c'), hu, Option.map_some,
            setChild_setChild]
        · rw [replaceAt?_cons (getElem?_children_setChild hc d'), hu', Option.map_some,
            setChild_setChild]
      · have hd₁ : (n.setChild i c').children[j]? = some d := by
          rw [getElem?_children_setChild_ne hij, hd]
        have hc₁ : (n.setChild j d').children[i]? = some c := by
          rw [getElem?_children_setChild_ne (Ne.symm hij), hc]
        refine ⟨(n.setChild i c').setChild j d', ?_, ?_⟩
        · rw [replaceAt?_cons hd₁, hd', Option.map_some]
        · rw [replaceAt?_cons hc₁, hc', Option.map_some, setChild_comm n hij]

/-- A node that differs from another in nothing but the child in one position. -/
structure DiffersAt (position : Nat) (m m' : Node) : Prop where
  type : m'.type = m.type
  modifier : m'.modifier = m.modifier
  /-- The payloads are of one kind and agree in every field that holds no child. -/
  shell : m'.properties.map Properties.shell = m.properties.map Properties.shell
  children : ∃ c, m'.children = m.children.set position c

private theorem differsAt_setChild (n : Node) (position : Nat) (c : Node) :
    DiffersAt position n (n.setChild position c) where
  type := rfl
  modifier := rfl
  shell := by
    rw [setChild, mapChildren, Option.map_map]
    congr 1
    ext p : 1
    exact p.shell_mapIdx _
  children := ⟨c, n.children_setChild position c⟩

private theorem differsAt_replaceAt? {n r t : Node} {b rest : List Nat} {i : Nat}
    (ht : n.replaceAt? (b ++ i :: rest) r = some t) :
    ∃ m m', n.at? b = some m ∧ t.at? b = some m' ∧ DiffersAt i m m' := by
  induction b generalizing n t with
  | nil =>
    obtain ⟨c, -, c', -, rfl⟩ := replaceAt?_cons_eq_some.mp ht
    exact ⟨n, n.setChild i c', rfl, rfl, n.differsAt_setChild i c'⟩
  | cons j b ih =>
    obtain ⟨c, hc, c', hc', rfl⟩ := replaceAt?_cons_eq_some.mp ht
    obtain ⟨m, m', hm, hm', hdiffers⟩ := ih hc'
    exact ⟨m, m', at?_cons_eq_some.mpr ⟨c, hc, hm⟩,
      at?_cons_eq_some.mpr ⟨c', getElem?_children_setChild hc c', hm'⟩, hdiffers⟩

/-! ## Updates -/

/-- A tree that differs from `root` in nothing but what stands at an address. -/
structure ReplacedAt (root : Node) (address : List Nat) (r t : Node) : Prop where
  /-- The replacement stands at the address. -/
  here : t.at? address = some r
  /-- Neither above nor below the address anything changes. -/
  apart : ∀ b, ¬address <+: b → ¬b <+: address → t.at? b = root.at? b
  /-- A node above the address changes only in the child that leads down to it. -/
  above : ∀ b i rest, b ++ i :: rest = address →
    ∃ m m', root.at? b = some m ∧ t.at? b = some m' ∧ DiffersAt i m m'

private theorem replacedAt_of_replaceAt? {root r t : Node} {address : List Nat}
    (ht : root.replaceAt? address r = some t) : root.ReplacedAt address r t where
  here := at?_replaceAt?_self ht
  apart _ hab hba := at?_replaceAt?_of_not_prefix ht hab hba
  above b i rest hb := by
    subst hb
    exact differsAt_replaceAt? ht

theorem occurrence?_replaceAt?_of_type {root r t : Node} {address : List Nat} {o : Occurrence}
    (ho : root.occurrence? rootId address = some o) (ht : root.replaceAt? address r = some t)
    (htype : r.type = o.node.type) :
    t.occurrence? rootId address = some { o with node := r } := by
  rw [occurrence?_replaceAt?_self ho ht, htype, idAs_self ho]

private theorem update_update {root r t : Node} {address : List Nat} {o : Occurrence}
    (ho : root.occurrence? rootId address = some o) (ht : root.replaceAt? address r = some t)
    (htype : r.type = o.node.type) (r' : Node) : t.update o.id r' = root.update o.id r' := by
  obtain ⟨t', ht'⟩ := exists_replaceAt? (at?_of_occurrence? ho) r'
  have ho' := occurrence?_replaceAt?_of_type ho ht htype
  have hsecond : t.replaceAt? address r' = some t' := by rw [replaceAt?_replaceAt? ht, ht']
  calc t.update o.id r'
    _ = .applied t' := update_eq_applied_iff.mpr ⟨address, _, ho', rfl, hsecond⟩
    _ = root.update o.id r' := (update_eq_applied_iff.mpr ⟨address, o, ho, rfl, ht'⟩).symm

/-- Updates focus on one node. An update applies just when a node has the id, and is refused with
the tree as it was otherwise. If it applies, the replacement stands at the address of the id and
nothing else has changed; so the node that was there keeps the tree as it is, and a replacement of
its type has its id, where a second update makes the first one forgotten. -/
theorem update_focuses (root : Node) (id : String) (r : Node) :
    ((∃ t, root.update id r = .applied t) ↔ root.HasId id) ∧
    (¬root.HasId id → root.update id r = .notFound root) ∧
    ∀ t, root.update id r = .applied t →
      ∃ address m, root.address? id = some address ∧
        (build root).nodeWithId? id = some m ∧ root.at? address = some m ∧
        root.ReplacedAt address r t ∧
        (r = m → t = root) ∧
        (r.type = m.type → (build t).nodeWithId? id = some r ∧
          ∀ r', t.update id r' = root.update id r') := by
  refine ⟨⟨?_, fun hid => exists_update hid r⟩, fun hid => update_of_not_hasId hid r, ?_⟩
  · rintro ⟨t, ht⟩
    obtain ⟨address, o, ho, hid, -⟩ := update_eq_applied_iff.mp ht
    exact hasId_iff.mpr ⟨address, o, ho, hid⟩
  · intro t hupdate
    obtain ⟨address, o, ho, rfl, ht⟩ := update_eq_applied_iff.mp hupdate
    have hm : root.at? address = some o.node := at?_of_occurrence? ho
    refine ⟨address, o.node, address?_eq_some_iff.mpr ⟨o, ho, rfl⟩,
      TreeIndex.nodeWithId?_of_occurrence? ho, hm, replacedAt_of_replaceAt? ht, ?_, ?_⟩
    · rintro rfl
      rw [replaceAt?_self hm] at ht
      exact (Option.some.inj ht).symm
    · intro htype
      have ho' := occurrence?_replaceAt?_of_type ho ht htype
      exact ⟨TreeIndex.nodeWithId?_of_occurrence? ho', update_update ho ht htype⟩

def framed : Node :=
  { type := .scaffold,
    properties := some (.scaffold {
      topBar := some (.row [.plainText "left", .plainText "right"]),
      child := some (.column [.plainText "body"]) }) }

/-- The content stands behind the bar, and no child stands behind the content. An empty column in
its place has its id, and a row put there afterwards makes the column forgotten. -/
theorem update_focuses_framed :
    framed.update "root_0_Column_3" (.column []) = .notFound framed ∧
      ∃ t, framed.update "root_0_Column_2" (.column []) = .applied t ∧
        framed.ReplacedAt [1] (.column []) t ∧
        (build t).nodeWithId? "root_0_Column_2" = some (.column []) ∧
        t.update "root_0_Column_2" (.row []) = framed.update "root_0_Column_2" (.row []) := by
  have hmissing : ¬framed.HasId "root_0_Column_3" := by decide +kernel
  have hid : framed.HasId "root_0_Column_2" := by decide +kernel
  have haddress : framed.address? "root_0_Column_2" = some [1] := by decide +kernel
  have htype : ((build framed).nodeWithId? "root_0_Column_2").map Node.type = some .column := by
    decide +kernel
  obtain ⟨happlied, -, hfocus⟩ := update_focuses framed "root_0_Column_2" (.column [])
  obtain ⟨t, ht⟩ := happlied.mpr hid
  obtain ⟨address, m, ha, hm, -, hreplaced, -, hagain⟩ := hfocus t ht
  obtain rfl : [1] = address := Option.some.inj (haddress.symm.trans ha)
  rw [hm, Option.map_some] at htype
  obtain ⟨hnode, hsecond⟩ := hagain (Option.some.inj htype).symm
  exact ⟨(update_focuses framed _ _).2.1 hmissing, t, ht, hreplaced, hnode, hsecond _⟩

/-! ## Independent updates -/

private theorem rank_mem_ancestors {root : Node} {a address : List Nat} {o : Occurrence}
    (ho : root.occurrence? rootId address = some o) (hbelow : a <+: address)
    (hne : a ≠ address) : root.rank a ∈ (build root).ancestors (root.rank address) := by
  induction address using List.reverseRecOn generalizing o with
  | nil => exact absurd (List.prefix_nil.mp hbelow) hne
  | append_singleton address position ih =>
    obtain ⟨parent, hparent, c, hc, rfl⟩ := occurrence?_concat_eq_some.mp ho
    rw [TreeIndex.ancestors_rank_concat hparent hc, List.mem_cons]
    rcases List.prefix_concat_iff.mp hbelow with heq | hbelow
    · exact absurd heq hne
    · by_cases ha : a = address
      · exact .inl (congrArg root.rank ha)
      · exact .inr (ih hparent hbelow ha)

theorem not_prefix_of_not_mem_ancestors {root : Node} {a address : List Nat} {o : Occurrence}
    (ho : root.occurrence? rootId address = some o) (hne : root.rank a ≠ root.rank address)
    (hnot : root.rank a ∉ (build root).ancestors (root.rank address)) : ¬a <+: address := by
  intro hbelow
  have haddress : a ≠ address := fun h => hne (congrArg root.rank h)
  exact hnot (rank_mem_ancestors ho hbelow haddress)

/-- Updates of two nodes of which neither is the other or an ancestor of it can be made in any
order, whatever stands there afterwards. -/
theorem updates_commute {root : Node} {a b : String} {i j : Nat}
    (hi : (build root).find? a = some i) (hj : (build root).find? b = some j) (hij : i ≠ j)
    (hiabove : i ∉ (build root).ancestors j) (hjabove : j ∉ (build root).ancestors i)
    (x y : Node) :
    ∃ s s' t, root.update a x = .applied s ∧ s.update b y = .applied t ∧
      root.update b y = .applied s' ∧ s'.update a x = .applied t := by
  obtain ⟨address, o, ho, rfl, rfl⟩ := TreeIndex.find?_eq_some_iff_rank.mp hi
  obtain ⟨other, p, hp, rfl, rfl⟩ := TreeIndex.find?_eq_some_iff_rank.mp hj
  have hab : ¬address <+: other := not_prefix_of_not_mem_ancestors hp hij hiabove
  have hba : ¬other <+: address := not_prefix_of_not_mem_ancestors ho hij.symm hjabove
  obtain ⟨s, hs⟩ := exists_replaceAt? (at?_of_occurrence? ho) x
  obtain ⟨s', hs'⟩ := exists_replaceAt? (at?_of_occurrence? hp) y
  obtain ⟨t, ht, ht'⟩ := replaceAt?_comm hab hba hs hs'
  have hp' : s.occurrence? rootId other = some p :=
    hp ▸ occurrence?_replaceAt?_of_not_prefix hs hab hba rootId
  have ho' : s'.occurrence? rootId address = some o :=
    ho ▸ occurrence?_replaceAt?_of_not_prefix hs' hba hab rootId
  refine ⟨s, s', t, ?_, ?_, ?_, ?_⟩
  · exact update_eq_applied_iff.mpr ⟨address, o, ho, rfl, hs⟩
  · exact update_eq_applied_iff.mpr ⟨other, p, hp', rfl, ht⟩
  · exact update_eq_applied_iff.mpr ⟨other, p, hp, rfl, hs'⟩
  · exact update_eq_applied_iff.mpr ⟨address, o, ho', rfl, ht'⟩

/-- A text of the bar becomes a column and the content becomes a text. -/
theorem updates_commute_framed :
    ∃ s s' t, framed.update "root_0_Row_1_Text_1" (.column []) = .applied s ∧
      s.update "root_0_Column_2" (.plainText "end") = .applied t ∧
      framed.update "root_0_Column_2" (.plainText "end") = .applied s' ∧
      s'.update "root_0_Row_1_Text_1" (.column []) = .applied t := by
  have hi : (build framed).find? "root_0_Row_1_Text_1" = some 2 := by decide +kernel
  have hj : (build framed).find? "root_0_Column_2" = some 4 := by decide +kernel
  exact updates_commute hi hj (by decide) (by decide +kernel) (by decide +kernel) _ _

end Node

end ScreenDoc
