import ScreenDoc.Node.Basic
import ScreenDoc.Proofs.MapM

/-!
# Payloads with other children

What `map` and `traverse` do to the children of a payload. The variants that carry the proof that
a child is one are the plain ones, and children that were written are read back where each of them
is.
-/

namespace ScreenDoc

namespace Properties

variable {α β γ : Type}

theorem forall_children_scaffold {P : α → Prop} {p : ScaffoldProps α} :
    (∀ c ∈ (scaffold p).children, P c) ↔
      (∀ c ∈ p.topBar, P c) ∧ (∀ c ∈ p.bottomBar, P c) ∧ ∀ c ∈ p.child, P c := by
  simp [children, or_imp, forall_and]

theorem forall_children_topAppBar {P : α → Prop} {p : TopAppBarProps α} :
    (∀ c ∈ (topAppBar p).children, P c) ↔
      (∀ c ∈ p.title, P c) ∧ (∀ c ∈ p.navigationIcon, P c) ∧ ∀ c ∈ p.actions, P c := by
  simp [children, or_imp, forall_and]

theorem forall_children_alertDialog {P : α → Prop} {p : AlertDialogProps α} :
    (∀ c ∈ (alertDialog p).children, P c) ↔
      (∀ c ∈ p.title, P c) ∧ (∀ c ∈ p.text, P c) ∧ (∀ c ∈ p.confirmButton, P c) ∧
        ∀ c ∈ p.dismissButton, P c := by
  simp [children, or_imp, forall_and]

theorem mapIdx_const (f : α → β) (l : List α) : (l.mapIdx fun _ => f) = l.map f :=
  List.ext_getElem (by simp) (by simp)

private theorem mapM_attach {P : α → Prop} (f : α → Option β) (l : List α)
    (h : ∀ c : { c // c ∈ l }, P c.1) :
    ((l.attach.map fun c => (⟨c.1, h c⟩ : { a // P a })).mapM fun c => f c.1) = l.mapM f := by
  have hvalues : (l.attach.map fun c => (⟨c.1, h c⟩ : { a // P a })).unattach = l := by
    rw [List.unattach, List.map_map]
    exact List.attach_map_subtype_val l
  rw [List.mapM_subtype (g := f) fun _ _ => rfl, hvalues]

private theorem option_mapM_attach {P : α → Prop} (f : α → Option β) (o : Option α)
    (h : ∀ c : { c // o = some c }, P c.1) :
    ((o.attach.map fun c => (⟨c.1, h c⟩ : { a // P a })).mapM fun c => f c.1) = o.mapM f := by
  cases o <;> rfl

theorem map_attach (f : α → β) (p : Properties α) : (p.attach.map fun c => f c.1) = p.map f := by
  have hlist (l : List α) : (l.attach.mapIdx fun _ c => f c.1) = l.mapIdx fun _ => f :=
    List.ext_getElem (by simp) (by simp)
  cases p with
  | column p => exact congrArg (fun children => column ⟨children, _, _⟩) (hlist p.children)
  | row p => exact congrArg (fun children => row ⟨children, _, _⟩) (hlist p.children)
  | box p => exact congrArg (fun children => box ⟨children, _⟩) (hlist p.children)
  | _ => simp [map, mapIdx, attach, mapIdx_const, Function.comp_def]

theorem traverse_attach (f : α → Option β) (p : Properties α) :
    (p.attach.traverse fun c => f c.1) = p.traverse f := by
  have hlist (l : List α) : (l.attach.mapM fun c => f c.1) = l.mapM f := by
    rw [List.mapM_subtype (g := f) fun _ _ => rfl, List.unattach_attach]
  cases p with
  | column p =>
    exact congrArg (Option.bind · fun children => some (column ⟨children, _, _⟩))
      (hlist p.children)
  | row p =>
    exact congrArg (Option.bind · fun children => some (row ⟨children, _, _⟩)) (hlist p.children)
  | box p =>
    exact congrArg (Option.bind · fun children => some (box ⟨children, _⟩)) (hlist p.children)
  | _ => simp only [traverse, attach, mapM_attach, option_mapM_attach]

@[simp] theorem type_map (f : α → β) (p : Properties α) : (p.map f).type = p.type := by
  cases p <;> rfl

@[simp] theorem tag_map (f : α → β) (p : Properties α) : (p.map f).tag = p.tag := by
  rw [tag, tag, type_map]

@[simp] theorem children_map (f : α → β) (p : Properties α) :
    (p.map f).children = p.children.map f := by
  cases p <;> simp [map, mapIdx, children, mapIdx_const, Option.toList_map]

@[simp] theorem placedChildren_map (f : α → β) (p : Properties α) :
    (p.map f).placedChildren = p.placedChildren.map fun child => (child.1, f child.2) := by
  cases p <;>
    simp [map, mapIdx, placedChildren, mapIdx_const, slot, listed, List.zipIdx_map,
      Option.toList_map, Function.comp_def]

theorem option_mapM_map_congr {f : β → Option γ} {g : α → β} {k : α → Option γ} {o : Option α}
    (h : ∀ a ∈ o, f (g a) = k a) : (o.map g).mapM f = o.mapM k := by
  cases o with
  | none => rfl
  | some a => simp [h a rfl]

theorem traverse_map_congr {f : β → Option γ} {g : α → β} {k : α → Option γ} {p : Properties α}
    (h : ∀ c ∈ p.children, f (g c) = k c) : (p.map g).traverse f = p.traverse k := by
  cases p with
  | column p => simp [map, mapIdx, traverse, mapIdx_const, mapM_map_congr (l := p.children) h]
  | row p => simp [map, mapIdx, traverse, mapIdx_const, mapM_map_congr (l := p.children) h]
  | box p => simp [map, mapIdx, traverse, mapIdx_const, mapM_map_congr (l := p.children) h]
  | button p =>
    simp only [children, Option.mem_toList] at h
    simp [map, mapIdx, traverse, option_mapM_map_congr h]
  | card p =>
    simp only [children, Option.mem_toList] at h
    simp [map, mapIdx, traverse, option_mapM_map_congr h]
  | scaffold p =>
    obtain ⟨htop, hbottom, hchild⟩ := forall_children_scaffold.mp h
    simp [map, mapIdx, traverse, option_mapM_map_congr htop, option_mapM_map_congr hbottom,
      option_mapM_map_congr hchild]
  | topAppBar p =>
    obtain ⟨htitle, hicon, hactions⟩ := forall_children_topAppBar.mp h
    simp [map, mapIdx, traverse, mapIdx_const, option_mapM_map_congr htitle,
      option_mapM_map_congr hicon, mapM_map_congr hactions]
  | alertDialog p =>
    obtain ⟨htitle, htext, hconfirm, hdismiss⟩ := forall_children_alertDialog.mp h
    simp [map, mapIdx, traverse, option_mapM_map_congr htitle, option_mapM_map_congr htext,
      option_mapM_map_congr hconfirm, option_mapM_map_congr hdismiss]
  | _ => rfl

theorem traverse_some (p : Properties α) : p.traverse some = some p := by
  have hlist (l : List α) : l.mapM some = some l :=
    List.mapM_pure.trans (congrArg some (List.map_id' l))
  have hoption (o : Option α) : o.mapM some = some o := by cases o <;> rfl
  cases p <;> simp [traverse, hlist, hoption]

theorem traverse_map_eq_some {f : β → Option α} {g : α → β} {p : Properties α}
    (h : ∀ c ∈ p.children, f (g c) = some c) : (p.map g).traverse f = some p := by
  rw [traverse_map_congr h, traverse_some]

@[simp] theorem filled_nil : filled ([] : List (Option α)) = 0 := rfl

@[simp] theorem filled_cons (o : Option α) (slots : List (Option α)) :
    filled (o :: slots) = o.isSome.toNat + filled slots := by
  cases o <;> simp [filled, Nat.add_comm]

theorem mapIdx_mapIdx (f : Nat → α → β) (g : Nat → β → γ) (p : Properties α) :
    (p.mapIdx f).mapIdx g = p.mapIdx fun i c => g i (f i c) := by
  cases p <;> simp [mapIdx, List.mapIdx_mapIdx, Function.comp_def]

theorem map_map (g : β → γ) (f : α → β) (p : Properties α) :
    (p.map f).map g = p.map (g ∘ f) :=
  p.mapIdx_mapIdx (fun _ => f) fun _ => g

theorem isSome_of_mapM {f : α → Option β} {l : List α} {results : List β}
    (h : l.mapM f = some results) : ∀ a ∈ l, (f a).isSome := by
  induction l generalizing results with
  | nil => exact List.forall_mem_nil _
  | cons a l ih =>
    simp only [List.mapM_cons, Option.bind_eq_bind, Option.bind_eq_some_iff] at h
    obtain ⟨b, hb, rest, hrest, -⟩ := h
    exact List.forall_mem_cons.mpr ⟨by rw [hb]; rfl, ih hrest⟩

theorem isSome_of_option_mapM {f : α → Option β} {o : Option α} {result : Option β}
    (h : o.mapM f = some result) : ∀ a ∈ o, (f a).isSome := by
  rintro a rfl
  cases ha : f a with
  | none => simp [ha] at h
  | some b => rfl

theorem isSome_of_traverse {f : α → Option β} {p : Properties α} {q : Properties β}
    (h : p.traverse f = some q) : ∀ c ∈ p.children, (f c).isSome := by
  cases p <;>
    simp only [traverse, Option.bind_eq_bind, Option.bind_eq_some_iff] at h
  case column | row | box =>
    obtain ⟨children, hchildren, -⟩ := h
    exact isSome_of_mapM hchildren
  case button | card =>
    obtain ⟨child, hchild, -⟩ := h
    simpa [children] using isSome_of_option_mapM hchild
  case scaffold =>
    obtain ⟨_, htop, _, hbottom, _, hchild, -⟩ := h
    exact forall_children_scaffold.mpr ⟨isSome_of_option_mapM htop,
      isSome_of_option_mapM hbottom, isSome_of_option_mapM hchild⟩
  case topAppBar =>
    obtain ⟨_, htitle, _, hicon, _, hactions, -⟩ := h
    exact forall_children_topAppBar.mpr ⟨isSome_of_option_mapM htitle,
      isSome_of_option_mapM hicon, isSome_of_mapM hactions⟩
  case alertDialog =>
    obtain ⟨_, htitle, _, htext, _, hconfirm, _, hdismiss, -⟩ := h
    exact forall_children_alertDialog.mpr ⟨isSome_of_option_mapM htitle,
      isSome_of_option_mapM htext, isSome_of_option_mapM hconfirm,
      isSome_of_option_mapM hdismiss⟩
  all_goals exact List.forall_mem_nil _

theorem traverse_eq_some_map [Inhabited β] {f : α → Option β} {p : Properties α}
    (h : ∀ c ∈ p.children, (f c).isSome) :
    p.traverse f = some (p.map fun c => (f c).getD default) := by
  rw [← traverse_some (p.map fun c => (f c).getD default)]
  refine (traverse_map_congr fun c hc => ?_).symm
  obtain ⟨b, hb⟩ := Option.isSome_iff_exists.mp (h c hc)
  rw [hb, Option.getD_some]

theorem exists_map_of_traverse [Inhabited β] {f : α → Option β} {p : Properties α}
    {q : Properties β} (h : p.traverse f = some q) :
    ∃ g : α → β, (∀ c ∈ p.children, f c = some (g c)) ∧ q = p.map g := by
  have hsome := isSome_of_traverse h
  refine ⟨fun c => (f c).getD default, fun c hc => ?_, ?_⟩
  · obtain ⟨b, hb⟩ := Option.isSome_iff_exists.mp (hsome c hc)
    simp [hb]
  · exact Option.some.inj (h.symm.trans (traverse_eq_some_map hsome))

end Properties

end ScreenDoc
