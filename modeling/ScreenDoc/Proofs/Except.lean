import ScreenDoc.DecodeError

/-!
# Results that may be failures

A chain of readers succeeds when each of them does. `Except.toOption` forgets why a chain failed,
so that a reader with many kinds of failure can be compared with one that only says whether it
succeeds. A guarded reader is the reader on texts that are not blank.
-/

namespace ScreenDoc

variable {ε α β : Type}

theorem bind_eq_ok {x : Except ε α} {f : α → Except ε β} {b : β} :
    (x >>= f) = .ok b ↔ ∃ a, x = .ok a ∧ f a = .ok b := by
  cases x with
  | error e => simp [bind, Except.bind]
  | ok a => simp [bind, Except.bind]

theorem map_eq_ok {x : Except ε α} {f : α → β} {b : β} :
    x.map f = .ok b ↔ ∃ a, x = .ok a ∧ f a = b := by
  cases x with
  | error e => simp [Except.map]
  | ok a => simp [Except.map]

@[simp] theorem toOption_ok (a : α) : (Except.ok a : Except ε α).toOption = some a := rfl

@[simp] theorem toOption_error (e : ε) : (Except.error e : Except ε α).toOption = none := rfl

@[simp] theorem toOption_bind (x : Except ε α) (f : α → Except ε β) :
    (x >>= f).toOption = x.toOption >>= fun a => (f a).toOption := by
  cases x <;> rfl

@[simp] theorem toOption_map (x : Except ε α) (f : α → β) :
    (x.map f).toOption = x.toOption.map f := by
  cases x <;> rfl

theorem toOption_eq_some {x : Except ε α} {a : α} : x.toOption = some a ↔ x = .ok a := by
  cases x <;> simp

theorem DecodeError.guard_eq_ok {text : String} {read : String → Except Failure α}
    {a : α} (h : guard text read = .ok a) : Text.isBlank text = false ∧ read text = .ok a := by
  unfold guard at h
  split at h
  · cases h
  · rename_i hblank
    refine ⟨by simpa using hblank, ?_⟩
    cases hread : read text with
    | error failure =>
      rw [hread] at h
      cases h
    | ok b =>
      rw [hread] at h
      cases h
      rfl

end ScreenDoc
