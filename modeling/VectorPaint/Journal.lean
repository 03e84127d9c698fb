/-
# Computations that keep a journal

A reader of markup leaves entries as it goes, a note here, a stroke there, and may be stopped by
a fault.  What it wrote before the fault still counts, so a journal is a pair: the entries in
order, and beside them the value or the fault.

Journals compose like computations: the entries of the first part come before those of the
second, and after a fault nothing more is written.
-/
import VectorPaint.Fault

namespace VectorPaint

/-- Entries in order, and the value or the fault at their end. -/
structure Journal (ε α : Type) where
  entries : List ε
  outcome : Except Fault α

namespace Journal

variable {ε δ α β : Type}

/-- A value without entries. -/
protected def pure (a : α) : Journal ε α := ⟨[], .ok a⟩

/-- One computation after another. -/
protected def bind (j : Journal ε α) (f : α → Journal ε β) : Journal ε β :=
  match j.outcome with
  | .ok a => ⟨j.entries ++ (f a).entries, (f a).outcome⟩
  | .error fault => ⟨j.entries, .error fault⟩

instance : Monad (Journal ε) where
  pure := Journal.pure
  bind := Journal.bind

/-- One entry. -/
def enter (e : ε) : Journal ε Unit := ⟨[e], .ok ()⟩

/-- Several entries. -/
def enterAll (es : List ε) : Journal ε Unit := ⟨es, .ok ()⟩

/-- A computation that writes nothing. -/
def lift (r : Except Fault α) : Journal ε α := ⟨[], r⟩

/-- The same computation with its entries put differently. -/
def mapEntries (f : ε → δ) (j : Journal ε α) : Journal δ α := ⟨j.entries.map f, j.outcome⟩

instance : MonadLift (Except Fault) (Journal ε) where
  monadLift := lift

@[simp] theorem pure_eq (a : α) : (pure a : Journal ε α) = ⟨[], .ok a⟩ := rfl

@[simp] theorem bind_ok (es : List ε) (a : α) (f : α → Journal ε β) :
    (⟨es, .ok a⟩ : Journal ε α) >>= f = ⟨es ++ (f a).entries, (f a).outcome⟩ := rfl

@[simp] theorem bind_error (es : List ε) (fault : Fault) (f : α → Journal ε β) :
    (⟨es, .error fault⟩ : Journal ε α) >>= f = ⟨es, .error fault⟩ := rfl

/-- The order of composition does not matter: entries are put one after the other. -/
theorem bind_assoc {γ : Type} (j : Journal ε α) (f : α → Journal ε β) (g : β → Journal ε γ) :
    (j >>= f) >>= g = j >>= fun a => f a >>= g := by
  obtain ⟨es, r⟩ := j
  cases r with
  | error fault => rfl
  | ok a =>
    rw [bind_ok, bind_ok]
    generalize f a = k
    obtain ⟨ks, s⟩ := k
    cases s with
    | error fault => rfl
    | ok b => simp [List.append_assoc]

/-- A composed computation has a value exactly when both parts have one. -/
theorem outcome_bind_eq_ok {j : Journal ε α} {f : α → Journal ε β} {b : β} :
    (j >>= f).outcome = .ok b ↔ ∃ a, j.outcome = .ok a ∧ (f a).outcome = .ok b := by
  obtain ⟨es, r⟩ := j
  cases r <;> simp

end Journal

end VectorPaint
