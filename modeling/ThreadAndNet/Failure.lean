import ThreadAndNet.Machine

/-!
# How a step of the library can end other than by returning
-/

namespace ZDQ

inductive Failure where
  /-- `ERR_EXIT(m)`: perror, then exit(EXIT_FAILURE). -/
  | exit (message : String)
  /-- A failed `assert`; the library is built as Debug. -/
  | assertion
  /-- The step would read or write through an invalid pointer, index or range. -/
  | undefined
  /-- The label is not a step the state offers. -/
  | disabled
deriving DecidableEq, Repr

theorem map_cases {S T : Type*} {o : Except Failure S} {f : S → T} {t : T}
    (h : o.map f = .ok t) : ∃ s, o = .ok s ∧ t = f s := by
  cases o with
  | error e => cases h
  | ok s =>
    cases h
    exact ⟨s, rfl, rfl⟩

/-- A step that only some states offer. -/
def offered {S : Type*} : Option S → Except Failure S
  | some s => .ok s
  | none => .error .disabled

theorem offered_cases {S T : Type*} {next : Option S} {f : S → T} {t : T}
    (h : (offered next).map f = .ok t) : ∃ s, next = some s ∧ t = f s := by
  obtain ⟨s, there, rfl⟩ := map_cases h
  cases next with
  | none => cases there
  | some s =>
    cases there
    exact ⟨s, rfl, rfl⟩

/-- A step that is only there under a condition. -/
def guarded {S : Type*} (c : Prop) [Decidable c] (s : S) : Except Failure S :=
  if c then .ok s else .error .disabled

@[simp] theorem guarded_ok {S : Type*} {c : Prop} [Decidable c] {s t : S} :
    guarded c s = .ok t ↔ c ∧ s = t := by
  rw [guarded]
  split <;> simp_all

theorem offered_ne_assertion {S T : Type*} (next : Option S) (f : S → T) :
    (offered next).map f ≠ .error .assertion := by
  cases next <;> exact nofun

end ZDQ
