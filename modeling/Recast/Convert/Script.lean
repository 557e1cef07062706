import Recast.Code.Instr
import Recast.Convert.Error

/-!
# Scripts

A script is the plan of a conversion: the steps to take in order, and what becomes of it, a
result or an error. The steps that precede an error are part of the plan.

A plan is made before any code exists. So its steps name scratch locals by the representation
they hold, texts by themselves, and the two branch targets of a test for null by their role;
slots, indices and labels are chosen when the plan is carried out.

* `Script.steps_bind` and `Script.result_bind` say how plans are chained;
* scripts form a lawful monad.
-/

namespace Recast

/-- A step of a plan. -/
inductive Step where
  /-- Emit an instruction. -/
  | emit (i : Instr)
  /-- Push a text. -/
  | text (s : String)
  /-- Call a routine of the program by name. -/
  | invoke (routine : String) (returnsValue : Bool)
  /-- Take hold of the scratch local of a representation. -/
  | reserve (r : Rep)
  /-- Store the top operand in the scratch local of its representation. -/
  | store (r : Rep)
  /-- Push the address of the scratch local of a representation. -/
  | address (r : Rep)
  /-- Make two branch targets, for the absent value and for the end. -/
  | fork
  /-- Branch to the absent value if the top operand is false. -/
  | brAbsent
  /-- Branch to the end. -/
  | brEnd
  /-- Here the absent value is dealt with. -/
  | markAbsent
  /-- Here both ways meet. -/
  | markEnd
  deriving DecidableEq

/-- The plan of a conversion. -/
structure Script (α : Type) where
  /-- The steps to take. -/
  steps : List Step
  /-- What becomes of it after the last step. -/
  result : Except ConvertError α

namespace Script

variable {α β : Type}

/-- The plan with no step. -/
protected def pure (a : α) : Script α := ⟨[], .ok a⟩

/-- One plan after another; an error ends both. -/
protected def bind (s : Script α) (f : α → Script β) : Script β :=
  match s.result with
  | .ok a => ⟨s.steps ++ (f a).steps, (f a).result⟩
  | .error e => ⟨s.steps, .error e⟩

instance : Monad Script where
  pure := Script.pure
  bind := Script.bind

/-- The plan of one step. -/
def step (t : Step) : Script Unit := ⟨[t], .ok ()⟩

/-- The plan that ends in an error at once. -/
def fail (e : ConvertError) : Script α := ⟨[], .error e⟩

/-- The same plan with another account of its error. -/
def mapError (f : ConvertError → ConvertError) (s : Script α) : Script α :=
  ⟨s.steps, s.result.mapError f⟩

/-- Emit an instruction. -/
def emit (i : Instr) : Script Unit := step (.emit i)

/-- Push a text. -/
def text (s : String) : Script Rep := do
  step (.text s)
  return .text

/-- Drop a value of the given representation. -/
def drop (r : Rep) : Script Unit := if r = .void then return else emit .pop

/-- Move the value on the stack to its scratch local and push the address in its place. -/
def spill (r : Rep) : Script Unit := do
  step (.store r)
  step (.address r)

/-- Negate the truth value on the stack. -/
def negate : Script Unit := do
  emit (.ldcI4 0)
  emit .ceq

/-! ### Chaining plans -/

@[simp]
theorem steps_pure (a : α) : (pure a : Script α).steps = [] := rfl

@[simp]
theorem result_pure (a : α) : (pure a : Script α).result = .ok a := rfl

theorem steps_bind (s : Script α) (f : α → Script β) :
    (s >>= f).steps =
      s.steps ++ match s.result with
        | .ok a => (f a).steps
        | .error _ => [] := by
  change (Script.bind s f).steps = _
  unfold Script.bind
  cases s.result <;> simp

theorem result_bind (s : Script α) (f : α → Script β) :
    (s >>= f).result = s.result.bind fun a => (f a).result := by
  change (Script.bind s f).result = _
  unfold Script.bind
  cases s.result <;> rfl

@[simp]
theorem steps_step (t : Step) : (step t).steps = [t] := rfl

@[simp]
theorem result_step (t : Step) : (step t).result = .ok () := rfl

@[simp]
theorem steps_emit (i : Instr) : (emit i).steps = [.emit i] := rfl

@[simp]
theorem result_emit (i : Instr) : (emit i).result = .ok () := rfl

@[simp]
theorem steps_text (s : String) : (text s).steps = [.text s] := rfl

@[simp]
theorem result_text (s : String) : (text s).result = .ok .text := rfl

@[simp]
theorem steps_spill (r : Rep) : (spill r).steps = [.store r, .address r] := rfl

@[simp]
theorem result_spill (r : Rep) : (spill r).result = .ok () := rfl

theorem steps_drop (r : Rep) : (drop r).steps = if r = .void then [] else [.emit .pop] := by
  unfold drop
  split <;> rfl

@[simp]
theorem result_drop (r : Rep) : (drop r).result = .ok () := by
  unfold drop
  split <;> rfl

@[simp]
theorem steps_fail (e : ConvertError) : (fail e : Script α).steps = [] := rfl

@[simp]
theorem result_fail (e : ConvertError) : (fail e : Script α).result = .error e := rfl

@[simp]
theorem steps_mapError (f : ConvertError → ConvertError) (s : Script α) :
    (s.mapError f).steps = s.steps := rfl

@[simp]
theorem result_mapError (f : ConvertError → ConvertError) (s : Script α) :
    (s.mapError f).result = s.result.mapError f := rfl

@[ext]
theorem ext {s t : Script α} (hs : s.steps = t.steps) (hr : s.result = t.result) : s = t := by
  cases s
  cases t
  simp_all

private theorem map_id (s : Script α) : id <$> s = s := by
  change Script.bind s (fun a => Script.pure (id a)) = s
  obtain ⟨steps, result⟩ := s
  cases result <;> simp [Script.bind, Script.pure]

private theorem bind_assoc (s : Script α) (f : α → Script β) {γ : Type} (g : β → Script γ) :
    s >>= f >>= g = s >>= fun a => f a >>= g := by
  change Script.bind (Script.bind s f) g = Script.bind s fun a => Script.bind (f a) g
  obtain ⟨steps, result⟩ := s
  cases result with
  | error e => rfl
  | ok a =>
    simp only [Script.bind]
    cases (f a).result <;> simp

instance : LawfulMonad Script :=
  LawfulMonad.mk' _ map_id (fun _ _ => rfl) fun s f g => bind_assoc s f g

end Script

end Recast
