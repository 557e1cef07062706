import Mathlib.Logic.Function.Basic
import Recast.Proofs.TypedPlans

/-!
# Running code

The machine that code is generated for, as far as conversions use it.  What the run-time makes of
the data that an instruction takes is a parameter, and so are the objects that only the run-time
looks into.

* `Machine.step` : one instruction;
* `Machine.run` : code; branches lead forward, so what they pass over is skipped;
* `Scope.Computes` : what a plan makes of the data on top of the stack, under every numbering;
* `Scope.computes_call` and `Scope.computes_callByAddress` : **a call makes of its operand what
  the run-time makes of it**, together with what the signature implies.
-/

namespace Recast

/-- The wider float of the same value. -/
def Binary32.toBinary64 (x : Binary32) : Binary64 :=
  ⟨.ofNat <| match x.decode with
    | .nan => Binary.double.quietNaN
    | .infinite negative => Binary.double.withSign negative Binary.double.infinity
    | .finite negative m e => Binary.double.withSign negative (Binary.double.round m e)⟩

/-! ### Data -/

/-- What a local or an operand is when code runs; truth values are 32-bit integers. -/
inductive Datum (O : Type) where
  /-- A 32-bit integer. -/
  | int32 (i : Int32)
  /-- A 64-bit integer. -/
  | int64 (i : Int64)
  /-- A 32-bit float. -/
  | float32 (x : Binary32)
  /-- A 64-bit float. -/
  | float64 (x : Binary64)
  /-- A text. -/
  | text (s : String)
  /-- The null reference. -/
  | null
  /-- What only the run-time looks into. -/
  | object (o : O)
  /-- The ambient context. -/
  | context
  /-- The type handle of a class, or of no class. -/
  | typeHandle (cls : Option ClassId)
  deriving DecidableEq

namespace Datum

variable {O : Type}

/-- A truth value. -/
def ofBool (b : Bool) : Datum O := .int32 (if b then 1 else 0)

/-- Keep the low 32 bits of an integer. -/
def toI4? : Datum O → Option (Datum O)
  | .int32 i => some (.int32 i)
  | .int64 i => some (.int32 i.toInt32)
  | _ => none

/-- Extend an integer by its sign. -/
def toI8? : Datum O → Option (Datum O)
  | .int32 i => some (.int64 i.toInt64)
  | .int64 i => some (.int64 i)
  | _ => none

/-- The nearest 64-bit float. -/
def toR8? : Datum O → Option (Datum O)
  | .int32 i => some (.float64 (.ofInt i.toInt))
  | .int64 i => some (.float64 (.ofInt i.toInt))
  | .float32 x => some (.float64 x.toBinary64)
  | .float64 x => some (.float64 x)
  | _ => none

/-- The nearest 32-bit float. -/
def toR4? : Datum O → Option (Datum O)
  | .float32 x => some (.float32 x)
  | .float64 x => some (.float32 x.toBinary32)
  | _ => none

/-- Compare for equality. -/
def eq? : Datum O → Datum O → Option Bool
  | .int32 i, .int32 j => some (i == j)
  | .int64 i, .int64 j => some (i == j)
  | _, _ => none

/-- Compare integers as unsigned ones; any reference is greater than null. -/
def gtUn? : Datum O → Datum O → Option Bool
  | .int32 i, .int32 j => some (decide (j.toUInt32 < i.toUInt32))
  | .int64 i, .int64 j => some (decide (j.toUInt64 < i.toUInt64))
  | .text _, .null | .object _, .null => some true
  | .null, .null => some false
  | _, _ => none

end Datum

/-- An entry of the stack: a datum, or the address of the local that holds one. -/
inductive Entry (O : Type) where
  /-- A datum. -/
  | datum (d : Datum O)
  /-- The address of a local. -/
  | address (slot : Nat)

/-- The datum that an entry leads to. -/
def Entry.resolve {O : Type} (locals : Nat → Datum O) : Entry O → Datum O
  | .datum d => d
  | .address slot => locals slot

/-- A run-time. -/
structure Runtime where
  /-- What only the run-time looks into. -/
  Object : Type
  /-- What the run-time makes of the data that an instruction takes, the receiver first.  It may
  fail. -/
  perform : Instr → List (Datum Object) → Option (Datum Object)

/-- The data of a run-time. -/
abbrev Runtime.Data (R : Runtime) : Type := Datum R.Object

/-! ### The machine -/

/-- The state of the machine. -/
structure Machine (O : Type) where
  /-- The operand stack, its top first. -/
  stack : List (Entry O)
  /-- What the locals hold, by slot. -/
  locals : Nat → Datum O
  /-- The label that a branch leads to, until it is reached. -/
  seeking : Option Label

namespace Machine

section Moves

variable {O : Type} (M : Machine O)

/-- Push an entry. -/
def push (e : Entry O) : Machine O := { M with stack := e :: M.stack }

/-- Pop a datum. -/
def pop? : Option (Datum O × Machine O) :=
  match M.stack with
  | .datum d :: σ => some (d, { M with stack := σ })
  | _ => none

/-- Replace the top datum. -/
def unary? (f : Datum O → Option (Datum O)) : Option (Machine O) :=
  M.pop?.bind fun (d, M) => (f d).map fun d' => M.push (.datum d')

/-- Replace the two top data by a truth value. -/
def compare? (f : Datum O → Datum O → Option Bool) : Option (Machine O) :=
  M.pop?.bind fun (b, M) => M.pop?.bind fun (a, M) =>
    (f a b).map fun r => M.push (.datum (.ofBool r))

end Moves

variable (R : Runtime) (C : Catalog) (texts : Array String)

/-- Leave an instruction to the run-time. -/
def callRuntime (i : Instr) (M : Machine R.Object) : Option (Machine R.Object) :=
  let (pops, pushes) := i.effect C M.stack.length
  if M.stack.length < pops then none
  else
    (R.perform i ((M.stack.take pops).reverse.map (·.resolve M.locals))).map fun d =>
      { M with stack := (if pushes = 0 then [] else [.datum d]) ++ M.stack.drop pops }

/-- Execute an instruction.  Conversions neither touch arguments nor leave the method. -/
def execute (i : Instr) (M : Machine R.Object) : Option (Machine R.Object) :=
  match i with
  | .nop | .mark _ => some M
  | .pop => M.pop?.map Prod.snd
  | .dup => M.pop?.map fun p => M.push (.datum p.1)
  | .ldNull => some (M.push (.datum .null))
  | .ldcI4 i => some (M.push (.datum (.int32 i)))
  | .ldcI8 i => some (M.push (.datum (.int64 i)))
  | .ldcR4 x => some (M.push (.datum (.float32 x)))
  | .ldcR8 x => some (M.push (.datum (.float64 x)))
  | .ldStr j => texts[j]?.map fun s => M.push (.datum (.text s))
  | .ldLoc slot => some (M.push (.datum (M.locals slot)))
  | .ldLocA slot => some (M.push (.address slot))
  | .stLoc slot => M.pop?.map fun p =>
    { p.2 with locals := Function.update M.locals slot p.1 }
  | .ldContext => some (M.push (.datum .context))
  | .ldTypeHandle cls => some (M.push (.datum (.typeHandle cls)))
  | .convI4 => M.unary? Datum.toI4?
  | .convI8 => M.unary? Datum.toI8?
  | .convR4 => M.unary? Datum.toR4?
  | .convR8 => M.unary? Datum.toR8?
  | .ceq => M.compare? Datum.eq?
  | .cgtUn => M.compare? Datum.gtUn?
  | .br l => some { M with seeking := some l }
  | .brFalse l => M.pop?.bind fun p =>
    match p.1 with
    | .int32 i => some (if i = 0 then { p.2 with seeking := some l } else p.2)
    | _ => none
  | .call _ | .callVirt _ | .newObj _ | .invoke .. | .box _ | .castClass _ | .isInst _
  | .newNullable _ | .hasValue _ | .getValue _ => callRuntime R C i M
  | .ldArg _ | .ldArgA _ | .ret => none

/-- Take an instruction: after a branch, all but its target are skipped. -/
def step (M : Machine R.Object) (i : Instr) : Option (Machine R.Object) :=
  match M.seeking with
  | none => execute R C texts i M
  | some l => some (if i = .mark l then { M with seeking := none } else M)

/-- Run code. -/
def run (code : List Instr) (M : Machine R.Object) : Option (Machine R.Object) :=
  code.foldlM (step R C texts) M

variable {R C texts}

@[simp]
theorem run_nil (M : Machine R.Object) : run R C texts [] M = some M := rfl

@[simp]
theorem run_cons (i : Instr) (code : List Instr) (M : Machine R.Object) :
    run R C texts (i :: code) M = (step R C texts M i).bind (run R C texts code) := rfl

theorem callRuntime_append {i : Instr} {popped σ : List (Entry R.Object)}
    {ρ : Nat → R.Data} (h : ∀ n, i.effect C n = (popped.length, 1)) :
    callRuntime R C i ⟨popped ++ σ, ρ, none⟩ =
      (R.perform i (popped.reverse.map (·.resolve ρ))).map fun d => ⟨.datum d :: σ, ρ, none⟩ := by
  have hpops : ¬(popped ++ σ).length < popped.length := by simp
  simp only [callRuntime, h, hpops, ↓reduceIte, List.take_left, List.drop_left, Nat.one_ne_zero,
    List.singleton_append]

theorem run_append (code code' : List Instr) (M : Machine R.Object) :
    run R C texts (code ++ code') M =
      (run R C texts code M).bind (run R C texts code') := List.foldlM_append

end Machine

/-! ### What plans compute -/

namespace Numbering

variable (N : Numbering)

theorem code_map_emit (code : List Instr) : N.code (code.map .emit) = code := by
  induction code with
  | nil => rfl
  | cons i code ih => exact congrArg (i :: ·) ih

end Numbering

/-- The datum that a parameter implies, if it implies one. -/
def Param.implied? {O : Type} (caller : Option ClassId) : Param → Option (Datum O)
  | .value _ => none
  | .context => some .context
  | .typeHandle => some (.typeHandle caller)

/-- The data that a signature implies, in order. -/
def Method.implied {O : Type} (m : Method) (caller : Option ClassId) : List (Datum O) :=
  m.params.filterMap (Param.implied? caller)

theorem Param.length_implied {O : Type} {ps : List Param} (caller : Option ClassId)
    (h : ps.all (·.implicit?.isSome) = true) :
    (ps.filterMap (Param.implied? (O := O) caller)).length = ps.length := by
  induction ps with
  | nil => rfl
  | cons p ps ih =>
    cases p with
    | value r => cases h
    | context | typeHandle => exact congrArg (· + 1) (ih h)

theorem Method.pops_of_demand {m : Method} {r : Rep} {O : Type} (caller : Option ClassId)
    (hd : m.demand? = some (.value r) ∨ m.demand? = some (.address r)) :
    m.pops = (m.implied caller : List (Datum O)).length + 1 := by
  -- all parameters are implied, but for one that stands for a receiver
  have hparams : ∃ ps : List Param, ps.all (·.implicit?.isSome) = true ∧
      m.pops = ps.length + 1 ∧ (m.params = ps ∨ ∃ q, m.params = .value q :: ps) := by
    unfold demand? at hd
    unfold pops
    split at hd
    case h_1 => rcases hd with hd | hd <;> cases hd
    case h_2 q ps hv hp | h_3 q ps hv hp =>
      have hps : ps.all (·.implicit?.isSome) = true := by
        by_contra h
        simp only [h, ↓reduceIte, reduceCtorEq, or_self] at hd
      exact ⟨ps, hps, by rw [hv, hp]; exact Nat.zero_add _, .inr ⟨q, hp⟩⟩
    case h_4 q hv | h_5 q hv =>
      have hps : m.params.all (·.implicit?.isSome) = true := by
        by_contra h
        simp only [h, ↓reduceIte, reduceCtorEq, or_self] at hd
      exact ⟨m.params, hps, by rw [hv]; exact Nat.add_comm _ _, .inl rfl⟩
    case h_6 => rcases hd with hd | hd <;> cases hd
  obtain ⟨ps, hps, hpops, hp | ⟨q, hp⟩⟩ := hparams
  · rw [hpops, implied, hp, Param.length_implied caller hps]
  · rw [hpops, implied, hp, List.filterMap_cons_none rfl, Param.length_implied caller hps]

namespace Scope

variable {S : Scope} {R : Runtime} {op : Op} {m : Method} {r : Rep}

section Calls

variable {texts : Array String} {σ : List (Entry R.Object)} {ρ : Nat → R.Data}

theorem run_implied (ps : List Param) :
    Machine.run R S.catalog texts (ps.filterMap S.implicitArg?) ⟨σ, ρ, none⟩ =
      some ⟨((ps.filterMap (Param.implied? S.caller)).map .datum).reverse ++ σ, ρ, none⟩ := by
  induction ps generalizing σ with
  | nil => rfl
  | cons p ps ih =>
    have pushes : ∀ (i : Instr) (d : R.Data),
        (∀ σ, Machine.step R S.catalog texts ⟨σ, ρ, none⟩ i = some ⟨.datum d :: σ, ρ, none⟩) →
        Machine.run R S.catalog texts (i :: ps.filterMap S.implicitArg?) ⟨σ, ρ, none⟩ =
          some ⟨((d :: ps.filterMap (Param.implied? S.caller)).map .datum).reverse ++ σ, ρ,
            none⟩ := by
      intro i d hi
      rw [Machine.run_cons, hi, Option.bind_some, ih, List.map_cons, List.reverse_cons,
        List.append_assoc]
      rfl
    cases p with
    | value q => exact ih
    | context => exact pushes .ldContext .context fun _ => rfl
    | typeHandle => exact pushes (.ldTypeHandle S.caller) (.typeHandle S.caller) fun _ => rfl

/-- A call is left to the run-time. -/
theorem step_callInstr (hm : S.catalog.get? op = some m) {args : List R.Data} {e : Entry R.Object}
    (hpops : m.pops = args.length + 1) (hr : m.returns ≠ .void) :
    Machine.step R S.catalog texts ⟨(args.map .datum).reverse ++ e :: σ, ρ, none⟩
        (m.callInstr op) =
      (R.perform (m.callInstr op) (e.resolve ρ :: args)).map fun d =>
        ⟨.datum d :: σ, ρ, none⟩ := by
  have hstep : ∀ M : Machine R.Object, M.seeking = none →
      Machine.step R S.catalog texts M (m.callInstr op) =
        Machine.callRuntime R S.catalog (m.callInstr op) M := by
    rintro ⟨σ, ρ, seeking⟩ ⟨⟩
    unfold Method.callInstr
    cases m.receiver <;> rfl
  -- what is popped is the operand and, above it, what is implied
  let popped := (args.map Entry.datum).reverse ++ [e]
  have hstack : (args.map Entry.datum).reverse ++ e :: σ = popped ++ σ := by simp [popped]
  have hresolve : popped.reverse.map (Entry.resolve ρ) = e.resolve ρ :: args := by
    simp [popped, Function.comp_def, Entry.resolve]
  have heffect : ∀ n, (m.callInstr op).effect S.catalog n = (popped.length, 1) := by
    have hpushes : m.pushes = 1 := if_neg hr
    have hlength : popped.length = m.pops := by simp [popped, hpops]
    intro n
    rw [hlength, ← hpushes]
    unfold Method.callInstr
    cases m.receiver <;> simp only [Instr.effect, hm]
  rw [hstep _ rfl, hstack, Machine.callRuntime_append heffect, hresolve]

/-- **What a call computes**: the run-time is given the operand that is demanded, and what the
signature implies. -/
theorem run_call (N : Numbering) {e : Entry R.Object} (hm : S.catalog.get? op = some m)
    (hd : m.demand? = some (.value r) ∨ m.demand? = some (.address r)) (hr : m.returns ≠ .void) :
    Machine.run R S.catalog texts (N.code (S.call op).steps) ⟨e :: σ, ρ, none⟩ =
      (R.perform (m.callInstr op) (e.resolve ρ :: m.implied S.caller)).map fun d =>
        ⟨.datum d :: σ, ρ, none⟩ := by
  have hcall : (S.call op).steps =
      (m.params.filterMap S.implicitArg? ++ [m.callInstr op]).map .emit := by
    simp only [call, hm]
  have hpops := Method.pops_of_demand (O := R.Object) S.caller hd
  rw [hcall, N.code_map_emit, Machine.run_append, run_implied, Option.bind_some,
    Machine.run_cons, ← Method.implied, step_callInstr hm hpops hr]
  cases R.perform (m.callInstr op) (e.resolve ρ :: m.implied S.caller) <;> rfl

end Calls

/-! ### Plans -/

section Computes

variable {α β : Type} {p : Script α} {f : α → Script β} {a : α} {d d' : R.Data}
  {ds ds' : List R.Data} {out : Option (List R.Data)}

variable (S R) in
/-- What a plan makes of the data on top of the stack, whatever lies below, under every numbering
that knows its texts.  It may use locals, and makes nothing if the run-time fails. -/
def Computes (p : Script α) (ds : List R.Data) (out : Option (List R.Data)) : Prop :=
  ∀ (N : Numbering) (texts : Array String) (σ : List (Entry R.Object)) (ρ : Nat → R.Data),
    (∀ t ∈ p.steps, ∀ x, t.interned? = some x → texts[N.text x]? = some x) →
    ∃ ρ', Machine.run R S.catalog texts (N.code p.steps) ⟨ds.map .datum ++ σ, ρ, none⟩ =
      out.map fun ds' => ⟨ds'.map .datum ++ σ, ρ', none⟩

theorem computes_pure (a : α) (ds : List R.Data) :
    S.Computes R (pure a : Script α) ds (some ds) :=
  fun _ _ _ ρ _ => ⟨ρ, rfl⟩

/-- What follows a plan computes on what the plan leaves. -/
theorem Computes.bind (h : S.Computes R p ds (some ds')) (hp : p.result = .ok a)
    (hf : S.Computes R (f a) ds' out) : S.Computes R (p >>= f) ds out := by
  intro N texts σ ρ htexts
  have hsteps : (p >>= f).steps = p.steps ++ (f a).steps := by rw [Script.steps_bind, hp]
  rw [hsteps] at htexts ⊢
  obtain ⟨ρ', hrun⟩ := h N texts σ ρ fun t ht => htexts t (List.mem_append_left _ ht)
  obtain ⟨ρ'', hrun'⟩ := hf (N.afterAll p.steps) texts σ ρ' fun t ht => by
    simpa using htexts t (List.mem_append_right _ ht)
  refine ⟨ρ'', ?_⟩
  rw [Numbering.code_append, Machine.run_append, hrun]
  exact hrun'

theorem Computes.returning (h : S.Computes R p ds out) (b : β) :
    S.Computes R (do let _ ← p; return b) ds out := by
  have hsteps : (p >>= fun _ => (pure b : Script β)).steps = p.steps := by
    rw [Script.steps_bind]
    cases p.result <;> exact List.append_nil _
  unfold Computes
  rw [hsteps]
  exact h

theorem computes_emit {i : Instr}
    (h : ∀ texts σ ρ, Machine.step R S.catalog texts ⟨ds.map .datum ++ σ, ρ, none⟩ i =
      out.map fun ds' => ⟨ds'.map .datum ++ σ, ρ, none⟩) :
    S.Computes R (.emit i) ds out := by
  intro N texts σ ρ _
  refine ⟨ρ, ?_⟩
  change (Machine.step R S.catalog texts _ i).bind _ = _
  rw [h]
  cases out <;> rfl

theorem computes_text (s : String) : S.Computes R (.text s) [] (some [.text s]) := by
  intro N texts σ ρ htexts
  have hs : texts[N.text s]? = some s := htexts _ List.mem_cons_self s rfl
  refine ⟨ρ, ?_⟩
  change ((texts[N.text s]?.map _).bind _) = _
  rw [hs]
  rfl

theorem computes_call_nothing (hm : S.catalog.get? op = some m)
    (hd : m.demand? = some .nothing) (hr : m.returns ≠ .void) :
    S.Computes R (S.call op) [] ((R.perform (.call op) []).map ([·])) := by
  have hstatic : m.receiver = .static ∧ m.params = [] := by
    unfold Method.demand? at hd
    split at hd
    case h_1 hv hp => exact ⟨hv, hp⟩
    case h_6 => cases hd
    all_goals
      split_ifs at hd
      cases hd
  have hcall : S.call op = ⟨[.emit (.call op)], .ok m.returns⟩ := by
    simp only [call, hm, hstatic.2, List.filterMap_nil, List.nil_append, Method.callInstr,
      hstatic.1, List.map_cons, List.map_nil]
  have heffect : ∀ n, (Instr.call op).effect S.catalog n =
      (([] : List (Entry R.Object)).length, 1) := by
    intro n
    have hpushes : m.pushes = 1 := if_neg hr
    simp only [Instr.effect, hm, Method.pops, hstatic, hpushes, List.length_nil]
  rw [hcall]
  refine computes_emit fun texts σ ρ => (Machine.callRuntime_append heffect).trans ?_
  rw [Option.map_map]
  rfl

theorem computes_call (hm : S.catalog.get? op = some m) (hd : m.demand? = some (.value r))
    (hr : m.returns ≠ .void) (d : R.Data) :
    S.Computes R (S.call op) [d]
      ((R.perform (m.callInstr op) (d :: m.implied S.caller)).map ([·])) := by
  intro N texts σ ρ _
  refine ⟨ρ, (run_call N hm (.inl hd) hr).trans ?_⟩
  rw [Option.map_map]
  rfl

theorem computes_callByAddress (hm : S.catalog.get? op = some m)
    (hd : m.demand? = some (.address r)) (hr : m.returns ≠ .void) (q : Rep) (d : R.Data) :
    S.Computes R (S.callByAddress q op) [d]
      ((R.perform (m.callInstr op) (d :: m.implied S.caller)).map ([·])) := by
  intro N texts σ ρ _
  refine ⟨Function.update ρ (N.slot q) d, ?_⟩
  change Machine.run R S.catalog texts (N.code (S.call op).steps)
    ⟨.address (N.slot q) :: σ, Function.update ρ (N.slot q) d, none⟩ = _
  rw [run_call N hm (.inr hd) hr, Entry.resolve, Function.update_self, Option.map_map]
  rfl

end Computes

end Scope

end Recast
