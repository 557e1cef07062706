import Recast.Proofs.Steps
import Recast.Request

/-!
# What is common to all plans

A plan is put together from calls, instructions, texts and the plans of other conversions, one
after another.  Whatever relation between plans these constructions respect holds between the
plans that two scopes make of the same request, whatever their catalogs bind.  So a law about all
plans is proved once for each construction, and not once for each rule.

What a place emits is its own affair, and so is a call of the program: the plan for an expression
opens with either, if it reads the place or calls the routine, and the relation holds of what
follows.

* `Scope.Congruence` : the constructions of plans;
* `Scope.reshapeExpr_eq` : an expression is evaluated, unless that is spared;
* `Scope.Congruence.reshape` : **they are enough for every conversion** of a value;
* `Scope.Congruence.reshapeExpr` : and for every conversion of an expression;
* `Request.continues_plan?` : and for every request, where the relation is about steps alone.
-/

namespace Recast

/-! ### Openings -/

/-- What a place may emit of its own accord: nothing, its value or its address. -/
def Place.own (p : Place) : List (Script Rep) := [return .void, p.load, p.loadAddress]

/-- The call of a routine of the program. -/
def Script.invoke (routine : String) (returns : Rep) : Script Rep := do
  .step (.invoke routine (returns != .void))
  return returns

/-- What may be emitted of its own accord for an expression: what its place emits, or the call of
its routine. -/
def Expr.own (e : Expr) : List (Script Rep) :=
  match e.kind with
  | .literal _ => [return .void]
  | .load p => p.own
  | .invoke routine returns => [return .void, .invoke routine returns]

theorem Place.load_mem_own (p : Place) : p.load ∈ p.own := by simp [own]

theorem Place.loadAddress_mem_own (p : Place) : p.loadAddress ∈ p.own := by simp [own]

theorem Place.return_mem_own (p : Place) : (return .void) ∈ p.own := List.mem_cons_self

theorem Expr.return_mem_own (e : Expr) : (return .void) ∈ e.own := by
  unfold own
  split <;> exact List.mem_cons_self

/-- What reading a place begins with: its value is loaded, or its address. -/
def Place.accesses (p : Place) : List (Script Rep) := [p.load, p.loadAddress]

/-- What evaluating an expression begins with: its place is read, or its routine called. -/
def Expr.sources (e : Expr) : List (Script Rep) :=
  match e.kind with
  | .literal _ => [return .void]
  | .load p => p.accesses
  | .invoke routine returns => [.invoke routine returns]

theorem Place.accesses_subset_own (p : Place) : p.accesses ⊆ p.own := List.subset_cons_self _ _

theorem Expr.sources_subset_own (e : Expr) : e.sources ⊆ e.own := by
  unfold sources own
  cases e.kind with
  | literal c => exact List.Subset.refl _
  | load p => exact p.accesses_subset_own
  | invoke routine returns => exact List.subset_cons_self _ _

/-! ### Instructions of its own accord -/

namespace Instr

/-- The instruction pushes a constant, or acts on what is on top of the stack: it names nothing by
a number, calls nothing, takes nothing out of a nullable, and goes on. -/
def actsOnTop : Instr → Bool
  | pop | ldNull | ldcI4 _ | ldcI8 _ | ldcR4 _ | ldcR8 _ => true
  | convI4 | convI8 | convR4 | convR8 | ceq | cgtUn => true
  | box _ | castClass _ | isInst _ | newNullable _ => true
  | _ => false

theorem isNumbered_of_actsOnTop {i : Instr} (h : i.actsOnTop = true) : i.isNumbered = false := by
  cases i <;> first | rfl | cases h

theorem op?_of_actsOnTop {i : Instr} (h : i.actsOnTop = true) : i.op? = none := by
  cases i <;> first | rfl | cases h

end Instr

namespace Scope

/-! ### Constructions of plans -/

/-- A relation between plans in two scopes that all constructions of plans respect. -/
structure Congruence (S S' : Scope) (P : (α : Type) → Script α → Script α → Prop) : Prop where
  /-- Both scopes have the same classes. -/
  classes : S'.classes = S.classes
  /-- Nothing is done. -/
  pure : ∀ {α : Type} (a : α), P α (pure a) (pure a)
  /-- A conversion is refused. -/
  fail : ∀ {α : Type} (e : ConvertError), P α (.fail e) (.fail e)
  /-- One thing is done after another. -/
  bind : ∀ {α β : Type} {p p' : Script α} {f f' : α → Script β}, P α p p' →
    (∀ a, P β (f a) (f' a)) → P β (p >>= f) (p' >>= f')
  /-- An instruction that acts on the operands alone. -/
  emit : ∀ i : Instr, i.actsOnTop = true → P Unit (.emit i) (.emit i)
  /-- A text. -/
  text : ∀ s : String, P Rep (.text s) (.text s)
  /-- A call. -/
  call : ∀ op, P Rep (S.call op) (S'.call op)
  /-- A call on the address of a value, of an operation that takes it. -/
  callByAddress : ∀ r op, op.standard.receiver = .address r →
    P Rep (S.callByAddress r op) (S'.callByAddress r op)
  /-- A nullable, whose payload is put into the dynamic union without branches. -/
  nullable : ∀ n (p : Payload),
    P Rep (S.reshapeAt n p.rep .empty .value) (S'.reshapeAt n p.rep .empty .value) →
    P Rep (S.nullableToValue (S.reshapeAt n) p) (S'.nullableToValue (S'.reshapeAt n) p)

/-- A kind of step sequence that all constructions of plans keep to. -/
theorem Congruence.ofSteps {S : Scope} {R : List Step → Prop} (nil : R [])
    (append : ∀ {ts us}, R ts → R us → R (ts ++ us))
    (emit : ∀ i : Instr, i.actsOnTop = true → R [.emit i])
    (text : ∀ s, R [.text s])
    (call : ∀ op, R (S.call op).steps)
    (callByAddress : ∀ r op, op.standard.receiver = .address r → R (S.callByAddress r op).steps)
    (nullable : ∀ n (p : Payload), R (S.reshapeAt n p.rep .empty .value).steps →
      R (S.nullableToValue (S.reshapeAt n) p).steps) :
    S.Congruence S fun _ p _ => R p.steps where
  classes := rfl
  pure _ := nil
  fail _ := nil
  bind := by
    intro α β p p' f f' hp hf
    rw [Script.steps_bind]
    refine append hp ?_
    cases p.result with
    | ok a => exact hf a
    | error e => exact nil
  emit := emit
  text := text
  call := call
  callByAddress := callByAddress
  nullable := nullable

/-- Calls are made of instructions without numbers. -/
theorem exists_emit_of_mem_call {S : Scope} {op : Op} {t : Step} (ht : t ∈ (S.call op).steps) :
    ∃ i : Instr, t = .emit i ∧ i.isNumbered = false := by
  unfold call at ht
  cases hm : S.catalog.get? op with
  | none =>
    rw [hm] at ht
    cases ht
  | some m =>
    rw [hm] at ht
    obtain ⟨i, hi, rfl⟩ := List.mem_map.1 ht
    refine ⟨i, rfl, ?_⟩
    rcases List.mem_append.1 hi with hi | hi
    · obtain ⟨param, -, hparam⟩ := List.mem_filterMap.1 hi
      cases param <;> cases hparam <;> rfl
    · rw [List.mem_singleton.1 hi]
      unfold Method.callInstr
      split <;> rfl

theorem all_call {S : Scope} {q : Step → Bool}
    (emit : ∀ i : Instr, i.isNumbered = false → q (.emit i) = true) (op : Op) :
    (S.call op).all q = true := by
  refine Script.all_iff.2 fun t ht => ?_
  obtain ⟨i, rfl, hi⟩ := exists_emit_of_mem_call ht
  exact emit i hi

/-- A kind of steps that all constructions of plans keep to. -/
theorem Congruence.ofAll {S : Scope} {q : Step → Bool}
    (emit : ∀ i : Instr, i.isNumbered = false → q (.emit i) = true)
    (text : ∀ s, q (.text s) = true)
    (spill : ∀ r (op : Op), op.standard.receiver = .address r →
      [.store r, .address r].all q = true)
    (ways : ∀ p, [.reserve (.nullable p), .fork, .store (.nullable p), .address (.nullable p),
      .brAbsent, .brEnd, .markAbsent, .markEnd].all q = true) :
    S.Congruence S fun _ p _ => p.all q = true := by
  refine .ofSteps (R := fun ts => ts.all q = true) rfl (fun hts hus => ?_)
    (fun i hi => ?_) (fun s => ?_) (all_call emit) (fun r op hop => ?_) fun n p hpayload => ?_
  · rw [List.all_append, hts, hus, Bool.and_self]
  · simp [emit i (Instr.isNumbered_of_actsOnTop hi)]
  · simp [text s]
  · exact Script.all_bind (spill r op hop) fun _ _ => all_call emit op
  · have hways := List.all_eq_true.1 (ways p)
    simp only [List.forall_mem_cons] at hways
    obtain ⟨hreserve, hfork, hstore, haddress, habsent, hend, hmark, hmarkEnd, -⟩ := hways
    have step : ∀ {t}, q t = true → (Script.step t).all q = true := fun ht => by
      simp [Script.all, ht]
    have hemit : ∀ i : Instr, i.isNumbered = false → (Script.emit i).all q = true :=
      fun i hi => step (emit i hi)
    exact Script.all_bind (step hreserve) fun _ _ => Script.all_bind (step hfork) fun _ _ =>
      Script.all_bind (step hstore) fun _ _ => Script.all_bind (step haddress) fun _ _ =>
      Script.all_bind (hemit _ rfl) fun _ _ => Script.all_bind (step habsent) fun _ _ =>
      Script.all_bind (step haddress) fun _ _ => Script.all_bind (hemit _ rfl) fun _ _ =>
      Script.all_bind hpayload fun _ _ => Script.all_bind (step hend) fun _ _ =>
      Script.all_bind (step hmark) fun _ _ =>
      Script.all_bind (Script.all_bind (all_call emit _) fun _ _ => rfl) fun _ _ =>
      Script.all_bind (step hmarkEnd) fun _ _ => rfl

/-- Two laws are one. -/
theorem Congruence.and {S S' : Scope} {P Q : (α : Type) → Script α → Script α → Prop}
    (hP : S.Congruence S' P) (hQ : S.Congruence S' Q) :
    S.Congruence S' fun α p p' => P α p p' ∧ Q α p p' where
  classes := hP.classes
  pure a := ⟨hP.pure a, hQ.pure a⟩
  fail e := ⟨hP.fail e, hQ.fail e⟩
  bind hp hf := ⟨hP.bind hp.1 fun a => (hf a).1, hQ.bind hp.2 fun a => (hf a).2⟩
  emit i hi := ⟨hP.emit i hi, hQ.emit i hi⟩
  text s := ⟨hP.text s, hQ.text s⟩
  call op := ⟨hP.call op, hQ.call op⟩
  callByAddress r op hop := ⟨hP.callByAddress r op hop, hQ.callByAddress r op hop⟩
  nullable n p h := ⟨hP.nullable n p h.1, hQ.nullable n p h.2⟩

variable {S S' : Scope} {P : (α : Type) → Script α → Script α → Prop} {α β : Type}

namespace Congruence

variable (h : S.Congruence S' P)

include h

/-! ### Constructions made of others -/

theorem seq {p p' : Script α} {q q' : Script β} (hp : P α p p') (hq : P β q q') :
    P β (p >>= fun _ => q) (p' >>= fun _ => q') :=
  h.bind hp fun _ => hq

/-- To name the result changes nothing. -/
theorem returning {p p' : Script α} (hp : P α p p') (b : β) :
    P β (do let _ ← p; return b) (do let _ ← p'; return b) :=
  h.bind hp fun _ => h.pure b

theorem map {p p' : Script α} (hp : P α p p') (f : α → β) : P β (f <$> p) (f <$> p') :=
  h.bind hp fun a => h.pure (f a)

theorem apply (op : Op) : P Unit (S.apply op) (S'.apply op) := h.returning (h.call op) ()

theorem applyByAddress {r : Rep} {op : Op} (hop : op.standard.receiver = .address r) :
    P Unit (S.applyByAddress r op) (S'.applyByAddress r op) :=
  h.returning (h.callByAddress r op hop) ()

theorem drop (r : Rep) : P Unit (.drop r) (.drop r) := by
  unfold Script.drop
  split_ifs
  · exact h.pure ()
  · exact h.emit .pop rfl

theorem negate : P Unit .negate .negate := h.seq (h.emit _ rfl) (h.emit _ rfl)

theorem parseText (source : Rep) : P Rep (S.parseText source) (S'.parseText source) := by
  cases source with
  | text => exact h.call _
  | mutText => exact h.callByAddress _ _ rfl
  | _ => exact h.pure _

theorem dereference (source : Rep) : P Rep (S.dereference source) (S'.dereference source) := by
  unfold Scope.dereference
  split_ifs
  · exact h.call _
  · exact h.pure _

theorem widenInt (source : Rep) : P Rep (Scope.widenInt source) (Scope.widenInt source) := by
  cases source with
  | bool | int32 => exact h.returning (h.emit _ rfl) _
  | _ => exact h.pure _

theorem toArray (source : Rep) : P Rep (S.toArray source) (S'.toArray source) := by
  cases source with
  | void => exact h.returning (h.emit _ rfl) _
  | array => exact h.pure _
  | value => exact h.returning (h.applyByAddress rfl) _
  | text | «alias» | resource | callable | bytes | object _ =>
    exact h.returning (h.emit _ rfl) _
  | _ => exact h.seq (h.emit _ rfl) (h.returning (h.emit _ rfl) _)

theorem toObject (source target : Rep) :
    P Rep (S.toObject source target) (S'.toObject source target) := by
  unfold Scope.toObject
  split_ifs
  · exact h.seq (h.apply _) (h.returning (h.emit _ rfl) _)
  · exact h.returning (h.apply _) _
  · exact h.returning (h.emit _ rfl) _
  · exact h.seq (h.drop _) (h.returning (h.emit _ rfl) _)

theorem narrow? (source : Rep) (hint : Hint) :
    Option.Rel (P Rep) (S.narrow? source hint) (S'.narrow? source hint) := by
  unfold Scope.narrow?
  cases hop : accessor? source hint with
  | none => exact .none
  | some op => exact .some (h.callByAddress source op (standard_of_accessor? hop).1)

/-! ### Conversions into a target -/

section Targets

variable {n : Nat} (hn : ∀ source hint target,
  P Rep (S.reshapeAt n source hint target) (S'.reshapeAt n source hint target))

include hn

theorem toValue (source : Rep) :
    P Rep (S.toValue (S.reshapeAt n) source) (S'.toValue (S'.reshapeAt n) source) := by
  cases source with
  | int32 | float32 => exact h.seq (h.emit _ rfl) (h.call _)
  | char => exact h.seq (h.apply _) (h.call _)
  | value => exact h.pure _
  | nullable p => exact h.nullable n p (hn _ _ _)
  | _ => exact h.call _

theorem viaValue (source : Rep) {op : Op} (hop : op.standard.receiver = .address .value) :
    P Rep (S.viaValue (S.reshapeAt n) source op) (S'.viaValue (S'.reshapeAt n) source op) :=
  h.seq (h.toValue hn source) (h.callByAddress .value op hop)

theorem toBool (source : Rep) :
    P Rep (S.toBool (S.reshapeAt n) source) (S'.toBool (S'.reshapeAt n) source) := by
  cases source with
  | void => exact h.returning (h.emit _ rfl) _
  | bool => exact h.pure _
  | int32 | int64 | object _ | resource | callable | bytes =>
    exact h.seq (h.emit _ rfl) (h.returning (h.emit _ rfl) _)
  | float32 => exact h.seq (h.emit _ rfl) (h.returning (h.apply _) _)
  | char => exact h.seq (h.apply _) (h.returning (h.apply _) _)
  | float64 | text | array => exact h.returning (h.apply _) _
  | mutText | number | value => exact h.returning (h.applyByAddress rfl) _
  | key | «alias» | nullable _ => exact h.returning (h.viaValue hn _ rfl) _

theorem toLong (source : Rep) :
    P Rep (S.toLong (S.reshapeAt n) source) (S'.toLong (S'.reshapeAt n) source) := by
  cases source with
  | void | bool | int32 => exact h.returning (h.emit _ rfl) _
  | int64 => exact h.pure _
  | float32 => exact h.seq (h.emit _ rfl) (h.returning (h.apply _) _)
  | char => exact h.seq (h.apply _) (h.returning (h.apply _) _)
  | float64 | text => exact h.returning (h.apply _) _
  | mutText | number | value => exact h.returning (h.applyByAddress rfl) _
  | _ => exact h.returning (h.viaValue hn _ rfl) _

theorem toInt (source : Rep) :
    P Rep (S.toInt (S.reshapeAt n) source) (S'.toInt (S'.reshapeAt n) source) := by
  cases source with
  | void => exact h.returning (h.emit _ rfl) _
  | bool | int32 => exact h.pure _
  | _ => exact h.seq (h.toLong hn _) (h.returning (h.emit _ rfl) _)

theorem toDouble (source : Rep) :
    P Rep (S.toDouble (S.reshapeAt n) source) (S'.toDouble (S'.reshapeAt n) source) := by
  cases source with
  | void | bool | int32 | int64 | float32 => exact h.returning (h.emit _ rfl) _
  | float64 => exact h.pure _
  | char => exact h.seq (h.apply _) (h.returning (h.apply _) _)
  | text => exact h.returning (h.apply _) _
  | mutText | number | value => exact h.returning (h.applyByAddress rfl) _
  | _ => exact h.returning (h.viaValue hn _ rfl) _

theorem toNumber (source : Rep) :
    P Rep (S.toNumber (S.reshapeAt n) source) (S'.toNumber (S'.reshapeAt n) source) := by
  cases source with
  | void | int64 | float64 => exact h.returning (h.apply _) _
  | bool | int32 | float32 => exact h.seq (h.emit _ rfl) (h.returning (h.apply _) _)
  | char => exact h.seq (h.apply _) (h.returning (h.apply _) _)
  | text | mutText => exact h.returning (h.parseText _) _
  | number => exact h.pure _
  | value => exact h.returning (h.applyByAddress rfl) _
  | _ => exact h.returning (h.viaValue hn _ rfl) _

theorem toText (source : Rep) :
    P Rep (S.toText (S.reshapeAt n) source) (S'.toText (S'.reshapeAt n) source) := by
  cases source with
  | void => exact h.text ""
  | float32 => exact h.seq (h.emit _ rfl) (h.call _)
  | text => exact h.pure _
  | mutText | number | value => exact h.callByAddress _ _ rfl
  | array | key | «alias» | nullable _ => exact h.viaValue hn _ rfl
  | _ => exact h.call _

theorem toMutText (source : Rep) :
    P Rep (S.toMutText (S.reshapeAt n) source) (S'.toMutText (S'.reshapeAt n) source) := by
  cases source with
  | mutText => exact h.pure _
  | value => exact h.call _
  | _ => exact h.seq (h.toText hn _) (h.call _)

theorem toKey (source : Rep) :
    P Rep (S.toKey (S.reshapeAt n) source) (S'.toKey (S'.reshapeAt n) source) := by
  cases source with
  | int64 => exact h.seq (h.emit _ rfl) (h.call _)
  | int32 | text => exact h.call _
  | key => exact h.pure _
  | _ => exact h.seq (h.toValue hn _) (h.call _)

theorem toAlias (source : Rep) :
    P Rep (S.toAlias (S.reshapeAt n) source) (S'.toAlias (S'.reshapeAt n) source) := by
  cases source with
  | «alias» => exact h.pure _
  | value => exact h.callByAddress _ _ rfl
  | _ => exact h.seq (h.toValue hn _) (h.call _)

theorem toCallable (source : Rep) :
    P Rep (S.toCallable (S.reshapeAt n) source) (S'.toCallable (S'.reshapeAt n) source) := by
  cases source with
  | callable => exact h.pure _
  | text => exact h.call _
  | char | mutText => exact h.seq (h.toText hn _) (h.call _)
  | bool | int32 | int64 | float32 | float64 | number => exact h.fail _
  | _ => exact h.seq (h.toValue hn _) (h.call _)

theorem intoTarget (source : Rep) (hint : Hint) (target : Rep) :
    P Rep (S.intoTarget (S.reshapeAt n) source hint target)
      (S'.intoTarget (S'.reshapeAt n) source hint target) := by
  cases target with
  | void => exact h.pure _
  | bool => exact h.toBool hn source
  | int32 => exact h.toInt hn source
  | int64 => exact h.toLong hn source
  | float32 => exact h.seq (h.toDouble hn source) (h.returning (h.emit _ rfl) _)
  | float64 => exact h.toDouble hn source
  | number => exact h.toNumber hn source
  | char => exact h.seq (h.toText hn source) (h.call _)
  | text => exact h.toText hn source
  | mutText => exact h.toMutText hn source
  | value => exact h.toValue hn source
  | key => exact h.toKey hn source
  | array => exact h.toArray source
  | «alias» => exact h.toAlias hn source
  | callable => exact h.toCallable hn source
  | bytes => exact h.seq (hn _ _ _) (h.callByAddress _ _ rfl)
  | object cls => exact h.toObject source _
  | resource => exact h.toObject source _
  | nullable p => exact h.seq (hn _ _ _) (h.returning (h.emit _ rfl) _)

theorem reshapeBy (source : Rep) (hint : Hint) (target : Rep) :
    P Rep (S.reshapeBy (S.reshapeAt n) source hint target)
      (S'.reshapeBy (S'.reshapeAt n) source hint target) := by
  unfold Scope.reshapeBy
  rw [h.classes]
  split_ifs
  · exact h.pure _
  · exact h.returning (h.drop _) _
  · exact h.bind (h.call _) fun _ => hn _ _ _
  · exact h.pure _
  · have hnarrow := h.narrow? source hint
    generalize S.narrow? source hint = plan, S'.narrow? source hint = plan' at hnarrow ⊢
    cases hnarrow with
    | none => exact h.intoTarget hn source hint target
    | some hplan => exact h.bind hplan fun _ => hn _ _ _

end Targets

/-! ### Conversions of a value -/

/-- The relation holds however deep conversions may nest. -/
theorem reshapeAt (n : Nat) : ∀ source hint target,
    P Rep (S.reshapeAt n source hint target) (S'.reshapeAt n source hint target) := by
  induction n with
  | zero => exact fun _ _ _ => h.fail _
  | succ n hn => exact h.reshapeBy hn

/-- **Every conversion of a value** is put together from the constructions. -/
theorem reshape (source : Rep) (hint : Hint) (target : Rep) :
    P Rep (S.reshape source hint target) (S'.reshape source hint target) :=
  h.reshapeAt nesting source hint target

theorem asArray (source : Rep) : P Rep (S.asArray source) (S'.asArray source) := by
  refine h.bind (h.dereference source) fun inner => ?_
  cases inner with
  | array => exact h.pure _
  | value => exact h.returning (h.apply _) _
  | text | «alias» | resource | callable | bytes | object _ =>
    exact h.returning (h.emit _ rfl) _
  | _ => exact h.seq (h.drop _) (h.returning (h.emit _ rfl) _)

theorem asObject (source : Rep) : P Rep (S.asObject source) (S'.asObject source) := by
  refine h.bind (h.dereference source) fun inner => ?_
  cases inner with
  | object _ | callable => exact h.pure _
  | value => exact h.call _
  | _ => exact h.seq (h.drop _) (h.returning (h.emit _ rfl) _)

/-! ### Constants -/

theorem evaluateLiteral (c : Constant) :
    P Rep (S.evaluateLiteral c) (S'.evaluateLiteral c) := by
  cases c with
  | null => exact h.call _
  | text s => exact h.text s
  | _ => exact h.returning (h.emit _ rfl) _

theorem loadConstant? (c : Constant) (target : Rep) :
    Option.Rel (P Rep) (S.loadConstant? c target) (S'.loadConstant? c target) := by
  have load : ∀ i : Instr, i.actsOnTop = true →
      P Rep (Script.emit i >>= fun _ => return target) (Script.emit i >>= fun _ => return target) :=
    fun i hi => h.returning (h.emit i hi) target
  cases c with
  | null =>
    cases target with
    | value => exact .some (h.returning (h.apply _) _)
    | text => exact .some (h.returning (h.returning (h.text _) _) _)
    | array | object _ | resource | callable | bool | int32 | int64 | float64 =>
      exact .some (load _ rfl)
    | _ => exact .none
  | bool b =>
    cases target with
    | value => exact .some (h.returning (h.apply _) _)
    | text => exact .some (h.returning (h.returning (h.text _) _) _)
    | bool | int32 | int64 | float64 => exact .some (load _ rfl)
    | _ => exact .none
  | long i =>
    cases target with
    | text => exact .some (h.returning (h.returning (h.text _) _) _)
    | bool | int32 | int64 | float64 => exact .some (load _ rfl)
    | _ => exact .none
  | double x =>
    cases target with
    | bool | float32 | float64 => exact .some (load _ rfl)
    | _ => exact .none
  | text s =>
    cases target with
    | text => exact .some (h.returning (h.returning (h.text _) _) _)
    | mutText => exact .some (h.returning (h.seq (h.text _) (h.apply _)) _)
    | bool => exact .some (load _ rfl)
    | _ => exact .none

end Congruence

/-! ### Expressions -/

/-- Two plans open with the same one of some plans and go on with plans that are related. -/
inductive Opens (P : (α : Type) → Script α → Script α → Prop) (own : List (Script Rep))
    {α : Type} : Script α → Script α → Prop
  /-- What follows the opening may depend on its result. -/
  | intro {first : Script Rep} {f f' : Rep → Script α} (hfirst : first ∈ own)
      (hf : ∀ r, P α (f r) (f' r)) : Opens P own (first >>= f) (first >>= f')

section Opens

variable {own : List (Script Rep)} {p p' : Script α}

/-- Related plans may open with nothing. -/
theorem Opens.of (hp : P α p p') (hown : (return .void) ∈ own) : Opens P own p p' := by
  have hopens : Opens P own ((return Rep.void) >>= fun _ => p)
      ((return Rep.void) >>= fun _ => p') := .intro hown fun _ => hp
  exact hopens

theorem Opens.mono {own' : List (Script Rep)} (hp : Opens P own p p') (hown : own ⊆ own') :
    Opens P own' p p' := by
  obtain ⟨hfirst, hf⟩ := hp
  exact .intro (hown hfirst) hf

/-- A plan may open with itself, and go on with nothing. -/
theorem Opens.self (h : S.Congruence S' P) {first : Script Rep} (hfirst : first ∈ own) :
    Opens P own first first := by
  have hopens : Opens P own (first >>= Pure.pure) (first >>= Pure.pure) := .intro hfirst h.pure
  rwa [bind_pure] at hopens

theorem Opens.bind (h : S.Congruence S' P) (hp : Opens P own p p') {f f' : α → Script β}
    (hf : ∀ a, P β (f a) (f' a)) : Opens P own (p >>= f) (p' >>= f') := by
  obtain ⟨hfirst, hg⟩ := hp
  rw [bind_assoc, bind_assoc]
  exact .intro hfirst fun r => h.bind (hg r) hf

end Opens

/-- The plan that spares the evaluation of an expression, if there is one: what has no effects is
left out where its value is discarded, and a known value is folded unless it is read by
reference. -/
def spared? (S : Scope) (o : Options) (e : Expr) (target : Rep) : Option (Script Rep) :=
  if target = .void then
    if o.elidePureDiscards ∧ e.isPure then some (return .void) else none
  else if e.access = .readRef then none
  else S.folded? o e target

/-- The plan by which an expression is evaluated into a wanted representation, if nothing spares
that. -/
def evaluateInto (S : Scope) (o : Options) (e : Expr) (target : Rep) : Script Rep :=
  if target = .void then do
    let source ← S.evaluate e
    .drop source
    return .void
  else if e.access = .readRef then S.evaluateAndReshape e target
  else (S.typedRead? o e target).getD (S.evaluateAndReshape e target)

/-- An expression is evaluated, unless that is spared. -/
theorem reshapeExpr_eq (S : Scope) (o : Options) (e : Expr) (target : Rep) :
    S.reshapeExpr o e target = (S.spared? o e target).getD (S.evaluateInto o e target) := by
  unfold reshapeExpr spared? evaluateInto discardExpr
  split_ifs
  · rfl
  · rfl
  · rfl
  · cases S.folded? o e target <;> rfl

namespace Congruence

variable (h : S.Congruence S' P) {o : Options}

include h

theorem narrowPlace? (p : Place) (hint : Hint) :
    Option.Rel (Opens P p.accesses) (S.narrowPlace? p hint) (S'.narrowPlace? p hint) := by
  unfold Scope.narrowPlace?
  split
  · cases accessor? _ hint with
    | none => exact .none
    | some op => exact .some (.intro (by simp [Place.accesses]) fun _ => h.call op)
  · exact .none

theorem readThroughAddress? (p : Place) (target : Rep) :
    Option.Rel (Opens P p.accesses) (S.readThroughAddress? p target)
      (S'.readThroughAddress? p target) := by
  unfold Scope.readThroughAddress?
  split
  · cases addressOp? _ target with
    | none => exact .none
    | some op => exact .some (.intro (by simp [Place.accesses]) fun _ => h.call op)
  · exact .none

theorem loadAlias (p : Place) (hint : Hint) :
    Opens P p.accesses (S.loadAlias p hint) (S'.loadAlias p hint) := by
  unfold Scope.loadAlias
  split_ifs
  · exact .intro (by simp [Place.accesses]) fun _ => h.call _
  · exact .intro List.mem_cons_self fun _ => h.reshape _ _ _

/-- **Evaluating an expression** begins with what it is read from or who is called for it. -/
theorem evaluate (e : Expr) : Opens P e.sources (S.evaluate e) (S'.evaluate e) := by
  unfold Scope.evaluate Expr.sources
  cases e.kind with
  | literal c => exact .of (h.evaluateLiteral c) List.mem_cons_self
  | load p =>
    dsimp only
    split_ifs
    · exact h.loadAlias p e.hint
    · exact .self h List.mem_cons_self
  | invoke routine returns => exact .self h List.mem_cons_self

theorem folded? (e : Expr) (target : Rep) :
    Option.Rel (P Rep) (S.folded? o e target) (S'.folded? o e target) := by
  unfold Scope.folded?
  split_ifs
  · cases e.known? with
    | none => exact .none
    | some c => exact h.loadConstant? c target
  · exact .none

theorem typedRead? (e : Expr) (target : Rep) :
    Option.Rel (Opens P e.sources) (S.typedRead? o e target) (S'.typedRead? o e target) := by
  unfold Scope.typedRead? Expr.sources
  cases e.kind with
  | load p =>
    have hnarrow := h.narrowPlace? p e.hint
    have hread := h.readThroughAddress? p target
    dsimp only
    split_ifs
    · exact hread
    · exact .none
    all_goals
      generalize S.narrowPlace? p e.hint = plan, S'.narrowPlace? p e.hint = plan' at hnarrow ⊢
      cases hnarrow with
      | some hplan => exact .some (hplan.bind h fun _ => h.reshape _ _ _)
      | none => first | exact hread | exact .none
  | _ => exact .none

theorem evaluateAndReshape (e : Expr) (target : Rep) :
    Opens P e.sources (S.evaluateAndReshape e target) (S'.evaluateAndReshape e target) := by
  refine (h.evaluate e).bind h fun source => ?_
  split_ifs
  · exact h.call _
  · exact h.reshape _ _ _

theorem spared? (e : Expr) (target : Rep) :
    Option.Rel (P Rep) (S.spared? o e target) (S'.spared? o e target) := by
  unfold Scope.spared?
  split_ifs
  · exact .some (h.pure _)
  · exact .none
  · exact .none
  · exact h.folded? e target

theorem evaluateInto (e : Expr) (target : Rep) :
    Opens P e.sources (S.evaluateInto o e target) (S'.evaluateInto o e target) := by
  unfold Scope.evaluateInto
  split_ifs
  · exact (h.evaluate e).bind h fun source => h.returning (h.drop source) _
  · exact h.evaluateAndReshape e target
  · have hread := h.typedRead? (o := o) e target
    generalize S.typedRead? o e target = read, S'.typedRead? o e target = read' at hread ⊢
    cases hread with
    | some hplan => exact hplan
    | none => exact h.evaluateAndReshape e target

/-- **Every conversion of an expression** opens with what is emitted for it of its own accord. -/
theorem reshapeExpr (e : Expr) (target : Rep) :
    Opens P e.own (S.reshapeExpr o e target) (S'.reshapeExpr o e target) := by
  have hspared := h.spared? (o := o) e target
  rw [reshapeExpr_eq, reshapeExpr_eq]
  generalize S.spared? o e target = plan, S'.spared? o e target = plan' at hspared ⊢
  cases hspared with
  | some hplan => exact .of hplan e.return_mem_own
  | none => exact (h.evaluateInto e target).mono e.sources_subset_own

/-- To cast to an array is to convert, under the name of another conversion. -/
theorem castToArray (e : Expr) : ∃ p p' : Script Rep,
    S.castToArray e = p.mapError (.inConversion e.staticRep .array) ∧
      S'.castToArray e = p'.mapError (.inConversion e.staticRep .array) ∧
        Opens P e.sources p p' := by
  refine ⟨_, _, rfl, rfl, (h.evaluate e.readByValue).bind h fun source => ?_⟩
  refine h.bind (h.dereference source) fun inner => ?_
  have hunion : P Rep (S.reshape inner e.hint.withoutRef .value >>= fun _ =>
        S.callByAddress .value .valueToArray)
      (S'.reshape inner e.hint.withoutRef .value >>= fun _ =>
        S'.callByAddress .value .valueToArray) :=
    h.seq (h.reshape _ _ _) (h.callByAddress _ _ rfl)
  cases inner with
  | array => exact h.pure _
  | object c =>
    dsimp only
    rw [h.classes]
    split_ifs
    · exact h.call _
    · exact hunion
  | _ => exact hunion

end Congruence

end Scope

/-! ### Requests -/

/-- What may be emitted of its own accord for a request. -/
def Request.own : Request → List (Script Rep)
  | narrowPlace p _ => p.own
  | evaluate e | convertExpr e _ | convertExprToBool e _ | numberToDouble e | castToArray e => e.own
  | _ => [return .void]

/-- The steps of a plan are those of one of some plans, followed by steps of a kind. -/
def Script.Continues {α : Type} (R : List Step → Prop) (own : List (Script Rep))
    (p : Script α) : Prop :=
  ∃ first ∈ own, ∃ rest, p.steps = first.steps ++ rest ∧ R rest

section Requests

variable {S : Scope} {o : Options} {R : List Step → Prop} {α β : Type} {own : List (Script Rep)}
  {p : Script α}

theorem Script.Continues.of (hp : R p.steps) (hown : (return .void) ∈ own) : p.Continues R own :=
  ⟨_, hown, p.steps, rfl, hp⟩

/-- Another account of an error changes no step. -/
theorem Script.Continues.mapError (hp : p.Continues R own) (f : ConvertError → ConvertError) :
    (p.mapError f).Continues R own := hp

/-- Steps of the kind may follow, if they may follow one another. -/
theorem Script.Continues.bind_of_append (append : ∀ {ts us}, R ts → R us → R (ts ++ us))
    (hp : p.Continues R own) {f : α → Script β} (hf : ∀ a, p.result = .ok a → R (f a).steps) :
    (p >>= f).Continues R own := by
  obtain ⟨first, hfirst, rest, hsteps, hrest⟩ := hp
  rw [Script.Continues, Script.steps_bind, hsteps]
  cases hresult : p.result with
  | ok a => exact ⟨first, hfirst, _, List.append_assoc _ _ _, append hrest (hf a hresult)⟩
  | error e => exact ⟨first, hfirst, rest, List.append_nil _, hrest⟩

variable (h : S.Congruence S fun _ p _ => R p.steps)

include h

theorem Scope.Congruence.append {ts us : List Step} (hts : R ts) (hus : R us) : R (ts ++ us) :=
  let plan (ts : List Step) : Script Unit := ⟨ts, .ok ()⟩
  @Scope.Congruence.seq _ _ _ _ _ h (plan ts) (plan ts) (plan us) (plan us) hts hus

theorem Script.Continues.bind (hp : p.Continues R own) {f : α → Script β}
    (hf : ∀ a, R (f a).steps) : (p >>= f).Continues R own :=
  hp.bind_of_append h.append fun a _ => hf a

theorem Script.Continues.map (hp : p.Continues R own) (f : α → β) : (f <$> p).Continues R own :=
  hp.bind h fun a => h.pure (f a)

theorem Scope.Opens.continues {p' : Script α} (hp : Opens (fun _ p _ => R p.steps) own p p') :
    p.Continues R own := by
  obtain ⟨hfirst, hf⟩ := hp
  have hopening : (_ : Script Rep).Continues R own :=
    ⟨_, hfirst, [], (List.append_nil _).symm, h.pure ()⟩
  exact hopening.bind h hf

theorem Request.continues_optionally {Q : Script Rep → Script Rep → Prop}
    {plan plan' : Option (Script Rep)} (hplan : Option.Rel Q plan plan')
    (hQ : ∀ {p p'}, Q p p' → p.Continues R own) (hown : (return .void) ∈ own) :
    (optionally plan).Continues R own := by
  cases hplan with
  | none => exact .of (h.pure _) hown
  | some hp => exact (hQ hp).bind h fun _ => h.pure _

/-- **Every request** that is planned opens with what is emitted of its own accord and goes on
with steps of the kind that all constructions keep to. -/
theorem Request.continues_plan? {q : Request} {plan : Script Reply}
    (hplan : q.plan? S o = some plan) : plan.Continues R q.own := by
  have hnil : (return .void) ∈ ([return .void] : List (Script Rep)) := List.mem_cons_self
  have negated : ∀ b : Bool, R (do
      if b then Script.negate
      return .bool : Script Rep).steps := by
    intro b
    cases b
    · exact h.pure Rep.bool
    · exact h.append h.negate (h.pure Rep.bool)
  have evaluated : ∀ e : Expr, (S.evaluate e).Continues R e.own := fun e =>
    ((h.evaluate e).mono e.sources_subset_own).continues h
  have converted : ∀ e target, (S.convertExpr o e target).Continues R e.own := fun e target =>
    .mapError ((h.reshapeExpr (o := o) (e.consumedAs target) target).continues h) _
  cases q with
  | convert source hint target =>
    cases hplan
    exact .map h (.mapError (.of (h.reshape source hint target) hnil) _) _
  | convertToBool source hint b =>
    cases hplan
    have hconvert : (S.convert source hint .bool).Continues R [return .void] :=
      .mapError (.of (h.reshape source hint .bool) hnil) _
    exact .map h (hconvert.bind h fun _ => negated b) _
  | asArray source =>
    cases hplan
    exact .map h (.of (h.asArray source) hnil) _
  | asObject source =>
    cases hplan
    exact .map h (.of (h.asObject source) hnil) _
  | widenInt source =>
    cases hplan
    exact .map h (.of (h.widenInt source) hnil) _
  | parseText source =>
    cases hplan
    exact .map h (.of (h.parseText source) hnil) _
  | dereference source =>
    cases hplan
    exact .map h (.of (h.dereference source) hnil) _
  | narrow source hint =>
    cases hplan
    exact continues_optionally h (h.narrow? source hint) (fun hp => .of hp hnil) hnil
  | narrowPlace p hint =>
    cases hplan
    exact continues_optionally h (h.narrowPlace? p hint)
      (fun hp => (hp.mono p.accesses_subset_own).continues h) p.return_mem_own
  | loadConstant c target =>
    cases hplan
    exact continues_optionally h (h.loadConstant? c target) (fun hp => .of hp hnil) hnil
  | evaluate e =>
    cases hplan
    exact .map h (evaluated e) _
  | convertExpr e target =>
    cases hplan
    exact .map h (converted e target) _
  | convertExprToBool e b =>
    cases hplan
    exact .map h ((converted e .bool).bind h fun _ => negated b) _
  | numberToDouble e =>
    cases hplan
    refine .map h ?_ _
    unfold Scope.numberToDouble
    dsimp only
    split
    · exact .of (h.append (h.emit _ rfl) (h.pure Rep.float64)) e.return_mem_own
    · exact (evaluated e.readByValue).bind h fun source => h.reshape source e.hint .float64
  | castToArray e =>
    cases hplan
    obtain ⟨p, _, hp, -, hopens⟩ := h.castToArray e
    rw [hp]
    exact .map h (.mapError ((hopens.mono e.sources_subset_own).continues h) _) _
  | emit _ | intern _ | declare _ _ | label | endStatement | spill _ => cases hplan

end Requests

end Recast
